import HermesDecomp.Analysis.StructuredRuns

/-!
# What the dataflow engine reports

An analysis is sound for a meaning of its facts when its joins keep what either side allows and
its transfer follows what statements do. On every regular path through a body whose loops
settle, the fact reported for a statement then holds each time the statement is reached.
-/

namespace HermesDecomp.Dataflow

open Ir

variable {F σ : Type} [Fact F]

/-- A meaning of facts that joins respect. -/
structure Meaning (F σ : Type) [Fact F] where
  holds : F → σ → Prop
  join_left : ∀ {left right : F} {definitions : σ}, holds left definitions →
    holds (Fact.join left right).1 definitions
  join_right : ∀ {left right : F} {definitions : σ}, holds right definitions →
    holds (Fact.join left right).1 definitions
  join_same : ∀ {left right : F}, (Fact.join left right).2 = false → (Fact.join left right).1 = left

namespace Meaning

variable (meaning : Meaning F σ)

/-- The definitions a state allows. A dead state allows none. -/
def Admits (state : State F) (definitions : σ) : Prop :=
  state.live = true ∧ meaning.holds state.fact definitions

variable {meaning}

variable {definitions : σ}

theorem admits_join_left {left right : State F} (admitted : meaning.Admits left definitions) :
    meaning.Admits (left.join right).1 definitions := by
  obtain ⟨live, holds⟩ := admitted
  unfold State.join
  rw [live]
  cases right.live with
  | false => exact ⟨live, holds⟩
  | true => exact ⟨rfl, meaning.join_left holds⟩

theorem admits_join_right {left right : State F} (admitted : meaning.Admits right definitions) :
    meaning.Admits (left.join right).1 definitions := by
  obtain ⟨live, holds⟩ := admitted
  unfold State.join
  rw [live]
  cases left.live with
  | false => exact ⟨rfl, holds⟩
  | true => exact ⟨rfl, meaning.join_right holds⟩

/-- A head that a walk does not change allows what the walk comes to. -/
theorem admits_of_stable {walk : State F → State F} {head : State F} (stable : Stable walk head)
    (admitted : meaning.Admits (walk head) definitions) : meaning.Admits head definitions := by
  have joined : meaning.Admits (head.join (walk head)).1 definitions := admits_join_right admitted
  obtain ⟨live, _⟩ := admitted
  unfold Stable State.join at stable
  unfold State.join at joined
  rw [live] at stable joined
  cases alive : head.live with
  | false =>
    rw [alive] at stable
    cases stable
  | true =>
    rw [alive] at stable joined
    refine ⟨alive, ?_⟩
    rw [← meaning.join_same stable]
    exact joined.2

/-- The head of a loop keeps what it allowed on entry. -/
theorem admits_settleLoop {walk : State F → State F} {rounds : Nat} {head : State F}
    (admitted : meaning.Admits head definitions) :
    meaning.Admits (settleLoop walk rounds head) definitions := by
  induction rounds generalizing head with
  | zero => exact admitted
  | succ rounds ih =>
    rw [settleLoop]
    split
    · exact ih (admits_join_left admitted)
    · exact admits_join_left admitted

end Meaning

section Soundness

variable (meaning : Meaning F σ) (reported : Place → Option F)

/-- The facts reported for the statements visited hold there. -/
def Seen (visited : List (Place × σ)) : Prop :=
  ∀ visit ∈ visited, ∃ fact, reported visit.1 = some fact ∧ meaning.holds fact visit.2

/-- From definitions a state allows, a part visits statements whose facts hold, and ends
normally only with definitions another state allows. -/
def Sound (behaviour : Behaviour σ) (before after : State F) : Prop :=
  ∀ start visited exit final, meaning.Admits before start → behaviour start visited exit final →
    Seen meaning reported visited ∧ (exit = .normal → meaning.Admits after final)

variable {meaning reported}

theorem Seen.nil : Seen meaning reported ([] : List (Place × σ)) := by
  intro visit member
  cases member

theorem Seen.append {visited visited' : List (Place × σ)} (seen : Seen meaning reported visited)
    (seen' : Seen meaning reported visited') : Seen meaning reported (visited ++ visited') := by
  intro visit member
  rcases List.mem_append.mp member with first | later
  · exact seen visit first
  · exact seen' visit later

theorem Seen.cons {place : Place} {definitions : σ} {fact : F} {visited : List (Place × σ)}
    (found : reported place = some fact) (holds : meaning.holds fact definitions)
    (seen : Seen meaning reported visited) :
    Seen meaning reported ((place, definitions) :: visited) := by
  intro visit member
  rcases List.mem_cons.mp member with rfl | later
  · exact ⟨fact, found, holds⟩
  · exact seen visit later

namespace Sound

variable {first second : Behaviour σ} {before middle after : State F}

/-- Allowing more behind a part, and less before it, keeps it sound. -/
theorem weaken {before' after' : State F} (sound : Sound meaning reported first before after)
    (into : ∀ definitions, meaning.Admits before' definitions → meaning.Admits before definitions)
    (out : ∀ definitions, meaning.Admits after definitions → meaning.Admits after' definitions) :
    Sound meaning reported first before' after' := by
  intro start visited exit final admitted ran
  obtain ⟨seen, ends⟩ := sound start visited exit final (into start admitted) ran
  exact ⟨seen, fun normal => out final (ends normal)⟩

theorem ends {change : σ → σ}
    (follows : ∀ definitions, meaning.Admits before definitions →
      meaning.Admits after (change definitions)) :
    Sound meaning reported (Ends .normal change) before after := by
  rintro start visited exit final admitted ⟨_⟩
  exact ⟨Seen.nil, fun _ => follows start admitted⟩

theorem leaves {exit : Exit} (abnormal : exit ≠ .normal) {change : σ → σ} :
    Sound meaning reported (Ends exit change) before after := by
  rintro start visited exit final admitted ⟨_⟩
  exact ⟨Seen.nil, fun normal => absurd normal abnormal⟩

theorem seq (sound : Sound meaning reported first before middle)
    (sound' : Sound meaning reported second middle after) :
    Sound meaning reported (Seq first second) before after := by
  intro start visited exit final admitted ran
  cases ran with
  | through ran continued =>
    obtain ⟨seen, ends⟩ := sound _ _ _ _ admitted ran
    obtain ⟨seen', ends'⟩ := sound' _ _ _ _ (ends rfl) continued
    exact ⟨seen.append seen', ends'⟩
  | leave ran abnormal =>
    exact ⟨(sound _ _ _ _ admitted ran).1, fun normal => absurd normal abnormal⟩

section

variable (sound : Sound meaning reported first before after)

include sound

theorem either (sound' : Sound meaning reported second before after) :
    Sound meaning reported (Either first second) before after := by
  intro start visited exit final admitted ran
  cases ran with
  | left ran => exact sound _ _ _ _ admitted ran
  | right ran => exact sound' _ _ _ _ admitted ran

theorem join_left {after' : State F} : Sound meaning reported first before (after.join after').1 :=
  sound.weaken (fun _ admitted => admitted) fun _ admitted => Meaning.admits_join_left admitted

theorem join_right {after' : State F} : Sound meaning reported first before (after'.join after).1 :=
  sound.weaken (fun _ admitted => admitted) fun _ admitted => Meaning.admits_join_right admitted

end

theorem reached {place : Place} (found : reported place = some before.fact)
    (sound : Sound meaning reported first before after) :
    Sound meaning reported (Reached place first) before after := by
  intro start visited exit final admitted ran
  cases ran with
  | stop | throw => exact ⟨.cons found admitted.2 .nil, nofun⟩
  | run ran =>
    obtain ⟨seen, ends⟩ := sound _ _ _ _ admitted ran
    exact ⟨.cons found admitted.2 seen, ends⟩

/-- A part whose regular jumps end with what it can end with normally. -/
theorem catching {caught : Exit → Prop} (sound : Sound meaning reported first before after) :
    Sound meaning reported (Catching true caught first) before after := by
  intro start visited exit final admitted ran
  cases ran with
  | through ran passes => exact sound _ _ _ _ admitted ran
  | caught ran ends kept =>
    obtain ⟨visited', normally⟩ := kept rfl
    exact ⟨(sound _ _ _ _ admitted ran).1, fun _ => (sound _ _ _ _ admitted normally).2 rfl⟩

/-- Iterations from a state that leads into the head of a loop and that an iteration comes
back to. -/
theorem repeats {head walked state : State F} (sound : Sound meaning reported first head walked)
    (into : ∀ definitions, meaning.Admits state definitions → meaning.Admits head definitions)
    (back : ∀ definitions, meaning.Admits walked definitions → meaning.Admits state definitions) :
    Sound meaning reported (Repeats first) state state := by
  intro start visited exit final admitted ran
  induction ran with
  | stop => exact ⟨.nil, fun _ => admitted⟩
  | throw => exact ⟨.nil, nofun⟩
  | again ran continued ih =>
    obtain ⟨seen, ends⟩ := sound _ _ _ _ (into _ admitted) ran
    obtain ⟨seen', ends'⟩ := ih (back _ (ends rfl))
    exact ⟨seen.append seen', ends'⟩
  | leave ran abnormal =>
    exact ⟨(sound _ _ _ _ (into _ admitted) ran).1, fun normal => absurd normal abnormal⟩

theorem handling {handled : State F} (sound : Sound meaning reported first before after)
    (sound' : Sound meaning reported second (before.join after).1 handled) :
    Sound meaning reported (Handling true first second) before (after.join handled).1 := by
  intro start visited exit final admitted ran
  cases ran with
  | through ran passes =>
    obtain ⟨seen, ends⟩ := sound _ _ _ _ admitted ran
    exact ⟨seen, fun normal => Meaning.admits_join_left (ends normal)⟩
  | @caught _ middle _ _ _ _ ran kept continued =>
    have entered : meaning.Admits (before.join after).1 middle := by
      rcases kept rfl with rfl | ⟨visited', normally⟩
      · exact Meaning.admits_join_left admitted
      · exact Meaning.admits_join_right ((sound _ _ _ _ admitted normally).2 rfl)
    obtain ⟨seen', ends'⟩ := sound' _ _ _ _ entered continued
    exact ⟨(sound _ _ _ _ admitted ran).1.append seen',
      fun normal => Meaning.admits_join_right (ends' normal)⟩

theorem unless_eq_normal {exit final : Exit} :
    exit.unless final = .normal ↔ exit = .normal ∧ final = .normal := by
  unfold Exit.unless
  split
  case isTrue same => simp [same]
  case isFalse different => simp [different]

/-- A final part that is entered with what the part before it can end with, unless it is
empty. -/
theorem lastly {quiet : Prop} (sound : Sound meaning reported first before middle)
    (sound' : Sound meaning reported second middle after)
    (empty : quiet → ∀ start visited exit final, second start visited exit final →
      visited = [] ∧ exit = .normal) :
    Sound meaning reported (Finally true quiet first second) before after := by
  intro start visited exit final admitted ran
  cases ran with
  | stopped ran => exact ⟨(sound _ _ _ _ admitted ran).1, nofun⟩
  | ended ran unstopped kept continued =>
    obtain ⟨seen, ends⟩ := sound _ _ _ _ admitted ran
    rcases kept rfl with nothing | ⟨visited', normally⟩
    · obtain ⟨rfl, rfl⟩ := empty nothing _ _ _ _ continued
      rw [List.append_nil]
      refine ⟨seen, fun normal => ?_⟩
      obtain ⟨rfl, _⟩ := unless_eq_normal.mp normal
      exact (sound' _ _ _ _ (ends rfl) continued).2 rfl
    · obtain ⟨seen', ends'⟩ := sound' _ _ _ _ ((sound _ _ _ _ admitted normally).2 rfl) continued
      exact ⟨seen.append seen', fun normal => ends' (unless_eq_normal.mp normal).2⟩

/-- Nothing starts from a dead state. -/
theorem dead (still : before.live = false) : Sound meaning reported first before after := by
  rintro start visited exit final ⟨live, _⟩
  rw [still] at live
  cases live

end Sound

variable (meaning reported)

/-- The reports are what is looked up at their places. -/
def Told (reports : List (Report F)) : Prop :=
  ∀ report ∈ reports, reported report.place = some report.fact

/-- Binding a name again keeps a fact. -/
def Closed (bound : String → σ → σ) (name : String) (fact : F) : Prop :=
  ∀ definitions, meaning.holds fact definitions → meaning.holds fact (bound name definitions)

/-- Transfers follow what statements do, and a declared name may be bound, again and again, or
not. -/
structure Follows (analysis : Analysis F) (effect : Place → Statement → σ → σ)
    (bound : String → σ → σ) : Prop where
  transfer : ∀ place statement fact definitions, reported place = some fact →
    meaning.holds fact definitions →
      meaning.holds (analysis.transfer statement fact) (effect place statement definitions)
  keep : ∀ name fact definitions, meaning.holds fact definitions →
    meaning.holds (analysis.declare name fact) definitions
  closed : ∀ name fact, Closed meaning bound name (analysis.declare name fact)
  join_closed : ∀ name left right, Closed meaning bound name left →
    Closed meaning bound name (Fact.join left right).1

variable {meaning reported}

omit [Fact F] in
theorem Told.left {reports reports' : List (Report F)} (told : Told reported (reports ++ reports')) :
    Told reported reports :=
  fun report member => told report (List.mem_append_left _ member)

omit [Fact F] in
theorem Told.right {reports reports' : List (Report F)} (told : Told reported (reports ++ reports')) :
    Told reported reports' :=
  fun report member => told report (List.mem_append_right _ member)

variable {state : State F}

section

variable {iteration : Behaviour σ} {walk : State F → State F}
  (stable : Stable walk (settleLoop walk maxLoopIterations state))
  (sound : Sound meaning reported iteration (settleLoop walk maxLoopIterations state) (walk (settleLoop walk maxLoopIterations state)))

include stable sound

/-- A loop that tests first around a settled iteration. -/
theorem sound_looping {label : Option String} :
    Sound meaning reported (looping true label iteration) state
      (settleLoop walk maxLoopIterations state) := by
  refine Sound.catching (Sound.weaken (Sound.repeats sound (fun _ admitted => admitted) ?_) ?_ ?_)
  · exact fun definitions admitted => Meaning.admits_of_stable stable admitted
  · exact fun definitions admitted => Meaning.admits_settleLoop admitted
  · exact fun definitions admitted => admitted

/-- A loop that tests last around a settled iteration. -/
theorem sound_testing :
    Sound meaning reported (Seq iteration (Repeats iteration)) state
      (walk (settleLoop walk maxLoopIterations state)) := by
  refine Sound.weaken (sound.seq (Sound.repeats sound ?_ fun _ admitted => admitted)) ?_ ?_
  · exact fun definitions admitted => Meaning.admits_of_stable stable admitted
  · exact fun definitions admitted => Meaning.admits_settleLoop admitted
  · exact fun definitions admitted => admitted

end

/-- The exits of a switch allow some definitions. -/
def Exits (meaning : Meaning F σ) (exits : Option (State F)) (definitions : σ) : Prop :=
  ∃ state, exits = some state ∧ meaning.Admits state definitions

theorem exits_withExit {exits : Option (State F)} {definitions : σ}
    (earlier : Exits meaning exits definitions) :
    meaning.Admits (withExit exits state) definitions := by
  obtain ⟨found, rfl, admitted⟩ := earlier
  exact Meaning.admits_join_left admitted

theorem admits_withExit {exits : Option (State F)} {definitions : σ}
    (admitted : meaning.Admits state definitions) :
    meaning.Admits (withExit exits state) definitions := by
  cases exits with
  | none => exact admitted
  | some found => exact Meaning.admits_join_right admitted

section Statements

variable {analysis : Analysis F} {effect : Place → Statement → σ → σ} {bound : String → σ → σ}

/-- The cases of a switch keep the exits found before them. -/
theorem exits_runCases {place : Place} {before : State F} {definitions : σ}
    (cases : List (Expression × List Statement)) (index : Nat) (above : State F)
    (exits : Option (State F)) (earlier : Exits meaning exits definitions) :
    Exits meaning (runCases analysis place before cases index above exits).2.1 definitions := by
  induction cases generalizing index above exits with
  | nil =>
    rw [runCases]
    exact earlier
  | cons first rest ih =>
    rw [runCases]
    exact ih _ _ _ ⟨_, rfl, exits_withExit earlier⟩

variable (follows : Follows meaning reported analysis effect bound)

include follows

/-- A name that was declared at the head of a loop may be bound in every iteration. -/
theorem closed_settleLoop {name : String} {walk : State F → State F} {rounds : Nat} {head : State F}
    (live : head.live = true) (closed : Closed meaning bound name head.fact) :
    Closed meaning bound name (settleLoop walk rounds head).fact := by
  induction rounds generalizing head with
  | zero => exact closed
  | succ rounds ih =>
    have joined : (head.join (walk head)).1.live = true ∧
        Closed meaning bound name (head.join (walk head)).1.fact := by
      unfold State.join
      rw [live]
      cases (walk head).live with
      | false => exact ⟨live, closed⟩
      | true => exact ⟨rfl, follows.join_closed name _ _ closed⟩
    rw [settleLoop]
    split
    · exact ih joined.1 joined.2
    · exact joined.2

variable {state : State F}

/-- A statement that is no control structure. -/
theorem sound_leaf {place : Place} (found : reported place = some state.fact)
    (statement : Statement) :
    Sound meaning reported (Reached place (Ends .normal (effect place statement))) state
      { state with fact := analysis.transfer statement state.fact } := by
  refine Sound.reached found (Sound.ends ?_)
  rintro definitions ⟨live, holds⟩
  exact ⟨live, follows.transfer place statement state.fact definitions found holds⟩

/-- A loop that binds a name in every iteration. -/
theorem sound_binding {label : Option String} {name : String} {body : Behaviour σ}
    {walk : State F → State F} (stable : Stable walk (settleLoop walk maxLoopIterations
      { state with fact := analysis.declare name state.fact })) (sound : Sound meaning reported body
      (settleLoop walk maxLoopIterations { state with fact := analysis.declare name state.fact })
      (walk (settleLoop walk maxLoopIterations
        { state with fact := analysis.declare name state.fact }))) :
    Sound meaning reported (looping true label (Seq (Ends .normal (bound name)) body)) state
      (settleLoop walk maxLoopIterations
        { state with fact := analysis.declare name state.fact }) := by
  by_cases live : state.live = true
  · have closed : Closed meaning bound name (settleLoop walk maxLoopIterations
        { state with fact := analysis.declare name state.fact }).fact :=
      closed_settleLoop follows live (follows.closed name state.fact)
    refine (sound_looping stable (Sound.seq (Sound.ends ?_) sound)).weaken ?_
      fun _ admitted => admitted
    · exact fun definitions admitted => ⟨admitted.1, closed definitions admitted.2⟩
    · exact fun definitions admitted => ⟨admitted.1, follows.keep name _ _ admitted.2⟩
  · exact .dead (Bool.eq_false_iff.mpr live)

/-- The parameter of a catch clause is bound on entry to it. -/
theorem sound_param (param : Option String) :
    Sound meaning reported (Ends .normal (boundParam bound param)) state
      (withParam analysis param state) := by
  refine .ends ?_
  rintro definitions ⟨live, holds⟩
  cases param with
  | none => exact ⟨live, holds⟩
  | some name => exact ⟨live, follows.closed name _ _ (follows.keep name _ _ holds)⟩

set_option linter.unusedSectionVars false

mutual

/-- The facts reported inside a statement hold on the regular paths through it. -/
theorem sound_stmt : ∀ (statement : Statement) (label : Option String) (place : Place)
    (state : State F), Settles analysis place statement state →
      reported place = some state.fact → Told reported (runStmt analysis place statement state).2 →
        Sound meaning reported (paths true effect bound label place statement) state
          (runStmt analysis place statement state).1
  | .ifStmt condition thenBody elseBody, label, place, state, settles, found, told => by
      rw [Settles] at settles
      rw [runStmt] at told ⊢
      rw [paths]
      exact .reached found (.either
        (sound_body thenBody none (0 :: place) 0 state settles.1 told.left).join_left
        (sound_body elseBody none (1 :: place) 0 state settles.2 told.right).join_right)
  | .block inner, label, place, state, settles, found, told => by
      rw [Settles] at settles
      rw [runStmt] at told ⊢
      rw [paths]
      exact .reached found (sound_body inner none (0 :: place) 0 state settles told)
  | .whileStmt condition body, label, place, state, settles, found, told => by
      rw [Settles] at settles
      rw [runStmt] at told ⊢
      rw [paths]
      exact .reached found (sound_looping settles.1
        (.catching (sound_body body none (0 :: place) 0 _ settles.2 told)))
  | .doWhile body condition, label, place, state, settles, found, told => by
      rw [Settles] at settles
      rw [runStmt] at told ⊢
      rw [paths]
      refine .reached found (.catching (Sound.weaken (sound_testing settles.1
        (.catching (sound_body body none (0 :: place) 0 _ settles.2 told)))
        (fun _ admitted => admitted) ?_))
      rintro definitions ⟨live, holds⟩
      exact ⟨Bool.or_eq_true_iff.mpr (.inl live), holds⟩
  | .forStmt init condition update body, label, place, state, settles, found, told => by
      rw [Settles] at settles
      obtain ⟨starts, stable, walks, updates⟩ := settles
      rw [runStmt] at told ⊢
      rw [paths]
      refine .reached found (.seq (sound_init init (1 :: place) state starts told.left.left)
        (sound_looping stable (.seq
          (.catching (sound_body body none (0 :: place) 0 _ walks told.left.right))
          (sound_update update (2 :: place) _ updates ?_))))
      intro live
      have after := told.right
      rw [if_pos live] at after
      exact after
  | .forOf name iterable body, label, place, state, settles, found, told
  | .forIn name object body, label, place, state, settles, found, told => by
      rw [Settles] at settles
      rw [runStmt] at told ⊢
      rw [paths]
      exact .reached found (sound_binding follows settles.1
        (.catching (sound_body body none (0 :: place) 0 _ settles.2 told)))
  | .switch discriminant cases default, label, place, state, settles, found, told => by
      rw [Settles] at settles
      rw [runStmt] at told ⊢
      rw [paths]
      have cased := sound_cases cases (pathsDefault true effect bound (cases.length :: place) default)
        place 0 state ⟨state.fact, false⟩ none settles.1 told.left
        (runDefault analysis (cases.length :: place) default state
          (runCases analysis place state cases 0 ⟨state.fact, false⟩ none).1
          (runCases analysis place state cases 0 ⟨state.fact, false⟩ none).2.1).1
      obtain ⟨defaults, covered⟩ := sound_default default (cases.length :: place) state
        (runCases analysis place state cases 0 ⟨state.fact, false⟩ none).1
        (runCases analysis place state cases 0 ⟨state.fact, false⟩ none).2.1 settles.2 told.right
      exact .reached found (.catching (cased covered defaults nofun).1)
  | .tryCatch tryBody catchParam catchBody finallyBody, label, place, state, settles, found, told => by
      rw [Settles] at settles
      obtain ⟨tries, catches, ends⟩ := settles
      rw [runStmt] at told ⊢
      rw [paths]
      have tried := sound_body tryBody none (0 :: place) 0 state tries told.left.left
      have handled := (sound_param follows catchParam).seq
        (sound_body catchBody none (1 :: place) 0 _ catches told.left.right)
      refine .reached found (.lastly ?_
        (sound_body finallyBody none (2 :: place) 0 _ ends told.right) ?_)
      · split
        · exact tried.join_left
        · exact .handling tried handled
      · rintro rfl start visited exit final ran
        rw [pathsBody] at ran
        cases ran
        exact ⟨rfl, rfl⟩
  | .returnStmt value, label, place, state, settles, found, told
  | .throwStmt value, label, place, state, settles, found, told
  | .breakStmt jump, label, place, state, settles, found, told
  | .continueStmt jump, label, place, state, settles, found, told
  | .goto target, label, place, state, settles, found, told
  | .condGoto condition target fallthrough, label, place, state, settles, found, told => by
      exact .reached found (.leaves (by nofun))
  | .expr expression, label, place, state, settles, found, told
  | .letStmt name value kind, label, place, state, settles, found, told
  | .assign target value, label, place, state, settles, found, told
  | .delete target result, label, place, state, settles, found, told
  | .debugger, label, place, state, settles, found, told
  | .comment text, label, place, state, settles, found, told
  | .classStmt name superClass constructor methods, label, place, state, settles, found, told => by
      exact sound_leaf follows found _

theorem sound_body : ∀ (body : List Statement) (pending : Option String) (place : Place)
    (index : Nat) (state : State F), SettlesBody analysis place index body state →
      Told reported (runBody analysis place index body state).2 →
        Sound meaning reported (pathsBody true effect bound pending place index body) state
          (runBody analysis place index body state).1
  | [], pending, place, index, state, settles, told => by
      rw [pathsBody, runBody]
      exact .ends fun definitions admitted => admitted
  | first :: rest, pending, place, index, state, settles, told => by
      rw [SettlesBody] at settles
      rw [runBody] at told ⊢
      rw [pathsBody]
      cases live : state.live with
      | false => exact .dead live
      | true =>
        have walked : guarded (runStmt analysis (index :: place) first) state =
            runStmt analysis (index :: place) first state := if_pos live
        rw [walked] at settles told ⊢
        have here : reported (index :: place) = some state.fact :=
          told ⟨index :: place, first, state.fact⟩ List.mem_cons_self
        have inner : Told reported ((runStmt analysis (index :: place) first state).2 ++
            (runBody analysis place (index + 1) rest
              (runStmt analysis (index :: place) first state).1).2) :=
          fun report member => told report (List.mem_cons_of_mem _ member)
        exact .seq (sound_stmt first pending (index :: place) state (settles.1 live) here inner.left)
          (sound_body rest _ place (index + 1) _ settles.2 inner.right)

theorem sound_init : ∀ (init : Option Statement) (place : Place) (state : State F),
    SettlesOption analysis place init state → Told reported (runInit analysis place init state).2 →
      Sound meaning reported (pathsOption true effect bound place init) state
        (runInit analysis place init state).1
  | none, place, state, settles, told => by
      rw [pathsOption, runInit]
      exact .ends fun definitions admitted => admitted
  | some statement, place, state, settles, told => by
      rw [SettlesOption] at settles
      rw [runInit] at told ⊢
      rw [pathsOption]
      cases live : state.live with
      | false => exact .dead live
      | true =>
        exact sound_stmt statement none place state (settles live)
          (told ⟨place, statement, state.fact⟩ List.mem_cons_self)
          fun report member => told report (List.mem_cons_of_mem _ member)

theorem sound_update : ∀ (update : Option Statement) (place : Place) (state : State F),
    SettlesOption analysis place update state →
      (state.live = true → Told reported (runInit analysis place update state).2) →
        Sound meaning reported (pathsOption true effect bound place update) state
          (guarded (runUpdate analysis place update) state).1
  | none, place, state, settles, told => by
      rw [pathsOption]
      refine .ends fun definitions admitted => ?_
      rw [guarded, if_pos admitted.1, runUpdate]
      exact admitted
  | some statement, place, state, settles, told => by
      rw [SettlesOption] at settles
      rw [pathsOption]
      by_cases live : state.live = true
      · rw [guarded, if_pos live, runUpdate]
        have reports := told live
        rw [runInit] at reports
        exact sound_stmt statement none place state (settles live)
          (reports ⟨place, statement, state.fact⟩ List.mem_cons_self)
          fun report member => reports report (List.mem_cons_of_mem _ member)
      · exact .dead (Bool.eq_false_iff.mpr live)

/-- The cases of a switch, entered from before it or from the case above, when the state behind
the switch allows every exit and the default leads into it. -/
theorem sound_cases : ∀ (cases : List (Expression × List Statement)) (default : Behaviour σ)
    (place : Place) (index : Nat) (before above : State F) (exits : Option (State F)),
    SettlesCases analysis place before cases index above →
      Told reported (runCases analysis place before cases index above exits).2.2 →
        ∀ behind : State F,
          (∀ definitions, Exits meaning
            (runCases analysis place before cases index above exits).2.1 definitions →
              meaning.Admits behind definitions) →
          ((∀ definitions, meaning.Admits
              (runCases analysis place before cases index above exits).1 definitions →
                Exits meaning (runCases analysis place before cases index above exits).2.1
                  definitions) →
            Sound meaning reported default before behind ∧
              Sound meaning reported default
                (runCases analysis place before cases index above exits).1 behind) →
          (∀ definitions, meaning.Admits above definitions → Exits meaning exits definitions) →
            Sound meaning reported (pathsEntering true effect bound place default index cases)
                before behind ∧
              Sound meaning reported (pathsFalling true effect bound place default index cases)
                above behind
  | [], default, place, index, before, above, exits, settles, told, behind, covered, defaults,
      fallen => by
      rw [pathsEntering, pathsFalling]
      rw [runCases] at defaults
      exact defaults fallen
  | (test, body) :: rest, default, place, index, before, above, exits, settles, told, behind,
      covered, defaults, fallen => by
      rw [SettlesCases] at settles
      rw [runCases] at told covered defaults
      rw [pathsEntering, pathsFalling]
      have walked := sound_body body none (index :: place) 0 _ settles.1 told.left
      have others := sound_cases rest default place (index + 1) before _ _ settles.2 told.right
        behind covered defaults fun definitions admitted => ⟨_, rfl, admits_withExit admitted⟩
      have leaves : Sound meaning reported (Ends .normal id)
          (runBody analysis (index :: place) 0 body (before.join above).1).1 behind :=
        .ends fun definitions admitted => covered definitions
          (exits_runCases rest _ _ _ ⟨_, rfl, admits_withExit admitted⟩)
      have onward := Sound.either leaves others.2
      refine ⟨.either (.seq (walked.weaken ?_ fun _ admitted => admitted) onward) others.1,
        .seq (walked.weaken ?_ fun _ admitted => admitted) onward⟩
      · exact fun definitions admitted => Meaning.admits_join_left admitted
      · exact fun definitions admitted => Meaning.admits_join_right admitted

/-- The default of a switch leads behind it, and so do its exits. -/
theorem sound_default : ∀ (default : Option (List Statement)) (place : Place)
    (before above : State F) (exits : Option (State F)),
    SettlesDefault analysis place default before above →
      Told reported (runDefault analysis place default before above exits).2 →
        ((∀ definitions, meaning.Admits above definitions → Exits meaning exits definitions) →
          Sound meaning reported (pathsDefault true effect bound place default) before
              (runDefault analysis place default before above exits).1 ∧
            Sound meaning reported (pathsDefault true effect bound place default) above
              (runDefault analysis place default before above exits).1) ∧
          ∀ definitions, Exits meaning exits definitions →
            meaning.Admits (runDefault analysis place default before above exits).1 definitions
  | none, place, before, above, exits, settles, told => by
      rw [pathsDefault, runDefault]
      refine ⟨fun fallen => ⟨.ends ?_, .ends ?_⟩, ?_⟩
      · exact fun definitions admitted => admits_withExit admitted
      · exact fun definitions admitted => exits_withExit (fallen definitions admitted)
      · exact fun definitions earlier => exits_withExit earlier
  | some body, place, before, above, exits, settles, told => by
      rw [SettlesDefault] at settles
      rw [runDefault] at told ⊢
      rw [pathsDefault]
      have walked : Sound meaning reported (pathsBody true effect bound none place 0 body)
          (before.join above).1
            (withExit exits (runBody analysis place 0 body (before.join above).1).1) :=
        (sound_body body none place 0 _ settles told).weaken (fun _ admitted => admitted)
          fun definitions admitted => admits_withExit admitted
      refine ⟨fun fallen => ⟨walked.weaken ?_ ?_, walked.weaken ?_ ?_⟩, ?_⟩
      · exact fun definitions admitted => Meaning.admits_join_left admitted
      · exact fun definitions admitted => admitted
      · exact fun definitions admitted => Meaning.admits_join_right admitted
      · exact fun definitions admitted => admitted
      · exact fun definitions earlier => exits_withExit earlier

end

end Statements

end Soundness

end HermesDecomp.Dataflow
