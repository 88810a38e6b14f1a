import HermesDecomp.Analysis.StructuredRuns
import Mathlib.Data.List.Nodup
import Mathlib.Data.List.Perm.Subperm

/-!
# Which statements the dataflow engine reports

Every statement of a body is reported at most once. The update of a `for` loop is reported only
when the loop is reached by a live path and its body can be left normally; all other statements
are reported, on dead paths too.
-/

namespace HermesDecomp.Dataflow

open Ir List

mutual

/-- The places of the statements inside a statement. -/
def places (place : Place) : Statement → List Place
  | .ifStmt _ thenBody elseBody =>
      placesBody (0 :: place) 0 thenBody ++ placesBody (1 :: place) 0 elseBody
  | .block inner => placesBody (0 :: place) 0 inner
  | .whileStmt _ body => placesBody (0 :: place) 0 body
  | .doWhile body _ => placesBody (0 :: place) 0 body
  | .forStmt init _ update body =>
      placesOption (1 :: place) init ++ placesBody (0 :: place) 0 body ++
        placesOption (2 :: place) update
  | .forOf _ _ body => placesBody (0 :: place) 0 body
  | .forIn _ _ body => placesBody (0 :: place) 0 body
  | .switch _ cases default =>
      placesCases place 0 cases ++ placesDefault (cases.length :: place) default
  | .tryCatch tryBody _ catchBody finallyBody =>
      placesBody (0 :: place) 0 tryBody ++ placesBody (1 :: place) 0 catchBody ++
        placesBody (2 :: place) 0 finallyBody
  | _ => []

/-- The places of the statements of a body. -/
def placesBody (place : Place) (index : Nat) : List Statement → List Place
  | [] => []
  | first :: rest =>
      (index :: place) :: (places (index :: place) first ++ placesBody place (index + 1) rest)

def placesOption (place : Place) : Option Statement → List Place
  | none => []
  | some statement => place :: places place statement

def placesCases (place : Place) (index : Nat) : List (Expression × List Statement) → List Place
  | [] => []
  | (_, body) :: rest => placesBody (index :: place) 0 body ++ placesCases place (index + 1) rest

def placesDefault (place : Place) : Option (List Statement) → List Place
  | none => []
  | some body => placesBody place 0 body

end

mutual

/-- A live path may go on behind a statement, as the engine sees it. -/
def completes : Statement → Bool
  | .ifStmt _ thenBody elseBody => completesBody thenBody || completesBody elseBody
  | .block inner => completesBody inner
  | .forStmt init _ _ _ => completesOption init
  | .switch _ cases default => completesCases cases || completesDefault default
  | .tryCatch tryBody _ catchBody finallyBody =>
      (completesBody tryBody || completesBody catchBody) && completesBody finallyBody
  | .returnStmt _ => false
  | .throwStmt _ => false
  | .breakStmt _ => false
  | .continueStmt _ => false
  | _ => true

def completesBody : List Statement → Bool
  | [] => true
  | first :: rest => completes first && completesBody rest

def completesOption : Option Statement → Bool
  | none => true
  | some statement => completes statement

def completesCases : List (Expression × List Statement) → Bool
  | [] => false
  | (_, body) :: rest => completesBody body || completesCases rest

def completesDefault : Option (List Statement) → Bool
  | none => true
  | some body => completesBody body

end

mutual

/-- Every update of a `for` loop inside a statement is reached, when the statement is entered by
a live or a dead path. -/
def UpdatesReached (live : Bool) : Statement → Prop
  | .ifStmt _ thenBody elseBody =>
      UpdatesReachedBody live thenBody ∧ UpdatesReachedBody live elseBody
  | .block inner => UpdatesReachedBody live inner
  | .whileStmt _ body => UpdatesReachedBody live body
  | .doWhile body _ => UpdatesReachedBody live body
  | .forStmt init _ update body =>
      (UpdatesReachedOption live init ∧ UpdatesReachedBody (live && completesOption init) body) ∧
        (update = none ∨ (live && completesOption init && completesBody body) = true) ∧
          UpdatesReachedOption (live && completesOption init && completesBody body) update
  | .forOf _ _ body => UpdatesReachedBody live body
  | .forIn _ _ body => UpdatesReachedBody live body
  | .switch _ cases default => UpdatesReachedCases live cases ∧ UpdatesReachedDefault live default
  | .tryCatch tryBody _ catchBody finallyBody =>
      (UpdatesReachedBody live tryBody ∧ UpdatesReachedBody live catchBody) ∧
        UpdatesReachedBody (live && (completesBody tryBody || completesBody catchBody)) finallyBody
  | _ => True

def UpdatesReachedBody (live : Bool) : List Statement → Prop
  | [] => True
  | first :: rest => UpdatesReached live first ∧ UpdatesReachedBody (live && completes first) rest

def UpdatesReachedOption (live : Bool) : Option Statement → Prop
  | none => True
  | some statement => UpdatesReached live statement

def UpdatesReachedCases (live : Bool) : List (Expression × List Statement) → Prop
  | [] => True
  | (_, body) :: rest => UpdatesReachedBody live body ∧ UpdatesReachedCases live rest

def UpdatesReachedDefault (live : Bool) : Option (List Statement) → Prop
  | none => True
  | some body => UpdatesReachedBody live body

end

section Live

variable {F : Type} [Fact F]

@[simp] theorem join_live (left right : State F) :
    (left.join right).1.live = (left.live || right.live) := by
  rcases left with ⟨fact, _ | _⟩ <;> rcases right with ⟨fact', _ | _⟩ <;> rfl

/-- A loop is left by a live path exactly when it is entered by one. -/
theorem settleLoop_live {walk : State F → State F} {completes : Bool}
    (walks : ∀ head : State F, (walk head).live = (head.live && completes)) (rounds : Nat)
    (head : State F) : (settleLoop walk rounds head).live = head.live := by
  have joined : ∀ head : State F, (head.join (walk head)).1.live = head.live := by
    intro head
    rw [join_live, walks]
    cases head.live <;> rfl
  induction rounds generalizing head with
  | zero => rfl
  | succ rounds ih =>
    rw [settleLoop]
    split
    · rw [ih, joined]
    · exact joined head

/-- A case is entered by a live path exactly when the switch is. -/
theorem join_entered {before above : State F} (entered : above.live = true → before.live = true) :
    (before.join above).1.live = before.live := by
  rw [join_live]
  cases live : before.live with
  | true => rfl
  | false =>
    refine Bool.eq_false_iff.mpr fun goes => ?_
    rw [entered goes] at live
    cases live

/-- A live path leaves a switch by the exits so far. -/
def exitsLive (exits : Option (State F)) : Bool :=
  match exits with
  | some state => state.live
  | none => false

theorem withExit_live (exits : Option (State F)) (state : State F) :
    (withExit exits state).live = (exitsLive exits || state.live) := by
  cases exits with
  | none => rfl
  | some found => exact join_live found state

omit [Fact F] in
theorem guarded_live {walk : State F → State F × List (Report F)} {completes : Bool}
    (walks : ∀ state : State F, (walk state).1.live = (state.live && completes)) (state : State F) :
    (guarded walk state).1.live = (state.live && completes) := by
  unfold guarded
  cases live : state.live with
  | true => rw [if_pos rfl, walks, live]
  | false => rfl

variable (analysis : Analysis F)

omit [Fact F] in
@[simp] theorem withParam_live (param : Option String) (state : State F) :
    (withParam analysis param state).live = state.live := by
  cases param <;> rfl

mutual

/-- What is live behind a statement. -/
theorem runStmt_live : ∀ (statement : Statement) (place : Place) (state : State F),
    (runStmt analysis place statement state).1.live = (state.live && completes statement)
  | .ifStmt condition thenBody elseBody, place, state => by
      rw [runStmt, completes, join_live, runBody_live thenBody, runBody_live elseBody,
        Bool.and_or_distrib_left]
  | .block inner, place, state => by rw [runStmt, completes, runBody_live inner]
  | .whileStmt condition body, place, state | .forOf name iterable body, place, state
  | .forIn name object body, place, state => by
      rw [runStmt, settleLoop_live (runBody_live body _ 0)]
      exact (Bool.and_true _).symm
  | .doWhile body condition, place, state => by
      have after : completes (.doWhile body condition) = true := rfl
      rw [runStmt, after]
      dsimp only
      rw [runBody_live body, settleLoop_live (runBody_live body _ 0)]
      cases state.live <;> simp
  | .forStmt init condition update body, place, state => by
      rw [runStmt, completes]
      dsimp only
      have walks : ∀ head : State F, (guarded (runUpdate analysis (2 :: place) update)
          (runBody analysis (0 :: place) 0 body head).1).1.live =
            (head.live && (completesBody body && completesOption update)) := by
        intro head
        rw [guarded_live (runUpdate_live update _), runBody_live body, Bool.and_assoc]
      rw [settleLoop_live walks, runInit_live init]
  | .switch discriminant cases default, place, state => by
      rw [runStmt, completes]
      dsimp only
      obtain ⟨exits, above⟩ := runCases_live cases place state 0 ⟨state.fact, false⟩ none nofun
      rw [runDefault_live default _ _ _ _ above, exits]
      cases state.live <;> simp [exitsLive]
  | .tryCatch tryBody catchParam catchBody finallyBody, place, state => by
      rw [runStmt, completes]
      dsimp only
      rw [runBody_live finallyBody, join_live, runBody_live tryBody, runBody_live catchBody,
        withParam_live, join_live, runBody_live tryBody]
      cases state.live <;> simp
  | .returnStmt value, place, state | .throwStmt value, place, state
  | .breakStmt label, place, state | .continueStmt label, place, state => (Bool.and_false _).symm
  | .goto target, place, state | .condGoto condition target fallthrough, place, state
  | .expr expression, place, state | .letStmt name value kind, place, state
  | .assign target value, place, state | .delete target result, place, state
  | .debugger, place, state | .comment text, place, state
  | .classStmt name superClass constructor methods, place, state => (Bool.and_true _).symm

theorem runBody_live : ∀ (body : List Statement) (place : Place) (index : Nat) (state : State F),
    (runBody analysis place index body state).1.live = (state.live && completesBody body)
  | [], place, index, state => by rw [runBody, completesBody, Bool.and_true]
  | first :: rest, place, index, state => by
      rw [runBody, completesBody]
      dsimp only
      rw [runBody_live rest, guarded_live (runStmt_live first _), Bool.and_assoc]

theorem runInit_live : ∀ (init : Option Statement) (place : Place) (state : State F),
    (runInit analysis place init state).1.live = (state.live && completesOption init)
  | none, place, state => by rw [runInit, completesOption, Bool.and_true]
  | some statement, place, state => by
      rw [runInit, completesOption]
      exact runStmt_live statement place state

theorem runUpdate_live : ∀ (update : Option Statement) (place : Place) (state : State F),
    (runUpdate analysis place update state).1.live = (state.live && completesOption update)
  | none, place, state => by rw [runUpdate, completesOption, Bool.and_true]
  | some statement, place, state => by
      rw [runUpdate, completesOption]
      exact runStmt_live statement place state

theorem runCases_live : ∀ (cases : List (Expression × List Statement)) (place : Place)
    (before : State F) (index : Nat) (above : State F) (exits : Option (State F)),
    (above.live = true → before.live = true) →
      exitsLive (runCases analysis place before cases index above exits).2.1 =
          (exitsLive exits || (before.live && completesCases cases)) ∧
        ((runCases analysis place before cases index above exits).1.live = true →
          before.live = true)
  | [], place, before, index, above, exits, entered => by
      rw [runCases, completesCases, Bool.and_false, Bool.or_false]
      exact ⟨rfl, entered⟩
  | (test, body) :: rest, place, before, index, above, exits, entered => by
      rw [runCases, completesCases]
      dsimp only
      have walked : (runBody analysis (index :: place) 0 body (before.join above).1).1.live =
          (before.live && completesBody body) := by
        rw [runBody_live body, join_entered entered]
      have others := runCases_live rest place before (index + 1)
        (runBody analysis (index :: place) 0 body (before.join above).1).1
        (some (withExit exits (runBody analysis (index :: place) 0 body (before.join above).1).1))
        fun goes => (Bool.and_eq_true_iff.mp (walked.symm.trans goes)).1
      refine ⟨?_, others.2⟩
      rw [others.1]
      have joined : exitsLive (some (withExit exits
          (runBody analysis (index :: place) 0 body (before.join above).1).1)) =
            (exitsLive exits || (before.live && completesBody body)) := by
        rw [← walked]
        exact withExit_live _ _
      rw [joined, Bool.and_or_distrib_left, Bool.or_assoc]

theorem runDefault_live : ∀ (default : Option (List Statement)) (place : Place)
    (before above : State F) (exits : Option (State F)), (above.live = true → before.live = true) →
      (runDefault analysis place default before above exits).1.live =
        (exitsLive exits || (before.live && completesDefault default))
  | none, place, before, above, exits, entered => by
      rw [runDefault, completesDefault, Bool.and_true]
      exact withExit_live _ _
  | some body, place, before, above, exits, entered => by
      rw [runDefault, completesDefault]
      dsimp only
      rw [withExit_live, runBody_live body, join_entered entered]

end

end Live

section Covering

variable {F : Type}

/-- Reports are of some of the places, in their order, and of all of them under a condition. -/
structure Covers (reports : List (Report F)) (found : List Place) (all : Prop) : Prop where
  sublist : (reports.map Report.place).Sublist found
  complete : reports.length = found.length ↔ all

namespace Covers

variable {reports reports' : List (Report F)} {found found' : List Place} {all all' : Prop}

theorem le (covers : Covers reports found all) : reports.length ≤ found.length := by
  have shorter := covers.sublist.length_le
  rw [length_map] at shorter
  exact shorter

theorem append (covers : Covers reports found all) (covers' : Covers reports' found' all') :
    Covers (reports ++ reports') (found ++ found') (all ∧ all') := by
  refine ⟨?_, ?_⟩
  · rw [map_append]
    exact covers.sublist.append covers'.sublist
  · have shorter := covers.le
    have shorter' := covers'.le
    rw [length_append, length_append, ← covers.complete, ← covers'.complete]
    omega

theorem cons (covers : Covers reports found all) (place : Place) (statement : Statement) (fact : F) :
    Covers (⟨place, statement, fact⟩ :: reports) (place :: found) all := by
  refine ⟨covers.sublist.cons_cons place, ?_⟩
  rw [length_cons, length_cons, Nat.add_right_cancel_iff]
  exact covers.complete

theorem nil : Covers ([] : List (Report F)) [] True := ⟨.slnil, iff_of_true rfl trivial⟩

theorem of_iff (covers : Covers reports found all) (same : all ↔ all') :
    Covers reports found all' := ⟨covers.sublist, covers.complete.trans same⟩

end Covers

variable [Fact F] (analysis : Analysis F)

omit [Fact F] in
/-- The update of a loop is reported where it is reached. -/
theorem covers_update {update : Option Statement} {place : Place} {reached : Bool}
    {reports : List (Report F)}
    (covers : Covers reports (placesOption place update) (UpdatesReachedOption reached update)) :
    Covers (if reached = true then reports else []) (placesOption place update)
      ((update = none ∨ reached = true) ∧ UpdatesReachedOption reached update) := by
  cases reached with
  | true => exact covers.of_iff (by simp)
  | false =>
    cases update with
    | none =>
      rw [placesOption, UpdatesReachedOption]
      exact Covers.nil.of_iff (by simp)
    | some statement =>
      rw [placesOption]
      exact ⟨nil_sublist _, by simp⟩

omit [Fact F] in
/-- On a dead path the same statements are reported. -/
theorem covers_guarded {walk : State F → State F × List (Report F)} {found : List Place}
    (all : Bool → Prop) (walks : ∀ state : State F, Covers (walk state).2 found (all state.live))
    (state : State F) : Covers (guarded walk state).2 found (all state.live) := by
  unfold guarded
  split
  · exact walks state
  · exact walks state

mutual

theorem covers_stmt : ∀ (statement : Statement) (place : Place) (state : State F),
    Covers (runStmt analysis place statement state).2 (places place statement)
      (UpdatesReached state.live statement)
  | .ifStmt condition thenBody elseBody, place, state => by
      rw [runStmt, places, UpdatesReached]
      exact (covers_body thenBody (0 :: place) 0 state).append (covers_body elseBody (1 :: place) 0 state)
  | .block inner, place, state => by
      rw [runStmt, places, UpdatesReached]
      exact covers_body inner (0 :: place) 0 state
  | .whileStmt condition body, place, state | .doWhile body condition, place, state => by
      rw [runStmt, places, UpdatesReached]
      have covers := covers_body body (0 :: place) 0 (settleLoop
        (fun head => (runBody analysis (0 :: place) 0 body head).1) maxLoopIterations state)
      rw [settleLoop_live (runBody_live analysis body _ 0)] at covers
      exact covers
  | .forStmt init condition update body, place, state => by
      rw [runStmt, places, UpdatesReached]
      dsimp only
      have starts := covers_init init (1 :: place) state
      have walks : ∀ head : State F, (guarded (runUpdate analysis (2 :: place) update)
          (runBody analysis (0 :: place) 0 body head).1).1.live =
            (head.live && (completesBody body && completesOption update)) := by
        intro head
        rw [guarded_live (runUpdate_live analysis update _), runBody_live analysis body,
          Bool.and_assoc]
      have settled := settleLoop_live walks maxLoopIterations
        (runInit analysis (1 :: place) init state).1
      rw [runInit_live analysis init] at settled
      have loops := covers_body body (0 :: place) 0 (settleLoop (fun head =>
        (guarded (runUpdate analysis (2 :: place) update)
          (runBody analysis (0 :: place) 0 body head).1).1) maxLoopIterations
            (runInit analysis (1 :: place) init state).1)
      rw [settled] at loops
      refine (starts.append loops).append ?_
      have updates := covers_init update (2 :: place) (runBody analysis (0 :: place) 0 body
        (settleLoop (fun head => (guarded (runUpdate analysis (2 :: place) update)
          (runBody analysis (0 :: place) 0 body head).1).1) maxLoopIterations
            (runInit analysis (1 :: place) init state).1)).1
      rw [runBody_live analysis body, settled] at updates ⊢
      exact covers_update updates
  | .forOf name iterable body, place, state | .forIn name object body, place, state => by
      rw [runStmt, places, UpdatesReached]
      have covers := covers_body body (0 :: place) 0 (settleLoop
        (fun head => (runBody analysis (0 :: place) 0 body head).1) maxLoopIterations
          { state with fact := analysis.declare name state.fact })
      rw [settleLoop_live (runBody_live analysis body _ 0)] at covers
      exact covers
  | .switch discriminant cases default, place, state => by
      rw [runStmt, places, UpdatesReached]
      obtain ⟨exits, above⟩ := runCases_live analysis cases place state 0 ⟨state.fact, false⟩ none nofun
      exact (covers_cases cases place state 0 ⟨state.fact, false⟩ none nofun).append
        (covers_default default (cases.length :: place) state _ _ above)
  | .tryCatch tryBody catchParam catchBody finallyBody, place, state => by
      rw [runStmt, places, UpdatesReached]
      dsimp only
      have tried := runBody_live analysis tryBody (0 :: place) 0 state
      have entered : (withParam analysis catchParam
          (state.join (runBody analysis (0 :: place) 0 tryBody state).1).1).live = state.live := by
        rw [withParam_live, join_live, tried]
        cases state.live <;> rfl
      have handles := covers_body catchBody (1 :: place) 0 (withParam analysis catchParam
        (state.join (runBody analysis (0 :: place) 0 tryBody state).1).1)
      have handled := runBody_live analysis catchBody (1 :: place) 0 (withParam analysis catchParam
        (state.join (runBody analysis (0 :: place) 0 tryBody state).1).1)
      have ends := covers_body finallyBody (2 :: place) 0
        ((runBody analysis (0 :: place) 0 tryBody state).1.join
          (runBody analysis (1 :: place) 0 catchBody (withParam analysis catchParam
            (state.join (runBody analysis (0 :: place) 0 tryBody state).1).1)).1).1
      rw [entered] at handles handled
      rw [join_live, tried, handled, ← Bool.and_or_distrib_left] at ends
      exact ((covers_body tryBody (0 :: place) 0 state).append handles).append ends
  | .returnStmt value, place, state | .throwStmt value, place, state
  | .breakStmt label, place, state | .continueStmt label, place, state
  | .goto target, place, state | .condGoto condition target fallthrough, place, state
  | .expr expression, place, state | .letStmt name value kind, place, state
  | .assign target value, place, state | .delete target result, place, state
  | .debugger, place, state | .comment text, place, state
  | .classStmt name superClass constructor methods, place, state => .nil

theorem covers_body : ∀ (body : List Statement) (place : Place) (index : Nat) (state : State F),
    Covers (runBody analysis place index body state).2 (placesBody place index body)
      (UpdatesReachedBody state.live body)
  | [], place, index, state => by
      rw [runBody, placesBody, UpdatesReachedBody]
      exact .nil
  | first :: rest, place, index, state => by
      rw [runBody, placesBody, UpdatesReachedBody]
      have step : Covers (guarded (runStmt analysis (index :: place) first) state).2
          (places (index :: place) first) (UpdatesReached state.live first) :=
        covers_guarded (fun live => UpdatesReached live first)
          (fun state => covers_stmt first (index :: place) state) state
      have others := covers_body rest place (index + 1)
        (guarded (runStmt analysis (index :: place) first) state).1
      rw [guarded_live (runStmt_live analysis first _)] at others
      exact (step.append others).cons ..

theorem covers_init : ∀ (init : Option Statement) (place : Place) (state : State F),
    Covers (runInit analysis place init state).2 (placesOption place init)
      (UpdatesReachedOption state.live init)
  | none, place, state => by
      rw [runInit, placesOption, UpdatesReachedOption]
      exact .nil
  | some statement, place, state => by
      rw [runInit, placesOption, UpdatesReachedOption]
      exact (covers_stmt statement place state).cons ..

theorem covers_cases : ∀ (cases : List (Expression × List Statement)) (place : Place)
    (before : State F) (index : Nat) (above : State F) (exits : Option (State F)),
    (above.live = true → before.live = true) →
      Covers (runCases analysis place before cases index above exits).2.2
        (placesCases place index cases) (UpdatesReachedCases before.live cases)
  | [], place, before, index, above, exits, entered => by
      rw [runCases, placesCases, UpdatesReachedCases]
      exact .nil
  | (test, body) :: rest, place, before, index, above, exits, entered => by
      rw [runCases, placesCases, UpdatesReachedCases]
      have first := covers_body body (index :: place) 0 (before.join above).1
      rw [join_entered entered] at first
      refine first.append (covers_cases rest place before (index + 1) _ _ fun goes => ?_)
      rw [runBody_live analysis body, join_entered entered] at goes
      exact (Bool.and_eq_true_iff.mp goes).1

theorem covers_default : ∀ (default : Option (List Statement)) (place : Place)
    (before above : State F) (exits : Option (State F)), (above.live = true → before.live = true) →
      Covers (runDefault analysis place default before above exits).2 (placesDefault place default)
        (UpdatesReachedDefault before.live default)
  | none, place, before, above, exits, entered => by
      rw [runDefault, placesDefault, UpdatesReachedDefault]
      exact .nil
  | some body, place, before, above, exits, entered => by
      rw [runDefault, placesDefault, UpdatesReachedDefault]
      have covers := covers_body body place 0 (before.join above).1
      rw [join_entered entered] at covers
      exact covers

end

end Covering

/-- A place is inside a part of a statement. -/
def Under (part : Nat) (place found : Place) : Prop := (part :: place) <:+ found

theorem Under.suffix {part : Nat} {place found : Place} (under : Under part place found) :
    place <:+ found := (suffix_cons part place).trans under

/-- What is inside a part of a part is inside the part. -/
theorem Under.outer {part part' : Nat} {place found : Place}
    (under : Under part' (part :: place) found) : Under part place found := under.suffix

/-- The parts of a statement are apart. -/
theorem Under.part_eq {part part' : Nat} {place found : Place} (under : Under part place found)
    (under' : Under part' place found) : part = part' := by
  have same : part :: place = part' :: place :=
    (suffix_of_suffix_length_le under under' (Nat.le_refl _)).eq_of_length rfl
  exact (List.cons.inj same).1

/-- A statement is not inside itself. -/
theorem Under.ne {part : Nat} {place found : Place} (under : Under part place found) :
    found ≠ place := by
  rintro rfl
  have longer := under.length_le
  rw [length_cons] at longer
  omega

mutual

theorem places_under : ∀ (statement : Statement) (place : Place),
    ∀ found ∈ places place statement, ∃ part, Under part place found
  | .ifStmt condition thenBody elseBody, place, found, member => by
      rw [places] at member
      rcases mem_append.mp member with here | here
      · obtain ⟨part, _, under⟩ := placesBody_under thenBody _ _ found here
        exact ⟨0, under.outer⟩
      · obtain ⟨part, _, under⟩ := placesBody_under elseBody _ _ found here
        exact ⟨1, under.outer⟩
  | .block inner, place, found, member => by
      rw [places] at member
      obtain ⟨part, _, under⟩ := placesBody_under inner _ _ found member
      exact ⟨0, under.outer⟩
  | .whileStmt condition body, place, found, member
  | .doWhile body condition, place, found, member
  | .forOf name iterable body, place, found, member
  | .forIn name object body, place, found, member => by
      rw [places] at member
      obtain ⟨part, _, under⟩ := placesBody_under body _ _ found member
      exact ⟨0, under.outer⟩
  | .forStmt init condition update body, place, found, member => by
      rw [places] at member
      rcases mem_append.mp member with here | here
      · rcases mem_append.mp here with here | here
        · exact ⟨1, placesOption_under init _ found here⟩
        · obtain ⟨part, _, under⟩ := placesBody_under body _ _ found here
          exact ⟨0, under.outer⟩
      · exact ⟨2, placesOption_under update _ found here⟩
  | .switch discriminant cases default, place, found, member => by
      rw [places] at member
      rcases mem_append.mp member with here | here
      · obtain ⟨part, _, _, under⟩ := placesCases_under cases _ _ found here
        exact ⟨part, under⟩
      · exact ⟨cases.length, placesDefault_under default _ found here⟩
  | .tryCatch tryBody catchParam catchBody finallyBody, place, found, member => by
      rw [places] at member
      rcases mem_append.mp member with here | here
      · rcases mem_append.mp here with here | here
        · obtain ⟨part, _, under⟩ := placesBody_under tryBody _ _ found here
          exact ⟨0, under.outer⟩
        · obtain ⟨part, _, under⟩ := placesBody_under catchBody _ _ found here
          exact ⟨1, under.outer⟩
      · obtain ⟨part, _, under⟩ := placesBody_under finallyBody _ _ found here
        exact ⟨2, under.outer⟩
  | .returnStmt value, place, found, member | .throwStmt value, place, found, member
  | .breakStmt label, place, found, member | .continueStmt label, place, found, member
  | .goto target, place, found, member
  | .condGoto condition target fallthrough, place, found, member
  | .expr expression, place, found, member | .letStmt name value kind, place, found, member
  | .assign target value, place, found, member | .delete target result, place, found, member
  | .debugger, place, found, member | .comment text, place, found, member
  | .classStmt name superClass constructor methods, place, found, member => by cases member

theorem placesBody_under : ∀ (body : List Statement) (place : Place) (index : Nat),
    ∀ found ∈ placesBody place index body, ∃ part, index ≤ part ∧ Under part place found
  | [], place, index, found, member => by
      rw [placesBody] at member
      cases member
  | first :: rest, place, index, found, member => by
      rw [placesBody] at member
      rcases mem_cons.mp member with rfl | member
      · exact ⟨index, Nat.le_refl _, suffix_refl _⟩
      · rcases mem_append.mp member with here | later
        · obtain ⟨part, under⟩ := places_under first _ found here
          exact ⟨index, Nat.le_refl _, under.suffix⟩
        · obtain ⟨part, after, under⟩ := placesBody_under rest _ _ found later
          exact ⟨part, Nat.le_of_succ_le after, under⟩

theorem placesOption_under : ∀ (statement : Option Statement) (place : Place),
    ∀ found ∈ placesOption place statement, place <:+ found
  | none, place, found, member => by
      rw [placesOption] at member
      cases member
  | some statement, place, found, member => by
      rw [placesOption] at member
      rcases mem_cons.mp member with rfl | member
      · exact suffix_refl _
      · obtain ⟨part, under⟩ := places_under statement _ found member
        exact under.suffix

theorem placesCases_under : ∀ (cases : List (Expression × List Statement)) (place : Place)
    (index : Nat), ∀ found ∈ placesCases place index cases,
      ∃ part, index ≤ part ∧ part < index + cases.length ∧ Under part place found
  | [], place, index, found, member => by
      rw [placesCases] at member
      cases member
  | (test, body) :: rest, place, index, found, member => by
      rw [placesCases] at member
      rw [length_cons]
      rcases mem_append.mp member with here | later
      · obtain ⟨part, _, under⟩ := placesBody_under body _ _ found here
        exact ⟨index, Nat.le_refl _, by omega, under.outer⟩
      · obtain ⟨part, after, below, under⟩ := placesCases_under rest _ _ found later
        exact ⟨part, by omega, by omega, under⟩

theorem placesDefault_under : ∀ (default : Option (List Statement)) (place : Place),
    ∀ found ∈ placesDefault place default, place <:+ found
  | none, place, found, member => by
      rw [placesDefault] at member
      cases member
  | some body, place, found, member => by
      rw [placesDefault] at member
      obtain ⟨part, _, under⟩ := placesBody_under body _ _ found member
      exact under.suffix

end

/-- Places inside some of the parts of a statement. -/
def Inside (parts : List Nat) (place : Place) (found : List Place) : Prop :=
  ∀ one ∈ found, ∃ part ∈ parts, Under part place one

theorem Inside.append {parts parts' : List Nat} {place : Place} {found found' : List Place}
    (inside : Inside parts place found) (inside' : Inside parts' place found') :
    Inside (parts ++ parts') place (found ++ found') := by
  intro one member
  rcases mem_append.mp member with here | here
  · obtain ⟨part, among, under⟩ := inside one here
    exact ⟨part, mem_append_left _ among, under⟩
  · obtain ⟨part, among, under⟩ := inside' one here
    exact ⟨part, mem_append_right _ among, under⟩

/-- Places inside different parts differ. -/
theorem nodup_append {parts parts' : List Nat} {place : Place} {found found' : List Place}
    (nodup : found.Nodup) (nodup' : found'.Nodup) (inside : Inside parts place found)
    (inside' : Inside parts' place found') (apart : List.Disjoint parts parts') :
    (found ++ found').Nodup := by
  refine List.nodup_append.mpr ⟨nodup, nodup', ?_⟩
  rintro one member other member' rfl
  obtain ⟨part, among, under⟩ := inside one member
  obtain ⟨part', among', under'⟩ := inside' one member'
  obtain rfl := under.part_eq under'
  exact apart among among'

theorem inside_body (part : Nat) (place : Place) (index : Nat) (body : List Statement) :
    Inside [part] place (placesBody (part :: place) index body) := by
  intro one member
  obtain ⟨part', _, under⟩ := placesBody_under body _ _ one member
  exact ⟨part, mem_singleton_self part, under.outer⟩

theorem inside_option (part : Nat) (place : Place) (statement : Option Statement) :
    Inside [part] place (placesOption (part :: place) statement) :=
  fun one member => ⟨part, mem_singleton_self part, placesOption_under statement _ one member⟩

mutual

theorem places_nodup : ∀ (statement : Statement) (place : Place), (places place statement).Nodup
  | .ifStmt condition thenBody elseBody, place => by
      rw [places]
      exact nodup_append (placesBody_nodup thenBody _ 0) (placesBody_nodup elseBody _ 0)
        (inside_body 0 place 0 thenBody) (inside_body 1 place 0 elseBody) (by simp)
  | .block inner, place => by
      rw [places]
      exact placesBody_nodup inner _ 0
  | .whileStmt condition body, place | .doWhile body condition, place
  | .forOf name iterable body, place | .forIn name object body, place => by
      rw [places]
      exact placesBody_nodup body _ 0
  | .forStmt init condition update body, place => by
      rw [places]
      have starts := nodup_append (placesOption_nodup init _) (placesBody_nodup body _ 0)
        (inside_option 1 place init) (inside_body 0 place 0 body) (by simp)
      exact nodup_append starts (placesOption_nodup update _)
        ((inside_option 1 place init).append (inside_body 0 place 0 body))
        (inside_option 2 place update) (by simp)
  | .switch discriminant cases default, place => by
      rw [places]
      refine List.nodup_append.mpr ⟨placesCases_nodup cases _ 0, placesDefault_nodup default _, ?_⟩
      rintro one member other member' rfl
      obtain ⟨part, _, below, under⟩ := placesCases_under cases _ _ one member
      have same := under.part_eq (placesDefault_under default _ one member')
      omega
  | .tryCatch tryBody catchParam catchBody finallyBody, place => by
      rw [places]
      have tries := nodup_append (placesBody_nodup tryBody _ 0) (placesBody_nodup catchBody _ 0)
        (inside_body 0 place 0 tryBody) (inside_body 1 place 0 catchBody) (by simp)
      exact nodup_append tries (placesBody_nodup finallyBody _ 0)
        ((inside_body 0 place 0 tryBody).append (inside_body 1 place 0 catchBody))
        (inside_body 2 place 0 finallyBody) (by simp)
  | .returnStmt value, place | .throwStmt value, place | .breakStmt label, place
  | .continueStmt label, place | .goto target, place
  | .condGoto condition target fallthrough, place | .expr expression, place
  | .letStmt name value kind, place | .assign target value, place
  | .delete target result, place | .debugger, place | .comment text, place
  | .classStmt name superClass constructor methods, place => .nil

theorem placesBody_nodup : ∀ (body : List Statement) (place : Place) (index : Nat),
    (placesBody place index body).Nodup
  | [], place, index => by
      rw [placesBody]
      exact .nil
  | first :: rest, place, index => by
      rw [placesBody]
      refine List.nodup_cons.mpr ⟨?_, List.nodup_append.mpr
        ⟨places_nodup first _, placesBody_nodup rest _ _, ?_⟩⟩
      · intro member
        rcases mem_append.mp member with here | later
        · obtain ⟨part, under⟩ := places_under first _ _ here
          exact under.ne rfl
        · obtain ⟨part, after, under⟩ := placesBody_under rest _ _ _ later
          have same := under.part_eq (suffix_refl _)
          omega
      · rintro one member other member' rfl
        obtain ⟨part, inner⟩ := places_under first _ one member
        obtain ⟨part', after, under⟩ := placesBody_under rest _ _ one member'
        have same := under.part_eq inner.suffix
        omega

theorem placesOption_nodup : ∀ (statement : Option Statement) (place : Place),
    (placesOption place statement).Nodup
  | none, place => by
      rw [placesOption]
      exact .nil
  | some statement, place => by
      rw [placesOption]
      refine nodup_cons.mpr ⟨fun member => ?_, places_nodup statement place⟩
      obtain ⟨part, under⟩ := places_under statement _ _ member
      exact under.ne rfl

theorem placesCases_nodup : ∀ (cases : List (Expression × List Statement)) (place : Place)
    (index : Nat), (placesCases place index cases).Nodup
  | [], place, index => by
      rw [placesCases]
      exact .nil
  | (test, body) :: rest, place, index => by
      rw [placesCases]
      refine List.nodup_append.mpr ⟨placesBody_nodup body _ 0, placesCases_nodup rest _ _, ?_⟩
      rintro one member other member' rfl
      obtain ⟨part, _, inner⟩ := placesBody_under body _ _ one member
      obtain ⟨part', after, below, under⟩ := placesCases_under rest _ _ one member'
      have same := under.part_eq inner.outer
      omega

theorem placesDefault_nodup : ∀ (default : Option (List Statement)) (place : Place),
    (placesDefault place default).Nodup
  | none, place => by
      rw [placesDefault]
      exact .nil
  | some body, place => by
      rw [placesDefault]
      exact placesBody_nodup body _ 0

end

section Once

variable {F : Type} [Fact F] (analysis : Analysis F)

/-- No place is reported twice. -/
theorem reports_nodup (body : List Statement) (entry : F) :
    ((solveObserved analysis body entry).map Report.place).Nodup :=
  (covers_body analysis body [] 0 ⟨entry, true⟩).sublist.nodup (placesBody_nodup body [] 0)

/-- Every statement of a body is reported exactly once exactly when the update of every `for` loop
is reached. -/
theorem reports_once_iff (body : List Statement) (entry : F) :
    (∀ place ∈ placesBody [] 0 body,
      ((solveObserved analysis body entry).map Report.place).count place = 1) ↔
        UpdatesReachedBody true body := by
  have covers := covers_body analysis body [] 0 ⟨entry, true⟩
  have nodup := reports_nodup analysis body entry
  rw [← covers.complete]
  constructor
  · intro once
    have all : placesBody [] 0 body ⊆ (solveObserved analysis body entry).map Report.place :=
      fun place member => count_pos_iff.mp (by rw [once place member]; exact Nat.one_pos)
    have longer := (subperm_of_subset (placesBody_nodup body [] 0) all).length_le
    rw [length_map] at longer
    exact Nat.le_antisymm covers.le longer
  · intro same place member
    have whole : (solveObserved analysis body entry).map Report.place = placesBody [] 0 body :=
      covers.sublist.eq_of_length (by rw [length_map]; exact same)
    rw [whole] at nodup ⊢
    exact count_eq_one_of_mem nodup member

end Once

end HermesDecomp.Dataflow
