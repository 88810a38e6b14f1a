import HermesDecomp.Analysis.DataflowSoundness
import HermesDecomp.Analysis.DataflowReports
import Std.Data.TreeMap

/-!
# Reaching definitions over structured statements

For each name the analysis knows the one definition that reaches a point, or that it does not
know: two definitions reach, or one that could not be summarised. An extractor says what a
statement defines, given what is known where the statement stands.
-/

namespace HermesDecomp.Dataflow

open Ir
open Std (TreeMap)

variable {P : Type}

/-- The definitions of a name that reach a point. -/
inductive Reach (P : Type) where
  | one (payload : P)
  | many
deriving DecidableEq

/-- The definitions that reach a point, by name. -/
abbrev Defs (P : Type) := TreeMap String (Reach P)

namespace Defs

/-- The single definition of a name, if exactly one reaches. -/
def get (defs : Defs P) (key : String) : Option P :=
  match defs[key]? with
  | some (.one payload) => some payload
  | _ => none

/-- The entry a definition leaves. -/
def entryOf (payload : Option P) : Reach P :=
  match payload with
  | some found => .one found
  | none => .many

/-- Record a definition. -/
def define (defs : Defs P) (key : String) (payload : Option P) : Defs P :=
  defs.insert key (entryOf payload)

variable [DecidableEq P]

/-- Join what another path knows of a name. -/
def joinOne (known : Defs P × Bool) (key : String) (theirs : Reach P) : Defs P × Bool :=
  match known.1[key]? with
  | some ours =>
      if ours = theirs then known
      else
        match ours with
        | .many => known
        | .one _ => (known.1.insert key .many, true)
  | none => (known.1.insert key theirs, true)

instance : Fact (Defs P) where
  join self other := other.foldl joinOne (self, false)

end Defs

/-- What a statement defines: a name and its summary, which may fail. -/
abbrev Extract (P : Type) := Statement → Defs P → Option (String × Option P)

/-- The analysis of an extractor. -/
def reachingDefinitions (extract : Extract P) : Analysis (Defs P) where
  transfer statement defs :=
    match extract statement defs with
    | some (key, payload) => defs.define key payload
    | none => defs
  declare name defs := defs.define name none

/-- The latest definition of each name on a path, if there is one, and its summary. -/
abbrev Definitions (P : Type) := String → Option (Option P)

/-- What is known of a name allows its latest definition. -/
def Allows : Option (Reach P) → Option (Option P) → Prop
  | none, latest => latest = none
  | some (.one payload), latest => latest = none ∨ latest = some (some payload)
  | some .many, _ => True

/-- What is known allows the latest definitions. -/
def Knows (defs : Defs P) (latest : Definitions P) : Prop := ∀ name, Allows defs[name]? (latest name)

/-- A name is bound to a value that is not summarised. -/
def bindUnknown (name : String) (latest : Definitions P) : Definitions P :=
  Function.update latest name (some none)

/-- A statement defines what the extractor makes of it, given what was reported for its place. -/
def defineAt (extract : Extract P) (reported : Place → Option (Defs P)) (place : Place)
    (statement : Statement) (latest : Definitions P) : Definitions P :=
  match extract statement ((reported place).getD ∅) with
  | some (key, payload) => Function.update latest key (some payload)
  | none => latest

/-- A name that no path has defined yet is always allowed. -/
theorem allows_none (known : Option (Reach P)) : Allows known none := by
  cases known with
  | none => rfl
  | some reach =>
    cases reach with
    | one payload => exact .inl rfl
    | many => trivial

/-- Only what is known to be ambiguous allows a value that is not summarised. -/
theorem allows_unknown_iff {known : Option (Reach P)} :
    Allows known (some none) ↔ known = some .many := by
  constructor
  · intro allowed
    cases known with
    | none => cases allowed
    | some reach =>
      cases reach with
      | one payload =>
        rcases allowed with absent | summarised
        · cases absent
        · cases summarised
      | many => rfl
  · rintro rfl
    trivial

/-- A recorded definition is the latest one. -/
theorem knows_define {defs : Defs P} {latest : Definitions P} (known : Knows defs latest)
    (key : String) (payload : Option P) :
    Knows (defs.define key payload) (Function.update latest key (some payload)) := by
  intro name
  by_cases same : name = key
  · subst same
    rw [Function.update_self, Defs.define, TreeMap.getElem?_insert_self]
    cases payload with
    | none => trivial
    | some found => exact .inr rfl
  · rw [Function.update_of_ne same, Defs.define, TreeMap.getElem?_insert, if_neg]
    · exact known name
    · exact fun equal => same (Std.LawfulEqOrd.eq_of_compare equal).symm

section Joining

variable [DecidableEq P]

variable {known : Defs P × Bool} {theirs : Reach P} {latest : Option (Option P)}

theorem allows_joinOne {key name : String} (allowed : Allows known.1[name]? latest) :
    Allows (Defs.joinOne known key theirs).1[name]? latest := by
  unfold Defs.joinOne
  split
  case h_1 ours found =>
    split
    case isTrue => exact allowed
    case isFalse =>
      split
      case h_1 => exact allowed
      case h_2 payload =>
        rw [TreeMap.getElem?_insert]
        split
        case isTrue => trivial
        case isFalse => exact allowed
  case h_2 absent =>
    rw [TreeMap.getElem?_insert]
    split
    case isTrue same =>
      obtain rfl := Std.LawfulEqOrd.eq_of_compare same
      rw [absent] at allowed
      obtain rfl : latest = none := allowed
      cases theirs with
      | one payload => exact .inl rfl
      | many => trivial
    case isFalse => exact allowed

theorem allows_joinOne_same {key : String} (allowed : Allows (some theirs) latest) :
    Allows (Defs.joinOne known key theirs).1[key]? latest := by
  unfold Defs.joinOne
  split
  case h_1 ours found =>
    split
    case isTrue same =>
      rw [found, same]
      exact allowed
    case isFalse =>
      split
      case h_1 =>
        rw [found]
        trivial
      case h_2 payload =>
        rw [TreeMap.getElem?_insert_self]
        trivial
  case h_2 absent =>
    rw [TreeMap.getElem?_insert_self]
    exact allowed

theorem joinOne_same {key : String} (same : (Defs.joinOne known key theirs).2 = false)
    : Defs.joinOne known key theirs = known:= by
  unfold Defs.joinOne at same ⊢
  split at same
  case h_1 ours found =>
    split at same
    case isTrue equal => rw [if_pos equal]
    case isFalse different =>
      rw [if_neg different]
      split at same
      case h_1 => rfl
      case h_2 => cases same
  case h_2 => cases same

variable {name : String}

theorem allows_foldl (entries : List (String × Reach P)) (allowed : Allows known.1[name]? latest) :
    Allows (entries.foldl (fun known entry => Defs.joinOne known entry.1 entry.2) known).1[name]?
      latest := by
  induction entries generalizing known with
  | nil => exact allowed
  | cons entry entries ih => exact ih (allows_joinOne allowed)

theorem allows_foldl_mem {entries : List (String × Reach P)} (member : (name, theirs) ∈ entries)
    (allowed : Allows (some theirs) latest) :
    Allows (entries.foldl (fun known entry => Defs.joinOne known entry.1 entry.2) known).1[name]?
      latest := by
  induction entries generalizing known with
  | nil => cases member
  | cons entry entries ih =>
    rcases List.mem_cons.mp member with rfl | later
    · exact allows_foldl entries (allows_joinOne_same allowed)
    · exact ih later

theorem foldl_same {entries : List (String × Reach P)}
    (same : (entries.foldl (fun known entry => Defs.joinOne known entry.1 entry.2) known).2 = false) :
    entries.foldl (fun known entry => Defs.joinOne known entry.1 entry.2) known = known := by
  induction entries generalizing known with
  | nil => rfl
  | cons entry entries ih =>
    have unchanged : (entry :: entries).foldl
        (fun known entry => Defs.joinOne known entry.1 entry.2) known =
          Defs.joinOne known entry.1 entry.2 := ih same
    rw [unchanged] at same ⊢
    exact joinOne_same same

/-- A join records the entries of the other side one after the other. -/
theorem join_eq (left right : Defs P) :
    Fact.join left right =
      right.toList.foldl (fun known entry => Defs.joinOne known entry.1 entry.2) (left, false) :=
  TreeMap.foldl_eq_foldl_toList

/-- A name of the other side is known as it is there, or better. -/
theorem allows_right {left right : Defs P} (allowed : Allows right[name]? latest)
    : Allows (Fact.join left right).1[name]? latest:= by
  rw [join_eq]
  cases found : right[name]? with
  | some theirs =>
    rw [found] at allowed
    exact allows_foldl_mem (TreeMap.mem_toList_iff_getElem?_eq_some.mpr found) allowed
  | none =>
    rw [found] at allowed
    obtain rfl : latest = none := allowed
    exact allows_foldl right.toList (allows_none _)

/-- Definitions mean what they allow for the latest definition of each name. -/
def meaning : Meaning (Defs P) (Definitions P) where
  holds := Knows
  join_left := fun known name => by
    rw [join_eq]
    exact allows_foldl _ (known name)
  join_right := fun known name => allows_right (known name)
  join_same := fun {left right} same => by
    rw [join_eq] at same ⊢
    rw [foldl_same same]

/-- A name may be bound again and again exactly where it is ambiguous. -/
theorem closed_iff {defs : Defs P} :
    Closed meaning bindUnknown name defs ↔ defs[name]? = some .many := by
  constructor
  · intro closed
    have known := closed (fun _ => none) (fun name => allows_none defs[name]?) name
    rw [bindUnknown, Function.update_self] at known
    exact allows_unknown_iff.mp known
  · intro ambiguous latest known key
    by_cases same : key = name
    · subst same
      rw [ambiguous]
      trivial
    · rw [bindUnknown, Function.update_of_ne same]
      exact known key

omit [DecidableEq P] in
/-- A declared name may be bound or not. -/
theorem declare_ambiguous (extract : Extract P) (name : String) (defs : Defs P) :
    ((reachingDefinitions extract).declare name defs)[name]? = some .many :=
  TreeMap.getElem?_insert_self

/-- The analysis follows what statements define, given what is reported for their places. -/
theorem reachingDefinitions_follows (extract : Extract P) (reported : Place → Option (Defs P)) :
    Follows meaning reported (reachingDefinitions extract) (defineAt extract reported)
      bindUnknown where
  transfer := by
    intro place statement defs latest found known
    unfold defineAt reachingDefinitions
    rw [found, Option.getD_some]
    dsimp only
    cases extract statement defs with
    | none => exact known
    | some defined => exact knows_define known defined.1 defined.2
  keep := by
    intro name defs latest known key
    by_cases same : key = name
    · subst same
      rw [declare_ambiguous]
      trivial
    · have elsewhere := knows_define known name none key
      rw [Function.update_of_ne same] at elsewhere
      exact elsewhere
  closed := fun name defs => closed_iff.mpr (declare_ambiguous extract name defs)
  join_closed := by
    intro name left right closed
    rw [closed_iff, join_eq, ← allows_unknown_iff]
    exact allows_foldl _ (allows_unknown_iff.mpr (closed_iff.mp closed))

end Joining

/-- The fact reported for a place. -/
def factAt {F : Type} (reports : List (Report F)) (place : Place) : Option F :=
  (reports.find? fun report => report.place == place).map Report.fact

/-- Reports for distinct places are what is looked up. -/
theorem told_of_nodup {F : Type} {reports : List (Report F)}
    (distinct : (reports.map Report.place).Nodup) : Told (factAt reports) reports := by
  induction reports with
  | nil => exact fun report member => by cases member
  | cons first rest ih =>
    obtain ⟨fresh, distinct⟩ := List.nodup_cons.mp distinct
    intro report member
    rcases List.mem_cons.mp member with rfl | later
    · have here : (report :: rest).find? (fun other => other.place == report.place) = some report :=
        List.find?_cons_of_pos (beq_self_eq_true report.place)
      rw [factAt, here]
      rfl
    · have differs : ¬(first.place == report.place) = true := by
        intro same
        rw [beq_iff_eq.mp same] at fresh
        exact fresh (List.mem_map_of_mem later)
      have there : (first :: rest).find? (fun other => other.place == report.place) =
          rest.find? (fun other => other.place == report.place) :=
        List.find?_cons_of_neg differs
      rw [factAt, there]
      exact ih distinct report later

variable [DecidableEq P]

/-- The definitions reported on entry to the statement at a place. -/
def reachingAt (extract : Extract P) (body : List Statement) (entry : Defs P) :
    Place → Option (Defs P) :=
  factAt (solveObserved (reachingDefinitions extract) body entry)

/-- On every regular path through a body whose loops settle, a single definition reported for a
statement is the latest definition of its name whenever the statement is reached. And every
statement is reported exactly once if and only if the updates of the loops are reached. -/
theorem solveObserved_reaching (extract : Extract P) (body : List Statement) (entry : Defs P) :
    (SettlesBody (reachingDefinitions extract) [] 0 body ⟨entry, true⟩ →
      ∀ start visited exit final, Knows entry start →
        pathsBody true (defineAt extract (reachingAt extract body entry)) bindUnknown none [] 0 body
          start visited exit final →
        ∀ visit ∈ visited, ∃ defs, reachingAt extract body entry visit.1 = some defs ∧
          ∀ name payload, Defs.get defs name = some payload →
            visit.2 name = none ∨ visit.2 name = some (some payload)) ∧
      ((∀ place ∈ placesBody [] 0 body,
        ((solveObserved (reachingDefinitions extract) body entry).map Report.place).count place = 1) ↔
          UpdatesReachedBody true body) := by
  refine ⟨?_, reports_once_iff (reachingDefinitions extract) body entry⟩
  intro settles start visited exit final known ran visit member
  have sound := sound_body (reachingDefinitions_follows extract (reachingAt extract body entry))
    body none [] 0 ⟨entry, true⟩ settles
    (told_of_nodup (reports_nodup (reachingDefinitions extract) body entry))
  obtain ⟨seen, _⟩ := sound start visited exit final ⟨rfl, known⟩ ran
  obtain ⟨defs, found, holds⟩ := seen visit member
  refine ⟨defs, found, ?_⟩
  intro name payload single
  have allowed := holds name
  unfold Defs.get at single
  split at single
  case h_1 summary one =>
    rw [one] at allowed
    rw [← Option.some.inj single]
    exact allowed
  case h_2 => cases single

/-- Names are summarised by the integer they are given. -/
def integerConstant : Extract Int
  | .letStmt name (.value (.constant (.integer value))) _, _ => some (name.name, some value)
  | .assign (.binding (.variable name)) (.value (.constant (.integer value))), _ =>
      some (name.name, some value)
  | _, _ => none

/-- A loop whose body gives a name another value and leaves. -/
def leavingLoop : List Statement :=
  [.letStmt ⟨"x", none⟩ (.value (.constant (.integer 1))) .let,
   .forStmt none none (some (.assign (.binding (.variable ⟨"x", none⟩))
     (.value (.constant (.integer 3)))))
     [.assign (.binding (.variable ⟨"x", none⟩)) (.value (.constant (.integer 2))),
      .breakStmt none],
   .debugger]

/-- Nothing is defined yet but what the loop and the statement before it give the name. -/
def given (values : List Int) : Definitions Int :=
  values.foldr (fun value latest => Function.update latest "x" (some (some value))) fun _ => none

/-- One path gives the name its first value and then, in the loop, its second. -/
theorem leavingLoop_path (reported : Place → Option (Defs Int)) :
    ∃ visited exit final, pathsBody false (defineAt integerConstant reported) bindUnknown none [] 0
      leavingLoop (given []) visited exit final ∧ ([2], given [2, 1]) ∈ visited := by
  obtain ⟨inside, iterates⟩ : ∃ visited, Seq (Catching false (Continues none)
      (pathsBody false (defineAt integerConstant reported) bindUnknown none [0, 1] 0
        [.assign (.binding (.variable ⟨"x", none⟩)) (.value (.constant (.integer 2))),
          .breakStmt none]))
      (pathsOption false (defineAt integerConstant reported) bindUnknown [2, 1]
        (some (.assign (.binding (.variable ⟨"x", none⟩)) (.value (.constant (.integer 3))))))
      (given [1]) visited (.breaks none) (given [2, 1]) :=
    ⟨_, .leave (.through (.through (.run (.mk (given [1]))) (.leave (.run (.mk (given [2, 1])))
      (by nofun))) (by nofun)) (by nofun)⟩
  refine ⟨_, _, _, .through (.run (.mk (given []))) (.through (.run (.through (.mk (given [1]))
    (.caught (.leave iterates (by nofun)) ⟨none, rfl, .inl rfl⟩ (by nofun))))
      (.leave (.stop (given [2, 1])) (by nofun))), ?_⟩
  exact List.mem_append_right _ (List.mem_append_right _ List.mem_cons_self)

/-- Behind the loop the old value is reported, although the path that breaks out arrives with the
new one; and the update of the loop is not reported. -/
theorem leavingLoop_stale :
    (∃ visited exit final latest, pathsBody false
        (defineAt integerConstant (reachingAt integerConstant leavingLoop ∅)) bindUnknown none [] 0
        leavingLoop (fun _ => none) visited exit final ∧
      ([2], latest) ∈ visited ∧ latest "x" = some (some 2)) ∧
      (reachingAt integerConstant leavingLoop ∅ [2]).bind (Defs.get · "x") = some 1 ∧
      [2, 1] ∈ placesBody [] 0 leavingLoop ∧
      ((solveObserved (reachingDefinitions integerConstant) leavingLoop ∅).map
        Report.place).count [2, 1] = 0 := by
  refine ⟨?_, ?_, ?_, ?_⟩
  · obtain ⟨visited, exit, final, ran, reached⟩ :=
      leavingLoop_path (reachingAt integerConstant leavingLoop ∅)
    exact ⟨visited, exit, final, given [2, 1], ran, reached, rfl⟩
  · decide +kernel
  · decide +kernel
  · decide +kernel

end HermesDecomp.Dataflow
