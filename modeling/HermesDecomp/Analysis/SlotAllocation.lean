import HermesDecomp.Analysis.SlotNames
import HermesDecomp.Library.Orbit
import Mathlib.Data.List.Sort

/-!
# One name for one slot

A slot is rendered by its owner's name for it in every function that reads it, so the
names are decided scope by scope, outermost first: a name an enclosing scope already uses
is made distinct. A function reads the slots of the scopes above it and of the block
environments it built.
-/

namespace HermesDecomp.Closure

open List Option
open Std (TreeMap)

/-- The scopes of a program: their parents, their slots, and the block environments by
the function that built them and the level it addresses them with. -/
structure ClosureContext where
  parentFunction : TreeMap Nat Nat
  functionClosures : TreeMap Nat ClosureInfo
  blockScopes : List ((Nat × Nat) × Nat)

/-- The ancestors of a scope, nearest first, stopping at a cycle. -/
def ancestorsOf (parents : TreeMap Nat Nat) (scope : Nat) : List Nat :=
  Orbit.follow (parents[·]?) parents.size [] scope

namespace ClosureInfo

/-- The name of a slot with a suffix that makes it distinct. -/
def numbered (info : ClosureInfo) (slot number : Nat) : String :=
  if (info.derivedSlotName slot).source = .placeholder then
    (info.derivedSlotName slot).text ++ "$" ++ toString number
  else (info.derivedSlotName slot).text ++ toString number

/-- A name decided before that is the placeholder of the slot with a suffix. -/
def isVariant (info : ClosureInfo) (slot : Nat) (name : String) : Bool :=
  beginsWith ((info.derivedSlotName slot).text ++ "$") name

/-- The name of a slot none of the visible names is. -/
def chooseName (info : ClosureInfo) (visible : List String) (previous : Option String)
    (slot : Nat) : String :=
  let base := (info.derivedSlotName slot).text
  match (previous.filter (info.isVariant slot)).filter (fun kept => kept ∉ visible) with
  | some kept => kept
  | none => if base ∈ visible then Fresh.firstFree visible (info.numbered slot) 2 else base

/-- Decide the names of slots, each visible to those after it. -/
def nameSlots (info : ClosureInfo) (previous : TreeMap Nat String) (visible : List String) :
    List Nat → List (Nat × String)
  | [] => []
  | slot :: rest =>
      let name := info.chooseName visible previous[slot]? slot
      (slot, name) :: info.nameSlots previous (name :: visible) rest

/-- Record the decided names that are not the derived ones. -/
def record (info : ClosureInfo) (mine : List (Nat × String)) : ClosureInfo :=
  { info with
    names := .ofList (mine.filter fun (slot, name) => name ≠ (info.derivedSlotName slot).text) }

end ClosureInfo

/-- The closures as decided so far, and the names of the scopes already decided. -/
structure Allocation where
  closures : TreeMap Nat ClosureInfo
  decided : TreeMap Nat (List (Nat × String))

/-- The names decided for a scope. -/
def Allocation.namesOf (state : Allocation) (scope : Nat) : List String :=
  match state.decided[scope]? with
  | some mine => mine.map Prod.snd
  | none => []

/-- The names the ancestors of a scope have been given. -/
def Allocation.visibleTo (state : Allocation) (parents : TreeMap Nat Nat) (scope : Nat) :
    List String :=
  (ancestorsOf parents scope).flatMap state.namesOf

/-- Decide the names of one scope. -/
def allocateScope (parents : TreeMap Nat Nat) (state : Allocation) (scope : Nat) : Allocation :=
  match state.closures[scope]? with
  | none => state
  | some info =>
      let mine := info.nameSlots info.names (state.visibleTo parents scope) info.ownSlots
      ⟨state.closures.insert scope (info.record mine), state.decided.insert scope mine⟩

namespace ClosureContext

/-- How many scopes are above a scope. -/
def depth (context : ClosureContext) (scope : Nat) : Nat :=
  (ancestorsOf context.parentFunction scope).length

/-- One scope is decided before another. -/
def Before (context : ClosureContext) (scope scope' : Nat) : Prop :=
  context.depth scope < context.depth scope' ∨
    context.depth scope = context.depth scope' ∧ scope ≤ scope'

instance (context : ClosureContext) : DecidableRel context.Before := fun _ _ =>
  inferInstanceAs (Decidable (_ ∨ _))

/-- The scopes with slots, outermost first. -/
def order (context : ClosureContext) : List Nat :=
  context.functionClosures.keys.insertionSort context.Before

/-- The state after every scope has been decided. -/
def allocation (context : ClosureContext) : Allocation :=
  context.order.foldl (allocateScope context.parentFunction) ⟨context.functionClosures, ∅⟩

/-- Decide slot names so that no function sees two variables under one name. -/
def allocateSlotNames (context : ClosureContext) : ClosureContext :=
  { context with functionClosures := context.allocation.closures }

/-- The scopes whose slots a function reads: its own, those above it, and the block
environments it built. -/
def scopesSeen (context : ClosureContext) (function : Nat) : List Nat :=
  function :: (ancestorsOf context.parentFunction function ++
    (context.blockScopes.filter (·.1.1 == function)).map Prod.snd)

/-- The name a slot of a scope is rendered by. -/
def nameOf (context : ClosureContext) (scope slot : Nat) : Option String :=
  context.functionClosures[scope]?.map (·.getSlotName slot)

end ClosureContext

namespace ClosureInfo

variable (info : ClosureInfo)

theorem numbered_injective (slot number number' : Nat)
    (same : info.numbered slot number = info.numbered slot number') : number = number' := by
  unfold numbered at same
  split at same
  · exact Fresh.numbered_injective _ number number' same
  · exact Fresh.numbered_injective _ number number' same

/-- A name the slot can be given: the derived one, one with a suffix, or a variant of its
placeholder decided before. -/
def Candidate (slot : Nat) (name : String) : Prop :=
  name = (info.derivedSlotName slot).text ∨
    (∃ number, 2 ≤ number ∧ name = info.numbered slot number) ∨
    info.names[slot]? = some name ∧ info.isVariant slot name = true

variable {info}

variable {visible : List String} {slot : Nat}

theorem eq_of_kept {previous : Option String} {kept : String}
    (found : (previous.filter (info.isVariant slot)).filter (fun kept => kept ∉ visible) =
      some kept) :
    previous = some kept ∧ info.isVariant slot kept = true ∧ kept ∉ visible := by
  obtain ⟨outer, free⟩ := filter_eq_some_iff.mp found
  obtain ⟨inner, isVariant⟩ := filter_eq_some_iff.mp outer
  exact ⟨inner, isVariant, of_decide_eq_true free⟩

/-- The name chosen is visible nowhere. -/
theorem chooseName_notMem (visible : List String) (previous : Option String) (slot : Nat) :
    info.chooseName visible previous slot ∉ visible := by
  unfold chooseName
  dsimp only
  split
  · rename_i kept found
    exact (eq_of_kept found).2.2
  · split
    · exact Fresh.firstFree_notMem visible (info.numbered_injective slot) 2
    · assumption

/-- The name chosen is one the slot can be given. -/
theorem chooseName_candidate (visible : List String) (slot : Nat) :
    info.Candidate slot (info.chooseName visible info.names[slot]? slot) := by
  unfold chooseName
  dsimp only
  split
  · rename_i kept found
    obtain ⟨recorded, isVariant, _⟩ := eq_of_kept found
    exact .inr (.inr ⟨recorded, isVariant⟩)
  · split
    · obtain ⟨number, atLeast, found⟩ :=
        Fresh.firstFree_eq visible (info.numbered slot) 2
      exact .inr (.inl ⟨number, atLeast, found⟩)
    · exact .inl rfl

/-- What a chosen name leaves recorded. -/
def recorded (info : ClosureInfo) (slot : Nat) (name : String) : Option String :=
  if name = (info.derivedSlotName slot).text then none else some name

/-- A name chosen that is no variant is the derived one or a suffixed one. -/
theorem chooseName_of_not_isVariant {previous : Option String}
    (notVariant : info.isVariant slot (info.chooseName visible previous slot) = false) :
    info.chooseName visible previous slot = info.chooseName visible none slot := by
  unfold chooseName at notVariant ⊢
  dsimp only at notVariant ⊢
  split at notVariant
  · rename_i kept found
    rw [(eq_of_kept found).2.1] at notVariant
    cases notVariant
  · rfl

/-- Chosen again among the same names, with what was recorded, a name stays. -/
theorem chooseName_again (visible : List String) (previous : Option String) (slot : Nat) :
    info.chooseName visible (info.recorded slot (info.chooseName visible previous slot)) slot =
      info.chooseName visible previous slot := by
  have free := @chooseName_notMem info visible previous slot
  generalize chosen : info.chooseName visible previous slot = name at free ⊢
  unfold recorded
  split
  · rename_i same
    subst same
    exact if_neg free
  · by_cases isVariant : info.isVariant slot name = true
    · unfold chooseName
      have kept : ((some name).filter (info.isVariant slot)).filter (fun kept => kept ∉ visible) =
          some name := by
        rw [filter_some_pos isVariant]
        exact filter_some_pos (decide_eq_true free)
      rw [kept]
    · have notVariant := Bool.eq_false_iff.mpr isVariant
      have dropped : info.chooseName visible (some name) slot =
          info.chooseName visible none slot := by
        unfold chooseName
        rw [filter_some_neg notVariant]
        rfl
      rw [dropped, ← chosen]
      rw [← chosen] at notVariant
      exact (chooseName_of_not_isVariant notVariant).symm

variable {previous : TreeMap Nat String}

variable {slots : List Nat} {name : String}

theorem mem_nameSlots_slot (member : (slot, name) ∈ info.nameSlots previous visible slots)
    : slot ∈ slots:= by
  induction slots generalizing visible with
  | nil => cases member
  | cons first rest ih =>
    obtain same | later := mem_cons.mp member
    · rw [(Prod.mk.inj same).1]
      exact mem_cons_self
    · exact mem_cons_of_mem first (ih later)

/-- Every slot is given a name. -/
theorem exists_mem_nameSlots (member : slot ∈ slots)
    : ∃ name, (slot, name) ∈ info.nameSlots previous visible slots:= by
  induction slots generalizing visible with
  | nil => cases member
  | cons first rest ih =>
    obtain rfl | later := mem_cons.mp member
    · exact ⟨_, mem_cons_self⟩
    · obtain ⟨name, found⟩ := ih later
      exact ⟨name, mem_cons_of_mem _ found⟩

/-- The names given are visible nowhere, and none is given twice. -/
theorem nameSlots_apart (visible : List String) (slots : List Nat) :
    (∀ name ∈ (info.nameSlots previous visible slots).map Prod.snd, name ∉ visible) ∧
      ((info.nameSlots previous visible slots).map Prod.snd).Nodup := by
  induction slots generalizing visible with
  | nil => exact ⟨fun name member => (nomatch member), nodup_nil⟩
  | cons slot rest ih =>
    obtain ⟨apart, distinct⟩ := ih (info.chooseName visible previous[slot]? slot :: visible)
    constructor
    · intro name member
      obtain rfl | later := mem_cons.mp member
      · exact chooseName_notMem visible previous[slot]? slot
      · intro seen
        exact apart name later (mem_cons_of_mem _ seen)
    · refine nodup_cons.mpr ⟨?_, distinct⟩
      intro again
      exact apart _ again mem_cons_self

/-- The names given are ones the slots can be given. -/
theorem nameSlots_candidate (member : (slot, name) ∈ info.nameSlots info.names visible slots) :
    info.Candidate slot name := by
  induction slots generalizing visible with
  | nil => cases member
  | cons first rest ih =>
    obtain same | later := mem_cons.mp member
    · cases same
      exact chooseName_candidate visible slot
    · exact ih later

theorem nodup_slots_nameSlots (visible : List String) (distinct : slots.Nodup) :
    ((info.nameSlots previous visible slots).map Prod.fst).Nodup := by
  induction slots generalizing visible with
  | nil => exact nodup_nil
  | cons slot rest ih =>
    obtain ⟨fresh, distinctRest⟩ := nodup_cons.mp distinct
    refine nodup_cons.mpr ⟨?_, ih _ distinctRest⟩
    intro again
    obtain ⟨⟨slot', name⟩, member, rfl⟩ := mem_map.mp again
    exact fresh (mem_nameSlots_slot member)

/-- Decided again among the same names, with what was recorded, the names stay. -/
theorem nameSlots_again {recordedNames : TreeMap Nat String}
    (recordedAll : ∀ slot name, (slot, name) ∈ info.nameSlots previous visible slots →
      recordedNames[slot]? = info.recorded slot name) :
    info.nameSlots recordedNames visible slots = info.nameSlots previous visible slots := by
  induction slots generalizing visible with
  | nil => rfl
  | cons slot rest ih =>
    have first : info.chooseName visible recordedNames[slot]? slot =
        info.chooseName visible previous[slot]? slot := by
      rw [recordedAll slot _ mem_cons_self]
      exact chooseName_again visible previous[slot]? slot
    have later := @ih (info.chooseName visible previous[slot]? slot :: visible)
      fun slot' name member => recordedAll slot' name (mem_cons_of_mem _ member)
    simp [nameSlots, first, later]

/-- What the record of a scope's names says of a slot that was given one. -/
theorem names_record {mine : List (Nat × String)} (distinct : (mine.map Prod.fst).Nodup)
    (member : (slot, name) ∈ mine) : (info.record mine).names[slot]? = info.recorded slot name := by
  unfold record recorded
  dsimp only
  split
  · rename_i same
    rw [TreeMap.getElem?_ofList_of_contains_eq_false]
    rw [contains_eq_mem, decide_eq_false_iff_not]
    intro kept
    obtain ⟨⟨slot', name'⟩, kept, sameSlot⟩ := mem_map.mp kept
    obtain ⟨inMine, different⟩ := mem_filter.mp kept
    have sameEntry := inj_on_of_nodup_map distinct member inMine sameSlot.symm
    cases sameEntry
    exact of_decide_eq_true different same
  · rename_i different
    refine TreeMap.getElem?_ofList_of_mem (by exact Nat.compare_eq_eq.mpr rfl) ?_
      (mem_filter.mpr ⟨member, decide_eq_true different⟩)
    have distinctKept : ((mine.filter fun (slot, name) =>
        name ≠ (info.derivedSlotName slot).text).map Prod.fst).Nodup :=
      distinct.sublist (filter_sublist.map Prod.fst)
    exact (pairwise_map.mp distinctKept).imp fun different same =>
      different (Nat.compare_eq_eq.mp same)

/-- What is chosen does not depend on the names recorded last. -/
theorem nameSlots_of_record (mine : List (Nat × String)) (visible : List String)
    (slots : List Nat) :
    (info.record mine).nameSlots previous visible slots =
      info.nameSlots previous visible slots := by
  induction slots generalizing visible with
  | nil => rfl
  | cons slot rest ih =>
    simp only [nameSlots, ih]
    rfl

/-- A slot that was given a name is rendered by it. -/
theorem getSlotName_record {mine : List (Nat × String)} (distinct : (mine.map Prod.fst).Nodup)
    (member : (slot, name) ∈ mine) : (info.record mine).getSlotName slot = name := by
  unfold getSlotName slotName
  rw [names_record distinct member]
  unfold recorded
  split
  · rename_i found
    split at found
    · cases found
    · exact (Option.some.inj found).symm
  · rename_i found
    split at found
    · rename_i same
      exact same.symm
    · cases found

end ClosureInfo

section Run

variable {parents : TreeMap Nat Nat}

theorem allocateScope_none {state : Allocation} {scope : Nat}
    (absent : state.closures[scope]? = none) : allocateScope parents state scope = state := by
  unfold allocateScope
  rw [absent]

theorem allocateScope_some {state : Allocation} {scope : Nat} {info : ClosureInfo}
    (present : state.closures[scope]? = some info) :
    allocateScope parents state scope =
      ⟨state.closures.insert scope (info.record (info.nameSlots info.names
          (state.visibleTo parents scope) info.ownSlots)),
        state.decided.insert scope (info.nameSlots info.names
          (state.visibleTo parents scope) info.ownSlots)⟩ := by
  unfold allocateScope
  rw [present]

/-- Deciding a scope leaves the others as they are. -/
theorem allocateScope_other {state : Allocation} {scope other : Nat} (different : other ≠ scope) :
    (allocateScope parents state scope).closures[other]? = state.closures[other]? ∧
      (allocateScope parents state scope).decided[other]? = state.decided[other]? := by
  have apart : ¬ compare scope other = .eq := fun same => different (Nat.compare_eq_eq.mp same).symm
  cases present : state.closures[scope]? with
  | none =>
    rw [allocateScope_none present]
    exact ⟨rfl, rfl⟩
  | some info =>
    rw [allocateScope_some present]
    simp only [TreeMap.getElem?_insert, if_neg apart, and_self]

/-- What deciding a scope leaves of it. -/
theorem allocateScope_self {state : Allocation} {scope : Nat} {info : ClosureInfo}
    (present : state.closures[scope]? = some info) :
    (allocateScope parents state scope).closures[scope]? =
        some (info.record (info.nameSlots info.names
          (state.visibleTo parents scope) info.ownSlots)) ∧
      (allocateScope parents state scope).decided[scope]? =
        some (info.nameSlots info.names (state.visibleTo parents scope) info.ownSlots) := by
  rw [allocateScope_some present]
  simp

/-- Scopes that are not to be decided are left as they are. -/
theorem foldl_other {rest : List Nat} {other : Nat} (absent : other ∉ rest) (state : Allocation) :
    (rest.foldl (allocateScope parents) state).closures[other]? = state.closures[other]? ∧
      (rest.foldl (allocateScope parents) state).decided[other]? = state.decided[other]? := by
  induction rest generalizing state with
  | nil => exact ⟨rfl, rfl⟩
  | cons scope rest ih =>
    obtain ⟨different, absentRest⟩ := not_or.mp (absent ∘ mem_cons.mpr)
    obtain ⟨closures, decided⟩ := ih absentRest (allocateScope parents state scope)
    obtain ⟨closures', decided'⟩ := @allocateScope_other parents state scope other different
    exact ⟨closures.trans closures', decided.trans decided'⟩

end Run

section Order

variable (context : ClosureContext)

/-- The parents of a context lead nowhere but from the functions they are of. -/
theorem parents_inDomain (parents : TreeMap Nat Nat) (scope : Nat)
    (found : (parents[scope]?).isSome) : scope ∈ parents.keys := by
  rw [TreeMap.mem_keys, TreeMap.mem_iff_isSome_getElem?]
  exact found

theorem mem_ancestorsOf_iff (parents : TreeMap Nat Nat) (scope ancestor : Nat) :
    ancestor ∈ ancestorsOf parents scope ↔
      ancestor ≠ scope ∧ Orbit.Leads (parents[·]?) scope ancestor :=
  Orbit.mem_follow_iff (parents_inDomain parents) (le_of_eq TreeMap.length_keys) scope ancestor

/-- An ancestor decided later has the scope among its own ancestors. -/
theorem ancestor_of_before {scope ancestor : Nat} (before : context.Before scope ancestor)
    (above : ancestor ∈ ancestorsOf context.parentFunction scope) :
    scope ∈ ancestorsOf context.parentFunction ancestor := by
  by_contra notBack
  have shorter : context.depth ancestor < context.depth scope :=
    Orbit.length_follow_lt (parents_inDomain context.parentFunction)
      (le_of_eq TreeMap.length_keys) above notBack
  obtain less | ⟨same, _⟩ := before
  · exact lt_asymm less shorter
  · rw [same] at shorter
    exact lt_irrefl _ shorter

instance : Std.Total context.Before where
  total scope scope' := by
    unfold ClosureContext.Before
    omega

instance : IsTrans Nat context.Before where
  trans first second third := by
    unfold ClosureContext.Before
    omega

theorem order_sorted : context.order.Pairwise context.Before :=
  pairwise_insertionSort context.Before _

theorem order_perm : context.order.Perm context.functionClosures.keys :=
  perm_insertionSort context.Before _

theorem order_nodup : context.order.Nodup := by
  refine (order_perm context).nodup_iff.mpr ?_
  refine context.functionClosures.ordered_keys.imp ?_
  intro scope scope' before
  rintro rfl
  exact lt_irrefl scope (Nat.compare_eq_lt.mp before)

theorem mem_order_iff (scope : Nat) :
    scope ∈ context.order ↔ (context.functionClosures[scope]?).isSome := by
  rw [(order_perm context).mem_iff, TreeMap.mem_keys, TreeMap.mem_iff_isSome_getElem?]

end Order

/-- The names of the scopes done are decided: each scope has its own, and none shares one with a
scope above it. -/
structure Decided (context : ClosureContext) (state : Allocation) (done : List Nat) : Prop where
  own : ∀ scope ∈ done, ∀ info, context.functionClosures[scope]? = some info →
    ∃ visible, state.decided[scope]? = some (info.nameSlots info.names visible info.ownSlots) ∧
      state.closures[scope]? = some (info.record (info.nameSlots info.names visible info.ownSlots))
  todo : ∀ scope ∉ done, state.closures[scope]? = context.functionClosures[scope]? ∧
    state.decided[scope]? = none
  apart : ∀ scope ∈ done, ∀ scope' ∈ done,
    scope ∈ ancestorsOf context.parentFunction scope' →
      ∀ name ∈ state.namesOf scope, name ∉ state.namesOf scope'

section Decided

variable {context : ClosureContext}

theorem namesOf_congr {state state' : Allocation} {scope : Nat}
    (same : state.decided[scope]? = state'.decided[scope]?) :
    state.namesOf scope = state'.namesOf scope := by
  unfold Allocation.namesOf
  rw [same]

/-- The names of a scope decided now are not those of the scopes above it. -/
theorem namesOf_allocateScope_apart {state : Allocation} {scope ancestor : Nat}
    {info : ClosureInfo} (present : state.closures[scope]? = some info)
    (above : ancestor ∈ ancestorsOf context.parentFunction scope) :
    ∀ name ∈ (allocateScope context.parentFunction state scope).namesOf scope,
      name ∉ state.namesOf ancestor := by
  intro name member seen
  unfold Allocation.namesOf at member
  rw [(allocateScope_self present).2] at member
  exact (ClosureInfo.nameSlots_apart _ _).1 name member (mem_flatMap.mpr ⟨ancestor, above, seen⟩)

/-- One more scope decided. -/
theorem Decided.step {state : Allocation} {done : List Nat} (decided : Decided context state done)
    {scope : Nat} {info : ClosureInfo} (present : context.functionClosures[scope]? = some info)
    (fresh : scope ∉ done) (after : ∀ earlier ∈ done, context.Before earlier scope) :
    Decided context (allocateScope context.parentFunction state scope) (scope :: done) := by
  have here : state.closures[scope]? = some info := (decided.todo scope fresh).1.trans present
  have kept : ∀ earlier ∈ done,
      (allocateScope context.parentFunction state scope).namesOf earlier =
        state.namesOf earlier := by
    intro earlier member
    refine namesOf_congr (allocateScope_other ?_).2
    rintro rfl
    exact fresh member
  constructor
  · intro scope' member info' present'
    obtain rfl | earlier := mem_cons.mp member
    · obtain rfl := Option.some.inj (present.symm.trans present')
      obtain ⟨closures, decidedHere⟩ := @allocateScope_self context.parentFunction _ _ _ here
      exact ⟨_, decidedHere, closures⟩
    · obtain ⟨visible, decidedThere, closures⟩ := decided.own scope' earlier info' present'
      have different : scope' ≠ scope := by
        rintro rfl
        exact fresh earlier
      obtain ⟨sameClosures, sameDecided⟩ := allocateScope_other different
      exact ⟨visible, sameDecided.trans decidedThere, sameClosures.trans closures⟩
  · intro scope' absent
    obtain ⟨different, absentDone⟩ := not_or.mp (absent ∘ mem_cons.mpr)
    obtain ⟨sameClosures, sameDecided⟩ := allocateScope_other different
    obtain ⟨closures, undecided⟩ := decided.todo scope' absentDone
    exact ⟨sameClosures.trans closures, sameDecided.trans undecided⟩
  · intro outer memberOuter inner memberInner above name named
    obtain rfl | earlierInner := mem_cons.mp memberInner
    · obtain rfl | earlierOuter := mem_cons.mp memberOuter
      · exact absurd rfl ((mem_ancestorsOf_iff ..).mp above).1
      · rw [kept outer earlierOuter] at named
        intro again
        exact namesOf_allocateScope_apart here above name again named
    · rw [kept inner earlierInner]
      obtain rfl | earlierOuter := mem_cons.mp memberOuter
      · exact namesOf_allocateScope_apart here
          (ancestor_of_before context (after inner earlierInner) above) name named
      · rw [kept outer earlierOuter] at named
        exact decided.apart outer earlierOuter inner earlierInner above name named

/-- The scopes left decided in their order. -/
theorem Decided.run {rest done : List Nat} {state : Allocation}
    (decided : Decided context state done) (distinct : rest.Nodup)
    (sorted : rest.Pairwise context.Before)
    (present : ∀ scope ∈ rest, (context.functionClosures[scope]?).isSome)
    (fresh : ∀ scope ∈ rest, scope ∉ done)
    (after : ∀ earlier ∈ done, ∀ scope ∈ rest, context.Before earlier scope) :
    Decided context (rest.foldl (allocateScope context.parentFunction) state)
      (rest.reverse ++ done) := by
  induction rest generalizing state done with
  | nil => exact decided
  | cons scope rest ih =>
    obtain ⟨notLater, distinctRest⟩ := nodup_cons.mp distinct
    obtain ⟨first, sortedRest⟩ := pairwise_cons.mp sorted
    obtain ⟨info, found⟩ := isSome_iff_exists.mp (present scope mem_cons_self)
    have stepped := decided.step found (fresh scope mem_cons_self)
      fun earlier member => after earlier member scope mem_cons_self
    have finished := ih stepped distinctRest sortedRest
      (fun later member => present later (mem_cons_of_mem scope member))
      (by
        intro later member again
        obtain rfl | earlier := mem_cons.mp again
        · exact notLater member
        · exact fresh later (mem_cons_of_mem scope member) earlier)
      (by
        intro earlier member later memberLater
        obtain rfl | before := mem_cons.mp member
        · exact first later memberLater
        · exact after earlier before later (mem_cons_of_mem scope memberLater))
    rw [reverse_cons, append_assoc]
    exact finished

/-- Every scope is decided in the end. -/
theorem decided_allocation (context : ClosureContext) :
    Decided context context.allocation context.order := by
  have start : Decided context ⟨context.functionClosures, ∅⟩ [] := by
    constructor
    · exact fun scope member => nomatch member
    · exact fun scope _ => ⟨rfl, TreeMap.getElem?_emptyc⟩
    · exact fun scope member => nomatch member
  have finished := start.run (order_nodup context) (order_sorted context)
    (fun scope member => (mem_order_iff context scope).mp member)
    (fun scope _ => not_mem_nil) (fun earlier member => nomatch member)
  rw [append_nil] at finished
  refine ⟨fun scope member => finished.own scope (mem_reverse.mpr member),
    fun scope absent => finished.todo scope (absent ∘ mem_reverse.mp), ?_⟩
  intro scope member scope' member'
  exact finished.apart scope (mem_reverse.mpr member) scope' (mem_reverse.mpr member')

end Decided

section Again

variable {parents : TreeMap Nat Nat}

theorem visibleTo_congr {state state' : Allocation}
    (same : ∀ scope : Nat, state.decided[scope]? = state'.decided[scope]?) (scope : Nat) :
    state.visibleTo parents scope = state'.visibleTo parents scope := by
  unfold Allocation.visibleTo
  exact flatMap_congr fun ancestor _ => namesOf_congr (same ancestor)

/-- A scope decided again, among the same names and with its decided names recorded, is
given the same names. -/
theorem nameSlots_record (info : ClosureInfo) (visible : List String) :
    (info.record (info.nameSlots info.names visible info.ownSlots)).nameSlots
        (info.record (info.nameSlots info.names visible info.ownSlots)).names visible
        info.ownSlots =
      info.nameSlots info.names visible info.ownSlots := by
  rw [ClosureInfo.nameSlots_of_record]
  refine ClosureInfo.nameSlots_again fun slot name member => ?_
  exact ClosureInfo.names_record
    (ClosureInfo.nodup_slots_nameSlots visible info.ownSlots_nodup) member

/-- A second run over scopes whose names were recorded decides what the first did. -/
theorem foldl_again {rest : List Nat} (distinct : rest.Nodup) {state state' : Allocation}
    (same : ∀ scope : Nat, state.decided[scope]? = state'.decided[scope]?)
    (recorded : ∀ scope ∈ rest, ∃ info mine, state.closures[scope]? = some info ∧
      (rest.foldl (allocateScope parents) state).decided[scope]? = some mine ∧
      state'.closures[scope]? = some (info.record mine)) :
    ∀ scope : Nat, (rest.foldl (allocateScope parents) state).decided[scope]? =
      (rest.foldl (allocateScope parents) state').decided[scope]? := by
  induction rest generalizing state state' with
  | nil => exact same
  | cons first rest ih =>
    obtain ⟨notLater, distinctRest⟩ := nodup_cons.mp distinct
    obtain ⟨info, mine, present, decidedFirst, present'⟩ := recorded first mem_cons_self
    have mineIs : info.nameSlots info.names (state.visibleTo parents first) info.ownSlots =
        mine := by
      rw [foldl_cons, (foldl_other notLater _).2, (allocateScope_self present).2]
        at decidedFirst
      exact Option.some.inj decidedFirst
    subst mineIs
    refine ih distinctRest ?_ ?_
    · intro scope
      by_cases here : scope = first
      · subst here
        rw [(allocateScope_self present).2, (allocateScope_self present').2, ← visibleTo_congr same]
        exact congrArg some (nameSlots_record info _).symm
      · rw [(allocateScope_other here).2, (allocateScope_other here).2]
        exact same scope
    · intro scope member
      have different : scope ≠ first := by
        rintro rfl
        exact notLater member
      obtain ⟨info', mine', here, decidedHere, here'⟩ :=
        recorded scope (mem_cons_of_mem first member)
      exact ⟨info', mine', (allocateScope_other different).1.trans here, decidedHere,
        (allocateScope_other different).1.trans here'⟩

variable (context : ClosureContext)

/-- Which scopes have slots does not change. -/
theorem isSome_allocateSlotNames (scope : Nat) :
    (context.allocateSlotNames.functionClosures[scope]?).isSome =
      (context.functionClosures[scope]?).isSome := by
  have decided := decided_allocation context
  by_cases member : scope ∈ context.order
  · obtain ⟨info, present⟩ :=
      isSome_iff_exists.mp ((mem_order_iff context scope).mp member)
    obtain ⟨visible, _, closures⟩ := decided.own scope member info present
    rw [present]
    exact (congrArg Option.isSome closures).trans rfl
  · exact congrArg Option.isSome (decided.todo scope member).1

theorem keys_allocateSlotNames :
    context.allocateSlotNames.functionClosures.keys = context.functionClosures.keys := by
  have nodup : ∀ map : TreeMap Nat ClosureInfo, map.keys.Nodup := fun map =>
    map.ordered_keys.imp fun before same => by
      rw [same] at before
      exact lt_irrefl _ (Nat.compare_eq_lt.mp before)
  refine List.Perm.eq_of_pairwise ?_ TreeMap.ordered_keys TreeMap.ordered_keys ?_
  · intro scope scope' _ _ before after
    exact absurd (Nat.compare_eq_lt.mp before) (lt_asymm (Nat.compare_eq_lt.mp after))
  · refine (perm_ext_iff_of_nodup (nodup _) (nodup _)).mpr fun scope => ?_
    rw [TreeMap.mem_keys, TreeMap.mem_keys, TreeMap.mem_iff_isSome_getElem?,
      TreeMap.mem_iff_isSome_getElem?, isSome_allocateSlotNames]

theorem order_allocateSlotNames : context.allocateSlotNames.order = context.order := by
  change context.allocateSlotNames.functionClosures.keys.insertionSort context.Before = _
  rw [keys_allocateSlotNames]
  rfl

/-- Allocating the names again changes nothing. -/
theorem allocateSlotNames_again (scope : Nat) :
    context.allocateSlotNames.allocateSlotNames.functionClosures[scope]? =
      context.allocateSlotNames.functionClosures[scope]? := by
  have decided := decided_allocation context
  have decided' := decided_allocation context.allocateSlotNames
  rw [order_allocateSlotNames] at decided'
  by_cases member : scope ∈ context.order
  · obtain ⟨info, present⟩ :=
      isSome_iff_exists.mp ((mem_order_iff context scope).mp member)
    obtain ⟨visible, named, closures⟩ := decided.own scope member info present
    obtain ⟨visible', named', closures'⟩ := decided'.own scope member _ closures
    have recorded : ∀ scope' ∈ context.order, ∃ info mine,
        context.functionClosures[scope']? = some info ∧
          context.allocation.decided[scope']? = some mine ∧
          context.allocateSlotNames.functionClosures[scope']? = some (info.record mine) := by
      intro scope' member'
      obtain ⟨info', present'⟩ := isSome_iff_exists.mp ((mem_order_iff context scope').mp member')
      obtain ⟨_, namedThere, closuresThere⟩ := decided.own scope' member' info' present'
      exact ⟨info', _, present', namedThere, closuresThere⟩
    have agreed : context.allocation.decided[scope]? =
        context.allocateSlotNames.allocation.decided[scope]? := by
      unfold ClosureContext.allocation
      rw [order_allocateSlotNames]
      exact @foldl_again context.parentFunction context.order (order_nodup context)
        ⟨context.functionClosures, ∅⟩ ⟨context.allocateSlotNames.functionClosures, ∅⟩
        (fun _ => rfl) recorded scope
    rw [named, named'] at agreed
    refine closures'.trans (Eq.trans ?_ closures.symm)
    rw [← Option.some.inj agreed]
    rfl
  · exact (decided'.todo scope member).1

end Again

namespace ClosureContext

/-- A function sees a slot of a scope under a name. -/
def Sees (context : ClosureContext) (function scope slot : Nat) (name : String) : Prop :=
  scope ∈ context.scopesSeen function ∧
    ∃ info, context.functionClosures[scope]? = some info ∧ slot ∈ info.ownSlots ∧
      info.getSlotName slot = name

/-- No function sees two slots under one name. -/
def OneName (context : ClosureContext) : Prop :=
  ∀ function scope slot scope' slot' name, context.Sees function scope slot name →
    context.Sees function scope' slot' name → scope = scope' ∧ slot = slot'

/-- Where a function sees two scopes neither of which is above the other, their slots can
never be given the same name. -/
def Nested (context : ClosureContext) : Prop :=
  ∀ function, ∀ scope ∈ context.scopesSeen function, ∀ scope' ∈ context.scopesSeen function,
    scope ≠ scope' → scope ∉ ancestorsOf context.parentFunction scope' →
      scope' ∉ ancestorsOf context.parentFunction scope →
        ∀ info info', context.functionClosures[scope]? = some info →
          context.functionClosures[scope']? = some info' →
            ∀ slot ∈ info.ownSlots, ∀ slot' ∈ info'.ownSlots, ∀ name,
              info.Candidate slot name → ¬ info'.Candidate slot' name

variable (context : ClosureContext)

/-- A name seen after the allocation is the one decided for the slot. -/
theorem decided_of_sees {function scope slot : Nat} {name : String}
    (sees : context.allocateSlotNames.Sees function scope slot name) :
    scope ∈ context.order ∧ ∃ info visible,
      context.functionClosures[scope]? = some info ∧ slot ∈ info.ownSlots ∧
        context.allocation.decided[scope]? =
          some (info.nameSlots info.names visible info.ownSlots) ∧
        (slot, name) ∈ info.nameSlots info.names visible info.ownSlots := by
  obtain ⟨_, after, found, own, named⟩ := sees
  have member : scope ∈ context.order := by
    rw [mem_order_iff, ← isSome_allocateSlotNames, found]
    rfl
  obtain ⟨info, present⟩ := isSome_iff_exists.mp ((mem_order_iff context scope).mp member)
  obtain ⟨visible, decided, closures⟩ := (decided_allocation context).own scope member info present
  obtain rfl := Option.some.inj (found.symm.trans closures)
  obtain ⟨given, chosen⟩ := ClosureInfo.exists_mem_nameSlots own
  rw [ClosureInfo.getSlotName_record
    (ClosureInfo.nodup_slots_nameSlots visible info.ownSlots_nodup) chosen] at named
  subst named
  exact ⟨member, info, visible, present, own, decided, chosen⟩

theorem mem_namesOf {state : Allocation} {scope slot : Nat} {name : String}
    {mine : List (Nat × String)} (decided : state.decided[scope]? = some mine)
    (member : (slot, name) ∈ mine) : name ∈ state.namesOf scope := by
  unfold Allocation.namesOf
  rw [decided]
  exact mem_map.mpr ⟨_, member, rfl⟩

/-- Where the scopes a function sees are nested, it sees no two slots under one name; and
allocating the names again changes none. -/
theorem allocateSlotNames_oneName :
    (context.Nested → context.allocateSlotNames.OneName) ∧
      ∀ scope slot, context.allocateSlotNames.allocateSlotNames.nameOf scope slot =
        context.allocateSlotNames.nameOf scope slot := by
  constructor
  · intro nested function scope slot scope' slot' name sees sees'
    obtain ⟨member, info, visible, present, own, decided, named⟩ := context.decided_of_sees sees
    obtain ⟨member', info', visible', present', own', decided', named'⟩ :=
      context.decided_of_sees sees'
    have apart := (decided_allocation context).apart
    by_cases same : scope = scope'
    · subst same
      refine ⟨rfl, ?_⟩
      have mineSame := Option.some.inj (decided.symm.trans decided')
      rw [← mineSame] at named'
      have distinct := (@ClosureInfo.nameSlots_apart info info.names visible info.ownSlots).2
      exact congrArg Prod.fst (inj_on_of_nodup_map distinct named named' rfl)
    · have inView := mem_namesOf decided named
      have inView' := mem_namesOf decided' named'
      by_cases above : scope ∈ ancestorsOf context.parentFunction scope'
      · exact absurd inView' (apart scope member scope' member' above name inView)
      · by_cases below : scope' ∈ ancestorsOf context.parentFunction scope
        · exact absurd inView (apart scope' member' scope member below name inView')
        · exact absurd (ClosureInfo.nameSlots_candidate named')
            (nested function scope sees.1 scope' sees'.1 same above below info info' present
              present' slot own slot' own' name (ClosureInfo.nameSlots_candidate named))
  · intro scope slot
    unfold nameOf
    rw [allocateSlotNames_again]

/-- Without block environments the scopes a function sees are one chain. -/
theorem nested_of_blockScopes_nil (noBlocks : context.blockScopes = []) : context.Nested := by
  have leads : ∀ function, ∀ scope ∈ context.scopesSeen function,
      Orbit.Leads (context.parentFunction[·]?) function scope := by
    intro function scope seen
    unfold scopesSeen at seen
    rw [noBlocks, filter_nil, map_nil, append_nil] at seen
    obtain rfl | above := mem_cons.mp seen
    · exact .refl
    · exact ((mem_ancestorsOf_iff ..).mp above).2
  intro function scope seen scope' seen' different notAbove notBelow
  obtain outward | inward := Orbit.leads_total (leads function scope seen)
    (leads function scope' seen')
  · exact absurd ((mem_ancestorsOf_iff ..).mpr ⟨different.symm, outward⟩) notBelow
  · exact absurd ((mem_ancestorsOf_iff ..).mpr ⟨different, inward⟩) notAbove

/-- One slot nothing is known of. -/
def unknownSlot : ClosureInfo := ⟨.ofList [(0, ClosureSlotValue.unknown)], ∅⟩

/-- A function inside another, each with a slot nothing is known of. -/
def innerAndOuter : ClosureContext :=
  ⟨.ofList [(2, 1)], .ofList [(1, unknownSlot), (2, unknownSlot)], []⟩

theorem innerAndOuter_oneName :
    innerAndOuter.allocateSlotNames.OneName ∧
      innerAndOuter.allocateSlotNames.nameOf 2 0 = some "closure_0$2" :=
  ⟨(allocateSlotNames_oneName innerAndOuter).1 (nested_of_blockScopes_nil _ rfl),
    by decide +kernel⟩

/-- A function that built two block environments, each with a slot nothing is known of. -/
def twoBlocks : ClosureContext :=
  ⟨.ofList [(4294967294, 1), (4294967293, 1)],
    .ofList [(4294967294, unknownSlot), (4294967293, unknownSlot)],
    [((1, 128), 4294967294), ((1, 129), 4294967293)]⟩

/-- The two block environments do not see each other, and the function sees both slots
under one name. -/
theorem not_oneName_twoBlocks : ¬ twoBlocks.allocateSlotNames.OneName := by
  have named : ∀ scope ∈ [4294967294, 4294967293],
      scope ∈ twoBlocks.allocateSlotNames.scopesSeen 1 ∧
        ((twoBlocks.allocateSlotNames.functionClosures[scope]?).map fun info =>
          (info.ownSlots, info.getSlotName 0)) = some ([0], "closure_0") := by
    decide +kernel
  have sees : ∀ scope ∈ [4294967294, 4294967293],
      twoBlocks.allocateSlotNames.Sees 1 scope 0 "closure_0" := by
    intro scope member
    obtain ⟨seen, found⟩ := named scope member
    obtain ⟨info, present, same⟩ := map_eq_some_iff.mp found
    obtain ⟨own, name⟩ := Prod.mk.inj same
    exact ⟨seen, info, present, by rw [own]; exact mem_singleton_self 0, name⟩
  intro oneName
  obtain ⟨same, _⟩ := oneName 1 4294967294 0 4294967293 0 "closure_0"
    (sees 4294967294 (by decide)) (sees 4294967293 (by decide))
  cases same

end ClosureContext

end HermesDecomp.Closure
