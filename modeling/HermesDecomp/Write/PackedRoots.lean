import HermesDecomp.Write.ContainmentExact

/-!
# The packer writes the texts that nothing contains

A container is longer than the text in it, so a climb passes each text at most once and ends
at a text that was written. The texts that are written are those without a container: the
ones that no other text contains.
-/

namespace HermesDecomp.StringStorage

open Outcome List

section Roots

variable {utf16 : Bool} {reps : List Bytes} {parents : List (Option (Nat × Nat))}
variable {placed : List (Option Nat)}

/-- Each recorded container is a longer text that holds the text. -/
def Longer (utf16 : Bool) (reps : List Bytes) (parents : List (Option (Nat × Nat))) : Prop :=
  ∀ r c offset : Nat, parents[r]? = some (some (c, offset)) → ∃ inner outer : Bytes,
    reps[r]? = some inner ∧ reps[c]? = some outer ∧ inner.length < outer.length ∧
      OccursAt utf16 inner outer offset

/-- The size of a text. -/
def sizeOf (reps : List Bytes) (r : Nat) : Nat := (reps[r]?.getD []).length

variable {text : Bytes}

theorem sizeOf_eq {r : Nat} (found : reps[r]? = some text) : sizeOf reps r = text.length := by
  rw [sizeOf, found]
  rfl

/-- The texts that are longer than another one. -/
def longerThan (reps : List Bytes) (size : Nat) : List Bytes :=
  reps.filter fun text => decide (size < text.length)

/-- Fewer texts are longer than a longer text. -/
theorem longerThan_lt {size : Nat} {outer : Bytes} (member : outer ∈ reps)
    (longer : size < outer.length) :
    (longerThan reps outer.length).length < (longerThan reps size).length := by
  have inner : longerThan reps outer.length =
      (longerThan reps size).filter fun text => decide (outer.length < text.length) := by
    rw [longerThan, longerThan, filter_filter]
    refine filter_congr fun text _ => ?_
    rw [← Bool.decide_and]
    refine decide_eq_decide.mpr ⟨fun above => ⟨above, lt_trans longer above⟩, And.left⟩
  rw [inner, length_filter_lt_length_iff_exists]
  exact ⟨outer, mem_filter.mpr ⟨member, decide_eq_true longer⟩, by
    rw [decide_eq_true_eq]
    exact lt_irrefl _⟩

/-- Following containers ends. -/
theorem Longer.wellFounded (longer : Longer utf16 reps parents) :
    WellFounded fun c r : Nat => ∃ offset : Nat, parents[r]? = some (some (c, offset)) := by
  refine Subrelation.wf ?_ (measure fun r => (longerThan reps (sizeOf reps r)).length).wf
  rintro c r ⟨offset, recorded⟩
  obtain ⟨inner, outer, innerFound, outerFound, shorter, _⟩ := longer r c offset recorded
  change (longerThan reps (sizeOf reps c)).length < (longerThan reps (sizeOf reps r)).length
  rw [sizeOf_eq innerFound, sizeOf_eq outerFound]
  exact longerThan_lt (mem_of_getElem? outerFound) shorter

/-- Every text without a container was placed. -/
def RootsPlaced (parents : List (Option (Nat × Nat))) (placed : List (Option Nat)) : Prop :=
  ∀ r : Nat, parents[r]? = some none → ∃ base, placed[r]? = some (some base)

/-- A climb ends at a placed text. Its own text was placed or is in the chain. -/
theorem climb_ends (longer : Longer utf16 reps parents) (roots : RootsPlaced parents placed)
    (sizes : parents.length = reps.length) (places : placed.length = reps.length) {fuel : Nat}
    (here : Nat) (chain : List Nat) (inside : here < reps.length)
    (enough : (longerThan reps (sizeOf reps here)).length < fuel) :
    ∃ base final, climb parents placed fuel here chain = ok (base, final) ∧
      ((∃ base, placed[here]? = some (some base)) ∨ here ∈ final) ∧ ∀ link ∈ chain, link ∈ final := by
  induction fuel generalizing here chain with
  | zero => exact absurd enough (Nat.not_lt_zero _)
  | succ fuel ih =>
    obtain ⟨place, found⟩ : ∃ place, placed[here]? = some place :=
      ⟨_, List.getElem?_eq_getElem (by rw [places]; exact inside)⟩
    rw [climb, index_eq_ok.mpr found, ok_bind]
    cases place with
    | some base => exact ⟨base, chain, rfl, .inl ⟨base, found⟩, fun _ => id⟩
    | none =>
      obtain ⟨parent, recorded⟩ : ∃ parent, parents[here]? = some parent :=
        ⟨_, List.getElem?_eq_getElem (by rw [sizes]; exact inside)⟩
      cases parent with
      | none =>
        obtain ⟨base, other⟩ := roots here recorded
        rw [found] at other
        cases other
      | some parent =>
        obtain ⟨inner, outer, innerFound, outerFound, shorter, _⟩ :=
          longer here parent.1 parent.2 recorded
        have fewer := longerThan_lt (mem_of_getElem? outerFound) shorter
        rw [sizeOf_eq innerFound] at enough
        obtain ⟨base, final, ran, _, kept⟩ := ih parent.1
          (here :: chain) (List.getElem?_eq_some_iff.mp outerFound).1 (by
            rw [sizeOf_eq outerFound]
            omega)
        refine ⟨base, final, ?_, .inr (kept here mem_cons_self), fun link member =>
          kept link (mem_cons_of_mem _ member)⟩
        dsimp only
        rw [index_eq_ok.mpr recorded, ok_bind]
        exact ran

/-- Every placed text ends before the limit. -/
def EndsBefore (reps : List Bytes) (limit : Nat) (placed : List (Option Nat)) : Prop :=
  ∀ (r base : Nat) (text : Bytes), placed[r]? = some (some base) → reps[r]? = some text →
    base + text.length ≤ limit

/-- Texts that were placed stay placed. -/
def StaysPlaced (before after : List (Option Nat)) : Prop :=
  ∀ r : Nat, (∃ base, before[r]? = some (some base)) → ∃ base, after[r]? = some (some base)

theorem staysPlaced_set {r base : Nat} : StaysPlaced placed (placed.set r (some base)) := by
  rintro other ⟨base', found⟩
  by_cases same : r = other
  · subst same
    exact ⟨base, List.getElem?_set_self (List.getElem?_eq_some_iff.mp found).1⟩
  · exact ⟨base', (List.getElem?_set_ne same).trans found⟩

theorem EndsBefore.record {limit r base : Nat} (ends : EndsBefore reps limit placed)
    (found : reps[r]? = some text) (fits : base + text.length ≤ limit) :
    EndsBefore reps limit (placed.set r (some base)) := by
  intro other base' text' recorded found'
  by_cases same : r = other
  · subst same
    obtain ⟨inside, _⟩ := List.getElem?_eq_some_iff.mp recorded
    rw [length_set] at inside
    rw [List.getElem?_set_self inside] at recorded
    obtain rfl : base = base' := Option.some.inj (Option.some.inj recorded)
    obtain rfl : text = text' := Option.some.inj (found.symm.trans found')
    exact fits
  · exact ends other base' text' ((List.getElem?_set_ne same).symm.trans recorded) found'

/-- The texts of a chain are placed below a text that ends before the limit. -/
theorem descend_answers {limit : Nat} (longer : Longer utf16 reps parents) (small : limit < 2 ^ 32)
    {above base : Nat} {chain : List Nat} (places : placed.length = reps.length)
    (ends : EndsBefore reps limit placed) (found : reps[above]? = some text)
    (fits : base + text.length ≤ limit) (linked : Chain parents above chain) :
    ∃ final, descend parents chain base placed = ok final ∧ final.length = reps.length ∧
      EndsBefore reps limit final ∧ StaysPlaced placed final ∧
        ∀ link ∈ chain, ∃ base, final[link]? = some (some base) := by
  induction chain generalizing above base text placed with
  | nil => exact ⟨placed, rfl, places, ends, fun _ => id, by nofun⟩
  | cons link rest ih =>
    obtain ⟨⟨within, recorded⟩, linkedRest⟩ := linked
    obtain ⟨inner, outer, innerFound, outerFound, shorter, occurs⟩ := longer link above within recorded
    obtain rfl : text = outer := Option.some.inj (found.symm.trans outerFound)
    have held := (Bytes.slice_eq_some.mp occurs.2).1
    have narrow : within % 2 ^ 32 = within := Nat.mod_eq_of_lt (by omega)
    have inside : link < placed.length := by
      rw [places]
      exact (List.getElem?_eq_some_iff.mp innerFound).1
    have bound : base + within + inner.length ≤ limit := by omega
    obtain ⟨final, ran, length, within', stays, chained⟩ := ih
      ((length_set).trans places) (ends.record innerFound bound) innerFound bound linkedRest
    refine ⟨final, ?_, length, within', fun r found => stays r (staysPlaced_set r found), ?_⟩
    · have fitsWord : base + within < 2 ^ 32 := by omega
      rw [descend, index_eq_ok.mpr recorded, ok_bind]
      change (checked (base + within % 2 ^ 32 < 2 ^ 32) (base + within % 2 ^ 32) >>= fun base =>
        store placed link (some base) >>= fun placed => descend parents rest base placed) = _
      rw [narrow, checked_eq_ok.mpr ⟨fitsWord, rfl⟩, ok_bind, store, checked_eq_ok.mpr ⟨inside, rfl⟩,
        ok_bind]
      exact ran
    · intro other member
      rcases mem_cons.mp member with rfl | later
      · exact stays other ⟨_, List.getElem?_set_self inside⟩
      · exact chained other later

/-- What placing keeps: the sizes, the roots, and that texts end before the limit. -/
structure Placing (reps : List Bytes) (parents : List (Option (Nat × Nat))) (limit : Nat)
    (placed : List (Option Nat)) : Prop where
  places : placed.length = reps.length
  roots : RootsPlaced parents placed
  ends : EndsBefore reps limit placed

/-- Every text is placed in turn. -/
theorem resolve_answers {limit r : Nat} (longer : Longer utf16 reps parents)
    (sizes : parents.length = reps.length) (small : limit < 2 ^ 32)
    (placing : Placing reps parents limit placed) (inside : r < reps.length) :
    ∃ final, resolve parents placed r = ok final ∧ Placing reps parents limit final ∧
      StaysPlaced placed final ∧ ∃ base, final[r]? = some (some base) := by
  have enough : (longerThan reps (sizeOf reps r)).length < placed.length + 1 := by
    rw [placing.places]
    exact Nat.lt_succ_of_le (length_filter_le _ _)
  obtain ⟨base, chain, climbed, here, _⟩ :=
    climb_ends longer placing.roots sizes placing.places r [] inside enough
  obtain ⟨above, recorded, linked⟩ := @climb_spec _ _ _ _ _ [] _ trivial climbed
  obtain ⟨bound, _⟩ := List.getElem?_eq_some_iff.mp recorded
  rw [placing.places] at bound
  have found : reps[above]? = some reps[above] := List.getElem?_eq_getElem bound
  obtain ⟨final, ran, length, ends, stays, chained⟩ := descend_answers longer small placing.places
    placing.ends found (placing.ends above base _ recorded found) linked
  refine ⟨final, ?_, ⟨length, fun root isRoot => stays root (placing.roots root isRoot), ends⟩, stays,
    ?_⟩
  · rw [resolve, climbed, ok_bind]
    exact ran
  · rcases here with already | member
    · exact stays r already
    · exact chained r member

/-- All texts are placed. -/
theorem resolveAll_answers {limit count : Nat} (longer : Longer utf16 reps parents)
    (sizes : parents.length = reps.length) (small : limit < 2 ^ 32)
    (placing : Placing reps parents limit placed) (inside : count ≤ reps.length) :
    ∃ final, (List.range count).foldlM (resolve parents) placed = ok final ∧
      Placing reps parents limit final ∧ ∀ r < count, ∃ base, final[r]? = some (some base) := by
  induction count with
  | zero => exact ⟨placed, rfl, placing, by nofun⟩
  | succ count ih =>
    obtain ⟨middle, ran, here, each⟩ := ih (Nat.le_of_succ_le inside)
    obtain ⟨final, step, there, stays, last⟩ := resolve_answers longer sizes small here inside
    refine ⟨final, ?_, there, fun r before => ?_⟩
    · rw [range_succ, foldlM_append, ran, ok_bind, foldlM_cons, step, ok_bind]
      rfl
    · rcases Nat.lt_or_eq_of_le (Nat.le_of_lt_succ before) with earlier | rfl
      · exact stays r (each r earlier)
      · exact last

/-- The texts without a container, in order. -/
def rootsOf (entries : List (Bytes × Option (Nat × Nat))) : List Bytes :=
  (entries.filter fun entry => entry.2.isNone).map Prod.fst

/-- The packer appends the texts without a container. -/
theorem placeRoots_storage (entries : List (Bytes × Option (Nat × Nat))) (storage : Bytes) :
    (placeRoots entries storage).1 = storage ++ (rootsOf entries).flatten := by
  fun_induction placeRoots entries storage with
  | case1 storage => exact (append_nil storage).symm
  | case2 storage text rest final placed same ih =>
    rw [same] at ih
    rw [ih, append_assoc]
    rfl
  | case3 storage text parent rest final placed same ih =>
    rw [same] at ih
    exact ih

/-- The packer records a place for each of them. -/
theorem placeRoots_placing {storage : Bytes} (sizes : parents.length = reps.length)
    (small : (placeRoots (reps.zip parents) storage).1.length < 2 ^ 32) :
    Placing reps parents (placeRoots (reps.zip parents) storage).1.length
      (placeRoots (reps.zip parents) storage).2 := by
  have placement : Placement reps (placeRoots (reps.zip parents) storage).1 0 1
      (placeRoots (reps.zip parents) storage).2 :=
    placeRoots_spec sizes (fun _ _ => one_dvd _) (one_dvd _) (Nat.zero_le _) small
  refine ⟨placement.1, ?_, fun r base text recorded found =>
    (Bytes.slice_eq_some.mp (placement.2 r base text recorded found).2.2).1⟩
  clear small placement
  induction reps generalizing parents storage with
  | nil =>
    intro r isRoot
    rw [length_nil] at sizes
    rw [eq_nil_of_length_eq_zero sizes] at isRoot
    cases isRoot
  | cons text reps ih =>
    obtain ⟨parent, parents, rfl⟩ := exists_cons_of_length_eq_add_one sizes
    intro r isRoot
    rw [zip_cons_cons]
    cases parent with
    | some parent =>
      cases r with
      | zero => cases isRoot
      | succ r => exact ih (Nat.succ.inj sizes) r isRoot
    | none =>
      cases r with
      | zero => exact ⟨_, rfl⟩
      | succ r => exact ih (Nat.succ.inj sizes) r isRoot

/-- The roots stand among the texts in their order. -/
theorem rootsOf_sublist (sizes : parents.length = reps.length) :
    (rootsOf (reps.zip parents)).Sublist reps := by
  have all : (reps.zip parents).map Prod.fst = reps := map_fst_zip (le_of_eq sizes.symm)
  rw [rootsOf]
  conv_rhs => rw [← all]
  exact (filter_sublist).map Prod.fst

theorem mem_rootsOf :
    text ∈ rootsOf (reps.zip parents) ↔
      ∃ r : Nat, reps[r]? = some text ∧ parents[r]? = some none := by
  constructor
  · intro found
    obtain ⟨⟨_, parent⟩, member, rfl⟩ := mem_map.mp found
    obtain ⟨inside, isRoot⟩ := mem_filter.mp member
    obtain ⟨r, bound, here⟩ := getElem_of_mem inside
    obtain ⟨first, second⟩ := List.getElem?_zip_eq_some.mp (here ▸ List.getElem?_eq_getElem bound)
    obtain rfl : parent = none := Option.isNone_iff_eq_none.mp isRoot
    exact ⟨r, first, second⟩
  · rintro ⟨r, first, second⟩
    have member : (text, none) ∈ reps.zip parents :=
      mem_of_getElem? (List.getElem?_zip_eq_some.mpr ⟨first, second⟩)
    exact mem_map.mpr ⟨_, mem_filter.mpr ⟨member, rfl⟩, rfl⟩

/-- Among different texts, another index is another text. -/
theorem containedElsewhere_iff (nodup : reps.Nodup) {r : Nat} (found : reps[r]? = some text) :
    ContainedElsewhere utf16 reps r ↔
      ∃ other ∈ reps, other ≠ text ∧ ∃ offset, OccursAt utf16 text other offset := by
  obtain ⟨inside, here⟩ := List.getElem?_eq_some_iff.mp found
  constructor
  · rintro ⟨c, inner, outer, offset, other, innerFound, outerFound, occurs⟩
    obtain rfl : text = inner := Option.some.inj (found.symm.trans innerFound)
    refine ⟨outer, mem_of_getElem? outerFound, ?_, offset, occurs⟩
    rintro rfl
    obtain ⟨bound, there⟩ := List.getElem?_eq_some_iff.mp outerFound
    exact other (nodup.getElem_inj_iff.mp (there.trans here.symm))
  · rintro ⟨outer, member, other, offset, occurs⟩
    obtain ⟨c, bound, there⟩ := getElem_of_mem member
    refine ⟨c, text, outer, offset, ?_, found, there ▸ List.getElem?_eq_getElem bound, occurs⟩
    rintro rfl
    exact other (there.symm.trans here)

variable {of : List (Nat × Option Nat)}

/-- Recording the offsets of texts that were placed answers. -/
theorem recordAll_answers (finish : Nat) (offsets : List Nat)
    (inside : ∀ entry ∈ of, entry.1 < offsets.length)
    (each : ∀ entry ∈ of, ∀ r, entry.2 = some r → ∃ base, placed[r]? = some (some base)) :
    ∃ final, of.foldlM (record placed finish) offsets = ok final := by
  induction of generalizing offsets with
  | nil => exact ⟨offsets, rfl⟩
  | cons entry of ih =>
    obtain ⟨offset, chosen⟩ : ∃ offset, offsetOf placed finish entry.2 = ok offset := by
      cases place : entry.2 with
      | none => exact ⟨_, rfl⟩
      | some r =>
        obtain ⟨base, found⟩ := each entry mem_cons_self r place
        refine ⟨base, ?_⟩
        rw [offsetOf, index_eq_ok.mpr found, ok_bind]
        rfl
    have here := inside entry mem_cons_self
    obtain ⟨final, ran⟩ := ih (offsets.set entry.1 offset)
      (fun other later => by
        rw [length_set]
        exact inside other (mem_cons_of_mem _ later))
      fun other later => each other (mem_cons_of_mem _ later)
    refine ⟨final, ?_⟩
    rw [foldlM_cons, record, chosen, ok_bind, store, checked_eq_ok.mpr ⟨here, rfl⟩, ok_bind]
    exact ran

section

variable {strings : List StoredString} {ids : List Nat}
  (collected : distinct strings ids [] = ok (reps, of))
  (encoding : encodingOf strings ids = ok utf16) (found : containers reps utf16 = ok parents)

include collected encoding found

/-- The packer ends, unless its storage grows beyond 32 bits. -/
theorem packContained_answers {draft : Draft} (longer : Longer utf16 reps parents)
    (sizes : parents.length = reps.length) (inside : ∀ id ∈ ids, id < draft.offsets.length)
    (small : draft.storage.length + (rootsOf (reps.zip parents)).flatten.length < 2 ^ 32) :
    ∃ after, packContained strings ids draft = ok after := by
  have narrow : (placeRoots (reps.zip parents) draft.storage).1.length < 2 ^ 32 := by
    rw [placeRoots_storage, length_append]
    exact small
  obtain ⟨placed, resolved, placing, each⟩ := resolveAll_answers longer sizes narrow
    (placeRoots_placing sizes narrow) (le_refl reps.length)
  obtain ⟨_, idsEq, _, refers⟩ := distinct_spec collected
  obtain ⟨offsets, recorded⟩ := recordAll_answers
    (placeRoots (reps.zip parents) draft.storage).1.length draft.offsets
    (fun entry member => inside entry.1 (idsEq ▸ mem_map_of_mem member)) fun entry member r place => by
      obtain ⟨string, _, _, isText⟩ := refers entry member
      exact each r (List.getElem?_eq_some_iff.mp (isText r place)).1
  refine ⟨{ storage := (placeRoots (reps.zip parents) draft.storage).1, offsets }, ?_⟩
  rw [packContained, collected, ok_bind]
  dsimp only
  rw [encoding, ok_bind, found, ok_bind, resolved, ok_bind, recorded, ok_bind]
  rfl

/-- The packer writes the texts without a container. -/
theorem packContained_storage {draft after : Draft}
    (ran : packContained strings ids draft = ok after) :
    after.storage = draft.storage ++ (rootsOf (reps.zip parents)).flatten := by
  simp only [packContained, bind_eq_ok, pure_eq, ok.injEq] at ran
  obtain ⟨⟨reps', of'⟩, collected', utf16', encoding', parents', found', placed, _, offsets, _, rfl⟩ :=
    ran
  obtain ⟨rfl, rfl⟩ := Prod.mk.inj (ok.inj (collected.symm.trans collected'))
  obtain rfl := ok.inj (encoding.symm.trans encoding')
  obtain rfl := ok.inj (found.symm.trans found')
  exact placeRoots_storage _ _

end

/-- The search for containers is exact, and the packer writes the texts that no other text
contains, each of them once. -/
theorem containers_exact (texts : WholeTexts utf16 reps) (nodup : reps.Nodup) :
    ∃ parents, containers reps utf16 = ok parents ∧ parents.length = reps.length ∧
      (∀ r < reps.length,
        (∃ parent, parents[r]? = some (some parent)) ↔ ContainedElsewhere utf16 reps r) ∧
      (∀ r c offset : Nat, parents[r]? = some (some (c, offset)) → ∃ inner outer : Bytes,
        reps[r]? = some inner ∧ reps[c]? = some outer ∧ inner.length < outer.length ∧
          OccursAt utf16 inner outer offset) ∧
      (WellFounded fun c r : Nat => ∃ offset : Nat, parents[r]? = some (some (c, offset))) ∧
      ∃ roots : List Bytes, roots.Nodup ∧
        (∀ text, text ∈ roots ↔ text ∈ reps ∧
          ¬ ∃ other ∈ reps, other ≠ text ∧ ∃ offset, OccursAt utf16 text other offset) ∧
        ∀ strings ids of draft, distinct strings ids [] = ok (reps, of) →
          encodingOf strings ids = ok utf16 →
            (∀ after, packContained strings ids draft = ok after →
              after.storage = draft.storage ++ roots.flatten) ∧
            ((∀ id ∈ ids, id < draft.offsets.length) →
              draft.storage.length + roots.flatten.length < 2 ^ 32 →
                ∃ after, packContained strings ids draft = ok after) := by
  obtain ⟨parents, found, sizes, whether, longer⟩ := containers_spec texts nodup
  refine ⟨parents, found, sizes, whether, longer, Longer.wellFounded longer,
    rootsOf (reps.zip parents), (nodup.sublist (rootsOf_sublist sizes)), fun text => ?_, ?_⟩
  · rw [mem_rootsOf]
    constructor
    · rintro ⟨r, here, isRoot⟩
      refine ⟨mem_of_getElem? here, ?_⟩
      rw [← containedElsewhere_iff nodup here, ← whether r (List.getElem?_eq_some_iff.mp here).1]
      rintro ⟨parent, recorded⟩
      rw [isRoot] at recorded
      cases recorded
    · rintro ⟨member, alone⟩
      obtain ⟨r, inside, rfl⟩ := getElem_of_mem member
      have here : reps[r]? = some reps[r] := List.getElem?_eq_getElem inside
      rw [← containedElsewhere_iff nodup here, ← whether r inside] at alone
      obtain ⟨parent, recorded⟩ : ∃ parent, parents[r]? = some parent :=
        ⟨_, List.getElem?_eq_getElem (by rw [sizes]; exact inside)⟩
      cases parent with
      | none => exact ⟨r, here, recorded⟩
      | some parent => exact absurd ⟨parent, recorded⟩ alone
  · intro strings ids of draft collected encoding
    exact ⟨fun after ran => packContained_storage collected encoding found ran,
      packContained_answers collected encoding found longer sizes⟩

/-- In `ab` and `b` the second text stands in the first one, which alone is written. -/
theorem containers_exact_suffix :
    ∃ parents, containers [[97, 98], [98]] false = ok parents ∧ parents.length = 2 ∧
      (∀ r < 2, (∃ parent, parents[r]? = some (some parent)) ↔
        ContainedElsewhere false [[97, 98], [98]] r) ∧
      (∀ r c offset : Nat, parents[r]? = some (some (c, offset)) → ∃ inner outer : Bytes,
        [[97, 98], [98]][r]? = some inner ∧ [[97, 98], [98]][c]? = some outer ∧
          inner.length < outer.length ∧ OccursAt false inner outer offset) ∧
      (WellFounded fun c r : Nat => ∃ offset : Nat, parents[r]? = some (some (c, offset))) ∧
      ∃ roots : List Bytes, roots.Nodup ∧
        (∀ text, text ∈ roots ↔ text ∈ [[97, 98], [98]] ∧
          ¬ ∃ other ∈ [[97, 98], [98]], other ≠ text ∧ ∃ offset, OccursAt false text other offset) ∧
        ∀ strings ids of draft, distinct strings ids [] = ok ([[97, 98], [98]], of) →
          encodingOf strings ids = ok false →
            (∀ after, packContained strings ids draft = ok after →
              after.storage = draft.storage ++ roots.flatten) ∧
            ((∀ id ∈ ids, id < draft.offsets.length) →
              draft.storage.length + roots.flatten.length < 2 ^ 32 →
                ∃ after, packContained strings ids draft = ok after) :=
  containers_exact (by unfold WholeTexts; decide) (by decide)

end Roots

end HermesDecomp.StringStorage
