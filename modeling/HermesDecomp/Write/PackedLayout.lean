import HermesDecomp.Write.Containment

/-!
# Packed layout

Texts that occur inside others are placed through chains of containers. Every placement recorded
on the way is right: roots where they were written, and each text of a chain at its container's
placement plus the offset of its occurrence.
-/

namespace HermesDecomp.StringStorage

open Outcome List

variable {strings : List StoredString} {pinned : Finset Nat}

/-- What a list has at a position, a longer one has too. -/
theorem getElem?_of_prefix {α : Type} {short long : List α} {position : Nat} {value : α}
    (grown : short <+: long) (found : short[position]? = some value) :
    long[position]? = some value := by
  obtain ⟨more, rfl⟩ := grown
  obtain ⟨inside, -⟩ := List.getElem?_eq_some_iff.mp found
  rw [List.getElem?_append_left inside]
  exact found

/-- An interned text is found at its index, and no other text is new. -/
theorem intern_spec (reps : List Bytes) (bytes : Bytes) :
    reps <+: (intern reps bytes).1 ∧ (intern reps bytes).1[(intern reps bytes).2]? = some bytes ∧
      ∀ text ∈ (intern reps bytes).1, text ∈ reps ∨ text = bytes := by
  unfold intern
  split
  next r seen =>
    obtain ⟨inside, same, -⟩ := List.findIdx?_eq_some_iff_getElem.mp seen
    refine ⟨prefix_refl _, ?_, fun text found => .inl found⟩
    rw [List.getElem?_eq_getElem inside, eq_of_beq same]
  next absent =>
    refine ⟨prefix_append _ _, by simp, ?_⟩
    intro text found
    rcases mem_append.mp found with old | new
    · exact .inl old
    · exact .inr (mem_singleton.mp new)

/-- An id's entry refers to the id's own text, or to none when it is empty. -/
def Refers (strings : List StoredString) (reps : List Bytes) (entry : Nat × Option Nat) : Prop :=
  ∃ string, strings[entry.1]? = some string ∧ (entry.2 = none → string.bytes = []) ∧
    ∀ r, entry.2 = some r → reps[r]? = some string.bytes

variable {ids : List Nat} {of : List (Nat × Option Nat)}

/-- The distinct texts of some ids are texts of those ids and not empty, and each
id refers to its own. -/
theorem distinct_spec {reps finalReps : List Bytes}
    (ran : distinct strings ids reps = ok (finalReps, of)) :
    reps <+: finalReps ∧ of.map Prod.fst = ids ∧
      (∀ text ∈ finalReps, text ∈ reps ∨
        ∃ id ∈ ids, ∃ string, strings[id]? = some string ∧ text = string.bytes ∧ text ≠ []) ∧
      ∀ entry ∈ of, Refers strings finalReps entry := by
  induction ids generalizing reps of with
  | nil =>
    simp only [distinct, pure_eq, ok.injEq, Prod.mk.injEq] at ran
    obtain ⟨rfl, rfl⟩ := ran
    exact ⟨prefix_refl _, rfl, fun text found => .inl found, by simp⟩
  | cons id ids ih =>
    simp only [distinct, bind_eq_ok, index_eq_ok] at ran
    obtain ⟨string, found, ran⟩ := ran
    split at ran
    next empty =>
      obtain ⟨⟨reps', rest⟩, tail, same⟩ := bind_eq_ok.mp ran
      simp only [pure_eq, ok.injEq, Prod.mk.injEq] at same
      obtain ⟨rfl, rfl⟩ := same
      obtain ⟨grows, idsEq, texts, each⟩ := ih tail
      refine ⟨grows, by simp [idsEq], ?_, ?_⟩
      · intro text inside
        rcases texts text inside with old | ⟨other, here, rest⟩
        · exact .inl old
        · exact .inr ⟨other, mem_cons_of_mem _ here, rest⟩
      · intro entry inside
        rcases mem_cons.mp inside with rfl | later
        · exact ⟨string, found, fun _ => empty, by simp⟩
        · exact each entry later
    next nonempty =>
      obtain ⟨⟨reps', rest⟩, tail, same⟩ := bind_eq_ok.mp ran
      simp only [pure_eq, ok.injEq, Prod.mk.injEq] at same
      obtain ⟨rfl, rfl⟩ := same
      obtain ⟨joins, here, known⟩ := intern_spec reps string.bytes
      obtain ⟨grows, idsEq, texts, each⟩ := ih tail
      refine ⟨joins.trans grows, by simp [idsEq], ?_, ?_⟩
      · intro text inside
        rcases texts text inside with old | ⟨other, member, rest⟩
        · rcases known text old with older | rfl
          · exact .inl older
          · exact .inr ⟨id, mem_cons_self, string, found, rfl, nonempty⟩
        · exact .inr ⟨other, mem_cons_of_mem _ member, rest⟩
      · intro entry inside
        rcases mem_cons.mp inside with rfl | later
        · refine ⟨string, found, by simp, ?_⟩
          intro r same
          cases same
          exact getElem?_of_prefix grows here
        · exact each entry later

/-- A text is in storage where its placement says, at a whole unit past `low`. -/
def PlacedText (storage : Bytes) (low unit : Nat) (text : Bytes) (base : Nat) : Prop :=
  low ≤ base ∧ unit ∣ base ∧ Bytes.slice storage base text.length = some text

/-- Every recorded placement is right. -/
def Placement (reps : List Bytes) (storage : Bytes) (low unit : Nat) (placed : List (Option Nat)) :
    Prop :=
  placed.length = reps.length ∧ ∀ (r base : Nat) (text : Bytes), placed[r]? = some (some base) →
    reps[r]? = some text → PlacedText storage low unit text base

/-- Storage only grows while the roots are written. -/
theorem placeRoots_grows (entries : List (Bytes × Option (Nat × Nat))) (storage : Bytes) :
    storage <+: (placeRoots entries storage).1 := by
  fun_induction placeRoots entries storage with
  | case1 => exact prefix_refl _
  | case2 storage text rest final placed same ih =>
    rw [same] at ih
    exact (prefix_append _ _).trans ih
  | case3 storage text parent rest final placed same ih =>
    rw [same] at ih
    exact ih

variable {reps : List Bytes} {parents : List (Option (Nat × Nat))} {storage : Bytes}

/-- The roots are written where they are recorded. -/
theorem placeRoots_spec {low unit : Nat} (sizes : parents.length = reps.length)
    (texts : ∀ text ∈ reps, unit ∣ text.length) (aligned : unit ∣ storage.length)
    (start : low ≤ storage.length)
    (fits : (placeRoots (reps.zip parents) storage).1.length < 2 ^ 32) :
    Placement reps (placeRoots (reps.zip parents) storage).1 low unit
      (placeRoots (reps.zip parents) storage).2 := by
  induction reps generalizing parents storage with
  | nil => exact ⟨rfl, by simp⟩
  | cons text reps ih =>
    obtain ⟨parent, parents, rfl⟩ := exists_cons_of_length_eq_add_one sizes
    have restSizes : parents.length = reps.length := Nat.succ.inj sizes
    have restTexts : ∀ text ∈ reps, unit ∣ text.length := fun other inside =>
      texts other (mem_cons_of_mem _ inside)
    rw [zip_cons_cons] at fits ⊢
    cases parent with
    | some parent =>
      obtain ⟨length, each⟩ := ih restSizes restTexts aligned start fits
      refine ⟨congrArg Nat.succ length, ?_⟩
      intro r base text' recorded found
      cases r with
      | zero => simp [placeRoots] at recorded
      | succ r => exact each r base text' recorded found
    | none =>
      have grown : unit ∣ (storage ++ text).length := by
        rw [length_append]
        exact Nat.dvd_add aligned (texts text mem_cons_self)
      have later : low ≤ (storage ++ text).length := by
        rw [length_append]
        omega
      obtain ⟨length, each⟩ := ih restSizes restTexts grown later fits
      have grows := placeRoots_grows (reps.zip parents) (storage ++ text)
      have storageFits : storage.length < 2 ^ 32 :=
        lt_of_le_of_lt ((prefix_append _ _).trans grows).length_le fits
      refine ⟨congrArg Nat.succ length, ?_⟩
      intro r base text' recorded found
      cases r with
      | zero =>
        simp only [placeRoots, List.getElem?_cons_zero, Option.some.injEq] at recorded found
        rw [Nat.mod_eq_of_lt storageFits] at recorded
        subst recorded found
        exact ⟨start, aligned, Bytes.slice_of_prefix grows (Bytes.slice_appended _ _)⟩
      | succ r => exact each r base text' recorded found

/-- A chain of texts, each one inside the one before it and the first one inside `above`. -/
def Chain (parents : List (Option (Nat × Nat))) : Nat → List Nat → Prop
  | _, [] => True
  | above, link :: rest =>
      (∃ within, parents[link]? = some (some (above, within))) ∧ Chain parents link rest

/-- A climb ends at a placed text with a chain of containers below it. -/
theorem climb_spec {parents : List (Option (Nat × Nat))} {placed : List (Option Nat)}
    {fuel here base : Nat} {chain final : List Nat} (linked : Chain parents here chain)
    (ran : climb parents placed fuel here chain = ok (base, final)) :
    ∃ above, placed[above]? = some (some base) ∧ Chain parents above final := by
  induction fuel generalizing here chain with
  | zero => simp [climb] at ran
  | succ fuel ih =>
    simp only [climb, bind_eq_ok, index_eq_ok] at ran
    obtain ⟨place, found, ran⟩ := ran
    cases place with
    | some place =>
      simp only [pure_eq, ok.injEq, Prod.mk.injEq] at ran
      obtain ⟨rfl, rfl⟩ := ran
      exact ⟨here, found, linked⟩
    | none =>
      simp only [bind_eq_ok, index_eq_ok, unwrap_eq_ok] at ran
      obtain ⟨parent, parentFound, ⟨up, within⟩, rfl, ran⟩ := ran
      have longer : Chain parents up (here :: chain) := ⟨⟨within, parentFound⟩, linked⟩
      exact ih longer ran

/-- An occurrence in a placed text is placed at the sum of the offsets. -/
theorem PlacedText.inside {storage outer inner : Bytes} {low unit base within : Nat}
    (placed : PlacedText storage low unit outer base) (aligned : unit ∣ within)
    (held : Bytes.slice outer within inner.length = some inner) :
    PlacedText storage low unit inner (base + within) := by
  obtain ⟨bound, whole, read⟩ := placed
  exact ⟨by omega, Nat.dvd_add whole aligned, Bytes.slice_slice read held⟩

/-- Recording one more right placement keeps them all right. -/
theorem Placement.record {storage text : Bytes} {low unit r base : Nat} {placed : List (Option Nat)}
    (placement : Placement reps storage low unit placed) (found : reps[r]? = some text)
    (right : PlacedText storage low unit text base) :
    Placement reps storage low unit (placed.set r (some base)) := by
  refine ⟨(length_set ..).trans placement.1, ?_⟩
  intro r' base' text' recorded found'
  by_cases same : r = r'
  · subst same
    rw [List.getElem?_set] at recorded
    simp only [if_true] at recorded
    split at recorded
    · obtain rfl : base = base' := Option.some.inj (Option.some.inj recorded)
      obtain rfl : text = text' := by rw [found, Option.some.injEq] at found'; exact found'
      exact right
    · simp at recorded
  · rw [List.getElem?_set_ne same] at recorded
    exact placement.2 r' base' text' recorded found'

variable {utf16 : Bool}

/-- Placing the texts of a chain below a placed text keeps all placements right. -/
theorem descend_spec {storage text : Bytes} {low above base : Nat} {chain : List Nat}
    {placed final : List (Option Nat)}
    (contained : ∀ r parent, parents[r]? = some (some parent) → Contains reps utf16 r parent)
    (fits : storage.length < 2 ^ 32)
    (placement : Placement reps storage low (unitSize utf16) placed)
    (found : reps[above]? = some text) (start : PlacedText storage low (unitSize utf16) text base)
    (linked : Chain parents above chain) (ran : descend parents chain base placed = ok final) :
    Placement reps storage low (unitSize utf16) final := by
  induction chain generalizing above text base placed with
  | nil =>
    simp only [descend, pure_eq, ok.injEq] at ran
    exact ran ▸ placement
  | cons link rest ih =>
    obtain ⟨⟨within, parentFound⟩, linkedRest⟩ := linked
    simp only [descend, bind_eq_ok, index_eq_ok, unwrap_eq_ok, checked_eq_ok, store] at ran
    obtain ⟨_, found', ⟨up, within'⟩, rfl, base', ⟨-, rfl⟩, placed', ⟨-, rfl⟩, ran⟩ := ran
    obtain ⟨rfl, rfl⟩ : above = up ∧ within = within' := by
      rw [parentFound, Option.some.injEq, Option.some.injEq, Prod.mk.injEq] at found'
      exact found'
    obtain ⟨inner, outer, innerFound, outerFound, held, aligned⟩ := contained _ _ parentFound
    obtain rfl : outer = text := by rw [found, Option.some.injEq] at outerFound; exact outerFound.symm
    have small : within < 2 ^ 32 := by
      have textInside := (Bytes.slice_eq_some.mp start.2.2).1
      have heldInside := (Bytes.slice_eq_some.mp held).1
      simp only at heldInside
      omega
    rw [Nat.mod_eq_of_lt small] at ran
    have here := start.inside aligned held
    exact ih (placement.record innerFound here) innerFound here linkedRest ran

/-- Resolving one text keeps all placements right. -/
theorem resolve_spec {low r : Nat} {placed final : List (Option Nat)}
    (contained : ∀ r parent, parents[r]? = some (some parent) → Contains reps utf16 r parent)
    (fits : storage.length < 2 ^ 32)
    (placement : Placement reps storage low (unitSize utf16) placed)
    (ran : resolve parents placed r = ok final) :
    Placement reps storage low (unitSize utf16) final := by
  simp only [resolve, bind_eq_ok] at ran
  obtain ⟨⟨base, chain⟩, climbed, ran⟩ := ran
  obtain ⟨above, recorded, linked⟩ := @climb_spec _ _ _ _ _ [] _ trivial climbed
  obtain ⟨inside, -⟩ := List.getElem?_eq_some_iff.mp recorded
  have within : above < reps.length := placement.1 ▸ inside
  have found : reps[above]? = some reps[above] := List.getElem?_eq_getElem within
  exact descend_spec contained fits placement found
    (placement.2 above base _ recorded found) linked ran

/-- Recording offsets writes those of the entries, each one its own, and no other. -/
theorem recordAll_spec {placed : List (Option Nat)} {finish : Nat} {offsets final : List Nat}
    (nodup : (of.map Prod.fst).Nodup) (ran : of.foldlM (record placed finish) offsets = ok final) :
    (∀ id, id ∉ of.map Prod.fst → final[id]? = offsets[id]?) ∧
      ∀ entry ∈ of, ∃ offset, final[entry.1]? = some offset ∧
        (entry.2 = none → offset = finish % 2 ^ 32) ∧
        ∀ r, entry.2 = some r → placed[r]? = some (some offset) := by
  induction of generalizing offsets with
  | nil =>
    obtain rfl := foldlM_nil_eq_ok.mp ran
    exact ⟨fun id _ => rfl, by simp⟩
  | cons entry of ih =>
    obtain ⟨middle, first, rest⟩ := foldlM_cons_eq_ok.mp ran
    obtain ⟨new, nodupRest⟩ := nodup_cons.mp nodup
    obtain ⟨kept, each⟩ := ih nodupRest rest
    simp only [record, store, bind_eq_ok, checked_eq_ok] at first
    obtain ⟨offset, chosen, inside, rfl⟩ := first
    have here : final[entry.1]? = some offset := by
      rw [kept entry.1 new, List.getElem?_set_self inside]
    constructor
    · intro id outside
      rw [map_cons, mem_cons, not_or] at outside
      rw [kept id outside.2, List.getElem?_set_ne (Ne.symm outside.1)]
    · intro other member
      rcases mem_cons.mp member with rfl | later
      · refine ⟨offset, here, ?_, ?_⟩
        · intro none
          rw [none, offsetOf] at chosen
          exact (ok.inj chosen).symm
        · intro r some
          simp only [some, offsetOf, bind_eq_ok, index_eq_ok, unwrap_eq_ok] at chosen
          obtain ⟨place, found, rfl⟩ := chosen
          exact found
      · exact each other later

/-- Texts of whole units keep storage at a whole unit. -/
theorem placeRoots_aligned {unit : Nat} {entries : List (Bytes × Option (Nat × Nat))}
    (texts : ∀ entry ∈ entries, unit ∣ entry.1.length) (aligned : unit ∣ storage.length)
    : unit ∣ (placeRoots entries storage).1.length:= by
  fun_induction placeRoots entries storage with
  | case1 => exact aligned
  | case2 storage text rest final placed same ih =>
    rw [same] at ih
    apply ih fun entry inside => texts entry (mem_cons_of_mem _ inside)
    rw [length_append]
    exact Nat.dvd_add aligned (texts _ mem_cons_self)
  | case3 storage text parent rest final placed same ih =>
    rw [same] at ih
    exact ih (fun entry inside => texts entry (mem_cons_of_mem _ inside)) aligned

/-- The distinct texts of ids of one encoding are of its whole units. -/
theorem distinct_whole (encoding : OfEncoding strings utf16 ids)
    (ran : distinct strings ids [] = ok (reps, of)) : WholeTexts utf16 reps:= by
  obtain ⟨-, -, texts, -⟩ := distinct_spec ran
  intro text inside
  rcases texts text inside with none | ⟨id, member, string, found, rfl, nonempty⟩
  · cases none
  · obtain ⟨string', found', rfl⟩ := encoding id member
    obtain rfl : string = string' := Option.some.inj (found.symm.trans found')
    exact ⟨nonempty, string.whole⟩

/-- The encoding the packer reads off the first id is the one of all ids. -/
theorem encodingOf_spec {utf16 utf16' : Bool} {size : Nat} (encoding : OfEncoding strings utf16 ids)
    (aligned : unitSize utf16 ∣ size) (ran : encodingOf strings ids = ok utf16') :
    OfEncoding strings utf16' ids ∧ unitSize utf16' ∣ size := by
  cases ids with
  | nil =>
    obtain rfl : false = utf16' := ok.inj ran
    exact ⟨by simp [OfEncoding], one_dvd _⟩
  | cons id ids =>
    obtain ⟨string, found, same⟩ := bind_eq_ok.mp ran
    obtain ⟨string', found', rfl⟩ := encoding id mem_cons_self
    obtain rfl : string = string' := Option.some.inj ((index_eq_ok.mp found).symm.trans found')
    cases same
    exact ⟨encoding, aligned⟩

/-- Packing ids of one encoding ends at a whole unit of it. -/
theorem packContained_aligned {draft after : Draft}
    (ran : packContained strings ids draft = ok after) (encoding : OfEncoding strings utf16 ids)
    (aligned : unitSize utf16 ∣ draft.storage.length) : unitSize utf16 ∣ after.storage.length:= by
  simp only [packContained, bind_eq_ok, pure_eq, ok.injEq] at ran
  obtain ⟨⟨reps, of⟩, collected, _, -, parents, -, _, -, _, -, rfl⟩ := ran
  have texts := distinct_whole encoding collected
  refine placeRoots_aligned ?_ aligned
  intro entry inside
  exact Nat.dvd_of_mod_eq_zero (texts _ (of_mem_zip inside).1).2

/-- Packing ids of one encoding lays all of them out. -/
theorem packContained_laid {draft after : Draft} (ran : packContained strings ids draft = ok after)
    (nodup : ids.Nodup) (encoding : OfEncoding strings utf16 ids) (shared : ∀ id ∈ ids, id ∉ pinned)
    (fits : after.storage.length < 2 ^ 32) (aligned : unitSize utf16 ∣ draft.storage.length) :
    Laid strings pinned ids draft after := by
  simp only [packContained, bind_eq_ok, pure_eq, ok.injEq] at ran
  obtain ⟨⟨reps, of⟩, collected, utf16', first, parents, found, placed, resolved, offsets, recorded,
    rfl⟩ := ran
  obtain ⟨encoding', aligned'⟩ := encodingOf_spec encoding aligned first
  have texts := distinct_whole encoding' collected
  obtain ⟨-, idsEq, -, refers⟩ := distinct_spec collected
  obtain ⟨sizes, contained⟩ := containers_sound texts found
  have roots := placeRoots_spec sizes
    (fun text inside => Nat.dvd_of_mod_eq_zero (texts text inside).2) aligned' (le_refl _) fits
  have placement := foldlM_preserves
    (Placement reps (placeRoots (reps.zip parents) draft.storage).1 draft.storage.length
      (unitSize utf16'))
    (fun _ _ _ _ sound step => resolve_spec contained fits sound step) roots resolved
  obtain ⟨kept, each⟩ := recordAll_spec (idsEq ▸ nodup) recorded
  have grows := placeRoots_grows (reps.zip parents) draft.storage
  refine ⟨grows, idsEq ▸ kept, ?_, fun id inside isPinned => absurd isPinned (shared id inside)⟩
  intro id inside string here
  obtain ⟨entry, member, rfl⟩ := mem_map.mp (idsEq.symm ▸ inside)
  obtain ⟨offset, recordedHere, whenEmpty, whenPlaced⟩ := each entry member
  obtain ⟨string', here', isEmpty, isText⟩ := refers entry member
  obtain rfl : string = string' := Option.some.inj (here.symm.trans here')
  obtain ⟨string', here', same⟩ := encoding' entry.1 inside
  obtain rfl : string = string' := Option.some.inj (here.symm.trans here')
  cases place : entry.2 with
  | none =>
    have isNil := isEmpty place
    have whole : ∀ entry ∈ reps.zip parents, unitSize utf16' ∣ entry.1.length := fun entry inside =>
      Nat.dvd_of_mod_eq_zero (texts _ (of_mem_zip inside).1).2
    have finish := whenEmpty place
    rw [Nat.mod_eq_of_lt fits] at finish
    refine ⟨offset, recordedHere, finish ▸ grows.length_le, ?_, ?_⟩
    · rw [finish, same]
      exact placeRoots_aligned whole aligned'
    · rw [finish, isNil]
      exact Bytes.slice_zero (le_refl _)
  | some r =>
    obtain ⟨low, whole, read⟩ := placement.2 r offset string.bytes (whenPlaced r place) (isText r place)
    exact ⟨offset, recordedHere, low, same ▸ whole, read⟩

end HermesDecomp.StringStorage
