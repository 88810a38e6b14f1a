import HermesDecomp.Write.LayoutReadBack

/-!
# What is laid out behind an empty string

An empty string has a place and no bytes. Its offset lies before the end of storage exactly when
some byte is laid out behind it: within its encoding the pinned strings come last, unpacked
strings keep the order of their ids, and packed ones put every empty string at the end.
-/

namespace HermesDecomp.StringStorage

open Outcome List

/-- The string of an id is not empty. -/
def HasBytes (strings : List StoredString) (id : Nat) : Prop :=
  ∃ string, strings[id]? = some string ∧ string.bytes ≠ []

/-- A pass extends storage exactly when it lays out bytes, and the offset of an empty
string is before the end exactly when bytes come behind it. -/
structure Ordered (strings : List StoredString) (ids : List Nat) (behind : Nat → Nat → Prop)
    (before after : Draft) : Prop where
  extends_iff : before.storage.length < after.storage.length ↔ ∃ id ∈ ids, HasBytes strings id
  followed : ∀ id ∈ ids, ¬ HasBytes strings id → ∀ offset, after.offsets[id]? = some offset →
    offset ≤ after.storage.length ∧
      (offset < after.storage.length ↔ ∃ other ∈ ids, behind id other ∧ HasBytes strings other)

variable {strings : List StoredString} {pinned : Finset Nat}

/-- A pass over no ids. -/
theorem ordered_nil (behind : Nat → Nat → Prop) {before after : Draft}
    (same : after.storage.length = before.storage.length) : Ordered strings [] behind before after :=
  ⟨by simp [same], fun id inside => absurd inside not_mem_nil⟩

/-- The second of two passes comes behind the first. -/
theorem Ordered.trans {first second : List Nat} {behind later whole : Nat → Nat → Prop}
    {start middle finish : Draft} (left : Ordered strings first behind start middle)
    (right : Ordered strings second later middle finish)
    (grown : start.storage.length ≤ middle.storage.length)
    (grows : middle.storage.length ≤ finish.storage.length)
    (kept : ∀ id ∈ first, finish.offsets[id]? = middle.offsets[id]?)
    (early : ∀ id ∈ first, (∀ other ∈ first, whole id other ↔ behind id other) ∧
      ∀ other ∈ second, whole id other)
    (late : ∀ id ∈ second, (∀ other ∈ second, whole id other ↔ later id other) ∧
      ∀ other ∈ first, ¬ whole id other) :
    Ordered strings (first ++ second) whole start finish := by
  constructor
  · have grew : start.storage.length < finish.storage.length ↔
        start.storage.length < middle.storage.length ∨
          middle.storage.length < finish.storage.length := by omega
    rw [grew, left.extends_iff, right.extends_iff]
    simp [or_and_right, exists_or]
  · intro id inside empty offset recorded
    rcases mem_append.mp inside with inFirst | inSecond
    · rw [kept id inFirst] at recorded
      obtain ⟨within, follows⟩ := left.followed id inFirst empty offset recorded
      refine ⟨within.trans grows, ?_⟩
      have reaches : offset < finish.storage.length ↔ offset < middle.storage.length ∨
          middle.storage.length < finish.storage.length := by omega
      rw [reaches, follows, right.extends_iff]
      constructor
      · rintro (⟨other, member, follows, bytes⟩ | ⟨other, member, bytes⟩)
        · exact ⟨other, mem_append_left _ member,
            ((early id inFirst).1 other member).mpr follows, bytes⟩
        · exact ⟨other, mem_append_right _ member, (early id inFirst).2 other member, bytes⟩
      · rintro ⟨other, member, follows, bytes⟩
        rcases mem_append.mp member with here | there
        · exact .inl ⟨other, here, ((early id inFirst).1 other here).mp follows, bytes⟩
        · exact .inr ⟨other, there, bytes⟩
    · obtain ⟨within, follows⟩ := right.followed id inSecond empty offset recorded
      refine ⟨within, follows.trans ?_⟩
      constructor
      · rintro ⟨other, member, follows, bytes⟩
        exact ⟨other, mem_append_right _ member,
          ((late id inSecond).1 other member).mpr follows, bytes⟩
      · rintro ⟨other, member, follows, bytes⟩
        rcases mem_append.mp member with here | there
        · exact absurd follows ((late id inSecond).2 other here)
        · exact ⟨other, there, ((late id inSecond).1 other there).mp follows, bytes⟩

variable {draft after : Draft}

/-- Writing one string out. -/
theorem fresh_ordered {id : Nat} (ran : fresh strings draft id = ok after)
    (fits : after.storage.length < 2 ^ 32) :
    Ordered strings [id] (fun id other => id < other) draft after := by
  obtain ⟨inside, string, found, rfl⟩ := fresh_eq_ok ran
  rw [length_append] at fits
  have bytes : HasBytes strings id ↔ 0 < string.bytes.length := by
    rw [length_pos_iff]
    refine ⟨fun ⟨string', found', bytes⟩ => ?_, fun bytes => ⟨string, found, bytes⟩⟩
    obtain rfl := Option.some.inj (found.symm.trans found')
    exact bytes
  constructor
  · rw [length_append]
    simp only [mem_singleton, exists_eq_left, bytes]
    omega
  · intro other member empty offset recorded
    obtain rfl := mem_singleton.mp member
    rw [List.getElem?_set_self inside, Option.some.injEq, Nat.mod_eq_of_lt (by omega)] at recorded
    rw [bytes] at empty
    rw [length_append]
    refine ⟨by omega, ?_⟩
    simp only [mem_singleton, exists_eq_left, lt_irrefl, false_and, iff_false]
    omega

variable {ids : List Nat}

/-- Writing strings out in the order of their ids. -/
theorem freshAll_ordered (ran : ids.foldlM (fresh strings) draft = ok after)
    (sorted : ids.Pairwise (· < ·)) (fits : after.storage.length < 2 ^ 32) :
    Ordered strings ids (fun id other => id < other) draft after := by
  induction ids generalizing draft with
  | nil =>
    obtain rfl : draft = after := foldlM_nil_eq_ok.mp ran
    exact ordered_nil _ rfl
  | cons id ids ih =>
    obtain ⟨middle, first, rest⟩ := foldlM_cons_eq_ok.mp ran
    obtain ⟨least, sortedRest⟩ := pairwise_cons.mp sorted
    have grows := (freshAll_grows rest).length_le
    have head := fresh_ordered first (lt_of_le_of_lt grows fits)
    refine head.trans (ih rest sortedRest) ?_ grows ?_ ?_ ?_
    · obtain ⟨-, string, -, rfl⟩ := fresh_eq_ok first
      exact (prefix_append _ _).length_le
    · intro other member
      obtain rfl := mem_singleton.mp member
      have outside : other ∉ ids := fun inside => lt_irrefl _ (least other inside)
      refine foldlM_preserves (fun draft => draft.offsets[other]? = middle.offsets[other]?) ?_ rfl rest
      intro later inside before next same step
      obtain ⟨-, string, -, rfl⟩ := fresh_eq_ok step
      have different : later ≠ other := fun equal => outside (equal ▸ inside)
      rw [← same]
      exact List.getElem?_set_ne different
    · intro other member
      obtain rfl := mem_singleton.mp member
      exact ⟨fun _ _ => Iff.rfl, least⟩
    · intro other member
      refine ⟨fun _ _ => Iff.rfl, fun before inside => ?_⟩
      obtain rfl := mem_singleton.mp inside
      exact lt_asymm (least other member)

variable {utf16 : Bool}

/-- Packed, every empty string is placed at the end. -/
theorem packContained_ordered (ran : packContained strings ids draft = ok after) (nodup : ids.Nodup)
    (encoding : OfEncoding strings utf16 ids) (shared : ∀ id ∈ ids, id ∉ pinned)
    (fits : after.storage.length < 2 ^ 32) (aligned : unitSize utf16 ∣ draft.storage.length) :
    Ordered strings ids (fun _ _ => False) draft after := by
  have laid := packContained_laid ran nodup encoding shared fits aligned
  simp only [packContained, bind_eq_ok, pure_eq, ok.injEq] at ran
  obtain ⟨⟨reps, of⟩, collected, _, -, parents, -, placed, -, offsets, recorded, rfl⟩ := ran
  obtain ⟨-, idsEq, texts, refers⟩ := distinct_spec collected
  obtain ⟨-, each⟩ := recordAll_spec (idsEq ▸ nodup) recorded
  constructor
  · constructor
    · intro grew
      by_contra none
      have noTexts : reps = [] := by
        refine eq_nil_iff_forall_not_mem.mpr fun text inside => ?_
        rcases texts text inside with absurd | ⟨id, member, string, found, rfl, nonempty⟩
        · exact not_mem_nil absurd
        · exact none ⟨id, member, string, found, nonempty⟩
      subst noTexts
      exact lt_irrefl _ grew
    · rintro ⟨id, member, string, found, nonempty⟩
      obtain ⟨offset, recordedHere, low, -, read⟩ := laid.stored id member string found
      have size := length_pos_iff.mpr nonempty
      have inside := (Bytes.slice_eq_some.mp read).1
      dsimp only at inside ⊢
      omega
  · intro id member empty offset recordedHere
    obtain ⟨entry, inside, rfl⟩ := mem_map.mp (idsEq.symm ▸ member)
    obtain ⟨offset', recorded', whenEmpty, -⟩ := each entry inside
    obtain rfl := Option.some.inj (recordedHere.symm.trans recorded')
    obtain ⟨string, found, -, isText⟩ := refers entry inside
    have none : entry.2 = none := by
      cases place : entry.2 with
      | none => rfl
      | some r =>
        have member := mem_of_getElem? (isText r place)
        rcases texts _ member with absurd | ⟨_, _, _, _, _, nonempty⟩
        · exact (not_mem_nil absurd).elim
        · exact (empty ⟨string, found, nonempty⟩).elim
    have finish := whenEmpty none
    rw [Nat.mod_eq_of_lt fits] at finish
    subst finish
    simp

/-- What comes behind an id within its encoding. -/
def Behind (pinned : Finset Nat) (packing : Packing) (id other : Nat) : Prop :=
  id ∉ pinned ∧ other ∈ pinned ∨
    id < other ∧ (id ∈ pinned ∧ other ∈ pinned ∨ packing = .unpacked ∧ id ∉ pinned ∧ other ∉ pinned)

/-- The same ids in another order. -/
theorem Ordered.perm {ids ids' : List Nat} {behind : Nat → Nat → Prop} {before after : Draft}
    (ordered : Ordered strings ids behind before after) (same : ∀ id, id ∈ ids ↔ id ∈ ids') :
    Ordered strings ids' behind before after := by
  constructor
  · simp only [← same]
    exact ordered.extends_iff
  · intro id inside
    simp only [← same]
    exact ordered.followed id ((same id).mpr inside)

theorem Ordered.congr {behind behind' : Nat → Nat → Prop} {before after : Draft}
    (ordered : Ordered strings ids behind before after)
    (same : ∀ id ∈ ids, ∀ other ∈ ids, behind id other ↔ behind' id other) :
    Ordered strings ids behind' before after := by
  refine ⟨ordered.extends_iff, fun id inside empty offset recorded => ?_⟩
  obtain ⟨within, follows⟩ := ordered.followed id inside empty offset recorded
  refine ⟨within, follows.trans ?_⟩
  constructor
  · rintro ⟨other, member, before, bytes⟩
    exact ⟨other, member, (same id inside other member).mp before, bytes⟩
  · rintro ⟨other, member, before, bytes⟩
    exact ⟨other, member, (same id inside other member).mpr before, bytes⟩

variable {packing : Packing}

/-- The strings of one encoding that may share storage. -/
theorem packShared_ordered (ran : packShared strings packing ids draft = ok after)
    (sorted : ids.Pairwise (· < ·)) (encoding : OfEncoding strings utf16 ids)
    (shared : ∀ id ∈ ids, id ∉ pinned) (fits : after.storage.length < 2 ^ 32)
    (aligned : unitSize utf16 ∣ draft.storage.length) :
    Ordered strings ids (Behind pinned packing) draft after := by
  cases packing with
  | unpacked =>
    refine (freshAll_ordered ran sorted fits).congr fun id inside other member => ?_
    simp [Behind, shared id inside, shared other member]
  | packed =>
    have nodup : ids.Nodup := sorted.imp ne_of_lt
    refine (packContained_ordered ran nodup encoding shared fits aligned).congr
      fun id inside other member => ?_
    simp [Behind, shared id inside, shared other member]

/-- The strings of one encoding: shared ones, then pinned ones. -/
theorem packGroup_ordered (ran : packGroup strings pinned packing ids draft = ok after)
    (sorted : ids.Pairwise (· < ·)) (encoding : OfEncoding strings utf16 ids)
    (fits : after.storage.length < 2 ^ 32) (aligned : unitSize utf16 ∣ draft.storage.length) :
    Ordered strings ids (Behind pinned packing) draft after := by
  simp only [packGroup, partition_eq_filter_filter, bind_eq_ok] at ran
  obtain ⟨middle, first, second⟩ := ran
  have part : ∀ keep : Nat → Bool, OfEncoding strings utf16 (ids.filter keep) :=
    fun keep id inside => encoding id (mem_filter.mp inside).1
  have shared : ∀ id ∈ ids.filter fun id => decide (id ∉ pinned), id ∉ pinned := fun id inside =>
    of_decide_eq_true (mem_filter.mp inside).2
  have own : ∀ id ∈ ids.filter (not ∘ fun id => decide (id ∉ pinned)), id ∈ pinned := by
    intro id inside
    simpa using (mem_filter.mp inside).2
  have middleFits : middle.storage.length < 2 ^ 32 :=
    lt_of_le_of_lt (freshAll_grows second).length_le fits
  obtain ⟨laid, middleAligned⟩ := packShared_laid first ((sorted.imp ne_of_lt).filter _) (part _)
    shared middleFits aligned
  have left := packShared_ordered first (sorted.filter _) (part _) shared middleFits aligned
  have right := freshAll_ordered second (sorted.filter _) fits
  have rest : Laid strings pinned _ middle after :=
    freshAll_laid second ((sorted.imp ne_of_lt).filter _) (part _) fits middleAligned
  refine (left.trans right laid.grows.length_le rest.grows.length_le ?_ ?_ ?_).perm ?_
  · intro id inside
    exact rest.kept id fun member => shared id inside (own id member)
  · intro id inside
    exact ⟨fun _ _ => Iff.rfl, fun other member => .inl ⟨shared id inside, own other member⟩⟩
  · intro id inside
    refine ⟨fun other member => ?_, fun other member => ?_⟩
    · simp [Behind, own id inside, own other member]
    · simp [Behind, own id inside, shared other member]
  · intro id
    rw [mem_append, mem_filter, mem_filter, Function.comp_apply]
    cases decide (id ∉ pinned) <;> simp

theorem idsOf_sorted (strings : List StoredString) (utf16 : Bool) :
    (idsOf strings utf16).Pairwise (· < ·) := pairwise_lt_range.filter _

/-- The ASCII part of a layout. -/
def asciiPart (strings : List StoredString) (pinned : Finset Nat) (packing : Packing) : Bytes :=
  match packEncoding strings pinned packing
      { storage := [], offsets := List.replicate strings.length 0 } false with
  | .ok draft => draft.storage
  | _ => []

/-- A byte is laid out behind the place of an id: a string of its encoding, and for an
ASCII one a UTF-16 string or the pad before UTF-16. -/
def Followed (strings : List StoredString) (pinned : Finset Nat) (packing : Packing) (utf16 : Bool)
    (id : Nat) : Prop :=
  (∃ other ∈ idsOf strings utf16, Behind pinned packing id other ∧ HasBytes strings other) ∨
    utf16 = false ∧ ((∃ other ∈ idsOf strings true, HasBytes strings other) ∨
      idsOf strings true ≠ [] ∧ (asciiPart strings pinned packing).length % 2 = 1)

/-- One encoding after its pad. -/
theorem packEncoding_ordered (ran : packEncoding strings pinned packing draft utf16 = ok after)
    (fits : after.storage.length < 2 ^ 32) (some : idsOf strings utf16 ≠ []) :
    Ordered strings (idsOf strings utf16) (Behind pinned packing)
      { draft with storage := padFor utf16 draft.storage } after := by
  rw [packEncoding, if_neg some] at ran
  exact packGroup_ordered ran (idsOf_sorted strings utf16) (fun id => mem_idsOf.mp) fits
    (padFor_aligned utf16 draft.storage)

/-- The UTF-16 part adds bytes when it has a string with bytes or needs a pad. -/
theorem packEncoding_extends (ran : packEncoding strings pinned packing draft true = ok after)
    (fits : after.storage.length < 2 ^ 32) : draft.storage.length < after.storage.length ↔
      (∃ id ∈ idsOf strings true, HasBytes strings id) ∨
        idsOf strings true ≠ [] ∧ draft.storage.length % 2 = 1 := by
  by_cases none : idsOf strings true = []
  · rw [packEncoding, if_pos none] at ran
    cases ran
    simp [none]
  · have ordered := packEncoding_ordered ran fits none
    rw [packEncoding, if_neg none] at ran
    have grows := (packGroup_laid ran ((idsOf_sorted strings true).imp ne_of_lt)
      (fun id => mem_idsOf.mp) fits (padFor_aligned true draft.storage)).grows.length_le
    have padded : (padFor true draft.storage).length =
        draft.storage.length + draft.storage.length % 2 := by
      unfold padFor
      split
      next odd =>
        rw [length_append, length_singleton]
        omega
      next even =>
        have rest : draft.storage.length % 2 = 0 := by
          by_contra odd
          exact even ⟨rfl, odd⟩
        omega
    rw [← ordered.extends_iff]
    simp only [ne_eq, none, not_false_eq_true, true_and]
    dsimp only at grows ⊢
    omega

/-- An entry of a layout is visible to the parser exactly when it has bytes or bytes
follow it. -/
theorem layOut_inside {layout : StringLayout} {id : Nat} {string : StoredString} {loc : StrLoc}
    (few : strings.length < 2 ^ 23) (laid : layOut strings pinned packing = ok layout)
    (found : strings[id]? = some string)
    (located : locate layout.small layout.overflow id = some loc) :
    loc.storageOff < layout.storage.length ∧ loc.storageOff + byteLen loc ≤ layout.storage.length ↔
      string.bytes ≠ [] ∨ Followed strings pinned packing string.isUtf16 id := by
  obtain ⟨ascii, all, first, second, fits, rfl⟩ := layOut_passes laid
  have later := packEncoding_laid second fits
  have asciiFits : ascii.storage.length < 2 ^ 32 := lt_of_le_of_lt later.grows.length_le fits
  have whole := (packEncoding_laid first asciiFits).trans later idsOf_disjoint
  have member : id ∈ idsOf strings string.isUtf16 := mem_idsOf.mpr ⟨string, found, rfl⟩
  have inside : id ∈ idsOf strings false ++ idsOf strings true := by
    rw [mem_append]
    cases encoding : string.isUtf16 with
    | false => exact .inl (encoding ▸ member)
    | true => exact .inr (encoding ▸ member)
  have stored := whole.stored id inside string found
  obtain ⟨loc', located', recorded, -, -, size⟩ := location_of_stored few fits found stored
  obtain rfl := Option.some.inj (located'.symm.trans located)
  obtain ⟨offset, recorded', -, -, read⟩ := stored
  obtain rfl := Option.some.inj (recorded.symm.trans recorded')
  have ends := (Bytes.slice_eq_some.mp read).1
  by_cases empty : string.bytes = []
  · have noBytes : ¬ HasBytes strings id := fun ⟨other, found', bytes⟩ => by
      obtain rfl := Option.some.inj (found.symm.trans found')
      exact bytes empty
    have zero : byteLen loc' = 0 := by rw [size, empty, length_nil]
    have visible : loc'.storageOff < all.storage.length ↔
        Followed strings pinned packing string.isUtf16 id := by
      cases encoding : string.isUtf16 with
      | false =>
        rw [encoding] at member
        have ordered := packEncoding_ordered first asciiFits (ne_nil_of_mem member)
        rw [later.kept id (idsOf_disjoint member)] at recorded
        obtain ⟨within, follows⟩ := ordered.followed id member noBytes _ recorded
        have part : asciiPart strings pinned packing = ascii.storage := by rw [asciiPart, first]
        have grows := later.grows.length_le
        have reaches : loc'.storageOff < all.storage.length ↔
            loc'.storageOff < ascii.storage.length ∨ ascii.storage.length < all.storage.length := by
          omega
        rw [reaches, follows, packEncoding_extends second fits, Followed, part]
        simp
      | true =>
        rw [encoding] at member
        have ordered := packEncoding_ordered second fits (ne_nil_of_mem member)
        obtain ⟨-, follows⟩ := ordered.followed id member noBytes _ recorded
        rw [follows, Followed]
        simp
    rw [zero, ← visible]
    simp only [empty, ne_eq, not_true_eq_false, false_or]
    omega
  · have positive := length_pos_iff.mpr empty
    rw [size]
    simp only [ne_eq, empty, not_false_eq_true, true_or, iff_true]
    omega

end HermesDecomp.StringStorage
