import HermesDecomp.Write.PackedLayout

/-!
# What a layout reads back as

The whole layout is two passes, ASCII before UTF-16, each of shared ids and then
pinned ones. The small entries and overflow records give every recorded offset
back, so the tables and the storage together read as the strings laid out.
-/

namespace HermesDecomp.StringStorage

open Outcome List

variable {strings : List StoredString} {pinned : Finset Nat}

variable {packing : Packing} {utf16 : Bool} {draft after : Draft}

/-- Packing shared ids of one encoding lays all of them out and ends at a whole unit. -/
theorem packShared_laid {ids : List Nat} (ran : packShared strings packing ids draft = ok after)
    (nodup : ids.Nodup) (encoding : OfEncoding strings utf16 ids) (shared : ∀ id ∈ ids, id ∉ pinned)
    (fits : after.storage.length < 2 ^ 32) (aligned : unitSize utf16 ∣ draft.storage.length) :
    Laid strings pinned ids draft after ∧ unitSize utf16 ∣ after.storage.length := by
  cases packing with
  | unpacked =>
    exact ⟨freshAll_laid ran nodup encoding fits aligned, freshAll_aligned encoding aligned ran⟩
  | packed =>
    exact ⟨packContained_laid ran nodup encoding shared fits aligned,
      packContained_aligned ran encoding aligned⟩

/-- Packing the ids of one encoding lays all of them out, pinned ones last. -/
theorem packGroup_laid {ids : List Nat}
    (ran : packGroup strings pinned packing ids draft = ok after) (nodup : ids.Nodup)
    (encoding : OfEncoding strings utf16 ids) (fits : after.storage.length < 2 ^ 32)
    (aligned : unitSize utf16 ∣ draft.storage.length) : Laid strings pinned ids draft after:= by
  simp only [packGroup, partition_eq_filter_filter, bind_eq_ok] at ran
  obtain ⟨middle, first, second⟩ := ran
  have part : ∀ keep : Nat → Bool, OfEncoding strings utf16 (ids.filter keep) :=
    fun keep id inside => encoding id (mem_filter.mp inside).1
  have shared : ∀ id ∈ ids.filter fun id => decide (id ∉ pinned), id ∉ pinned := fun id inside =>
    of_decide_eq_true (mem_filter.mp inside).2
  have middleFits : middle.storage.length < 2 ^ 32 :=
    lt_of_le_of_lt (freshAll_grows second).length_le fits
  obtain ⟨left, middleAligned⟩ :=
    packShared_laid first (nodup.filter _) (part _) shared middleFits aligned
  have right : Laid strings pinned _ middle after :=
    freshAll_laid second (nodup.filter _) (part _) fits middleAligned
  have disjoint : (ids.filter fun id => decide (id ∉ pinned)).Disjoint
      (ids.filter (not ∘ fun id => decide (id ∉ pinned))) := by
    intro id inShared inOwn
    have own := (mem_filter.mp inOwn).2
    simp only [Function.comp_apply, (mem_filter.mp inShared).2] at own
    cases own
  apply (left.trans right disjoint).perm
  intro id
  rw [mem_append, mem_filter, mem_filter, Function.comp_apply]
  cases decide (id ∉ pinned) <;> simp

theorem mem_idsOf {id : Nat} :
    id ∈ idsOf strings utf16 ↔ ∃ string, strings[id]? = some string ∧ string.isUtf16 = utf16 := by
  simp only [idsOf, mem_filter, mem_range, Option.any_eq_true, beq_iff_eq]
  constructor
  · exact fun both => both.2
  · rintro ⟨string, found, same⟩
    exact ⟨(List.getElem?_eq_some_iff.mp found).1, string, found, same⟩

theorem padFor_grows (utf16 : Bool) (storage : Bytes) : storage <+: padFor utf16 storage := by
  unfold padFor
  split
  · exact prefix_append _ _
  · exact prefix_refl _

theorem padFor_aligned (utf16 : Bool) (storage : Bytes) :
    unitSize utf16 ∣ (padFor utf16 storage).length := by
  cases utf16 with
  | false => exact one_dvd _
  | true =>
    simp only [padFor, unitSize, if_true, true_and]
    split
    · rw [length_append, length_singleton]
      omega
    · omega

/-- Laying out one encoding lays out its ids. -/
theorem packEncoding_laid (ran : packEncoding strings pinned packing draft utf16 = ok after)
    (fits : after.storage.length < 2 ^ 32) :
    Laid strings pinned (idsOf strings utf16) draft after := by
  unfold packEncoding at ran
  split at ran
  next none =>
    obtain rfl : draft = after := ok.inj ran
    rw [none]
    exact laid_nil (prefix_refl _) rfl
  next some =>
    have nodup : (idsOf strings utf16).Nodup := nodup_range.filter _
    have encoding : OfEncoding strings utf16 (idsOf strings utf16) := fun id => mem_idsOf.mp
    have start : Laid strings pinned [] draft
        { draft with storage := padFor utf16 draft.storage } :=
      laid_nil (padFor_grows utf16 draft.storage) rfl
    have rest := packGroup_laid ran nodup encoding fits (padFor_aligned utf16 draft.storage)
    exact start.trans rest (disjoint_nil_left _)

/-- The ids of the two encodings are different ids. -/
theorem idsOf_disjoint : (idsOf strings false).Disjoint (idsOf strings true) := by
  intro id inAscii inUtf16
  obtain ⟨string, found, ascii⟩ := mem_idsOf.mp inAscii
  obtain ⟨string', found', utf16⟩ := mem_idsOf.mp inUtf16
  obtain rfl : string = string' := Option.some.inj (found.symm.trans found')
  exact absurd (ascii.symm.trans utf16) Bool.false_ne_true

variable {string : StoredString}

/-- The small entries decode to the strings' encodings and resolve to their
offsets and lengths, with `earlier` the records before them, when all records can be
numbered in 23 bits. -/
theorem entries_located {rows : List (StoredString × Nat)} {earlier : List (Nat × Nat)}
    (few : earlier.length + (entries earlier.length rows).2.length ≤ 2 ^ 23) {id offset : Nat}
    (found : rows[id]? = some (string, offset)) :
    locate (entries earlier.length rows).1 (earlier ++ (entries earlier.length rows).2) id =
      some { storageOff := offset, lenField := string.lenField, isUtf16 := string.isUtf16 } := by
  induction rows generalizing earlier id with
  | nil => simp at found
  | cons row rows ih =>
    obtain ⟨first, firstOffset⟩ := row
    have small : earlier.length % 2 ^ 32 = earlier.length := Nat.mod_eq_of_lt (by omega)
    have decoded := @SmallStringEntry.decode_encode_forString first.isUtf16 firstOffset
      first.lenField earlier.length
    have encoding := SmallStringEntry.forString_isUtf16 first.isUtf16 firstOffset first.lenField
      earlier.length
    have resolves := @SmallStringEntry.resolve_forString first.isUtf16 firstOffset first.lenField
      earlier.length
    rcases packed : SmallStringEntry.forString first.isUtf16 firstOffset first.lenField
      earlier.length with ⟨entry, needsRecord⟩
    rw [packed] at decoded encoding resolves
    dsimp only at decoded encoding resolves
    simp only [entries, small, packed] at few ⊢
    have numbered : needsRecord = true → earlier.length < 2 ^ 23 := by
      intro needed
      rw [if_pos needed, length_cons] at few
      omega
    replace decoded := decoded numbered
    cases id with
    | zero =>
      obtain ⟨rfl, rfl⟩ : first = string ∧ firstOffset = offset := by simpa using found
      have resolved : entry.resolve (earlier ++
          if needsRecord = true then (firstOffset, first.lenField) ::
            (entries (if needsRecord = true then earlier.length + 1 else earlier.length) rows).2
          else (entries (if needsRecord = true then earlier.length + 1 else earlier.length) rows).2) =
          some (firstOffset, first.lenField) := by
        apply resolves
        intro needed
        rw [if_pos needed, List.getElem?_append_right (Nat.le_refl _), Nat.sub_self]
        rfl
      simp [locate, decoded, encoding, resolved]
    | succ id =>
      cases needsRecord with
      | true =>
        have counted : (earlier ++ [(firstOffset, first.lenField)]).length = earlier.length + 1 := by
          rw [length_append, length_singleton]
        have rest := @ih (earlier ++ [(firstOffset, first.lenField)])
          (by rw [counted]; simpa [add_assoc, add_comm] using few) id found
        rw [counted, append_assoc, singleton_append] at rest
        exact rest
      | false => exact @ih earlier few id found

/-- There is at most one record for each string. -/
theorem entries_records_le (next : Nat) (rows : List (StoredString × Nat)) :
    (entries next rows).2.length ≤ rows.length := by
  induction rows generalizing next with
  | nil => exact le_refl _
  | cons row rows ih =>
    obtain ⟨string, offset⟩ := row
    unfold entries
    rcases SmallStringEntry.forString string.isUtf16 offset string.lenField (next % 2 ^ 32) with
      ⟨entry, needsRecord⟩
    cases needsRecord with
    | false => exact Nat.le_succ_of_le (ih next)
    | true => exact Nat.succ_le_succ (ih (next + 1))

/-- What it means that tables and storage read back as the strings: every string
is found with its length and encoding, UTF-16 after ASCII and at even offsets,
and a pinned one shares no byte. -/
structure ReadsBack (strings : List StoredString) (pinned : Finset Nat) (layout : StringLayout) :
    Prop where
  located : ∀ id string, strings[id]? = some string →
    ∃ loc, locate layout.small layout.overflow id = some loc ∧ loc.lenField = string.lenField ∧
      loc.isUtf16 = string.isUtf16 ∧
      Bytes.slice layout.storage loc.storageOff (byteLen loc) = some string.bytes
  utf16Last : ∀ id string loc, strings[id]? = some string →
    locate layout.small layout.overflow id = some loc → string.isUtf16 = true → string.bytes ≠ [] →
    2 ∣ loc.storageOff ∧ ∀ other otherString otherLoc, strings[other]? = some otherString →
      locate layout.small layout.overflow other = some otherLoc → otherString.isUtf16 = false →
      otherLoc.storageOff + byteLen otherLoc ≤ loc.storageOff
  pinnedAlone : ∀ id string loc, id ∈ pinned → strings[id]? = some string →
    locate layout.small layout.overflow id = some loc → string.bytes ≠ [] →
    ∀ other otherString otherLoc, other ≠ id → strings[other]? = some otherString →
      locate layout.small layout.overflow other = some otherLoc → otherString.bytes ≠ [] →
      loc.storageOff + byteLen loc ≤ otherLoc.storageOff ∨
        otherLoc.storageOff + byteLen otherLoc ≤ loc.storageOff

variable {layout : StringLayout}

/-- Two passes, ASCII before UTF-16, and the tables of the offsets they record. -/
theorem layOut_passes (laid : layOut strings pinned packing = ok layout) :
    ∃ ascii all : Draft,
      packEncoding strings pinned packing
        { storage := [], offsets := List.replicate strings.length 0 } false = ok ascii ∧
      packEncoding strings pinned packing ascii true = ok all ∧ all.storage.length < 2 ^ 32 ∧
      layout = { small := (entries 0 (strings.zip all.offsets)).1,
                 overflow := (entries 0 (strings.zip all.offsets)).2, storage := all.storage } := by
  simp only [layOut, bind_eq_ok, foldlM_cons_eq_ok, foldlM_nil_eq_ok, ensure_eq_ok, pure_eq,
    ok.injEq] at laid
  obtain ⟨all, ⟨ascii, first, _, second, rfl⟩, -, fits, rfl⟩ := laid
  exact ⟨ascii, _, first, second, fits, rfl⟩

/-- Each pass lays out the ids of its encoding. -/
theorem layOut_eq_ok (laid : layOut strings pinned packing = ok layout) :
    ∃ ascii all : Draft,
      Laid strings pinned (idsOf strings false)
        { storage := [], offsets := List.replicate strings.length 0 } ascii ∧
      Laid strings pinned (idsOf strings true) ascii all ∧ all.storage.length < 2 ^ 32 ∧
      layout = { small := (entries 0 (strings.zip all.offsets)).1,
                 overflow := (entries 0 (strings.zip all.offsets)).2, storage := all.storage } := by
  obtain ⟨ascii, all, first, second, fits, rfl⟩ := layOut_passes laid
  have utf16 := packEncoding_laid second fits
  have asciiFits : ascii.storage.length < 2 ^ 32 := lt_of_le_of_lt utf16.grows.length_le fits
  exact ⟨ascii, all, packEncoding_laid first asciiFits, utf16, fits, rfl⟩

/-- The storage and tables of a finished draft: each string is where its recorded
offset says, and the tables give that offset, when the records can be numbered. -/
theorem located_of_stored {draft : Draft} {low id : Nat}
    (few : (entries 0 (strings.zip draft.offsets)).2.length ≤ 2 ^ 23)
    (fits : draft.storage.length < 2 ^ 32) (found : strings[id]? = some string)
    (stored : Stored draft low id string) :
    ∃ loc, locate (entries 0 (strings.zip draft.offsets)).1
        (entries 0 (strings.zip draft.offsets)).2 id = some loc ∧
      draft.offsets[id]? = some loc.storageOff ∧ loc.lenField = string.lenField ∧
      loc.isUtf16 = string.isUtf16 ∧ byteLen loc = string.bytes.length := by
  obtain ⟨offset, recorded, -, -, read⟩ := stored
  have row : (strings.zip draft.offsets)[id]? = some (string, offset) :=
    List.getElem?_zip_eq_some.mpr ⟨found, recorded⟩
  have records : ([] : List (Nat × Nat)).length + (entries 0 (strings.zip draft.offsets)).2.length ≤
      2 ^ 23 := by
    rwa [length_nil, zero_add]
  have inside := (Bytes.slice_eq_some.mp read).1
  have size : string.bytes.length = string.lenField * unitSize string.isUtf16 :=
    string.length_eq (by omega)
  exact ⟨_, entries_located records row, recorded, rfl, rfl, size.symm⟩

/-- Fewer strings than that need no more records. -/
theorem location_of_stored {draft : Draft} {low id : Nat} (few : strings.length < 2 ^ 23)
    (fits : draft.storage.length < 2 ^ 32) (found : strings[id]? = some string)
    (stored : Stored draft low id string) :
    ∃ loc, locate (entries 0 (strings.zip draft.offsets)).1
        (entries 0 (strings.zip draft.offsets)).2 id = some loc ∧
      draft.offsets[id]? = some loc.storageOff ∧ loc.lenField = string.lenField ∧
      loc.isUtf16 = string.isUtf16 ∧ byteLen loc = string.bytes.length := by
  have records := entries_records_le 0 (strings.zip draft.offsets)
  rw [length_zip] at records
  exact located_of_stored (by omega) fits found stored

/-- Whatever is laid out reads back: for any strings, pins and packing, the tables
find every string in storage as it is, UTF-16 strings lie at even offsets after
all ASCII ones, and a pinned string shares no byte with another. -/
theorem layOut_readsBack (strings : List StoredString) (pinned : Finset Nat) (packing : Packing)
    (layout : StringLayout) (few : strings.length < 2 ^ 23)
    (laid : layOut strings pinned packing = ok layout) : ReadsBack strings pinned layout := by
  obtain ⟨asciiDraft, all, ascii, utf16, fits, rfl⟩ := layOut_eq_ok laid
  have whole := ascii.trans utf16 idsOf_disjoint
  have everyId : ∀ id string, strings[id]? = some string →
      id ∈ idsOf strings false ++ idsOf strings true := by
    intro id string found
    rw [mem_append, mem_idsOf, mem_idsOf]
    cases encoding : string.isUtf16 with
    | false => exact .inl ⟨string, found, encoding⟩
    | true => exact .inr ⟨string, found, encoding⟩
  have locates : ∀ id string loc, strings[id]? = some string →
      locate (entries 0 (strings.zip all.offsets)).1 (entries 0 (strings.zip all.offsets)).2 id =
        some loc →
      all.offsets[id]? = some loc.storageOff ∧ byteLen loc = string.bytes.length := by
    intro id string loc found located
    obtain ⟨loc', located', recorded, -, -, size⟩ := location_of_stored few fits found
      (whole.stored id (everyId id string found) string found)
    obtain rfl : loc' = loc := Option.some.inj (located'.symm.trans located)
    exact ⟨recorded, size⟩
  constructor
  · intro id string found
    have stored := whole.stored id (everyId id string found) string found
    obtain ⟨loc, located, recorded, lenField, isUtf16, size⟩ :=
      location_of_stored few fits found stored
    obtain ⟨offset, recorded', -, -, read⟩ := stored
    obtain rfl : loc.storageOff = offset := Option.some.inj (recorded.symm.trans recorded')
    exact ⟨loc, located, lenField, isUtf16, size ▸ read⟩
  · intro id string loc found located isUtf16 _
    obtain ⟨recorded, -⟩ := locates id string loc found located
    obtain ⟨offset, recorded', low, aligned, -⟩ :=
      utf16.stored id (mem_idsOf.mpr ⟨string, found, isUtf16⟩) string found
    obtain rfl : loc.storageOff = offset := Option.some.inj (recorded.symm.trans recorded')
    rw [isUtf16] at aligned
    refine ⟨aligned, ?_⟩
    intro other otherString otherLoc otherFound otherLocated isAscii
    obtain ⟨otherRecorded, otherSize⟩ := locates other otherString otherLoc otherFound otherLocated
    have inAscii : other ∈ idsOf strings false := mem_idsOf.mpr ⟨otherString, otherFound, isAscii⟩
    rw [utf16.kept other (idsOf_disjoint inAscii)] at otherRecorded
    have ends := (ascii.stored other inAscii otherString otherFound).end_le otherRecorded
    omega
  · intro id string loc isPinned found located _ other otherString otherLoc distinct otherFound
      otherLocated _
    obtain ⟨recorded, size⟩ := locates id string loc found located
    obtain ⟨otherRecorded, otherSize⟩ := locates other otherString otherLoc otherFound otherLocated
    rw [size, otherSize]
    exact whole.apart id (everyId id string found) isPinned other
      (everyId other otherString otherFound) distinct string otherString _ _ found otherFound
      recorded otherRecorded

/-- The tables of a layout hold 32-bit numbers, with a small entry for each string. -/
structure WellSized (strings : List StoredString) (layout : StringLayout) : Prop where
  small : layout.small.length = strings.length
  overflow : layout.overflow.length ≤ strings.length
  smallFits : ∀ word ∈ layout.small, word < 2 ^ 32
  overflowFits : ∀ record ∈ layout.overflow, record.1 < 2 ^ 32 ∧ record.2 < 2 ^ 32
  storage : layout.storage.length < 2 ^ 32

theorem entries_wellSized (next : Nat) {rows : List (StoredString × Nat)}
    (fit : ∀ row ∈ rows, row.2 < 2 ^ 32) :
    (entries next rows).1.length = rows.length ∧ (entries next rows).2.length ≤ rows.length ∧
      (∀ word ∈ (entries next rows).1, word < 2 ^ 32) ∧
      ∀ record ∈ (entries next rows).2, record.1 < 2 ^ 32 ∧ record.2 < 2 ^ 32 := by
  induction rows generalizing next with
  | nil => simp [entries]
  | cons row rows ih =>
    obtain ⟨string, offset⟩ := row
    obtain ⟨offsetFits, rest⟩ := forall_mem_cons.mp fit
    have lenFits : string.lenField < 2 ^ 32 := by
      rw [string.counted]
      exact Nat.mod_lt _ (by decide)
    unfold entries
    rcases SmallStringEntry.forString string.isUtf16 offset string.lenField (next % 2 ^ 32) with
      ⟨entry, needsRecord⟩
    cases needsRecord with
    | false =>
      obtain ⟨small, overflow, smallFits, overflowFits⟩ := ih next rest
      exact ⟨congrArg (· + 1) small, Nat.le_succ_of_le overflow,
        forall_mem_cons.mpr ⟨entry.encode_lt, smallFits⟩, overflowFits⟩
    | true =>
      obtain ⟨small, overflow, smallFits, overflowFits⟩ := ih (next + 1) rest
      exact ⟨congrArg (· + 1) small, Nat.succ_le_succ overflow,
        forall_mem_cons.mpr ⟨entry.encode_lt, smallFits⟩,
        forall_mem_cons.mpr ⟨⟨offsetFits, lenFits⟩, overflowFits⟩⟩

/-- Every layout has tables of the right sizes. -/
theorem layOut_wellSized (laid : layOut strings pinned packing = ok layout)
    : WellSized strings layout:= by
  obtain ⟨asciiDraft, all, ascii, utf16, fits, rfl⟩ := layOut_eq_ok laid
  have whole := ascii.trans utf16 idsOf_disjoint
  have recorded : ∀ (id : Nat) (string : StoredString), strings[id]? = some string →
      ∃ offset, all.offsets[id]? = some offset ∧ offset ≤ all.storage.length := by
    intro id string found
    have inside : id ∈ idsOf strings false ++ idsOf strings true := by
      rw [mem_append, mem_idsOf, mem_idsOf]
      cases encoding : string.isUtf16 with
      | false => exact .inl ⟨string, found, encoding⟩
      | true => exact .inr ⟨string, found, encoding⟩
    obtain ⟨offset, place, -, -, read⟩ := whole.stored id inside string found
    exact ⟨offset, place, (Nat.le_add_right _ _).trans (Bytes.slice_eq_some.mp read).1⟩
  have long : strings.length ≤ all.offsets.length := by
    by_contra short
    obtain ⟨offset, place, -⟩ := recorded all.offsets.length _
      (List.getElem?_eq_getElem (Nat.lt_of_not_le short))
    exact absurd (List.getElem?_eq_some_iff.mp place).1 (lt_irrefl _)
  have rows : (strings.zip all.offsets).length = strings.length := by
    rw [length_zip, min_eq_left long]
  have fit : ∀ row ∈ strings.zip all.offsets, row.2 < 2 ^ 32 := by
    intro row inside
    obtain ⟨id, found⟩ := mem_iff_getElem?.mp inside
    obtain ⟨string, place⟩ := List.getElem?_zip_eq_some.mp found
    obtain ⟨offset, place', below⟩ := recorded id _ string
    rw [place, Option.some.injEq] at place'
    omega
  obtain ⟨small, overflow, smallFits, overflowFits⟩ := entries_wellSized 0 fit
  exact ⟨small.trans rows, overflow.trans (le_of_eq rows), smallFits, overflowFits, fits⟩

/-- `done` inside `undone`, with a pinned copy of `done` and a text outside ASCII. -/
theorem layOut_readsBack_done : ∃ layout, layOut
    ([['u', 'n', 'd', 'o', 'n', 'e'], ['d', 'o', 'n', 'e'], ['d', 'o', 'n', 'e'], ['é']].map
      StoredString.encode) {2} .packed = ok layout ∧
    ReadsBack ([['u', 'n', 'd', 'o', 'n', 'e'], ['d', 'o', 'n', 'e'], ['d', 'o', 'n', 'e'],
      ['é']].map StoredString.encode) {2} layout := by
  have laid : layOut ([['u', 'n', 'd', 'o', 'n', 'e'], ['d', 'o', 'n', 'e'], ['d', 'o', 'n', 'e'],
      ['é']].map StoredString.encode) {2} .packed =
      ok { small := [0x06000000, 0x04000004, 0x0400000c, 0x01000015], overflow := [],
           storage := [117, 110, 100, 111, 110, 101, 100, 111, 110, 101, 233, 0] } := by
    decide +kernel
  exact ⟨_, laid, layOut_readsBack _ _ _ _ (by decide) laid⟩

end HermesDecomp.StringStorage
