import HermesDecomp.Write.Create
import HermesDecomp.Write.LayoutReadBack

/-!
# The strings of a created image

The parser refuses an entry that starts at the end of the storage, also when it is empty. In a
created image the empty strings stand among the ASCII ones, in the order of their ids, so only
those that nothing else follows start there.
-/

namespace HermesDecomp.Create

open Outcome StringStorage HermesDecomp.Parser List Option

/-- Every string starts inside the storage of a created image: a string outside ASCII is stored
behind all others, or else the last string is not empty. -/
def AllStartInside (strings : List Text) : Prop :=
  (∃ text ∈ strings, needsUtf16 text = true) ∨ strings.getLast? ≠ some []

instance (strings : List Text) : Decidable (AllStartInside strings) :=
  inferInstanceAs (Decidable (_ ∨ _))

theorem encode_bytes_eq_nil {text : Text} : (StoredString.encode text).bytes = [] ↔ text = [] := by
  constructor
  · intro empty
    have read := text_encode text
    have narrow : (StoredString.encode text).text = [] := by
      unfold StoredString.text
      rw [empty]
      split <;> rfl
    exact read.symm.trans narrow
  · rintro rfl
    rfl

theorem needsUtf16_ne_nil {text : Text} (wide : needsUtf16 text = true) : text ≠ [] := by
  rintro rfl
  cases wide

/-- A stored string that is not empty starts inside. -/
theorem start_lt {draft : Draft} {low id offset : Nat} {string : StoredString}
    (stored : Stored draft low id string) (recorded : draft.offsets[id]? = some offset)
    (filled : string.bytes ≠ []) : offset < draft.storage.length := by
  have ends := stored.end_le recorded
  have long := length_pos_of_ne_nil filled
  omega

section Layout

variable {strings : List StoredString}

theorem idsOf_eq_range (ascii : ∀ string ∈ strings, string.isUtf16 = false) :
    idsOf strings false = List.range strings.length := by
  refine filter_eq_self.mpr fun id inside => ?_
  rw [mem_range] at inside
  have encoding := ascii _ (getElem_mem inside)
  rw [List.getElem?_eq_getElem inside, any_some, encoding]
  rfl

theorem idsOf_eq_nil (ascii : ∀ string ∈ strings, string.isUtf16 = false) :
    idsOf strings true = [] := by
  refine eq_nil_iff_forall_not_mem.mpr fun id inside => ?_
  obtain ⟨string, found, wide⟩ := mem_idsOf.mp inside
  rw [ascii string (mem_of_getElem? found)] at wide
  cases wide

/-- Nothing pinned, ids of one encoding are written out in order. -/
theorem packGroup_unpacked (ids : List Nat) (draft : Draft) :
    packGroup strings ∅ .unpacked ids draft = ids.foldlM (fresh strings) draft := by
  have all : ids.filter (fun id => decide (id ∉ (∅ : Finset Nat))) = ids :=
    filter_eq_self.mpr fun id _ => decide_eq_true (Finset.notMem_empty id)
  have none : ids.filter (not ∘ fun id => decide (id ∉ (∅ : Finset Nat))) = [] := by
    refine filter_eq_nil_iff.mpr fun id _ => ?_
    rw [Function.comp_apply, decide_eq_true (Finset.notMem_empty id)]
    exact Bool.false_ne_true
  unfold packGroup packShared
  rw [partition_eq_filter_filter, all, none]
  dsimp only
  cases ids.foldlM (fresh strings) draft <;> rfl

/-- Strings that are all ASCII are written out in order. -/
theorem packEncoding_ascii (filled : strings ≠ [])
    (ascii : ∀ string ∈ strings, string.isUtf16 = false) (draft : Draft) :
    packEncoding strings ∅ .unpacked draft false =
      (List.range strings.length).foldlM (fresh strings) draft := by
  have ids : List.range strings.length ≠ [] := by
    rw [Ne, range_eq_nil]
    exact mt length_eq_zero_iff.mp filled
  have storage : padFor false draft.storage = draft.storage := if_neg fun both => by
    exact absurd both.1 Bool.false_ne_true
  unfold packEncoding
  rw [idsOf_eq_range ascii, if_neg ids, packGroup_unpacked, storage]

/-- The bytes of the strings of one encoding, in order. -/
def encodedBytes (strings : List StoredString) (utf16 : Bool) : Bytes :=
  (strings.filter (·.isUtf16 == utf16)).flatMap (·.bytes)

/-- Storage that shares nothing: the ASCII strings, and behind them at an even place the others. -/
def unpackedStorage (strings : List StoredString) : Bytes :=
  if strings.any (·.isUtf16) then
    padFor true (encodedBytes strings false) ++ encodedBytes strings true
  else encodedBytes strings false

theorem idsOf_concat (strings : List StoredString) (last : StoredString) (utf16 : Bool) :
    idsOf (strings ++ [last]) utf16 =
      idsOf strings utf16 ++ if last.isUtf16 == utf16 then [strings.length] else [] := by
  have early : (List.range strings.length).filter
      (fun id => (strings ++ [last])[id]?.any (·.isUtf16 == utf16)) =
        (List.range strings.length).filter (fun id => strings[id]?.any (·.isUtf16 == utf16)) := by
    refine filter_congr fun id inside => ?_
    rw [List.getElem?_append_left (mem_range.mp inside)]
  unfold idsOf
  rw [length_append, length_singleton, range_succ, filter_append, early,
    filter_singleton, List.getElem?_concat_length, any_some]
  cases last.isUtf16 == utf16 <;> rfl

/-- The strings of one encoding are the strings at its ids. -/
theorem encodedBytes_eq (strings : List StoredString) (utf16 : Bool) :
    (idsOf strings utf16).flatMap (fun id => (strings[id]?).elim [] (·.bytes)) =
      encodedBytes strings utf16 := by
  induction strings using List.reverseRecOn with
  | nil => rfl
  | append_singleton strings last ih =>
    have early : (idsOf strings utf16).flatMap
        (fun id => ((strings ++ [last])[id]?).elim [] (·.bytes)) =
          (idsOf strings utf16).flatMap (fun id => (strings[id]?).elim [] (·.bytes)) := by
      refine flatMap_congr fun id inside => ?_
      obtain ⟨string, found, -⟩ := mem_idsOf.mp inside
      rw [List.getElem?_append_left (List.getElem?_eq_some_iff.mp found).1]
    rw [idsOf_concat, flatMap_append, early, ih, encodedBytes, encodedBytes,
      filter_append, flatMap_append, filter_singleton]
    cases last.isUtf16 == utf16 <;> simp

/-- Ids of strings are all written out. -/
theorem freshAll_total {ids : List Nat} {draft : Draft} (inside : ∀ id ∈ ids, id < strings.length)
    (sized : draft.offsets.length = strings.length) :
    ∃ after, ids.foldlM (fresh strings) draft = ok after ∧ after.offsets.length = strings.length ∧
      after.storage = draft.storage ++ ids.flatMap fun id => (strings[id]?).elim [] (·.bytes) := by
  induction ids generalizing draft with
  | nil => exact ⟨draft, rfl, sized, (append_nil _).symm⟩
  | cons id ids ih =>
    have small := inside id mem_cons_self
    have found : strings[id]? = some strings[id] := List.getElem?_eq_getElem small
    obtain ⟨next, nextEq⟩ : ∃ next : Draft, next =
        { storage := draft.storage ++ strings[id].bytes,
          offsets := draft.offsets.set id (draft.storage.length % 2 ^ 32) } := ⟨_, rfl⟩
    have step : fresh strings draft id = ok next := by
      simp only [fresh, store, bind_eq_ok, checked_eq_ok, index_eq_ok, pure_eq, ok.injEq]
      exact ⟨_, ⟨by rwa [sized], rfl⟩, _, found, nextEq.symm⟩
    have nextSized : next.offsets.length = strings.length := by rw [nextEq, length_set, sized]
    obtain ⟨after, rest, afterSized, storage⟩ := ih
      (fun other member => inside other (mem_cons_of_mem _ member)) nextSized
    refine ⟨after, foldlM_cons_eq_ok.mpr ⟨next, step, rest⟩, afterSized, ?_⟩
    rw [storage, nextEq, flatMap_cons, found, elim_some, append_assoc]

/-- Both encodings are written out. -/
theorem packEncoding_total (utf16 : Bool) {draft : Draft}
    (sized : draft.offsets.length = strings.length) :
    ∃ after, packEncoding strings ∅ .unpacked draft utf16 = ok after ∧
      after.offsets.length = strings.length ∧
      after.storage = if idsOf strings utf16 = [] then draft.storage
        else padFor utf16 draft.storage ++ encodedBytes strings utf16 := by
  unfold packEncoding
  split
  next none => exact ⟨draft, rfl, sized, rfl⟩
  next some =>
    have inside : ∀ id ∈ idsOf strings utf16, id < strings.length := by
      intro id member
      obtain ⟨string, found, -⟩ := mem_idsOf.mp member
      exact (List.getElem?_eq_some_iff.mp found).1
    rw [packGroup_unpacked, ← encodedBytes_eq]
    exact freshAll_total inside sized

end Layout

/-- Strings whose storage is below 4 GiB are laid out. -/
theorem createStringTables_total {strings : List Text}
    (small : (unpackedStorage (strings.map StoredString.encode)).length < 2 ^ 32) :
    ∃ tables, createStringTables strings = ok tables ∧
      tables.storage = unpackedStorage (strings.map StoredString.encode) := by
  unfold createStringTables
  generalize strings.map StoredString.encode = encoded at small
  obtain ⟨ascii, first, sized, narrow⟩ := @packEncoding_total encoded false
    { storage := [], offsets := List.replicate encoded.length 0 } length_replicate
  obtain ⟨all, second, -, storage⟩ := @packEncoding_total encoded true ascii sized
  have front : ascii.storage = encodedBytes encoded false := by
    rw [narrow]
    split
    next none => rw [← encodedBytes_eq, none, flatMap_nil]
    next some => rfl
  have whole : all.storage = unpackedStorage encoded := by
    rw [storage, front, unpackedStorage]
    by_cases none : idsOf encoded true = []
    · have absent : ¬ encoded.any (·.isUtf16) = true := by
        intro present
        obtain ⟨string, inside, wide⟩ := any_eq_true.mp present
        obtain ⟨id, found⟩ := mem_iff_getElem?.mp inside
        have member : id ∈ idsOf encoded true := mem_idsOf.mpr ⟨string, found, wide⟩
        rw [none] at member
        cases member
      rw [if_pos none, if_neg absent]
    · obtain ⟨id, member⟩ := exists_mem_of_ne_nil _ none
      obtain ⟨string, found, wide⟩ := mem_idsOf.mp member
      have present : encoded.any (·.isUtf16) = true :=
        any_eq_true.mpr ⟨string, mem_of_getElem? found, wide⟩
      rw [if_neg none, if_pos present]
  refine ⟨{ small := (entries 0 (encoded.zip all.offsets)).1,
            overflow := (entries 0 (encoded.zip all.offsets)).2, storage := all.storage }, ?_, whole⟩
  simp only [layOut, bind_eq_ok, foldlM_cons_eq_ok, foldlM_nil_eq_ok, ensure_eq_ok, pure_eq,
    ok.injEq]
  refine ⟨all, ⟨ascii, first, all, second, rfl⟩, ⟨⟩, ?_, rfl⟩
  rwa [whole]

section Starts

variable {texts : List Text} {start ascii all : Draft}
  (first : packEncoding (texts.map StoredString.encode) ∅ .unpacked start false = ok ascii)
  (second : packEncoding (texts.map StoredString.encode) ∅ .unpacked ascii true = ok all)
  (fits : all.storage.length < 2 ^ 32)

include first second fits

/-- With a string outside ASCII behind the others, every string starts inside. -/
theorem starts_of_wide {wide : Text} (inside : wide ∈ texts) (needs : needsUtf16 wide = true)
    {id offset : Nat} (small : id < texts.length) (recorded : all.offsets[id]? = some offset) :
    offset < all.storage.length := by
  have utf16 := packEncoding_laid second fits
  have asciiFits : ascii.storage.length < 2 ^ 32 := lt_of_le_of_lt utf16.grows.length_le fits
  have narrow := packEncoding_laid first asciiFits
  have found : (texts.map StoredString.encode)[id]? = some (StoredString.encode texts[id]) := by
    rw [List.getElem?_map, List.getElem?_eq_getElem small, map_some]
  cases encoding : needsUtf16 texts[id] with
  | true =>
    have member : id ∈ idsOf (texts.map StoredString.encode) true :=
      mem_idsOf.mpr ⟨_, found, (StoredString.encode_isUtf16 _).trans encoding⟩
    refine start_lt (utf16.stored id member _ found) recorded ?_
    exact mt encode_bytes_eq_nil.mp (needsUtf16_ne_nil encoding)
  | false =>
    have member : id ∈ idsOf (texts.map StoredString.encode) false :=
      mem_idsOf.mpr ⟨_, found, (StoredString.encode_isUtf16 _).trans encoding⟩
    rw [utf16.kept id (idsOf_disjoint member)] at recorded
    have ends := (narrow.stored id member _ found).end_le recorded
    obtain ⟨other, place⟩ := mem_iff_getElem?.mp inside
    have wideFound : (texts.map StoredString.encode)[other]? = some (StoredString.encode wide) := by
      rw [List.getElem?_map, place, map_some]
    have wideMember : other ∈ idsOf (texts.map StoredString.encode) true :=
      mem_idsOf.mpr ⟨_, wideFound, (StoredString.encode_isUtf16 _).trans needs⟩
    obtain ⟨wideOffset, wideRecorded, low, aligned, read⟩ :=
      utf16.stored other wideMember _ wideFound
    have behind : wideOffset < all.storage.length :=
      start_lt ⟨wideOffset, wideRecorded, low, aligned, read⟩ wideRecorded
        (mt encode_bytes_eq_nil.mp (needsUtf16_ne_nil needs))
    omega

/-- When all strings are ASCII, the last one starts where the others end. -/
theorem starts_of_ascii (filled : texts ≠ []) (narrow : ∀ text ∈ texts, needsUtf16 text = false) :
    (∀ id offset, id < texts.length → all.offsets[id]? = some offset →
      offset < all.storage.length) ↔ texts.getLast? ≠ some [] := by
  obtain ⟨front, last, rfl⟩ := (eq_nil_or_concat' texts).resolve_left filled
  have ascii' : ∀ string ∈ (front ++ [last]).map StoredString.encode, string.isUtf16 = false := by
    intro string inside
    obtain ⟨text, member, rfl⟩ := mem_map.mp inside
    exact (StoredString.encode_isUtf16 _).trans (narrow text member)
  have filled' : (front ++ [last]).map StoredString.encode ≠ [] := mt map_eq_nil_iff.mp filled
  have size : ((front ++ [last]).map StoredString.encode).length = front.length + 1 := by
    rw [length_map, length_append, length_singleton]
  have lastFound : ((front ++ [last]).map StoredString.encode)[front.length]? =
      some (StoredString.encode last) := by
    rw [List.getElem?_map, List.getElem?_concat_length, map_some]
  obtain rfl : ascii = all := by
    unfold packEncoding at second
    rw [idsOf_eq_nil ascii', if_pos rfl] at second
    exact ok.inj second
  rw [packEncoding_ascii filled' ascii', size, range_succ, foldlM_append] at first
  obtain ⟨middle, before, step⟩ := bind_eq_ok.mp first
  obtain ⟨_, wrote, rest⟩ := foldlM_cons_eq_ok.mp step
  obtain rfl := foldlM_nil_eq_ok.mp rest
  obtain ⟨inside, string, found, rfl⟩ := fresh_eq_ok wrote
  obtain rfl : StoredString.encode last = string := Option.some.inj (lastFound.symm.trans found)
  rw [length_append] at fits
  have middleFits : middle.storage.length % 2 ^ 32 = middle.storage.length :=
    Nat.mod_eq_of_lt (Nat.lt_of_le_of_lt (Nat.le_add_right _ _) fits)
  have laid : Laid ((front ++ [last]).map StoredString.encode) ∅ (List.range front.length) start
      middle := by
    have encoding : OfEncoding ((front ++ [last]).map StoredString.encode) false
        (List.range front.length) := by
      intro id member
      rw [mem_range] at member
      have source : id < ((front ++ [last]).map StoredString.encode).length := by omega
      exact ⟨_, List.getElem?_eq_getElem source, ascii' _ (getElem_mem source)⟩
    exact freshAll_laid before nodup_range encoding (by omega) (one_dvd _)
  have lastPlace : (middle.offsets.set front.length (middle.storage.length % 2 ^ 32))[front.length]? =
      some middle.storage.length := by
    rw [List.getElem?_set_self inside, middleFits]
  rw [List.getLast?_concat, Ne, Option.some.injEq, ← encode_bytes_eq_nil, ← length_eq_zero_iff]
  dsimp only
  constructor
  · intro startsInside
    have behind := startsInside front.length _ (by simp) lastPlace
    rw [length_append] at behind
    omega
  · intro long id offset small recorded
    rw [length_append]
    by_cases isLast : id = front.length
    · subst isLast
      obtain rfl : middle.storage.length = offset := Option.some.inj (lastPlace.symm.trans recorded)
      omega
    · have early : id ∈ List.range front.length := by
        rw [mem_range]
        rw [length_append, length_singleton] at small
        omega
      rw [List.getElem?_set_ne (Ne.symm isLast)] at recorded
      have source : id < ((front ++ [last]).map StoredString.encode).length := by rwa [length_map]
      have ends := (laid.stored id early _ (List.getElem?_eq_getElem source)).end_le recorded
      omega

/-- Exactly then does every string start inside. -/
theorem starts_inside_iff (filled : texts ≠ []) :
    (∀ id offset, id < texts.length → all.offsets[id]? = some offset →
      offset < all.storage.length) ↔ AllStartInside texts := by
  by_cases wide : ∃ text ∈ texts, needsUtf16 text = true
  · obtain ⟨text, inside, needs⟩ := wide
    refine iff_of_true ?_ (.inl ⟨text, inside, needs⟩)
    intro id offset small recorded
    exact starts_of_wide first second fits inside needs small recorded
  · have narrow : ∀ text ∈ texts, needsUtf16 text = false := by
      intro text inside
      exact Bool.not_eq_true _ ▸ fun needs => wide ⟨text, inside, needs⟩
    rw [starts_of_ascii first second fits filled narrow]
    exact ⟨.inr, fun either => either.resolve_left wide⟩

end Starts

/-- Entries whose records exist decode, to texts or to placeholders. -/
theorem decodeEntries_of_resolves {overflow : List (Nat × Nat)} {storage : Bytes} (i : Nat)
    {rows : List (Nat × StringKindType)}
    (resolves : ∀ row ∈ rows, ∃ loc, resolveLoc overflow row.1 = some loc) :
    ∃ strings invalid, decodeEntries overflow storage i rows = ok (strings, invalid) := by
  induction rows generalizing i with
  | nil => exact ⟨[], 0, rfl⟩
  | cons row rows ih =>
    obtain ⟨word, kind⟩ := row
    obtain ⟨loc, here⟩ := resolves _ mem_cons_self
    obtain ⟨strings, invalid, rest⟩ := ih (i + 1) fun other inside =>
      resolves other (mem_cons_of_mem _ inside)
    simp only [resolveLoc, Option.pure_def, Option.bind_eq_bind, Option.bind_eq_some_iff] at here
    obtain ⟨pair, resolved, -⟩ := here
    unfold decodeEntries
    dsimp only
    rw [resolved, ofOption, ok_bind, rest]
    exact ⟨_, _, rfl⟩

/-- The texts that a parser reads from tables, whatever the kinds are. -/
theorem decodeStringTable_values {texts : List Text} {small : List Nat}
    {overflow : List (Nat × Nat)} {storage : Bytes} (kinds : List StringKindEntry)
    (size : small.length = texts.length)
    (located : ∀ id < texts.length, ∃ loc, locate small overflow id = some loc) :
    ∃ strings invalid, decodeStringTable texts.length kinds small overflow storage =
        ok (strings, invalid) ∧
      strings.length = texts.length ∧
      ∀ id loc, locate small overflow id = some loc → (strings[id]?).map (·.value) =
        some ((decodeString storage loc.isUtf16 loc.storageOff loc.lenField).getD
          (invalidString loc.isUtf16)) := by
  have count : min texts.length small.length = texts.length := by rw [size, Nat.min_self]
  have kindCount : (stringKindsOf kinds texts.length).length = small.length := by
    rw [stringKindsOf, expandKinds_length, size]
  unfold decodeStringTable
  simp only [count]
  rw [take_of_length_le (le_of_eq size)]
  generalize expanded : stringKindsOf kinds texts.length = all at kindCount
  have resolves : ∀ row ∈ small.zip all, ∃ loc, resolveLoc overflow row.1 = some loc := by
    intro row inside
    obtain ⟨id, found⟩ := mem_iff_getElem?.mp inside
    have word := (List.getElem?_zip_eq_some.mp found).1
    have present : id < texts.length := by
      rw [← size]
      exact (List.getElem?_eq_some_iff.mp word).1
    obtain ⟨loc, there⟩ := located id present
    rw [locate_eq, word, bind_some] at there
    exact ⟨loc, there⟩
  obtain ⟨strings, invalid, decoded⟩ := @decodeEntries_of_resolves _ storage 0 _ resolves
  obtain ⟨locs, found, rfl, -⟩ := decodeEntries_eq_ok decoded
  have locCount : locs.length = small.length := by
    rw [← found.length_eq, length_zip, kindCount, Nat.min_self]
  refine ⟨_, invalid, decoded, ?_, ?_⟩
  · rw [length_map, length_zip, length_map, length_zip, kindCount, locCount, size]
    simp
  · intro id loc there
    rw [locate_eq, bind_eq_some_iff] at there
    obtain ⟨word, place, here⟩ := there
    have inside : id < small.length := (List.getElem?_eq_some_iff.mp place).1
    have kind : all[id]? = some all[id] := List.getElem?_eq_getElem (by rwa [kindCount])
    have row : (small.zip all)[id]? = some (word, all[id]) :=
      List.getElem?_zip_eq_some.mpr ⟨place, kind⟩
    have locPlace : locs[id]? = some locs[id] := List.getElem?_eq_getElem (by rwa [locCount])
    have same := found.get (List.getElem?_eq_some_iff.mp row).1 (by rwa [locCount])
    rw [get_eq_getElem, get_eq_getElem,
      (List.getElem?_eq_some_iff.mp row).2, here, Option.some.injEq] at same
    have kindPlace : ((small.zip all).map (·.2))[id]? = some all[id] := by
      rw [List.getElem?_map, row, map_some]
    have both : (locs.zip ((small.zip all).map (·.2)))[id]? = some (locs[id], all[id]) :=
      List.getElem?_zip_eq_some.mpr ⟨locPlace, kindPlace⟩
    rw [List.getElem?_map, both, map_some, map_some, ← same]
    rfl

/-- A stored text is read back exactly when it starts inside the storage: at its end even an empty
one is refused. -/
theorem value_eq_iff {storage : Bytes} {loc : StrLoc} {text : Text}
    (encoding : loc.isUtf16 = needsUtf16 text)
    (read : Bytes.slice storage loc.storageOff (byteLen loc) = some (StoredString.encode text).bytes) :
    (decodeString storage loc.isUtf16 loc.storageOff loc.lenField).getD
        (invalidString loc.isUtf16) = text ↔ loc.storageOff < storage.length := by
  obtain ⟨fits, taken⟩ := Bytes.slice_eq_some.mp read
  rw [decodeString_eq]
  by_cases inside : loc.storageOff < storage.length
  · refine iff_of_true ?_ inside
    have known := text_encode text
    unfold StoredString.text at known
    rw [StoredString.encode_isUtf16, ← encoding] at known
    rw [if_pos ⟨inside, fits⟩, getD_some, taken, known]
  · refine iff_of_false ?_ inside
    have empty : text = [] := by
      refine encode_bytes_eq_nil.mp (length_eq_zero_iff.mp ?_)
      rw [← Bytes.slice_length read] at fits
      omega
    rw [if_neg fun both => inside both.1, getD_none, empty]
    unfold invalidString
    cases loc.isUtf16 with
    | false => exact cons_ne_nil _ _
    | true => exact cons_ne_nil _ _

/-- The strings of a created image read back exactly when they all start inside the storage. -/
theorem created_decode_iff {texts : List Text} {tables : StringLayout}
    (laid : createStringTables texts = ok tables) (filled : texts ≠ [])
    (few : tables.overflow.length ≤ 2 ^ 23) (kinds : List StringKindEntry) :
    ∃ strings invalid, decodeStringTable texts.length kinds tables.small tables.overflow
        tables.storage = ok (strings, invalid) ∧
      (strings.map (·.value) = texts ↔ AllStartInside texts) := by
  have sized := layOut_wellSized laid
  obtain ⟨ascii, all, first, second, fits, rfl⟩ := layOut_passes laid
  have utf16 := packEncoding_laid second fits
  have asciiFits : ascii.storage.length < 2 ^ 32 := lt_of_le_of_lt utf16.grows.length_le fits
  have whole := (packEncoding_laid first asciiFits).trans utf16 idsOf_disjoint
  have locations : ∀ id text, texts[id]? = some text →
      ∃ loc, locate (entries 0 ((texts.map StoredString.encode).zip all.offsets)).1
          (entries 0 ((texts.map StoredString.encode).zip all.offsets)).2 id = some loc ∧
        all.offsets[id]? = some loc.storageOff ∧ loc.isUtf16 = needsUtf16 text ∧
        Bytes.slice all.storage loc.storageOff (byteLen loc) =
          some (StoredString.encode text).bytes := by
    intro id text here
    have found : (texts.map StoredString.encode)[id]? = some (StoredString.encode text) := by
      rw [List.getElem?_map, here, map_some]
    have known : id ∈ idsOf (texts.map StoredString.encode) false ++
        idsOf (texts.map StoredString.encode) true := by
      rw [mem_append, mem_idsOf, mem_idsOf]
      cases encoding : (StoredString.encode text).isUtf16 with
      | false => exact .inl ⟨_, found, encoding⟩
      | true => exact .inr ⟨_, found, encoding⟩
    have stored := whole.stored id known _ found
    obtain ⟨loc, located, recorded, -, encoding, size⟩ := located_of_stored few fits found stored
    obtain ⟨offset, recorded', -, -, read⟩ := stored
    obtain rfl : loc.storageOff = offset := Option.some.inj (recorded.symm.trans recorded')
    exact ⟨loc, located, recorded, encoding.trans (StoredString.encode_isUtf16 text), size ▸ read⟩
  have located : ∀ id < texts.length, ∃ loc,
      locate (entries 0 ((texts.map StoredString.encode).zip all.offsets)).1
        (entries 0 ((texts.map StoredString.encode).zip all.offsets)).2 id = some loc := by
    intro id inside
    obtain ⟨loc, found, -⟩ := locations id _ (List.getElem?_eq_getElem inside)
    exact ⟨loc, found⟩
  obtain ⟨strings, invalid, decoded, count, values⟩ := decodeStringTable_values kinds
    (sized.small.trans (length_map _)) located
  refine ⟨strings, invalid, decoded, ?_⟩
  rw [← starts_inside_iff first second fits filled]
  constructor
  · intro same id offset inside recorded
    obtain ⟨loc, found, recorded', encoding, read⟩ :=
      locations id _ (List.getElem?_eq_getElem inside)
    obtain rfl : loc.storageOff = offset := Option.some.inj (recorded'.symm.trans recorded)
    refine (value_eq_iff encoding read).mp ?_
    have value := values id loc found
    rw [← List.getElem?_map, same, List.getElem?_eq_getElem inside, Option.some.injEq] at value
    exact value.symm
  · intro startInside
    refine ext_getElem? fun id => ?_
    by_cases inside : id < texts.length
    · obtain ⟨loc, found, recorded, encoding, read⟩ :=
        locations id _ (List.getElem?_eq_getElem inside)
      rw [List.getElem?_map, values id loc found, List.getElem?_eq_getElem inside,
        (value_eq_iff encoding read).mpr (startInside id _ inside recorded)]
    · rw [List.getElem?_eq_none (Nat.le_of_not_lt inside), List.getElem?_eq_none]
      rw [length_map, count]
      exact Nat.le_of_not_lt inside

end HermesDecomp.Create
