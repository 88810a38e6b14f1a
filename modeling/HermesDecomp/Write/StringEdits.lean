import HermesDecomp.Write.Frame
import HermesDecomp.Write.Strings

/-!
# The string tables after an edit

On an image whose regions are its own, the bytes that an edit does not mean to
change stay what they are, so the tables of the new image are the old ones or the
rebuilt ones.
-/

namespace HermesDecomp.Parser

open Bytes List

/-- The same words are not two lists. -/
theorem Words.unique {left right : Bytes} {start count : Nat} {values others : List Nat}
    (found : Words left start count values) (also : Words right start count others)
    (same : ∀ index < count, u32At right (start + index * 4) = u32At left (start + index * 4)) :
    others = values := by
  refine ext_getElem (also.1.trans found.1.symm) fun index inOthers inValues => ?_
  have first := found.2 index _ (List.getElem?_eq_getElem inValues)
  have second := also.2 index _ (List.getElem?_eq_getElem inOthers)
  rw [same index (found.1 ▸ inValues), first] at second
  exact (Option.some.inj second).symm

/-- The same records are not two lists. -/
theorem Pairs.unique {left right : Bytes} {start count : Nat} {values others : List (Nat × Nat)}
    (found : Pairs left start count values) (also : Pairs right start count others)
    (same : ∀ index < count, u32At right (start + index * 8) = u32At left (start + index * 8) ∧
      u32At right (start + index * 8 + 4) = u32At left (start + index * 8 + 4)) :
    others = values := by
  refine ext_getElem (also.1.trans found.1.symm) fun index inOthers inValues => ?_
  obtain ⟨first, second⟩ := found.2 index _ (List.getElem?_eq_getElem inValues)
  obtain ⟨third, fourth⟩ := also.2 index _ (List.getElem?_eq_getElem inOthers)
  obtain ⟨same, same'⟩ := same index (found.1 ▸ inValues)
  rw [same, first] at third
  rw [same', second] at fourth
  exact Prod.ext (Option.some.inj third).symm (Option.some.inj fourth).symm

end HermesDecomp.Parser

namespace HermesDecomp.Strings

open Bytes HermesDecomp.Parser List

/-- A part between two others is the slice after the first one. -/
theorem slice_middle (before part after : Bytes) :
    slice (before ++ part ++ after) before.length part.length = some part :=
  slice_of_prefix (prefix_append _ _) (slice_appended before part)

theorem u32At_middle (before after : Bytes) {value : Nat} (fits : value < 2 ^ 32) :
    u32At (before ++ leBytes 4 value ++ after) before.length = some value := by
  have read := slice_middle before (leBytes 4 value) after
  rw [leBytes_length] at read
  rw [u32At, read, Option.map_some, leNat_leBytes_of_lt fits]

@[simp] theorem u32Bytes_length (values : List Nat) : (u32Bytes values).length = values.length * 4 := by
  induction values with
  | nil => rfl
  | cons value values ih =>
    rw [u32Bytes, flatMap_cons, length_append, leBytes_length, length_cons]
    unfold u32Bytes at ih
    omega

@[simp] theorem recordBytes_length (records : List (Nat × Nat)) :
    (recordBytes records).length = records.length * 8 := by
  induction records with
  | nil => rfl
  | cons record records ih =>
    rw [recordBytes, flatMap_cons, length_append, length_append, leBytes_length,
      leBytes_length, length_cons]
    unfold recordBytes at ih
    omega

/-- Numbers written in a row are read back in a row. -/
theorem words_written (before after : Bytes) {values : List Nat}
    (fit : ∀ value ∈ values, value < 2 ^ 32) :
    Words (before ++ u32Bytes values ++ after) before.length values.length values := by
  refine ⟨rfl, ?_⟩
  induction values generalizing before with
  | nil => simp
  | cons first values ih =>
    obtain ⟨firstFits, restFit⟩ := forall_mem_cons.mp fit
    intro index value found
    have split : before ++ u32Bytes (first :: values) ++ after =
        before ++ leBytes 4 first ++ u32Bytes values ++ after := by
      simp [u32Bytes]
    rw [split]
    cases index with
    | zero =>
      obtain rfl : first = value := Option.some.inj found
      rw [zero_mul, add_zero, append_assoc]
      exact u32At_middle _ _ firstFits
    | succ index =>
      have later := ih (before ++ leBytes 4 first) restFit index value
        (by simpa using found)
      rw [length_append, leBytes_length] at later
      rwa [show before.length + (index + 1) * 4 = before.length + 4 + index * 4 by ring]

/-- Records written in a row are read back in a row. -/
theorem pairs_written (before after : Bytes) {records : List (Nat × Nat)}
    (fit : ∀ record ∈ records, record.1 < 2 ^ 32 ∧ record.2 < 2 ^ 32) :
    Pairs (before ++ recordBytes records ++ after) before.length records.length records := by
  refine ⟨rfl, ?_⟩
  induction records generalizing before with
  | nil => simp
  | cons first records ih =>
    obtain ⟨firstFits, restFit⟩ := forall_mem_cons.mp fit
    intro index record found
    have split : before ++ recordBytes (first :: records) ++ after =
        before ++ leBytes 4 first.1 ++ leBytes 4 first.2 ++ recordBytes records ++ after := by
      simp [recordBytes]
    rw [split]
    cases index with
    | zero =>
      obtain rfl : first = record := Option.some.inj found
      rw [zero_mul, add_zero]
      constructor
      · simp only [append_assoc]
        rw [← append_assoc before]
        exact u32At_middle _ _ firstFits.1
      · have second := u32At_middle (before ++ leBytes 4 first.1) (recordBytes records ++ after)
          firstFits.2
        rw [length_append, leBytes_length, ← append_assoc] at second
        exact second
    | succ index =>
      have later := ih (before ++ leBytes 4 first.1 ++ leBytes 4 first.2) restFit
        index record (by simpa using found)
      rw [length_append, length_append, leBytes_length, leBytes_length] at later
      rwa [show before.length + (index + 1) * 8 = before.length + 4 + 4 + index * 8 by ring]

open Bytes Outcome Serialize StringStorage HermesDecomp.Parser

/-- The string region of an image shares no bytes with the footer or with a large
function header, it has a hash slot for every identifier, and the image stays below
4 GiB when each string gets a record of its own. -/
structure Tidy (bytes : Bytes) (file : BytecodeFile) : Prop where
  room : bytes.length + 8 * (file.header.stringCount + 3) < 2 ^ 32
  footer : buffersStart file.header + Footer.footerLen ≤ bytes.length
  counted : identifiersIn file.strings ≤ file.header.identifierCount
  large : ∀ layout, Reloc.layoutOf file.header = .ok layout →
    ∀ id < file.functionHeaders.length,
      Reloc.LargePast (buffersStart file.header) layout headerSize bytes id

instance (bytes : Bytes) (file : BytecodeFile) : Decidable (Tidy bytes file) :=
  decidable_of_iff (bytes.length + 8 * (file.header.stringCount + 3) < 2 ^ 32 ∧
      buffersStart file.header + Footer.footerLen ≤ bytes.length ∧
      identifiersIn file.strings ≤ file.header.identifierCount ∧
      ∀ layout, Reloc.layoutOf file.header = .ok layout →
        ∀ id < file.functionHeaders.length,
          Reloc.LargePast (buffersStart file.header) layout headerSize bytes id)
    ⟨fun ⟨room, footer, counted, large⟩ => ⟨room, footer, counted, large⟩,
      fun tidy => ⟨tidy.room, tidy.footer, tidy.counted, tidy.large⟩⟩

/-- A tidy image and the file it parses to. -/
structure TidyImage (sha1 : Sha1) where
  bytes : Bytes
  file : BytecodeFile
  parsed : parseAuto sha1 bytes = .ok file
  tidy : Tidy bytes file

section Places

variable (header : BytecodeHeader)

/-- The string sections follow the function headers in order. -/
theorem places_le : headerSize + header.functionCount * slotSizeOf header.functionHeaderLayout ≤
      kindsStart header ∧ kindsStart header ≤ hashesStart header ∧
    hashesStart header ≤ smallStart header ∧ smallStart header ≤ overflowStart header ∧
    overflowStart header ≤ storageStart header ∧
    storageStart header + header.stringStorageSize ≤ buffersStart header :=
  ⟨le_align4 _, Nat.le_add_right _ _, Nat.le_add_right _ _, Nat.le_add_right _ _,
    Nat.le_add_right _ _, le_align4 _⟩

theorem slotSize_eq {layout : Option ModernLayout} (known : Reloc.layoutOf header = .ok layout) :
    Reloc.slotSize layout = slotSizeOf header.functionHeaderLayout := by
  unfold Reloc.layoutOf at known
  cases shape : header.functionHeaderLayout with
  | legacy16 =>
    rw [shape] at known
    cases known
    rfl
  | modern12 =>
    rw [shape] at known
    obtain ⟨layout, -, rfl⟩ := map_eq_ok.mp known
    rfl

end Places

namespace TidyImage

variable {sha1 : Sha1} (image : TidyImage sha1)

theorem region : StringRegion image.bytes image.file := parseAuto_region image.parsed

theorem buffers_le : buffersStart image.file.header ≤ image.bytes.length :=
  Nat.le_trans (Nat.le_add_right _ _) image.tidy.footer

theorem buffers_lt : buffersStart image.file.header < 2 ^ 32 := by
  have footer := image.tidy.footer
  have room := image.tidy.room
  omega

theorem storage_lt : storageStart image.file.header < 2 ^ 32 := by
  have buffers := image.buffers_lt
  have places := places_le image.file.header
  omega

theorem offset {name : SectionName} {pos : Nat}
    (inside : (name, pos) ∈ commonPlaces image.file.header) :
    image.file.sectionOffset name = some pos := by
  have places := places_le image.file.header
  have buffers := image.buffers_lt
  rw [image.region.places name pos inside, Nat.mod_eq_of_lt]
  simp only [commonPlaces, mem_cons, Prod.mk.injEq, not_mem_nil, or_false] at inside
  omega

theorem sectionOf_eq {name : SectionName} {pos : Nat} (title : String)
    (inside : (name, pos) ∈ commonPlaces image.file.header) :
    sectionOf image.file name title = .ok pos := by
  rw [sectionOf, image.offset inside]
  rfl

theorem hashesOf : sectionOf image.file .identifierHashes "identifier_hashes" =
    .ok (hashesStart image.file.header) := image.sectionOf_eq _ (by simp [commonPlaces])

theorem smallOf : sectionOf image.file .smallStringTable "small_string_table" =
    .ok (smallStart image.file.header) := image.sectionOf_eq _ (by simp [commonPlaces])

theorem storageOf : sectionOf image.file .stringStorage "string_storage" =
    .ok (storageStart image.file.header) := image.sectionOf_eq _ (by simp [commonPlaces])

theorem kindsOf : sectionOf image.file .stringKinds "string_kinds" =
    .ok (kindsStart image.file.header) := image.sectionOf_eq _ (by simp [commonPlaces])

theorem postStringSection_eq : postStringSection image.file = .ok (buffersStart image.file.header) := by
  rw [postStringSection, image.region.buffers, Nat.mod_eq_of_lt image.buffers_lt]
  rfl

theorem rawOf_eq : rawOf image.file = .ok image.bytes := by
  rw [rawOf, image.region.raw]
  rfl

theorem functions_eq : image.file.functionHeaders.length = image.file.header.functionCount := by
  obtain ⟨tables, found, functions, -⟩ := image.region.tables
  rw [functions, found.functions]

/-- Finalizing does not touch the string region. -/
theorem unsealed {index : Nat} (low : kindsStart image.file.header ≤ index)
    (high : index < buffersStart image.file.header) : ¬ Sealed image.bytes.length index := by
  have places := places_le image.file.header
  have footer := image.tidy.footer
  unfold Sealed
  unfold headerSize at places
  unfold Footer.footerLen at footer
  omega

/-- The hash slot of an identifier is inside the table of hashes. -/
theorem identifierIndex_lt {id index : Nat} (found : identifierIndex image.file id = some index) :
    index < image.file.header.identifierCount := by
  unfold identifierIndex at found
  split at found
  next entry present =>
    split at found
    next isIdentifier =>
      cases found
      obtain ⟨inside, rfl⟩ := List.getElem?_eq_some_iff.mp present
      refine lt_of_lt_of_le ?_ image.tidy.counted
      have split : identifiersIn image.file.strings =
          identifiersIn (image.file.strings.take id) +
            identifiersIn (image.file.strings.drop id) := by
        unfold identifiersIn
        rw [← countP_append, take_append_drop]
      rw [split, drop_eq_getElem_cons inside, identifiersIn, identifiersIn,
        countP_cons_of_pos isIdentifier]
      omega
    · simp at found
  · simp at found

/-- Rewriting an identifier's hash touches one slot of the table of hashes. -/
theorem updateIdentifierHash_unchanged {buf after : Bytes} {id : Nat} {newValue : Text}
    (ran : updateIdentifierHash image.file buf id newValue = .ok after) :
    Unchanged buf after fun index =>
      hashesStart image.file.header ≤ index ∧ index < smallStart image.file.header := by
  unfold updateIdentifierHash at ran
  split at ran
  · cases ran
    exact Unchanged.refl _ _
  next slot found =>
    rw [image.hashesOf, ok_bind] at ran
    obtain ⟨_, -, written⟩ := bind_eq_ok.mp ran
    have inside := image.identifierIndex_lt found
    refine (Buffer.writeU32_unchanged written).mono fun index hit => ?_
    unfold smallStart
    omega

/-- The tables of a tidy image are in view. -/
theorem exists_view : ∃ tables locs, View image.bytes image.file tables locs :=
  StringStorage.exists_view image.region image.storage_lt

end TidyImage

/-- Numbers stay where their bytes stay. -/
theorem words_moved {base out : Bytes} {start count : Nat} {values : List Nat}
    (wrote : Words base start count values) (inBase : start + count * 4 ≤ base.length)
    (inOut : start + count * 4 ≤ out.length)
    (same : ∀ index, start ≤ index → index < start + count * 4 → out[index]? = base[index]?) :
    Words out start count values := by
  refine ⟨wrote.1, fun index value present => ?_⟩
  have inside : index < count := by
    rw [← wrote.1]
    exact (List.getElem?_eq_some_iff.mp present).1
  rw [← wrote.2 index value present, u32At, u32At,
    @slice_congr out base (start + index * 4) (start + index * 4) 4 (by omega) (by omega)
      fun offset bounded => same _ (by omega) (by omega)]

section Reading

variable {base out : Bytes} {touched : Nat → Prop} (kept : Unchanged base out touched)

include kept

section

variable {start count : Nat}
  (free : ∀ index, start ≤ index → index < start + count * 4 → ¬ touched index)

include free

/-- Numbers in an untouched range stay. -/
theorem keep_words {values : List Nat} (wrote : Words base start count values) :
    Words out start count values := by
  refine ⟨wrote.1, fun index value present => ?_⟩
  have inside : index < count := by
    rw [← wrote.1]
    exact (List.getElem?_eq_some_iff.mp present).1
  rw [kept.u32At_eq fun position low high => free position (by omega) (by omega)]
  exact wrote.2 index value present

/-- Numbers in an untouched range are read as they were written. -/
theorem read_words {values found : List Nat} (wrote : Words base start count values)
    (read : Words out start count found) : found = values :=
  (keep_words kept free wrote).unique read fun _ _ => rfl

end

/-- Records in an untouched range are read as they were written. -/
theorem read_pairs {start count : Nat} {values found : List (Nat × Nat)}
    (free : ∀ index, start ≤ index → index < start + count * 8 → ¬ touched index)
    (wrote : Pairs base start count values) (read : Pairs out start count found) :
    found = values := by
  refine wrote.unique read fun index inside => ⟨?_, ?_⟩
  · exact kept.u32At_eq fun position low high => free position (by omega) (by omega)
  · exact kept.u32At_eq fun position low high => free position (by omega) (by omega)

end Reading

/-- The same entries resolve to the same locations. -/
theorem resolves_unique {overflow : List (Nat × Nat)} {small : List Nat} {locs others : List StrLoc}
    (first : List.Forall₂ (fun word loc => resolveLoc overflow word = some loc) small locs)
    (second : List.Forall₂ (fun word loc => resolveLoc overflow word = some loc) small others) :
    others = locs := by
  induction first generalizing others with
  | nil =>
    cases second
    rfl
  | cons resolves _ ih =>
    rcases second with _ | ⟨also, rest⟩
    rw [ih rest, Option.some.inj (also.symm.trans resolves)]

/-- The hashes of a file after one of its strings got a new text. -/
def hashesAfter (file : BytecodeFile) (id : Nat) (newValue : Text) : List Nat :=
  match identifierIndex file id with
  | some slot => file.identifierHashes.set slot (hermesIdentifierHash newValue)
  | none => file.identifierHashes

theorem hermesIdentifierHash_lt (text : Text) : hermesIdentifierHash text < 2 ^ 32 :=
  UInt32.toNat_lt _

/-- Rewriting an identifier's hash sets its slot. -/
theorem updateIdentifierHash_words {sha1 : Sha1} (image : TidyImage sha1) {buf after : Bytes}
    {id count : Nat} {newValue : Text}
    (words : Words buf (hashesStart image.file.header) count image.file.identifierHashes)
    (ran : updateIdentifierHash image.file buf id newValue = .ok after) :
    Words after (hashesStart image.file.header) count (hashesAfter image.file id newValue) := by
  unfold updateIdentifierHash at ran
  unfold hashesAfter
  split at ran
  next absent =>
    cases ran
    rw [absent]
    exact words
  next slot found =>
    rw [image.hashesOf, ok_bind] at ran
    obtain ⟨_, inside, written⟩ := bind_eq_ok.mp ran
    have room := ensure_eq_ok.mp inside
    obtain ⟨bounded, rfl⟩ := Buffer.write_eq_ok.mp written
    rw [found]
    refine ⟨by rw [length_set, words.1], fun index value present => ?_⟩
    rw [List.getElem?_set] at present
    by_cases same : slot = index
    · subst same
      rw [if_pos rfl] at present
      split at present
      · cases present
        rw [u32At_overwrite_self room, Nat.mod_eq_of_lt (hermesIdentifierHash_lt _)]
      · simp at present
    · rw [if_neg same] at present
      rw [u32At_overwrite_of_disjoint bounded (by rw [leBytes_length]; omega)]
      exact words.2 index value present

end HermesDecomp.Strings
