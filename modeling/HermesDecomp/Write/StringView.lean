import HermesDecomp.File.StringTables
import HermesDecomp.Write.Serialize
import HermesDecomp.Write.StringStorage

/-!
# One entry, two readers

The parser and the write path read a string entry through the same tables, but
only the parser asks whether its range lies in storage. Where it does, the parsed
text is the decoded text of the stored bytes; where it does not, the parsed text
is a placeholder.
-/

namespace HermesDecomp.StringStorage

open Outcome Serialize

/-- A section that a string operation needs. -/
def sectionOf (file : BytecodeFile) (name : SectionName) (title : String) : Result Nat :=
  .ofOption (.write s!"{title} section missing") (file.sectionOffset name)

/-- The overflow record at an index of the table at `base`. -/
def overflowRecordAt (raw : Bytes) (base index : Nat) : Option (Nat × Nat) := do
  let offset ← Bytes.u32At raw (base + index * 8)
  let length ← Bytes.u32At raw (base + index * 8 + 4)
  pure (offset, length)

/-- The overflow records of a file, from its bytes. -/
def overflowRecords (file : BytecodeFile) (raw : Bytes) : Result (List (Nat × Nat)) :=
  match file.sectionOffset .overflowStringTable with
  | some base => (List.range file.header.overflowStringCount).mapM fun index =>
      .ofOption (.write "overflow string table OOB") (overflowRecordAt raw base index)
  | none =>
      if file.header.overflowStringCount = 0 then pure []
      else .err (.write "overflow string table missing")

/-- The location of string `id`, from the small table at `smallOff`. -/
def readLoc (raw : Bytes) (smallOff : Nat) (overflow : List (Nat × Nat)) (id : Nat) :
    Result StrLoc := do
  let word ← .ofOption (.write "small string table OOB") (Bytes.u32At raw (smallOff + id * 4))
  let entry := SmallStringEntry.decode word
  let record := entry.offset
  let (storageOff, lenField) ← .ofOption
    (.write s!"string {id}: overflow record {record} missing") (entry.resolve overflow)
  pure { storageOff, lenField, isUtf16 := entry.isUtf16 }

/-- The location of every string of a file. -/
def readAllStringLocs (file : BytecodeFile) : Result (List StrLoc) := do
  let raw ← rawOf file
  let smallOff ← sectionOf file .smallStringTable "small_string_table"
  let overflow ← overflowRecords file raw
  (List.range file.strings.length).mapM (readLoc raw smallOff overflow)

/-- The string at a location, when its bytes are there. -/
def storedAt (raw : Bytes) (storageOff : Nat) (loc : StrLoc) : Option StoredString :=
  match found : Bytes.slice raw (storageOff + loc.storageOff) (byteLen loc) with
  | some bytes => some {
      bytes
      lenField := loc.lenField % 2 ^ 32
      isUtf16 := loc.isUtf16
      whole := by rw [Bytes.slice_length found, byteLen, Nat.mul_mod_left]
      counted := by rw [Bytes.slice_length found, byteLen, Nat.mul_div_cancel _ (unitSize_pos _)] }
  | none => none

/-- Every string of a file as it is stored, read through the file's own tables. -/
def currentStrings (file : BytecodeFile) : Result (List StoredString) := do
  let raw ← rawOf file
  let storageOff ← sectionOf file .stringStorage "string_storage"
  let locs ← readAllStringLocs file
  locs.mapM fun loc => .ofOption (.write "string storage OOB") (storedAt raw storageOff loc)

/-- A character inside a quoted text. -/
def quoteChar (c : Char) : String :=
  if c = '"' then "\\\"" else if c = '\\' then "\\\\" else if c = '\n' then "\\n"
  else if c = '\r' then "\\r" else if c = '\t' then "\\t" else if c.toNat = 0 then "\\0"
  else if c.toNat < 32 ∨ c.toNat = 127 then
    let code := Parser.hex c.toNat
    s!"\\u\x7b{code}\x7d"
  else String.ofList [c]

/-- A text in quotes. -/
def quote (text : Text) : String := "\"" ++ String.join (text.map quoteChar) ++ "\""

/-- The error of an entry that does not read back. -/
def readBackError (id : Nat) (got expected : StoredString) : Error :=
  let gotText := quote (Utf.fromUtf8Lossy got.bytes)
  let gotUtf16 := got.isUtf16
  let gotLen := got.lenField
  let expectedText := quote (Utf.fromUtf8Lossy expected.bytes)
  let expectedUtf16 := expected.isUtf16
  let expectedLen := expected.lenField
  .write s!"string validation: entry {id} reads back as {gotText} (utf16={gotUtf16}, len={gotLen}) but should be {expectedText} (utf16={expectedUtf16}, len={expectedLen})"

/-- The first entry from `id` on that does not read back. -/
def firstMismatch : (id : Nat) → List (StoredString × StoredString) →
    Option (Nat × StoredString × StoredString)
  | _, [] => none
  | id, (got, expected) :: rest =>
      if got = expected then firstMismatch (id + 1) rest else some (id, got, expected)

/-- Whether an entry's bytes, which are some, meet a range. -/
def meets (loc : StrLoc) (start finish : Nat) : Bool :=
  loc.storageOff < loc.storageOff + byteLen loc && loc.storageOff < finish &&
    start < loc.storageOff + byteLen loc

/-- A pinned entry that reads some bytes must be the only one that reads them. -/
def checkPinned (locs : List StrLoc) (id : Nat) : Result PUnit := do
  let own ← index locs id
  if byteLen own = 0 then pure ⟨⟩
  else
    match (List.range locs.length).find? fun other => other != id &&
        (locs[other]?.any (meets · own.storageOff (own.storageOff + byteLen own))) with
    | some other =>
        .err (.write s!"string validation: pinned entry {id} shares storage with entry {other}")
    | none => pure ⟨⟩

/-- Every pinned entry must own its bytes. -/
def checkAllPinned (after : BytecodeFile) (pinned : List Nat) : Result PUnit :=
  if pinned = [] then pure ⟨⟩
  else do
    let locs ← readAllStringLocs after
    pinned.forM (checkPinned locs)

/-- Every entry of a new image must read back as expected. -/
def validate (expected : List StoredString) (pinned : List Nat) (after : BytecodeFile) :
    Result PUnit := do
  let got ← currentStrings after
  let written := got.length
  let wanted := expected.length
  .ensure (written = wanted)
    (.write s!"string validation: {written} entries written, {wanted} expected")
  match firstMismatch 0 (got.zip expected) with
  | some (id, got, expected) => .err (readBackError id got expected)
  | none => checkAllPinned after pinned

/-- Two lists of one length without a mismatch are one list. -/
theorem firstMismatch_eq_none {id : Nat} {got expected : List StoredString}
    (length : got.length = expected.length) (found : firstMismatch id (got.zip expected) = none) :
    got = expected := by
  induction got generalizing expected id with
  | nil => exact (List.length_eq_zero_iff.mp length.symm).symm
  | cons first got ih =>
    cases expected with
    | nil => simp at length
    | cons second expected =>
      rw [List.zip_cons_cons, firstMismatch] at found
      split at found
      next same => rw [same, ih (by simpa using length) found]
      · simp at found

/-- An image that passes the check stores exactly the expected strings. -/
theorem validate_eq_ok {expected : List StoredString} {pinned : List Nat} {after : BytecodeFile}
    {done : PUnit} (passed : validate expected pinned after = .ok done) :
    currentStrings after = .ok expected := by
  obtain ⟨got, read, rest⟩ := bind_eq_ok.mp passed
  obtain ⟨_, length, rest⟩ := bind_eq_ok.mp rest
  split at rest
  · simp at rest
  next none => rw [read, firstMismatch_eq_none (ensure_eq_ok.mp length) none]

open Outcome Serialize HermesDecomp.Parser

/-- The location that the word of a small entry stands for. -/
def resolveLoc (overflow : List (Nat × Nat)) (word : Nat) : Option StrLoc := do
  let entry := SmallStringEntry.decode word
  let (storageOff, lenField) ← entry.resolve overflow
  pure { storageOff, lenField, isUtf16 := entry.isUtf16 }

theorem locate_eq (small : List Nat) (overflow : List (Nat × Nat)) (id : Nat) :
    locate small overflow id = small[id]?.bind (resolveLoc overflow) := by
  unfold locate resolveLoc
  cases small[id]? <;> rfl

/-- The parser reads the range of an entry: it starts before the end of storage and
ends inside it. -/
def Inside (size : Nat) (loc : StrLoc) : Prop :=
  loc.storageOff < size ∧ loc.storageOff + byteLen loc ≤ size

instance (size : Nat) (loc : StrLoc) : Decidable (Inside size loc) :=
  inferInstanceAs (Decidable (_ ∧ _))

/-- The text of a stored string. -/
def StoredString.text (stored : StoredString) : Text :=
  if stored.isUtf16 then Utf.fromUtf16Lossy (Utf.units stored.bytes)
  else Utf.fromUtf8Lossy stored.bytes

/-- What the parser makes of an entry. -/
def entryOf (storage : Bytes) (loc : StrLoc) (kind : StringKindType) : StringTableEntry where
  value := (decodeString storage loc.isUtf16 loc.storageOff loc.lenField).getD
    (invalidString loc.isUtf16)
  isUtf16 := loc.isUtf16
  isIdentifier := kind == .identifier

/-- A stored text reads back as itself. -/
theorem text_encode (value : Text) : (StoredString.encode value).text = value := by
  unfold StoredString.text StoredString.encode
  split
  next wide =>
    rw [if_pos rfl, Utf.units_unitBytes fun unit inside => Utf.encodeUtf16_lt inside,
      Utf.fromUtf16Lossy_encodeUtf16]
  next narrow =>
    rw [if_neg Bool.false_ne_true]
    refine Utf.fromUtf8Lossy_ascii fun c inside => ?_
    by_contra wide
    refine narrow (List.any_eq_true.mpr ⟨c, inside, ?_⟩)
    exact decide_eq_true (by omega)

/-- The parser's range test is exactly this one. -/
theorem decodeString_eq (storage : Bytes) (loc : StrLoc) :
    decodeString storage loc.isUtf16 loc.storageOff loc.lenField =
      if Inside storage.length loc then
        some (if loc.isUtf16 then
          Utf.fromUtf16Lossy (Utf.units ((storage.drop loc.storageOff).take (byteLen loc)))
        else Utf.fromUtf8Lossy ((storage.drop loc.storageOff).take (byteLen loc)))
      else none := by
  have size : (if loc.isUtf16 = true then loc.lenField * 2 else loc.lenField) = byteLen loc := by
    unfold byteLen unitSize
    cases loc.isUtf16 <;> simp
  have test : (storage.length ≤ loc.storageOff ∨ storage.length < loc.storageOff + byteLen loc) ↔
      ¬ Inside storage.length loc := by
    unfold Inside
    omega
  unfold decodeString
  rw [size]
  by_cases inside : Inside storage.length loc
  · rw [if_neg fun outside => test.mp outside inside, if_pos inside]
  · rw [if_pos (test.mpr inside), if_neg inside]

/-- Decoding entries is resolving each one and reading it, counting the ones out of
range. -/
theorem decodeEntries_eq_ok {overflow : List (Nat × Nat)} {storage : Bytes} {i : Nat}
    {rows : List (Nat × StringKindType)} {strings : List StringTableEntry} {invalid : Nat}
    (decoded : decodeEntries overflow storage i rows = .ok (strings, invalid)) :
    ∃ locs, List.Forall₂ (fun row loc => resolveLoc overflow row.1 = some loc) rows locs ∧
      strings = (locs.zip (rows.map (·.2))).map (fun row => entryOf storage row.1 row.2) ∧
      invalid = locs.countP fun loc => decide (¬ Inside storage.length loc) := by
  induction rows generalizing i strings invalid with
  | nil =>
    obtain ⟨rfl, rfl⟩ := Prod.mk.inj (Outcome.ok.inj decoded)
    exact ⟨[], List.Forall₂.nil, rfl, rfl⟩
  | cons row rows ih =>
    obtain ⟨word, kind⟩ := row
    simp only [decodeEntries, bind_eq_ok, pure_eq, ok.injEq, Prod.mk.injEq, ofOption_eq_ok] at decoded
    obtain ⟨⟨offset, length⟩, resolved, ⟨more, count⟩, rest, rfl, rfl⟩ := decoded
    obtain ⟨locs, resolves, rfl, rfl⟩ := ih rest
    let loc : StrLoc := ⟨offset, length, (SmallStringEntry.decode word).isUtf16⟩
    have located : resolveLoc overflow word = some loc := by
      rw [resolveLoc, resolved]
      rfl
    refine ⟨loc :: locs, List.Forall₂.cons located resolves, rfl, ?_⟩
    have test := decodeString_eq storage loc
    rw [List.countP_cons, show decodeString storage (SmallStringEntry.decode word).isUtf16 offset
      length = decodeString storage loc.isUtf16 loc.storageOff loc.lenField from rfl, test]
    by_cases inside : Inside storage.length loc
    · simp [inside]
    · simp [inside]

/-- A parsed file with its tables and the location of every entry. -/
structure View (bytes : Bytes) (file : BytecodeFile) (tables : CommonTables) (locs : List StrLoc) :
    Prop where
  raw : file.rawBytes = some bytes
  found : TablesAt bytes file.header tables
  kinds : file.stringKinds = tables.stringKinds
  hashes : file.identifierHashes = tables.identifierHashes
  resolves : List.Forall₂ (fun word loc => resolveLoc tables.overflowStringTable word = some loc)
    tables.smallStringTable locs
  strings : file.strings = (locs.zip (stringKindsOf file.stringKinds file.header.stringCount)).map
    fun row => entryOf tables.stringStorage row.1 row.2
  storage : file.sectionOffset .stringStorage = some (storageStart file.header)
  read : readAllStringLocs file = .ok locs

namespace View

variable {bytes : Bytes} {file : BytecodeFile} {tables : CommonTables} {locs : List StrLoc}
  (view : View bytes file tables locs)

include view

theorem count : locs.length = file.header.stringCount :=
  view.resolves.length_eq.symm.trans view.found.small.1

/-- The tables give every location. -/
theorem locate_id (id : Nat) :
    locs[id]? = locate tables.smallStringTable tables.overflowStringTable id := by
  rw [locate_eq]
  by_cases inside : id < locs.length
  · have source : id < tables.smallStringTable.length := by
      rwa [view.resolves.length_eq]
    rw [List.getElem?_eq_getElem inside, List.getElem?_eq_getElem source]
    exact (view.resolves.get source inside).symm
  · rw [List.getElem?_eq_none (Nat.le_of_not_lt inside), List.getElem?_eq_none]
    · rfl
    · rw [view.resolves.length_eq]
      exact Nat.le_of_not_lt inside

theorem strings_length : file.strings.length = file.header.stringCount := by
  rw [view.strings, List.length_map, List.length_zip, view.count, stringKindsOf, expandKinds_length,
    Nat.min_self]

/-- The strings as stored are the bytes at the locations. -/
theorem stored {strings : List StoredString} (current : currentStrings file = .ok strings) :
    List.Forall₂ (fun loc string => storedAt bytes (storageStart file.header) loc = some string)
      locs strings := by
  simp only [currentStrings, rawOf, sectionOf, view.raw, view.storage, view.read, ofOption, ok_bind]
    at current
  exact (mapM_eq_ok.mp current).imp fun loc string found => ofOption_eq_ok.mp found

theorem stored_length {strings : List StoredString} (current : currentStrings file = .ok strings) :
    strings.length = file.header.stringCount :=
  (view.stored current).length_eq.symm.trans view.count

end View

theorem overflowRecords_eq {bytes : Bytes} {file : BytecodeFile} {tables : CommonTables}
    (found : TablesAt bytes file.header tables)
    (place : file.sectionOffset .overflowStringTable = some (overflowStart file.header)) :
    overflowRecords file bytes = .ok tables.overflowStringTable := by
  unfold overflowRecords
  rw [place]
  refine mapM_eq_ok.mpr (forall₂_range.mpr ⟨found.overflow.1, fun index pair present => ?_⟩)
  obtain ⟨first, second⟩ := found.overflow.2 index pair present
  rw [ofOption_eq_ok, overflowRecordAt, first, second]
  rfl

/-- A parsed file whose string sections start below 4 GiB has its tables in view. -/
theorem exists_view {bytes : Bytes} {file : BytecodeFile} (region : StringRegion bytes file)
    (low : storageStart file.header < 2 ^ 32) : ∃ tables locs, View bytes file tables locs := by
  obtain ⟨tables, found, functions, kinds, hashes, invalid, decoded⟩ := region.tables
  have size : min file.header.stringCount tables.smallStringTable.length =
      file.header.stringCount := by
    rw [found.small.1, Nat.min_self]
  unfold decodeStringTable at decoded
  simp only [size] at decoded
  rw [List.take_of_length_le (le_of_eq found.small.1)] at decoded
  obtain ⟨locs, resolves, strings, -⟩ := decodeEntries_eq_ok decoded
  have lengths : tables.smallStringTable.length =
      (stringKindsOf tables.stringKinds file.header.stringCount).length := by
    rw [found.small.1, stringKindsOf, expandKinds_length]
  have firsts : (tables.smallStringTable.zip (stringKindsOf tables.stringKinds
      file.header.stringCount)).map (·.1) = tables.smallStringTable :=
    List.map_fst_zip (le_of_eq lengths)
  have seconds : (tables.smallStringTable.zip (stringKindsOf tables.stringKinds
      file.header.stringCount)).map (·.2) = stringKindsOf tables.stringKinds
        file.header.stringCount := List.map_snd_zip (le_of_eq lengths.symm)
  have resolved : List.Forall₂
      (fun word loc => resolveLoc tables.overflowStringTable word = some loc)
      tables.smallStringTable locs := by
    rw [← firsts, List.forall₂_map_left_iff]
    exact resolves
  rw [seconds, ← kinds] at strings
  have place : ∀ name pos, (name, pos) ∈ commonPlaces file.header → pos < 2 ^ 32 →
      file.sectionOffset name = some pos := by
    intro name pos inside below
    rw [region.places name pos inside, Nat.mod_eq_of_lt below]
  have overflowLow : overflowStart file.header < 2 ^ 32 :=
    Nat.lt_of_le_of_lt (Nat.le_add_right _ _) low
  have smallLow : smallStart file.header < 2 ^ 32 :=
    Nat.lt_of_le_of_lt (Nat.le_add_right _ _) overflowLow
  refine ⟨tables, locs, region.raw, found, kinds, hashes, resolved, strings,
    place _ _ (by simp [commonPlaces]) low, ?_⟩
  have rowCount : file.strings.length = tables.smallStringTable.length := by
    rw [strings, List.length_map, List.length_zip, ← resolved.length_eq, lengths, kinds, Nat.min_self]
  have small := place .smallStringTable _ (by simp [commonPlaces]) smallLow
  unfold readAllStringLocs rawOf sectionOf
  rw [region.raw, small, ofOption, ofOption, ok_bind, ok_bind,
    overflowRecords_eq found (place _ _ (by simp [commonPlaces]) overflowLow), ok_bind]
  refine mapM_eq_ok.mpr (forall₂_range.mpr ⟨by rw [rowCount, resolved.length_eq], ?_⟩)
  intro id loc present
  obtain ⟨inside, rfl⟩ := List.getElem?_eq_some_iff.mp present
  have source : id < tables.smallStringTable.length := by rwa [resolved.length_eq]
  have word := found.small.2 id _ (List.getElem?_eq_getElem source)
  have stands := resolved.get source inside
  simp only [resolveLoc, Option.pure_def, Option.bind_eq_bind, Option.bind_eq_some_iff,
    Option.some.injEq] at stands
  obtain ⟨pair, resolves, same⟩ := stands
  unfold readLoc
  rw [word, ofOption, ok_bind]
  dsimp only at resolves ⊢
  simp only [List.get_eq_getElem] at resolves same
  rw [resolves, ofOption, ok_bind, ← same]
  rfl

end HermesDecomp.StringStorage
