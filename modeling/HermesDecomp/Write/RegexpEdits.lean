import HermesDecomp.File.Regex
import HermesDecomp.File.TrailingPlaces
import HermesDecomp.Library.Sha1
import HermesDecomp.Write.LegacyHeader
import HermesDecomp.Write.StringEdits

/-!
# What a replaced regular expression changes

The table of the regular expressions and their storage stand between the slots of the functions
and everything that moves. Whether the payload lands in place or at the end of the storage, its
entry reads it back, and the other entries read what they read before.
-/

namespace HermesDecomp.Regexps

open List Outcome

/-- How a payload landed. -/
inductive RegexpSetMode where
  | inPlace
  | appended
deriving DecidableEq

/-- What a replacement did. -/
structure RegexpSetReport where
  index : Nat
  mode : RegexpSetMode
  oldLen : Nat
  newLen : Nat
  oldMarkedCount : Nat
  newMarkedCount : Nat
  oldSyntaxFlags : Nat
  newSyntaxFlags : Nat
deriving DecidableEq

/-- The bytecode of an entry. -/
def regexpPayload (file : BytecodeFile) (index : Nat) : Result Bytes := do
  let count := file.regExpTable.length
  let entry ← .ofOption (.write s!"regexp index {index} out of range ({count} entries)")
    file.regExpTable[index]?
  .ofOption (.write s!"regexp {index}: storage range out of bounds")
    (Bytes.slice file.regExpStorage entry.offset entry.length)

/-- The count of capture groups and the flags of a stream. -/
def headerOf (stream : Bytes) (what : String) : Result (Nat × Nat) :=
  if stream.length < regexHeaderLen then
    let size := stream.length
    .err (.write s!"{what} is {size} bytes, shorter than the {regexHeaderLen}-byte regex header")
  else .ok (Bytes.leNat (stream.take 2), Bytes.leNat ((stream.drop 4).take 1))

/-- A payload is a whole regular expression that keeps to its header. -/
def checkProgram (payload : Bytes) : Result PUnit :=
  match Regex.decodeRegex payload >>= RegexProgram.check with
  | .ok done => .ok done
  | .panic => .panic
  | .err error =>
      let message := error.describe
      .err (.write s!"the payload is not a valid regex program: {message}")

/-- What an edit needs of the file: the section of the table, that of the storage and its padded
size, and where the header has the count. -/
structure Layout where
  tableOff : Nat
  storageOff : Nat
  storageSection : Nat
  countPos : Nat

/-- The places that the parser recorded. -/
def layoutOf (file : BytecodeFile) : Result Layout := do
  let tableOff ← .ofOption (.write "regexp_table section missing") (file.sectionOffset .regexpTable)
  let storageOff ← .ofOption (.write "regexp_storage section missing")
    (file.sectionOffset .regexpStorage)
  let storageSection := ((file.sections.find? (·.name == .regexpStorage)).map (·.size)).getD 0
  pure { tableOff, storageOff, storageSection, countPos := HeaderWrite.regExpCountPos file.header }

/-- The header has the count and the size where they are going to be written. -/
def checkCounts (file : BytecodeFile) (raw : Bytes) (countPos : Nat) : Result PUnit := do
  let count ← Buffer.readU32 raw countPos
  let size ← Buffer.readU32 raw (countPos + 4)
  let version := file.header.version
  .ensure (count = file.header.regExpCount ∧ size = file.header.regExpStorageSize)
    (.write s!"regexp count/size not found at header byte {countPos} for version {version}")

/-- Whether another entry reads a byte of an entry's range. -/
def shared (table : List TableEntry) (index : Nat) (old : TableEntry) : Bool :=
  table.zipIdx.any fun (entry, i) => i ≠ index ∧ 0 < entry.length ∧
    entry.offset < old.offset + old.length ∧ old.offset < entry.offset + entry.length

/-- Fill up with zeros to a multiple of four. -/
def padded (storage : Bytes) : Bytes :=
  storage ++ List.replicate (Bytes.align4 storage.length - storage.length) 0

/-- Overwrite an entry's own storage and set its length. -/
def overwriteEntry (places : Layout) (raw payload : Bytes) (index : Nat) (old : TableEntry) :
    Result Bytes := do
  let raw ← Buffer.write raw (places.storageOff + old.offset) payload
  Buffer.writeU32 raw (places.tableOff + index * 8 + 4) payload.length

/-- Append a payload to the storage and point an entry at it. -/
def appendEntry (file : BytecodeFile) (places : Layout) (raw payload : Bytes) (index : Nat) :
    Result (Bytes × Serialize.HeaderEdit) := do
  let storageSize := file.header.regExpStorageSize
  let old ← Buffer.range raw places.storageOff storageSize
  let newSize := (old ++ payload).length
  .ensure (newSize < 2 ^ 32) (.write "regexp storage larger than 4 GiB")
  let storage := padded (old ++ payload)
  let movedFrom := places.storageOff + places.storageSection
  let delta : Int := storage.length - places.storageSection
  let rebuilt ← Strings.splice raw places.storageOff movedFrom storage
  let rebuilt ← Buffer.writeU32 rebuilt (places.countPos + 4) newSize
  let rebuilt ← Buffer.writeU32 rebuilt (places.tableOff + index * 8) storageSize
  let rebuilt ← Buffer.writeU32 rebuilt (places.tableOff + index * 8 + 4) payload.length
  let rebuilt ← Reloc.relocate file rebuilt { movedFrom, delta, resized := none }
  pure (rebuilt, { Serialize.HeaderEdit.shifted delta with regExpStorageSize := some newSize })

/-- The edited bytes, what they may change in the header and the report. -/
def regexpImage (file : BytecodeFile) (index : Nat) (payload : Bytes) :
    Result (Bytes × Serialize.HeaderEdit × RegexpSetReport) := do
  let old ← regexpPayload file index
  let (oldMarked, oldFlags) ← headerOf old s!"regexp {index}"
  let (newMarked, newFlags) ← headerOf payload "the payload"
  checkProgram payload
  .ensure (oldMarked ≤ newMarked) (.write s!"regexp {index} has {oldMarked} capture group(s) and the payload has {newMarked}: code reading a group that no longer exists would get `undefined`, far from this edit. Use a payload with at least {oldMarked}.")
  let entry ← .index file.regExpTable index
  let newLen := payload.length
  .ensure (newLen < 2 ^ 32) (.write "regexp payload larger than 4 GiB")
  let places ← layoutOf file
  let raw ← Serialize.rawOf file
  checkCounts file raw places.countPos
  let report (mode : RegexpSetMode) : RegexpSetReport :=
    { index, mode, oldLen := entry.length, newLen, oldMarkedCount := oldMarked,
      newMarkedCount := newMarked, oldSyntaxFlags := oldFlags, newSyntaxFlags := newFlags }
  if newLen ≤ entry.length ∧ shared file.regExpTable index entry = false then do
    let out ← overwriteEntry places raw payload index entry
    pure (out, .default, report .inPlace)
  else do
    let (out, edit) ← appendEntry file places raw payload index
    pure (out, edit, report .appended)

/-- Replace the bytecode of an entry by a payload. -/
def setRegexp (sha1 : Sha1) (index : Nat) (payload : Bytes) : Edit (Bytes × RegexpSetReport) := do
  let file ← Action.get
  let (out, edit, report) ← Action.lift (regexpImage file index payload)
  let out ← Serialize.commitImage sha1 out edit
  pure (out, report)

open Bytes (Unchanged slice u32At)
open HermesDecomp.Parser Serialize

/-- The storage of the regular expressions shares no bytes with the footer, and the large headers
of the functions lie behind it. -/
structure Apart (bytes : Bytes) (file : BytecodeFile) : Prop where
  footer : modulesStart file.header + Footer.footerLen ≤ bytes.length
  large : ∀ layout, Reloc.layoutOf file.header = .ok layout →
    ∀ id < file.functionHeaders.length,
      Reloc.LargePast (modulesStart file.header) layout headerSize bytes id

instance (bytes : Bytes) (file : BytecodeFile) : Decidable (Apart bytes file) :=
  decidable_of_iff (modulesStart file.header + Footer.footerLen ≤ bytes.length ∧
      ∀ layout, Reloc.layoutOf file.header = .ok layout →
        ∀ id < file.functionHeaders.length,
          Reloc.LargePast (modulesStart file.header) layout headerSize bytes id)
    ⟨fun ⟨footer, large⟩ => ⟨footer, large⟩, fun apart => ⟨apart.footer, apart.large⟩⟩

variable {index : Nat}

/-- What an entry of the table is. -/
theorem entry_eq_some {bytes : Bytes} {file : BytecodeFile} (image : FileAt bytes file)
    {entry : TableEntry} :
    file.regExpTable[index]? = some entry ↔
      index < file.header.regExpCount ∧
        u32At bytes (regExpStart file.header + index * 8) = some entry.offset ∧
          u32At bytes (regExpStart file.header + index * 8 + 4) = some entry.length := by
  obtain ⟨pairs, ⟨count, words⟩, table⟩ := image.regExps
  rw [table, List.getElem?_map, Option.map_eq_some_iff]
  constructor
  · rintro ⟨pair, present, rfl⟩
    obtain ⟨inside, -⟩ := List.getElem?_eq_some_iff.mp present
    exact ⟨count ▸ inside, words index pair present⟩
  · rintro ⟨inside, first, second⟩
    have present := List.getElem?_eq_getElem (count.symm ▸ inside)
    obtain ⟨first', second'⟩ := words index _ present
    refine ⟨_, present, ?_⟩
    rw [first] at first'
    rw [second] at second'
    rw [← Option.some.inj first', ← Option.some.inj second']

/-- What the payload of an entry is. -/
theorem regexpPayload_eq_ok {file : BytecodeFile} {payload : Bytes} :
    regexpPayload file index = .ok payload ↔
      ∃ entry, file.regExpTable[index]? = some entry ∧
        slice file.regExpStorage entry.offset entry.length = some payload := by
  simp [regexpPayload, bind_eq_ok, ofOption_eq_ok]

/-- A new image whose table has one entry replaced and whose storage keeps what the other entries
read. -/
structure Replaced (bytes out : Bytes) (file after : BytecodeFile) (index offset : Nat)
    (payload storage : Bytes) : Prop where
  count : after.header.regExpCount = file.header.regExpCount
  table : regExpStart after.header = regExpStart file.header
  start : regExpStorageStart after.header = regExpStorageStart file.header
  size : after.header.regExpStorageSize = storage.length
  own : u32At out (regExpStart file.header + index * 8) = some offset ∧
    u32At out (regExpStart file.header + index * 8 + 4) = some payload.length
  others : ∀ other < file.header.regExpCount, other ≠ index →
    u32At out (regExpStart file.header + other * 8) =
        u32At bytes (regExpStart file.header + other * 8) ∧
      u32At out (regExpStart file.header + other * 8 + 4) =
        u32At bytes (regExpStart file.header + other * 8 + 4)
  stored : slice out (regExpStorageStart file.header) storage.length = some storage
  holds : slice storage offset payload.length = some payload
  keeps : ∀ other entry own, other ≠ index → file.regExpTable[other]? = some entry →
    slice file.regExpStorage entry.offset entry.length = some own →
      slice storage entry.offset entry.length = some own

variable {file after : BytecodeFile}

/-- Such an image has the payload at the entry and the old payloads at the others. -/
theorem Replaced.payloads {bytes out payload storage : Bytes} {index offset : Nat}
    (replaced : Replaced bytes out file after index offset payload storage)
    (before : FileAt bytes file) (behind : FileAt out after)
    (inside : index < file.header.regExpCount) :
    regexpPayload after index = .ok payload ∧ ∀ other own, other ≠ index →
      regexpPayload file other = .ok own → regexpPayload after other = .ok own := by
  have stored : after.regExpStorage = storage := by
    have read := behind.storage
    rw [replaced.start, replaced.size, replaced.stored] at read
    exact (Option.some.inj read).symm
  constructor
  · refine regexpPayload_eq_ok.mpr ⟨⟨offset, payload.length⟩, ?_, ?_⟩
    · rw [entry_eq_some behind, replaced.table, replaced.count]
      exact ⟨inside, replaced.own⟩
    · rw [stored]
      exact replaced.holds
  · intro other own different read
    obtain ⟨entry, present, taken⟩ := regexpPayload_eq_ok.mp read
    refine regexpPayload_eq_ok.mpr ⟨entry, ?_, ?_⟩
    · obtain ⟨bounded, first, second⟩ := (entry_eq_some before).mp present
      obtain ⟨first', second'⟩ := replaced.others other bounded different
      rw [entry_eq_some behind, replaced.table, replaced.count, first', second']
      exact ⟨bounded, first, second⟩
    · rw [stored]
      exact replaced.keeps other entry own different present taken

variable {places : Layout}

/-- The places that an edit uses, in an image of less than 4 GiB. -/
theorem layoutOf_eq_ok {bytes : Bytes} {file : BytecodeFile} (small : bytes.length < 2 ^ 32)
    (image : FileAt bytes file) (ran : layoutOf file = .ok places) :
    places.tableOff = regExpStart file.header ∧
      places.storageOff = regExpStorageStart file.header ∧
        places.storageOff + places.storageSection = modulesStart file.header ∧
          places.countPos = HeaderWrite.regExpCountPos file.header := by
  have inside := image.inside
  have modules := modulesStart_le_instructionsStart file.header
  have table : regExpStart file.header ≤ regExpStorageStart file.header :=
    (Nat.le_add_right _ _).trans (le_padded _ _)
  have storage : regExpStorageStart file.header ≤ modulesStart file.header :=
    (Nat.le_add_right _ _).trans (le_padded _ _)
  have first := image.sections _ (mem_cons_self)
  have second := image.sections _ (mem_cons_of_mem _ mem_cons_self)
  simp only [layoutOf, BytecodeFile.sectionOffset, bind_eq_ok, ofOption_eq_ok,
    pure_eq, Outcome.ok.injEq] at ran
  dsimp only at first second
  rw [first, second] at ran
  simp only [Option.map_some, Option.some.injEq, Option.getD_some] at ran
  obtain ⟨_, rfl, _, rfl, rfl⟩ := ran
  dsimp only
  rw [Nat.mod_eq_of_lt (by omega : regExpStart file.header < 2 ^ 32),
    Nat.mod_eq_of_lt (by omega : regExpStorageStart file.header < 2 ^ 32),
    Nat.mod_eq_of_lt (by omega : modulesStart file.header < 2 ^ 32)]
  exact ⟨rfl, rfl, by omega, rfl⟩

/-- The order of the table, the storage and what follows, all behind the file header. -/
theorem regExps_order (header : BytecodeHeader) :
    headerSize + header.functionCount * slotSizeOf header.functionHeaderLayout ≤
        regExpStart header ∧
      regExpStart header + header.regExpCount * 8 ≤ regExpStorageStart header ∧
        regExpStorageStart header + header.regExpStorageSize ≤ modulesStart header :=
  ⟨(slots_le_buffersStart header).trans (buffersStart_le_regExpStart header), le_padded _ _,
    le_padded _ _⟩

/-- Another entry reads nothing of a range that is not shared. -/
theorem apart_of_unshared {table : List TableEntry} {index other : Nat} {old entry : TableEntry}
    (unshared : shared table index old = false) (present : table[other]? = some entry)
    (different : other ≠ index) :
    entry.length = 0 ∨ old.offset + old.length ≤ entry.offset ∨
      entry.offset + entry.length ≤ old.offset := by
  have free := any_eq_false.mp unshared (entry, other) (mem_zipIdx_iff_getElem?.mpr present)
  simp only [decide_eq_true_eq, not_and, not_lt] at free
  by_cases positive : 0 < entry.length
  · have later := free different positive
    omega
  · exact Or.inl (by omega)

variable {sha1 : Sha1}

/-- A payload that lands in its own storage replaces its entry. -/
theorem overwriteEntry_replaced {bytes buf out payload old : Bytes} {entry : TableEntry}
    (small : bytes.length < 2 ^ 32) (before : FileAt bytes file)
    (known : layoutOf file = .ok places)
    (footer : modulesStart file.header + Footer.footerLen ≤ bytes.length)
    (present : file.regExpTable[index]? = some entry)
    (read : slice file.regExpStorage entry.offset entry.length = some old)
    (fits : payload.length ≤ entry.length) (unshared : shared file.regExpTable index entry = false)
    (ran : overwriteEntry places bytes payload index entry = .ok buf)
    (finalized : finalizeRawImage sha1 buf = .ok out)
    (headers : expectedHeader .default file.header out = after.header) :
    Replaced bytes out file after index entry.offset payload
      (Bytes.overwrite file.regExpStorage entry.offset payload) := by
  obtain ⟨table, storage, -, -⟩ := layoutOf_eq_ok small before known
  obtain ⟨first, order, last⟩ := regExps_order file.header
  obtain ⟨inside, offset, length⟩ := (entry_eq_some before).mp present
  have size := Bytes.slice_length before.storage
  obtain ⟨bounded, -⟩ := Bytes.slice_eq_some.mp read
  obtain ⟨written, wrote, ran⟩ := bind_eq_ok.mp ran
  rw [table] at ran
  rw [storage] at wrote
  have wroteKept := Buffer.write_unchanged wrote
  have lengthKept := Buffer.writeU32_unchanged ran
  have lengthReads := Buffer.writeU32_reads ran
  have finished := finalize_unchanged finalized
  obtain ⟨-, rfl⟩ := Buffer.write_eq_ok.mp wrote
  rw [lengthKept.length, wroteKept.length] at finished
  unfold headerSize at first
  unfold Footer.footerLen at footer
  have kept := ((wroteKept.mono fun _ hit => Or.inl hit).trans
    (lengthKept.mono fun _ hit => Or.inr (Or.inl hit))).trans
      (finished.mono fun _ hit => Or.inr (Or.inr hit))
  have same : ∀ place, regExpStart file.header ≤ place → place + 4 ≤ regExpStorageStart file.header →
      (place + 4 ≤ regExpStart file.header + index * 8 + 4 ∨
        regExpStart file.header + index * 8 + 8 ≤ place) →
        u32At out place = u32At bytes place := by
    intro place low high beside
    refine kept.u32At_eq fun position after upTo hit => ?_
    unfold Sealed at hit
    omega
  refine ⟨by rw [← headers]; rfl, by rw [← headers]; rfl, by rw [← headers]; rfl, ?_, ⟨?_, ?_⟩, ?_,
    ?_, ?_, ?_⟩
  · rw [Bytes.overwrite_length (by omega), size, ← headers]
    rfl
  · rw [same _ (by omega) (by omega) (by omega), offset]
  · rw [finished.u32At_eq ?_, lengthReads, Nat.mod_eq_of_lt (by omega)]
    intro position after upTo hit
    unfold Sealed at hit
    omega
  · intro other bounded' different
    exact ⟨same _ (by omega) (by omega) (by omega), same _ (by omega) (by omega) (by omega)⟩
  · rw [Bytes.overwrite_length (by omega), size, finished.slice_eq ?_, lengthKept.slice_eq ?_]
    · exact Bytes.slice_overwrite_inside before.storage (by omega)
    · intro position after upTo hit
      omega
    · intro position after upTo hit
      unfold Sealed at hit
      omega
  · exact Bytes.slice_overwrite_self (by omega)
  · intro other entry' own different present' read'
    rcases apart_of_unshared unshared present' different with empty | beside
    · obtain ⟨low, rfl⟩ := Bytes.slice_eq_some.mp read'
      refine Bytes.slice_eq_some.mpr ⟨?_, ?_⟩
      · rwa [Bytes.overwrite_length (by omega)]
      · rw [empty, take_zero, take_zero]
    · rw [Bytes.slice_overwrite_of_disjoint (by omega) (by omega)]
      exact read'

/-- The bytes of an image with a longer storage spliced in. -/
structure Spliced (bytes spliced storage : Bytes) (header : BytecodeHeader) : Prop where
  length : spliced.length =
    regExpStorageStart header + storage.length + (bytes.length - modulesStart header)
  same : ∀ place, place < regExpStorageStart header → spliced[place]? = bytes[place]?
  stored : slice spliced (regExpStorageStart header) storage.length = some storage

theorem spliced_of_splice {bytes spliced storage : Bytes} {header : BytecodeHeader}
    (ran : Strings.splice bytes (regExpStorageStart header) (modulesStart header) storage =
      .ok spliced) : Spliced bytes spliced storage header := by
  simp only [Strings.splice, bind_eq_ok, checked_eq_ok, pure_eq, Outcome.ok.injEq] at ran
  obtain ⟨_, ⟨start, rfl⟩, _, ⟨finish, rfl⟩, rfl⟩ := ran
  have front : (bytes.take (regExpStorageStart header)).length = regExpStorageStart header :=
    length_take_of_le start
  rw [append_assoc]
  refine ⟨?_, ?_, ?_⟩
  · rw [length_append, length_append, front, length_drop, add_assoc]
  · intro place before
    rw [List.getElem?_append_left (by rwa [front]), List.getElem?_take_of_lt before]
  · have middle := @Bytes.slice_between (bytes.take (regExpStorageStart header)) storage
      (bytes.drop (modulesStart header))
    rwa [front] at middle

/-- What stands before the storage is read as before. -/
theorem Spliced.u32At_eq {bytes spliced storage : Bytes} {header : BytecodeHeader}
    (image : Spliced bytes spliced storage header) (inside : modulesStart header ≤ bytes.length)
    {place : Nat} (before : place + 4 ≤ regExpStorageStart header) :
    u32At spliced place = u32At bytes place := by
  obtain ⟨-, -, last⟩ := regExps_order header
  have length := image.length
  have same : slice spliced place 4 = slice bytes place 4 :=
    Bytes.slice_congr (by omega) (by omega) fun index bounded => image.same _ (by omega)
  rw [u32At, u32At, same]

/-- A relocation behind a spliced storage leaves the table and the storage alone. -/
theorem relocate_keeps {bytes spliced storage edited moved : Bytes} {file : BytecodeFile}
    {r : Reloc} (image : Spliced bytes spliced storage file.header)
    (functions : file.sectionOffset .functionHeaders = some headerSize)
    (count : file.functionHeaders.length = file.header.functionCount)
    (apart : Apart bytes file) (movedFrom : r.movedFrom = modulesStart file.header)
    (landing : r.landing = (regExpStorageStart file.header + storage.length : Nat))
    (kept : Unchanged spliced edited fun index =>
      index < headerSize ∨ regExpStart file.header ≤ index)
    (ran : Reloc.relocate file edited r = .ok moved) :
    Unchanged edited moved fun index =>
      index < regExpStart file.header ∨ regExpStorageStart file.header + storage.length ≤ index := by
  obtain ⟨first, order, last⟩ := regExps_order file.header
  have footer := apart.footer
  have known := ran
  simp only [Reloc.relocate, bind_eq_ok] at known
  obtain ⟨_, -, _, -, layout, known, -⟩ := known
  have slots := Strings.slotSize_eq file.header known
  have all : headerSize + file.functionHeaders.length * Reloc.slotSize layout ≤
      regExpStart file.header := by
    rw [count, slots]
    exact first
  have past : ∀ id < file.functionHeaders.length,
      Reloc.LargePast r.movedFrom layout headerSize edited id := by
    intro id inside
    have rows := Nat.mul_le_mul_right (Reloc.slotSize layout) inside
    rw [Nat.succ_mul] at rows
    rw [movedFrom]
    refine (apart.large layout known id inside).of_slot (by omega) fun index after upTo => ?_
    rw [kept.same index (by omega), image.same index (by omega)]
  have touched := Reloc.relocate_unchanged functions known (by rw [landing]; omega) past ran
  refine touched.mono fun index hit => ?_
  rcases hit with header | table | tail
  · unfold headerSize at first
    exact .inl (by omega)
  · exact .inl (by omega)
  · rw [landing] at tail
    exact .inr (by exact_mod_cast tail)

theorem le_padded_length (storage : Bytes) : storage.length ≤ (padded storage).length := by
  rw [padded, length_append]
  exact Nat.le_add_right _ _

/-- What is filled up is read without the fill. -/
theorem slice_padded {image storage : Bytes} {place : Nat}
    (taken : slice image place (padded storage).length = some (padded storage)) :
    slice image place storage.length = some storage := by
  obtain ⟨before, after, rfl, rfl⟩ := Bytes.slice_split taken
  rw [padded, append_assoc]
  exact Bytes.slice_between

/-- The count of regular expressions and the size of their storage are in the file header. -/
theorem regExpCountPos_le (header : BytecodeHeader) :
    HeaderWrite.regExpCountPos header + 8 ≤ headerSize := by
  unfold HeaderWrite.regExpCountPos
  split <;> decide

/-- A payload that is appended replaces its entry. -/
theorem appendEntry_replaced {bytes buf out payload : Bytes} {edit : HeaderEdit}
    (small : bytes.length < 2 ^ 32) (before : FileAt bytes file)
    (functions : file.sectionOffset .functionHeaders = some headerSize)
    (known : layoutOf file = .ok places) (apart : Apart bytes file)
    (inside : index < file.header.regExpCount) (short : payload.length < 2 ^ 32)
    (ran : appendEntry file places bytes payload index = .ok (buf, edit))
    (finalized : finalizeRawImage sha1 buf = .ok out)
    (headers : expectedHeader edit file.header out = after.header) :
    Replaced bytes out file after index file.header.regExpStorageSize payload
      (file.regExpStorage ++ payload) := by
  obtain ⟨table, start, finish, position⟩ := layoutOf_eq_ok small before known
  obtain ⟨first, order, last⟩ := regExps_order file.header
  have footer := apart.footer
  have size := Bytes.slice_length before.storage
  simp only [appendEntry, bind_eq_ok, ensure_eq_ok, pure_eq,
    Outcome.ok.injEq, Prod.mk.injEq, table, finish, position] at ran
  obtain ⟨old, taken, _, fits, spliced, splicing, counted, wroteCount, offset, wroteOffset, length,
    wroteLength, moved, relocating, rfl, rfl⟩ := ran
  rw [start] at taken splicing
  have same : old = file.regExpStorage :=
    Option.some.inj ((unwrap_eq_ok.mp taken).symm.trans before.storage)
  subst same
  have image := spliced_of_splice splicing
  have grown := le_padded_length (file.regExpStorage ++ payload)
  have stored := slice_padded image.stored
  generalize padded (file.regExpStorage ++ payload) = storage at image grown stored relocating
  have early := regExpCountPos_le file.header
  have edited : Unchanged spliced length fun place => place < headerSize ∨
      regExpStart file.header + index * 8 ≤ place ∧
        place < regExpStart file.header + index * 8 + 8 := by
    refine ((Buffer.writeU32_unchanged wroteCount).mono fun place hit => .inl (by omega)).trans
      (((Buffer.writeU32_unchanged wroteOffset).mono fun place hit => .inr (by omega)).trans
        ((Buffer.writeU32_unchanged wroteLength).mono fun place hit => .inr (by omega)))
  have relocated := relocate_keeps image functions before.count apart rfl (by
    unfold Reloc.landing
    rw [start] at finish
    push_cast
    omega) (edited.mono fun place hit => by omega) relocating
  have finished := finalize_unchanged finalized
  rw [relocated.length, edited.length, image.length] at finished
  unfold headerSize at first
  unfold Footer.footerLen at footer
  have rest : Unchanged length out fun place => place < regExpStart file.header ∨
      regExpStorageStart file.header + storage.length ≤ place := by
    refine relocated.trans (finished.mono fun place hit => ?_)
    unfold Sealed at hit
    omega
  have kept : Unchanged spliced out fun place => place < regExpStart file.header ∨
      (regExpStart file.header + index * 8 ≤ place ∧
        place < regExpStart file.header + index * 8 + 8) ∨
      regExpStorageStart file.header + storage.length ≤ place := by
    unfold headerSize at edited
    exact (edited.mono fun place hit => by omega).trans (rest.mono fun place hit => by omega)
  have same : ∀ place, regExpStart file.header ≤ place →
      place + 4 ≤ regExpStorageStart file.header →
      (place + 4 ≤ regExpStart file.header + index * 8 ∨
        regExpStart file.header + index * 8 + 8 ≤ place) →
        u32At out place = u32At bytes place := by
    intro place low high beside
    rw [kept.u32At_eq fun position after upTo hit => by omega]
    exact image.u32At_eq (by omega) high
  have total : (file.regExpStorage ++ payload).length =
      file.regExpStorage.length + payload.length := length_append
  refine ⟨by rw [← headers]; rfl, by rw [← headers]; rfl, by rw [← headers]; rfl,
    by rw [← headers]; rfl, ⟨?_, ?_⟩, ?_, ?_, ?_, ?_⟩
  · rw [rest.u32At_eq fun position after upTo hit => by omega,
      (Buffer.writeU32_unchanged wroteLength).u32At_eq fun position after upTo hit => by omega,
      Buffer.writeU32_reads wroteOffset, Nat.mod_eq_of_lt (by omega)]
  · rw [rest.u32At_eq fun position after upTo hit => by omega,
      Buffer.writeU32_reads wroteLength, Nat.mod_eq_of_lt short]
  · intro other bounded different
    exact ⟨same _ (by omega) (by omega) (by omega), same _ (by omega) (by omega) (by omega)⟩
  · rw [kept.slice_eq fun position after upTo hit => by omega]
    exact stored
  · rw [← size]
    exact Bytes.slice_appended file.regExpStorage payload
  · intro other entry own different present read
    exact Bytes.slice_of_prefix (prefix_append _ _) read

/-- A replacement that succeeds adopts the edited bytes. -/
theorem setRegexp_eq_ok {payload out : Bytes} {report : RegexpSetReport}
    (ran : setRegexp sha1 index payload file = (.ok (out, report), after)) :
    ∃ buf edit, regexpImage file index payload = .ok (buf, edit, report) ∧
      finalizeRawImage sha1 buf = .ok out ∧ parseAuto sha1 out = .ok after ∧
        expectedHeader edit file.header out = after.header := by
  obtain ⟨_, _, got, ran⟩ := Action.bind_eq_ok.mp ran
  obtain ⟨same, rfl⟩ := Prod.mk.inj got
  cases same
  obtain ⟨⟨buf, edit, _⟩, _, edited, ran⟩ := Action.bind_eq_ok.mp ran
  obtain ⟨image, rfl⟩ := Prod.mk.inj edited
  obtain ⟨_, _, committed, done⟩ := Action.bind_eq_ok.mp ran
  obtain ⟨same, rfl⟩ := Prod.mk.inj done
  obtain ⟨rfl, rfl⟩ := Prod.mk.inj (Outcome.ok.inj same)
  obtain ⟨finalized, parsed, header, -⟩ := commitImageChecked_eq_ok.mp committed
  exact ⟨buf, edit, image, finalized, parsed, header⟩

/-- After a replacement the entry is the payload, and every other entry that could be read is what
it was. -/
theorem setRegexp_replaces {sha1 : Sha1} {bytes out payload : Bytes} {file after : BytecodeFile}
    {index : Nat} {report : RegexpSetReport} (small : bytes.length < 2 ^ 32)
    (parsed : parseAuto sha1 bytes = .ok file) (apart : Apart bytes file)
    (ran : setRegexp sha1 index payload file = (.ok (out, report), after)) :
    regexpPayload after index = .ok payload ∧ ∀ other own, other ≠ index →
      regexpPayload file other = .ok own → regexpPayload after other = .ok own := by
  obtain ⟨buf, edit, image, finalized, parsed', headers⟩ := setRegexp_eq_ok ran
  have before := parseAuto_at parsed
  have behind := parseAuto_at parsed'
  simp only [regexpImage, bind_eq_ok, ensure_eq_ok, index_eq_ok,
    Serialize.rawOf, ofOption_eq_ok] at image
  obtain ⟨old, read, ⟨_, _⟩, -, ⟨_, _⟩, -, _, -, _, -, entry, present, _, short, places, known, raw,
    same, _, -, image⟩ := image
  obtain rfl := Option.some.inj (before.raw.symm.trans same)
  obtain ⟨entry', present', read⟩ := regexpPayload_eq_ok.mp read
  obtain rfl := Option.some.inj (present.symm.trans present')
  have inside := ((entry_eq_some before).mp present).1
  split at image
  next inPlace =>
    obtain ⟨written, ran, same⟩ := bind_eq_ok.mp image
    obtain ⟨rfl, rest⟩ := Prod.mk.inj (Outcome.ok.inj same)
    obtain ⟨rfl, -⟩ := Prod.mk.inj rest
    exact (overwriteEntry_replaced small before known apart.footer present read inPlace.1 inPlace.2
      ran finalized headers).payloads before behind inside
  next appended =>
    obtain ⟨⟨written, edit'⟩, ran, same⟩ := bind_eq_ok.mp image
    obtain ⟨rfl, rest⟩ := Prod.mk.inj (Outcome.ok.inj same)
    obtain ⟨rfl, -⟩ := Prod.mk.inj rest
    have functions : file.sectionOffset .functionHeaders = some headerSize :=
      (parseAuto_region parsed).places _ _ mem_cons_self
    exact (appendEntry_replaced small before functions known apart inside short ran finalized
      headers).payloads before behind inside

/-- An image with two entries that share one range of the storage. -/
def twinImage : Bytes :=
  [198, 31, 188, 3, 193, 3, 25, 31, 96, 0, 0, 0, 0, 0, 0, 0, 0, 0, 0, 0, 0, 0, 0, 0, 0, 0, 0,
   0, 0, 0, 0, 0, 204, 0, 0, 0, 0, 0, 0, 0, 1, 0, 0, 0, 1, 0, 0, 0, 0, 0, 0, 0, 1, 0, 0, 0, 0,
   0, 0, 0, 1, 0, 0, 0, 0, 0, 0, 0, 0, 0, 0, 0, 2, 0, 0, 0, 7, 0, 0, 0, 0, 0, 0, 0, 0, 0, 0,
   0, 0, 0, 0, 0, 0, 0, 0, 0, 0, 0, 0, 0, 0, 0, 0, 0, 0, 0, 0, 0, 0, 0, 0, 0, 0, 0, 0, 0, 0,
   0, 0, 0, 0, 0, 0, 0, 0, 0, 0, 0, 180, 0, 0, 2, 2, 0, 0, 0, 0, 0, 0, 4, 0, 0, 0, 2, 1, 0, 0,
   0, 0, 0, 0, 1, 97, 0, 0, 0, 0, 0, 0, 0, 7, 0, 0, 0, 0, 0, 0, 0, 7, 0, 0, 0, 0, 0, 0, 0, 0,
   0, 0, 0, 1, 0, 0, 0, 100, 236, 216, 253, 56, 175, 67, 118, 146, 40, 191, 164, 95, 134, 233,
   254, 158, 110, 33, 149]

/-- One of them gets a payload of its own, behind the range it shared. -/
theorem setRegexp_replaces_twin :
    ∃ file out report after, parseAuto Sha1Hash.hash twinImage = .ok file ∧
      setRegexp Sha1Hash.hash 0 [0, 0, 0, 0, 1, 0, 0] file = (.ok (out, report), after) ∧
        regexpPayload after 0 = .ok [0, 0, 0, 0, 1, 0, 0] ∧ ∀ other own, other ≠ 0 →
          regexpPayload file other = .ok own → regexpPayload after other = .ok own := by
  have run : ∃ file, parseAuto Sha1Hash.hash twinImage = .ok file ∧ Apart twinImage file ∧
      ∃ result after, setRegexp Sha1Hash.hash 0 [0, 0, 0, 0, 1, 0, 0] file = (.ok result, after) ∧
        True := by
    decide +kernel
  obtain ⟨file, parsed, apart, ⟨out, report⟩, after, ran, -⟩ := run
  exact ⟨file, out, report, after, parsed, ran,
    setRegexp_replaces (by decide +kernel) parsed apart ran⟩

/-- An image whose function has its large header in the storage, where the second entry reads. -/
def nestedImage : Bytes :=
  [198, 31, 188, 3, 193, 3, 25, 31, 96, 0, 0, 0, 0, 0, 0, 0, 0, 0, 0, 0, 0, 0, 0, 0, 0, 0, 0,
   0, 0, 0, 0, 0, 236, 0, 0, 0, 0, 0, 0, 0, 1, 0, 0, 0, 1, 0, 0, 0, 0, 0, 0, 0, 1, 0, 0, 0, 0,
   0, 0, 0, 1, 0, 0, 0, 0, 0, 0, 0, 0, 0, 0, 0, 2, 0, 0, 0, 38, 0, 0, 0, 0, 0, 0, 0, 0, 0, 0,
   0, 0, 0, 0, 0, 0, 0, 0, 0, 0, 0, 0, 0, 0, 0, 0, 0, 0, 0, 0, 0, 0, 0, 0, 0, 0, 0, 0, 0, 0,
   0, 0, 0, 0, 0, 0, 0, 0, 0, 0, 0, 179, 0, 0, 0, 0, 0, 0, 0, 0, 0, 0, 0, 0, 0, 0, 32, 1, 0,
   0, 0, 0, 0, 0, 1, 97, 0, 0, 0, 0, 0, 0, 0, 7, 0, 0, 0, 7, 0, 0, 0, 31, 0, 0, 0, 0, 0, 0, 0,
   0, 0, 0, 212, 0, 0, 0, 1, 0, 0, 0, 2, 0, 0, 0, 0, 0, 0, 0, 0, 0, 0, 0, 2, 0, 0, 0, 0, 0, 0,
   0, 0, 0, 0, 0, 0, 1, 0, 0, 0, 56, 151, 33, 205, 15, 68, 39, 21, 79, 30, 255, 124, 86, 238,
   77, 142, 77, 223, 97, 227]

/-- Appending to that storage moves the body, and its new offset is written into the range of the
second entry. -/
theorem setRegexp_nested :
    ∃ file, parseAuto Sha1Hash.hash nestedImage = .ok file ∧
      ∃ own, regexpPayload file 1 = .ok own ∧
        ∃ result after, setRegexp Sha1Hash.hash 0 [0, 0, 0, 0, 0, 0, 1, 0] file =
            (.ok result, after) ∧
          regexpPayload after 1 ≠ .ok own := by
  decide +kernel

end HermesDecomp.Regexps
