import HermesDecomp.Write.Reading
import HermesDecomp.Write.Reloc

/-!
# Writing a legacy header

The fields of a legacy header are written one behind the other, those that a version does not
have left out. The parser reads them back, and the places computed for two of them are the
places where they were written.
-/

namespace HermesDecomp

open List

/-- The values a legacy header is written from. -/
structure LegacyFields where
  version : UInt32
  sourceHash : { bytes : Bytes // bytes.length = 20 }
  fileLength : UInt32
  globalCodeIndex : UInt32
  functionCount : UInt32
  stringKindCount : UInt32
  identifierCount : UInt32
  stringCount : UInt32
  overflowStringCount : UInt32
  stringStorageSize : UInt32
  bigIntCount : UInt32
  bigIntStorageSize : UInt32
  regExpCount : UInt32
  regExpStorageSize : UInt32
  arrayBufferSize : UInt32
  objKeyBufferSize : UInt32
  objValueBufferSize : UInt32
  segmentId : UInt32
  cjsModuleCount : UInt32
  functionSourceCount : UInt32
  debugInfoOffset : UInt32
  options : UInt8

/-- Which of the optional fields a legacy header has. -/
structure LegacyGates where
  hasBigint : Bool
  hasSegmentId : Bool
  hasFunctionSource : Bool

/-- The optional fields of a version. -/
def LegacyGates.ofVersion (version : Nat) : LegacyGates where
  hasBigint := Parser.legacyBigintMinVersion ≤ version
  hasSegmentId := Parser.legacySegmentIdMinVersion ≤ version
  hasFunctionSource := Parser.legacyFunctionSourceMinVersion ≤ version

/-- The header that legacy fields describe. -/
def LegacyFields.header (gates : LegacyGates) (fields : LegacyFields) : BytecodeHeader where
  magic := Parser.magicNumber
  version := fields.version.toNat
  sourceHash := fields.sourceHash.1
  fileLength := fields.fileLength.toNat
  globalCodeIndex := fields.globalCodeIndex.toNat
  functionCount := fields.functionCount.toNat
  stringKindCount := fields.stringKindCount.toNat
  identifierCount := fields.identifierCount.toNat
  stringCount := fields.stringCount.toNat
  overflowStringCount := fields.overflowStringCount.toNat
  stringStorageSize := fields.stringStorageSize.toNat
  bigIntCount := if gates.hasBigint then some fields.bigIntCount.toNat else none
  bigIntStorageSize := if gates.hasBigint then some fields.bigIntStorageSize.toNat else none
  regExpCount := fields.regExpCount.toNat
  regExpStorageSize := fields.regExpStorageSize.toNat
  literalValueBufferSize := none
  arrayBufferSize := some fields.arrayBufferSize.toNat
  objKeyBufferSize := fields.objKeyBufferSize.toNat
  objValueBufferSize := some fields.objValueBufferSize.toNat
  objShapeTableCount := none
  numStringSwitchImms := none
  segmentId := if gates.hasSegmentId then some fields.segmentId.toNat else none
  cjsModuleOffset := if gates.hasSegmentId then none else some 0
  cjsModuleCount := fields.cjsModuleCount.toNat
  functionSourceCount := if gates.hasFunctionSource then some fields.functionSourceCount.toNat else none
  debugInfoOffset := fields.debugInfoOffset.toNat
  optionsRaw := fields.options.toNat
  layout := .legacy
  functionHeaderLayout := .legacy16

namespace HeaderWrite

/-- A 32-bit field. -/
def field (value : UInt32) : Bytes := Bytes.leBytes 4 value.toNat

/-- The fields that every legacy header starts with. -/
def legacyFront (fields : LegacyFields) : Bytes :=
  Bytes.leBytes 8 Parser.magicNumber ++ (field fields.version ++ (fields.sourceHash.1 ++
    (field fields.fileLength ++ (field fields.globalCodeIndex ++ (field fields.functionCount ++
      (field fields.stringKindCount ++ (field fields.identifierCount ++
        (field fields.stringCount ++ (field fields.overflowStringCount ++
          field fields.stringStorageSize)))))))))

/-- The two bigint fields, where the version has them. -/
def bigintFields (gates : LegacyGates) (fields : LegacyFields) : Bytes :=
  if gates.hasBigint then field fields.bigIntCount ++ field fields.bigIntStorageSize else []

/-- The regular expression fields and the sizes of the buffers. -/
def bufferFields (fields : LegacyFields) : Bytes :=
  field fields.regExpCount ++ (field fields.regExpStorageSize ++ (field fields.arrayBufferSize ++
    (field fields.objKeyBufferSize ++ field fields.objValueBufferSize)))

/-- The segment id, or the zero that older versions have as the offset of the modules, and the
count of modules. -/
def moduleFields (gates : LegacyGates) (fields : LegacyFields) : Bytes :=
  (if gates.hasSegmentId then field fields.segmentId else field 0) ++ field fields.cjsModuleCount

/-- The function source count, where the version has it. -/
def sourceFields (gates : LegacyGates) (fields : LegacyFields) : Bytes :=
  if gates.hasFunctionSource then field fields.functionSourceCount else []

/-- The bytes of a legacy header. -/
def legacyHeaderBytes (gates : LegacyGates) (fields : LegacyFields) : Bytes :=
  legacyFront fields ++ (bigintFields gates fields ++ (bufferFields fields ++
    (moduleFields gates fields ++ (sourceFields gates fields ++
      (field fields.debugInfoOffset ++ [fields.options])))))

/-- Write a legacy header at the start of a buffer. -/
def writeLegacyHeader (gates : LegacyGates) (fields : LegacyFields) (buf : Bytes) : Result Bytes :=
  if buf.length < Parser.headerSize then .err (.write "buffer too small for header")
  else .ok (Bytes.overwrite buf 0 (legacyHeaderBytes gates fields))

/-- Where a file header has the count of regular expressions; the size of their storage
follows. -/
def regExpCountPos (header : BytecodeHeader) : Nat :=
  if header.functionHeaderLayout = .modern12 ∨ header.bigIntCount.isSome then 72 else 64

end HeaderWrite

namespace Reader

open HeaderWrite (field)

theorem readsAs_readNat {width value : Nat} (small : value < 256 ^ width) :
    ReadsAs (readNat width) (Bytes.leBytes width value) value := by
  intro before after
  exact readNat_between.mpr ⟨small, after, rfl, rfl⟩

theorem readsAs_readBytes (bytes : Bytes) : ReadsAs (readBytes bytes.length) bytes bytes := by
  intro before after
  exact readExact_between.mpr ⟨rfl, after, rfl, rfl⟩

theorem readsAs_field (value : UInt32) : ReadsAs readU32 (field value) value.toNat :=
  readsAs_readNat value.toNat_lt

theorem readsAs_byte (value : UInt8) : ReadsAs readU8 [value] value.toNat := by
  have reads : ReadsAs readU8 (Bytes.leBytes 1 value.toNat) value.toNat :=
    readsAs_readNat value.toNat_lt
  rwa [Bytes.leBytes, Bytes.leBytes, UInt8.ofNat_toNat] at reads

/-- A field that is read where its version has it is read where it was written. -/
theorem readsAs_readWhen (present : Bool) (value : UInt32) :
    ReadsAs (Parser.readWhen present) (if present then field value else [])
      (if present then some value.toNat else none) := by
  cases present with
  | false => exact readsAs_pure none
  | true => exact readsAs_bind_pure (readsAs_field value) (readsAs_pure _)

end Reader

namespace HeaderWrite

open Reader

/-- The bytes behind the version and the source hash, one field after the other. -/
def legacyRest (gates : LegacyGates) (fields : LegacyFields) : Bytes :=
  field fields.fileLength ++ (field fields.globalCodeIndex ++ (field fields.functionCount ++
    (field fields.stringKindCount ++ (field fields.identifierCount ++ (field fields.stringCount ++
      (field fields.overflowStringCount ++ (field fields.stringStorageSize ++
        ((if gates.hasBigint then field fields.bigIntCount else []) ++
          ((if gates.hasBigint then field fields.bigIntStorageSize else []) ++
            (field fields.regExpCount ++ (field fields.regExpStorageSize ++
              (field fields.arrayBufferSize ++ (field fields.objKeyBufferSize ++
                (field fields.objValueBufferSize ++
                  ((if gates.hasSegmentId then field fields.segmentId else []) ++
                    ((if !gates.hasSegmentId then field 0 else []) ++
                      (field fields.cjsModuleCount ++
                        ((if gates.hasFunctionSource then field fields.functionSourceCount else []) ++
                          (field fields.debugInfoOffset ++ [fields.options])))))))))))))))))))

theorem legacyHeaderBytes_eq (gates : LegacyGates) (fields : LegacyFields) :
    legacyHeaderBytes gates fields = Bytes.leBytes 8 Parser.magicNumber ++
      (field fields.version ++ (fields.sourceHash.1 ++ legacyRest gates fields)) := by
  have segment : (if gates.hasSegmentId then field fields.segmentId else field 0) =
      (if gates.hasSegmentId then field fields.segmentId else []) ++
        (if !gates.hasSegmentId then field 0 else []) := by
    cases gates.hasSegmentId with
    | false => rfl
    | true => exact (append_nil _).symm
  have bigint : bigintFields gates fields =
      (if gates.hasBigint then field fields.bigIntCount else []) ++
        (if gates.hasBigint then field fields.bigIntStorageSize else []) := by
    unfold bigintFields
    cases gates.hasBigint with
    | false => rfl
    | true => rfl
  unfold legacyHeaderBytes legacyFront legacyRest bufferFields moduleFields sourceFields
  rw [segment, bigint]
  simp

/-- The parser reads the fields behind the source hash, with the fields that the version has. -/
theorem readsAs_legacyRest (fields : LegacyFields) (old : fields.version.toNat < 97) :
    ReadsAs (Parser.parseLegacyHeader fields.version.toNat Parser.magicNumber fields.sourceHash.1)
      (legacyRest (.ofVersion fields.version.toNat) fields)
      (fields.header (.ofVersion fields.version.toNat)) := by
  have layout : Parser.inferFunctionHeaderLayout fields.version.toNat = .legacy16 :=
    if_neg (Nat.not_le_of_lt old)
  have offset : (if !decide (Parser.legacySegmentIdMinVersion ≤ fields.version.toNat) then
      some (0 : UInt32).toNat else none) =
      (fields.header (.ofVersion fields.version.toNat)).cjsModuleOffset := by
    unfold LegacyFields.header LegacyGates.ofVersion
    cases decide (Parser.legacySegmentIdMinVersion ≤ fields.version.toNat) with
    | false => rfl
    | true => rfl
  unfold Parser.parseLegacyHeader legacyRest
  refine readsAs_bind (readsAs_field _) (readsAs_bind (readsAs_field _) (readsAs_bind
    (readsAs_field _) (readsAs_bind (readsAs_field _) (readsAs_bind (readsAs_field _)
      (readsAs_bind (readsAs_field _) (readsAs_bind (readsAs_field _)
        (readsAs_bind (readsAs_field _) ?_)))))))
  refine readsAs_bind (readsAs_readWhen _ _) (readsAs_bind (readsAs_readWhen _ _) ?_)
  refine readsAs_bind (readsAs_field _) (readsAs_bind (readsAs_field _) (readsAs_bind
    (readsAs_field _) (readsAs_bind (readsAs_field _) (readsAs_bind (readsAs_field _) ?_))))
  refine readsAs_bind (readsAs_readWhen _ _) (readsAs_bind (readsAs_readWhen _ _) ?_)
  refine readsAs_bind (readsAs_field _) (readsAs_bind (readsAs_readWhen _ _) ?_)
  refine readsAs_bind (readsAs_field _) (readsAs_bind_pure (readsAs_byte _) ?_)
  rw [layout, offset]
  exact readsAs_pure _

/-- The parser reads a written legacy header as the header that its fields describe. -/
theorem readsAs_legacyHeader (fields : LegacyFields) (old : fields.version.toNat < 97) :
    ReadsAs (Parser.parseHeader .legacy .legacy16)
      (legacyHeaderBytes (.ofVersion fields.version.toNat) fields)
      (fields.header (.ofVersion fields.version.toNat)) := by
  rw [legacyHeaderBytes_eq]
  unfold Parser.parseHeader
  refine readsAs_bind (readsAs_readNat (by decide)) ?_
  rw [if_neg (not_not_intro rfl)]
  refine readsAs_bind (readsAs_field _) ?_
  have hash := readsAs_readBytes fields.sourceHash.1
  rw [fields.sourceHash.2] at hash
  refine readsAs_bind hash (readsAs_bind_pure (readsAs_legacyRest fields old) ?_)
  exact readsAs_pure _

/-- Byte strings that differ in one 32-bit field only, which they have at a position. -/
def FieldAt (bytes : UInt32 → Bytes) (pos : Nat) : Prop :=
  ∃ before after, before.length = pos ∧ ∀ value, bytes value = before ++ (field value ++ after)

theorem field_length (value : UInt32) : (field value).length = 4 := Bytes.leBytes_length _ _

variable {bytes : UInt32 → Bytes} {pos : Nat}

theorem FieldAt.append (placed : FieldAt bytes pos) (more : Bytes)
    : FieldAt (fun value => bytes value ++ more) pos:= by
  obtain ⟨before, after, place, same⟩ := placed
  refine ⟨before, after ++ more, place, ?_⟩
  intro value
  dsimp only
  rw [same, append_assoc, append_assoc]

theorem FieldAt.length_eq (placed : FieldAt bytes pos) (old new : UInt32)
    : (bytes new).length = (bytes old).length:= by
  obtain ⟨before, after, place, same⟩ := placed
  rw [same, same, length_append, length_append, length_append, length_append,
    field_length, field_length]

/-- The field is read at its position. -/
theorem FieldAt.u32At (placed : FieldAt bytes pos) (value : UInt32)
    : Bytes.u32At (bytes value) pos = some value.toNat:= by
  obtain ⟨before, after, rfl, same⟩ := placed
  have taken : Bytes.slice (bytes value) before.length 4 = some (field value) := by
    rw [same, Bytes.slice_eq_some]
    constructor
    · rw [length_append, length_append, field_length]
      exact Nat.add_le_add_left (Nat.le_add_right _ _) _
    · rw [drop_left, take_left' (field_length value)]
  rw [Bytes.u32At, taken, Option.map_some, field, Bytes.leNat_leBytes_of_lt value.toNat_lt]

/-- A field that is overwritten at its position is the field written in the first place. -/
theorem FieldAt.overwrite (placed : FieldAt bytes pos) (old new : UInt32)
    : Bytes.overwrite (bytes old) pos (field new) = bytes new:= by
  obtain ⟨before, after, rfl, same⟩ := placed
  have behind : List.drop (before.length + 4) (before ++ (field old ++ after)) = after := by
    rw [← drop_drop, drop_left, drop_left' (field_length old)]
  rw [Bytes.overwrite, same, same, take_left, field_length, behind, append_assoc]

theorem legacyFront_length (fields : LegacyFields) : (legacyFront fields).length = 64 := by
  simp [legacyFront, Bytes.leBytes_length, field_length, fields.sourceHash.2]

section

variable (gates : LegacyGates) (fields : LegacyFields)

theorem bigintFields_length :
    (bigintFields gates fields).length = if gates.hasBigint then 8 else 0 := by
  unfold bigintFields
  split
  · rw [length_append, field_length, field_length]
  · exact length_nil

theorem moduleFields_length : (moduleFields gates fields).length = 8 := by
  unfold moduleFields
  split
  · rw [length_append, field_length, field_length]
  · rw [length_append, field_length, field_length]

theorem sourceFields_length :
    (sourceFields gates fields).length = if gates.hasFunctionSource then 4 else 0 := by
  unfold sourceFields
  split
  · exact field_length _
  · exact length_nil

end

theorem bufferFields_length (fields : LegacyFields) : (bufferFields fields).length = 20 := by
  simp [bufferFields, field_length]

section

variable (gates : LegacyGates) (fields : LegacyFields)

/-- A written header fits the bytes reserved for it. -/
theorem legacyHeaderBytes_length_le :
    (legacyHeaderBytes gates fields).length ≤ Parser.headerSize := by
  have bigint : (if gates.hasBigint then 8 else 0) ≤ 8 := by split <;> decide
  have source : (if gates.hasFunctionSource then 4 else 0) ≤ 4 := by split <;> decide
  rw [legacyHeaderBytes, length_append, length_append, length_append, length_append, length_append,
    length_append, legacyFront_length, bigintFields_length, bufferFields_length,
    moduleFields_length, sourceFields_length, field_length, length_singleton, Parser.headerSize]
  omega

/-- The offset of the debug section is where the relocation looks for it. -/
theorem debugInfoOffset_at :
    FieldAt (fun value => legacyHeaderBytes gates { fields with debugInfoOffset := value })
      (Reloc.debugInfoOffsetPos (fields.header gates) false) := by
  refine ⟨legacyFront fields ++ (bigintFields gates fields ++ (bufferFields fields ++
    (moduleFields gates fields ++ sourceFields gates fields))), [fields.options], ?_, ?_⟩
  · have bigint : (fields.header gates).bigIntCount.isSome = gates.hasBigint := by
      unfold LegacyFields.header
      cases gates.hasBigint with
      | false => rfl
      | true => rfl
    have source : (fields.header gates).functionSourceCount.isSome = gates.hasFunctionSource := by
      unfold LegacyFields.header
      cases gates.hasFunctionSource with
      | false => rfl
      | true => rfl
    rw [length_append, length_append, length_append, length_append,
      legacyFront_length, bigintFields_length, bufferFields_length, moduleFields_length,
      sourceFields_length, Reloc.debugInfoOffsetPos, if_neg Bool.false_ne_true, bigint, source]
    omega
  · intro value
    simp only [append_assoc]
    rfl

/-- The count of regular expressions is where their storage is edited. -/
theorem regExpCount_at :
    FieldAt (fun value => legacyHeaderBytes gates { fields with regExpCount := value })
      (regExpCountPos (fields.header gates)) := by
  refine ⟨legacyFront fields ++ bigintFields gates fields, field fields.regExpStorageSize ++
    (field fields.arrayBufferSize ++ (field fields.objKeyBufferSize ++
      (field fields.objValueBufferSize ++ (moduleFields gates fields ++ (sourceFields gates fields ++
        (field fields.debugInfoOffset ++ [fields.options])))))), ?_, ?_⟩
  · have bigint : (fields.header gates).functionHeaderLayout = .modern12 ∨
        (fields.header gates).bigIntCount.isSome ↔ gates.hasBigint := by
      unfold LegacyFields.header
      cases gates.hasBigint with
      | false => simp
      | true => simp
    rw [length_append, legacyFront_length, bigintFields_length, regExpCountPos]
    by_cases has : gates.hasBigint = true
    · rw [if_pos has, if_pos (bigint.mpr has)]
    · rw [if_neg has, if_neg (mt bigint.mp has)]
  · intro value
    simp only [legacyHeaderBytes, bufferFields, append_assoc]
    rfl

/-- The file length of a legacy image. -/
theorem legacyFileLength_at :
    FieldAt (fun value => legacyHeaderBytes gates { fields with fileLength := value }) 32 := by
  refine ⟨Bytes.leBytes 8 Parser.magicNumber ++ (field fields.version ++ fields.sourceHash.1),
    field fields.globalCodeIndex ++ (field fields.functionCount ++ (field fields.stringKindCount ++
      (field fields.identifierCount ++ (field fields.stringCount ++
        (field fields.overflowStringCount ++ (field fields.stringStorageSize ++
          (bigintFields gates fields ++ (bufferFields fields ++ (moduleFields gates fields ++
            (sourceFields gates fields ++ (field fields.debugInfoOffset ++ [fields.options]))))))))))),
    ?_, ?_⟩
  · simp [field_length, Bytes.leBytes_length, fields.sourceHash.2]
  · intro value
    simp only [legacyHeaderBytes, legacyFront, append_assoc]
    rfl

/-- What writing a header leaves in a buffer. -/
theorem writeLegacyHeader_eq {buf : Bytes} (room : Parser.headerSize ≤ buf.length) :
    writeLegacyHeader gates fields buf =
      .ok (legacyHeaderBytes gates fields ++ buf.drop (legacyHeaderBytes gates fields).length) := by
  rw [writeLegacyHeader, if_neg (Nat.not_lt_of_le room), Bytes.overwrite, take_zero,
    nil_append, zero_add]

end

/-- A legacy header is read back as it was written, and the two places that later edits compute
from it are where their fields are: an edit there is the header written with the new value. -/
theorem writeLegacyHeader_readsBack (fields : LegacyFields) (buf : Bytes)
    (old : fields.version.toNat < 97) (room : Parser.headerSize ≤ buf.length) :
    let gates := LegacyGates.ofVersion fields.version.toNat
    let header := fields.header gates
    let debugPos := Reloc.debugInfoOffsetPos header false
    ∃ out, writeLegacyHeader gates fields buf = .ok out ∧
      (Parser.parseHeader .legacy .legacy16 (.new out)).1 = .ok header ∧
      Bytes.u32At out debugPos = some fields.debugInfoOffset.toNat ∧
      Bytes.u32At out (regExpCountPos header) = some fields.regExpCount.toNat ∧
      (∀ value, writeLegacyHeader gates { fields with debugInfoOffset := value } buf =
        .ok (Bytes.overwrite out debugPos (field value))) ∧
      ∀ value, writeLegacyHeader gates { fields with regExpCount := value } buf =
        .ok (Bytes.overwrite out (regExpCountPos header) (field value)) := by
  intro gates header debugPos
  have debug := (debugInfoOffset_at gates fields).append
    (buf.drop (legacyHeaderBytes gates fields).length)
  have count := (regExpCount_at gates fields).append
    (buf.drop (legacyHeaderBytes gates fields).length)
  refine ⟨_, writeLegacyHeader_eq gates fields room, ?_, debug.u32At fields.debugInfoOffset,
    count.u32At fields.regExpCount, ?_, ?_⟩
  · rw [ByteReader.new_eq_between]
    exact congrArg Prod.fst (readsAs_legacyHeader fields old [] _)
  · intro value
    rw [writeLegacyHeader_eq gates _ room,
      (debugInfoOffset_at gates fields).length_eq fields.debugInfoOffset value]
    exact congrArg Outcome.ok (debug.overwrite fields.debugInfoOffset value).symm
  · intro value
    rw [writeLegacyHeader_eq gates _ room,
      (regExpCount_at gates fields).length_eq fields.regExpCount value]
    exact congrArg Outcome.ok (count.overwrite fields.regExpCount value).symm

/-- The fields of an image of version 84 with a debug section, which has no bigint fields. -/
def sampleFields : LegacyFields where
  version := 84
  sourceHash := ⟨List.replicate 20 7, rfl⟩
  fileLength := 4000
  globalCodeIndex := 0
  functionCount := 3
  stringKindCount := 1
  identifierCount := 2
  stringCount := 9
  overflowStringCount := 0
  stringStorageSize := 60
  bigIntCount := 0
  bigIntStorageSize := 0
  regExpCount := 1
  regExpStorageSize := 20
  arrayBufferSize := 0
  objKeyBufferSize := 0
  objValueBufferSize := 0
  segmentId := 5
  cjsModuleCount := 0
  functionSourceCount := 0
  debugInfoOffset := 3000
  options := 2

/-- The sample fields, written over an empty header. -/
theorem writeLegacyHeader_sample :
    sampleFields.version.toNat < 97 ∧ Parser.headerSize ≤ (List.replicate 128 (0 : UInt8)).length ∧
      ∃ out, writeLegacyHeader (.ofVersion 84) sampleFields (List.replicate 128 0) = .ok out ∧
        (Parser.parseHeader .legacy .legacy16 (.new out)).1 =
          .ok (sampleFields.header (.ofVersion 84)) := by
  have room : Parser.headerSize ≤ (List.replicate 128 (0 : UInt8)).length := by
    rw [length_replicate, Parser.headerSize]
  refine ⟨by decide, room, ?_⟩
  obtain ⟨out, written, read, -⟩ := writeLegacyHeader_readsBack sampleFields
    (List.replicate 128 0) (by decide) room
  exact ⟨out, written, read⟩

end HeaderWrite

end HermesDecomp
