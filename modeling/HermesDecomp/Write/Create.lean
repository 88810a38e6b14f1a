import HermesDecomp.Write.LegacyHeader
import HermesDecomp.Write.Strings

/-!
# Creating an image

A minimal image has one function, which holds a given body, and a table of strings. The two
builders lay the sections out one behind the other, fill the headers in and seal the image.
-/

namespace HermesDecomp

open List

/-- The function may be called and constructed. -/
def prohibitNone : Nat := 2

namespace HeaderWrite

/-- A legacy inline header, each field cut to its width. -/
def writeFunctionHeaderLegacySmall (offset paramCount bytecodeSize functionName infoOffset frameSize
    environmentSize highestReadCache highestWriteCache flags : Nat) : Bytes :=
  Bytes.leBytes 16 ((offset &&& (2 ^ 25 - 1)) <<< 0 ||| (paramCount &&& (2 ^ 7 - 1)) <<< 25 |||
    (bytecodeSize &&& (2 ^ 15 - 1)) <<< 32 ||| (functionName &&& (2 ^ 17 - 1)) <<< 47 |||
    (infoOffset &&& (2 ^ 25 - 1)) <<< 64 ||| (frameSize &&& (2 ^ 7 - 1)) <<< 89 |||
    (environmentSize &&& (2 ^ 8 - 1)) <<< 96 ||| (highestReadCache &&& (2 ^ 8 - 1)) <<< 104 |||
    (highestWriteCache &&& (2 ^ 8 - 1)) <<< 112 ||| (flags &&& (2 ^ 8 - 1)) <<< 120)

/-- The counts and sizes of a modern header, from the function count on. -/
def modernCounts (functionCount stringKindCount identifierCount stringCount
    stringStorageSize : UInt32) : List UInt32 :=
  [functionCount, stringKindCount, identifierCount, stringCount, 0, stringStorageSize,
    0, 0, 0, 0, 0, 0, 0, 0, 0, 0, 0, 0, 0]

/-- Write a modern header at the start of a buffer, but for the file length and the index of the
global code. -/
def writeModernHeader (version : UInt32) (sourceHash : { bytes : Bytes // bytes.length = 20 })
    (functionCount stringKindCount identifierCount stringCount stringStorageSize : UInt32)
    (buf : Bytes) : Result Bytes :=
  if buf.length < Parser.headerSize then .err (.write "modern header buffer too small")
  else
    let buf := Bytes.overwrite buf 0
      (Bytes.leBytes 8 Parser.magicNumber ++ (field version ++ sourceHash.1))
    .ok (Bytes.overwrite buf 40 ((modernCounts functionCount stringKindCount identifierCount
      stringCount stringStorageSize).flatMap field))

end HeaderWrite

namespace Create

open StringStorage HeaderWrite

/-- What an image is created from. -/
structure CreateOptions where
  version : UInt32
  globalBody : Bytes
  strings : List Text

/-- The string tables of a created image: laid out by id, sharing nothing. -/
def createStringTables (strings : List Text) : Result StringLayout :=
  layOut (strings.map StoredString.encode) ∅ .unpacked

/-- Append the small table, the overflow records and the storage, each padded to four. -/
def pushStringTables (buf : Bytes) (tables : StringLayout) : Bytes :=
  let buf := Strings.padTo4 (buf ++ Strings.u32Bytes tables.small)
  let buf := Strings.padTo4 (buf ++ Strings.recordBytes tables.overflow)
  Strings.padTo4 (buf ++ tables.storage)

/-- The one kind run, no identifier hashes and the string tables, behind the slot of the one
function. -/
def pushStringSections (buf : Bytes) (strings : List Text) (tables : StringLayout) : Bytes :=
  let buf := Strings.padTo4 (buf ++ Bytes.leBytes 4 (strings.length % 2 ^ 32))
  pushStringTables (Strings.padTo4 buf) tables

/-- Seal a built image: append the footer, record the length and renew the footer. -/
def sealImage (sha1 : Sha1) (buf : Bytes) : Result Bytes := do
  let buf := Footer.appendFooter sha1 buf
  let buf ← Buffer.writeU32 buf 32 (buf.length % 2 ^ 32)
  pure (Footer.rehashFooter sha1 buf)

/-- The fields of a created legacy header before its length is known. -/
def legacyFields (version : UInt32) (strings : List Text) (tables : StringLayout) :
    LegacyFields where
  version := version
  sourceHash := ⟨List.replicate 20 0, length_replicate⟩
  fileLength := 0
  globalCodeIndex := 0
  functionCount := 1
  stringKindCount := 1
  identifierCount := 0
  stringCount := UInt32.ofNat strings.length
  overflowStringCount := UInt32.ofNat tables.overflow.length
  stringStorageSize := UInt32.ofNat tables.storage.length
  bigIntCount := 0
  bigIntStorageSize := 0
  regExpCount := 0
  regExpStorageSize := 0
  arrayBufferSize := 0
  objKeyBufferSize := 0
  objValueBufferSize := 0
  segmentId := 0
  cjsModuleCount := 0
  functionSourceCount := 0
  debugInfoOffset := 0
  options := 0

/-- Build a minimal legacy image. -/
def buildMinimalLegacy (sha1 : Sha1) (version : UInt32) (strings : List Text) (globalBody : Bytes) :
    Result Bytes :=
  if 97 ≤ version.toNat then
    .err (.write "build_minimal_legacy: v97 and newer use modern layout (build_minimal_modern)")
  else do
    let tables ← createStringTables strings
    let buf := List.replicate Parser.headerSize 0 ++ List.replicate Parser.legacyHeaderSize 0
    let buf := pushStringSections buf strings tables
    let instructionOffset := buf.length % 2 ^ 32
    let buf := buf ++ globalBody
    let slot := writeFunctionHeaderLegacySmall instructionOffset 1 (globalBody.length % 2 ^ 32) 0 0 2
      0 0 0 prohibitNone
    let buf ← Buffer.write buf Parser.headerSize slot
    let buf ← writeLegacyHeader (.ofVersion version.toNat) (legacyFields version strings tables) buf
    sealImage sha1 buf

/-- The large header of a created modern function, which is all zero but for what says where the
body is and how to call it. -/
def largeHeader (layout : ModernLayout) (instructionOffset bodySize : Nat) : Bytes :=
  let fields := [(modernLargeOffset, instructionOffset), (modernLargeParamCount, 1),
    (modernLargeLoopDepth, 0), (modernLargeBytecodeSize, bodySize), (modernLargeFunctionName, 0),
    (modernLargeNumberRegCount, 0), (modernLargeNonPtrRegCount, 1), (modernLargeFrameSize, 1)]
  let large := fields.foldl (fun large (pos, value) => Bytes.overwrite large pos (Bytes.leBytes 4 value))
    (List.replicate layout.largeSize 0)
  Bytes.overwrite large layout.largeFlagsPos [UInt8.ofNat prohibitNone]

/-- The slot of an overflowed modern function, which only says where its large header is. -/
def overflowedSlot (largeHeaderPos : Nat) : Bytes :=
  (Bytes.leBytes 16 ((largeHeaderPos &&& (2 ^ 24 - 1)) <<< 0 ||| (largeHeaderPos >>> 24) <<< 46 |||
    flagOverflowed <<< 88)).take 12

/-- Build a minimal modern image. -/
def buildMinimalModern (sha1 : Sha1) (version : UInt32) (strings : List Text) (globalBody : Bytes) :
    Result Bytes :=
  if version.toNat < 97 then .err (.write "build_minimal_modern: version must be 97 or newer")
  else do
    let tables ← createStringTables strings
    let buf := List.replicate Parser.headerSize 0 ++ List.replicate Parser.modernHeaderSize 0
    let buf := pushStringSections (Strings.padTo4 buf) strings tables
    let instructionOffset := buf.length % 2 ^ 32
    let buf := Strings.padTo4 (buf ++ globalBody)
    let layout ← ModernLayout.forVersion version.toNat
    let largeHeaderPos := buf.length % 2 ^ 32
    let buf := Strings.padTo4
      (buf ++ largeHeader layout instructionOffset (globalBody.length % 2 ^ 32))
    let buf ← Buffer.write buf Parser.headerSize (overflowedSlot largeHeaderPos)
    let buf ← writeModernHeader version ⟨List.replicate 20 0, length_replicate⟩ 1 1 0
      (UInt32.ofNat strings.length) (UInt32.ofNat tables.storage.length) buf
    let buf ← Buffer.writeU32 buf 56 (tables.overflow.length % 2 ^ 32)
    sealImage sha1 buf

/-- What a created header must say: each field with its value and the value it must have. -/
def expectations (image : Bytes) (version : UInt32) (strings : List Text) (header : BytecodeHeader) :
    List (String × Nat × Nat) :=
  [("version", header.version, version.toNat), ("file_length", header.fileLength, image.length % 2 ^ 32),
    ("function_count", header.functionCount, 1), ("global_code_index", header.globalCodeIndex, 0),
    ("string_count", header.stringCount, strings.length % 2 ^ 32),
    ("string_kind_count", header.stringKindCount, 1), ("identifier_count", header.identifierCount, 0),
    ("debug_info_offset", header.debugInfoOffset, 0), ("options", header.optionsRaw, 0),
    ("big_int_count", header.bigIntCount.getD 0, 0),
    ("big_int_storage_size", header.bigIntStorageSize.getD 0, 0),
    ("reg_exp_count", header.regExpCount, 0), ("reg_exp_storage_size", header.regExpStorageSize, 0),
    ("literal_value_buffer_size", header.literalValueBufferSize.getD 0, 0),
    ("array_buffer_size", header.arrayBufferSize.getD 0, 0),
    ("obj_key_buffer_size", header.objKeyBufferSize, 0),
    ("obj_value_buffer_size", header.objValueBufferSize.getD 0, 0),
    ("obj_shape_table_count", header.objShapeTableCount.getD 0, 0),
    ("num_string_switch_imms", header.numStringSwitchImms.getD 0, 0),
    ("segment_id", header.segmentId.getD 0, 0), ("cjs_module_offset", header.cjsModuleOffset.getD 0, 0),
    ("cjs_module_count", header.cjsModuleCount, 0),
    ("function_source_count", header.functionSourceCount.getD 0, 0)]

/-- The fields that are not as they must be. -/
def wrongFields (expected : List (String × Nat × Nat)) : List String :=
  (expected.filter fun (_, got, want) => got ≠ want).map fun (name, got, want) =>
    s!"{name} = {got}, expected {want}"

/-- Texts in a bracketed list. -/
def showTexts (texts : List Text) : String := "[" ++ ", ".intercalate (texts.map quote) ++ "]"

/-- What is wrong with the strings that were read. -/
def wrongStrings (got strings : List Text) : List String :=
  if got = strings then []
  else
    let found := showTexts got
    let wanted := showTexts strings
    [s!"strings = {found}, expected {wanted}"]

/-- What is wrong with the body of the function. -/
def wrongBody (image body : Bytes) (function : FunctionHeader) : List String :=
  if Bytes.slice image function.offset function.bytecodeSizeInBytes = some body then []
  else ["function 0 does not hold the body"]

/-- A created image must read back as it was meant to be. -/
def checkCreated (sha1 : Sha1) (image : Bytes) (version : UInt32) (strings : List Text)
    (body : Bytes) : Result PUnit :=
  match Parser.parseAuto sha1 image with
  | .panic => .panic
  | .err error =>
      let shown := error.describe
      .err (.write s!"create v{version}: output does not reparse: {shown}")
  | .ok file => do
      let function ← Outcome.index file.functionHeaders 0
      let wrong := wrongFields (expectations image version strings file.header) ++
        wrongStrings (file.strings.map (·.value)) strings ++ wrongBody image body function
      if wrong = [] then pure ⟨⟩
      else
        let listed := "; ".intercalate wrong
        .err (.write s!"create v{version}: the image does not read back as built: {listed}")

section Options

variable (formats : Nat → Result BytecodeFormat)

/-- The opcode of an instruction by its name. -/
def opcodeNamed (format : BytecodeFormat) (name : String) : Result UInt8 :=
  .ofOption (.write s!"{name} missing")
    ((format.definitions.find? (·.name == name)).map (·.opcode))

/-- A body that returns undefined, in the opcodes of a version. -/
def trivialBody (version : Nat) : Result Bytes := do
  let format ← formats version
  let load ← opcodeNamed format "LoadConstUndefined"
  let ret ← opcodeNamed format "Ret"
  encodeFunctionBody format
    [{ offset := 0, opcode := load, operands := [{ ty := .reg8, value := .u8 0 }], length := 2 },
      { offset := 2, opcode := ret, operands := [{ ty := .reg8, value := .u8 0 }], length := 2 }]

/-- The strings an image is created with: at least a name for the function. -/
def CreateOptions.written (options : CreateOptions) : List Text :=
  if options.strings = [] then ["global".toList] else options.strings

/-- Create a minimal image. -/
def createMinimal (sha1 : Sha1) (options : CreateOptions) : Result Bytes := do
  let body ← if options.globalBody = [] then trivialBody formats options.version.toNat
    else pure options.globalBody
  let strings := options.written
  let image ← if 97 ≤ options.version.toNat then
      buildMinimalModern sha1 options.version strings body
    else buildMinimalLegacy sha1 options.version strings body
  checkCreated sha1 image options.version strings body
  pure image

end Options

end Create

/-- The values a modern header is written from. -/
structure ModernFields where
  version : UInt32
  sourceHash : { bytes : Bytes // bytes.length = 20 }
  fileLength : UInt32
  globalCodeIndex : UInt32
  functionCount : UInt32
  stringKindCount : UInt32
  identifierCount : UInt32
  stringCount : UInt32
  overflowStringCount : UInt32
  stringStorageSize : UInt32
  bigIntCount : UInt32
  bigIntStorageSize : UInt32
  regExpCount : UInt32
  regExpStorageSize : UInt32
  literalValueBufferSize : UInt32
  objKeyBufferSize : UInt32
  objShapeTableCount : UInt32
  numStringSwitchImms : UInt32
  segmentId : UInt32
  cjsModuleCount : UInt32
  functionSourceCount : UInt32
  debugInfoOffset : UInt32
  options : UInt8

/-- The header that modern fields describe. -/
def ModernFields.header (fields : ModernFields) : BytecodeHeader where
  magic := Parser.magicNumber
  version := fields.version.toNat
  sourceHash := fields.sourceHash.1
  fileLength := fields.fileLength.toNat
  globalCodeIndex := fields.globalCodeIndex.toNat
  functionCount := fields.functionCount.toNat
  stringKindCount := fields.stringKindCount.toNat
  identifierCount := fields.identifierCount.toNat
  stringCount := fields.stringCount.toNat
  overflowStringCount := fields.overflowStringCount.toNat
  stringStorageSize := fields.stringStorageSize.toNat
  bigIntCount := some fields.bigIntCount.toNat
  bigIntStorageSize := some fields.bigIntStorageSize.toNat
  regExpCount := fields.regExpCount.toNat
  regExpStorageSize := fields.regExpStorageSize.toNat
  literalValueBufferSize := some fields.literalValueBufferSize.toNat
  arrayBufferSize := none
  objKeyBufferSize := fields.objKeyBufferSize.toNat
  objValueBufferSize := none
  objShapeTableCount := some fields.objShapeTableCount.toNat
  numStringSwitchImms := some fields.numStringSwitchImms.toNat
  segmentId := some fields.segmentId.toNat
  cjsModuleOffset := none
  cjsModuleCount := fields.cjsModuleCount.toNat
  functionSourceCount := some fields.functionSourceCount.toNat
  debugInfoOffset := fields.debugInfoOffset.toNat
  optionsRaw := fields.options.toNat
  layout := .modern
  functionHeaderLayout := .modern12

namespace HeaderWrite

open Reader

/-- The bytes of a modern header behind the index of the global code. -/
def modernRest (fields : ModernFields) : Bytes :=
  field fields.functionCount ++ (field fields.stringKindCount ++ (field fields.identifierCount ++
    (field fields.stringCount ++ (field fields.overflowStringCount ++
      (field fields.stringStorageSize ++ (field fields.bigIntCount ++
        (field fields.bigIntStorageSize ++ (field fields.regExpCount ++
          (field fields.regExpStorageSize ++ (field fields.literalValueBufferSize ++
            (field fields.objKeyBufferSize ++ (field fields.objShapeTableCount ++
              (field fields.numStringSwitchImms ++ (field fields.segmentId ++
                (field fields.cjsModuleCount ++ (field fields.functionSourceCount ++
                  (field fields.debugInfoOffset ++ [fields.options])))))))))))))))))

/-- The bytes of a modern header. -/
def modernHeaderBytes (fields : ModernFields) : Bytes :=
  Bytes.leBytes 8 Parser.magicNumber ++ (field fields.version ++ (fields.sourceHash.1 ++
    (field fields.fileLength ++ (field fields.globalCodeIndex ++ modernRest fields))))

section

variable (fields : ModernFields)

/-- The parser reads a modern header as the header that its fields describe. -/
theorem readsAs_modernHeader (new : 97 ≤ fields.version.toNat) :
    ReadsAs (Parser.parseHeader .modern .modern12) (modernHeaderBytes fields) fields.header := by
  have layout : Parser.inferFunctionHeaderLayout fields.version.toNat = .modern12 := if_pos new
  have rest : ReadsAs (Parser.parseModernHeader fields.version.toNat Parser.magicNumber
      fields.sourceHash.1) (field fields.fileLength ++ (field fields.globalCodeIndex ++
        modernRest fields)) fields.header := by
    unfold Parser.parseModernHeader modernRest
    iterate 20 refine readsAs_bind (readsAs_field _) ?_
    refine readsAs_bind_pure (readsAs_byte _) ?_
    rw [layout]
    exact readsAs_pure _
  unfold Parser.parseHeader modernHeaderBytes
  refine readsAs_bind (readsAs_readNat (by decide)) ?_
  rw [if_neg (not_not_intro rfl)]
  refine readsAs_bind (readsAs_field _) ?_
  have hash := readsAs_readBytes fields.sourceHash.1
  rw [fields.sourceHash.2] at hash
  refine readsAs_bind hash (readsAs_bind_pure rest ?_)
  exact readsAs_pure _

theorem modernRest_length : (modernRest fields).length = 73 := by
  simp only [modernRest, length_append, field_length, length_singleton]

theorem modernHeaderBytes_length : (modernHeaderBytes fields).length = 113 := by
  simp only [modernHeaderBytes, length_append, field_length, Bytes.leBytes_length,
    fields.sourceHash.2, modernRest_length]

/-- The file length is where every image has it. -/
theorem modernFileLength_at :
    FieldAt (fun value => modernHeaderBytes { fields with fileLength := value }) 32 := by
  refine ⟨Bytes.leBytes 8 Parser.magicNumber ++ (field fields.version ++ fields.sourceHash.1),
    field fields.globalCodeIndex ++ modernRest fields, ?_, ?_⟩
  · simp only [length_append, field_length, Bytes.leBytes_length, fields.sourceHash.2]
  · intro value
    simp only [modernHeaderBytes, append_assoc]
    rfl

/-- So is the count of overflow records. -/
theorem modernOverflowCount_at :
    FieldAt (fun value => modernHeaderBytes { fields with overflowStringCount := value }) 56 := by
  refine ⟨Bytes.leBytes 8 Parser.magicNumber ++ (field fields.version ++ (fields.sourceHash.1 ++
    (field fields.fileLength ++ (field fields.globalCodeIndex ++ (field fields.functionCount ++
      (field fields.stringKindCount ++ (field fields.identifierCount ++
        field fields.stringCount))))))), (modernRest fields).drop 20, ?_, ?_⟩
  · simp only [length_append, field_length, Bytes.leBytes_length, fields.sourceHash.2]
  · intro value
    simp only [modernHeaderBytes, modernRest, append_assoc]
    rfl

end

/-- The fields of a modern header that only has functions and strings, before its length and its
overflow records are known. -/
def writtenFields (version : UInt32) (sourceHash : { bytes : Bytes // bytes.length = 20 })
    (functionCount stringKindCount identifierCount stringCount stringStorageSize : UInt32) :
    ModernFields where
  version := version
  sourceHash := sourceHash
  fileLength := 0
  globalCodeIndex := 0
  functionCount := functionCount
  stringKindCount := stringKindCount
  identifierCount := identifierCount
  stringCount := stringCount
  overflowStringCount := 0
  stringStorageSize := stringStorageSize
  bigIntCount := 0
  bigIntStorageSize := 0
  regExpCount := 0
  regExpStorageSize := 0
  literalValueBufferSize := 0
  objKeyBufferSize := 0
  objShapeTableCount := 0
  numStringSwitchImms := 0
  segmentId := 0
  cjsModuleCount := 0
  functionSourceCount := 0
  debugInfoOffset := 0
  options := 0

/-- A modern header written over zeros. -/
theorem writeModernHeader_eq (version : UInt32)
    (sourceHash : { bytes : Bytes // bytes.length = 20 })
    (functionCount stringKindCount identifierCount stringCount stringStorageSize : UInt32)
    (rest : Bytes) :
    writeModernHeader version sourceHash functionCount stringKindCount identifierCount stringCount
        stringStorageSize (List.replicate Parser.headerSize 0 ++ rest) =
      .ok (modernHeaderBytes (writtenFields version sourceHash functionCount stringKindCount
        identifierCount stringCount stringStorageSize) ++ (List.replicate 15 0 ++ rest)) := by
  have room : ¬ (List.replicate Parser.headerSize 0 ++ rest : Bytes).length < Parser.headerSize := by
    rw [length_append, length_replicate]
    omega
  have zeros : (List.replicate Parser.headerSize 0 ++ rest : Bytes) = List.replicate 32 0 ++
      (List.replicate 8 0 ++ (List.replicate 76 0 ++ (List.replicate 12 0 ++ rest))) := by
    simp only [← append_assoc]
    exact congrArg (· ++ rest) (by decide)
  have first : Bytes.overwrite (List.replicate Parser.headerSize 0 ++ rest) 0
      (Bytes.leBytes 8 Parser.magicNumber ++ (field version ++ sourceHash.1)) =
        (Bytes.leBytes 8 Parser.magicNumber ++ (field version ++ sourceHash.1)) ++
          (List.replicate 8 0 ++ (List.replicate 76 0 ++ (List.replicate 12 0 ++ rest))) := by
    rw [zeros]
    refine @Bytes.overwrite_append [] (List.replicate 32 0) _ _ ?_
    simp only [length_append, Bytes.leBytes_length, field_length, sourceHash.2, length_replicate]
  have place : ((Bytes.leBytes 8 Parser.magicNumber ++ (field version ++ sourceHash.1)) ++
      List.replicate 8 0).length = 40 := by
    simp only [length_append, Bytes.leBytes_length, field_length, sourceHash.2, length_replicate]
  have second := @Bytes.overwrite_append ((Bytes.leBytes 8 Parser.magicNumber ++
    (field version ++ sourceHash.1)) ++ List.replicate 8 0) (List.replicate 76 0)
    (List.replicate 12 0 ++ rest) ((modernCounts functionCount stringKindCount identifierCount
      stringCount stringStorageSize).flatMap field) (by
        simp only [modernCounts, flatMap_cons, flatMap_nil, length_append,
          field_length, length_nil, length_replicate])
  rw [place, append_assoc _ (List.replicate 8 0)] at second
  unfold writeModernHeader
  dsimp only
  rw [if_neg room, first, second]
  refine congrArg Outcome.ok ?_
  simp only [modernHeaderBytes, modernRest, writtenFields, modernCounts, flatMap_cons,
    flatMap_nil, append_assoc]
  rfl

end HeaderWrite

end HermesDecomp
