import HermesDecomp.File.Function
import HermesDecomp.File.Structure
import HermesDecomp.Write.Footer

/-!
# Parsing an image

The sections of an image follow each other, each padded to four bytes. Both layouts share the
tables up to the string storage and the ones from the regular expressions on; the buffers between
them differ.

The declared version decides the layout. When that layout does not parse, the
other one is tried and a success is reported as a fallback.
-/

namespace HermesDecomp.Parser

open Reader

/-- A run of 32-bit numbers. -/
def parseU32Vec (count : Nat) : Reader (List Nat) := Action.repeatM readU32 count

/-- Two 32-bit numbers. -/
def readPair : Reader (Nat × Nat) := do
  let first ← readU32
  let second ← readU32
  pure (first, second)

/-- A run of pairs of numbers. -/
def parsePairTable (count : Nat) : Reader (List (Nat × Nat)) := Action.repeatM readPair count

/-- The overflow records of the string table. -/
def parseOverflowStringTable (count : Nat) : Reader (List (Nat × Nat)) := parsePairTable count

/-- A table of storage ranges. -/
def parseTableEntries (count : Nat) : Reader (List TableEntry) := do
  let pairs ← parsePairTable count
  pure (pairs.map fun (offset, length) => { offset, length })

/-- The table of object shapes. -/
def parseShapeTable (count : Nat) : Reader (List ShapeTableEntry) := do
  let pairs ← parsePairTable count
  pure (pairs.map fun (keyBufferOffset, numProps) => { keyBufferOffset, numProps })

/-- The high bit of a kind run: set for identifiers. -/
def stringKindTypeBit : Nat := 2 ^ 31

/-- A kind run: its kind in the high bit, its length below. -/
def kindOfRaw (raw : Nat) : StringKindEntry where
  kind := if raw &&& stringKindTypeBit = 0 then .string else .identifier
  count := raw &&& 0x7fffffff

/-- The kind runs of the string table. -/
def parseStringKinds (count : Nat) : Reader (List StringKindEntry) := do
  let raw ← parseU32Vec count
  pure (raw.map kindOfRaw)

/-- The length of a kind run, zero past the last one. -/
def runLength (kinds : List StringKindEntry) (kindIndex : Nat) : Nat :=
  (kinds[kindIndex]?.map (·.count)).getD 0

/-- The kind of a run, plain strings past the last one. -/
def runKind (kinds : List StringKindEntry) (kindIndex : Nat) : StringKindType :=
  (kinds[kindIndex]?.map (·.kind)).getD .string

/-- One kind for each of the next strings, with `remaining` left in a run. -/
def expandKinds (kinds : List StringKindEntry) :
    (count kindIndex remaining : Nat) → List StringKindType
  | 0, _, _ => []
  | count + 1, kindIndex, remaining =>
      if remaining = 0 then
        runKind kinds (kindIndex + 1) ::
          expandKinds kinds count (kindIndex + 1) (runLength kinds (kindIndex + 1) - 1)
      else runKind kinds kindIndex :: expandKinds kinds count kindIndex (remaining - 1)

/-- One kind for each string. -/
def stringKindsOf (kinds : List StringKindEntry) (count : Nat) : List StringKindType :=
  expandKinds kinds count 0 (runLength kinds 0)

/-- The text of a range of storage, when it lies inside and starts before the end. -/
def decodeString (storage : Bytes) (isUtf16 : Bool) (offset length : Nat) : Option Text :=
  let size := if isUtf16 then length * 2 else length
  if storage.length ≤ offset ∨ storage.length < offset + size then none
  else
    let part := (storage.drop offset).take size
    some (if isUtf16 then Utf.fromUtf16Lossy (Utf.units part) else Utf.fromUtf8Lossy part)

/-- What an entry whose range is not inside storage decodes to. -/
def invalidString (isUtf16 : Bool) : Text :=
  if isUtf16 then "<invalid utf16>".toList else "<invalid utf8>".toList

/-- Decode the small entries from id `i` on, and count the placeholders. -/
def decodeEntries (overflow : List (Nat × Nat)) (storage : Bytes) :
    (i : Nat) → List (Nat × StringKindType) → Result (List StringTableEntry × Nat)
  | _, [] => pure ([], 0)
  | i, (raw, kind) :: rest => do
      let entry := SmallStringEntry.decode raw
      let offset := entry.offset
      let records := overflow.length
      let (offset, length) ← .ofOption
        (.parse s!"string {i}: overflow record {offset} missing ({records} records)")
        (entry.resolve overflow)
      let found := decodeString storage entry.isUtf16 offset length
      let (strings, invalid) ← decodeEntries overflow storage (i + 1) rest
      pure ({ value := found.getD (invalidString entry.isUtf16), isUtf16 := entry.isUtf16,
              isIdentifier := kind == .identifier } :: strings,
        invalid + if found.isSome then 0 else 1)

/-- Decode the string table. A declared count past the small entries is cut down
to them. -/
def decodeStringTable (stringCount : Nat) (kinds : List StringKindEntry) (smallEntries : List Nat)
    (overflow : List (Nat × Nat)) (storage : Bytes) : Result (List StringTableEntry × Nat) :=
  let count := min stringCount smallEntries.length
  decodeEntries overflow storage 0 ((smallEntries.take count).zip (stringKindsOf kinds count))

theorem expandKinds_length (kinds : List StringKindEntry) (count kindIndex remaining : Nat) :
    (expandKinds kinds count kindIndex remaining).length = count := by
  induction count generalizing kindIndex remaining with
  | zero => rfl
  | succ count ih =>
    unfold expandKinds
    split <;> rw [List.length_cons, ih]

section Safety

open Action

variable {bytes : Bytes}

theorem safe_readPair : SafeOn (Addressable bytes) readPair :=
  safe_bind safe_readU32 fun _ => safe_bind safe_readU32 fun _ => safe_pure _

theorem safe_parseU32Vec (count : Nat) : SafeOn (Addressable bytes) (parseU32Vec count) :=
  safe_repeatM safe_readU32 count

theorem safe_parsePairTable (count : Nat) : SafeOn (Addressable bytes) (parsePairTable count) :=
  safe_repeatM safe_readPair count

theorem safe_parseTableEntries (count : Nat) : SafeOn (Addressable bytes) (parseTableEntries count) :=
  safe_bind (safe_parsePairTable count) fun _ => safe_pure _

theorem safe_parseShapeTable (count : Nat) : SafeOn (Addressable bytes) (parseShapeTable count) :=
  safe_bind (safe_parsePairTable count) fun _ => safe_pure _

theorem safe_parseStringKinds (count : Nat) : SafeOn (Addressable bytes) (parseStringKinds count) :=
  safe_bind (safe_parseU32Vec count) fun _ => safe_pure _

theorem decodeEntries_ne_panic (overflow : List (Nat × Nat)) (storage : Bytes) (i : Nat)
    (rows : List (Nat × StringKindType)) : decodeEntries overflow storage i rows ≠ .panic := by
  induction rows generalizing i with
  | nil => exact Outcome.pure_ne_panic _
  | cons row rows ih =>
    refine Outcome.bind_ne_panic (Outcome.ofOption_ne_panic _ _) fun _ _ => ?_
    exact Outcome.bind_ne_panic (ih (i + 1)) fun _ _ => Outcome.pure_ne_panic _

theorem decodeStringTable_ne_panic (stringCount : Nat) (kinds : List StringKindEntry)
    (smallEntries : List Nat) (overflow : List (Nat × Nat)) (storage : Bytes) :
    decodeStringTable stringCount kinds smallEntries overflow storage ≠ .panic :=
  decodeEntries_ne_panic _ _ _ _

end Safety

open Reader

/-- The tables that both layouts have before their buffers. -/
structure CommonTables where
  functionHeaders : List FunctionHeader
  stringKinds : List StringKindEntry
  identifierHashes : List Nat
  smallStringTable : List Nat
  overflowStringTable : List (Nat × Nat)
  stringStorage : Bytes

/-- The buffers of either layout; a layout leaves the other one's empty. -/
structure LayoutBuffers where
  bigIntTable : List TableEntry
  bigIntStorage : Bytes
  arrayBuffer : Bytes
  literalValueBuffer : Bytes
  objKeyBuffer : Bytes
  objValueBuffer : Bytes
  objShapeTable : List ShapeTableEntry

/-- The tables that both layouts have after their buffers, and where the bytecode
starts. -/
structure TrailingTables where
  regExpTable : List TableEntry
  regExpStorage : Bytes
  cjsModuleTable : List (Nat × Nat)
  functionSourceTable : List (Nat × Nat)
  instructionOffset : Nat

/-- Parse a section, pad to four bytes and say where it was. -/
def trackSection {α : Type} (name : SectionName) (entries : Option Nat) (parse : Reader α) :
    Reader (α × SectionInfo) := do
  let secStart ← position
  let result ← parse
  align 4
  let secEnd ← position
  pure (result, { name, offset := secStart % 2 ^ 32,
                  size := secEnd % 2 ^ 32 - secStart % 2 ^ 32, entries })

/-- Parse a section that an absent size or count leaves out. -/
def trackWhen {α : Type} (name : SectionName) (count : Option Nat) (absent : α)
    (entries : Nat → Option Nat) (parse : Nat → Reader α) : Reader (α × List SectionInfo) :=
  match count with
  | some count => do
      let (result, info) ← trackSection name (entries count) (parse count)
      pure (result, [info])
  | none => pure (absent, [])

/-- The sections that both layouts have before their buffers. -/
def parseCommonTables (header : BytecodeHeader) : Reader (CommonTables × List SectionInfo) := do
  let (functionHeaders, s1) ← trackSection .functionHeaders (some header.functionCount)
    (parseFunctionHeaders header)
  let (stringKinds, s2) ← trackSection .stringKinds (some header.stringKindCount)
    (parseStringKinds header.stringKindCount)
  let (identifierHashes, s3) ← trackSection .identifierHashes (some header.identifierCount)
    (parseU32Vec header.identifierCount)
  let (smallStringTable, s4) ← trackSection .smallStringTable (some header.stringCount)
    (parseU32Vec header.stringCount)
  let (overflowStringTable, s5) ← trackSection .overflowStringTable
    (some header.overflowStringCount) (parseOverflowStringTable header.overflowStringCount)
  let (stringStorage, s6) ← trackSection .stringStorage none (readBytes header.stringStorageSize)
  pure ({ functionHeaders, stringKinds, identifierHashes, smallStringTable, overflowStringTable,
          stringStorage }, [s1, s2, s3, s4, s5, s6])

/-- The bigint sections, when the header has both of their fields. -/
def parseBigInts (header : BytecodeHeader) :
    Reader ((List TableEntry × Bytes) × List SectionInfo) :=
  match header.bigIntCount, header.bigIntStorageSize with
  | some count, some size => do
      let (table, s1) ← trackSection .bigintTable (some count) (parseTableEntries count)
      let (storage, s2) ← trackSection .bigintStorage none (readBytes size)
      pure ((table, storage), [s1, s2])
  | _, _ => pure (([], []), [])

/-- The buffers of the legacy layout: array, keys, values and then bigints. -/
def parseLegacyBuffers (header : BytecodeHeader) : Reader (LayoutBuffers × List SectionInfo) := do
  let (arrayBuffer, s1) ← trackWhen .arrayBuffer header.arrayBufferSize [] (fun _ => none) readBytes
  let (objKeyBuffer, s2) ← trackSection .objKeyBuffer none (readBytes header.objKeyBufferSize)
  let (objValueBuffer, s3) ← trackWhen .objValueBuffer header.objValueBufferSize []
    (fun _ => none) readBytes
  let ((bigIntTable, bigIntStorage), s4) ← parseBigInts header
  pure ({ bigIntTable, bigIntStorage, arrayBuffer, literalValueBuffer := [], objKeyBuffer,
          objValueBuffer, objShapeTable := [] }, s1 ++ [s2] ++ s3 ++ s4)

/-- The buffers of the modern layout: literals, keys, shapes and then bigints. -/
def parseModernBuffers (header : BytecodeHeader) : Reader (LayoutBuffers × List SectionInfo) := do
  let (literalValueBuffer, s1) ← trackWhen .literalValueBuffer header.literalValueBufferSize []
    (fun _ => none) readBytes
  let (objKeyBuffer, s2) ← trackSection .objKeyBuffer none (readBytes header.objKeyBufferSize)
  let (objShapeTable, s3) ← trackWhen .objShapeTable header.objShapeTableCount [] some
    parseShapeTable
  let ((bigIntTable, bigIntStorage), s4) ← parseBigInts header
  pure ({ bigIntTable, bigIntStorage, arrayBuffer := [], literalValueBuffer, objKeyBuffer,
          objValueBuffer := [], objShapeTable }, s1 ++ [s2] ++ s3 ++ s4)

/-- The buffers of the header's layout. -/
def parseBuffers (header : BytecodeHeader) : Reader (LayoutBuffers × List SectionInfo) :=
  match header.layout with
  | .legacy => parseLegacyBuffers header
  | .modern => parseModernBuffers header

/-- The sections that both layouts have after their buffers. -/
def parseTrailing (header : BytecodeHeader) : Reader (TrailingTables × List SectionInfo) := do
  let (regExpTable, s1) ← trackSection .regexpTable (some header.regExpCount)
    (parseTableEntries header.regExpCount)
  let (regExpStorage, s2) ← trackSection .regexpStorage none (readBytes header.regExpStorageSize)
  let (cjsModuleTable, s3) ← trackSection .cjsModuleTable (some header.cjsModuleCount)
    (parsePairTable header.cjsModuleCount)
  let (functionSourceTable, s4) ← trackWhen .functionSourceTable header.functionSourceCount []
    some parsePairTable
  let instructionOffset ← position
  pure ({ regExpTable, regExpStorage, cjsModuleTable, functionSourceTable,
          instructionOffset := instructionOffset % 2 ^ 32 }, [s1, s2, s3] ++ s4)

/-- A number in hexadecimal. -/
def hex (value : Nat) : String := String.ofList (Nat.toDigits 16 value)

/-- The header, for one of the two layouts. -/
def parseHeader (layout : HeaderLayout) (functionLayout : FunctionHeaderLayout) :
    Reader BytecodeHeader := do
  let magic ← readU64
  if magic ≠ magicNumber then
    let expected := hex magicNumber
    let got := hex magic
    Action.fail (.parse s!"invalid magic header: expected 0x{expected} got 0x{got}")
  else
    let version ← readU32
    let sourceHash ← readBytes 20
    let header ← match layout with
      | .legacy => parseLegacyHeader version magic sourceHash
      | .modern => parseModernHeader version magic sourceHash
    pure { header with functionHeaderLayout := functionLayout }

/-- Everything that is read in file order. -/
structure Front where
  header : BytecodeHeader
  tables : CommonTables
  buffers : LayoutBuffers
  trailing : TrailingTables
  sections : List SectionInfo

/-- Read the header and all sections in file order. -/
def parseFront (layout : HeaderLayout) (functionLayout : FunctionHeaderLayout) : Reader Front := do
  let header ← parseHeader layout functionLayout
  seek headerSize
  align 4
  let (tables, common) ← parseCommonTables header
  let (buffers, specific) ← parseBuffers header
  let (trailing, last) ← parseTrailing header
  let first : SectionInfo := { name := .header, offset := 0, size := headerSize, entries := none }
  pure { header, tables, buffers, trailing, sections := first :: (common ++ specific ++ last) }

/-- A tail section, when it is not empty. -/
def tailSection (name : SectionName) (offset finish : Nat) : List SectionInfo :=
  if offset < finish then [{ name, offset, size := finish - offset, entries := none }] else []

/-- Where the debug info starts, when its offset delimits something. -/
def debugStart (debugInfoOffset footerStart instructionOffset : Nat) : Option Nat :=
  if debugInfoOffset = 0 ∨ debugInfoOffset = noOffset then none
  else if footerStart ≤ debugInfoOffset ∨ debugInfoOffset < instructionOffset then none
  else some debugInfoOffset

/-- The last byte any function body reaches. -/
def bodiesEnd (instructionOffset : Nat) (functionHeaders : List FunctionHeader) : Nat :=
  functionHeaders.foldl
    (fun finish header => max finish (min (header.offset + header.bytecodeSizeInBytes) noOffset))
    instructionOffset

/-- The regions past the last table. -/
def tailSections (bytes : Bytes) (instructionOffset : Nat) (header : BytecodeHeader)
    (functionHeaders : List FunctionHeader) : List SectionInfo :=
  let fileEnd := bytes.length % 2 ^ 32
  let footerStart := fileEnd - Footer.footerLen
  let debug := debugStart header.debugInfoOffset footerStart instructionOffset
  let tailStart := debug.getD footerStart
  let infoStart := min (bodiesEnd instructionOffset functionHeaders) tailStart
  tailSection .bytecode instructionOffset infoStart ++
    tailSection .functionInfo infoStart tailStart ++
    (match debug with
      | some start => tailSection .debugInfo start footerStart
      | none => []) ++
    tailSection .footer footerStart fileEnd

/-- The 32-bit number at a position, when it is there; the end of its range is a
machine word. -/
def getU32 (bytes : Bytes) (pos : Nat) : Result (Option Nat) :=
  .checked (pos + 4 < 2 ^ 64) (Bytes.u32At bytes pos)

/-- The position of a function's debug offsets, past its handler table if it has
one. A wild handler count says that the info section is somewhere else. -/
def debugOffsetsPos (bytes : Bytes) (header : FunctionHeader) : Result (Option Nat) :=
  let pos := Bytes.align4 header.infoOffset
  if hasFlag header.flags flagHasExceptionHandler then do
    match ← getU32 bytes pos with
    | none => pure none
    | some count =>
        if 1000 < count then pure none else pure (some (Bytes.align4 (pos + 4 + count * 12)))
  else pure (some pos)

/-- The scope descriptor offset, in versions that have one. -/
def scopeDescDataAt (bytes : Bytes) (hasScopes : Bool) (pos : Nat) : Result (Option Nat) :=
  if hasScopes then getU32 bytes pos else pure none

/-- A function's debug offsets, when it has some and one of them says something. -/
def functionDebugOffsets (bytes : Bytes) (hasScopes : Bool) (header : FunctionHeader) :
    Result (Option FunctionDebugOffsets) :=
  if hasFlag header.flags flagHasDebugInfo = false ∨ header.infoOffset = 0 then pure none
  else do
    match ← debugOffsetsPos bytes header with
    | none => pure none
    | some pos => do
        match ← getU32 bytes pos with
        | none => pure none
        | some sourceLocations => do
            let scopeDescData ← scopeDescDataAt bytes hasScopes (pos + 4)
            if sourceLocations ≠ noOffset ∨ scopeDescData.any (· ≠ noOffset) then
              pure (some { sourceLocations, scopeDescData })
            else pure none

/-- Insert what a function has under its id. -/
def insertWhen {α : Type} (functionId : Nat) (found : Option α) (map : OrdMap α) : OrdMap α :=
  match found with
  | some value => map.insert functionId value
  | none => map

/-- The debug offsets of all functions. -/
def parseDebugOffsets (bytes : Bytes) (functionHeaders : List FunctionHeader) (version : Nat) :
    Result (OrdMap FunctionDebugOffsets) :=
  let hasScopes := (DebugLayout.forVersion version).any (·.hasLexicalRegions)
  functionHeaders.foldlM (fun out header => do
    let found ← functionDebugOffsets bytes hasScopes header
    pure (insertWhen header.functionId found out)) []

/-- One exception handler. -/
def readHandler : Reader ExceptionHandler := do
  let start ← readU32
  let finish ← readU32
  let target ← readU32
  pure { start, finish, target }

/-- A handler table: a count and that many handlers. An empty or a wild count is
no table. -/
def handlerTable : Reader (Option (List ExceptionHandler)) := do
  let count ← readU32
  if count = 0 ∨ 1000 < count then pure none
  else
    let handlers ← Action.repeatM readHandler count
    pure (some handlers)

/-- A function's handlers, when it has a table that reads. -/
def functionHandlers (bytes : Bytes) (header : FunctionHeader) :
    Result (Option (List ExceptionHandler)) :=
  let aligned := Bytes.align4 header.infoOffset
  if hasFlag header.flags flagHasExceptionHandler = false ∨ header.infoOffset = 0 ∨
      bytes.length ≤ header.infoOffset ∨ bytes.length < aligned + 4 then pure none
  else match (handlerTable (.new (bytes.drop aligned))).1 with
    | .ok found => pure found
    | .err _ => pure none
    | .panic => .panic

/-- The handlers of all functions. -/
def parseExceptionHandlers (bytes : Bytes) (functionHeaders : List FunctionHeader) :
    Result (OrdMap (List ExceptionHandler)) :=
  functionHeaders.foldlM (fun result header => do
    let found ← functionHandlers bytes header
    pure (insertWhen header.functionId found result)) []

/-- The conditions a read records. -/
def diagnose (sha1 : Sha1) (bytes : Bytes) (header : BytecodeHeader) (invalid : Nat)
    (status : DebugInfoStatus) : List Diagnostic :=
  (if header.fileLength ≠ bytes.length then
      [.lengthMismatch header.fileLength bytes.length] else []) ++
    (if Footer.verifyFooter sha1 bytes then [] else [.footerMismatch]) ++
    (if 0 < invalid then [.invalidStringStorage invalid] else []) ++
    (if status.isFailure then [.debugInfoUnreadable status] else [])

/-- What the offsets of a read image lead to, and the finished file. -/
def buildFile (sha1 : Sha1) (bytes : Bytes) (front : Front) : Result BytecodeFile := do
  let { header, tables, buffers, trailing, sections } := front
  let instructions ← .checked (trailing.instructionOffset ≤ bytes.length)
    (bytes.drop trailing.instructionOffset)
  let tail := tailSections bytes trailing.instructionOffset header tables.functionHeaders
  let (strings, invalid) ← decodeStringTable header.stringCount tables.stringKinds
    tables.smallStringTable tables.overflowStringTable tables.stringStorage
  let debugOffsets ← parseDebugOffsets bytes tables.functionHeaders header.version
  let (debugInfo, debugInfoStatus) ←
    DebugInfo.parseWithStatus bytes header.debugInfoOffset header.version debugOffsets
  let exceptionHandlers ← parseExceptionHandlers bytes tables.functionHeaders
  pure {
    header, functionHeaders := tables.functionHeaders, stringKinds := tables.stringKinds,
    identifierHashes := tables.identifierHashes, strings, bigIntTable := buffers.bigIntTable,
    bigIntStorage := buffers.bigIntStorage, regExpTable := trailing.regExpTable,
    regExpStorage := trailing.regExpStorage, arrayBuffer := buffers.arrayBuffer,
    literalValueBuffer := buffers.literalValueBuffer, objKeyBuffer := buffers.objKeyBuffer,
    objValueBuffer := buffers.objValueBuffer, objShapeTable := buffers.objShapeTable,
    cjsModuleTable := trailing.cjsModuleTable, functionSourceTable := trailing.functionSourceTable,
    instructionOffset := trailing.instructionOffset, instructions, debugInfo, debugInfoStatus,
    exceptionHandlers, sections := sections ++ tail,
    diagnostics := diagnose sha1 bytes header invalid debugInfoStatus, rawBytes := some bytes }

/-- Parse with a given layout. -/
def parseWithLayout (sha1 : Sha1) (bytes : Bytes) (layout : HeaderLayout)
    (functionLayout : FunctionHeaderLayout) : Result BytecodeFile :=
  if bytes.length < headerSize then .err (.parse "file too small for header")
  else do
    let front ← (parseFront layout functionLayout (.new bytes)).1
    buildFile sha1 bytes front

/-- The layout a version implies. -/
def impliedLayout (version : Nat) : HeaderLayout × FunctionHeaderLayout :=
  if modernFunctionHeaderMinVersion ≤ version then (.modern, .modern12) else (.legacy, .legacy16)

/-- The layout a version does not imply. -/
def otherLayout (version : Nat) : HeaderLayout × FunctionHeaderLayout :=
  if modernFunctionHeaderMinVersion ≤ version then (.legacy, .legacy16) else (.modern, .modern12)

/-- A layout by name. -/
def layoutName : HeaderLayout → String
  | .legacy => "Legacy"
  | .modern => "Modern"

/-- The error when neither layout parses. -/
def parseFailure (version : Nat) (implied other : HeaderLayout) (impliedErr otherErr : Error) :
    Error :=
  let impliedName := layoutName implied
  let otherName := layoutName other
  let first := impliedErr.describe
  let second := otherErr.describe
  .parse s!"failed to parse bytecode file: version {version} implies the {impliedName} layout, which failed with: {first}. The {otherName} layout also failed, with: {second}"

/-- Parse with the layout the declared version implies, else with the other one. -/
def parseAuto (sha1 : Sha1) (bytes : Bytes) : Result BytecodeFile := do
  let version ← peekVersion bytes
  let implied := impliedLayout version
  let other := otherLayout version
  match parseWithLayout sha1 bytes implied.1 implied.2 with
  | .ok file => pure file
  | .panic => .panic
  | .err impliedErr =>
      match parseWithLayout sha1 bytes other.1 other.2 with
      | .ok file => pure { file with
          diagnostics := file.diagnostics ++ [.layoutFallback version other.1 implied.1] }
      | .panic => .panic
      | .err otherErr => .err (parseFailure version implied.1 other.1 impliedErr otherErr)

end HermesDecomp.Parser
