import Mathlib.Data.Int.Bitwise
import HermesDecomp.Io
import HermesDecomp.Library.OrdMap

/-!
# The debug info section

The section holds a header, a filename table, file regions and the debug data: one stream of
source locations per function and, up to bytecode version 96, scope descriptors, textified callees
and a string table.

Locations are sums of signed deltas in 64 bits. The sums are not checked for
overflow by the source, so a sum that leaves the range is a panic here.
-/

namespace HermesDecomp

/-- A bytecode offset with its line, its column and the offset of its scope. -/
structure SourceLocation where
  bytecodeOffset : Nat
  line : Nat
  column : Nat
  scopeOffset : Option Nat
deriving DecidableEq, Repr

/-- A scope with the names it declares. -/
structure ScopeDescriptor where
  offset : Nat
  parentOffset : Option Nat
  flags : Nat
  names : List Text
deriving DecidableEq, Repr

/-- The parsed debug section. -/
structure DebugInfo where
  sourceLocations : OrdMap (List SourceLocation)
  functionScopes : OrdMap Nat
  scopeDescriptors : List ScopeDescriptor
  textifiedCallees : OrdMap Text
  stringTable : List Text
deriving DecidableEq, Repr

/-- Why a file has no parsed debug info, or that it has some. -/
inductive DebugInfoStatus where
  | present
  | absent
  | offsetOutOfRange
  | unsupportedVersion (version : Nat)
  | headerOutOfRange
  | parseFailed
deriving DecidableEq, Repr

/-- The absence is a limitation or a corruption rather than a fact about the file. -/
def DebugInfoStatus.isFailure : DebugInfoStatus → Bool
  | present => false
  | absent => false
  | _ => true

/-- The two encodings of a location stream. -/
inductive StreamEncoding where
  | legacy
  | modern
deriving DecidableEq, Repr

/-- How a version lays out the debug section. -/
structure DebugLayout where
  headerSize : Nat
  hasLexicalRegions : Bool
  stream : StreamEncoding
deriving DecidableEq, Repr

/-- The layout of a version, when it is modelled. -/
def DebugLayout.forVersion (version : Nat) : Option DebugLayout :=
  if version ≤ 96 then some { headerSize := 28, hasLexicalRegions := true, stream := .legacy }
  else if version = 98 ∨ version = 99 then
    some { headerSize := 16, hasLexicalRegions := false, stream := .modern }
  else none

/-- The fields of a function's debug offsets that are read. -/
structure FunctionDebugOffsets where
  sourceLocations : Nat
  scopeDescData : Option Nat
deriving DecidableEq, Repr

/-- The header of the debug section. -/
structure DebugInfoHeader where
  filenameCount : Nat
  filenameStorageSize : Nat
  fileRegionCount : Nat
  scopeDescOffset : Nat
  textifiedCalleeOffset : Nat
  stringTableOffset : Nat
  debugDataSize : Nat
deriving DecidableEq, Repr

/-- The 32-bit value that stands for no offset. -/
def noOffset : Nat := 0xffffffff

namespace DebugInfo

open Reader

/-- Debug info with nothing in it. -/
def empty : DebugInfo where
  sourceLocations := []
  functionScopes := []
  scopeDescriptors := []
  textifiedCallees := []
  stringTable := []

/-- The three region offsets, where the version has them. -/
def lexicalOffsets (layout : DebugLayout) : Reader (Nat × Nat × Nat) := do
  if layout.hasLexicalRegions then
    let scopeDesc ← readU32
    let textifiedCallee ← readU32
    let stringTable ← readU32
    pure (scopeDesc, textifiedCallee, stringTable)
  else pure (0, 0, 0)

/-- Read the header: three counts, then what the version has, then the data size. -/
def parseHeader (layout : DebugLayout) : Reader DebugInfoHeader := do
  let filenameCount ← readU32
  let filenameStorageSize ← readU32
  let fileRegionCount ← readU32
  let (scopeDescOffset, textifiedCalleeOffset, stringTableOffset) ← lexicalOffsets layout
  let debugDataSize ← readU32
  pure { filenameCount, filenameStorageSize, fileRegionCount, scopeDescOffset,
         textifiedCalleeOffset, stringTableOffset, debugDataSize }

/-- Bit `position` of a number in two's complement. -/
def bit (value : Int) (position : Nat) : Bool := (value >>> position) % 2 == 1

/-- Add in 64 bits with a sign. -/
def addI64 (left right : Int) : Reader Int :=
  Action.lift (.checked (-2 ^ 63 ≤ left + right ∧ left + right < 2 ^ 63) (left + right))

/-- A signed number as 32 bits, negative ones as zero. -/
def clampU32 (value : Int) : Nat := (max value 0).toNat % 2 ^ 32

/-- A signed number, when it fits 32 bits without a sign. -/
def tryU32 (value : Int) : Option Nat :=
  if 0 ≤ value ∧ value < 2 ^ 32 then some value.toNat else none

/-- The deltas of a legacy entry after its address: line, column and scope. Bit 0
of the line delta says that a statement delta follows. -/
def legacyEntry : Reader (Int × Int × Int) := do
  let lineDelta ← readSleb128
  let columnDelta ← readSleb128
  let scopeAddress ← readSleb128
  let _envReg ← readSleb128
  if bit lineDelta 0 then
    let _statementDelta ← readSleb128
    pure (lineDelta >>> 1, columnDelta, scopeAddress)
  else pure (lineDelta >>> 1, columnDelta, scopeAddress)

/-- Read and drop a delta when a bit of the line delta asks for it. -/
def skipDelta (lineDelta : Int) (position : Nat) : Reader PUnit := do
  if bit lineDelta position then
    let _delta ← readSleb128
    pure ⟨⟩
  else pure ⟨⟩

/-- The deltas of a modern entry after its address: line and column, when bit 0
of the line delta says that a location follows. -/
def modernEntry : Reader (Option (Int × Int)) := do
  let lineDelta ← readSleb128
  if !bit lineDelta 0 then pure none
  else
    let columnDelta ← readSleb128
    skipDelta lineDelta 1
    skipDelta lineDelta 2
    pure (some (lineDelta >>> 3, columnDelta))

/-- Where a stream has got to. -/
structure Cursor where
  address : Int
  line : Int
  column : Int

/-- The location at a cursor. -/
def Cursor.location (cursor : Cursor) (scopeOffset : Option Nat) : SourceLocation where
  bytecodeOffset := clampU32 cursor.address
  line := clampU32 cursor.line
  column := clampU32 cursor.column
  scopeOffset := scopeOffset

/-- The entries of a legacy stream. A read that fails ends the stream. -/
def legacyEntries : (guard : Nat) → Cursor → Reader (List SourceLocation)
  | 0, _ => pure []
  | guard + 1, cursor => do
      match ← Action.attempt readSleb128 with
      | .error _ => pure []
      | .ok addressDelta =>
          if addressDelta = -1 then pure []
          else match ← Action.attempt legacyEntry with
            | .error _ => pure []
            | .ok (lineDelta, columnDelta, scopeAddress) => do
                let address ← addI64 cursor.address addressDelta
                let line ← addI64 cursor.line lineDelta
                let column ← addI64 cursor.column columnDelta
                let cursor : Cursor := { address, line, column }
                let rest ← legacyEntries guard cursor
                pure (cursor.location (tryU32 scopeAddress) :: rest)

/-- The entries of a modern stream. The address moves on every entry, line and
column only on one that carries a location. -/
def modernEntries : (guard : Nat) → Cursor → Reader (List SourceLocation)
  | 0, _ => pure []
  | guard + 1, cursor => do
      match ← Action.attempt readSleb128 with
      | .error _ => pure []
      | .ok addressDelta =>
          if addressDelta = -1 then pure []
          else do
            let address ← addI64 cursor.address addressDelta
            match ← Action.attempt modernEntry with
            | .error _ => pure []
            | .ok none => modernEntries guard { cursor with address }
            | .ok (some (lineDelta, columnDelta)) => do
                let line ← addI64 cursor.line lineDelta
                let column ← addI64 cursor.column columnDelta
                let cursor : Cursor := { address, line, column }
                let rest ← modernEntries guard cursor
                pure (cursor.location none :: rest)

/-- How many entries a stream may have. -/
def streamGuard : Nat := 100000

/-- The prologue of a stream: the function's opening line and column. -/
def prologue (encoding : StreamEncoding) : Reader Cursor := do
  let _functionIndex ← readSleb128
  let line ← readSleb128
  let column ← readSleb128
  match encoding with
  | .modern => do
      let _envIdx ← readSleb128
      pure { address := 0, line, column }
  | .legacy => pure { address := 0, line, column }

/-- The entries of a stream after its prologue. -/
def streamEntries (encoding : StreamEncoding) (cursor : Cursor) : Reader (List SourceLocation) :=
  match encoding with
  | .legacy => legacyEntries streamGuard cursor
  | .modern => modernEntries streamGuard cursor

/-- Decode the location stream at `offset` of the debug data. Nothing when the
offset is out of range or the prologue does not read. -/
def parseLocationStream (data : Bytes) (offset : Nat) (encoding : StreamEncoding) :
    Result (Option (List SourceLocation)) :=
  if data.length < offset then pure none
  else match prologue encoding (.new (data.drop offset)) with
    | (.err _, _) => pure none
    | (.panic, _) => .panic
    | (.ok cursor, reader) => do
        let rest ← (streamEntries encoding cursor reader).1
        pure (some (cursor.location none :: rest))

/-- The location streams of all functions that have one. -/
def parseStreams (data : Bytes) (encoding : StreamEncoding) :
    OrdMap FunctionDebugOffsets → Result (OrdMap (List SourceLocation))
  | [] => pure []
  | (functionId, entry) :: rest => do
      if entry.sourceLocations = noOffset then parseStreams data encoding rest
      else
        let found ← parseLocationStream data entry.sourceLocations encoding
        let locations ← parseStreams data encoding rest
        match found with
        | some (first :: more) => pure (locations.insert functionId (first :: more))
        | _ => pure locations

/-- The scope of every function that names one. -/
def parseScopes (offsets : OrdMap FunctionDebugOffsets) : OrdMap Nat :=
  offsets.filterMap fun (functionId, entry) => match entry.scopeDescData with
    | some scope => if scope = noOffset then none else some (functionId, scope)
    | none => none

/-- A length and that many bytes of UTF-8. -/
def readName : Reader (Option Text) := do
  let len ← readSleb128
  if len < 0 then pure none
  else
    let bytes ← readBytes len.toNat
    pure (Utf.fromUtf8 bytes)

/-- The name at a byte offset of the string table region, when one reads there. -/
def nameAtOffset (tableData : Bytes) (offset : Int) : Result (Option Text) :=
  if offset < 0 ∨ tableData.length < offset then pure none
  else match (readName (.new (tableData.drop offset.toNat))).1 with
    | .ok name => pure name
    | .err _ => pure none
    | .panic => .panic

/-- The names of a scope. A reference that does not read ends them; one that does
not resolve is an empty name. -/
def scopeNames (stringData : Bytes) : (count : Nat) → Reader (List Text)
  | 0 => pure []
  | count + 1 => do
      match ← Action.attempt readSleb128 with
      | .error _ => pure []
      | .ok nameIdx => do
          let name ← Action.lift (nameAtOffset stringData nameIdx)
          let rest ← scopeNames stringData count
          pure (name.getD [] :: rest)

/-- The three numbers a scope descriptor starts with: parent, flags and name count. -/
def scopeHead : Reader (Int × Int × Int) := do
  let parentRaw ← readSleb128
  let flags ← readSleb128
  let nameCount ← readSleb128
  pure (parentRaw, flags, nameCount)

/-- One scope descriptor, or nothing when it does not read or its count is
implausible. -/
def scopeDescriptor (stringData : Bytes) (currentOffset : Nat) :
    Reader (Option ScopeDescriptor) := do
  match ← Action.attempt scopeHead with
  | .error _ => pure none
  | .ok (parentRaw, flags, nameCount) => do
      let left ← remaining
      if nameCount < 0 ∨ left < nameCount then pure none
      else
        let names ← scopeNames stringData nameCount.toNat
        pure (some {
          offset := currentOffset
          parentOffset := if parentRaw < 0 ∨ noOffset ≤ parentRaw then none
            else some (parentRaw.toNat % 2 ^ 32)
          flags := (flags % 2 ^ 32).toNat
          names })

/-- The scope descriptors up to the end of their region. -/
def scopeDescriptorsFrom (stringData : Bytes) :
    (fuel currentOffset : Nat) → Reader (List ScopeDescriptor)
  | 0, _ => pure []
  | fuel + 1, currentOffset => do
      let left ← remaining
      if left = 0 then pure []
      else
        let startPos ← position
        match ← scopeDescriptor stringData currentOffset with
        | none => pure []
        | some descriptor => do
            let endPos ← position
            let used := (endPos - startPos) % 2 ^ 32
            let next ← Action.lift (.checked (currentOffset + used < 2 ^ 32) (currentOffset + used))
            let rest ← scopeDescriptorsFrom stringData fuel next
            pure (descriptor :: rest)

/-- The scope descriptors of a region. -/
def parseScopeDescriptors (data stringData : Bytes) : Result (List ScopeDescriptor) :=
  (scopeDescriptorsFrom stringData data.length 0 (.new data)).1

/-- The address of a callee and the reference to its name. -/
def calleeEntry : Reader (Int × Int) := do
  let address ← readSleb128
  let nameIdx ← readSleb128
  pure (address, nameIdx)

/-- The callees with a name, from the next one on. -/
def calleesFrom (stringData : Bytes) : (count : Nat) → OrdMap Text → Reader (OrdMap Text)
  | 0, callees => pure callees
  | count + 1, callees => do
      match ← Action.attempt calleeEntry with
      | .error _ => pure callees
      | .ok (address, nameIdx) => do
          let found ← Action.lift (nameAtOffset stringData nameIdx)
          calleesFrom stringData count (match found with
            | some name => callees.insert (address % 2 ^ 32).toNat name
            | none => callees)

/-- A count and that many callees. -/
def readCallees (stringData : Bytes) : Reader (OrdMap Text) := do
  match ← Action.attempt readSleb128 with
  | .error _ => pure []
  | .ok count => do
      let left ← remaining
      if count < 0 ∨ left < count then pure []
      else calleesFrom stringData count.toNat []

/-- The textified callees of a region. -/
def parseTextifiedCallees (data stringData : Bytes) : Result (OrdMap Text) :=
  (readCallees stringData (.new data)).1

/-- The length-prefixed strings up to the end of their region or the first one that does not read.
-/
def stringTableFrom : (fuel : Nat) → Reader (List Text)
  | 0 => pure []
  | fuel + 1 => do
      let left ← remaining
      if left = 0 then pure []
      else match ← Action.attempt readLengthPrefixedString with
        | .error _ => pure []
        | .ok string => do
            let rest ← stringTableFrom fuel
            pure (string :: rest)

/-- The debug string table of a region. -/
def parseStringTable (data : Bytes) : Result (List Text) :=
  (stringTableFrom data.length (.new data)).1

/-- The range between two offsets, when they are in order and inside. -/
def sliceRange (data : Bytes) (start finish : Nat) : Option Bytes :=
  if finish < start then none else Bytes.slice data start (finish - start)

/-- Where the debug data starts in the section. -/
def dataStart (layout : DebugLayout) (header : DebugInfoHeader) : Result Nat :=
  .checked (layout.headerSize + header.filenameCount * 8 + header.filenameStorageSize +
      header.fileRegionCount * 12 < 2 ^ 64)
    (layout.headerSize + header.filenameCount * 8 + header.filenameStorageSize +
      header.fileRegionCount * 12)

/-- The scope descriptors of a region, when it is one. -/
def scopesOf (region : Option Bytes) (stringData : Bytes) : Result (List ScopeDescriptor) :=
  match region with
  | some data => parseScopeDescriptors data stringData
  | none => pure []

/-- The textified callees of a region, when it is one. -/
def calleesOf (region : Option Bytes) (stringData : Bytes) : Result (OrdMap Text) :=
  match region with
  | some data => parseTextifiedCallees data stringData
  | none => pure []

/-- The regions that only versions up to 96 have. Names refer into the string
table, which comes first. -/
def parseLexical (data : Bytes) (header : DebugInfoHeader) (info : DebugInfo) :
    Result DebugInfo := do
  let stringData := (sliceRange data header.stringTableOffset header.debugDataSize).getD []
  let stringTable ← parseStringTable stringData
  let scopeDescriptors ←
    scopesOf (sliceRange data header.scopeDescOffset header.textifiedCalleeOffset) stringData
  let textifiedCallees ←
    calleesOf (sliceRange data header.textifiedCalleeOffset header.stringTableOffset) stringData
  pure { info with stringTable, scopeDescriptors, textifiedCallees }

/-- The debug data region of a section, when the header's sizes stay inside it. -/
def debugData (layout : DebugLayout) (header : DebugInfoHeader) (sectionBytes : Bytes) :
    Result (Option Bytes) := do
  let start ← dataStart layout header
  pure (Bytes.slice sectionBytes start header.debugDataSize)

/-- Read the debug data region. -/
def parseData (layout : DebugLayout) (header : DebugInfoHeader) (data : Bytes)
    (offsets : OrdMap FunctionDebugOffsets) : Result DebugInfo := do
  let sourceLocations ← parseStreams data layout.stream offsets
  let info := { empty with sourceLocations, functionScopes := parseScopes offsets }
  if layout.hasLexicalRegions then parseLexical data header info else pure info

/-- Parse the debug section, and say why when the answer is empty. The section's
own failure to read is data of the answer, not an error of the call. -/
def parseWithStatus (bytes : Bytes) (debugInfoOffset version : Nat)
    (offsets : OrdMap FunctionDebugOffsets) : Result (Option DebugInfo × DebugInfoStatus) :=
  if debugInfoOffset = 0 ∨ debugInfoOffset = noOffset then pure (some empty, .absent)
  else if bytes.length ≤ debugInfoOffset then pure (some empty, .offsetOutOfRange)
  else match DebugLayout.forVersion version with
    | none => pure (some empty, .unsupportedVersion version)
    | some layout =>
        let sectionBytes := bytes.drop debugInfoOffset
        match (parseHeader layout (.new sectionBytes)).1 with
        | .panic => .panic
        | .err _ => pure (none, .parseFailed)
        | .ok header => do
            match ← debugData layout header sectionBytes with
            | none => pure (some empty, .headerOutOfRange)
            | some data => do
                let info ← parseData layout header data offsets
                pure (some info, .present)

end DebugInfo

end HermesDecomp
