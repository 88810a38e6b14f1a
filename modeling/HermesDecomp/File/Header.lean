import HermesDecomp.Format
import HermesDecomp.Io

/-!
# Parsing the file header

The header is a magic number, a version, a source hash and then 32-bit fields.
Which fields a legacy header has depends on the version; a modern header always
has the same ones.
-/

namespace HermesDecomp

/-- First bytecode version with the 12-byte modern function header. -/
def modernFunctionHeaderMinVersion : Nat := 97

/-- Byte offsets of the 32-bit fields of a modern large header. -/
def modernLargeOffset : Nat := 0
def modernLargeParamCount : Nat := 4
def modernLargeLoopDepth : Nat := 8
def modernLargeBytecodeSize : Nat := 12
def modernLargeFunctionName : Nat := 16
def modernLargeNumberRegCount : Nat := 20
def modernLargeNonPtrRegCount : Nat := 24
def modernLargeFrameSize : Nat := 28

/-- First byte of the byte tail. -/
def modernLargeU8Tail : Nat := 32

/-- The layout of modern function headers for one bytecode version. -/
structure ModernLayout where
  version : Nat
  hasNumCacheNewObject : Bool
deriving DecidableEq, Repr

namespace ModernLayout

/-- The layout of a version, or a refusal. -/
def forVersion (version : Nat) : Result ModernLayout :=
  match version with
  | 98 => .ok { version, hasNumCacheNewObject := true }
  | 99 => .ok { version, hasNumCacheNewObject := false }
  | 97 => .err (.parse "HBC v97 uses the pre-2025-02-25 modern function-header layout (20-byte large header, 16-bit packed large pointer, different small-header bit widths). That vintage needs its own decoder and is not implemented; supported modern layouts are v98 and v99.")
  | v =>
      if modernFunctionHeaderMinVersion ≤ v then
        .err (.parse s!"HBC v{v} modern function-header layout is not known to this build (supported: 98, 99). Upstream has changed this layout without bumping the bytecode version before, so this refuses rather than assuming the newest known shape. Re-derive it from FUNC_HEADER_FIELDS in Hermes' BytecodeFileFormat.h and add it to ModernLayout::for_version.")
      else .err (.parse s!"HBC v{v} is not a modern (v{modernFunctionHeaderMinVersion}+) layout")

/-- Total size of the large header. -/
def largeSize (layout : ModernLayout) : Nat :=
  modernLargeU8Tail + if layout.hasNumCacheNewObject then 5 else 4

/-- Position of the read cache size. -/
def largeReadCacheSizePos (_ : ModernLayout) : Nat := modernLargeU8Tail

/-- Position of the write cache size. -/
def largeWriteCacheSizePos (_ : ModernLayout) : Nat := modernLargeU8Tail + 1

/-- Position of the field that v99 removed. -/
def largeNumCacheNewObjectPos (layout : ModernLayout) : Option Nat :=
  if layout.hasNumCacheNewObject then some (modernLargeU8Tail + 2) else none

/-- Position of the private name cache size. -/
def largePrivateNameCacheSizePos (layout : ModernLayout) : Nat :=
  modernLargeU8Tail + if layout.hasNumCacheNewObject then 3 else 2

/-- Position of the flags byte, the last one. -/
def largeFlagsPos (layout : ModernLayout) : Nat := layout.largeSize - 1

/-- Where the info section of a function begins, given the position of its large
header: past the header, at the next multiple of four. -/
def infoOffsetFor (layout : ModernLayout) (largePtr : Nat) : Result Nat :=
  .checked (largePtr + layout.largeSize + 3 < 2 ^ 64) ((largePtr + layout.largeSize + 3) / 4 * 4)

/-- Width in bits of the small header's write cache size. -/
def smallWriteCacheBits (layout : ModernLayout) : Nat := if layout.hasNumCacheNewObject then 6 else 7

/-- A large header has its 32-bit fields and at least four bytes after them. -/
theorem largeSize_bounds (layout : ModernLayout) :
    36 ≤ layout.largeSize ∧ layout.largeSize ≤ 37 := by
  unfold largeSize modernLargeU8Tail
  split <;> omega

/-- Every byte of the tail is inside the large header. -/
theorem tail_inside (layout : ModernLayout) :
    layout.largeReadCacheSizePos < layout.largeSize ∧
      layout.largeWriteCacheSizePos < layout.largeSize ∧
      (∀ pos, layout.largeNumCacheNewObjectPos = some pos → pos < layout.largeSize) ∧
      layout.largePrivateNameCacheSizePos < layout.largeSize ∧
      layout.largeFlagsPos < layout.largeSize := by
  rcases layout with ⟨version, _ | _⟩
  · refine ⟨?_, ?_, ?_, ?_, ?_⟩ <;> simp [largeReadCacheSizePos, largeWriteCacheSizePos,
      largeNumCacheNewObjectPos, largePrivateNameCacheSizePos, largeFlagsPos, largeSize]
  · refine ⟨?_, ?_, ?_, ?_, ?_⟩ <;> simp [largeReadCacheSizePos, largeWriteCacheSizePos,
      largeNumCacheNewObjectPos, largePrivateNameCacheSizePos, largeFlagsPos, largeSize]

/-- The info section of a header inside an image is at a machine word. -/
theorem infoOffsetFor_ne_panic {offset : Nat} (layout : ModernLayout) (small : offset < 2 ^ 63) :
    layout.infoOffsetFor offset ≠ .panic := by
  intro panics
  have overflow := Outcome.checked_eq_panic.mp panics
  have size := layout.largeSize_bounds
  omega

theorem forVersion_ne_panic (version : Nat) : forVersion version ≠ .panic := by
  unfold forVersion
  split <;> try simp
  split <;> simp

/-- Only two versions have a layout. -/
theorem forVersion_eq_ok {version : Nat} {layout : ModernLayout}
    (found : forVersion version = .ok layout) :
    layout = ⟨98, true⟩ ∧ version = 98 ∨ layout = ⟨99, false⟩ ∧ version = 99 := by
  unfold forVersion at found
  split at found
  · exact .inl ⟨(Outcome.ok.inj found).symm, rfl⟩
  · exact .inr ⟨(Outcome.ok.inj found).symm, rfl⟩
  · simp at found
  · split at found <;> simp at found

end ModernLayout

end HermesDecomp

namespace HermesDecomp.Parser

open Reader

/-- The first eight bytes of an image. -/
def magicNumber : Nat := 0x1F1903C103BC1FC6

/-- Bytes reserved for the header. -/
def headerSize : Nat := 128

/-- First version with bigint fields in a legacy header. -/
def legacyBigintMinVersion : Nat := 87

/-- First version with a segment id in a legacy header. -/
def legacySegmentIdMinVersion : Nat := 78

/-- First version with a function source count in a legacy header. -/
def legacyFunctionSourceMinVersion : Nat := 84

/-- The function header layout of a version. -/
def inferFunctionHeaderLayout (version : Nat) : FunctionHeaderLayout :=
  if modernFunctionHeaderMinVersion ≤ version then .modern12 else .legacy16

/-- The declared version, without parsing anything else. -/
def peekVersion (bytes : Bytes) : Result Nat :=
  if bytes.length < 12 then .err (.parse "file too small")
  else
    let read : Reader Nat := do
      let magic ← readU64
      if magic ≠ magicNumber then Action.fail (.parse "invalid magic header")
      else readU32
    (read (.new bytes)).1

/-- Read a field when the version has it. -/
def readWhen (condition : Bool) : Reader (Option Nat) := do
  if condition then
    let value ← readU32
    pure (some value)
  else pure none

/-- The legacy header after its source hash. -/
def parseLegacyHeader (version magic : Nat) (sourceHash : Bytes) : Reader BytecodeHeader := do
  let fileLength ← readU32
  let globalCodeIndex ← readU32
  let functionCount ← readU32
  let stringKindCount ← readU32
  let identifierCount ← readU32
  let stringCount ← readU32
  let overflowStringCount ← readU32
  let stringStorageSize ← readU32
  let bigIntCount ← readWhen (legacyBigintMinVersion ≤ version)
  let bigIntStorageSize ← readWhen (legacyBigintMinVersion ≤ version)
  let regExpCount ← readU32
  let regExpStorageSize ← readU32
  let arrayBufferSize ← readU32
  let objKeyBufferSize ← readU32
  let objValueBufferSize ← readU32
  let segmentId ← readWhen (legacySegmentIdMinVersion ≤ version)
  let cjsModuleOffset ← readWhen (!decide (legacySegmentIdMinVersion ≤ version))
  let cjsModuleCount ← readU32
  let functionSourceCount ← readWhen (legacyFunctionSourceMinVersion ≤ version)
  let debugInfoOffset ← readU32
  let optionsRaw ← readU8
  pure {
    magic, version, sourceHash, fileLength, globalCodeIndex, functionCount, stringKindCount,
    identifierCount, stringCount, overflowStringCount, stringStorageSize, bigIntCount,
    bigIntStorageSize, regExpCount, regExpStorageSize, literalValueBufferSize := none,
    arrayBufferSize := some arrayBufferSize, objKeyBufferSize,
    objValueBufferSize := some objValueBufferSize, objShapeTableCount := none,
    numStringSwitchImms := none, segmentId, cjsModuleOffset, cjsModuleCount,
    functionSourceCount, debugInfoOffset, optionsRaw, layout := .legacy,
    functionHeaderLayout := inferFunctionHeaderLayout version }

/-- The modern header after its source hash. -/
def parseModernHeader (version magic : Nat) (sourceHash : Bytes) : Reader BytecodeHeader := do
  let fileLength ← readU32
  let globalCodeIndex ← readU32
  let functionCount ← readU32
  let stringKindCount ← readU32
  let identifierCount ← readU32
  let stringCount ← readU32
  let overflowStringCount ← readU32
  let stringStorageSize ← readU32
  let bigIntCount ← readU32
  let bigIntStorageSize ← readU32
  let regExpCount ← readU32
  let regExpStorageSize ← readU32
  let literalValueBufferSize ← readU32
  let objKeyBufferSize ← readU32
  let objShapeTableCount ← readU32
  let numStringSwitchImms ← readU32
  let segmentId ← readU32
  let cjsModuleCount ← readU32
  let functionSourceCount ← readU32
  let debugInfoOffset ← readU32
  let optionsRaw ← readU8
  pure {
    magic, version, sourceHash, fileLength, globalCodeIndex, functionCount, stringKindCount,
    identifierCount, stringCount, overflowStringCount, stringStorageSize,
    bigIntCount := some bigIntCount, bigIntStorageSize := some bigIntStorageSize, regExpCount,
    regExpStorageSize, literalValueBufferSize := some literalValueBufferSize,
    arrayBufferSize := none, objKeyBufferSize, objValueBufferSize := none,
    objShapeTableCount := some objShapeTableCount, numStringSwitchImms := some numStringSwitchImms,
    segmentId := some segmentId, cjsModuleOffset := none, cjsModuleCount,
    functionSourceCount := some functionSourceCount, debugInfoOffset, optionsRaw,
    layout := .modern, functionHeaderLayout := inferFunctionHeaderLayout version }

section Safety

open Action

variable {bytes : Bytes}

theorem safe_readWhen (condition : Bool) : SafeOn (Addressable bytes) (readWhen condition) :=
  safe_ite (fun _ => safe_bind safe_readU32 fun _ => safe_pure _) fun _ => safe_pure _

theorem safe_parseLegacyHeader (version magic : Nat) (sourceHash : Bytes) :
    SafeOn (Addressable bytes) (parseLegacyHeader version magic sourceHash) := by
  unfold parseLegacyHeader
  repeat
    first
    | exact safe_pure _
    | refine safe_bind safe_readU32 fun _ => ?_
    | refine safe_bind (safe_readWhen _) fun _ => ?_
    | refine safe_bind safe_readU8 fun _ => ?_

theorem safe_parseModernHeader (version magic : Nat) (sourceHash : Bytes) :
    SafeOn (Addressable bytes) (parseModernHeader version magic sourceHash) := by
  unfold parseModernHeader
  repeat
    first
    | exact safe_pure _
    | refine safe_bind safe_readU32 fun _ => ?_
    | refine safe_bind safe_readU8 fun _ => ?_

end Safety

end HermesDecomp.Parser
