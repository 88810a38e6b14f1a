import HermesDecomp.File.Header

/-!
# Parsing function headers

Each function has an inline header of fixed size. When its overflow flag is set,
the inline fields hold nothing but the position of a large header elsewhere in
the image, which is read instead.
-/

namespace HermesDecomp.Parser

open Reader Outcome

/-- The bits of a word from `start` on. -/
def bitField (raw start width : Nat) : Nat := (raw >>> start) &&& (2 ^ width - 1)

theorem bitField_eq (raw start width : Nat) :
    bitField raw start width = raw / 2 ^ start % 2 ^ width := by
  rw [bitField, Nat.and_two_pow_sub_one_eq_mod, Nat.shiftRight_eq_div_pow]

theorem bitField_lt (raw start width : Nat) : bitField raw start width < 2 ^ width := by
  rw [bitField_eq]
  exact Nat.mod_lt _ (Nat.two_pow_pos width)

/-- Size of a legacy inline header. -/
def legacyHeaderSize : Nat := 16

/-- Size of a modern inline header. -/
def modernHeaderSize : Nat := 12

/-- The fields of a legacy inline header. -/
def legacyInline (functionId raw : Nat) : LegacyFunctionHeader where
  functionId := functionId
  offset := bitField raw 0 25
  paramCount := bitField raw 25 7
  bytecodeSizeInBytes := bitField raw 32 15
  functionName := bitField raw 47 17
  infoOffset := bitField raw 64 25
  frameSize := bitField raw 89 7
  environmentSize := bitField raw 96 8
  highestReadCacheIndex := bitField raw 104 8
  highestWriteCacheIndex := bitField raw 112 8
  flags := bitField raw 120 8

/-- Where an overflowed legacy inline header says its large header is. -/
def legacyLargeOffset (inline : LegacyFunctionHeader) : Nat :=
  inline.infoOffset <<< 16 ||| inline.offset

/-- The fields of a modern inline header. One bit moves between the write cache
size and a field that only some versions have. -/
def modernInline (layout : ModernLayout) (functionId raw : Nat) : ModernFunctionHeader where
  functionId := functionId
  offset := bitField raw 0 25
  paramCount := bitField raw 25 5
  loopDepth := bitField raw 30 2
  bytecodeSizeInBytes := bitField raw 32 14
  functionName := bitField raw 46 8
  numberRegCount := bitField raw 54 5
  nonPtrRegCount := bitField raw 59 5
  frameSize := bitField raw 64 8
  readCacheSize := bitField raw 72 8
  writeCacheSize := bitField raw 80 layout.smallWriteCacheBits
  numCacheNewObject := if layout.largeNumCacheNewObjectPos.isSome then bitField raw 86 1 else 0
  privateNameCacheSize := bitField raw 87 1
  flags := bitField raw 88 8
  infoOffset := 0

/-- Where an overflowed modern inline header says its large header is. -/
def modernLargeOffsetOf (inline : ModernFunctionHeader) : Nat :=
  inline.functionName <<< 24 ||| (inline.offset &&& 0x00ffffff)

/-- Read a legacy large header and come back. -/
def parseLargeHeaderLegacy (offset functionId : Nat) : Reader LegacyFunctionHeader := do
  let current ← position
  seek offset
  let bodyOffset ← readU32
  let paramCount ← readU32
  let bytecodeSizeInBytes ← readU32
  let functionName ← readU32
  let infoOffset ← readU32
  let frameSize ← readU32
  let environmentSize ← readU32
  let highestReadCacheIndex ← readU8
  let highestWriteCacheIndex ← readU8
  let flags ← readU8
  seek current
  pure { functionId, offset := bodyOffset, paramCount, bytecodeSizeInBytes, functionName,
         infoOffset, frameSize, environmentSize, highestReadCacheIndex, highestWriteCacheIndex,
         flags := flags ||| flagOverflowed }

/-- The 32-bit field at a position of a large header. -/
def largeU32 (raw : Bytes) (pos : Nat) : Result Nat := .unwrap (Bytes.u32At raw pos)

/-- The byte at a position of a large header. -/
def largeU8 (raw : Bytes) (pos : Nat) : Result Nat := UInt8.toNat <$> Outcome.index raw pos

/-- The byte of a field that some versions lack, where it is zero. -/
def largeU8When (raw : Bytes) : Option Nat → Result Nat
  | some pos => largeU8 raw pos
  | none => pure 0

/-- The fields of a modern large header found at `offset`. -/
def modernLarge (layout : ModernLayout) (offset functionId : Nat) (raw : Bytes) :
    Result ModernFunctionHeader := do
  let bodyOffset ← largeU32 raw modernLargeOffset
  let paramCount ← largeU32 raw modernLargeParamCount
  let loopDepth ← largeU32 raw modernLargeLoopDepth
  let bytecodeSizeInBytes ← largeU32 raw modernLargeBytecodeSize
  let functionName ← largeU32 raw modernLargeFunctionName
  let numberRegCount ← largeU32 raw modernLargeNumberRegCount
  let nonPtrRegCount ← largeU32 raw modernLargeNonPtrRegCount
  let frameSize ← largeU32 raw modernLargeFrameSize
  let readCacheSize ← largeU8 raw layout.largeReadCacheSizePos
  let writeCacheSize ← largeU8 raw layout.largeWriteCacheSizePos
  let numCacheNewObject ← largeU8When raw layout.largeNumCacheNewObjectPos
  let privateNameCacheSize ← largeU8 raw layout.largePrivateNameCacheSizePos
  let flags ← largeU8 raw layout.largeFlagsPos
  let infoOffset ← layout.infoOffsetFor offset
  pure { functionId, offset := bodyOffset, paramCount, loopDepth, bytecodeSizeInBytes,
         functionName, numberRegCount, nonPtrRegCount, frameSize, readCacheSize, writeCacheSize,
         numCacheNewObject, privateNameCacheSize, flags := flags ||| flagOverflowed,
         infoOffset := infoOffset % 2 ^ 32 }

/-- Read a modern large header and come back. -/
def parseLargeHeaderModern (layout : ModernLayout) (offset functionId : Nat) :
    Reader ModernFunctionHeader := do
  let current ← position
  seek offset
  let raw ← readBytes layout.largeSize
  let header ← Action.lift (modernLarge layout offset functionId raw)
  seek current
  pure header

/-- Move to the end of an inline header. -/
def seekPast (currentPos size : Nat) : Reader PUnit := do
  let next ← Action.lift (.checked (currentPos + size < 2 ^ 64) (currentPos + size))
  seek next

/-- Read one legacy function header. -/
def parseLegacyFunction (functionId : Nat) : Reader FunctionHeader := do
  let currentPos ← position
  let raw ← readBytes legacyHeaderSize
  let inline := legacyInline functionId (Bytes.leNat raw)
  if hasFlag inline.flags flagOverflowed then
    let large ← parseLargeHeaderLegacy (legacyLargeOffset inline) functionId
    seekPast currentPos legacyHeaderSize
    pure (.legacy large)
  else pure (.legacy inline)

/-- Read one modern function header. -/
def parseModernFunction (layout : ModernLayout) (functionId : Nat) : Reader FunctionHeader := do
  let currentPos ← position
  let raw ← readBytes modernHeaderSize
  let inline := modernInline layout functionId (Bytes.leNat raw)
  if hasFlag inline.flags flagOverflowed then
    let large ← parseLargeHeaderModern layout (modernLargeOffsetOf inline) functionId
    seekPast currentPos modernHeaderSize
    pure (.modern large)
  else pure (.modern inline)

/-- Read the headers of `count` functions, the first one with the given id. -/
def functionsFrom (parseOne : Nat → Reader FunctionHeader) :
    (count functionId : Nat) → Reader (List FunctionHeader)
  | 0, _ => pure []
  | count + 1, functionId => do
      let header ← parseOne functionId
      let rest ← functionsFrom parseOne count (functionId + 1)
      pure (header :: rest)

/-- Read all function headers. A modern image needs a known large header layout,
whether or not a function uses it. -/
def parseFunctionHeaders (header : BytecodeHeader) : Reader (List FunctionHeader) :=
  match header.functionHeaderLayout with
  | .legacy16 => functionsFrom parseLegacyFunction header.functionCount 0
  | .modern12 => do
      let layout ← Action.lift (ModernLayout.forVersion header.version)
      functionsFrom (parseModernFunction layout) header.functionCount 0

section Safety

open Action

variable {bytes : Bytes}

theorem safe_parseLargeHeaderLegacy (offset functionId : Nat) :
    SafeOn (Addressable bytes) (parseLargeHeaderLegacy offset functionId) := by
  refine safe_bind safe_position fun current => safe_bind (safe_seek _) fun _ => ?_
  repeat
    first
    | refine safe_bind safe_readU32 fun _ => ?_
    | refine safe_bind safe_readU8 fun _ => ?_
  exact safe_bind (safe_seek _) fun _ => safe_pure _

/-- A 32-bit field inside the header is read. -/
theorem largeU32_ne_panic {raw : Bytes} {pos : Nat} (inside : pos + 4 ≤ raw.length) :
    largeU32 raw pos ≠ .panic := by
  rw [largeU32, Bytes.u32At, Bytes.slice, if_pos inside]
  simp [Outcome.unwrap]

/-- A byte inside the header is read. -/
theorem largeU8_ne_panic {raw : Bytes} {pos : Nat} (inside : pos < raw.length) :
    largeU8 raw pos ≠ .panic := by
  apply map_ne_panic
  rw [Outcome.index, List.getElem?_eq_getElem inside]
  simp [Outcome.unwrap]

/-- Every field of a large header of the full size is inside it. -/
theorem modernLarge_ne_panic {layout : ModernLayout} {offset functionId : Nat} {raw : Bytes}
    (whole : raw.length = layout.largeSize) (small : offset < 2 ^ 63) :
    modernLarge layout offset functionId raw ≠ .panic := by
  have size := layout.largeSize_bounds
  obtain ⟨readCache, writeCache, newObject, privateName, flags⟩ := layout.tail_inside
  have field : ∀ pos, pos + 4 ≤ 36 → largeU32 raw pos ≠ .panic := fun pos inside =>
    largeU32_ne_panic (by omega)
  have byte : ∀ pos, pos < layout.largeSize → largeU8 raw pos ≠ .panic := fun pos inside =>
    largeU8_ne_panic (by omega)
  have byteWhen : largeU8When raw layout.largeNumCacheNewObjectPos ≠ .panic := by
    cases found : layout.largeNumCacheNewObjectPos with
    | none => simp [largeU8When]
    | some pos => exact byte pos (newObject pos found)
  unfold modernLarge
  iterate 8 refine bind_ne_panic (field _ (by decide)) fun _ _ => ?_
  refine bind_ne_panic (byte _ readCache) fun _ _ => ?_
  refine bind_ne_panic (byte _ writeCache) fun _ _ => ?_
  refine bind_ne_panic byteWhen fun _ _ => ?_
  refine bind_ne_panic (byte _ privateName) fun _ _ => ?_
  refine bind_ne_panic (byte _ flags) fun _ _ => ?_
  refine bind_ne_panic (layout.infoOffsetFor_ne_panic small) fun _ _ => ?_
  exact pure_ne_panic _

theorem safe_parseLargeHeaderModern {layout : ModernLayout} {offset : Nat} (functionId : Nat)
    (small : offset < 2 ^ 63) :
    SafeOn (Addressable bytes) (parseLargeHeaderModern layout offset functionId) := by
  have whole : ∀ reader raw, Addressable bytes reader →
      (readBytes layout.largeSize reader).1 = .ok raw → raw.length = layout.largeSize := by
    intro reader raw _ ran
    obtain ⟨found, -⟩ := readExact_eq_ok.mp (Prod.ext ran rfl)
    exact Bytes.slice_length found
  refine safe_bind safe_position fun current => safe_bind (safe_seek _) fun _ => ?_
  refine safe_bind_of (safe_readExact _) whole fun raw length => ?_
  exact safe_bind (safe_lift (modernLarge_ne_panic length small)) fun _ =>
    safe_bind (safe_seek _) fun _ => safe_pure _

/-- A position in the string plus a header size is a machine word. -/
theorem safe_seekPast {currentPos size : Nat} (inside : currentPos < 2 ^ 63) (small : size < 2 ^ 63) :
    SafeOn (Addressable bytes) (seekPast currentPos size) := by
  refine safe_bind (safe_lift ?_) safe_seek
  intro overflow
  exact checked_eq_panic.mp overflow (by omega)

/-- The position of a modern large header is a 32-bit number. -/
theorem modernLargeOffsetOf_lt (layout : ModernLayout) (functionId raw : Nat) :
    modernLargeOffsetOf (modernInline layout functionId raw) < 2 ^ 32 := by
  have name : bitField raw 46 8 < 2 ^ 8 := bitField_lt raw 46 8
  have high : bitField raw 46 8 <<< 24 < 2 ^ 32 := by
    rw [Nat.shiftLeft_eq]
    omega
  have low : bitField raw 0 25 &&& 0x00ffffff < 2 ^ 32 :=
    lt_of_le_of_lt Nat.and_le_right (by decide)
  exact Nat.or_lt_two_pow high low

theorem safe_parseLegacyFunction (functionId : Nat) :
    SafeOn (Addressable bytes) (parseLegacyFunction functionId) := by
  refine safe_bind_of safe_position position_lt fun currentPos inside => ?_
  refine safe_bind (safe_readExact _) fun raw => safe_ite (fun _ => ?_) fun _ => safe_pure _
  exact safe_bind (safe_parseLargeHeaderLegacy _ _) fun _ =>
    safe_bind (safe_seekPast inside (by decide)) fun _ => safe_pure _

theorem safe_parseModernFunction (layout : ModernLayout) (functionId : Nat) :
    SafeOn (Addressable bytes) (parseModernFunction layout functionId) := by
  refine safe_bind_of safe_position position_lt fun currentPos inside => ?_
  refine safe_bind (safe_readExact _) fun raw => safe_ite (fun _ => ?_) fun _ => safe_pure _
  have small : modernLargeOffsetOf (modernInline layout functionId (Bytes.leNat raw)) < 2 ^ 63 :=
    Nat.lt_trans (modernLargeOffsetOf_lt _ _ _) (by decide)
  exact safe_bind (safe_parseLargeHeaderModern _ small) fun _ =>
    safe_bind (safe_seekPast inside (by decide)) fun _ => safe_pure _

theorem safe_functionsFrom {parseOne : Nat → Reader FunctionHeader}
    (safe : ∀ functionId, SafeOn (Addressable bytes) (parseOne functionId)) (count functionId : Nat) :
    SafeOn (Addressable bytes) (functionsFrom parseOne count functionId) := by
  induction count generalizing functionId with
  | zero => exact safe_pure _
  | succ count ih =>
    exact safe_bind (safe functionId) fun _ => safe_bind (ih (functionId + 1)) fun _ => safe_pure _

theorem safe_parseFunctionHeaders (header : BytecodeHeader) :
    SafeOn (Addressable bytes) (parseFunctionHeaders header) := by
  unfold parseFunctionHeaders
  split
  · exact safe_functionsFrom safe_parseLegacyFunction _ _
  · exact safe_bind (safe_lift (ModernLayout.forVersion_ne_panic _)) fun layout =>
      safe_functionsFrom (safe_parseModernFunction layout) _ _

end Safety

end HermesDecomp.Parser
