import HermesDecomp.Library.Bytes

/-!
# Headers and small string table entries

The file header and the two shapes of function headers, as records of their
fields, and the small string table entry: an encoding flag, a 23-bit offset and
an 8-bit length in 32 bits. A length of all ones says that the offset is the
index of an overflow record instead; every string path reads and writes entries
through this module.
-/

namespace HermesDecomp

/-- The function's info section has an exception handler table. -/
def flagHasExceptionHandler : Nat := 0x08

/-- The function's info section has debug offsets. -/
def flagHasDebugInfo : Nat := 0x10

/-- The function header is a large header stored out of line. -/
def flagOverflowed : Nat := 0x20

/-- Whether a flags byte has a bit set. -/
def hasFlag (flags flag : Nat) : Bool := flags &&& flag != 0

/-- The two file header layouts. -/
inductive HeaderLayout where
  | legacy
  | modern
deriving DecidableEq, Repr

/-- The two function header layouts. -/
inductive FunctionHeaderLayout where
  | legacy16
  | modern12
deriving DecidableEq, Repr

/-- The file header. A field that a layout or version does not have is absent. -/
structure BytecodeHeader where
  magic : Nat
  version : Nat
  sourceHash : Bytes
  fileLength : Nat
  globalCodeIndex : Nat
  functionCount : Nat
  stringKindCount : Nat
  identifierCount : Nat
  stringCount : Nat
  overflowStringCount : Nat
  stringStorageSize : Nat
  bigIntCount : Option Nat
  bigIntStorageSize : Option Nat
  regExpCount : Nat
  regExpStorageSize : Nat
  literalValueBufferSize : Option Nat
  arrayBufferSize : Option Nat
  objKeyBufferSize : Nat
  objValueBufferSize : Option Nat
  objShapeTableCount : Option Nat
  numStringSwitchImms : Option Nat
  segmentId : Option Nat
  cjsModuleOffset : Option Nat
  cjsModuleCount : Nat
  functionSourceCount : Option Nat
  debugInfoOffset : Nat
  /-- The `options` bitfield, undecoded. -/
  optionsRaw : Nat
  layout : HeaderLayout
  functionHeaderLayout : FunctionHeaderLayout
deriving DecidableEq, Repr

/-- A function header of the legacy layout. -/
structure LegacyFunctionHeader where
  functionId : Nat
  offset : Nat
  paramCount : Nat
  bytecodeSizeInBytes : Nat
  functionName : Nat
  infoOffset : Nat
  frameSize : Nat
  environmentSize : Nat
  highestReadCacheIndex : Nat
  highestWriteCacheIndex : Nat
  flags : Nat
deriving DecidableEq, Repr

/-- A function header of the modern layout. -/
structure ModernFunctionHeader where
  functionId : Nat
  offset : Nat
  paramCount : Nat
  loopDepth : Nat
  bytecodeSizeInBytes : Nat
  functionName : Nat
  numberRegCount : Nat
  nonPtrRegCount : Nat
  frameSize : Nat
  readCacheSize : Nat
  writeCacheSize : Nat
  numCacheNewObject : Nat
  privateNameCacheSize : Nat
  flags : Nat
  /-- Offset of the function's info section, which follows the large header; zero
  when the function is not overflowed. -/
  infoOffset : Nat
deriving DecidableEq, Repr

/-- A function header of either layout. -/
inductive FunctionHeader where
  | legacy (header : LegacyFunctionHeader)
  | modern (header : ModernFunctionHeader)
deriving DecidableEq, Repr

namespace FunctionHeader

/-- The id of the function. -/
def functionId : FunctionHeader → Nat
  | legacy header => header.functionId
  | modern header => header.functionId

/-- Where the body starts in the file. -/
def offset : FunctionHeader → Nat
  | legacy header => header.offset
  | modern header => header.offset

/-- How long the body is. -/
def bytecodeSizeInBytes : FunctionHeader → Nat
  | legacy header => header.bytecodeSizeInBytes
  | modern header => header.bytecodeSizeInBytes

/-- The flags byte. -/
def flags : FunctionHeader → Nat
  | legacy header => header.flags
  | modern header => header.flags

/-- Where the info section starts, or zero. -/
def infoOffset : FunctionHeader → Nat
  | legacy header => header.infoOffset
  | modern header => header.infoOffset

end FunctionHeader

/-- A decoded `SmallStringTableEntry`. -/
structure SmallStringEntry where
  isUtf16 : Bool
  /-- Storage offset, or the overflow record index when overflowed. -/
  offset : Nat
  /-- Length in characters (code units for UTF-16), or 0xff when overflowed. -/
  length : Nat
deriving DecidableEq, Repr

namespace SmallStringEntry

/-- Offsets must be below this to fit; at or past it, the string overflows. -/
def offsetLimit : Nat := 2 ^ 23

/-- The length that marks an overflowed entry, so the longest that fits is 0xfe. -/
def lengthOverflow : Nat := 0xff

/-- Read the three fields of a 32-bit entry. -/
def decode (raw : Nat) : SmallStringEntry where
  isUtf16 := raw &&& 1 != 0
  offset := (raw >>> 1) &&& (offsetLimit - 1)
  length := raw >>> 24

/-- Pack the three fields; the shift drops what leaves the 32-bit word. -/
def encode (entry : SmallStringEntry) : Nat :=
  (entry.length <<< 24) % 2 ^ 32 ||| ((entry.offset &&& (offsetLimit - 1)) <<< 1) |||
    entry.isUtf16.toNat

/-- The overflow record this entry points at, when it is overflowed. -/
def overflowIndex (entry : SmallStringEntry) : Option Nat :=
  if entry.length = lengthOverflow then some entry.offset else none

/-- The storage offset and length this entry stands for, reading an overflowed
entry's record; nothing when that record is missing. -/
def resolve (entry : SmallStringEntry) (overflow : List (Nat × Nat)) : Option (Nat × Nat) :=
  match entry.overflowIndex with
  | some index => overflow[index]?
  | none => some (entry.offset, entry.length)

/-- The entry for a string stored at `offset` with `length`, when both fit; a
string that does not fit gets the overflowed entry pointing at `nextRecord`, and
`true` to say that the record has to be appended. -/
def forString (isUtf16 : Bool) (offset length nextRecord : Nat) : SmallStringEntry × Bool :=
  if offset < offsetLimit ∧ length < lengthOverflow then ({ isUtf16, offset, length }, false)
  else ({ isUtf16, offset := nextRecord, length := lengthOverflow }, true)

/-- The packed entry as a sum of its three disjoint fields. -/
theorem encode_eq_add {entry : SmallStringEntry} (offsetFits : entry.offset < 2 ^ 23)
    (lengthFits : entry.length < 2 ^ 8) :
    entry.encode = entry.length * 2 ^ 24 + entry.offset * 2 + entry.isUtf16.toNat := by
  have flag : entry.isUtf16.toNat < 2 := Bool.toNat_lt entry.isUtf16
  have masked : entry.offset &&& (offsetLimit - 1) = entry.offset := by
    rw [offsetLimit, Nat.and_two_pow_sub_one_eq_mod, Nat.mod_eq_of_lt offsetFits]
  have high : (entry.length <<< 24) % 2 ^ 32 = entry.length <<< 24 := by
    rw [Nat.shiftLeft_eq, Nat.mod_eq_of_lt (by omega)]
  have low : entry.offset <<< 1 ||| entry.isUtf16.toNat = entry.offset * 2 + entry.isUtf16.toNat := by
    rw [← Nat.shiftLeft_add_eq_or_of_lt (by omega), Nat.shiftLeft_eq, pow_one]
  rw [encode, masked, high, Nat.or_assoc, low, ← Nat.shiftLeft_add_eq_or_of_lt (by omega),
    Nat.shiftLeft_eq, add_assoc]

/-- An entry whose fields fit is read back unchanged. -/
theorem decode_encode {entry : SmallStringEntry} (offsetFits : entry.offset < 2 ^ 23)
    (lengthFits : entry.length < 2 ^ 8) : decode entry.encode = entry := by
  have flag : entry.isUtf16.toNat < 2 := Bool.toNat_lt entry.isUtf16
  have packed := encode_eq_add offsetFits lengthFits
  have utf16 : (decode entry.encode).isUtf16 = entry.isUtf16 := by
    have parity : entry.encode &&& 1 = entry.isUtf16.toNat := by
      rw [Nat.and_one_is_mod, packed]
      omega
    simp only [decode, parity]
    cases entry.isUtf16 <;> rfl
  have offset : (decode entry.encode).offset = entry.offset := by
    simp only [decode, offsetLimit]
    rw [Nat.and_two_pow_sub_one_eq_mod, Nat.shiftRight_eq_div_pow, packed]
    omega
  have length : (decode entry.encode).length = entry.length := by
    simp only [decode]
    rw [Nat.shiftRight_eq_div_pow, packed]
    omega
  rcases read : decode entry.encode with ⟨isUtf16, first, second⟩
  rw [read] at utf16 offset length
  cases entry
  simp_all

/-- A packed entry fits the 32 bits it is stored in. -/
theorem encode_lt (entry : SmallStringEntry) : entry.encode < 2 ^ 32 := by
  have flag : entry.isUtf16.toNat < 2 := Bool.toNat_lt entry.isUtf16
  have masked : entry.offset &&& (offsetLimit - 1) < 2 ^ 23 := Nat.and_lt_two_pow _ (by decide)
  refine Nat.or_lt_two_pow (Nat.or_lt_two_pow (Nat.mod_lt _ (by decide)) ?_) (by omega)
  rw [Nat.shiftLeft_eq]
  omega

/-- What `forString` packs stands for the offset and length it was given, once
the record it asks for sits at its index. -/
theorem resolve_forString {isUtf16 : Bool} {offset length nextRecord : Nat}
    {overflow : List (Nat × Nat)}
    (recorded : (forString isUtf16 offset length nextRecord).2 = true →
      overflow[nextRecord]? = some (offset, length)) :
    (forString isUtf16 offset length nextRecord).1.resolve overflow = some (offset, length) := by
  unfold forString at recorded ⊢
  split
  next fits =>
    have plain : length ≠ lengthOverflow := ne_of_lt fits.2
    simp [resolve, overflowIndex, plain]
  next large =>
    rw [if_neg large] at recorded
    simpa [resolve, overflowIndex] using recorded rfl

/-- What `forString` builds survives packing when the index of a record it asks for
fits 23 bits. -/
theorem decode_encode_forString {isUtf16 : Bool} {offset length nextRecord : Nat}
    (few : (forString isUtf16 offset length nextRecord).2 = true → nextRecord < 2 ^ 23) :
    decode (forString isUtf16 offset length nextRecord).1.encode =
      (forString isUtf16 offset length nextRecord).1 := by
  unfold forString at few ⊢
  split
  next fits => exact decode_encode fits.1 (lt_trans fits.2 (by decide))
  next large =>
    rw [if_neg large] at few
    exact decode_encode (few rfl) (show lengthOverflow < 2 ^ 8 by decide)

@[simp] theorem forString_isUtf16 (isUtf16 : Bool) (offset length nextRecord : Nat) :
    (forString isUtf16 offset length nextRecord).1.isUtf16 = isUtf16 := by
  unfold forString
  split <;> rfl

end SmallStringEntry

end HermesDecomp
