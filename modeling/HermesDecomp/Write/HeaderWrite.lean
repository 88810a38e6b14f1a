import HermesDecomp.File.Function

/-!
# Editing headers in place

Reads and writes of a buffer panic outside its bounds, as slices do. A function
header slot is one little-endian word, of which single bit ranges are replaced;
an overflowed one holds a packed pointer to its large header.
-/

namespace HermesDecomp

namespace Buffer

/-- The bytes of a range. -/
def range (buf : Bytes) (start count : Nat) : Result Bytes := .unwrap (Bytes.slice buf start count)

/-- The 32-bit number at a position. -/
def readU32 (buf : Bytes) (pos : Nat) : Result Nat := .unwrap (Bytes.u32At buf pos)

/-- Replace the bytes at a position. -/
def write (buf : Bytes) (pos : Nat) (part : Bytes) : Result Bytes :=
  .checked (pos + part.length ≤ buf.length) (Bytes.overwrite buf pos part)

/-- Replace the 32-bit number at a position. -/
def writeU32 (buf : Bytes) (pos value : Nat) : Result Bytes := write buf pos (Bytes.leBytes 4 value)

theorem write_eq_ok {buf part after : Bytes} {pos : Nat} :
    write buf pos part = .ok after ↔
      pos + part.length ≤ buf.length ∧ Bytes.overwrite buf pos part = after :=
  Outcome.checked_eq_ok

theorem write_length {buf part after : Bytes} {pos : Nat} (ran : write buf pos part = .ok after) :
    after.length = buf.length := by
  obtain ⟨inside, rfl⟩ := write_eq_ok.mp ran
  exact Bytes.overwrite_length inside

end Buffer

namespace HeaderWrite

/-- Replace `bits` bits of a word from `lo` on. -/
def setBits (raw lo bits value : Nat) : Nat :=
  raw % 2 ^ lo + value % 2 ^ bits * 2 ^ lo + raw / 2 ^ (lo + bits) * 2 ^ (lo + bits)

/-- A signed number as a 64-bit word. -/
def asU64 (value : Int) : Nat := (value % 2 ^ 64).toNat

/-- A signed number as a 32-bit word. -/
def asU32 (value : Int) : Nat := (value % 2 ^ 32).toNat

/-- The error of a slot that is too small. -/
def slotError : Error := .write "function header slot too small"

/-- The error of a modern slot that is too small. -/
def modernSlotError : Error := .write "modern function header slot too small"

/-- The packed large header pointer of a legacy slot: sixteen bits where the body
offset is and the rest where the info offset is. -/
def readLegacyLargePointer (slot : Bytes) : Result Nat :=
  if slot.length < 16 then .err slotError
  else
    let raw := Bytes.leNat (slot.take 16)
    .ok ((Parser.bitField raw 64 25 <<< 16) % 2 ^ 32 ||| Parser.bitField raw 0 16)

/-- Shift the packed pointer of a legacy slot. -/
def shiftLegacyLargePointer (slot : Bytes) (delta : Int) : Result Bytes := do
  let cur ← readLegacyLargePointer slot
  let newPtr := asU64 (cur + delta)
  let raw := Bytes.leNat (slot.take 16)
  let raw := setBits raw 0 25 (newPtr % 2 ^ 16)
  let raw := setBits raw 64 25 (newPtr / 2 ^ 16)
  Buffer.write slot 0 (Bytes.leBytes 16 raw)

/-- The packed large header pointer of a modern slot: 24 bits where the body
offset is and eight where the name is. -/
def readModernLargePointer (slot : Bytes) : Result Nat :=
  if slot.length < 12 then .err modernSlotError
  else
    let raw := Bytes.leNat (slot.take 12)
    .ok (Parser.bitField raw 46 8 <<< 24 ||| Parser.bitField raw 0 24)

/-- Shift the packed pointer of a modern slot, leaving its other bits. -/
def shiftModernLargePointer (slot : Bytes) (delta : Int) : Result Bytes := do
  let cur ← readModernLargePointer slot
  let newPtr := asU64 (cur + delta)
  let raw := Bytes.leNat (slot.take 12)
  let raw := setBits raw 0 24 (newPtr % 2 ^ 24)
  let raw := setBits raw 46 8 (newPtr / 2 ^ 24)
  Buffer.write slot 0 (Bytes.leBytes 12 raw)

/-- Shift the 32-bit number at a position. -/
def shiftU32At (buf : Bytes) (pos : Nat) (delta : Int) : Result Bytes :=
  match Bytes.u32At buf pos with
  | none => .err (.write "shift_u32_at out of range")
  | some cur => Buffer.writeU32 buf pos (asU32 (cur + delta))

/-- Replaced bits read back, when they fit. -/
theorem bitField_setBits_self {raw lo bits value : Nat} (fits : value < 2 ^ bits) :
    Parser.bitField (setBits raw lo bits value) lo bits = value := by
  rw [Parser.bitField_eq, setBits, Nat.mod_eq_of_lt fits, Nat.pow_add]
  have low : raw % 2 ^ lo < 2 ^ lo := Nat.mod_lt _ (Nat.two_pow_pos lo)
  rw [show raw % 2 ^ lo + value * 2 ^ lo + raw / (2 ^ lo * 2 ^ bits) * (2 ^ lo * 2 ^ bits) =
    raw % 2 ^ lo + 2 ^ lo * (value + 2 ^ bits * (raw / (2 ^ lo * 2 ^ bits))) by ring]
  rw [Nat.add_mul_div_left _ _ (Nat.two_pow_pos lo), Nat.div_eq_of_lt low, Nat.zero_add,
    Nat.add_mul_mod_self_left, Nat.mod_eq_of_lt fits]

end HeaderWrite

end HermesDecomp
