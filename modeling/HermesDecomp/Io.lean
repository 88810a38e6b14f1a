import HermesDecomp.Library.Outcome
import HermesDecomp.Library.Utf

/-!
# The byte reader

A reader is a byte string and a position inside it. A read either returns a value
and moves past it or returns an error; a position never leaves the string. The
position after a failed read is observable, because some callers go on reading.
-/

namespace HermesDecomp

/-- Why a call was refused. -/
inductive Error where
  | parse (message : String)
  | unsupportedVersion (version : Nat)
  | missingFormat (version : Nat)
  /-- Bytecode write, assemble and patch path. -/
  | write (message : String)
deriving DecidableEq, Repr

/-- The text of an error. -/
def Error.describe : Error → String
  | .parse message => s!"parse error: {message}"
  | .unsupportedVersion version => s!"unsupported bytecode version: {version}"
  | .missingFormat version => s!"missing opcode format for bytecode version: {version}"
  | .write message => s!"write error: {message}"

/-- A call of the library: a value, one of its errors, or a panic. -/
abbrev Result (α : Type) := Outcome Error α

/-- A position inside a byte string. -/
structure ByteReader where
  data : Bytes
  pos : Nat
  inside : pos ≤ data.length

/-- Code that reads from a reader. -/
abbrev Reader := Action ByteReader Error

namespace ByteReader

/-- A reader at the start of a byte string. -/
def new (data : Bytes) : ByteReader where
  data := data
  pos := 0
  inside := Nat.zero_le _

/-- Bytes left to read. -/
def remaining (reader : ByteReader) : Nat := reader.data.length - reader.pos

end ByteReader

namespace Reader

/-- The current position. -/
def position : Reader Nat := fun reader => (.ok reader.pos, reader)

/-- Bytes left to read. -/
def remaining : Reader Nat := fun reader => (.ok reader.remaining, reader)

/-- Move to a position inside the string or at its end. -/
def seek (pos : Nat) : Reader PUnit := fun reader =>
  if inside : pos ≤ reader.data.length then (.ok ⟨⟩, { reader with pos, inside })
  else
    let size := reader.data.length
    (.err (.parse s!"seek out of range: {pos} > {size}"), reader)

/-- The next `len` bytes. -/
def readExact (len : Nat) : Reader Bytes := fun reader =>
  if inside : reader.pos + len ≤ reader.data.length then
    (.ok ((reader.data.drop reader.pos).take len), { reader with pos := reader.pos + len, inside })
  else
    let pos := reader.pos
    let left := reader.remaining
    (.err (.parse
      s!"unexpected end of file: needed {len} bytes at offset {pos} but only {left} remain"), reader)

/-- Read `len` bytes. -/
def readBytes (len : Nat) : Reader Bytes := readExact len

/-- Read a little-endian number of `width` bytes. -/
def readNat (width : Nat) : Reader Nat := do
  let bytes ← readExact width
  pure (Bytes.leNat bytes)

/-- Read one byte. -/
def readU8 : Reader Nat := readNat 1

/-- Read a 16-bit number. -/
def readU16 : Reader Nat := readNat 2

/-- Read a 32-bit number. -/
def readU32 : Reader Nat := readNat 4

/-- Read a 64-bit number. -/
def readU64 : Reader Nat := readNat 8

/-- Move up to the next multiple of `alignment`; the unchecked sum is a machine word. -/
def align (alignment : Nat) : Reader PUnit := do
  if alignment = 0 then Action.fail (.parse "alignment must be > 0")
  else
    let pos ← position
    let rem := pos % alignment
    if rem = 0 then pure ⟨⟩
    else
      let next ← Action.lift (.checked (pos + (alignment - rem) < 2 ^ 64) (pos + (alignment - rem)))
      seek next

/-- The byte at the position, which moves past it; at the end, the given error. -/
def nextByte (atEnd : Error) : Reader UInt8 := fun reader =>
  if inside : reader.pos < reader.data.length then
    (.ok (reader.data.get ⟨reader.pos, inside⟩), { reader with pos := reader.pos + 1, inside })
  else (.err atEnd, reader)

/-- The seven payload bits of a byte, shifted into a 64-bit word. -/
def payload (byte : UInt8) (shift : Nat) : BitVec 64 :=
  BitVec.ofNat 64 (byte.toNat &&& 0x7f) <<< shift

/-- Whether another byte follows. -/
def continues (byte : UInt8) : Bool := byte.toNat &&& 0x80 != 0

/-- The groups of a ULEB128 number from `shift` on. Ten bytes fill 64 bits, so
the loop ends before the fuel does. -/
def uleb128From : (fuel shift : Nat) → BitVec 64 → Reader Nat
  | 0, _, _ => Action.lift .panic
  | fuel + 1, shift, result => do
      let byte ← nextByte (.parse "unexpected end of LEB128")
      let result := result ||| payload byte shift
      if !continues byte then pure result.toNat
      else if 64 ≤ shift + 7 then Action.fail (.parse "LEB128 overflow")
      else uleb128From fuel (shift + 7) result

/-- Read an unsigned LEB128 number. -/
def readUleb128 : Reader Nat := uleb128From 10 0 0

/-- The groups of an SLEB128 number from `shift` on. A last group below bit 64
extends its sign. -/
def sleb128From : (fuel shift : Nat) → BitVec 64 → Reader Int
  | 0, _, _ => Action.lift .panic
  | fuel + 1, shift, result => do
      let byte ← nextByte (.parse "unexpected end of SLEB128")
      let result := result ||| payload byte shift
      let shift := shift + 7
      if !continues byte then
        if shift < 64 ∧ byte.toNat &&& 0x40 ≠ 0 then
          pure (result ||| BitVec.allOnes 64 <<< shift).toInt
        else pure result.toInt
      else if 64 ≤ shift then Action.fail (.parse "SLEB128 overflow")
      else sleb128From fuel shift result

/-- Read a signed LEB128 number. -/
def readSleb128 : Reader Int := sleb128From 10 0 0

/-- Run a read and replace its error. The new error is made from the reader the
failed read left. -/
def mapErr {α : Type} (action : Reader α) (describe : ByteReader → Error) : Reader α := fun reader =>
  match action reader with
  | (.err _, reader) => (.err (describe reader), reader)
  | other => other

/-- Read a ULEB128 length and that many bytes of UTF-8. -/
def readLengthPrefixedString : Reader Text := do
  let len ← readUleb128
  if len = 0 then pure []
  else
    let bytes ← mapErr (readExact len) fun reader =>
      let left := reader.remaining
      .parse s!"length-prefixed string claims {len} bytes but only {left} remain (likely a mis-aligned section)"
    pure (Utf.fromUtf8Lossy bytes)

/-- The reader moved from one position to another over the same bytes. -/
def Moved (before after : ByteReader) (count : Nat) : Prop :=
  after.data = before.data ∧ after.pos = before.pos + count

/-- A successful read of bytes is the slice at the position. -/
theorem readExact_eq_ok {len : Nat} {reader final : ByteReader} {bytes : Bytes} :
    readExact len reader = (.ok bytes, final) ↔
      Bytes.slice reader.data reader.pos len = some bytes ∧ Moved reader final len := by
  unfold readExact Bytes.slice Moved
  constructor
  · intro ran
    split at ran
    next inside =>
      simp only [Prod.mk.injEq, Outcome.ok.injEq] at ran
      obtain ⟨rfl, rfl⟩ := ran
      exact ⟨if_pos inside, rfl, rfl⟩
    next outside => simp at ran
  · rintro ⟨found, data, pos⟩
    split at found
    next inside =>
      rw [dif_pos inside, Prod.mk.injEq, Outcome.ok.injEq]
      refine ⟨Option.some.inj found, ?_⟩
      cases final
      simp_all
    next outside => simp at found

/-- A successful read of a number is the number at the position. -/
theorem readNat_eq_ok {width : Nat} {reader final : ByteReader} {value : Nat} :
    readNat width reader = (.ok value, final) ↔
      (Bytes.slice reader.data reader.pos width).map Bytes.leNat = some value ∧
        Moved reader final width := by
  unfold readNat
  rw [Action.bind_eq_ok]
  simp only [Action.pure_apply, Prod.mk.injEq, Outcome.ok.injEq, readExact_eq_ok,
    Option.map_eq_some_iff]
  constructor
  · rintro ⟨bytes, between, ⟨found, moved⟩, rfl, rfl⟩
    exact ⟨⟨bytes, found, rfl⟩, moved⟩
  · rintro ⟨⟨bytes, found, rfl⟩, moved⟩
    exact ⟨bytes, final, ⟨found, moved⟩, rfl, rfl⟩

theorem readU32_eq_ok {reader final : ByteReader} {value : Nat} :
    readU32 reader = (.ok value, final) ↔
      Bytes.u32At reader.data reader.pos = some value ∧ Moved reader final 4 :=
  readNat_eq_ok

/-- A reader over given bytes, which fill at most half of the address space. -/
def Addressable (bytes : Bytes) (reader : ByteReader) : Prop :=
  reader.data = bytes ∧ bytes.length < 2 ^ 63

section Safety

open Action

variable {bytes : Bytes}

theorem safe_position : SafeOn (Addressable bytes) position := by
  intro reader small
  exact ⟨by simp [position], small⟩

/-- A position is inside the bytes and below half the address space. -/
theorem position_lt (reader : ByteReader) (value : Nat) (same : Addressable bytes reader)
    (ran : (position reader).1 = .ok value) : value < 2 ^ 63 := by
  obtain ⟨rfl, small⟩ := same
  obtain rfl : reader.pos = value := Outcome.ok.inj ran
  exact lt_of_le_of_lt reader.inside small

theorem safe_seek (pos : Nat) : SafeOn (Addressable bytes) (seek pos) := by
  intro reader small
  unfold seek
  split
  · exact ⟨by simp, small⟩
  · exact ⟨by simp, small⟩

theorem safe_readExact (len : Nat) : SafeOn (Addressable bytes) (readExact len) := by
  intro reader small
  unfold readExact
  split
  · exact ⟨by simp, small⟩
  · exact ⟨by simp, small⟩

theorem safe_readNat (width : Nat) : SafeOn (Addressable bytes) (readNat width) :=
  safe_bind (safe_readExact width) fun _ => safe_pure _

theorem safe_readU8 : SafeOn (Addressable bytes) readU8 := safe_readNat 1

theorem safe_readU32 : SafeOn (Addressable bytes) readU32 := safe_readNat 4

theorem safe_readU64 : SafeOn (Addressable bytes) readU64 := safe_readNat 8

/-- The sum of an aligned move stays in a machine word, because the position is
inside an addressable string. -/
theorem safe_align {alignment : Nat} (small : alignment < 2 ^ 63) :
    SafeOn (Addressable bytes) (align alignment) := by
  refine safe_ite (fun _ => safe_fail _) fun _ => ?_
  refine safe_bind_of safe_position position_lt fun pos before => ?_
  refine safe_ite (fun _ => safe_pure _) fun _ => ?_
  refine safe_bind (safe_lift ?_) fun next => safe_seek next
  intro overflow
  exact Outcome.checked_eq_panic.mp overflow (by omega)

section Loops

variable {invariant : ByteReader → Prop} (byte : ∀ atEnd, SafeOn invariant (nextByte atEnd))

include byte

/-- The unsigned loop stops within fuel that covers the bits left, and keeps what
reading a byte keeps. -/
theorem safe_uleb128From {fuel shift : Nat} (result : BitVec 64) (enough : 64 ≤ 7 * fuel + shift)
    (below : shift < 64) : SafeOn invariant (uleb128From fuel shift result) := by
  induction fuel generalizing shift result with
  | zero => omega
  | succ fuel ih =>
    refine safe_bind (byte _) fun next => ?_
    refine safe_ite (fun _ => safe_pure _) fun _ => ?_
    refine safe_ite (fun _ => safe_fail _) fun more => ?_
    exact ih _ (by omega) (by omega)

/-- The signed loop stops within fuel that covers the bits left, and keeps what
reading a byte keeps. -/
theorem safe_sleb128From {fuel shift : Nat} (result : BitVec 64) (enough : 64 ≤ 7 * fuel + shift)
    (below : shift < 64) : SafeOn invariant (sleb128From fuel shift result) := by
  induction fuel generalizing shift result with
  | zero => omega
  | succ fuel ih =>
    refine safe_bind (byte _) fun next => ?_
    refine safe_ite (fun _ => safe_ite (fun _ => safe_pure _) fun _ => safe_pure _) fun _ => ?_
    refine safe_ite (fun _ => safe_fail _) fun more => ?_
    exact ih _ (by omega) (by omega)

theorem safe_readUleb128_of : SafeOn invariant readUleb128 :=
  safe_uleb128From byte 0 (by decide) (by decide)

theorem safe_readSleb128_of : SafeOn invariant readSleb128 :=
  safe_sleb128From byte 0 (by decide) (by decide)

end Loops

/-- Reading a byte never panics, whatever the reader. -/
theorem nextByte_quiet (atEnd : Error) : SafeOn (fun _ => True) (nextByte atEnd) := by
  intro reader _
  unfold nextByte
  split <;> exact ⟨by simp, trivial⟩

theorem readExact_quiet (len : Nat) : SafeOn (fun _ => True) (readExact len) := by
  intro reader _
  unfold readExact
  split <;> exact ⟨by simp, trivial⟩

/-- Reading a signed number never panics, whatever the reader. -/
theorem readSleb128_quiet : SafeOn (fun _ => True) readSleb128 := safe_readSleb128_of nextByte_quiet

theorem safe_mapErr {α : Type} {invariant : ByteReader → Prop} {action : Reader α}
    (safe : SafeOn invariant action) (describe : ByteReader → Error) :
    SafeOn invariant (mapErr action describe) := by
  intro reader holds
  obtain ⟨quiet, kept⟩ := safe reader holds
  unfold mapErr
  rcases run : action reader with ⟨outcome, after⟩
  rw [run] at quiet kept
  cases outcome with
  | ok | err => exact ⟨by simp, kept⟩
  | panic => exact absurd rfl quiet

theorem readLengthPrefixedString_quiet : SafeOn (fun _ => True) readLengthPrefixedString :=
  safe_bind (safe_readUleb128_of nextByte_quiet) fun _ =>
    safe_ite (fun _ => safe_pure _) fun _ =>
      safe_bind (safe_mapErr (readExact_quiet _) _) fun _ => safe_pure _

theorem readU32_quiet : SafeOn (fun _ => True) readU32 :=
  safe_bind (readExact_quiet 4) fun _ => safe_pure _

end Safety

end Reader

end HermesDecomp
