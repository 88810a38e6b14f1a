import HermesDecomp.Library.Bytes

/-!
# Text and its two encodings

A text is a sequence of Unicode scalar values. UTF-16 encoding turns each into one unit or a
surrogate pair. Both decoders are lossy: an ill-formed part decodes to the replacement character,
and decoding never fails.
-/

namespace HermesDecomp

open List

/-- A text, as its sequence of Unicode scalar values. -/
abbrev Text := List Char

namespace Utf

/-- What a lossy decoder puts in the place of an ill-formed part. -/
def replacement : Char := Char.ofNat 0xFFFD

/-- The UTF-16 units of one scalar value: one unit in the basic plane, a
surrogate pair past it. -/
def encodeChar (c : Char) : List Nat :=
  if c.toNat < 0x10000 then [c.toNat]
  else [0xD800 + (c.toNat - 0x10000) / 0x400, 0xDC00 + (c.toNat - 0x10000) % 0x400]

/-- The UTF-16 units of a text. -/
def encodeUtf16 (text : Text) : List Nat := text.flatMap encodeChar

/-- The UTF-16 units of a byte string, low byte first; an odd last byte is dropped. -/
def units : Bytes → List Nat
  | low :: high :: rest => Bytes.leNat [low, high] :: units rest
  | _ => []

/-- The bytes of UTF-16 units, low byte first. -/
def unitBytes (units : List Nat) : Bytes := units.flatMap (Bytes.leBytes 2)

@[simp] theorem unitBytes_length (units : List Nat) : (unitBytes units).length = 2 * units.length := by
  induction units with
  | nil => rfl
  | cons unit units ih =>
    simp only [unitBytes, flatMap_cons, length_append, Bytes.leBytes_length, length_cons] at ih ⊢
    omega

/-- The units of their bytes are the units again. -/
theorem units_unitBytes {codes : List Nat} (small : ∀ code ∈ codes, code < 2 ^ 16) :
    units (unitBytes codes) = codes := by
  induction codes with
  | nil => rfl
  | cons code codes ih =>
    have fits : code < 256 ^ 2 := small code mem_cons_self
    have rest := ih fun other inside => small other (mem_cons_of_mem _ inside)
    have first : Bytes.leNat (Bytes.leBytes 2 code) = code := Bytes.leNat_leBytes_of_lt fits
    rw [unitBytes, flatMap_cons, ← unitBytes]
    exact (congrArg₂ List.cons first rest :)

/-- A unit that opens a surrogate pair. -/
def isHigh (unit : Nat) : Bool := 0xD800 ≤ unit && unit < 0xDC00

/-- A unit that closes a surrogate pair. -/
def isLow (unit : Nat) : Bool := 0xDC00 ≤ unit && unit < 0xE000

/-- Decode UTF-16 units; an unpaired surrogate becomes the replacement character. -/
def fromUtf16Lossy : List Nat → Text
  | [] => []
  | [unit] => [if isHigh unit || isLow unit then replacement else Char.ofNat unit]
  | unit :: next :: rest =>
      if isHigh unit then
        if isLow next then
          Char.ofNat (0x10000 + (unit - 0xD800) * 0x400 + (next - 0xDC00)) :: fromUtf16Lossy rest
        else replacement :: fromUtf16Lossy (next :: rest)
      else if isLow unit then replacement :: fromUtf16Lossy (next :: rest)
      else Char.ofNat unit :: fromUtf16Lossy (next :: rest)

/-- A UTF-8 sequence that has begun: how many bytes are still to come, the range
the next one has to lie in, and the bits read so far. -/
structure Pending where
  remaining : Nat
  low : Nat
  high : Nat
  bits : Nat

/-- What a first byte begins: a finished character, a longer sequence, or nothing
well-formed. The range of the second byte excludes overlong forms, surrogates and
values past the last scalar. -/
def lead (byte : Nat) : Option (Char ⊕ Pending) :=
  if byte < 0x80 then some (.inl (Char.ofNat byte))
  else if byte < 0xC2 then none
  else if byte < 0xE0 then some (.inr ⟨1, 0x80, 0xBF, byte - 0xC0⟩)
  else if byte = 0xE0 then some (.inr ⟨2, 0xA0, 0xBF, 0⟩)
  else if byte = 0xED then some (.inr ⟨2, 0x80, 0x9F, 0xD⟩)
  else if byte < 0xF0 then some (.inr ⟨2, 0x80, 0xBF, byte - 0xE0⟩)
  else if byte = 0xF0 then some (.inr ⟨3, 0x90, 0xBF, 0⟩)
  else if byte < 0xF4 then some (.inr ⟨3, 0x80, 0xBF, byte - 0xF0⟩)
  else if byte = 0xF4 then some (.inr ⟨3, 0x80, 0x8F, 4⟩)
  else none

/-- Read one byte at the start of a sequence. -/
def start (byte : Nat) : Text × Option Pending :=
  match lead byte with
  | some (.inl c) => ([c], none)
  | some (.inr pending) => ([], some pending)
  | none => ([replacement], none)

/-- Read one byte. A byte that does not continue the pending sequence ends it
with one replacement character and is then read as a first byte. -/
def step : Option Pending → Nat → Text × Option Pending
  | none, byte => start byte
  | some pending, byte =>
      if pending.low ≤ byte ∧ byte ≤ pending.high then
        let bits := pending.bits * 0x40 + (byte - 0x80)
        if pending.remaining ≤ 1 then ([Char.ofNat bits], none)
        else ([], some ⟨pending.remaining - 1, 0x80, 0xBF, bits⟩)
      else
        let (text, next) := start byte
        (replacement :: text, next)

/-- Decode the rest of a byte string after a pending sequence. -/
def decodeFrom : Option Pending → Bytes → Text
  | none, [] => []
  | some _, [] => [replacement]
  | pending, byte :: rest =>
      let (text, next) := step pending byte.toNat
      text ++ decodeFrom next rest

/-- Decode UTF-8; each maximal ill-formed part becomes one replacement character. -/
def fromUtf8Lossy (bytes : Bytes) : Text := decodeFrom none bytes

/-- Whether a byte is well-formed after a pending sequence. -/
def wellFormed : Option Pending → Nat → Bool
  | none, byte => (lead byte).isSome
  | some pending, byte => pending.low ≤ byte && byte ≤ pending.high

/-- Whether the rest of a byte string is well-formed after a pending sequence. -/
def validFrom : Option Pending → Bytes → Bool
  | pending, [] => pending.isNone
  | pending, byte :: rest =>
      wellFormed pending byte.toNat && validFrom (step pending byte.toNat).2 rest

/-- Decode UTF-8, when it is well-formed. -/
def fromUtf8 (bytes : Bytes) : Option Text :=
  if validFrom none bytes then some (fromUtf8Lossy bytes) else none

/-- Every unit of an encoded text fits 16 bits. -/
theorem encodeUtf16_lt {text : Text} {unit : Nat} (found : unit ∈ encodeUtf16 text) :
    unit < 2 ^ 16 := by
  obtain ⟨c, -, inside⟩ := mem_flatMap.mp found
  have bound : c.toNat < 0x110000 := by
    rcases c.valid with small | ⟨-, large⟩ <;> simp only [Char.toNat] <;> omega
  unfold encodeChar at inside
  split at inside
  · rw [mem_singleton] at inside
    omega
  · simp only [mem_cons, not_mem_nil, or_false] at inside
    omega

/-- Decoding the units of one character and a rest gives the character and the
decoded rest. -/
theorem fromUtf16Lossy_encodeChar (c : Char) (rest : List Nat) :
    fromUtf16Lossy (encodeChar c ++ rest) = c :: fromUtf16Lossy rest := by
  have whole : c.toNat < 0xD800 ∨ 0xDFFF < c.toNat ∧ c.toNat < 0x110000 := c.valid
  unfold encodeChar
  by_cases basic : c.toNat < 0x10000
  · have high : isHigh c.toNat = false := by
      simp only [isHigh, Bool.and_eq_false_iff, decide_eq_false_iff_not]
      omega
    have low : isLow c.toNat = false := by
      simp only [isLow, Bool.and_eq_false_iff, decide_eq_false_iff_not]
      omega
    rw [if_pos basic]
    cases rest with
    | nil => simp [fromUtf16Lossy, high, low, Char.ofNat_toNat]
    | cons next rest => simp [fromUtf16Lossy, high, low, Char.ofNat_toNat]
  · have high : isHigh (0xD800 + (c.toNat - 0x10000) / 0x400) = true := by
      simp only [isHigh, Bool.and_eq_true, decide_eq_true_eq]
      omega
    have low : isLow (0xDC00 + (c.toNat - 0x10000) % 0x400) = true := by
      simp only [isLow, Bool.and_eq_true, decide_eq_true_eq]
      omega
    have joined : 0x10000 + (0xD800 + (c.toNat - 0x10000) / 0x400 - 0xD800) * 0x400 +
        (0xDC00 + (c.toNat - 0x10000) % 0x400 - 0xDC00) = c.toNat := by omega
    rw [if_neg basic]
    simp only [cons_append, nil_append, fromUtf16Lossy, high, low, if_true, joined,
      Char.ofNat_toNat]

/-- Decoding an encoded text gives the text back. -/
theorem fromUtf16Lossy_encodeUtf16 (text : Text) : fromUtf16Lossy (encodeUtf16 text) = text := by
  induction text with
  | nil => rfl
  | cons c text ih => rw [encodeUtf16, flatMap_cons, fromUtf16Lossy_encodeChar, ← encodeUtf16, ih]

/-- Decoding the bytes of an ASCII text gives the text back. -/
theorem fromUtf8Lossy_ascii {text : Text} (ascii : ∀ c ∈ text, c.toNat < 0x80) :
    fromUtf8Lossy (text.map fun c => UInt8.ofNat c.toNat) = text := by
  induction text with
  | nil => rfl
  | cons c text ih =>
    have small : c.toNat < 0x80 := ascii c mem_cons_self
    have byte : (UInt8.ofNat c.toNat).toNat = c.toNat := by
      rw [UInt8.toNat_ofNat', Nat.mod_eq_of_lt (by omega)]
    have rest := ih fun other found => ascii other (mem_cons_of_mem _ found)
    rw [fromUtf8Lossy] at rest ⊢
    simp [decodeFrom, step, start, lead, byte, small, rest]

end Utf

end HermesDecomp
