import Mathlib.Data.Nat.Log
import Mathlib.Tactic.IntervalCases
import HermesDecomp.Library.Utf

/-!
# Scanning text and reading numerals

Trimming, lines, and the numerals of the two integer kinds and of doubles, as the standard library
of the source reads them. A decimal numeral stands for a rational number, and is read as the
double nearest to it, ties to even.
-/

namespace HermesDecomp

namespace Scan

/-- The white space of Unicode. -/
def isWhitespace (c : Char) : Bool :=
  let code := c.toNat
  (9 ≤ code && code ≤ 13) || code == 0x20 || code == 0x85 || code == 0xA0 || code == 0x1680 ||
    (0x2000 ≤ code && code ≤ 0x200A) || code == 0x2028 || code == 0x2029 || code == 0x202F ||
      code == 0x205F || code == 0x3000

/-- A text without the white space at its start. -/
def trimStart (text : Text) : Text := text.dropWhile isWhitespace

/-- A text without the white space at its end. -/
def trimEnd (text : Text) : Text := (trimStart text.reverse).reverse

/-- A text without the white space at its ends. -/
def trim (text : Text) : Text := trimEnd (trimStart text)

/-- A line without the carriage return in front of its line feed. -/
def dropReturn (line : Text) : Text :=
  match line.reverse with
  | '\r' :: rest => rest.reverse
  | _ => line

/-- The lines of a text. A line feed ends a line; what stands behind the last one is a line
unless it is empty. -/
def lines (text : Text) : List Text :=
  let pieces := text.splitOn '\n'
  pieces.dropLast.map dropReturn ++ pieces.getLast?.toList.filter fun last => !last.isEmpty

/-- What follows the first prefix that a text has. -/
def stripEither (first second : Text) (text : Text) : Option Text :=
  (text.dropPrefix? first).or (text.dropPrefix? second)

def isDigit (c : Char) : Bool := '0' ≤ c && c ≤ '9'

def isHexDigit (c : Char) : Bool := isDigit c || ('a' ≤ c && c ≤ 'f') || ('A' ≤ c && c ≤ 'F')

def isAlphabetic (c : Char) : Bool := ('a' ≤ c && c ≤ 'z') || ('A' ≤ c && c ≤ 'Z')

end Scan

namespace Numeral

/-- The value of a digit. -/
def digit? (radix : Nat) (c : Char) : Option Nat :=
  let value :=
    if Scan.isDigit c then some (c.toNat - '0'.toNat)
    else if 'a' ≤ c && c ≤ 'z' then some (c.toNat - 'a'.toNat + 10)
    else if 'A' ≤ c && c ≤ 'Z' then some (c.toNat - 'A'.toNat + 10)
    else none
  value.filter (· < radix)

/-- The number that digits stand for, behind a number read already. -/
def digits? (radix : Nat) : (read : Nat) → Text → Option Nat
  | read, [] => some read
  | read, c :: rest => (digit? radix c).bind fun value => digits? radix (read * radix + value) rest

/-- The number of a text of at least one digit. -/
def natural? (radix : Nat) (text : Text) : Option Nat :=
  if text.isEmpty then none else digits? radix 0 text

/-- The number of a numeral, which a plus may open. -/
def unsigned? (radix : Nat) : Text → Option Nat
  | '+' :: rest => natural? radix rest
  | text => natural? radix text

/-- The number of a decimal numeral, which a sign may open. -/
def signed? : Text → Option Int
  | '+' :: rest => (natural? 10 rest).map Int.ofNat
  | '-' :: rest => (natural? 10 rest).map fun value => -(value : Int)
  | text => (natural? 10 text).map Int.ofNat

/-- Read a numeral as an unsigned word. -/
def parseU32? (radix : Nat) (text : Text) : Option UInt32 :=
  ((unsigned? radix text).filter (· < 2 ^ 32)).map UInt32.ofNat

/-- Read a decimal numeral as a signed word. -/
def parseI32? (text : Text) : Option Int32 :=
  ((signed? text).filter fun value => -2 ^ 31 ≤ value ∧ value < 2 ^ 31).map Int32.ofInt

/-- A word that was read is the number of the numeral. -/
theorem parseU32?_eq_some {radix : Nat} {text : Text} {value : UInt32}
    (read : parseU32? radix text = some value) : unsigned? radix text = some value.toNat := by
  obtain ⟨number, kept, rfl⟩ := Option.map_eq_some_iff.mp read
  obtain ⟨found, small⟩ := Option.filter_eq_some_iff.mp kept
  rw [found, UInt32.toNat_ofNat_of_lt' (of_decide_eq_true small)]

/-- A signed word that was read is the number of the numeral. -/
theorem parseI32?_eq_some {text : Text} {value : Int32} (read : parseI32? text = some value) :
    signed? text = some value.toInt := by
  obtain ⟨number, kept, rfl⟩ := Option.map_eq_some_iff.mp read
  obtain ⟨found, range⟩ := Option.filter_eq_some_iff.mp kept
  obtain ⟨low, high⟩ := of_decide_eq_true range
  rw [found, Int32.toInt_ofInt_of_le low high]

end Numeral

namespace Binary64

/-- The bits of the infinite double. -/
def infinity : Nat := 0x7FF0000000000000

/-- The bits of the double nearest to a positive ratio, ties to even. -/
def nearest (numerator denominator : Nat) : Nat :=
  let scaled (power : Nat) : Nat × Nat :=
    if 1074 ≤ power then (numerator, denominator * 2 ^ (power - 1074))
    else (numerator * 2 ^ (1074 - power), denominator)
  let guess := numerator.log2 + 1021 - denominator.log2
  let power := if (scaled guess).1 / (scaled guess).2 < 2 ^ 53 then guess else guess + 1
  let divisor := (scaled power).2
  let quotient := (scaled power).1 / divisor
  let remainder := (scaled power).1 % divisor
  let up := divisor < 2 * remainder ∨ (2 * remainder = divisor ∧ quotient % 2 = 1)
  min infinity (power * 2 ^ 52 + if up then quotient + 1 else quotient)

/-- The bits of the double nearest to a whole number times a power of ten. -/
def scaleTen (mantissa : Nat) (exponent : Int) : Nat :=
  if mantissa = 0 then 0
  else if 400 < exponent + Nat.log 10 mantissa then infinity
  else if exponent + Nat.log 10 mantissa < -400 then 0
  else if 0 ≤ exponent then nearest (mantissa * 10 ^ exponent.toNat) 1
  else nearest mantissa (10 ^ (-exponent).toNat)

/-- The exponent behind the digits of a decimal numeral. -/
def exponent? : Text → Option Int
  | [] => some 0
  | c :: rest => if c = 'e' ∨ c = 'E' then Numeral.signed? rest else none

/-- The digits behind the point of a decimal numeral, and what follows them. -/
def fraction : Text → Text × Text
  | '.' :: rest => rest.span Scan.isDigit
  | rest => ([], rest)

/-- The bits of a decimal numeral without a sign. -/
def decimal? (text : Text) : Option Nat := do
  let (whole, rest) := text.span Scan.isDigit
  let (behind, rest) := fraction rest
  let mantissa ← Numeral.natural? 10 (whole ++ behind)
  let exponent ← exponent? rest
  some (scaleTen mantissa (exponent - behind.length))

/-- The bits of a double without a sign. -/
def magnitude? (text : Text) : Option Nat :=
  let lower := text.map Char.toLower
  if lower = ['i', 'n', 'f'] ∨ lower = ['i', 'n', 'f', 'i', 'n', 'i', 't', 'y'] then some infinity
  else if lower = ['n', 'a', 'n'] then some (infinity + 2 ^ 51)
  else decimal? text

/-- Read a double, by its bits. -/
def parseF64? : Text → Option UInt64
  | '-' :: rest => (magnitude? rest).map fun bits => UInt64.ofNat (2 ^ 63 + bits)
  | '+' :: rest => (magnitude? rest).map UInt64.ofNat
  | text => (magnitude? text).map UInt64.ofNat

example : parseF64? "-0.1".toList = some 0xBFB999999999999A := by decide +kernel

end Binary64

end HermesDecomp

namespace HermesDecomp.Numeral

/-- The canonical decimal numeral of an integer. -/
def decimal (value : Int) : Text :=
  if value < 0 then '-' :: Nat.toDigits 10 value.natAbs else Nat.toDigits 10 value.natAbs

/-- A number at a width: its digits behind as many zeros as are missing. -/
def padded (width value : Nat) : Text :=
  List.replicate (width - (Nat.toDigits 10 value).length) '0' ++ Nat.toDigits 10 value

/-- A text is the canonical decimal numeral of an integer: it reads as the integer, opens with
no plus, has no zero in front of another digit and no minus in front of a zero. -/
structure Canonical (text : Text) (value : Int) : Prop where
  reads : signed? text = some value
  unsigned : text.head? ≠ some '+'
  leading : ∀ c rest, text ≠ '0' :: c :: rest
  negative : ∀ rest, text ≠ '-' :: '0' :: rest

/-- A digit character reads as its digit. -/
theorem digit?_digitChar {value : Nat} (small : value < 10) :
    digit? 10 (Nat.digitChar value) = some value := by
  interval_cases value <;> decide

/-- Digits behind digits are read on from what the first ones stand for. -/
theorem digits?_append (radix read : Nat) (first second : Text) :
    digits? radix read (first ++ second) =
      (digits? radix read first).bind fun value => digits? radix value second := by
  induction first generalizing read with
  | nil => rfl
  | cons c rest ih =>
    simp only [List.cons_append, digits?]
    cases digit? radix c with
    | none => rfl
    | some value => exact ih (read * radix + value)

/-- The digits of a number read as the number. -/
theorem digits?_toDigits (value : Nat) : digits? 10 0 (Nat.toDigits 10 value) = some value := by
  induction value using Nat.strongRecOn with
  | ind value ih =>
    by_cases small : value < 10
    · rw [Nat.toDigits_of_lt_base small]
      simp [digits?, digit?_digitChar small]
    · have last : value % 10 < 10 := Nat.mod_lt _ (by omega)
      rw [Nat.toDigits_of_base_le (by omega) (by omega), digits?_append, ih (value / 10) (by omega)]
      simp only [digits?, Option.bind_some, digit?_digitChar last, Option.some.injEq]
      omega

/-- A positive number does not open with a zero. -/
theorem head_toDigits {value : Nat} (positive : 0 < value) :
    (Nat.toDigits 10 value).head? ≠ some '0' := by
  induction value using Nat.strongRecOn with
  | ind value ih =>
    by_cases small : value < 10
    · rw [Nat.toDigits_of_lt_base small]
      interval_cases value <;> decide
    · rw [Nat.toDigits_of_base_le (by omega) (by omega),
        List.head?_append_of_ne_nil _ Nat.toDigits_ne_nil]
      exact ih (value / 10) (by omega) (by omega)

/-- The digits of a number open with a digit. -/
theorem isDigit_head {value : Nat} {c : Char} (opens : (Nat.toDigits 10 value).head? = some c) :
    c.isDigit = true :=
  Nat.isDigit_of_mem_toDigits (by omega) (by omega) (List.mem_of_mem_head? opens)

/-- The digits of a number have no zero in front of another digit. -/
theorem toDigits_leading (value : Nat) (c : Char) (rest : Text) :
    Nat.toDigits 10 value ≠ '0' :: c :: rest := by
  intro same
  rcases Nat.eq_zero_or_pos value with rfl | positive
  · rw [Nat.toDigits_zero] at same
    simp at same
  · exact head_toDigits positive (by rw [same, List.head?_cons])

/-- A text of digits alone is read without a sign. -/
theorem signed?_of_digit {text : Text} {c : Char} (opens : text.head? = some c)
    (digit : c.isDigit = true) : signed? text = (natural? 10 text).map Int.ofNat := by
  cases text with
  | nil => simp at opens
  | cons first rest =>
    obtain rfl : first = c := by simpa using opens
    have unsigned : first ≠ '+' := by rintro rfl; simp at digit
    have positive : first ≠ '-' := by rintro rfl; simp at digit
    unfold signed?
    split
    · simp_all
    · simp_all
    · rfl

/-- The digits of a number read as a numeral of it. -/
theorem natural?_toDigits (value : Nat) : natural? 10 (Nat.toDigits 10 value) = some value := by
  rw [natural?, if_neg (by simp), digits?_toDigits]

/-- The canonical numeral of an integer is canonical. -/
theorem canonical_decimal (value : Int) : Canonical (decimal value) value := by
  obtain ⟨c, opens⟩ : ∃ c, (Nat.toDigits 10 value.natAbs).head? = some c :=
    Option.ne_none_iff_exists'.mp (by simp)
  have digit := isDigit_head opens
  unfold decimal
  split
  · refine ⟨?_, by simp, by simp, ?_⟩
    · change (natural? 10 (Nat.toDigits 10 value.natAbs)).map (fun read => -(read : Int)) = _
      have negated : -(value.natAbs : Int) = value := by omega
      rw [natural?_toDigits]
      exact congrArg some negated
    · intro rest same
      refine @head_toDigits value.natAbs (by omega) ?_
      rw [List.cons_injective same, List.head?_cons]
  · refine ⟨?_, ?_, toDigits_leading _, ?_⟩
    · rw [signed?_of_digit opens digit, natural?_toDigits, Option.map_some]
      simp only [Option.some.injEq, Int.ofNat_eq_natCast]
      omega
    · rw [opens]
      rintro ⟨⟩
      simp at digit
    · intro rest same
      rw [same] at opens
      obtain rfl : '-' = c := by simpa using opens
      simp at digit

/-- A number at a width is the number without its last digit at the width below, and the
digit. -/
theorem padded_succ {width value : Nat} (wide : 0 < width) (fits : value < 10 ^ (width + 1)) :
    padded (width + 1) value = padded width (value / 10) ++ [Nat.digitChar (value % 10)] := by
  by_cases small : value < 10
  · rw [padded, padded, Nat.toDigits_of_lt_base small, Nat.div_eq_of_lt small,
      Nat.toDigits_zero, Nat.mod_eq_of_lt small]
    obtain ⟨width, rfl⟩ : ∃ less, width = less + 1 := ⟨width - 1, by omega⟩
    simp [List.replicate_succ']
  · rw [padded, padded, Nat.toDigits_of_base_le (by omega) (by omega)]
    simp

/-- The digits of a number are those of its high part and then its low part at a width. -/
theorem toDigits_mul_add {high low width : Nat} (positive : 0 < high) (wide : 0 < width)
    (fits : low < 10 ^ width) :
    Nat.toDigits 10 (high * 10 ^ width + low) = Nat.toDigits 10 high ++ padded width low := by
  induction width, wide using Nat.le_induction generalizing low with
  | base =>
    have digit : low < 10 := by simpa using fits
    rw [padded, show high * 10 ^ 1 + low = 10 * high + low by omega,
      ← Nat.toDigits_append_toDigits (by omega) positive digit, Nat.toDigits_of_lt_base digit]
    rfl
  | succ width wide ih =>
    have split : high * 10 ^ (width + 1) + low =
        10 * (high * 10 ^ width + low / 10) + low % 10 := by
      rw [pow_succ, ← mul_assoc]
      omega
    have rest : low / 10 < 10 ^ width := by
      rw [pow_succ] at fits
      omega
    have ahead : 0 < high * 10 ^ width + low / 10 :=
      Nat.add_pos_left (Nat.mul_pos positive (by positivity)) _
    rw [split, ← Nat.toDigits_append_toDigits (by omega) ahead (Nat.mod_lt _ (by omega)),
      ih rest, padded_succ (by omega) fits,
      Nat.toDigits_of_lt_base (Nat.mod_lt _ (by omega)), List.append_assoc]

end HermesDecomp.Numeral
