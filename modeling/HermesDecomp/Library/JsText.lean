import Mathlib.Tactic.IntervalCases
import HermesDecomp.Library.Numeral

/-!
# String and template text of JavaScript

What the characters between the quotes of a string literal, or between the backquotes and the
substitutions of a template, stand for in strict mode: UTF-16 units. An escape takes several
characters, and what a character means depends on the one before it in three places. No digit
may follow the escape of the null character, a line feed belongs to the carriage return in front
of it, and a dollar opens a substitution in front of a brace.
-/

namespace HermesDecomp.JsText

open Numeral

/-- What the characters read so far leave open. -/
inductive Lexing where
  | plain
  /-- Behind a carriage return. -/
  | carriage
  /-- Behind the escape of the null character. -/
  | zero
  | backslash
  /-- Behind the letter of a Unicode escape. -/
  | unicode
  | hexadecimal (left value : Nat)
  | braces (value : Option Nat)
deriving DecidableEq, Repr

/-- No escape is open. -/
def Lexing.settled : Lexing → Bool
  | .plain | .carriage | .zero => true
  | _ => false

/-- The units of a code point. -/
def codeUnits (point : Nat) : List Nat :=
  if point < 0x10000 then [point]
  else [0xD800 + (point - 0x10000) / 0x400, 0xDC00 + (point - 0x10000) % 0x400]

/-- The character behind a backslash. -/
def escape (c : Char) : Option (List Nat × Lexing) :=
  if c = 'n' then some ([10], .plain)
  else if c = 't' then some ([9], .plain)
  else if c = 'r' then some ([13], .plain)
  else if c = 'b' then some ([8], .plain)
  else if c = 'f' then some ([12], .plain)
  else if c = 'v' then some ([11], .plain)
  else if c = '0' then some ([0], .zero)
  else if c = 'x' then some ([], .hexadecimal 2 0)
  else if c = 'u' then some ([], .unicode)
  else if Scan.isDigit c then none
  else if c = '\r' then some ([], .carriage)
  else if c = '\n' ∨ c.toNat = 0x2028 ∨ c.toNat = 0x2029 then some ([], .plain)
  else some (Utf.encodeChar c, .plain)

/-- A digit of a hexadecimal escape. The last one ends it. -/
def hexadecimal (left value digit : Nat) : List Nat × Lexing :=
  if left ≤ 1 then ([value * 16 + digit], .plain)
  else ([], .hexadecimal (left - 1) (value * 16 + digit))

/-- A character of an open escape. -/
def inEscape : Lexing → Char → Option (List Nat × Lexing)
  | .backslash, c => escape c
  | .unicode, c =>
      if c = '\x7b' then some ([], .braces none) else (digit? 16 c).map (hexadecimal 4 0)
  | .hexadecimal left value, c => (digit? 16 c).map (hexadecimal left value)
  | .braces value, c =>
      if c = '\x7d' then (value.filter (· < 0x110000)).map fun point => (codeUnits point, .plain)
      else (digit? 16 c).map fun digit => ([], .braces (some (value.getD 0 * 16 + digit)))
  | _, _ => none

/-- A text that opens with a digit. -/
def opensDigit : Text → Bool
  | [] => false
  | c :: _ => Scan.isDigit c

/-- Units in front of those of a rest. -/
def prepend {α : Type} (units : List Nat) (read : Option (List Nat × α)) : Option (List Nat × α) :=
  read.map fun found => (units ++ found.1, found.2)

@[simp] theorem prepend_nil {α : Type} (read : Option (List Nat × α)) : prepend [] read = read := by
  simp [prepend]

@[simp] theorem prepend_none {α : Type} (units : List Nat) :
    prepend units (none : Option (List Nat × α)) = none := rfl

theorem prepend_prepend {α : Type} (first second : List Nat) (read : Option (List Nat × α)) :
    prepend first (prepend second read) = prepend (first ++ second) read := by
  cases read <;> simp [prepend]

/-- Read a string up to its closing quote: its units and the text behind. -/
def stringFrom : Lexing → Text → Option (List Nat × Text)
  | _, [] => none
  | state, c :: rest =>
      if state.settled then
        if state = .zero ∧ Scan.isDigit c then none
        else if state = .carriage ∧ c = '\n' then stringFrom .plain rest
        else if c = '"' then some ([], rest)
        else if c = '\\' then stringFrom .backslash rest
        else if c = '\n' ∨ c = '\r' then none
        else prepend (Utf.encodeChar c) (stringFrom .plain rest)
      else (inEscape state c).bind fun step => prepend step.1 (stringFrom step.2 rest)

/-- Read a string literal at the start of a text. -/
def stringLiteral : Text → Option (List Nat × Text)
  | '"' :: rest => stringFrom .plain rest
  | _ => none

/-- Where the text between two substitutions ends: at the closing backquote or at the next
substitution, with the text behind. -/
inductive Stop where
  | closed (rest : Text)
  | opened (rest : Text)
deriving DecidableEq, Repr

/-- Read template text up to where it stops: its units, with every line end as a line feed. -/
def templateFrom : Lexing → Text → Option (List Nat × Stop)
  | _, [] => none
  | state, c :: rest =>
      if state.settled then
        if state = .zero ∧ Scan.isDigit c then none
        else if state = .carriage ∧ c = '\n' then templateFrom .plain rest
        else if c = '\x60' then some ([], .closed rest)
        else if c = '$' ∧ rest.head? = some '\x7b' then some ([], .opened rest.tail)
        else if c = '\\' then templateFrom .backslash rest
        else if c = '\r' then prepend [10] (templateFrom .carriage rest)
        else prepend (Utf.encodeChar c) (templateFrom .plain rest)
      else (inEscape state c).bind fun step => prepend step.1 (templateFrom step.2 rest)

/-- A template behind its opening backquote evaluates its texts to given units, and a text is
left behind it. What follows a substitution is found by `skip`. -/
inductive Cooks (skip : Text → Option Text) : Text → List (List Nat) → Text → Prop
  | closed {text : Text} {units : List Nat} {rest : Text}
      (read : templateFrom .plain text = some (units, .closed rest)) : Cooks skip text [units] rest
  | opened {text : Text} {units : List Nat} {inner next : Text} {more : List (List Nat)}
      {rest : Text} (read : templateFrom .plain text = some (units, .opened inner))
      (skipped : skip inner = some next) (others : Cooks skip next more rest) :
      Cooks skip text (units :: more) rest

theorem Cooks.ne_nil {skip : Text → Option Text} {text : Text} {units : List (List Nat)}
    {rest : Text} (cooks : Cooks skip text units rest) : units ≠ [] := by
  cases cooks <;> exact List.cons_ne_nil _ _

theorem digit?_upper {value : Nat} (small : value < 16) :
    digit? 16 (Nat.digitChar value).toUpper = some value := by
  interval_cases value <;> decide

/-- The upper-case hexadecimal digits of a number. -/
def upperHex (number : Nat) : Text := (Nat.toDigits 16 number).map Char.toUpper

/-- A text of hexadecimal digits that stands for a number. -/
theorem digits?_upperHex (value : Nat) : digits? 16 0 (upperHex value) = some value := by
  induction value using Nat.strongRecOn with
  | ind value ih =>
    by_cases small : value < 16
    · rw [upperHex, Nat.toDigits_of_lt_base small]
      simp [digits?, digit?_upper small]
    · have last : value % 16 < 16 := Nat.mod_lt _ (by omega)
      rw [upperHex, Nat.toDigits_of_base_le (by omega) (by omega), List.map_append,
        digits?_append, ← upperHex, ih (value / 16) (by omega)]
      simp only [List.map_cons, List.map_nil, digits?, Option.bind_some, digit?_upper last,
        Option.some.injEq]
      omega

/-- A character that is no digit does not stand among digits. -/
theorem digit?_of_digits? {read : Nat} {c : Char} {rest : Text} {result : Nat}
    (found : digits? 16 read (c :: rest) = some result) :
    ∃ digit, digit? 16 c = some digit ∧ digits? 16 (read * 16 + digit) rest = some result :=
  Option.bind_eq_some_iff.mp found

/-- The digits of a hexadecimal escape, read up to the last one. -/
theorem stringFrom_hexadecimal {result : Nat} (rest : Text) : ∀ {digits : Text} {value : Nat},
    digits ≠ [] → digits? 16 value digits = some result →
      stringFrom (.hexadecimal digits.length value) (digits ++ rest) =
        prepend [result] (stringFrom .plain rest)
  | [c], value, _, found => by
    obtain ⟨digit, isDigit, ends⟩ := digit?_of_digits? found
    cases ends
    simp [stringFrom, Lexing.settled, inEscape, isDigit, hexadecimal]
  | c :: next :: digits, value, _, found => by
    obtain ⟨digit, isDigit, more⟩ := digit?_of_digits? found
    have onRest := stringFrom_hexadecimal rest (List.cons_ne_nil next digits) more
    simpa [stringFrom, Lexing.settled, inEscape, isDigit, hexadecimal] using onRest

/-- The digits of a code point in braces. -/
theorem stringFrom_braces {result : Nat} (small : result < 0x110000) (rest : Text) :
    ∀ {digits : Text} {value : Nat}, digits? 16 value digits = some result →
      stringFrom (.braces (some value)) (digits ++ '\x7d' :: rest) =
        prepend (codeUnits result) (stringFrom .plain rest)
  | [], value, found => by
    cases found
    simp [stringFrom, Lexing.settled, inEscape, Option.filter, small]
  | c :: digits, value, found => by
    obtain ⟨digit, isDigit, more⟩ := digit?_of_digits? found
    have notBrace : c ≠ '\x7d' := by
      rintro rfl
      exact absurd (show digit? 16 '\x7d' = none by decide) (by simp [isDigit])
    have onRest := stringFrom_braces small rest more
    simpa [stringFrom, Lexing.settled, inEscape, isDigit, notBrace] using onRest

/-- Zeros in front of digits change nothing. -/
theorem digits?_zeros (count : Nat) (digits : Text) :
    digits? 16 0 (List.replicate count '0' ++ digits) = digits? 16 0 digits := by
  induction count with
  | zero => rfl
  | succ count ih =>
    have isZero : digit? 16 '0' = some 0 := by decide
    simpa [List.replicate_succ, digits?, isZero] using ih

/-- Behind the escape of the null character the text goes on unless it opens with a digit. -/
theorem stringFrom_zero (text : Text) :
    stringFrom .zero text = if opensDigit text then none else stringFrom .plain text := by
  cases text with
  | nil => rfl
  | cons c rest => simp [stringFrom, Lexing.settled, opensDigit]

end HermesDecomp.JsText
