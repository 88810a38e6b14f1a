import HermesDecomp.Library.JsText
import HermesDecomp.Write.HasmParse

/-!
# Printed strings and templates

A string is printed as a literal in double quotes with everything outside printable ASCII
escaped, and a template with its backslashes, its backquotes and the dollars in front of a brace
escaped. A literal evaluates to the string unless a digit follows a null character, whose escape
must not be followed by one. A template evaluates to its texts unless one holds a carriage return,
which JavaScript reads as a line feed, or two texts with nothing between them meet in a dollar and
a brace.
-/

namespace HermesDecomp.Codegen

open JsText Numeral List

/-- A null character stands in front of a digit. -/
def nulBeforeDigit : Text → Bool
  | [] => false
  | c :: rest => decide (c.toNat = 0) && opensDigit rest || nulBeforeDigit rest

/-- What a character leaves open. -/
def behind (c : Char) : Lexing := if c.toNat = 0 then .zero else .plain

theorem encodeChar_eq (c : Char) : Utf.encodeChar c = codeUnits c.toNat := rfl

/-- A character of the basic plane, as a Unicode escape of four digits. -/
theorem stringFrom_word {c : Char} (short : c.toNat ≤ 0xFFFF) (rest : Text) :
    stringFrom .plain (['\\', 'u'] ++ (Hasm.upperHex c.toNat).leftpad 4 '0' ++ rest) =
      prepend (Utf.encodeChar c) (stringFrom .plain rest) := by
  have length : ((Hasm.upperHex c.toNat).leftpad 4 '0').length = 4 := by
    have fits : (Nat.toDigits 16 c.toNat).length ≤ 4 :=
      (Nat.length_toDigits_le_iff (by omega) (by omega)).mpr (by omega)
    simp only [length_leftpad, Hasm.upperHex, length_map]
    omega
  have value : digits? 16 0 ((Hasm.upperHex c.toNat).leftpad 4 '0') = some c.toNat :=
    (digits?_zeros _ _).trans (digits?_upperHex c.toNat)
  generalize (Hasm.upperHex c.toNat).leftpad 4 '0' = digits at length value
  have opened : stringFrom .plain (['\\', 'u'] ++ digits ++ rest) =
      stringFrom (.hexadecimal 4 0) (digits ++ rest) := by
    cases digits with
    | nil => cases length
    | cons first digits =>
      obtain ⟨digit, isDigit, -⟩ := digit?_of_digits? value
      have notBrace : first ≠ '\x7b' := by
        rintro rfl
        exact absurd (show digit? 16 '\x7b' = none by decide) (by simp [isDigit])
      simp [stringFrom, Lexing.settled, inEscape, escape, isDigit, notBrace]
  have nonempty : digits ≠ [] := ne_nil_of_length_eq_add_one length
  rw [opened, ← length, stringFrom_hexadecimal rest nonempty value, encodeChar_eq, codeUnits,
    if_pos (by omega)]

/-- Any character, as a Unicode escape in braces. -/
theorem stringFrom_point (c : Char) (rest : Text) :
    stringFrom .plain (['\\', 'u', '\x7b'] ++ Hasm.upperHex c.toNat ++ ['\x7d'] ++ rest) =
      prepend (Utf.encodeChar c) (stringFrom .plain rest) := by
  have value : digits? 16 0 (Hasm.upperHex c.toNat) = some c.toNat := digits?_upperHex c.toNat
  have small : c.toNat < 0x110000 := by
    rcases c.valid with small | ⟨-, large⟩ <;> simp only [Char.toNat] <;> omega
  have nonempty : Hasm.upperHex c.toNat ≠ [] := by simp [Hasm.upperHex]
  generalize Hasm.upperHex c.toNat = digits at value nonempty
  cases digits with
  | nil => exact absurd rfl nonempty
  | cons first digits =>
    obtain ⟨digit, isDigit, more⟩ := digit?_of_digits? value
    have notBrace : first ≠ '\x7d' := by
      rintro rfl
      exact absurd (show digit? 16 '\x7d' = none by decide) (by simp [isDigit])
    have onRest := stringFrom_braces small rest more
    simpa [stringFrom, Lexing.settled, inEscape, escape, isDigit, notBrace, encodeChar_eq]
      using onRest

/-- A printed character reads as its units. -/
theorem stringFrom_escapeChar (c : Char) (rest : Text) :
    stringFrom .plain (Hasm.escapeChar c ++ rest) =
      prepend (Utf.encodeChar c) (stringFrom (behind c) rest) := by
  unfold Hasm.escapeChar
  split
  case isTrue same => subst same; rfl
  split
  case isTrue same => subst same; rfl
  split
  case isTrue same => subst same; rfl
  split
  case isTrue same => subst same; rfl
  split
  case isTrue same => subst same; rfl
  split
  case isTrue isNul =>
    obtain rfl : c = '\x00' := Char.toNat_inj.mp isNul
    rfl
  case isFalse notQuote notBackslash notFeed notReturn _ notNul =>
    have closed : behind c = .plain := if_neg notNul
    rw [closed]
    split
    case isTrue => simp [stringFrom, Lexing.settled, notQuote, notBackslash, notFeed, notReturn]
    case isFalse =>
      split
      case isTrue short => exact stringFrom_word short rest
      case isFalse => exact stringFrom_point c rest

/-- A printed character opens with a digit when it is one. -/
theorem opensDigit_escapeChar (c : Char) (rest : Text) :
    opensDigit (Hasm.escapeChar c ++ rest) = Scan.isDigit c := by
  unfold Hasm.escapeChar
  split
  case isTrue same => subst same; rfl
  split
  case isTrue same => subst same; rfl
  split
  case isTrue same => subst same; rfl
  split
  case isTrue same => subst same; rfl
  split
  case isTrue same => subst same; rfl
  split
  case isTrue isNul =>
    obtain rfl : c = '\x00' := Char.toNat_inj.mp isNul
    rfl
  split
  case isTrue => rfl
  case isFalse unprintable =>
    have notDigit : Scan.isDigit c = false := by
      simp only [Scan.isDigit, Bool.and_eq_false_iff, decide_eq_false_iff_not, Char.le_def,
        UInt32.le_iff_toNat_le]
      have low : '0'.val.toNat = 48 := rfl
      have high : '9'.val.toNat = 57 := rfl
      change ¬ (0x20 ≤ c.val.toNat ∧ c.val.toNat < 0x7F) at unprintable
      omega
    rw [notDigit]
    split <;> rfl

/-- A printed text opens with a digit when the text does. -/
theorem opensDigit_escaped (text rest : Text) :
    opensDigit (text.flatMap Hasm.escapeChar ++ '"' :: rest) = opensDigit text := by
  cases text with
  | nil => rfl
  | cons c text =>
    rw [flatMap_cons, append_assoc, opensDigit_escapeChar]
    rfl

/-- A printed text reads as its units, unless a digit follows a null character. -/
theorem stringFrom_escaped (text rest : Text) :
    stringFrom .plain (text.flatMap Hasm.escapeChar ++ '"' :: rest) =
      if nulBeforeDigit text then none else some (Utf.encodeUtf16 text, rest) := by
  induction text with
  | nil => rfl
  | cons c text ih =>
    rw [flatMap_cons, append_assoc, stringFrom_escapeChar]
    by_cases isNul : c.toNat = 0
    · rw [behind, if_pos isNul, stringFrom_zero, opensDigit_escaped, ih]
      cases digit : opensDigit text
      · cases inside : nulBeforeDigit text <;>
          simp [nulBeforeDigit, isNul, digit, inside, prepend, Utf.encodeUtf16]
      · simp [nulBeforeDigit, isNul, digit]
    · rw [behind, if_neg isNul, ih]
      cases inside : nulBeforeDigit text <;>
        simp [nulBeforeDigit, isNul, inside, prepend, Utf.encodeUtf16]

/-- A printed literal evaluates to the string exactly when no digit follows a null character. -/
theorem stringLiteral_iff (text rest : Text) :
    stringLiteral (Hasm.escapeJsString text ++ rest) = some (Utf.encodeUtf16 text, rest) ↔
      nulBeforeDigit text = false := by
  have read : stringLiteral (Hasm.escapeJsString text ++ rest) =
      if nulBeforeDigit text then none else some (Utf.encodeUtf16 text, rest) := by
    rw [← stringFrom_escaped]
    simp [Hasm.escapeJsString, stringLiteral]
  rw [read]
  cases nulBeforeDigit text <;> simp

/-- A text of a template, with what would end the text escaped. -/
def escapeTemplateQuasi : Text → Text
  | [] => []
  | c :: rest =>
      if c = '\\' then '\\' :: '\\' :: escapeTemplateQuasi rest
      else if c = '\x60' then '\\' :: '\x60' :: escapeTemplateQuasi rest
      else if c = '$' ∧ rest.head? = some '\x7b' then '\\' :: '$' :: escapeTemplateQuasi rest
      else c :: escapeTemplateQuasi rest

/-- The texts of a template, each with the rendered expression of the same position behind it. -/
def templateBody : (quasis expressions : List Text) → Text
  | [], _ => []
  | quasi :: quasis, [] => escapeTemplateQuasi quasi ++ templateBody quasis []
  | quasi :: quasis, expression :: expressions =>
      escapeTemplateQuasi quasi ++ ['$', '\x7b'] ++ expression ++ ['\x7d'] ++
        templateBody quasis expressions

/-- A template literal. -/
def printTemplate (quasis expressions : List Text) : Text :=
  '\x60' :: templateBody quasis expressions ++ ['\x60']

/-- The texts between the substitutions. Texts with no expression behind them are one. -/
def pieces : (quasis expressions : List Text) → List Text
  | [], _ => [[]]
  | quasis, [] => [quasis.flatten]
  | quasi :: quasis, _ :: expressions => quasi :: pieces quasis expressions

/-- With one expression between any two texts, the pieces are the texts. -/
theorem pieces_eq : ∀ {quasis expressions : List Text},
    quasis.length = expressions.length + 1 → pieces quasis expressions = quasis
  | [quasi], [], _ => by simp [pieces]
  | quasi :: next :: quasis, _ :: expressions, one =>
    congrArg (quasi :: ·) (pieces_eq (Nat.succ.inj one))

/-- Two neighbouring texts meet in a dollar and a brace. -/
def Straddles : List Text → Prop
  | [] => False
  | quasi :: quasis =>
      (quasi.getLast? = some '$' ∧ quasis.flatten.head? = some '\x7b') ∨ Straddles quasis

/-- The state behind a character that may be a carriage return. -/
def carrying (isReturn : Bool) : Lexing := if isReturn then .carriage else .plain

/-- A text with every line end as a line feed, behind a carriage return or not. -/
def normalised : Bool → Text → Text
  | _, [] => []
  | isReturn, c :: rest =>
      if isReturn = true ∧ c = '\n' then normalised false rest
      else if c = '\r' then '\n' :: normalised true rest
      else c :: normalised false rest

/-- Whether a text ends in a carriage return, or is empty behind one. -/
def endsReturn : Bool → Text → Bool
  | isReturn, [] => isReturn
  | _, c :: rest => endsReturn (decide (c = '\r')) rest

theorem return_not_mem_normalised (isReturn : Bool) (text : Text) :
    '\r' ∉ normalised isReturn text := by
  induction text generalizing isReturn with
  | nil => simp [normalised]
  | cons c text ih =>
    rw [normalised]
    split
    · exact ih false
    · split
      · simp [ih true]
      case isFalse notReturn => simp [ih false, Ne.symm notReturn]

/-- Only a text without carriage returns keeps its line ends. -/
theorem normalised_eq_iff (text : Text) : normalised false text = text ↔ '\r' ∉ text := by
  constructor
  · intro same
    exact same ▸ return_not_mem_normalised false text
  · intro absent
    induction text with
    | nil => rfl
    | cons c text ih =>
      obtain ⟨notReturn, absent⟩ := not_or.mp (mem_cons.not.mp absent)
      rw [normalised, if_neg (by simp), if_neg (Ne.symm notReturn), ih absent]

theorem encodeUtf16_inj {first second : Text} :
    Utf.encodeUtf16 first = Utf.encodeUtf16 second ↔ first = second := by
  constructor
  · intro same
    rw [← Utf.fromUtf16Lossy_encodeUtf16 first, same, Utf.fromUtf16Lossy_encodeUtf16]
  · exact congrArg Utf.encodeUtf16

/-- Escaping does not put a brace at the start of a text. -/
theorem head?_escapeTemplateQuasi (text : Text) :
    (escapeTemplateQuasi text).head? = some '\x7b' ↔ text.head? = some '\x7b' := by
  cases text with
  | nil => rfl
  | cons c rest =>
    rw [escapeTemplateQuasi]
    split
    case isTrue same => subst same; simp
    split
    case isTrue same => subst same; simp
    split
    case isTrue same => simp [same.1]
    case isFalse => rfl

theorem escapeTemplateQuasi_ne_nil (c : Char) (rest : Text) :
    escapeTemplateQuasi (c :: rest) ≠ [] := by
  rw [escapeTemplateQuasi]
  split
  · simp
  · split
    · simp
    · split <;> simp

/-- The texts of a run without expressions open with a brace when the run does. -/
theorem head?_flatMap_escape (quasis : List Text) :
    (quasis.flatMap escapeTemplateQuasi).head? = some '\x7b' ↔
      quasis.flatten.head? = some '\x7b' := by
  induction quasis with
  | nil => rfl
  | cons quasi quasis ih =>
    cases quasi with
    | nil => exact ih
    | cons c rest =>
      rw [flatMap_cons, List.head?_append_of_ne_nil _ (escapeTemplateQuasi_ne_nil c rest),
        head?_escapeTemplateQuasi]
      rfl

/-- A character behind one that may be a carriage return. -/
theorem templateFrom_carrying (isReturn : Bool) (c : Char) (rest : Text) :
    templateFrom (carrying isReturn) (c :: rest) =
      if isReturn = true ∧ c = '\n' then templateFrom .plain rest
      else if c = '\x60' then some ([], .closed rest)
      else if c = '$' ∧ rest.head? = some '\x7b' then some ([], .opened rest.tail)
      else if c = '\\' then templateFrom .backslash rest
      else if c = '\r' then prepend [10] (templateFrom .carriage rest)
      else prepend (Utf.encodeChar c) (templateFrom .plain rest) := by
  cases isReturn <;> simp [templateFrom, carrying, Lexing.settled]

/-- An escaped character of a template. -/
theorem templateFrom_backslash (isReturn : Bool) {c : Char}
    (special : c = '\\' ∨ c = '\x60' ∨ c = '$') (rest : Text) :
    templateFrom (carrying isReturn) ('\\' :: c :: rest) =
      prepend (Utf.encodeChar c) (templateFrom .plain rest) := by
  rw [templateFrom_carrying]
  rcases special with rfl | rfl | rfl <;> simp [templateFrom, Lexing.settled, inEscape] <;> rfl

/-- An escaped text is read as the text with its line ends normalised, unless it ends in a dollar
in front of a brace. -/
theorem templateFrom_escape (isReturn : Bool) {text rest : Text}
    (apart : ¬ (text.getLast? = some '$' ∧ rest.head? = some '\x7b')) :
    templateFrom (carrying isReturn) (escapeTemplateQuasi text ++ rest) =
      prepend (Utf.encodeUtf16 (normalised isReturn text))
        (templateFrom (carrying (endsReturn isReturn text)) rest) := by
  induction text generalizing isReturn with
  | nil => exact (prepend_nil _).symm
  | cons c text ih =>
    have apart' : ¬ (text.getLast? = some '$' ∧ rest.head? = some '\x7b') := by
      rintro ⟨dollar, brace⟩
      exact apart ⟨by rw [List.getLast?_cons, dollar]; rfl, brace⟩
    have onRest := fun isReturn => ih isReturn apart'
    have onPlain := onRest false
    have escaped : ∀ {c : Char}, c = '\\' ∨ c = '\x60' ∨ c = '$' →
        templateFrom (carrying isReturn) ('\\' :: c :: (escapeTemplateQuasi text ++ rest)) =
          prepend (Utf.encodeUtf16 (normalised isReturn (c :: text)))
            (templateFrom (carrying (endsReturn isReturn (c :: text))) rest) := by
      intro c special
      have kept : normalised isReturn (c :: text) = c :: normalised false text := by
        rcases special with rfl | rfl | rfl <;> simp [normalised]
      have ends : endsReturn isReturn (c :: text) = endsReturn false text := by
        rcases special with rfl | rfl | rfl <;> rfl
      rw [templateFrom_backslash isReturn special, kept, ends]
      exact (congrArg (prepend _) onPlain).trans (prepend_prepend _ _ _)
    rw [escapeTemplateQuasi]
    split
    case isTrue same => subst same; exact escaped (.inl rfl)
    split
    case isTrue same => subst same; exact escaped (.inr (.inl rfl))
    split
    case isTrue same =>
      obtain ⟨rfl, -⟩ := same
      exact escaped (.inr (.inr rfl))
    case isFalse notBackslash notQuote notOpening =>
      have notDollar : ¬ (c = '$' ∧ (escapeTemplateQuasi text ++ rest).head? = some '\x7b') := by
        rintro ⟨rfl, brace⟩
        cases text with
        | nil => exact apart ⟨rfl, brace⟩
        | cons next text =>
          refine notOpening ⟨rfl, (head?_escapeTemplateQuasi _).mp ?_⟩
          rwa [List.head?_append_of_ne_nil _ (escapeTemplateQuasi_ne_nil next text)] at brace
      rw [cons_append, templateFrom_carrying, if_neg notQuote, if_neg notDollar,
        if_neg notBackslash, normalised, endsReturn]
      split
      case isTrue feed =>
        rw [decide_eq_false (by rw [feed.2]; decide)]
        exact onPlain
      case isFalse =>
        split
        case isTrue same =>
          rw [decide_eq_true same]
          exact (congrArg (prepend _) (onRest true)).trans (prepend_prepend _ _ _)
        case isFalse different =>
          rw [decide_eq_false different]
          exact (congrArg (prepend _) onPlain).trans (prepend_prepend _ _ _)

/-- Two texts that do not meet in a dollar and a brace are escaped apart. -/
theorem escapeTemplateQuasi_append {first second : Text}
    (apart : ¬ (first.getLast? = some '$' ∧ second.head? = some '\x7b')) :
    escapeTemplateQuasi (first ++ second) =
      escapeTemplateQuasi first ++ escapeTemplateQuasi second := by
  induction first with
  | nil => rfl
  | cons c first ih =>
    have apart' : ¬ (first.getLast? = some '$' ∧ second.head? = some '\x7b') := by
      rintro ⟨dollar, brace⟩
      exact apart ⟨by rw [List.getLast?_cons, dollar]; rfl, brace⟩
    have heads : c = '$' ∧ (first ++ second).head? = some '\x7b' ↔
        c = '$' ∧ first.head? = some '\x7b' := by
      cases first with
      | nil =>
        constructor
        · rintro ⟨rfl, brace⟩
          exact absurd ⟨rfl, brace⟩ apart
        · rintro ⟨-, brace⟩
          cases brace
      | cons next first => rfl
    rw [cons_append, escapeTemplateQuasi, escapeTemplateQuasi, ih apart']
    simp only [heads]
    split
    · rfl
    · split
      · rfl
      · split <;> rfl

/-- A text that ends in a dollar in front of a brace opens a substitution. -/
theorem templateFrom_dollar (isReturn : Bool) {text rest : Text}
    (dollar : text.getLast? = some '$') (brace : rest.head? = some '\x7b') :
    ∃ units, templateFrom (carrying isReturn) (escapeTemplateQuasi text ++ rest) =
      some (units, .opened rest.tail) := by
  obtain ⟨start, rfl⟩ := List.getLast?_eq_some_iff.mp dollar
  have apart : ¬ (start.getLast? = some '$' ∧ (['$'] : Text).head? = some '\x7b') := by
    rintro ⟨-, same⟩
    cases same
  have lone : escapeTemplateQuasi ['$'] = ['$'] := rfl
  rw [escapeTemplateQuasi_append apart, lone, append_assoc,
    templateFrom_escape isReturn (fun both => absurd both.2 (by simp))]
  rw [singleton_append, templateFrom_carrying, if_neg (by simp), if_neg (by decide),
    if_pos ⟨rfl, brace⟩]
  exact ⟨_, rfl⟩

/-- Texts that nowhere meet in a dollar and a brace are escaped as one. -/
theorem flatMap_escape {quasis : List Text} (apart : ¬ Straddles quasis) :
    quasis.flatMap escapeTemplateQuasi = escapeTemplateQuasi quasis.flatten := by
  induction quasis with
  | nil => rfl
  | cons quasi quasis ih =>
    obtain ⟨here, behind⟩ := not_or.mp apart
    rw [flatMap_cons, flatten_cons, escapeTemplateQuasi_append here, ih behind]

/-- Texts that meet in a dollar and a brace open a substitution. -/
theorem templateFrom_straddles (isReturn : Bool) {quasis : List Text} (straddles : Straddles quasis)
    (rest : Text) : ∃ units inner,
      templateFrom (carrying isReturn) (quasis.flatMap escapeTemplateQuasi ++ rest) =
        some (units, .opened inner) := by
  induction quasis generalizing isReturn with
  | nil => exact straddles.elim
  | cons quasi quasis ih =>
    rw [flatMap_cons, append_assoc]
    by_cases meets : quasi.getLast? = some '$' ∧
        (quasis.flatMap escapeTemplateQuasi ++ rest).head? = some '\x7b'
    · obtain ⟨units, read⟩ := templateFrom_dollar isReturn meets.1 meets.2
      exact ⟨units, _, read⟩
    · rw [templateFrom_escape isReturn meets]
      rcases straddles with ⟨dollar, brace⟩ | behind
      · refine absurd ⟨dollar, ?_⟩ meets
        have opens := (head?_flatMap_escape quasis).mpr brace
        rw [List.head?_append, opens]
        rfl
      · obtain ⟨units, inner, read⟩ := ih (endsReturn isReturn quasi) behind
        rw [read]
        exact ⟨_, _, rfl⟩

theorem templateBody_nil (quasis : List Text) :
    templateBody quasis [] = quasis.flatMap escapeTemplateQuasi := by
  induction quasis with
  | nil => rfl
  | cons quasi quasis ih => rw [templateBody, ih, flatMap_cons]

/-- A template of one text, up to its closing backquote. -/
theorem templateFrom_closed (text rest : Text) :
    templateFrom .plain (escapeTemplateQuasi text ++ '\x60' :: rest) =
      some (Utf.encodeUtf16 (normalised false text), .closed rest) := by
  have read := @templateFrom_escape false text ('\x60' :: rest) (by simp)
  rw [templateFrom_carrying, if_neg (by simp), if_pos rfl] at read
  simpa [prepend, carrying] using read

/-- A text of a template, up to the substitution behind it. -/
theorem templateFrom_opened (text inner : Text) :
    templateFrom .plain (escapeTemplateQuasi text ++ '$' :: '\x7b' :: inner) =
      some (Utf.encodeUtf16 (normalised false text), .opened inner) := by
  have read := @templateFrom_escape false text ('$' :: '\x7b' :: inner) (by simp)
  rw [templateFrom_carrying, if_neg (by simp), if_neg (by decide), if_pos ⟨rfl, rfl⟩] at read
  simpa [prepend, carrying] using read

theorem cooks_closed_iff {skip : Text → Option Text} {text : Text} {read : List Nat} {rest : Text}
    (reads : templateFrom .plain text = some (read, .closed rest)) {units : List Nat} :
    Cooks skip text [units] rest ↔ read = units := by
  constructor
  · intro cooks
    cases cooks with
    | closed reads' =>
      rw [reads] at reads'
      exact (Prod.mk.inj (Option.some.inj reads')).1
    | opened _ _ others => exact absurd rfl others.ne_nil
  · rintro rfl
    exact .closed reads

theorem cooks_opened_iff {skip : Text → Option Text} {text inner next : Text} {read : List Nat}
    (reads : templateFrom .plain text = some (read, .opened inner)) (skipped : skip inner = some next)
    {units : List Nat} {more : List (List Nat)} {rest : Text} :
    Cooks skip text (units :: more) rest ↔ read = units ∧ Cooks skip next more rest := by
  constructor
  · intro cooks
    cases cooks with
    | closed reads' =>
      rw [reads] at reads'
      cases (Prod.mk.inj (Option.some.inj reads')).2
    | opened reads' skipped' others =>
      rw [reads] at reads'
      obtain ⟨same, stop⟩ := Prod.mk.inj (Option.some.inj reads')
      cases stop
      obtain rfl := Option.some.inj (skipped.symm.trans skipped')
      exact ⟨same, others⟩
  · rintro ⟨rfl, others⟩
    exact .opened reads skipped others

/-- The texts behind the last expression evaluate to their text exactly when they hold no
carriage return and nowhere meet in a dollar and a brace. -/
theorem cooks_run_iff (skip : Text → Option Text) (quasis : List Text) (rest : Text) :
    Cooks skip (quasis.flatMap escapeTemplateQuasi ++ '\x60' :: rest)
        [Utf.encodeUtf16 quasis.flatten] rest ↔
      (∀ quasi ∈ quasis, '\r' ∉ quasi) ∧ ¬ Straddles quasis := by
  by_cases straddles : Straddles quasis
  · refine iff_of_false (fun cooks => ?_) fun both => both.2 straddles
    obtain ⟨units, inner, read⟩ := templateFrom_straddles false straddles ('\x60' :: rest)
    cases cooks with
    | closed read' =>
      rw [carrying, if_neg (by simp), read'] at read
      cases (Prod.mk.inj (Option.some.inj read)).2
    | opened _ _ others => exact absurd rfl others.ne_nil
  · rw [flatMap_escape straddles, cooks_closed_iff (templateFrom_closed _ rest), encodeUtf16_inj,
      normalised_eq_iff]
    simp [straddles, mem_flatten]

/-- A printed template evaluates to its texts exactly when none holds a carriage return and no
two with nothing between them meet in a dollar and a brace. -/
theorem cooks_iff {skip : Text → Option Text} (rest : Text) :
    ∀ {quasis expressions : List Text},
      (∀ expression ∈ expressions, ∀ next, skip (expression ++ '\x7d' :: next) = some next) →
        (Cooks skip (templateBody quasis expressions ++ '\x60' :: rest)
            ((pieces quasis expressions).map Utf.encodeUtf16) rest ↔
          (∀ quasi ∈ quasis, '\r' ∉ quasi) ∧ ¬ Straddles (quasis.drop expressions.length))
  | [], expressions, _ => by
    have empty := cooks_run_iff skip [] rest
    simpa [pieces, templateBody, Straddles] using empty
  | quasi :: quasis, [], _ => by
    rw [templateBody_nil]
    exact cooks_run_iff skip (quasi :: quasis) rest
  | quasi :: quasis, expression :: expressions, skips => by
    have skipped := skips expression mem_cons_self
      (templateBody quasis expressions ++ '\x60' :: rest)
    have onRest := @cooks_iff skip rest quasis expressions fun other listed =>
      skips other (mem_cons_of_mem _ listed)
    have printed : templateBody (quasi :: quasis) (expression :: expressions) ++ '\x60' :: rest =
        escapeTemplateQuasi quasi ++ '$' :: '\x7b' ::
          (expression ++ '\x7d' :: (templateBody quasis expressions ++ '\x60' :: rest)) := by
      simp [templateBody]
    rw [printed, pieces, map_cons, cooks_opened_iff (templateFrom_opened _ _) skipped,
      encodeUtf16_inj, normalised_eq_iff, onRest, length_cons, drop_succ_cons,
      forall_mem_cons, and_assoc]

/-- A printed string literal evaluates to the string exactly when no digit follows a null
character, and a printed template evaluates to its texts exactly when none holds a carriage return
and no two with nothing between them meet in a dollar and a brace. -/
theorem printed_text_iff (skip : Text → Option Text) (rest : Text) :
    (∀ text : Text,
      stringLiteral (Hasm.escapeJsString text ++ rest) = some (Utf.encodeUtf16 text, rest) ↔
        nulBeforeDigit text = false) ∧
    ∀ quasis expressions : List Text,
      (∀ expression ∈ expressions, ∀ next, skip (expression ++ '\x7d' :: next) = some next) →
        ((∃ body, printTemplate quasis expressions ++ rest = '\x60' :: body ∧
            Cooks skip body ((pieces quasis expressions).map Utf.encodeUtf16) rest) ↔
          (∀ quasi ∈ quasis, '\r' ∉ quasi) ∧ ¬ Straddles (quasis.drop expressions.length)) := by
  refine ⟨fun text => stringLiteral_iff text rest, fun quasis expressions skips => ?_⟩
  rw [← cooks_iff rest skips]
  constructor
  · rintro ⟨body, printed, cooks⟩
    obtain rfl : templateBody quasis expressions ++ '\x60' :: rest = body := by
      simpa [printTemplate] using printed
    exact cooks
  · intro cooks
    exact ⟨_, by simp [printTemplate], cooks⟩

/-- Where a substitution ends whose expression has no braces. -/
def skipToBrace : Text → Option Text
  | [] => none
  | c :: rest => if c = '\x7d' then some rest else skipToBrace rest

theorem printed_text_greets :
    stringLiteral (Hasm.escapeJsString ['"', 'A', '\x00', 'é'] ++ [';']) =
        some ([34, 65, 0, 233], [';']) ∧
      ∃ body, printTemplate [['H', 'i', ' '], ['$']] [['x']] ++ [';'] = '\x60' :: body ∧
        Cooks skipToBrace body [[72, 105, 32], [36]] [';'] := by
  refine ⟨((printed_text_iff skipToBrace [';']).1 ['"', 'A', '\x00', 'é']).mpr (by decide), ?_⟩
  refine ((printed_text_iff skipToBrace [';']).2 [['H', 'i', ' '], ['$']] [['x']] ?_).mpr
    ⟨by decide, by simp [Straddles]⟩
  rintro expression listed next
  obtain rfl := mem_singleton.mp listed
  rfl

/-- The escape of a null character and the digit behind it do not make a string, and a template
reads a carriage return as a line feed. -/
theorem printed_text_differs :
    ¬ (∀ text rest : Text,
      stringLiteral (Hasm.escapeJsString text ++ rest) = some (Utf.encodeUtf16 text, rest)) ∧
    ¬ (∀ (skip : Text → Option Text) (quasi rest : Text),
      ∃ body, printTemplate [quasi] [] ++ rest = '\x60' :: body ∧
        Cooks skip body [Utf.encodeUtf16 quasi] rest) := by
  constructor
  · intro all
    exact absurd (all ['\x00', '1'] []) (by decide)
  · intro all
    obtain ⟨body, printed, cooks⟩ := all (fun _ => none) ['\r'] []
    obtain rfl : templateBody [['\r']] [] ++ ['\x60'] = body := by
      simpa [printTemplate] using printed
    rw [templateBody_nil] at cooks
    have kept := ((cooks_run_iff (fun _ => none) [['\r']] []).mp cooks).1
    exact kept ['\r'] (by simp) (by simp)

end HermesDecomp.Codegen
