import HermesDecomp.Io
import HermesDecomp.Library.WholeWords

/-!
# Module name patterns

A pattern selects modules by name. A star stands for any run of characters, and letters match
whatever their case. The pieces between the stars are found from the left, at byte positions of
the name.
-/

namespace HermesDecomp.Glob

open WholeWords

/-- The bytes of a text. -/
def byteLen (text : Text) : Nat := (text.map Char.utf8Size).sum

/-- The text from a byte position on, which stands between two characters. -/
def sliceFrom : Text → (pos : Nat) → Result Text
  | text, 0 => .ok text
  | [], _ + 1 => .panic
  | first :: rest, pos + 1 =>
      if first.utf8Size ≤ pos + 1 then sliceFrom rest (pos + 1 - first.utf8Size) else .panic

/-- Match the pieces from one on, the first of them at the start. -/
def matchParts (txt : Text) (pos : Nat) (isFirst : Bool) : List Text → Result Bool
  | [] => .ok true
  | part :: rest =>
      if part = [] then matchParts txt pos false rest
      else do
        let left ← sliceFrom txt pos
        if isFirst then
          if part.isPrefixOf left then matchParts txt (pos + byteLen part) false rest
          else pure false
        else if rest = [] then pure (part.isSuffixOf left)
        else match findSplit part left with
          | some (before, _) => matchParts txt (pos + (byteLen before + byteLen part)) false rest
          | none => pure false

/-- Whether a pattern selects a text. -/
def globMatch (pattern text : Text) : Result Bool :=
  let pat := pattern.map Char.toLower
  let txt := text.map Char.toLower
  let parts := pat.splitOn '*'
  if parts.length = 1 then pure (pat == txt) else matchParts txt 0 true parts

/-- A text is the pieces in order, with any run between one and the next. -/
def Fits : List Text → Text → Prop
  | [], _ => False
  | [part], text => text = part
  | part :: rest, text => ∃ run tail, text = part ++ (run ++ tail) ∧ Fits rest tail

/-- A text is any run and then the pieces. -/
def FitsBehind (parts : List Text) (text : Text) : Prop :=
  ∃ run tail, text = run ++ tail ∧ Fits parts tail

theorem fits_cons {part next : Text} {rest : List Text} {text : Text} :
    Fits (part :: next :: rest) text ↔
      ∃ left, text = part ++ left ∧ FitsBehind (next :: rest) left := by
  constructor
  · rintro ⟨run, tail, same, fits⟩
    exact ⟨_, same, run, tail, rfl, fits⟩
  · rintro ⟨_, same, run, tail, rfl, fits⟩
    exact ⟨run, tail, same, fits⟩

/-- A longer text in front changes nothing. -/
theorem FitsBehind.append {parts : List Text} {text : Text} (fits : FitsBehind parts text)
    (front : Text) : FitsBehind parts (front ++ text) := by
  obtain ⟨run, tail, rfl, fits⟩ := fits
  exact ⟨front ++ run, tail, (List.append_assoc ..).symm, fits⟩

/-- The first occurrence of a piece is as good as any other. -/
theorem fitsBehind_cons_iff {part next : Text} {rest : List Text} {text : Text} :
    FitsBehind (part :: next :: rest) text ↔ ∃ before after,
      findSplit part text = some (before, after) ∧ FitsBehind (next :: rest) after := by
  constructor
  · rintro ⟨run, tail, rfl, fits⟩
    obtain ⟨left, rfl, behind⟩ := fits_cons.mp fits
    cases found : findSplit part (run ++ (part ++ left)) with
    | none => exact absurd rfl (findSplit_eq_none found run left)
    | some split =>
      obtain ⟨before, after⟩ := split
      refine ⟨before, after, rfl, ?_⟩
      have early := findSplit_first found rfl
      have same := findSplit_eq_some found
      have suffix : left <:+ after := by
        have left' : left <:+ run ++ (part ++ left) := ⟨run ++ part, List.append_assoc ..⟩
        have after' : after <:+ run ++ (part ++ left) :=
          ⟨before ++ part, (List.append_assoc ..).trans same.symm⟩
        refine List.suffix_of_suffix_length_le left' after' ?_
        have lengths := congrArg List.length same
        simp only [List.length_append] at lengths
        omega
      obtain ⟨front, rfl⟩ := suffix
      exact behind.append front
  · rintro ⟨before, after, found, fits⟩
    exact ⟨before, _, findSplit_eq_some found, fits_cons.mpr ⟨after, rfl, fits⟩⟩

theorem byteLen_append (left right : Text) :
    byteLen (left ++ right) = byteLen left + byteLen right := by
  simp [byteLen]

/-- A slice behind a part of the text is the rest. -/
theorem sliceFrom_append (front left : Text) : sliceFrom (front ++ left) (byteLen front) = .ok left := by
  induction front with
  | nil => cases left <;> rfl
  | cons first front ih =>
    obtain ⟨size, isSize⟩ : ∃ size, first.utf8Size = size + 1 :=
      ⟨_, (Nat.succ_pred_eq_of_pos first.utf8Size_pos).symm⟩
    have whole : byteLen (first :: front) = size + byteLen front + 1 := by
      simp [byteLen, isSize]
      omega
    rw [whole, List.cons_append, sliceFrom, if_pos (by omega), isSize, ← ih]
    congr 1
    omega

/-- Behind the first piece the search finds the pieces that are left wherever they are. -/
theorem matchParts_behind {part : Text} {rest : List Text} (front left : Text) :
    ∃ found, matchParts (front ++ left) (byteLen front) false (part :: rest) = .ok found ∧
      (found = true ↔ FitsBehind (part :: rest) left) := by
  induction rest generalizing part front left with
  | nil =>
    by_cases empty : part = []
    · subst empty
      exact ⟨true, rfl, iff_of_true rfl ⟨left, [], (List.append_nil _).symm, rfl⟩⟩
    · refine ⟨part.isSuffixOf left, ?_, ?_⟩
      · simp [matchParts, empty, sliceFrom_append]
      · rw [List.isSuffixOf_iff_suffix]
        constructor
        · rintro ⟨run, rfl⟩
          exact ⟨run, part, rfl, rfl⟩
        · rintro ⟨run, _, rfl, rfl⟩
          exact ⟨run, rfl⟩
  | cons next rest ih =>
    by_cases empty : part = []
    · subst empty
      obtain ⟨found, ran, right⟩ := @ih next front left
      refine ⟨found, ran, right.trans ?_⟩
      constructor
      · intro fits
        exact ⟨[], left, rfl, fits_cons.mpr ⟨left, rfl, fits⟩⟩
      · rintro ⟨run, tail, rfl, fits⟩
        obtain ⟨_, rfl, behind⟩ := fits_cons.mp fits
        exact behind.append run
    · rw [matchParts, if_neg empty, sliceFrom_append, fitsBehind_cons_iff]
      simp only [Outcome.ok_bind, Bool.false_eq_true, if_false, reduceCtorEq]
      cases found : findSplit part left with
      | none => exact ⟨false, rfl, by simp⟩
      | some split =>
        obtain ⟨before, after⟩ := split
        obtain ⟨answer, ran, right⟩ := @ih next (front ++ (before ++ part)) after
        refine ⟨answer, ?_, right.trans (by simp)⟩
        rw [← ran, findSplit_eq_some found, byteLen_append, byteLen_append]
        simp

/-- The match is the language of the pattern, and no slice is out of place. -/
theorem globMatch_iff (pattern text : Text) : ∃ found, globMatch pattern text = .ok found ∧
    (found = true ↔
      Fits ((pattern.map Char.toLower).splitOn '*') (text.map Char.toLower)) := by
  simp only [globMatch]
  generalize text.map Char.toLower = txt
  have joined := @List.intercalate_splitOn _ (pattern.map Char.toLower) _ _ '*'
  have some := List.splitOn_ne_nil '*' (pattern.map Char.toLower)
  generalize (pattern.map Char.toLower).splitOn '*' = parts at joined some ⊢
  match parts with
  | [] => exact absurd rfl some
  | [part] =>
    refine ⟨_, if_pos rfl, ?_⟩
    rw [beq_iff_eq, ← joined]
    simp [Fits, eq_comm, List.intercalate]
  | part :: next :: rest =>
    rw [if_neg (by simp), fits_cons]
    by_cases empty : part = []
    · subst empty
      obtain ⟨found, ran, right⟩ := @matchParts_behind next rest [] txt
      exact ⟨found, ran, right.trans (by simp)⟩
    · rw [matchParts, if_neg empty, sliceFrom]
      simp only [Outcome.ok_bind, if_true, List.isPrefixOf_iff_prefix]
      by_cases starts : part <+: txt
      · obtain ⟨left, rfl⟩ := starts
        obtain ⟨found, ran, right⟩ := @matchParts_behind next rest part left
        refine ⟨found, ?_, right.trans (by simp)⟩
        rw [if_pos ⟨left, rfl⟩, zero_add, ran]
      · refine ⟨false, if_neg starts, iff_of_false (by simp) ?_⟩
        rintro ⟨left, rfl, -⟩
        exact starts ⟨left, rfl⟩

end HermesDecomp.Glob
