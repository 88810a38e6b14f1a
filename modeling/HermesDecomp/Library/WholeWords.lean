import Mathlib.Data.List.Infix

/-!
# Replacing whole words

A text is searched for a word from the left, and an occurrence that stands alone is replaced. The
search goes on behind each occurrence, whether it was replaced or not, so an occurrence right behind
another one counts as standing alone on its left.
-/

namespace HermesDecomp.WholeWords

open List

variable {α : Type} [DecidableEq α]

/-- What is before and what is behind the first occurrence of a pattern. -/
def findSplit (pattern : List α) : List α → Option (List α × List α)
  | [] => if pattern.isPrefixOf [] then some ([], []) else none
  | first :: rest =>
      if pattern.isPrefixOf (first :: rest) then some ([], (first :: rest).drop pattern.length)
      else (findSplit pattern rest).map fun (before, after) => (first :: before, after)

section

variable (isWord : α → Bool) (old new : List α)

/-- No word goes on to the left, as far as the text before shows. -/
def leftOk (before : List α) : Bool := before.getLast?.all fun previous => !isWord previous

/-- No word goes on to the right. -/
def rightOk (after : List α) : Bool := after.head?.all fun next => !isWord next

/-- What stands for an occurrence. -/
def replaced (before after : List α) : List α :=
  if leftOk isWord before && rightOk isWord after then new else old

/-- Replace from the left, a number of occurrences at most. -/
def replaceFrom : (fuel : Nat) → List α → List α
  | 0, remaining => remaining
  | fuel + 1, remaining =>
      match findSplit old remaining with
      | none => remaining
      | some (before, after) =>
          before ++ (replaced isWord old new before after ++ replaceFrom fuel after)

/-- Replace all occurrences of a word that stand alone. -/
def replaceWholeWord (text : List α) : List α :=
  if old = [] then text else replaceFrom isWord old new text.length text

/-- A word that begins with an element it has nowhere else. -/
structure Solid : Prop where
  inhabited : old ≠ []
  word : ∀ element ∈ old, isWord element = true
  once : ∀ first rest, old = first :: rest → first ∉ rest

/-- An occurrence that is replaced: no word goes on to its right, and none to its left but the
same word. -/
def Standalone (text : List α) : Prop :=
  ∃ before after, text = before ++ (old ++ after) ∧
    (leftOk isWord before = true ∨ old <:+ before) ∧ rightOk isWord after = true

end

theorem findSplit_eq_some {pattern : List α} : ∀ {text before after : List α},
    findSplit pattern text = some (before, after) → text = before ++ (pattern ++ after)
  | [], before, after, found => by
    rw [findSplit] at found
    obtain ⟨starts, same⟩ := Option.ite_none_right_eq_some.mp found
    obtain ⟨rfl, rfl⟩ := Prod.mk.inj (Option.some.inj same)
    have empty : pattern = [] := prefix_nil.mp ( isPrefixOf_iff_prefix.mp starts)
    rw [empty]
    rfl
  | first :: rest, before, after, found => by
    rw [findSplit] at found
    split at found
    case isTrue starts =>
      obtain ⟨rfl, rfl⟩ := Prod.mk.inj (Option.some.inj found)
      exact (prefix_iff_eq_append.mp ( isPrefixOf_iff_prefix.mp starts)).symm
    case isFalse =>
      obtain ⟨⟨inner, behind⟩, later, same⟩ := Option.map_eq_some_iff.mp found
      cases same
      exact congrArg (first :: ·) (findSplit_eq_some later)

/-- Nothing is found exactly where the pattern does not occur. -/
theorem findSplit_eq_none {pattern : List α} : ∀ {text : List α},
    findSplit pattern text = none → ∀ before after, text ≠ before ++ (pattern ++ after)
  | [], missing, before, after, same => by
    obtain ⟨rfl, rest⟩ := append_eq_nil_iff.mp same.symm
    obtain ⟨rfl, rfl⟩ := append_eq_nil_iff.mp rest
    cases missing
  | first :: rest, missing, before, after, same => by
    rw [findSplit] at missing
    split at missing
    case isTrue => cases missing
    case isFalse starts =>
      cases before with
      | nil =>
        refine starts ( isPrefixOf_iff_prefix.mpr ⟨after, ?_⟩)
        exact same.symm
      | cons head before =>
        obtain ⟨-, inside⟩ := List.cons.inj same
        exact findSplit_eq_none (Option.map_eq_none_iff.mp missing) before after inside

/-- The first occurrence is not behind any other. -/
theorem findSplit_first {pattern : List α} : ∀ {text before after : List α},
    findSplit pattern text = some (before, after) → ∀ {other behind : List α},
      text = other ++ (pattern ++ behind) → before.length ≤ other.length
  | [], before, after, found, other, behind, same => by
    obtain ⟨starts, same⟩ := Option.ite_none_right_eq_some.mp found
    obtain ⟨rfl, rfl⟩ := Prod.mk.inj (Option.some.inj same)
    exact Nat.zero_le _
  | first :: rest, before, after, found, other, behind, same => by
    rw [findSplit] at found
    split at found
    case isTrue starts =>
      obtain ⟨rfl, rfl⟩ := Prod.mk.inj (Option.some.inj found)
      exact Nat.zero_le _
    case isFalse starts =>
      obtain ⟨⟨inner, last⟩, later, same'⟩ := Option.map_eq_some_iff.mp found
      cases same'
      cases other with
      | nil => exact absurd ( isPrefixOf_iff_prefix.mpr ⟨behind, same.symm⟩) starts
      | cons head other =>
        obtain ⟨-, inside⟩ := List.cons.inj same
        exact Nat.succ_le_succ (findSplit_first later inside)

section

variable {isWord : α → Bool} {old new : List α}

theorem length_lt_of_findSplit (inhabited : old ≠ []) {text before after : List α}
    (found : findSplit old text = some (before, after)) : after.length < text.length := by
  have positive := length_pos_iff.mpr inhabited
  rw [findSplit_eq_some found, length_append, length_append]
  omega

/-- What holds of the texts without a word, and of a text if of what is behind the first word,
holds of all. -/
theorem wordInduction (inhabited : old ≠ []) {motive : List α → Prop}
    (missing : ∀ text, findSplit old text = none → motive text)
    (behind : ∀ text before after, findSplit old text = some (before, after) → motive after →
      motive text) (text : List α) : motive text := by
  induction shorter : text.length using Nat.strong_induction_on generalizing text with
  | _ length ih =>
    cases found : findSplit old text with
    | none => exact missing text found
    | some parts =>
      have less := length_lt_of_findSplit inhabited found
      exact behind text parts.1 parts.2 found (ih _ (shorter ▸ less) parts.2 rfl)

/-- Fuel for every element is enough. -/
theorem replaceFrom_congr (inhabited : old ≠ []) : ∀ {fuel fuel' : Nat} {text : List α},
    text.length ≤ fuel → text.length ≤ fuel' →
      replaceFrom isWord old new fuel text = replaceFrom isWord old new fuel' text
  | 0, 0, _, _, _ => rfl
  | 0, fuel' + 1, text, enough, _ | fuel + 1, 0, text, _, enough => by
    obtain rfl := eq_nil_of_length_eq_zero (Nat.le_zero.mp enough)
    cases old with
    | nil => exact absurd rfl inhabited
    | cons => rfl
  | fuel + 1, fuel' + 1, text, enough, enough' => by
    rw [replaceFrom, replaceFrom]
    cases found : findSplit old text with
    | none => rfl
    | some parts =>
      have less := length_lt_of_findSplit inhabited found
      have shorter := @replaceFrom_congr inhabited fuel fuel' parts.2 (by omega) (by omega)
      dsimp only
      rw [shorter]

theorem replaceWholeWord_of_none (inhabited : old ≠ []) {text : List α}
    (missing : findSplit old text = none) : replaceWholeWord isWord old new text = text := by
  rw [replaceWholeWord, if_neg inhabited]
  cases text with
  | nil => rfl
  | cons first rest => rw [length_cons, replaceFrom, missing]

theorem replaceWholeWord_of_some (inhabited : old ≠ []) {text before after : List α}
    (found : findSplit old text = some (before, after)) :
    replaceWholeWord isWord old new text = before ++
      (replaced isWord old new before after ++ replaceWholeWord isWord old new after) := by
  have less := length_lt_of_findSplit inhabited found
  rw [replaceWholeWord, replaceWholeWord, if_neg inhabited, if_neg inhabited]
  obtain ⟨fuel, enough⟩ : ∃ fuel, text.length = fuel + 1 := ⟨text.length - 1, by omega⟩
  rw [enough, replaceFrom, found]
  dsimp only
  have enough' : after.length ≤ fuel := by omega
  rw [@replaceFrom_congr _ _ isWord old new inhabited fuel after.length after enough' (le_refl _)]

omit [DecidableEq α] in
/-- A solid word does not overlap itself. -/
theorem Solid.overlap (solid : Solid isWord old) {after before behind : List α}
    (same : old ++ after = before ++ (old ++ behind)) :
    before = [] ∨ old.length ≤ before.length := by
  obtain ⟨first, rest, rfl⟩ := exists_cons_of_ne_nil solid.inhabited
  cases before with
  | nil => exact .inl rfl
  | cons head before =>
    right
    by_contra short
    have shorter : before.length < rest.length := by
      rw [length_cons, length_cons] at short
      omega
    have tails : rest ++ after = before ++ (first :: rest ++ behind) := (List.cons.inj same).2
    have here : (rest ++ after)[before.length]? = some first := by
      rw [tails, List.getElem?_append_right (Nat.le_refl _), Nat.sub_self]
      rfl
    rw [List.getElem?_append_left shorter] at here
    exact solid.once first rest rfl (mem_of_getElem? here)

/-- An occurrence is the first one or lies behind it. -/
theorem Solid.occurrence (solid : Solid isWord old) {text before after : List α}
    (found : findSplit old text = some (before, after)) {other behind : List α}
    (same : text = other ++ (old ++ behind)) :
    (other = before ∧ behind = after) ∨
      ∃ inner, other = before ++ (old ++ inner) ∧ after = inner ++ (old ++ behind) := by
  have reached := findSplit_first found same
  have both := (findSplit_eq_some found).symm.trans same
  obtain ⟨gap, rfl⟩ : ∃ gap, other = before ++ gap := by
    have starts := prefix_of_prefix_length_le ⟨_, rfl⟩ ⟨_, both.symm⟩ reached
    exact starts.imp fun _ => Eq.symm
  rw [append_assoc, append_cancel_left_eq] at both
  rcases solid.overlap both with rfl | long
  · rw [nil_append, append_cancel_left_eq] at both
    exact .inl ⟨append_nil _, both.symm⟩
  · obtain ⟨inner, rfl⟩ : ∃ inner, gap = old ++ inner := by
      have starts := prefix_of_prefix_length_le ⟨_, rfl⟩ ⟨_, both.symm⟩ long
      exact starts.imp fun _ => Eq.symm
    rw [append_assoc, append_cancel_left_eq] at both
    exact .inr ⟨inner, rfl, both⟩

omit [DecidableEq α] in
theorem leftOk_append (left : List α) {right : List α} (inhabited : right ≠ []) :
    leftOk isWord (left ++ right) = leftOk isWord right := by
  rw [leftOk, leftOk, List.getLast?_append_of_ne_nil left inhabited]

omit [DecidableEq α] in
theorem rightOk_append {left : List α} (inhabited : left ≠ []) (right : List α) :
    rightOk isWord (left ++ right) = rightOk isWord left := by
  obtain ⟨first, rest, rfl⟩ := exists_cons_of_ne_nil inhabited
  rfl

omit [DecidableEq α] in
/-- Where a text ends well, its ends do as well. -/
theorem leftOk_of_suffix {left after : List α} (suffix : after <:+ left)
    (closed : leftOk isWord left = true) : leftOk isWord after = true := by
  obtain ⟨front, rfl⟩ := suffix
  cases after with
  | nil => rfl
  | cons first rest => exact (leftOk_append front (cons_ne_nil _ _)).symm.trans closed

omit [DecidableEq α] in
theorem Solid.leftOk_behind (solid : Solid isWord old) (before : List α) :
    leftOk isWord (before ++ old) = false := by
  obtain ⟨first, rest, same⟩ := exists_cons_of_ne_nil solid.inhabited
  rw [leftOk_append before solid.inhabited, leftOk]
  have inside := solid.word (old.getLast solid.inhabited) (getLast_mem _)
  rw [List.getLast?_eq_some_getLast solid.inhabited]
  simp [inside]

omit [DecidableEq α] in
theorem Solid.rightOk_before (solid : Solid isWord old) (after : List α) :
    rightOk isWord (old ++ after) = false := by
  obtain ⟨first, rest, rfl⟩ := exists_cons_of_ne_nil solid.inhabited
  have inside := solid.word first (mem_cons_self ..)
  simp [rightOk, inside]

theorem findSplit_append_of_some {pattern : List α} (right : List α) :
    ∀ {left before after : List α}, findSplit pattern left = some (before, after) →
      findSplit pattern (left ++ right) = some (before, after ++ right)
  | [], before, after, found => by
    obtain ⟨starts, same⟩ := Option.ite_none_right_eq_some.mp found
    obtain ⟨rfl, rfl⟩ := Prod.mk.inj (Option.some.inj same)
    obtain rfl := prefix_nil.mp ( isPrefixOf_iff_prefix.mp starts)
    cases right with
    | nil => rfl
    | cons => rfl
  | first :: rest, before, after, found => by
    have whole := congrArg List.length (findSplit_eq_some found)
    rw [length_append, length_append] at whole
    rw [findSplit] at found
    rw [cons_append, findSplit]
    split at found
    case isTrue starts =>
      obtain ⟨rfl, rfl⟩ := Prod.mk.inj (Option.some.inj found)
      have longer := isPrefixOf_iff_prefix.mp starts
      have here : pattern.isPrefixOf (first :: (rest ++ right)) = true :=
        isPrefixOf_iff_prefix.mpr (longer.trans (prefix_append _ right))
      rw [if_pos here, ← cons_append, drop_append_of_le_length longer.length_le]
    case isFalse starts =>
      obtain ⟨⟨inner, behind⟩, later, same⟩ := Option.map_eq_some_iff.mp found
      cases same
      have notHere : ¬ pattern.isPrefixOf (first :: (rest ++ right)) = true := by
        intro starts'
        refine starts ( isPrefixOf_iff_prefix.mpr ?_)
        exact prefix_of_prefix_length_le ( isPrefixOf_iff_prefix.mp starts')
          (prefix_append (first :: rest) right) (by omega)
      rw [if_neg notHere, findSplit_append_of_some right later]
      rfl

/-- No occurrence lies across an end that no word goes on over. -/
theorem Solid.findSplit_append_of_none (solid : Solid isWord old) {right : List α} :
    ∀ {left : List α}, findSplit old left = none →
      leftOk isWord left = true ∨ rightOk isWord right = true →
        findSplit old (left ++ right) =
          (findSplit old right).map fun (before, after) => (left ++ before, after)
  | [], _, _ => by
    rw [nil_append]
    cases findSplit old right <;> rfl
  | first :: rest, missing, closed => by
    have absent := findSplit_eq_none missing
    have notHere : ¬ old.isPrefixOf (first :: (rest ++ right)) = true := by
      intro starts
      obtain ⟨behind, same⟩ := isPrefixOf_iff_prefix.mp starts
      rcases append_eq_append_iff.mp (same.trans (cons_append ..).symm) with
        ⟨more, here, -⟩ | ⟨more, inside, outside⟩
      · exact absent [] more here
      · cases more with
        | nil =>
          have whole : first :: rest = old := (append_nil _).symm.trans inside.symm
          exact absent [] [] (whole.trans (append_nil _).symm)
        | cons next more =>
          have lastWord : isWord ((first :: rest).getLast (cons_ne_nil _ _)) = true := by
            apply solid.word
            rw [inside]
            exact mem_append_left _ (getLast_mem _)
          have nextWord : isWord next = true := by
            apply solid.word
            rw [inside]
            exact mem_append_right _ (mem_cons_self ..)
          rcases closed with closed | closed
          · rw [leftOk, List.getLast?_eq_some_getLast (cons_ne_nil _ _)] at closed
            simp [lastWord] at closed
          · rw [outside] at closed
            simp [rightOk, nextWord] at closed
    rw [findSplit] at missing
    rw [cons_append, findSplit, if_neg notHere]
    split at missing
    case isTrue => cases missing
    case isFalse =>
      have closed' : leftOk isWord rest = true ∨ rightOk isWord right = true :=
        closed.imp_left (leftOk_of_suffix (suffix_cons _ _))
      rw [Solid.findSplit_append_of_none solid (Option.map_eq_none_iff.mp missing) closed']
      cases findSplit old right <;> rfl

/-- Texts side by side are replaced in one by one where no word goes on from one to the other. -/
theorem Solid.replaceWholeWord_append (solid : Solid isWord old) (right : List α) :
    ∀ (left : List α), leftOk isWord left = true ∨ rightOk isWord right = true →
      replaceWholeWord isWord old new (left ++ right) =
        replaceWholeWord isWord old new left ++ replaceWholeWord isWord old new right := by
  intro left
  induction left using wordInduction solid.inhabited with
  | missing left found =>
    intro closed
    rw [replaceWholeWord_of_none solid.inhabited found]
    have whole := solid.findSplit_append_of_none found closed
    cases behind : findSplit old right with
    | none =>
      rw [behind] at whole
      rw [replaceWholeWord_of_none solid.inhabited behind,
        replaceWholeWord_of_none solid.inhabited whole]
    | some parts =>
      obtain ⟨before, after⟩ := parts
      rw [behind] at whole
      have sameLeft : leftOk isWord (left ++ before) = leftOk isWord before := by
        cases before with
        | cons first rest => exact leftOk_append left (cons_ne_nil _ _)
        | nil =>
          rw [append_nil]
          refine closed.resolve_right ?_
          rw [findSplit_eq_some behind, nil_append, solid.rightOk_before]
          exact Bool.false_ne_true
      rw [replaceWholeWord_of_some solid.inhabited behind,
        replaceWholeWord_of_some solid.inhabited whole, replaced, replaced, sameLeft, append_assoc]
  | behind left before after found ih =>
    intro closed
    have split := findSplit_eq_some found
    have whole := findSplit_append_of_some right found
    have behind : leftOk isWord after = true ∨ rightOk isWord right = true :=
      closed.imp_left (leftOk_of_suffix ⟨before ++ old, by rw [split, append_assoc]⟩)
    have sameRight : rightOk isWord (after ++ right) = rightOk isWord after := by
      cases after with
      | cons first rest => exact rightOk_append (cons_ne_nil _ _) right
      | nil =>
        refine closed.resolve_left ?_
        rw [split, append_nil, solid.leftOk_behind]
        exact Bool.false_ne_true
    rw [replaceWholeWord_of_some solid.inhabited found,
      replaceWholeWord_of_some solid.inhabited whole, replaced, replaced, sameRight, ih behind]
    simp

/-- The word by itself is replaced. -/
theorem Solid.replaceWholeWord_self (solid : Solid isWord old) :
    replaceWholeWord isWord old new old = new := by
  have found : findSplit old old = some ([], []) := by
    cases found : findSplit old old with
    | none => exact absurd (append_nil old).symm (findSplit_eq_none found [] [])
    | some parts =>
      obtain ⟨before, after⟩ := parts
      have lengths := congrArg List.length (findSplit_eq_some found)
      rw [length_append, length_append] at lengths
      rw [eq_nil_of_length_eq_zero (show before.length = 0 by omega),
        eq_nil_of_length_eq_zero (show after.length = 0 by omega)]
  rw [replaceWholeWord_of_some solid.inhabited found, replaceWholeWord]
  simp [replaced, leftOk, rightOk, replaceFrom]

omit [DecidableEq α] in
/-- Behind an occurrence, what stands alone does so in the whole text. -/
theorem Standalone.behind {before after : List α} (alone : Standalone isWord old after) :
    Standalone isWord old (before ++ (old ++ after)) := by
  obtain ⟨other, rest, rfl, left, right⟩ := alone
  refine ⟨before ++ (old ++ other), rest, by simp only [append_assoc], ?_, right⟩
  cases other with
  | nil => exact .inr ⟨before, by rw [append_nil]⟩
  | cons first other =>
    refine left.imp (fun closed => ?_) fun ⟨front, same⟩ => ?_
    · rwa [← append_assoc, leftOk_append _ (cons_ne_nil _ _)]
    · exact ⟨before ++ (old ++ front), by simp [← same]⟩

omit [DecidableEq α] in
/-- A solid word at the end of a text with the word in it lies behind it. -/
theorem Solid.suffix_within (solid : Solid isWord old) {before inner : List α}
    (inhabited : inner ≠ []) (suffix : old <:+ before ++ (old ++ inner)) : old <:+ inner := by
  obtain ⟨front, same⟩ := suffix
  have lengths := congrArg List.length same
  simp only [length_append] at lengths
  obtain ⟨gap, rfl⟩ : ∃ gap, front = before ++ gap := by
    have starts := prefix_of_prefix_length_le ⟨_, rfl⟩ ⟨_, same⟩ (by omega)
    exact starts.imp fun _ => Eq.symm
  rw [append_assoc, append_cancel_left_eq] at same
  have apart : gap = [] ∨ old.length ≤ gap.length :=
    solid.overlap (same.symm.trans (congrArg (gap ++ ·) (append_nil old).symm))
  rcases apart with rfl | long
  · rw [length_append, length_nil] at lengths
    exact absurd (eq_nil_of_length_eq_zero (by omega)) inhabited
  · rw [length_append] at lengths
    exact suffix_of_suffix_length_le ⟨gap, same⟩ ⟨old, rfl⟩ (by omega)

/-- What stands alone is the first occurrence or stands alone behind it. -/
theorem Solid.standalone_iff (solid : Solid isWord old) {text before after : List α}
    (found : findSplit old text = some (before, after)) :
    Standalone isWord old text ↔
      leftOk isWord before = true ∧ rightOk isWord after = true ∨ Standalone isWord old after := by
  have split := findSplit_eq_some found
  constructor
  · rintro ⟨other, behind, same, left, right⟩
    rcases solid.occurrence found same with ⟨rfl, rfl⟩ | ⟨inner, rfl, rfl⟩
    · refine .inl ⟨left.resolve_right ?_, right⟩
      rintro ⟨front, rfl⟩
      have early := findSplit_first found (split.trans (append_assoc ..))
      rw [length_append] at early
      have positive := length_pos_iff.mpr solid.inhabited
      omega
    · refine .inr ⟨inner, behind, rfl, ?_, right⟩
      cases inner with
      | nil => exact .inl rfl
      | cons first inner =>
        refine left.imp (fun closed => ?_) fun suffix => ?_
        · rwa [← append_assoc, leftOk_append _ (cons_ne_nil _ _)] at closed
        · exact solid.suffix_within (cons_ne_nil _ _) suffix
  · rintro (⟨left, right⟩ | alone)
    · exact ⟨before, after, split, .inl left, right⟩
    · exact split ▸ alone.behind

/-- A text in which nothing stands alone stays as it is. -/
theorem Solid.replaceWholeWord_eq_self (solid : Solid isWord old) (text : List α)
    (free : ¬ Standalone isWord old text) : replaceWholeWord isWord old new text = text := by
  induction text using wordInduction solid.inhabited with
  | missing text found => exact replaceWholeWord_of_none solid.inhabited found
  | behind text before after found ih =>
    rw [solid.standalone_iff found, not_or] at free
    have kept : replaced isWord old new before after = old := by
      rw [replaced, if_neg]
      rw [Bool.and_eq_true]
      exact free.1
    rw [replaceWholeWord_of_some solid.inhabited found, kept, ih free.2, ← findSplit_eq_some found]

/-- Every replacement counts in the length. -/
theorem Solid.length_replaceWholeWord (solid : Solid isWord old) (new text : List α) :
    ∃ count, (replaceWholeWord isWord old new text).length + count * old.length =
        text.length + count * new.length ∧ (count = 0 → ¬ Standalone isWord old text) := by
  induction text using wordInduction solid.inhabited with
  | missing text found =>
    refine ⟨0, ?_, fun _ ⟨before, after, same, _⟩ => findSplit_eq_none found before after same⟩
    rw [replaceWholeWord_of_none solid.inhabited found]
    omega
  | behind text before after found ih =>
    have lengths := congrArg List.length (findSplit_eq_some found)
    rw [length_append, length_append] at lengths
    obtain ⟨count, same, free⟩ := ih
    rw [replaceWholeWord_of_some solid.inhabited found, solid.standalone_iff found, replaced]
    simp only [length_append]
    by_cases alone : (leftOk isWord before && rightOk isWord after) = true
    · refine ⟨count + 1, ?_, fun none => by omega⟩
      rw [if_pos alone, Nat.succ_mul, Nat.succ_mul]
      omega
    · refine ⟨count, ?_, fun none => ?_⟩
      · rw [if_neg alone]
        omega
      · rw [Bool.and_eq_true] at alone
        exact not_or.mpr ⟨alone, free none⟩

/-- A text stays as it is exactly when nothing in it stands alone. -/
theorem Solid.replaceWholeWord_eq_iff (solid : Solid isWord old) (different : new ≠ old)
    (text : List α) :
    replaceWholeWord isWord old new text = text ↔ ¬ Standalone isWord old text := by
  refine ⟨?_, solid.replaceWholeWord_eq_self text⟩
  induction text using wordInduction solid.inhabited with
  | missing text found =>
    rintro - ⟨before, after, same, -⟩
    exact findSplit_eq_none found before after same
  | behind text before after found ih =>
    intro kept
    obtain ⟨count, same, free⟩ := solid.length_replaceWholeWord new text
    rw [kept, Nat.add_left_cancel_iff] at same
    by_cases lengths : old.length = new.length
    · rw [replaceWholeWord_of_some solid.inhabited found, findSplit_eq_some found,
        append_cancel_left_eq] at kept
      have fits : (replaced isWord old new before after).length = old.length := by
        rw [replaced]
        split_ifs
        · exact lengths.symm
        · rfl
      obtain ⟨word, later⟩ := append_inj kept fits
      rw [solid.standalone_iff found, not_or]
      refine ⟨fun ⟨left, right⟩ => different ?_, ih later⟩
      rwa [replaced, left, right, Bool.and_self, if_pos rfl] at word
    · refine free ?_
      by_contra some
      exact lengths (Nat.eq_of_mul_eq_mul_left (Nat.pos_of_ne_zero some) same)

/-- Texts with a word between each and the next. -/
def interleave (word first : List α) : List (List α) → List α
  | [] => first
  | next :: rest => first ++ (word ++ interleave word next rest)

/-- No word goes on from a text to the word beside it. -/
def Bounded (isWord : α → Bool) (word first : List α) : List (List α) → Prop
  | [] => True
  | next :: rest =>
      leftOk isWord first = true ∧ rightOk isWord (interleave word next rest) = true ∧
        Bounded isWord word next rest

omit [DecidableEq α] in
theorem Bounded.of_append {word lead first : List α} {rest : List (List α)}
    (bounded : Bounded isWord word (lead ++ first) rest) : Bounded isWord word first rest := by
  cases rest with
  | nil => trivial
  | cons next rest => exact ⟨leftOk_of_suffix (suffix_append _ _) bounded.1, bounded.2⟩

/-- The word between the texts is replaced, and what stands alone within a text. -/
theorem Solid.replaceWholeWord_interleave (solid : Solid isWord old) :
    ∀ (rest : List (List α)) (first : List α), Bounded isWord old first rest →
      replaceWholeWord isWord old new (interleave old first rest) =
        interleave new (replaceWholeWord isWord old new first)
          (rest.map (replaceWholeWord isWord old new))
  | [], _, _ => rfl
  | next :: rest, first, ⟨left, right, bounded⟩ => by
    rw [interleave, solid.replaceWholeWord_append _ _ (.inl left),
      solid.replaceWholeWord_append _ _ (.inr right), solid.replaceWholeWord_self,
      solid.replaceWholeWord_interleave rest next bounded]
    rfl

theorem Solid.length_interleave (solid : Solid isWord old) (new : List α) :
    ∀ (rest : List (List α)) (first : List α), ∃ count,
      (interleave new (replaceWholeWord isWord old new first)
          (rest.map (replaceWholeWord isWord old new))).length + count * old.length =
        (interleave new first rest).length + count * new.length ∧
      (count = 0 → ∀ text ∈ first :: rest, ¬ Standalone isWord old text)
  | [], first => by
    obtain ⟨count, same, free⟩ := solid.length_replaceWholeWord new first
    exact ⟨count, same, fun none => by simpa using free none⟩
  | next :: rest, first => by
    obtain ⟨count, same, free⟩ := solid.length_replaceWholeWord new first
    obtain ⟨count', same', free'⟩ := solid.length_interleave new rest next
    refine ⟨count + count', ?_, fun none => ?_⟩
    · simp only [map_cons, interleave, length_append] at same' ⊢
      rw [Nat.add_mul, Nat.add_mul]
      omega
    · rw [forall_mem_cons]
      exact ⟨free (by omega), free' (by omega)⟩

omit [DecidableEq α] in
/-- Texts of the same lengths are interleaved one by one. -/
theorem interleave_inj {word : List α} {change : List α → List α}
    (lengths : ∀ text, (change text).length = text.length) :
    ∀ (rest : List (List α)) (first : List α),
      interleave word (change first) (rest.map change) = interleave word first rest →
        ∀ text ∈ first :: rest, change text = text
  | [], first, same => by
    rintro text inside
    obtain rfl := mem_singleton.mp inside
    exact same
  | next :: rest, first, same => by
    obtain ⟨here, later⟩ := append_inj same (lengths first)
    rw [forall_mem_cons]
    exact ⟨here, interleave_inj lengths rest next (append_cancel_left later)⟩

/-- Exactly the words between the texts are replaced when nothing in a text stands alone, and
only then. -/
theorem Solid.replaceWholeWord_interleave_iff (solid : Solid isWord old) (different : new ≠ old)
    {first : List α} {rest : List (List α)} (bounded : Bounded isWord old first rest) :
    replaceWholeWord isWord old new (interleave old first rest) = interleave new first rest ↔
      ∀ text ∈ first :: rest, ¬ Standalone isWord old text := by
  rw [solid.replaceWholeWord_interleave rest first bounded]
  constructor
  · intro same
    obtain ⟨count, counted, free⟩ := solid.length_interleave new rest first
    rw [same, Nat.add_left_cancel_iff] at counted
    by_cases lengths : old.length = new.length
    · have kept : ∀ text, (replaceWholeWord isWord old new text).length = text.length := by
        intro text
        obtain ⟨count, counted, -⟩ := solid.length_replaceWholeWord new text
        rw [lengths] at counted
        omega
      intro text inside
      exact (solid.replaceWholeWord_eq_iff different text).mp
        (interleave_inj kept rest first same text inside)
    · refine free ?_
      by_contra some
      exact lengths (Nat.eq_of_mul_eq_mul_left (Nat.pos_of_ne_zero some) counted)
  · intro free
    rw [forall_mem_cons] at free
    rw [solid.replaceWholeWord_eq_self first free.1]
    congr 1
    calc rest.map (replaceWholeWord isWord old new)
        = rest.map id := map_congr_left fun text inside =>
          solid.replaceWholeWord_eq_self text (free.2 text inside)
      _ = rest := map_id rest

end

end HermesDecomp.WholeWords
