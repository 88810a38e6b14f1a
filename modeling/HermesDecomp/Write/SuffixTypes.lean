import HermesDecomp.Io

/-!
# The types of suffixes

A suffix is S-type when it is smaller than the one behind it, and L-type otherwise. Among
the suffixes of one symbol the L-type ones come first. So the symbol and the type of a
position form a code: suffixes of different codes are in the order of their codes.
-/

namespace HermesDecomp.SuffixArray

/-!
The string packer asks which texts occur inside which others. It concatenates
them with separators and sorts the suffixes of the sequence by SA-IS: sort the
leftmost S-type substrings, name them, recurse on the names when two share one,
and induce the order of every other suffix.

An unfilled slot is `none`; every read and write of a slot is checked, and a failing one is a
panic.
-/

/-- S-type positions: the suffix is smaller than the one after it. The final
sentinel is S-type. -/
def suffixTypes : List Nat → List Bool
  | [] => []
  | [_] => [true]
  | symbol :: next :: rest =>
      let types := suffixTypes (next :: rest)
      (decide (symbol < next) || (symbol == next && types.headD false)) :: types

/-- Leftmost S-type: an S-type position right after an L-type one. -/
def lms (stype : List Bool) (position : Nat) : Result Bool :=
  if position = 0 then pure false else do
    let here ← Outcome.index stype position
    let before ← Outcome.index stype (position - 1)
    pure (here && !before)

/-- How often each symbol below `k` occurs. -/
def symbolCounts (s : List Nat) (k : Nat) : Result (List Nat) :=
  s.foldlM (fun count symbol => do
    let seen ← Outcome.index count symbol
    Outcome.store count symbol (seen + 1)) (List.replicate k 0)

/-- The first slot of every bucket. -/
def heads (sum : Nat) : List Nat → List Nat
  | [] => []
  | size :: rest => sum :: heads (sum + size) rest

/-- The slot after the last one of every bucket. -/
def tails (sum : Nat) : List Nat → List Nat
  | [] => []
  | size :: rest => (sum + size) :: tails (sum + size) rest

/-- A slot array under construction and the next free slot of every bucket. -/
abbrev Filling := List (Option Nat) × List Nat

/-- Put a position at the head of its symbol's bucket. -/
def placeAtHead (s : List Nat) (position : Nat) (filling : Filling) : Result Filling := do
  let (sa, head) := filling
  let symbol ← Outcome.index s position
  let slot ← Outcome.index head symbol
  let sa ← Outcome.store sa slot (some position)
  let head ← Outcome.store head symbol (slot + 1)
  pure (sa, head)

/-- Put a position at the tail of its symbol's bucket. -/
def placeAtTail (s : List Nat) (position : Nat) (filling : Filling) : Result Filling := do
  let (sa, tail) := filling
  let symbol ← Outcome.index s position
  let slot ← Outcome.index tail symbol
  let slot ← Outcome.checked (0 < slot) (slot - 1)
  let tail ← Outcome.store tail symbol slot
  let sa ← Outcome.store sa slot (some position)
  pure (sa, tail)

/-- The position before the one in slot `i`, when it exists and has the type asked for. -/
def predecessor (stype : List Bool) (wanted : Bool) (sa : List (Option Nat)) (i : Nat) :
    Result (Option Nat) := do
  match ← Outcome.index sa i with
  | some (before + 1) =>
      let found ← Outcome.index stype before
      pure (if found = wanted then some before else none)
  | _ => pure none

/-- From the leftmost S-type suffixes already in place, induce the L-type ones
from the left and then the S-type ones from the right. -/
def induce (s : List Nat) (stype : List Bool) (count : List Nat) (sa : List (Option Nat)) :
    Result (List (Option Nat)) := do
  let n := s.length
  let (sa, _) ← (List.range n).foldlM (fun (filling : Filling) i => do
    match ← predecessor stype false filling.1 i with
    | some position => placeAtHead s position filling
    | none => pure filling) (sa, heads 0 count)
  let (sa, _) ← (List.range n).reverse.foldlM (fun (filling : Filling) i => do
    match ← predecessor stype true filling.1 i with
    | some position => placeAtTail s position filling
    | none => pure filling) (sa, tails 0 count)
  pure sa

/-- Drop positions at their bucket tails, in the order given. -/
def dropAtTails (s : List Nat) (count : List Nat) (positions : List Nat) :
    Result (List (Option Nat)) := do
  let (sa, _) ← positions.foldlM (fun (filling : Filling) position =>
    placeAtTail s position filling) (List.replicate s.length none, tails 0 count)
  pure sa

/-- The positions of a filled slot array, in slot order. A slot without a
position cannot be read as one. -/
def filled (sa : List (Option Nat)) : Result (List Nat) := sa.mapM Outcome.unwrap

/-- Whether the leftmost S-type substrings at two positions differ, comparing from distance `d` on.
-/
def substringsDiffer (s : List Nat) (stype : List Bool) (pos prev : Nat) :
    (fuel d : Nat) → Result Bool
  | 0, _ => .panic
  | fuel + 1, d => do
      if s.length ≤ pos + d ∨ s.length ≤ prev + d then pure true
      else
        let symbol ← Outcome.index s (pos + d)
        let other ← Outcome.index s (prev + d)
        let type ← Outcome.index stype (pos + d)
        let otherType ← Outcome.index stype (prev + d)
        if symbol ≠ other ∨ type ≠ otherType then pure true
        else
          let ends ← if 0 < d then lms stype (pos + d) else pure false
          if ends then pure false else substringsDiffer s stype pos prev fuel (d + 1)

/-- The naming pass: the names handed out so far, the last named position, and
the names by half position. -/
structure Naming where
  name : Nat
  prev : Option Nat
  names : List (Option Nat)

/-- Name the next leftmost S-type substring in sorted order: equal ones share a name. -/
def nameNext (s : List Nat) (stype : List Bool) (naming : Naming) (pos : Nat) : Result Naming := do
  let differ ← match naming.prev with
    | none => pure true
    | some prev => substringsDiffer s stype pos prev (s.length + 1) 0
  let name := if differ then naming.name + 1 else naming.name
  let prev := if differ then some pos else naming.prev
  let value ← Outcome.checked (0 < name) (name - 1)
  let names ← Outcome.store naming.names (pos / 2) (some value)
  pure { name, prev, names }

/-- The order of distinct names: slot `x` holds the index of the substring named `x`. -/
def invert (reduced : List Nat) : Result (List Nat) :=
  reduced.zipIdx.foldlM (fun order (name, i) => Outcome.store order name i)
    (List.replicate reduced.length 0)

/-- The suffix array of `s`, whose symbols are below `k`. The recursion halves
the length, which the fuel bounds. -/
def suffixArray : (fuel : Nat) → List Nat → Nat → Result (List Nat)
  | 0, _, _ => .panic
  | fuel + 1, s, k => do
      if s.length = 0 then .panic
      else if s.length = 1 then pure [0]
      else
        let stype := suffixTypes s
        let count ← symbolCounts s k
        let positions ← (List.range s.length).filterM (lms stype)
        -- 1. Sort the leftmost S-type substrings.
        let sa ← dropAtTails s count positions.reverse
        let sa ← filled (← induce s stype count sa)
        -- 2. Name them; equal ones share a name.
        let sorted ← sa.filterM (lms stype)
        let m := sorted.length
        let naming ← sorted.foldlM (nameNext s stype)
          { name := 0, prev := none, names := List.replicate (s.length - m) none }
        let reduced := naming.names.filterMap id
        -- 3. Order the leftmost S-type suffixes.
        let order ← if naming.name < m then suffixArray fuel reduced naming.name
          else invert reduced
        -- 4. Place them and induce the rest.
        let placed ← order.reverse.mapM (Outcome.index positions)
        let sa ← dropAtTails s count placed
        filled (← induce s stype count sa)

/-- The suffixes of `banana`, with a sentinel, in increasing order. -/
example : suffixArray 7 [2, 1, 3, 1, 3, 1, 0] 4 = .ok [6, 5, 3, 1, 0, 4, 2] := by decide +kernel

/-- The symbol at a position. -/
def symbolAt (s : List Nat) (i : Nat) : Nat := s[i]?.getD 0

/-- Whether a position is S-type. -/
def isS (s : List Nat) (i : Nat) : Bool := (suffixTypes s)[i]?.getD false

/-- The symbol and the type of a position. -/
def code (s : List Nat) (i : Nat) : Nat := 2 * symbolAt s i + (isS s i).toNat

/-- Whether a position is leftmost S-type. -/
def isLms (s : List Nat) (i : Nat) : Bool := decide (0 < i) && (isS s i && !isS s (i - 1))

/-- A sequence that ends in a zero and has no other one. -/
def EndsInZero (s : List Nat) : Prop := ∃ front, s = front ++ [0] ∧ 0 ∉ front

theorem suffixTypes_length (s : List Nat) : (suffixTypes s).length = s.length := by
  fun_induction suffixTypes s with
  | case1 | case2 => rfl
  | case3 symbol next rest types ih => rw [List.length_cons, List.length_cons, ih]

/-- The types of a suffix are the ones of its positions. -/
theorem suffixTypes_tail (symbol : Nat) (rest : List Nat) :
    (suffixTypes (symbol :: rest)).tail = suffixTypes rest := by
  cases rest <;> rfl

theorem isS_cons_succ (symbol : Nat) (rest : List Nat) (i : Nat) :
    isS (symbol :: rest) (i + 1) = isS rest i := by
  rw [isS, isS, ← suffixTypes_tail symbol rest, List.getElem?_tail]

theorem symbolAt_cons_succ (symbol : Nat) (rest : List Nat) (i : Nat) :
    symbolAt (symbol :: rest) (i + 1) = symbolAt rest i := rfl

variable {s : List Nat} {i : Nat}

/-- A position is S-type when its symbol is smaller than the next one, or is the same and the
next position is S-type. -/
theorem isS_eq (inside : i + 1 < s.length) :
    isS s i = (decide (symbolAt s i < symbolAt s (i + 1)) ||
      (symbolAt s i == symbolAt s (i + 1) && isS s (i + 1))) := by
  induction i generalizing s with
  | zero =>
    match s, inside with
    | symbol :: next :: rest, _ =>
      rw [isS_cons_succ, symbolAt_cons_succ]
      have head : (suffixTypes (next :: rest)).headD false = isS (next :: rest) 0 := by
        rw [isS, ← List.head?_eq_getElem?, List.headD_eq_head?_getD]
      exact congrArg (fun found => decide (symbol < next) || (symbol == next && found)) head
  | succ i ih =>
    match s, inside with
    | symbol :: rest, inside =>
      rw [isS_cons_succ, isS_cons_succ, symbolAt_cons_succ, symbolAt_cons_succ]
      exact ih (Nat.lt_of_succ_lt_succ inside)

/-- The last position is S-type. -/
theorem isS_last (last : i + 1 = s.length) : isS s i = true:= by
  induction i generalizing s with
  | zero =>
    match s, last with
    | [symbol], _ => rfl
  | succ i ih =>
    match s, last with
    | symbol :: rest, last =>
      rw [isS_cons_succ]
      exact ih (Nat.succ.inj last)

theorem lt_length_of_isS (found : isS s i = true) : i < s.length:= by
  rw [← suffixTypes_length]
  by_contra outside
  rw [isS, List.getElem?_eq_none (Nat.le_of_not_lt outside)] at found
  cases found

theorem suffixTypes_getElem? (inside : i < s.length) : (suffixTypes s)[i]? = some (isS s i) := by
  rw [← suffixTypes_length] at inside
  rw [isS, List.getElem?_eq_getElem inside, Option.getD_some]

theorem symbolAt_getElem? (inside : i < s.length) : s[i]? = some (symbolAt s i) := by
  rw [symbolAt, List.getElem?_eq_getElem inside, Option.getD_some]

/-- A suffix is its symbol and the suffix behind it. -/
theorem drop_eq_symbolAt (inside : i < s.length) : s.drop i = symbolAt s i :: s.drop (i + 1) := by
  rw [symbolAt, List.getElem?_eq_getElem inside, Option.getD_some]
  exact List.drop_eq_getElem_cons inside

section Types

variable {s : List Nat} {i j : Nat}

/-- The symbol behind an L-type position is smaller, or the same and L-type again. -/
theorem next_of_largeType (inside : i < s.length) (large : isS s i = false) :
    i + 1 < s.length ∧ (symbolAt s (i + 1) < symbolAt s i ∨
      (symbolAt s (i + 1) = symbolAt s i ∧ isS s (i + 1) = false)) := by
  rcases Nat.lt_or_eq_of_le inside with within | last
  · rw [isS_eq within, Bool.or_eq_false_iff, decide_eq_false_iff_not, Bool.and_eq_false_iff,
      beq_eq_false_iff_ne] at large
    obtain ⟨least, either⟩ := large
    refine ⟨within, ?_⟩
    by_cases same : symbolAt s i = symbolAt s (i + 1)
    · exact .inr ⟨same.symm, either.resolve_left (absurd same)⟩
    · exact .inl (Nat.lt_of_le_of_ne (Nat.le_of_not_lt least) (Ne.symm same))
  · rw [isS_last last] at large
    cases large

/-- The symbol behind an S-type position is larger, or the same and S-type again. -/
theorem next_of_smallType (inside : i + 1 < s.length) (small : isS s i = true) :
    symbolAt s i < symbolAt s (i + 1) ∨
      (symbolAt s i = symbolAt s (i + 1) ∧ isS s (i + 1) = true) := by
  rw [isS_eq inside, Bool.or_eq_true_iff, decide_eq_true_eq, Bool.and_eq_true_iff, beq_iff_eq]
    at small
  exact small

/-- The zero stands at the last position only. -/
theorem EndsInZero.symbolAt_eq_zero_iff (ends : EndsInZero s) (inside : i < s.length) :
    symbolAt s i = 0 ↔ i + 1 = s.length := by
  obtain ⟨front, rfl, none_before⟩ := ends
  rw [List.length_append, List.length_singleton] at inside ⊢
  constructor
  · intro zero
    by_contra before
    have within : i < front.length := by omega
    have found : symbolAt (front ++ [0]) i = front[i] := by
      rw [symbolAt, List.getElem?_append_left within, List.getElem?_eq_getElem within]
      rfl
    rw [found] at zero
    exact none_before (zero ▸ List.getElem_mem within)
  · intro last
    obtain rfl : i = front.length := Nat.succ.inj last
    rw [symbolAt, List.getElem?_append_right (Nat.le_refl _), Nat.sub_self]
    rfl

/-- The position in front of the last one is L-type. -/
theorem EndsInZero.isS_penultimate (ends : EndsInZero s) (place : i + 2 = s.length) :
    isS s i = false := by
  have last := (ends.symbolAt_eq_zero_iff (i := i + 1) (by omega)).mpr place
  have positive : symbolAt s i ≠ 0 := by
    rw [ne_eq, ends.symbolAt_eq_zero_iff (by omega)]
    omega
  rw [isS_eq (by omega), last, Bool.or_eq_false_iff, decide_eq_false_iff_not, Bool.and_eq_false_iff,
    beq_eq_false_iff_ne]
  exact ⟨Nat.not_lt_zero _, .inl positive⟩

/-- Suffixes of different symbols are in the order of these. -/
theorem drop_lt_of_symbol (insideLeft : i < s.length) (insideRight : j < s.length)
    (smaller : symbolAt s i < symbolAt s j) : s.drop i < s.drop j := by
  rw [drop_eq_symbolAt insideLeft, drop_eq_symbolAt insideRight]
  exact List.cons_lt_cons_iff.mpr (.inl smaller)

/-- Suffixes of one symbol are in the order of the ones behind them. -/
theorem drop_lt_of_next (insideLeft : i < s.length) (insideRight : j < s.length)
    (same : symbolAt s i = symbolAt s j) (behind : s.drop (i + 1) < s.drop (j + 1)) :
    s.drop i < s.drop j := by
  rw [drop_eq_symbolAt insideLeft, drop_eq_symbolAt insideRight]
  exact List.cons_lt_cons_iff.mpr (.inr ⟨same, behind⟩)

/-- Of two suffixes of one symbol the L-type one is smaller. -/
theorem EndsInZero.drop_lt_of_types {i j : Nat} (ends : EndsInZero s) (insideLeft : i < s.length)
    (same : symbolAt s i = symbolAt s j) (large : isS s i = false) (small : isS s j = true) :
    s.drop i < s.drop j := by
  have insideRight := lt_length_of_isS small
  obtain ⟨withinLeft, fall⟩ := next_of_largeType insideLeft large
  have withinRight : j + 1 < s.length := by
    refine lt_of_le_of_ne insideRight fun last => ?_
    have zero := (ends.symbolAt_eq_zero_iff insideRight).mpr last
    rw [← same, ends.symbolAt_eq_zero_iff insideLeft] at zero
    omega
  refine drop_lt_of_next insideLeft insideRight same ?_
  rcases next_of_smallType withinRight small with rise | ⟨flat, still⟩
  · refine drop_lt_of_symbol withinLeft withinRight ?_
    rcases fall with lower | ⟨level, _⟩ <;> omega
  · rcases fall with lower | ⟨level, again⟩
    · exact drop_lt_of_symbol withinLeft withinRight (by omega)
    · exact ends.drop_lt_of_types withinLeft (by rw [level, same, flat]) again still
termination_by s.length - i

/-- Suffixes of different codes are in the order of their codes. -/
theorem EndsInZero.drop_lt_of_code (ends : EndsInZero s) (insideLeft : i < s.length)
    (insideRight : j < s.length) (smaller : code s i < code s j) : s.drop i < s.drop j := by
  unfold code at smaller
  rcases Nat.lt_trichotomy (symbolAt s i) (symbolAt s j) with before | same | after
  · exact drop_lt_of_symbol insideLeft insideRight before
  · cases left : isS s i <;> cases right : isS s j
    · rw [left, right, same] at smaller
      exact (lt_irrefl _ smaller).elim
    · exact ends.drop_lt_of_types insideLeft same left right
    · rw [left, right, same, Bool.toNat_true, Bool.toNat_false] at smaller
      omega
    · rw [left, right, same] at smaller
      exact (lt_irrefl _ smaller).elim
  · have most := Bool.toNat_le (isS s j)
    omega

/-- Positions of one code have one symbol and one type. -/
theorem code_eq_iff : code s i = code s j ↔ symbolAt s i = symbolAt s j ∧ isS s i = isS s j := by
  unfold code
  cases isS s i <;> cases isS s j <;> simp <;> omega

theorem isLms_iff : isLms s i = true ↔ 0 < i ∧ isS s i = true ∧ isS s (i - 1) = false := by
  rw [isLms, Bool.and_eq_true_iff, decide_eq_true_eq, Bool.and_eq_true_iff, Bool.not_eq_true']

theorem isLms_succ_iff : isLms s (i + 1) = true ↔ isS s (i + 1) = true ∧ isS s i = false := by
  rw [isLms_iff, Nat.add_sub_cancel]
  exact and_iff_right (Nat.succ_pos i)

/-- What the walk asks of a position. -/
theorem lms_eq (inside : i < s.length) : lms (suffixTypes s) i = .ok (isLms s i) := by
  unfold lms
  by_cases zero : i = 0
  · rw [if_pos zero, isLms, zero]
    rfl
  · have before : i - 1 < s.length := by omega
    have positive : decide (0 < i) = true := decide_eq_true (pos_of_ne_zero zero)
    rw [if_neg zero, Outcome.index, suffixTypes_getElem? inside, Outcome.index,
      suffixTypes_getElem? before, isLms, positive, Bool.true_and]
    rfl

/-- The last position is leftmost S-type, behind another one. -/
theorem EndsInZero.isLms_last (ends : EndsInZero s) (last : i + 2 = s.length) :
    isLms s (i + 1) = true :=
  isLms_succ_iff.mpr ⟨isS_last last, ends.isS_penultimate last⟩

theorem lt_length_of_isLms (found : isLms s i = true) : i < s.length :=
  lt_length_of_isS (isLms_iff.mp found).2.1

end Types

end HermesDecomp.SuffixArray
