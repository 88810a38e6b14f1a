import Mathlib.Data.List.Lex
import HermesDecomp.Write.InducedOrder

/-!
# Naming leftmost S-type substrings

The comparison of two substrings tells whether their keys differ. The naming pass takes the
substrings in the order of their keys and counts the different ones, so the names are the
ranks of the keys. A name is kept at half its position: of two adjacent positions one at most
is leftmost S-type, so no two names meet, and read from the front they stand in the order of
the text.
-/

namespace HermesDecomp.SuffixArray

open Shelves List Outcome

/-- The codes of L-type positions and of the S-type one behind them. -/
def fall (s : List Nat) (i : Nat) : List Nat :=
  if i < s.length then code s i :: (if isS s i then [] else fall s (i + 1)) else []
termination_by s.length - i

/-- The codes of S-type positions and of the fall behind them. -/
def rise (s : List Nat) (i : Nat) : List Nat :=
  if small : isS s i = true then code s i :: rise s (i + 1) else fall s i
termination_by s.length - i
decreasing_by
  have inside := lt_length_of_isS small
  omega

/-- The leftmost S-type positions from one on. -/
def lmsFrom (s : List Nat) (i : Nat) : List Nat := (List.range' i (s.length - i)).filter (isLms s)

section Keys

variable {s : List Nat} {i j : Nat}

theorem fall_small (small : isS s i = true) : fall s i = [code s i] := by
  rw [fall, if_pos (lt_length_of_isS small), if_pos small]

theorem fall_large (inside : i < s.length) (large : isS s i = false) :
    fall s i = code s i :: fall s (i + 1) := by
  rw [fall, if_pos inside, if_neg (Bool.eq_false_iff.mp large)]

theorem rise_small (small : isS s i = true) : rise s i = code s i :: rise s (i + 1) := by
  rw [rise, dif_pos small]

theorem rise_large (large : isS s i = false) : rise s i = fall s i := by
  rw [rise, dif_neg (Bool.eq_false_iff.mp large)]

/-- A key begins with the code of its position. -/
theorem fall_head (inside : i < s.length) : ∃ rest, fall s i = code s i :: rest := by
  rw [fall, if_pos inside]
  exact ⟨_, rfl⟩

theorem rise_head (inside : i < s.length) : ∃ rest, rise s i = code s i :: rest := by
  cases type : isS s i with
  | false =>
    rw [rise_large type]
    exact fall_head inside
  | true => exact ⟨_, rise_small type⟩

/-- Larger codes make keys that are not smaller. -/
theorem not_cons_lt_of_lt {left right : List Nat} {first second : Nat} (lower : first < second) :
    ¬ second :: right < first :: left := by
  rw [cons_lt_cons_iff]
  rintro (above | ⟨same, _⟩) <;> omega

/-- The same code leaves it to what is behind. -/
theorem not_cons_lt_of_not_lt {left right : List Nat} {first : Nat} (behind : ¬ right < left) :
    ¬ first :: right < first :: left := by
  rw [cons_lt_cons_iff]
  rintro (above | ⟨_, lower⟩)
  · exact lt_irrefl _ above
  · exact behind lower

/-- Falls are sorted by the first pass, and keys by the second one. -/
theorem induces_keys (s : List Nat) :
    Induces s (fun i j => ¬ fall s j < fall s i) (fun i j => ¬ rise s j < rise s i) where
  largeCode i j insideLeft insideRight lower := by
    obtain ⟨_, left⟩ := fall_head insideLeft
    obtain ⟨_, right⟩ := fall_head insideRight
    rw [left, right]
    exact not_cons_lt_of_lt lower
  largeNext i j insideLeft insideRight left right symbol behind := by
    have same : code s i = code s j := code_eq_iff.mpr ⟨symbol, left.trans right.symm⟩
    rw [fall_large insideLeft left, fall_large insideRight right, same]
    exact not_cons_lt_of_not_lt behind
  passed i j left right behind := by
    rw [rise_large left, rise_large right]
    exact behind
  smallCode i j insideLeft insideRight lower := by
    obtain ⟨_, left⟩ := rise_head insideLeft
    obtain ⟨_, right⟩ := rise_head insideRight
    rw [left, right]
    exact not_cons_lt_of_lt lower
  smallNext i j _ _ left right symbol behind := by
    have same : code s i = code s j := code_eq_iff.mpr ⟨symbol, left.trans right.symm⟩
    rw [rise_small left, rise_small right, same]
    exact not_cons_lt_of_not_lt behind

/-- Leftmost S-type positions of one bucket have the same fall. -/
theorem bucket_falls {order : List Nat} (lms : LmsOrder s order) (c : Nat) :
    (bucket s c order).Pairwise fun i j => ¬ fall s j < fall s i := by
  refine pairwise_of_forall_mem_list fun i first j second => ?_
  obtain ⟨_, left, small⟩ := mem_bucket_typed lms.typed c i first
  obtain ⟨_, right, type⟩ := mem_bucket_typed lms.typed c j second
  have same : code s i = code s j := code_eq_iff.mpr ⟨left.trans right.symm, small.trans type.symm⟩
  rw [fall_small small, fall_small type, same]
  exact lt_irrefl _

/-- A smaller fall makes a smaller suffix. -/
theorem EndsInZero.drop_lt_of_fall (ends : EndsInZero s) {i j : Nat} (insideLeft : i < s.length)
    (insideRight : j < s.length) (lower : fall s i < fall s j) : s.drop i < s.drop j := by
  by_cases same : code s i = code s j
  · obtain ⟨symbol, types⟩ := code_eq_iff.mp same
    cases type : isS s i with
    | true =>
      rw [fall_small type, fall_small (types ▸ type), same] at lower
      exact absurd lower (lt_irrefl _)
    | false =>
      rw [fall_large insideLeft type, fall_large insideRight (types ▸ type), same,
        cons_lt_cons_iff] at lower
      refine drop_lt_of_next insideLeft insideRight symbol ?_
      exact ends.drop_lt_of_fall (next_of_largeType insideLeft type).1
        (next_of_largeType insideRight (types ▸ type)).1
        (lower.resolve_left (lt_irrefl _)|>.2)
  · obtain ⟨_, left⟩ := fall_head insideLeft
    obtain ⟨_, right⟩ := fall_head insideRight
    rw [left, right, cons_lt_cons_iff] at lower
    exact ends.drop_lt_of_code insideLeft insideRight
      (lower.resolve_right fun both => same both.1)
termination_by s.length - i

/-- Positions before the last one have the same successors' bound. -/
theorem EndsInZero.succ_lt_of_code (ends : EndsInZero s) (insideLeft : i < s.length)
    (insideRight : j < s.length) (same : code s i = code s j) (other : i ≠ j) :
    i + 1 < s.length ∧ j + 1 < s.length := by
  have symbol := (code_eq_iff.mp same).1
  have left := ends.symbolAt_eq_zero_iff insideLeft
  have right := ends.symbolAt_eq_zero_iff insideRight
  rw [symbol] at left
  by_cases zero : symbolAt s j = 0
  · exact absurd (left.mp zero) (by have := right.mp zero; omega)
  · have first := mt left.mpr zero
    have second := mt right.mpr zero
    omega

/-- A smaller key makes a smaller suffix. -/
theorem EndsInZero.drop_lt_of_rise (ends : EndsInZero s) {i j : Nat} (insideLeft : i < s.length)
    (insideRight : j < s.length) (lower : rise s i < rise s j) : s.drop i < s.drop j := by
  by_cases same : code s i = code s j
  · obtain ⟨symbol, types⟩ := code_eq_iff.mp same
    cases type : isS s i with
    | true =>
      by_cases one : i = j
      · rw [one] at lower
        exact absurd lower (lt_irrefl _)
      · obtain ⟨withinLeft, withinRight⟩ := ends.succ_lt_of_code insideLeft insideRight same one
        have typeRight : isS s j = true := types ▸ type
        rw [rise_small type, rise_small typeRight, same, cons_lt_cons_iff] at lower
        refine drop_lt_of_next insideLeft insideRight symbol ?_
        exact ends.drop_lt_of_rise withinLeft withinRight (lower.resolve_left (lt_irrefl _)).2
    | false =>
      rw [rise_large type, rise_large (types ▸ type)] at lower
      exact ends.drop_lt_of_fall insideLeft insideRight lower
  · obtain ⟨_, left⟩ := rise_head insideLeft
    obtain ⟨_, right⟩ := rise_head insideRight
    rw [left, right, cons_lt_cons_iff] at lower
    exact ends.drop_lt_of_code insideLeft insideRight
      (lower.resolve_right fun both => same both.1)
termination_by s.length - i

theorem lmsFrom_end : lmsFrom s s.length = [] := by
  rw [lmsFrom, Nat.sub_self]
  rfl

theorem lmsFrom_lms (leftmost : isLms s i = true) : lmsFrom s i = i :: lmsFrom s (i + 1) := by
  have inside := lt_length_of_isLms leftmost
  have size : s.length - i = (s.length - (i + 1)) + 1 := by omega
  rw [lmsFrom, size, List.range'_succ, filter_cons_of_pos leftmost]
  rfl

theorem lmsFrom_other (inside : i < s.length) (other : isLms s i = false) :
    lmsFrom s i = lmsFrom s (i + 1) := by
  have size : s.length - i = (s.length - (i + 1)) + 1 := by omega
  rw [lmsFrom, size, List.range'_succ, filter_cons_of_neg (Bool.eq_false_iff.mp other)]
  rfl

/-- A position behind an S-type one is not leftmost S-type. -/
theorem lmsFrom_behind_small (inside : i + 1 < s.length) (small : isS s i = true) :
    lmsFrom s (i + 1) = lmsFrom s (i + 1 + 1) := by
  refine lmsFrom_other inside (Bool.eq_false_iff.mpr fun leftmost => ?_)
  rw [(isLms_succ_iff.mp leftmost).2] at small
  cases small

/-- An L-type position is not leftmost S-type. -/
theorem lmsFrom_large (inside : i < s.length) (large : isS s i = false) :
    lmsFrom s i = lmsFrom s (i + 1) := by
  refine lmsFrom_other inside (Bool.eq_false_iff.mpr fun leftmost => ?_)
  rw [(isLms_iff.mp leftmost).2.1] at large
  cases large

/-- Names that are in the order of the keys of the leftmost S-type positions. -/
structure Names (s : List Nat) (names : Nat → Nat) : Prop where
  lower : ∀ i j, isLms s i = true → isLms s j = true → rise s i < rise s j → names i < names j
  same : ∀ i j, isLms s i = true → isLms s j = true → rise s i = rise s j → names i = names j

variable {names : Nat → Nat}

/-- The suffixes at the leftmost S-type positions from one on are in the order of their
names. -/
def OrderedFrom (s : List Nat) (names : Nat → Nat) (start : Nat) : Prop :=
  ∀ i j, start ≤ i → isLms s i = true → isLms s j = true →
    (lmsFrom s i).map names < (lmsFrom s j).map names → s.drop i < s.drop j

/-- Suffixes of one fall are in the order of the names behind it. -/
theorem drop_lt_of_fall_eq {i j : Nat} (behind : OrderedFrom s names i) (insideLeft : i < s.length)
    (insideRight : j < s.length) (same : fall s i = fall s j)
    (left : isS s i = true → isLms s i = true) (right : isS s j = true → isLms s j = true)
    (lower : (lmsFrom s i).map names < (lmsFrom s j).map names) : s.drop i < s.drop j := by
  obtain ⟨_, first⟩ := fall_head insideLeft
  obtain ⟨_, second⟩ := fall_head insideRight
  have codes : code s i = code s j := by
    rw [first, second] at same
    exact (List.cons.inj same).1
  obtain ⟨symbol, types⟩ := code_eq_iff.mp codes
  cases type : isS s i with
  | true =>
    have typeRight : isS s j = true := types ▸ type
    exact behind i j (le_refl i) (left type) (right typeRight) lower
  | false =>
    have typeRight : isS s j = false := types ▸ type
    rw [fall_large insideLeft type, fall_large insideRight typeRight] at same
    rw [lmsFrom_large insideLeft type, lmsFrom_large insideRight typeRight] at lower
    refine drop_lt_of_next insideLeft insideRight symbol ?_
    exact drop_lt_of_fall_eq (fun i' j' later => behind i' j' (Nat.le_of_succ_le later))
      (next_of_largeType insideLeft type).1 (next_of_largeType insideRight typeRight).1
      (List.cons.inj same).2 (fun small => isLms_succ_iff.mpr ⟨small, type⟩)
      (fun small => isLms_succ_iff.mpr ⟨small, typeRight⟩) lower
termination_by s.length - i

/-- Suffixes of one key are in the order of the names behind their first positions. -/
theorem EndsInZero.drop_lt_of_rise_eq (ends : EndsInZero s) {i j : Nat}
    (behind : OrderedFrom s names (i + 1)) (insideLeft : i < s.length) (insideRight : j < s.length)
    (same : rise s i = rise s j)
    (lower : (lmsFrom s (i + 1)).map names < (lmsFrom s (j + 1)).map names) :
    s.drop i < s.drop j := by
  obtain ⟨_, first⟩ := rise_head insideLeft
  obtain ⟨_, second⟩ := rise_head insideRight
  have codes : code s i = code s j := by
    rw [first, second] at same
    exact (List.cons.inj same).1
  have other : i ≠ j := by
    rintro rfl
    exact lt_irrefl _ lower
  obtain ⟨withinLeft, withinRight⟩ := ends.succ_lt_of_code insideLeft insideRight codes other
  obtain ⟨symbol, types⟩ := code_eq_iff.mp codes
  refine drop_lt_of_next insideLeft insideRight symbol ?_
  cases type : isS s i with
  | true =>
    have typeRight : isS s j = true := types ▸ type
    rw [rise_small type, rise_small typeRight] at same
    rw [lmsFrom_behind_small withinLeft type, lmsFrom_behind_small withinRight typeRight] at lower
    exact ends.drop_lt_of_rise_eq (fun i' j' later => behind i' j' (Nat.le_of_succ_le later))
      withinLeft withinRight (List.cons.inj same).2 lower
  | false =>
    have typeRight : isS s j = false := types ▸ type
    rw [rise_large type, rise_large typeRight, fall_large insideLeft type,
      fall_large insideRight typeRight] at same
    exact drop_lt_of_fall_eq behind withinLeft withinRight (List.cons.inj same).2
      (fun small => isLms_succ_iff.mpr ⟨small, type⟩)
      (fun small => isLms_succ_iff.mpr ⟨small, typeRight⟩) lower
termination_by s.length - i

/-- Keys are in the order of their names. -/
theorem Names.rise_lt (named : Names s names) (left : isLms s i = true) (right : isLms s j = true)
    (lower : names i < names j) : rise s i < rise s j := by
  rcases lt_trichotomy (rise s i) (rise s j) with before | same | after
  · exact before
  · exact absurd (named.same i j left right same) (ne_of_lt lower)
  · exact absurd (named.lower j i right left after) (lt_asymm lower)

theorem Names.rise_eq (named : Names s names) (left : isLms s i = true) (right : isLms s j = true)
    (same : names i = names j) : rise s i = rise s j := by
  rcases lt_trichotomy (rise s i) (rise s j) with before | equal | after
  · exact absurd same (ne_of_lt (named.lower i j left right before))
  · exact equal
  · exact absurd same.symm (ne_of_lt (named.lower j i right left after))

/-- The suffixes at leftmost S-type positions are in the order of the names from there on. -/
theorem EndsInZero.ordered (ends : EndsInZero s) (named : Names s names) :
    OrderedFrom s names 0 := by
  have from_end : ∀ distance, ∀ first, s.length ≤ first + distance → OrderedFrom s names first := by
    intro distance
    induction distance with
    | zero =>
      intro first far i j later left _ _
      exact absurd (lt_length_of_isLms left) (Nat.not_lt_of_le (Nat.le_trans far later))
    | succ distance ih =>
      intro first far i j later left right lower
      have insideLeft := lt_length_of_isLms left
      have insideRight := lt_length_of_isLms right
      rw [lmsFrom_lms left, lmsFrom_lms right, map_cons, map_cons, cons_lt_cons_iff] at lower
      rcases lower with before | ⟨same, behind⟩
      · exact ends.drop_lt_of_rise insideLeft insideRight (named.rise_lt left right before)
      · exact ends.drop_lt_of_rise_eq (ih (i + 1) (by omega)) insideLeft
          insideRight (named.rise_eq left right same) behind
  exact from_end s.length 0 (Nat.le_add_left _ _)

end Keys

open Shelves

section Names

variable {s : List Nat}

/-- The comparison at two positions inside. -/
theorem substringsDiffer_inside {pos prev fuel d : Nat} (insideLeft : pos + d < s.length)
    (insideRight : prev + d < s.length) :
    substringsDiffer s (suffixTypes s) pos prev (fuel + 1) d =
      if code s (pos + d) ≠ code s (prev + d) then .ok true
      else if 0 < d ∧ isLms s (pos + d) = true then .ok false
      else substringsDiffer s (suffixTypes s) pos prev fuel (d + 1) := by
  have inside : ¬ (s.length ≤ pos + d ∨ s.length ≤ prev + d) := by omega
  have codes : (symbolAt s (pos + d) ≠ symbolAt s (prev + d) ∨ isS s (pos + d) ≠ isS s (prev + d)) ↔
      code s (pos + d) ≠ code s (prev + d) := by
    rw [ne_eq (code s (pos + d)), code_eq_iff, not_and_or]
  rw [substringsDiffer, if_neg inside, index_of_getElem? (symbolAt_getElem? insideLeft),
    ok_bind, index_of_getElem? (symbolAt_getElem? insideRight), ok_bind,
    index_of_getElem? (suffixTypes_getElem? insideLeft), ok_bind,
    index_of_getElem? (suffixTypes_getElem? insideRight), ok_bind]
  by_cases differ : code s (pos + d) ≠ code s (prev + d)
  · rw [if_pos differ, if_pos (codes.mpr differ)]
    rfl
  · rw [if_neg differ, if_neg (mt codes.mp differ)]
    by_cases later : 0 < d
    · rw [if_pos later, lms_eq insideLeft, ok_bind]
      by_cases leftmost : isLms s (pos + d) = true
      · rw [leftmost, if_pos ⟨later, rfl⟩]
        rfl
      · rw [if_neg fun both => leftmost both.2, Bool.eq_false_iff.mpr leftmost]
        rfl
    · rw [if_neg later, if_neg fun both => later both.1]
      rfl

/-- On the way down the comparison compares falls. -/
theorem substringsDiffer_fall {pos prev fuel d : Nat} (later : 0 < d)
    (insideLeft : pos + d < s.length) (insideRight : prev + d < s.length)
    (left : isS s (pos + d) = true → isLms s (pos + d) = true)
    (enough : s.length ≤ pos + d + fuel) :
    substringsDiffer s (suffixTypes s) pos prev fuel d =
      .ok (decide (fall s (pos + d) ≠ fall s (prev + d))) := by
  induction fuel generalizing d with
  | zero => omega
  | succ fuel ih =>
    rw [substringsDiffer_inside insideLeft insideRight]
    obtain ⟨_, first⟩ := fall_head insideLeft
    obtain ⟨_, second⟩ := fall_head insideRight
    by_cases same : code s (pos + d) = code s (prev + d)
    · rw [if_neg (not_not_intro same)]
      obtain ⟨_, types⟩ := code_eq_iff.mp same
      cases type : isS s (pos + d) with
      | true =>
        have typeRight : isS s (prev + d) = true := types ▸ type
        rw [if_pos ⟨later, left type⟩, fall_small type, fall_small typeRight, same]
        exact congrArg Outcome.ok (decide_eq_false (not_not_intro rfl)).symm
      | false =>
        have typeRight : isS s (prev + d) = false := types ▸ type
        have other : ¬ (0 < d ∧ isLms s (pos + d) = true) := fun both => by
          rw [(isLms_iff.mp both.2).2.1] at type
          cases type
        have next := (next_of_largeType insideLeft type).1
        rw [if_neg other, ih (Nat.succ_pos d) next (next_of_largeType insideRight typeRight).1
          (fun small => isLms_succ_iff.mpr ⟨small, type⟩) (by omega),
          fall_large insideLeft type, fall_large insideRight typeRight, same]
        exact congrArg Outcome.ok (decide_eq_decide.mpr (not_congr
          ⟨congrArg (List.cons (code s (prev + d))), fun equal => (List.cons.inj equal).2⟩))
    · have differ : fall s (pos + d) ≠ fall s (prev + d) := by
        intro equal
        rw [first, second] at equal
        exact same (List.cons.inj equal).1
      rw [if_pos same, decide_eq_true differ]

/-- The comparison of different positions compares keys. -/
theorem EndsInZero.substringsDiffer_rise (ends : EndsInZero s) {pos prev fuel d : Nat}
    (other : pos ≠ prev) (insideLeft : pos + d < s.length) (insideRight : prev + d < s.length)
    (left : 0 < d → isLms s (pos + d) = false) (enough : s.length ≤ pos + d + fuel) :
    substringsDiffer s (suffixTypes s) pos prev fuel d =
      .ok (decide (rise s (pos + d) ≠ rise s (prev + d))) := by
  induction fuel generalizing d with
  | zero => omega
  | succ fuel ih =>
    rw [substringsDiffer_inside insideLeft insideRight]
    obtain ⟨_, first⟩ := rise_head insideLeft
    obtain ⟨_, second⟩ := rise_head insideRight
    by_cases same : code s (pos + d) = code s (prev + d)
    · have goes : ¬ (0 < d ∧ isLms s (pos + d) = true) := fun both => by
        rw [left both.1] at both
        exact absurd both.2 (by decide)
      obtain ⟨withinLeft, withinRight⟩ :=
        ends.succ_lt_of_code insideLeft insideRight same (by omega)
      rw [if_neg (not_not_intro same), if_neg goes]
      obtain ⟨_, types⟩ := code_eq_iff.mp same
      have behind : ∀ {left right : List Nat}, decide (left ≠ right) =
          decide (code s (prev + d) :: left ≠ code s (prev + d) :: right) :=
        decide_eq_decide.mpr (not_congr
          ⟨congrArg (List.cons (code s (prev + d))), fun equal => (List.cons.inj equal).2⟩)
      cases type : isS s (pos + d) with
      | true =>
        have typeRight : isS s (prev + d) = true := types ▸ type
        rw [ih withinLeft withinRight (fun _ => Bool.eq_false_iff.mpr fun leftmost => by
            rw [← add_assoc, isLms_succ_iff, type] at leftmost
            cases leftmost.2) (by omega),
          rise_small type, rise_small typeRight, same]
        exact congrArg Outcome.ok behind
      | false =>
        have typeRight : isS s (prev + d) = false := types ▸ type
        rw [substringsDiffer_fall (Nat.succ_pos d) withinLeft withinRight
          (fun small => isLms_succ_iff.mpr ⟨small, type⟩) (by omega), rise_large type,
          rise_large typeRight, fall_large insideLeft type, fall_large insideRight typeRight, same]
        exact congrArg Outcome.ok behind
    · have differ : rise s (pos + d) ≠ rise s (prev + d) := by
        intro equal
        rw [first, second] at equal
        exact same (List.cons.inj equal).1
      rw [if_pos same, decide_eq_true differ]

/-- Different leftmost S-type positions have different halves. -/
theorem half_ne {i j : Nat} (left : isLms s i = true) (right : isLms s j = true) (other : i ≠ j) :
    i / 2 ≠ j / 2 := by
  intro same
  have apart : ∀ {p q : Nat}, isLms s p = true → isLms s q = true → q ≠ p + 1 := by
    rintro p q first second rfl
    rw [isLms_succ_iff, (isLms_iff.mp first).2.1] at second
    cases second.2
  have first := apart left right
  have second := apart right left
  omega

/-- At most half of the positions are leftmost S-type. -/
theorem lms_count {order : List Nat} (lms : LmsOrder s order) : 2 * order.length ≤ s.length := by
  have nodup : (order ++ order.map (· - 1)).Nodup := by
    refine nodup_append.mpr ⟨lms.nodup, ?_, ?_⟩
    · refine lms.nodup.map_on fun i first j second same => ?_
      have left := (isLms_iff.mp ((lms.mem_iff i).mp first)).1
      have right := (isLms_iff.mp ((lms.mem_iff j).mp second)).1
      omega
    · rintro i first j second rfl
      obtain ⟨after, member, rfl⟩ := mem_map.mp second
      have leftmost := (isLms_iff.mp ((lms.mem_iff _).mp member)).2.2
      rw [((isLms_iff.mp ((lms.mem_iff _).mp first))).2.1] at leftmost
      cases leftmost
  have inside : ∀ i ∈ order ++ order.map (· - 1), i ∈ List.range s.length := by
    intro i found
    rw [mem_range]
    rcases mem_append.mp found with here | there
    · exact (lms.typed i here).1
    · obtain ⟨after, member, rfl⟩ := mem_map.mp there
      have bound := (lms.typed after member).1
      omega
  have bound := (subperm_of_subset nodup inside).length_le
  rw [length_append, length_map, length_range] at bound
  omega

/-- The slots of the names: a slot holds the name of the position whose half it is. -/
def nameSlots (slots : Nat) (done : List Nat) (names : Nat → Nat) : List (Option Nat) :=
  (List.range slots).map fun slot => (done.find? fun p => p / 2 == slot).map names

/-- The substrings that were named carry the ranks of their keys. -/
structure NamedSoFar (s : List Nat) (slots : Nat) (done : List Nat) (naming : Naming)
    (names : Nat → Nat) : Prop where
  slots : naming.names = nameSlots slots done names
  below : ∀ p ∈ done, names p < naming.name
  onto : ∀ x < naming.name, ∃ p ∈ done, names p = x
  lower : ∀ p ∈ done, ∀ q ∈ done, rise s p < rise s q → names p < names q
  same : ∀ p ∈ done, ∀ q ∈ done, rise s p = rise s q → names p = names q
  last : naming.prev = none ∧ done = [] ∧ naming.name = 0 ∨
    ∃ q ∈ done, naming.prev = some q ∧ names q + 1 = naming.name ∧ ∀ p ∈ done, rise s p ≤ rise s q

variable {slots : Nat} {done : List Nat} {naming : Naming} {names : Nat → Nat} {pos : Nat}

/-- One more position gets a name. -/
def named (names : Nat → Nat) (pos value : Nat) (p : Nat) : Nat :=
  if p = pos then value else names p

theorem named_self (value : Nat) : named names pos value pos = value := if_pos rfl

theorem named_other {value p : Nat} (fresh : pos ∉ done) (member : p ∈ done) :
    named names pos value p = names p :=
  if_neg fun same : p = pos => fresh (same ▸ member)

/-- A name goes into a slot of its own. -/
theorem nameSlots_snoc {value : Nat} (room : pos / 2 < slots) (fresh : pos ∉ done)
    (apart : ∀ p ∈ done, p / 2 ≠ pos / 2) :
    (nameSlots slots done names).set (pos / 2) (some value) =
      nameSlots slots (done ++ [pos]) (named names pos value) := by
  have here : ((done ++ [pos]).find? fun p => p / 2 == pos / 2).map (named names pos value) =
      some value := by
    have absent : (done.find? fun p => p / 2 == pos / 2) = none := by
      rw [List.find?_eq_none]
      intro p member
      rw [beq_iff_eq]
      exact apart p member
    have alone : ([pos].find? fun p => p / 2 == pos / 2) = some pos :=
      List.find?_cons_of_pos (beq_self_eq_true _)
    rw [List.find?_append, absent, alone]
    exact congrArg some (named_self value)
  rw [nameSlots, nameSlots, ← here]
  refine set_map_range (fun slot => (done.find? fun p => p / 2 == slot).map names)
    (fun slot => ((done ++ [pos]).find? fun p => p / 2 == slot).map (named names pos value)) room ?_
  intro slot _ other
  have absent : ([pos].find? fun p => p / 2 == slot) = none := by
    rw [List.find?_eq_none]
    intro p member
    rw [mem_singleton.mp member, beq_iff_eq]
    exact other.symm
  rw [List.find?_append, absent, Option.or_none]
  cases found : done.find? fun p => p / 2 == slot with
  | none => rfl
  | some p => exact congrArg some (named_other fresh (mem_of_find?_eq_some found))

/-- The position that comes next differs from the last one, or shares its name. -/
theorem EndsInZero.nameNext_differ (ends : EndsInZero s)
    (state : NamedSoFar s slots done naming names) (leftmost : isLms s pos = true)
    (typed : ∀ p ∈ done, isLms s p = true) (fresh : pos ∉ done)
    (sorted : ∀ p ∈ done, rise s p ≤ rise s pos) :
    ∃ differ : Bool, (match naming.prev with
      | none => pure true
      | some prev => substringsDiffer s (suffixTypes s) pos prev (s.length + 1) 0) =
        (.ok differ : Result Bool) ∧
      (differ = true → ∀ p ∈ done, rise s p < rise s pos) ∧
      (differ = false → ∃ q ∈ done, naming.prev = some q ∧ names q + 1 = naming.name ∧
        rise s q = rise s pos) := by
  rcases state.last with ⟨first, empty, _⟩ | ⟨q, member, previous, name, greatest⟩
  · rw [first, empty]
    exact ⟨true, rfl, by nofun, by nofun⟩
  · have other : pos ≠ q := fun same => fresh (same ▸ member)
    refine ⟨decide (rise s pos ≠ rise s q), ?_, ?_, ?_⟩
    · rw [previous]
      exact ends.substringsDiffer_rise other (lt_length_of_isLms leftmost)
        (lt_length_of_isLms (typed q member)) (fun later => absurd later (lt_irrefl 0)) (by omega)
    · intro differ p found
      have apart : rise s pos ≠ rise s q := of_decide_eq_true differ
      exact lt_of_le_of_lt (greatest p found) (lt_of_le_of_ne (sorted q member) apart.symm)
    · intro equal
      exact ⟨q, member, previous, name, (not_not.mp (of_decide_eq_false equal)).symm⟩

/-- A position behind the others takes a name: a new one, or that of the positions with its
key. -/
theorem NamedSoFar.snoc (state : NamedSoFar s slots done naming names)
    (typed : ∀ p ∈ done, isLms s p = true) (leftmost : isLms s pos = true) (fresh : pos ∉ done)
    (sorted : ∀ p ∈ done, rise s p ≤ rise s pos) (room : pos / 2 < slots) {value next : Nat}
    {prev : Option Nat} (least : naming.name ≤ next) (fits : value < next)
    (onto : ∀ x < next, x < naming.name ∨ x = value)
    (lower : ∀ p ∈ done, rise s p < rise s pos → names p < value)
    (same : ∀ p ∈ done, rise s p = rise s pos → names p = value)
    (last : ∃ q ∈ done ++ [pos], prev = some q ∧ named names pos value q + 1 = next ∧
      rise s q = rise s pos) :
    NamedSoFar s slots (done ++ [pos])
      { name := next, prev, names := naming.names.set (pos / 2) (some value) }
      (named names pos value) where
  slots := by
    dsimp only
    rw [state.slots]
    exact nameSlots_snoc room fresh fun p member =>
      half_ne (typed p member) leftmost fun same => fresh (same ▸ member)
  below p found := by
    rcases mem_append.mp found with here | there
    · rw [named_other fresh here]
      exact lt_of_lt_of_le (state.below p here) least
    · rw [mem_singleton.mp there, named_self]
      exact fits
  onto x bound := by
    rcases onto x bound with before | rfl
    · obtain ⟨p, member, rfl⟩ := state.onto x before
      exact ⟨p, mem_append_left _ member, named_other fresh member⟩
    · exact ⟨pos, mem_append_right _ mem_cons_self, named_self _⟩
  lower p first q second less := by
    rcases mem_append.mp first with here | alone <;> rcases mem_append.mp second with there | single
    · rw [named_other fresh here, named_other fresh there]
      exact state.lower p here q there less
    · rw [mem_singleton.mp single] at less ⊢
      rw [named_self, named_other fresh here]
      exact lower p here less
    · rw [mem_singleton.mp alone] at less
      exact absurd less (not_lt_of_ge (sorted q there))
    · rw [mem_singleton.mp alone, mem_singleton.mp single] at less
      exact absurd less (lt_irrefl _)
  same p first q second equal := by
    rcases mem_append.mp first with here | alone <;> rcases mem_append.mp second with there | single
    · rw [named_other fresh here, named_other fresh there]
      exact state.same p here q there equal
    · rw [mem_singleton.mp single] at equal ⊢
      rw [named_self, named_other fresh here]
      exact same p here equal
    · rw [mem_singleton.mp alone] at equal ⊢
      rw [named_self, named_other fresh there]
      exact (same q there equal.symm).symm
    · rw [mem_singleton.mp alone, mem_singleton.mp single]
  last := by
    obtain ⟨q, member, previous, name, key⟩ := last
    refine .inr ⟨q, member, previous, name, fun p found => ?_⟩
    rw [key]
    rcases mem_append.mp found with here | there
    · exact sorted p here
    · rw [mem_singleton.mp there]

/-- What the naming pass does once the comparison is made. -/
theorem nameNext_of_compared {differ : Bool} (compared : (match naming.prev with
      | none => pure true
      | some prev => substringsDiffer s (suffixTypes s) pos prev (s.length + 1) 0) =
        (.ok differ : Result Bool)) :
    nameNext s (suffixTypes s) naming pos = (do
      let name := if differ then naming.name + 1 else naming.name
      let prev := if differ then some pos else naming.prev
      let value ← Outcome.checked (0 < name) (name - 1)
      let names ← Outcome.store naming.names (pos / 2) (some value)
      pure { name, prev, names }) := by
  unfold nameNext
  cases previous : naming.prev with
  | none =>
    rw [previous] at compared
    cases compared
    rfl
  | some prev =>
    rw [previous] at compared
    dsimp only at compared ⊢
    rw [compared, ok_bind]

/-- The naming pass gives a substring its rank. -/
theorem EndsInZero.nameNext_eq (ends : EndsInZero s) (state : NamedSoFar s slots done naming names)
    (leftmost : isLms s pos = true) (typed : ∀ p ∈ done, isLms s p = true) (fresh : pos ∉ done)
    (sorted : ∀ p ∈ done, rise s p ≤ rise s pos) (room : pos / 2 < slots) :
    ∃ naming' names', nameNext s (suffixTypes s) naming pos = .ok naming' ∧
      NamedSoFar s slots (done ++ [pos]) naming' names' := by
  obtain ⟨differ, compared, larger, equal⟩ := ends.nameNext_differ state leftmost typed fresh sorted
  have width : pos / 2 < naming.names.length := by
    rw [state.slots, nameSlots, length_map, length_range]
    exact room
  rw [nameNext_of_compared compared]
  cases differ with
  | true =>
    have apart : ∀ p ∈ done, rise s p = rise s pos → names p = naming.name :=
      fun p member same => absurd same (ne_of_lt (larger rfl p member))
    refine ⟨_, _, ?_, @NamedSoFar.snoc _ _ _ _ _ pos state typed leftmost fresh sorted room
      naming.name _ (some pos) (Nat.le_succ _) (Nat.lt_succ_self _)
      (fun x bound => Nat.lt_or_eq_of_le (Nat.le_of_lt_succ bound))
      (fun p member _ => state.below p member) apart ⟨pos, mem_append_right _
        mem_cons_self, rfl, congrArg (· + 1) (named_self _), rfl⟩⟩
    change (Outcome.checked (0 < naming.name + 1) naming.name >>= fun value =>
      Outcome.store naming.names (pos / 2) (some value) >>= fun names =>
        pure (Naming.mk (naming.name + 1) (some pos) names)) = _
    rw [checked_eq_ok.mpr ⟨Nat.succ_pos _, rfl⟩, ok_bind, store_of_lt width, ok_bind]
    rfl
  | false =>
    obtain ⟨last, member, previous, name, shared⟩ := equal rfl
    refine ⟨_, _, ?_, @NamedSoFar.snoc _ _ _ _ _ pos state typed leftmost fresh sorted room
      (names last) _ naming.prev (le_refl _) (state.below last member) (fun x bound => .inl bound)
      (fun p here less => state.lower p here last member (shared ▸ less))
      (fun p here same => state.same p here last member (same.trans shared.symm))
      ⟨last, mem_append_left _ member, previous,
        (congrArg (· + 1) (named_other fresh member)).trans name, shared⟩⟩
    have value : naming.name - 1 = names last := by omega
    have positive : 0 < naming.name := by omega
    change (Outcome.checked (0 < naming.name) (naming.name - 1) >>= fun value =>
      Outcome.store naming.names (pos / 2) (some value) >>= fun names =>
        pure (Naming.mk naming.name naming.prev names)) = _
    rw [checked_eq_ok.mpr ⟨positive, rfl⟩, ok_bind, value, store_of_lt width, ok_bind]
    rfl

/-- The naming pass names substrings that come in the order of their keys. -/
theorem EndsInZero.nameAll_eq (ends : EndsInZero s) {rest : List Nat}
    (state : NamedSoFar s slots done naming names) (typed : ∀ p ∈ done ++ rest, isLms s p = true)
    (nodup : (done ++ rest).Nodup) (sorted : (done ++ rest).Pairwise fun p q => rise s p ≤ rise s q)
    (room : ∀ p ∈ rest, p / 2 < slots) :
    ∃ naming' names', rest.foldlM (nameNext s (suffixTypes s)) naming = .ok naming' ∧
      NamedSoFar s slots (done ++ rest) naming' names' := by
  induction rest generalizing done naming names with
  | nil =>
    rw [append_nil]
    exact ⟨naming, names, rfl, state⟩
  | cons pos rest ih =>
    have parts : done ++ pos :: rest = done ++ [pos] ++ rest := append_cons done pos rest
    have fresh : pos ∉ done := fun member =>
      (nodup_append.mp nodup).2.2 pos member pos mem_cons_self rfl
    obtain ⟨naming', names', step, next⟩ := ends.nameNext_eq state
      (typed pos (mem_append_right _ mem_cons_self))
      (fun p member => typed p (mem_append_left _ member)) fresh
      (fun p member => (pairwise_append.mp sorted).2.2 p member pos mem_cons_self)
      (room pos mem_cons_self)
    rw [parts] at typed nodup sorted ⊢
    rw [foldlM_cons, step, ok_bind]
    exact ih next typed nodup sorted fun p later => room p (mem_cons_of_mem _ later)

end Names

end HermesDecomp.SuffixArray
