import Mathlib.Algebra.Ring.Nat
import Mathlib.Data.List.Basic

/-!
# Run lengths

A list of runs gives every position a label: the label of the run that the position falls in,
counting the runs one behind the other, and a blank behind the last run. A reader that gives an
empty run one position all the same reads the runs stretched. Both readings agree exactly when
no label but the blank comes at or behind an empty run.
-/

namespace HermesDecomp.RunLengths

variable {α : Type} (blank : α)

/-- The label of a position. -/
def labelAt : List (α × Nat) → Nat → α
  | [], _ => blank
  | run :: rest, position => if position < run.2 then run.1 else labelAt rest (position - run.2)

/-- How many positions the runs have. -/
def total (runs : List (α × Nat)) : Nat := (runs.map (·.2)).sum

/-- A run with one position at least. -/
def stretch (run : α × Nat) : α × Nat := (run.1, max 1 run.2)

/-- From the first empty run on all labels are blank. -/
def BlankFromEmpty : List (α × Nat) → Prop
  | [] => True
  | run :: rest => if run.2 = 0 then ∀ later ∈ run :: rest, later.1 = blank else BlankFromEmpty rest

/-- A position falls in a run with a label. -/
def FallsIn (runs : List (α × Nat)) (label : α) (position : Nat) : Prop :=
  ∃ before count after, runs = before ++ (label, count) :: after ∧ total before ≤ position ∧
    position < total before + count

@[simp] theorem total_nil : total ([] : List (α × Nat)) = 0 := rfl

@[simp] theorem total_cons (run : α × Nat) (rest : List (α × Nat)) :
    total (run :: rest) = run.2 + total rest := rfl

theorem total_append (first second : List (α × Nat)) :
    total (first ++ second) = total first + total second := by
  rw [total, List.map_append, List.sum_append]
  rfl

variable {blank}

variable {run : α × Nat} {position : Nat}

theorem labelAt_cons_of_lt {rest : List (α × Nat)} (inside : position < run.2)
    : labelAt blank (run :: rest) position = run.1:= if_pos inside

theorem labelAt_cons_of_le {rest : List (α × Nat)} (behind : run.2 ≤ position) :
    labelAt blank (run :: rest) position = labelAt blank rest (position - run.2) :=
  if_neg (Nat.not_lt_of_le behind)

variable {runs : List (α × Nat)}

/-- Behind the last run every label is blank. -/
theorem labelAt_of_total_le (behind : total runs ≤ position)
    : labelAt blank runs position = blank:= by
  induction runs generalizing position with
  | nil => rfl
  | cons run rest ih =>
    rw [total_cons] at behind
    rw [labelAt_cons_of_le (Nat.le_trans (Nat.le_add_right _ _) behind)]
    exact ih (Nat.le_sub_of_add_le' behind)

/-- Runs that follow others are read from the end of those. -/
theorem labelAt_append (first second : List (α × Nat)) (position : Nat) :
    labelAt blank (first ++ second) position =
      if position < total first then labelAt blank first position
      else labelAt blank second (position - total first) := by
  induction first generalizing position with
  | nil => rfl
  | cons run rest ih =>
    rw [List.cons_append, total_cons]
    by_cases inside : position < run.2
    · rw [labelAt_cons_of_lt inside, labelAt_cons_of_lt inside, if_pos (Nat.lt_add_right _ inside)]
    · have behind := Nat.le_of_not_lt inside
      rw [labelAt_cons_of_le behind, labelAt_cons_of_le behind, ih]
      by_cases within : position - run.2 < total rest
      · rw [if_pos within, if_pos (by omega)]
      · rw [if_neg within, if_neg (by omega), Nat.sub_sub]

variable {label : α}

/-- A label that is not blank is read where its runs are. -/
theorem labelAt_eq_iff (marked : label ≠ blank) (runs : List (α × Nat)) (position : Nat)
    : labelAt blank runs position = label ↔ FallsIn runs label position:= by
  constructor
  · intro read
    induction runs generalizing position with
    | nil => exact absurd read.symm marked
    | cons run rest ih =>
      by_cases inside : position < run.2
      · rw [labelAt_cons_of_lt inside] at read
        refine ⟨[], run.2, rest, ?_, Nat.zero_le _, ?_⟩
        · rw [← read, List.nil_append]
        · rwa [total_nil, Nat.zero_add]
      · have behind := Nat.le_of_not_lt inside
        rw [labelAt_cons_of_le behind] at read
        obtain ⟨before, count, after, rfl, low, high⟩ := ih _ read
        refine ⟨run :: before, count, after, rfl, ?_, ?_⟩
        · rw [total_cons]
          omega
        · rw [total_cons]
          omega
  · rintro ⟨before, count, after, rfl, low, high⟩
    rw [labelAt_append, if_neg (Nat.not_lt_of_le low), labelAt_cons_of_lt]
    exact Nat.sub_lt_left_of_lt_add low high

/-- No run is shorter stretched, so that a label comes at the same position or later. -/
theorem exists_stretched (marked : labelAt blank runs position ≠ blank) :
    ∃ later, position ≤ later ∧ labelAt blank (runs.map stretch) later ≠ blank := by
  induction runs generalizing position with
  | nil => exact absurd rfl marked
  | cons run rest ih =>
    rw [List.map_cons]
    by_cases inside : position < run.2
    · refine ⟨position, Nat.le_refl _, ?_⟩
      rw [labelAt_cons_of_lt inside] at marked
      rwa [labelAt_cons_of_lt (Nat.lt_of_lt_of_le inside (Nat.le_max_right _ _))]
    · have behind := Nat.le_of_not_lt inside
      rw [labelAt_cons_of_le behind] at marked
      obtain ⟨later, after, found⟩ := ih marked
      have longer : run.2 ≤ (stretch run).2 := Nat.le_max_right _ _
      refine ⟨later + (stretch run).2, by omega, ?_⟩
      rw [labelAt_cons_of_le (Nat.le_add_left _ _), Nat.add_sub_cancel]
      exact found

/-- Every label has a position once the runs are stretched. -/
theorem exists_position (inside : run ∈ runs) :
    ∃ position, labelAt blank (runs.map stretch) position = run.1 := by
  induction runs with
  | nil => exact absurd inside List.not_mem_nil
  | cons first rest ih =>
    rw [List.map_cons]
    rcases List.mem_cons.mp inside with rfl | inside
    · exact ⟨0, labelAt_cons_of_lt (Nat.lt_of_lt_of_le Nat.zero_lt_one (Nat.le_max_left _ _))⟩
    · obtain ⟨position, found⟩ := ih inside
      refine ⟨position + (stretch first).2, ?_⟩
      rw [labelAt_cons_of_le (Nat.le_add_left _ _), Nat.add_sub_cancel]
      exact found

theorem labelAt_of_blank (plain : ∀ run ∈ runs, run.1 = blank) (position : Nat)
    : labelAt blank runs position = blank:= by
  induction runs generalizing position with
  | nil => rfl
  | cons run rest ih =>
    rw [labelAt, plain run List.mem_cons_self,
      ih fun later inside => plain later (List.mem_cons_of_mem run inside)]
    exact ite_self _

/-- Labels that repeat one position later never end, which finitely many runs cannot do. -/
theorem blank_of_repeats (repeats : ∀ position, labelAt blank runs position ≠ blank →
      ∃ later, position < later ∧ labelAt blank runs later ≠ blank) (position : Nat) :
    labelAt blank runs position = blank := by
  by_contra marked
  have unbounded : ∀ bound, ∃ later, bound ≤ later ∧ labelAt blank runs later ≠ blank := by
    intro bound
    induction bound with
    | zero => exact ⟨position, Nat.zero_le _, marked⟩
    | succ bound ih =>
      obtain ⟨later, past, found⟩ := ih
      obtain ⟨next, further, again⟩ := repeats later found
      exact ⟨next, Nat.lt_of_le_of_lt past further, again⟩
  obtain ⟨later, past, found⟩ := unbounded (total runs)
  exact found (labelAt_of_total_le past)

/-- Stretched runs read as they are exactly when all is blank from the first empty run on. -/
theorem stretched_iff (runs : List (α × Nat)) :
    (∀ position, labelAt blank (runs.map stretch) position = labelAt blank runs position) ↔
      BlankFromEmpty blank runs := by
  induction runs with
  | nil => exact iff_of_true (fun _ => rfl) trivial
  | cons run rest ih =>
    rw [BlankFromEmpty]
    by_cases empty : run.2 = 0
    · rw [if_pos empty]
      constructor
      · intro same later inside
        by_contra marked
        obtain ⟨position, found⟩ := exists_position inside
        have skipped : ∀ place, labelAt blank (run :: rest) place = labelAt blank rest place := by
          intro place
          rw [labelAt_cons_of_le (empty ▸ Nat.zero_le _), empty, Nat.sub_zero]
        refine marked ?_
        rw [← found, same, skipped]
        refine blank_of_repeats ?_ position
        intro place marked
        obtain ⟨next, past, found⟩ := exists_stretched marked
        have one : (stretch run).2 = 1 := by
          rw [stretch, empty]
          rfl
        refine ⟨next + 1, Nat.lt_succ_of_le past, ?_⟩
        rw [← skipped, ← same, List.map_cons, labelAt_cons_of_le (by omega), one,
          Nat.add_sub_cancel]
        exact found
      · intro plain position
        have stretched : ∀ later ∈ (run :: rest).map stretch, later.1 = blank := by
          intro later inside
          obtain ⟨old, member, rfl⟩ := List.mem_map.mp inside
          exact plain old member
        rw [labelAt_of_blank plain, labelAt_of_blank stretched]
    · have kept : stretch run = run := Prod.ext rfl (Nat.max_eq_right (Nat.one_le_iff_ne_zero.mpr empty))
      rw [if_neg empty, ← ih, List.map_cons, kept]
      constructor
      · intro same position
        have shifted := same (position + run.2)
        rwa [labelAt_cons_of_le (Nat.le_add_left _ _), labelAt_cons_of_le (Nat.le_add_left _ _),
          Nat.add_sub_cancel] at shifted
      · intro same position
        rw [labelAt, labelAt, same]

/-- A blank run at the end reads like none. -/
theorem labelAt_blank_end (runs : List (α × Nat)) (count position : Nat) :
    labelAt blank (runs ++ [(blank, count)]) position = labelAt blank runs position := by
  rw [labelAt_append]
  by_cases inside : position < total runs
  · rw [if_pos inside]
  · rw [if_neg inside, labelAt_of_total_le (Nat.le_of_not_lt inside), labelAt, labelAt]
    exact ite_self _

/-- An empty run at the end reads like none. -/
theorem labelAt_empty_end (runs : List (α × Nat)) (label : α) (position : Nat) :
    labelAt blank (runs ++ [(label, 0)]) position = labelAt blank runs position := by
  rw [labelAt_append]
  by_cases inside : position < total runs
  · rw [if_pos inside]
  · rw [if_neg inside, labelAt_of_total_le (Nat.le_of_not_lt inside)]
    exact labelAt_cons_of_le (Nat.zero_le _)

/-- A position reads the label of the last run exactly inside that run, or where the runs before
it read that label. -/
theorem labelAt_end_of_le {count position : Nat} (behind : total runs ≤ position)
    : labelAt blank (runs ++ [(label, count)]) position =
      if position < total runs + count then label else blank := by
  rw [labelAt_append, if_neg (Nat.not_lt_of_le behind), labelAt, labelAt]
  by_cases inside : position < total runs + count
  · rw [if_pos inside, if_pos (Nat.sub_lt_left_of_lt_add behind inside)]
  · rw [if_neg inside, if_neg (by omega)]

/-- Two lengths of a last run that is not blank read the same below a bound exactly when the
bound does not pass the shorter one. -/
theorem end_length_iff (marked : label ≠ blank) (runs : List (α × Nat)) (bound first second : Nat) :
    (∀ position < bound, labelAt blank (runs ++ [(label, first)]) position =
        labelAt blank (runs ++ [(label, second)]) position) ↔
      bound ≤ total runs + min first second ∨ first = second := by
  constructor
  · intro same
    by_contra apart
    rw [not_or] at apart
    obtain ⟨past, differ⟩ := apart
    have read := same (total runs + min first second) (Nat.lt_of_not_le past)
    rw [labelAt_end_of_le (Nat.le_add_right _ _), labelAt_end_of_le (Nat.le_add_right _ _)] at read
    rcases Nat.lt_or_gt_of_ne differ with shorter | longer
    · rw [if_neg (by omega), if_pos (by omega)] at read
      exact marked read.symm
    · rw [if_pos (by omega), if_neg (by omega)] at read
      exact marked read
  · intro near position below
    by_cases before : position < total runs
    · rw [labelAt_append, labelAt_append, if_pos before, if_pos before]
    · have behind := Nat.le_of_not_lt before
      rw [labelAt_end_of_le behind, labelAt_end_of_le behind]
      rcases near with near | same
      · rw [if_pos (by omega), if_pos (by omega)]
      · rw [same]

end HermesDecomp.RunLengths
