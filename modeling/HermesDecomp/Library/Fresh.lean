import Mathlib.Data.List.Nodup
import Mathlib.Data.List.Perm.Subperm
import Std.Data.String.ToNat

/-!
# Searching for a name nobody has

Candidates are tried one number after the other. Among one more candidate than names
taken there is a free one, so the search ends, and it ends at a name that is not taken.
-/

namespace HermesDecomp

namespace Fresh

variable {α : Type} [DecidableEq α]

/-- The first number from the given one on whose candidate is not taken. -/
def search (taken : List α) (candidate : Nat → α) : Nat → Nat → Nat
  | 0, number => number
  | fuel + 1, number =>
      if candidate number ∈ taken then search taken candidate fuel (number + 1) else number

/-- The first candidate from the given number on that is not taken. -/
def firstFree (taken : List α) (candidate : Nat → α) (number : Nat) : α :=
  candidate (search taken candidate taken.length number)

/-- The search starts at the given number. -/
theorem le_search (taken : List α) (candidate : Nat → α) (fuel number : Nat) :
    number ≤ search taken candidate fuel number := by
  induction fuel generalizing number with
  | zero => exact Nat.le_refl number
  | succ fuel ih =>
    unfold search
    split
    · exact Nat.le_of_succ_le (ih (number + 1))
    · exact Nat.le_refl number

/-- A search that ends at a taken name has found every name before it taken. -/
theorem taken_of_search {taken : List α} {candidate : Nat → α} {fuel number : Nat}
    (found : candidate (search taken candidate fuel number) ∈ taken) :
    ∀ offset ≤ fuel, candidate (number + offset) ∈ taken := by
  induction fuel generalizing number with
  | zero =>
    intro offset bound
    rw [Nat.le_zero.mp bound]
    exact found
  | succ fuel ih =>
    unfold search at found
    split at found
    · rename_i first
      intro offset bound
      cases offset with
      | zero => exact first
      | succ offset =>
        have later := ih found offset (Nat.le_of_succ_le_succ bound)
        rwa [Nat.add_right_comm, Nat.add_assoc] at later
    · rename_i free
      exact absurd found free

/-- The name found is not taken. -/
theorem firstFree_notMem (taken : List α) {candidate : Nat → α}
    (injective : ∀ number number', candidate number = candidate number' → number = number')
    (number : Nat) : firstFree taken candidate number ∉ taken := by
  intro found
  have allTaken := taken_of_search found
  have distinct : ((List.range (taken.length + 1)).map (candidate <| number + ·)).Nodup := by
    refine List.Nodup.map ?_ List.nodup_range
    intro offset offset' same
    exact Nat.add_left_cancel (injective _ _ same)
  have inside : (List.range (taken.length + 1)).map (candidate <| number + ·) ⊆ taken := by
    intro name member
    obtain ⟨offset, bound, rfl⟩ := List.mem_map.mp member
    exact allTaken offset (Nat.le_of_lt_succ (List.mem_range.mp bound))
  have lengths := (distinct.subperm inside).length_le
  rw [List.length_map, List.length_range] at lengths
  exact Nat.not_succ_le_self _ lengths

/-- The name found is one of the candidates. -/
theorem firstFree_eq (taken : List α) (candidate : Nat → α) (number : Nat) :
    ∃ number', number ≤ number' ∧ firstFree taken candidate number = candidate number' :=
  ⟨_, le_search taken candidate taken.length number, rfl⟩

/-- Names numbered behind a common beginning are distinct. -/
theorem numbered_injective (beginning : String) (number number' : Nat)
    (same : beginning ++ toString number = beginning ++ toString number') : number = number' := by
  have digits := (String.append_right_inj beginning).mp same
  exact Nat.repr_injective digits

end Fresh

end HermesDecomp
