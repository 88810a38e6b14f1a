import Mathlib.Data.List.Basic

/-!
# Maps ordered by key

A map from numbers is the list of its entries in increasing key order. Inserting
keeps the order and replaces the value of a key that is present, so two maps
with the same entries are the same list.
-/

namespace HermesDecomp

open List

/-- A map from numbers, as its entries in key order. -/
abbrev OrdMap (α : Type) := List (Nat × α)

namespace OrdMap

variable {α : Type}

/-- Add an entry, or replace the value of its key. -/
def insert (key : Nat) (value : α) : OrdMap α → OrdMap α
  | [] => [(key, value)]
  | (first, old) :: rest =>
      if key < first then (key, value) :: (first, old) :: rest
      else if key = first then (key, value) :: rest
      else (first, old) :: insert key value rest

/-- The value of a key. -/
def get? (map : OrdMap α) (key : Nat) : Option α := map.lookup key

theorem get?_cons (key first : Nat) (value : α) (rest : OrdMap α) :
    get? ((first, value) :: rest) key = if key = first then some value else get? rest key := by
  unfold get?
  rw [lookup_cons]
  by_cases same : key = first
  · simp [same]
  · simp [same, beq_false_of_ne same]

theorem get?_insert_self (key : Nat) (value : α) (map : OrdMap α) :
    get? (insert key value map) key = some value := by
  fun_induction insert key value map with
  | case1 | case2 | case3 => rw [get?_cons, if_pos rfl]
  | case4 first old rest notBefore different ih => rw [get?_cons, if_neg different, ih]

theorem get?_insert_of_ne {key other : Nat} (different : other ≠ key) (value : α) (map : OrdMap α) :
    get? (insert key value map) other = get? map other := by
  fun_induction insert key value map with
  | case1 | case2 => rw [get?_cons, if_neg different]
  | case3 => rw [get?_cons, if_neg different, get?_cons, if_neg different]
  | case4 first old rest notBefore fresh ih => rw [get?_cons, get?_cons, ih]

/-- Looking up after an insertion, with a default. -/
theorem getD_insert (map : OrdMap α) (key other : Nat) (value default : α) :
    ((map.insert key value).get? other).getD default =
      if other = key then value else (map.get? other).getD default := by
  by_cases same : other = key
  · subst same
    rw [get?_insert_self, if_pos rfl, Option.getD_some]
  · rw [get?_insert_of_ne same, if_neg same]

/-- Inserting only a value that is new does what inserting does. -/
theorem getD_insertNew [DecidableEq α] (map : OrdMap α) (key other : Nat) (value default : α) :
    ((if value = (map.get? key).getD default then map
      else map.insert key value).get? other).getD default =
        if other = key then value else (map.get? other).getD default := by
  by_cases known : value = (map.get? key).getD default
  · rw [if_pos known]
    by_cases same : other = key
    · rw [if_pos same, same, known]
    · rw [if_neg same]
  · rw [if_neg known, getD_insert]

/-- Inserting a value for each of some keys gives those keys their values. -/
theorem get?_foldl_insert (value : Nat → α) (keys : List Nat) :
    ∀ (start : OrdMap α) (key : Nat),
      (keys.foldl (fun map key => map.insert key (value key)) start).get? key =
        if key ∈ keys then some (value key) else start.get? key := by
  induction keys with
  | nil => simp
  | cons first rest ih =>
    intro start key
    rw [foldl_cons, ih]
    by_cases later : key ∈ rest
    · simp [later]
    · by_cases same : key = first
      · subst same
        simp [later, get?_insert_self]
      · simp [later, same, get?_insert_of_ne same]

/-- The keys increase. -/
def Ordered (map : OrdMap α) : Prop := map.Pairwise fun entry later => entry.1 < later.1

theorem mem_insert_key {key : Nat} {value : α} {map : OrdMap α} {entry : Nat × α}
    (member : entry ∈ map.insert key value) : entry = (key, value) ∨ entry ∈ map := by
  fun_induction insert key value map with
  | case1 => exact .inl (mem_singleton.mp member)
  | case2 => exact mem_cons.mp member
  | case3 => exact (mem_cons.mp member).imp_right (mem_cons_of_mem _)
  | case4 first old rest notBefore different ih =>
    rcases mem_cons.mp member with here | later
    · exact .inr (here ▸ mem_cons_self)
    · exact (ih later).imp_right (mem_cons_of_mem _)

/-- Inserting keeps the order of the keys. -/
theorem Ordered.insert {map : OrdMap α} (ordered : Ordered map) (key : Nat) (value : α) :
    Ordered (map.insert key value) := by
  fun_induction OrdMap.insert key value map with
  | case1 => exact pairwise_singleton _ _
  | case2 first old rest before =>
    refine pairwise_cons.mpr ⟨?_, ordered⟩
    intro entry member
    rcases mem_cons.mp member with rfl | later
    · exact before
    · exact Nat.lt_trans before ((pairwise_cons.mp ordered).1 entry later)
  | case3 => exact pairwise_cons.mpr (pairwise_cons.mp ordered)
  | case4 first old rest notBefore different ih =>
    obtain ⟨above, orderedRest⟩ := pairwise_cons.mp ordered
    refine pairwise_cons.mpr ⟨?_, ih orderedRest⟩
    intro entry member
    rcases mem_insert_key member with rfl | later
    · dsimp only
      omega
    · exact above entry later

/-- An entry of an ordered map is found under its key. -/
theorem Ordered.mem_iff {map : OrdMap α} (ordered : Ordered map) (key : Nat) (value : α) :
    (key, value) ∈ map ↔ map.get? key = some value := by
  induction map with
  | nil => simp [get?]
  | cons entry rest ih =>
    obtain ⟨first, old⟩ := entry
    obtain ⟨above, orderedRest⟩ := pairwise_cons.mp ordered
    rw [mem_cons, get?_cons, ih orderedRest, Prod.mk.injEq]
    by_cases same : key = first
    · subst same
      have fresh : get? rest key ≠ some value := by
        intro found
        exact Nat.lt_irrefl key (above _ ((ih orderedRest).mpr found))
      simp [fresh, eq_comm]
    · simp [same]

end OrdMap

end HermesDecomp
