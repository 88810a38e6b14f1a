import Mathlib.Algebra.Ring.Nat
import Mathlib.Data.List.Perm.Basic

/-!
# Shelves of a list

A list may consist of shelves that stand one behind the other. A place in the list is a
place on one shelf; a change there changes that shelf only. Items that are sorted on
shelves by a key are the same items in another order.
-/

namespace HermesDecomp.Shelves

open List

variable {α : Type}

/-- The first shelves, one behind the other. -/
def join (count : Nat) (shelf : Nat → List α) : List α := (List.range count).flatMap shelf

theorem join_succ (count : Nat) (shelf : Nat → List α) :
    join (count + 1) shelf = join count shelf ++ shelf count := by
  rw [join, range_succ, flatMap_append, flatMap_singleton]
  rfl

theorem join_add (first second : Nat) (shelf : Nat → List α) :
    join (first + second) shelf = join first shelf ++ join second fun c => shelf (first + c) := by
  rw [join, range_add, flatMap_append, flatMap_map]
  rfl

variable {count : Nat}

/-- Equal shelves make equal lists. -/
theorem join_congr {left right : Nat → List α} (same : ∀ c < count, left c = right c) :
    join count left = join count right := by
  induction count with
  | zero => rfl
  | succ count ih =>
    rw [join_succ, join_succ, same count (Nat.lt_succ_self count),
      ih fun c below => same c (Nat.lt_succ_of_lt below)]

/-- The list in front of a shelf, the shelf, and what stands behind it. -/
theorem join_split {count c : Nat} (inside : c < count) (shelf : Nat → List α) :
    join count shelf = join c shelf ++ (shelf c ++ join (count - c - 1) fun d => shelf (c + 1 + d)) := by
  have parts : count = c + 1 + (count - c - 1) := by omega
  conv_lhs => rw [parts]
  rw [join_add, join_succ, append_assoc]

variable {shelf : Nat → List α} {item : α}

theorem mem_join : item ∈ join count shelf ↔ ∃ c < count, item ∈ shelf c := by simp [join]

/-- Shelves as long as others make a list as long as theirs. -/
theorem length_join_congr {β : Type} {left : Nat → List α} {right : Nat → List β}
    (same : ∀ c < count, (left c).length = (right c).length) :
    (join count left).length = (join count right).length := by
  induction count with
  | zero => rfl
  | succ count ih =>
    rw [join_succ, join_succ, length_append, length_append, same count (Nat.lt_succ_self count),
      ih fun c below => same c (Nat.lt_succ_of_lt below)]

/-- A shelf ends before a later one begins. -/
theorem length_join_le {first second : Nat} (before : first < second) :
    (join first shelf).length + (shelf first).length ≤ (join second shelf).length := by
  rw [join_split before, length_append, length_append]
  omega

/-- What stands at a place of a shelf. -/
theorem getElem?_join {count c place : Nat} (inside : c < count) (within : place < (shelf c).length) :
    (join count shelf)[(join c shelf).length + place]? = (shelf c)[place]? := by
  rw [join_split inside, List.getElem?_append_right (Nat.le_add_right _ _), Nat.add_sub_cancel_left,
    List.getElem?_append_left within]

/-- A change at a place of a shelf changes that shelf only. -/
theorem set_join {count c place : Nat} {shelf changed : Nat → List α} (inside : c < count)
    (within : place < (shelf c).length) (here : changed c = (shelf c).set place item)
    (others : ∀ d < count, d ≠ c → changed d = shelf d) :
    (join count shelf).set ((join c shelf).length + place) item = join count changed := by
  have front : join c shelf = join c changed :=
    join_congr fun d below => (others d (Nat.lt_trans below inside) (Nat.ne_of_lt below)).symm
  have back : (join (count - c - 1) fun d => shelf (c + 1 + d)) =
      join (count - c - 1) fun d => changed (c + 1 + d) :=
    join_congr fun d below => (others (c + 1 + d) (by omega) (by omega)).symm
  rw [join_split inside shelf, join_split inside changed, ← front, ← back, here,
    set_append_right _ _ (Nat.le_add_right _ _), Nat.add_sub_cancel_left,
    set_append_left _ _ within]

/-- Every place of the list is a place of a shelf. -/
theorem locate {count place : Nat} (inside : place < (join count shelf).length) :
    ∃ c < count, ∃ within < (shelf c).length, place = (join c shelf).length + within := by
  induction count with
  | zero => exact (Nat.not_lt_zero _ inside).elim
  | succ count ih =>
    by_cases before : place < (join count shelf).length
    · obtain ⟨c, below, found⟩ := ih before
      exact ⟨c, Nat.lt_succ_of_lt below, found⟩
    · rw [join_succ, length_append] at inside
      exact ⟨count, Nat.lt_succ_self count, place - (join count shelf).length, by omega, by omega⟩

/-- What is chosen from the list is chosen from its shelves. -/
theorem filterMap_join {β : Type} (choose : α → Option β) (count : Nat) (shelf : Nat → List α) :
    (join count shelf).filterMap choose = join count fun c => (shelf c).filterMap choose := by
  induction count with
  | zero => rfl
  | succ count ih => rw [join_succ, join_succ, filterMap_append, ih]

theorem join_replicate (size : Nat → Nat) (count : Nat) (item : α) :
    (join count fun c => List.replicate (size c) item) =
      List.replicate ((List.range count).map size).sum item := by
  induction count with
  | zero => rfl
  | succ count ih =>
    rw [join_succ, ih, replicate_append_replicate, range_succ,
      map_append, sum_append, map_singleton, sum_singleton]

variable (key : α → Nat)

/-- The items of one key, in their order. -/
def pick (c : Nat) (items : List α) : List α := items.filter fun item => key item == c

variable {c : Nat} {items : List α}

theorem mem_pick : item ∈ pick key c items ↔ item ∈ items ∧ key item = c := by
  rw [pick, mem_filter, beq_iff_eq]

@[simp] theorem pick_nil (c : Nat) : pick key c [] = [] := rfl

theorem pick_append (c : Nat) (left right : List α) :
    pick key c (left ++ right) = pick key c left ++ pick key c right := filter_append _ _

theorem pick_reverse (c : Nat) (items : List α) :
    pick key c items.reverse = (pick key c items).reverse := filter_reverse

theorem pick_sublist (c : Nat) (items : List α) : (pick key c items).Sublist items := filter_sublist

/-- An item joins the items of its own key. -/
theorem pick_snoc_self :
    pick key (key item) (items ++ [item]) = pick key (key item) items ++ [item] := by
  have alone : pick key (key item) [item] = [item] := filter_cons_of_pos (beq_self_eq_true _)
  rw [pick_append, alone]

theorem pick_snoc_other (other : c ≠ key item) :
    pick key c (items ++ [item]) = pick key c items := by
  have differs : ¬ (key item == c) = true := by
    rw [beq_iff_eq]
    exact other.symm
  have absent : pick key c [item] = [] := filter_cons_of_neg differs
  rw [pick_append, absent, append_nil]

theorem pick_cons_other (other : c ≠ key item) : pick key c (item :: items) = pick key c items := by
  have alone : pick key c ([] ++ [item]) = pick key c [] := pick_snoc_other key other
  rw [nil_append] at alone
  rw [← singleton_append, pick_append, alone]
  rfl

/-- The items sorted on shelves are the items. -/
theorem join_pick_perm (below : ∀ item ∈ items, key item < count) :
    (join count fun c => pick key c items).Perm items := by
  induction items with
  | nil =>
    rw [join_congr fun c _ => pick_nil key c]
    have empty : (join count fun _ => ([] : List α)) = [] := by
      rw [eq_nil_iff_forall_not_mem]
      intro item found
      obtain ⟨_, _, absent⟩ := mem_join.mp found
      exact not_mem_nil absent
    rw [empty]
  | cons first rest ih =>
    have later := ih fun item inside => below item (mem_cons_of_mem _ inside)
    have first_below := below first mem_cons_self
    have shelf : (join count fun c => pick key c (first :: rest)).Perm
        (join count fun c => pick key c [first] ++ pick key c rest) :=
      .of_eq (join_congr fun c _ => pick_append key c [first] rest)
    have single : (join count fun c => pick key c [first]) = [first] := by
      have front : (join (key first) fun c => pick key c [first]) = [] := by
        rw [eq_nil_iff_forall_not_mem]
        intro item found
        obtain ⟨c, before, at_c⟩ := mem_join.mp found
        obtain ⟨same, rfl⟩ := (mem_pick key).mp at_c
        exact Nat.ne_of_lt before (congrArg key (mem_singleton.mp same))
      have back : (join (count - key first - 1) fun d => pick key (key first + 1 + d) [first]) =
          [] := by
        rw [eq_nil_iff_forall_not_mem]
        intro item found
        obtain ⟨d, _, at_d⟩ := mem_join.mp found
        obtain ⟨same, stands⟩ := (mem_pick key).mp at_d
        rw [mem_singleton.mp same] at stands
        omega
      rw [join_split first_below, front, back, nil_append, append_nil]
      exact filter_cons_of_pos (beq_self_eq_true _)
    exact shelf.trans ((flatMap_append_perm ..).symm.trans (List.Perm.append (.of_eq single) later))

/-- Two collections sorted on the same shelves are both collections. -/
theorem join_append_perm {left right : Nat → List α} :
    (join count fun c => left c ++ right c).Perm (join count left ++ join count right) :=
  (flatMap_append_perm ..).symm

/-- What holds along every shelf and from every shelf to the later ones holds along the
list. -/
theorem pairwise_join {R : α → α → Prop} (along : ∀ c < count, (shelf c).Pairwise R)
    (across : ∀ c d, c < d → d < count → ∀ x ∈ shelf c, ∀ y ∈ shelf d, R x y) :
    (join count shelf).Pairwise R := by
  rw [join, pairwise_flatMap]
  refine ⟨fun c inside => along c (mem_range.mp inside), ?_⟩
  refine pairwise_lt_range.imp_of_mem ?_
  intro c d _ inside before
  exact across c d before (mem_range.mp inside)

end HermesDecomp.Shelves
