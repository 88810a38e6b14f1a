import HermesDecomp.Library.Shelves
import HermesDecomp.Write.SuffixTypes

/-!
# Filling buckets from their ends

The slots of the array are the shelves of the symbols: a bucket is as long as its symbol is
frequent. Positions that are placed at heads stand at the front of their buckets in the
order in which they came, and those that are placed at tails stand at the back in the
opposite order.
-/

namespace HermesDecomp.SuffixArray

open Shelves List Outcome

variable {α : Type}

theorem index_of_getElem? {items : List α} {position : Nat} {value : α}
    (found : items[position]? = some value) :
    (Outcome.index items position : Result α) = .ok value :=
  index_eq_ok.mpr found

theorem store_of_lt {items : List α} {position : Nat} (inside : position < items.length) (value : α)
    : (Outcome.store items position value : Result (List α)) = .ok (items.set position value) :=
  checked_eq_ok.mpr ⟨inside, rfl⟩

/-- A change in a list of values is a change of one of them. -/
theorem set_map_range {k c : Nat} (f g : Nat → α) (inside : c < k)
    (others : ∀ d < k, d ≠ c → g d = f d) :
    ((List.range k).map f).set c (g c) = (List.range k).map g := by
  refine ext_getElem? fun d => ?_
  rw [List.getElem?_set, List.getElem?_map, List.getElem?_map]
  by_cases same : c = d
  · subst same
    rw [if_pos rfl, length_map, length_range, if_pos inside, List.getElem?_range inside]
    rfl
  · rw [if_neg same]
    by_cases below : d < k
    · rw [List.getElem?_range below, Option.map_some, Option.map_some,
        others d below (Ne.symm same)]
    · rw [List.getElem?_eq_none (by rw [length_range]; omega)]
      rfl

theorem getElem?_map_range {k c : Nat} (f : Nat → α) (inside : c < k) :
    ((List.range k).map f)[c]? = some (f c) := by
  rw [List.getElem?_map, List.getElem?_range inside]
  rfl

/-- The counts of the symbols. -/
theorem symbolCounts_eq {s : List Nat} {k : Nat} (below : ∀ symbol ∈ s, symbol < k) :
    symbolCounts s k = .ok ((List.range k).map s.count) := by
  have counted : ∀ rest front : List Nat, (∀ symbol ∈ rest, symbol < k) →
      rest.foldlM (fun count symbol => do
        let seen ← Outcome.index count symbol
        Outcome.store count symbol (seen + 1)) ((List.range k).map front.count) =
        (.ok ((List.range k).map fun c => (front ++ rest).count c) : Result (List Nat)) := by
    intro rest
    induction rest with
    | nil =>
      intro front _
      rw [append_nil]
      rfl
    | cons symbol rest ih =>
      intro front inside
      have here := inside symbol mem_cons_self
      have step : ((List.range k).map front.count).set symbol (front.count symbol + 1) =
          (List.range k).map fun c => (front ++ [symbol]).count c := by
        have grown : (front ++ [symbol]).count symbol = front.count symbol + 1 := by
          rw [count_append, count_singleton_self]
        rw [← grown]
        refine set_map_range front.count (fun c => (front ++ [symbol]).count c) here
          fun c _ other => ?_
        rw [count_append, count_singleton, if_neg (by simp [Ne.symm other])]
        rfl
      rw [foldlM_cons, index_of_getElem? (getElem?_map_range _ here), ok_bind,
        store_of_lt (by simpa using here), ok_bind, step,
        ih (front ++ [symbol])
          fun other later => inside other (mem_cons_of_mem _ later),
        append_assoc, singleton_append]
  have empty : List.replicate k 0 = (List.range k).map fun c => ([] : List Nat).count c := by
    simp [map_const']
  rw [symbolCounts, empty]
  exact counted s [] below

/-- Where the bucket of a symbol begins. -/
def bucketStart (s : List Nat) (c : Nat) : Nat := ((List.range c).map fun d => s.count d).sum

theorem bucketStart_succ (s : List Nat) (c : Nat) :
    bucketStart s (c + 1) = bucketStart s c + s.count c := by
  rw [bucketStart, range_succ, map_append, sum_append, map_singleton, sum_singleton]
  rfl

theorem heads_eq (sum : Nat) (first k : Nat) (size : Nat → Nat) :
    heads sum ((List.range' first k).map size) =
      (List.range' first k).map fun c => sum + ((List.range' first (c - first)).map size).sum := by
  induction k generalizing sum first with
  | zero => rfl
  | succ k ih =>
    rw [List.range'_succ, map_cons, heads, ih, map_cons, Nat.sub_self,
      List.range'_zero, map_nil, sum_nil, add_zero]
    refine congrArg (List.cons sum) (map_congr_left fun c inside => ?_)
    have low : first + 1 ≤ c := (mem_range'_1.mp inside).1
    have count : c - first = (c - (first + 1)) + 1 := by omega
    rw [count, List.range'_succ, map_cons, sum_cons, add_assoc]

theorem tails_eq_heads (sum : Nat) (sizes : List Nat) :
    tails sum sizes = List.zipWith (· + ·) (heads sum sizes) sizes := by
  induction sizes generalizing sum with
  | nil => rfl
  | cons size rest ih => rw [tails, heads, zipWith_cons_cons, ih]

/-- The heads of the buckets. -/
theorem heads_counts (s : List Nat) (k : Nat) :
    heads 0 ((List.range k).map s.count) = (List.range k).map (bucketStart s) := by
  rw [range_eq_range', heads_eq]
  refine map_congr_left fun c _ => ?_
  rw [zero_add, Nat.sub_zero, ← range_eq_range']
  rfl

/-- The tails of the buckets. -/
theorem tails_counts (s : List Nat) (k : Nat) :
    tails 0 ((List.range k).map s.count) =
      (List.range k).map fun c => bucketStart s c + s.count c := by
  rw [tails_eq_heads, heads_counts, zipWith_map, zipWith_self]

/-- The positions of one symbol. -/
def bucket (s : List Nat) (c : Nat) (positions : List Nat) : List Nat :=
  pick (symbolAt s) c positions

/-- Shelves that are as long as the buckets of the symbols. -/
def Sized (s : List Nat) (k : Nat) (shelf : Nat → List (Option Nat)) : Prop :=
  ∀ c < k, (shelf c).length = s.count c

/-- Positions that the buckets have room for. -/
def Fits (s : List Nat) (k : Nat) (positions : List Nat) : Prop :=
  ∀ c < k, (bucket s c positions).length ≤ s.count c

/-- A bucket with positions put at its front. -/
def headShelf (s : List Nat) (base : Nat → List (Option Nat)) (placed : List Nat) (c : Nat) :
    List (Option Nat) :=
  (bucket s c placed).map some ++ (base c).drop (bucket s c placed).length

/-- A bucket with positions put at its back. -/
def tailShelf (s : List Nat) (base : Nat → List (Option Nat)) (placed : List Nat) (c : Nat) :
    List (Option Nat) :=
  (base c).take (s.count c - (bucket s c placed).length) ++ (bucket s c placed).reverse.map some

/-- The array with positions put at the heads of their buckets. -/
def headFilling (s : List Nat) (k : Nat) (base : Nat → List (Option Nat)) (placed : List Nat) :
    Filling :=
  (join k (headShelf s base placed),
    (List.range k).map fun c => bucketStart s c + (bucket s c placed).length)

/-- The array with positions put at the tails of their buckets. -/
def tailFilling (s : List Nat) (k : Nat) (base : Nat → List (Option Nat)) (placed : List Nat) :
    Filling :=
  (join k (tailShelf s base placed),
    (List.range k).map fun c => bucketStart s c + (s.count c - (bucket s c placed).length))

section Filling

variable {s : List Nat} {k : Nat} {base : Nat → List (Option Nat)}

/-- Buckets stand where the ones before them end. -/
theorem Sized.length_join {shelf : Nat → List (Option Nat)} (sized : Sized s k shelf) {c : Nat}
    (inside : c ≤ k) : (join c shelf).length = bucketStart s c := by
  induction c with
  | zero => rfl
  | succ c ih =>
    rw [join_succ, length_append, ih (Nat.le_of_succ_le inside), sized c inside, bucketStart_succ]

/-- A place in a bucket is a slot of the array. -/
theorem Sized.slot_lt {shelf : Nat → List (Option Nat)} (sized : Sized s k shelf) {c place : Nat}
    (inside : c < k) (within : place < s.count c) :
    bucketStart s c + place < (join k shelf).length := by
  have ends : (join c shelf).length + (shelf c).length ≤ (join k shelf).length :=
    length_join_le inside
  rw [sized.length_join (le_of_lt inside), sized c inside] at ends
  omega

variable {placed : List Nat} {position : Nat}

theorem Fits.of_snoc (fits : Fits s k (placed ++ [position])) : Fits s k placed := by
  intro c inside
  refine le_trans ?_ (fits c inside)
  rw [bucket, bucket, pick_append, length_append]
  exact Nat.le_add_right _ _

/-- A position that still fits leaves room in its bucket. -/
theorem Fits.room (fits : Fits s k (placed ++ [position])) (below : symbolAt s position < k) :
    (bucket s (symbolAt s position) placed).length < s.count (symbolAt s position) := by
  have enough := fits (symbolAt s position) below
  rw [bucket, pick_snoc_self, length_append, length_singleton] at enough
  exact enough

theorem headShelf_length (sized : Sized s k base) (fits : Fits s k placed) :
    Sized s k (headShelf s base placed) := by
  intro c inside
  have enough := fits c inside
  rw [headShelf, length_append, length_map, length_drop, sized c inside]
  omega

theorem tailShelf_length (sized : Sized s k base) (fits : Fits s k placed) :
    Sized s k (tailShelf s base placed) := by
  intro c inside
  have enough := fits c inside
  rw [tailShelf, length_append, length_map, length_reverse, length_take, sized c inside]
  omega

theorem headFilling_nil :
    headFilling s k base [] = (join k base, (List.range k).map (bucketStart s)) := rfl

theorem tailFilling_nil (sized : Sized s k base) :
    tailFilling s k base [] =
      (join k base, (List.range k).map fun c => bucketStart s c + s.count c) := by
  unfold tailFilling
  congr 1
  refine join_congr fun c inside => ?_
  have whole : (base c).take (s.count c - (bucket s c []).length) = base c := by
    rw [← sized c inside]
    exact take_length
  rw [tailShelf, whole]
  exact append_nil _

/-- Where the next position of a symbol goes at its head. -/
def headSlot (s : List Nat) (placed : List Nat) (position : Nat) : Nat :=
  bucketStart s (symbolAt s position) + (bucket s (symbolAt s position) placed).length

/-- The array with one more position at a head. -/
theorem headFilling_snoc (sized : Sized s k base) (below : symbolAt s position < k)
    (fits : Fits s k (placed ++ [position])) :
    (headFilling s k base (placed ++ [position])).1 =
      (headFilling s k base placed).1.set (headSlot s placed position) (some position) := by
  have room := fits.room below
  have shelves := headShelf_length sized fits.of_snoc
  have start := shelves.length_join (le_of_lt below)
  rw [headFilling, headFilling, headSlot, ← start]
  refine (set_join below ?_ ?_ ?_).symm
  · rw [shelves _ below]
    exact room
  · have within : (bucket s (symbolAt s position) placed).length <
        (base (symbolAt s position)).length := by
      rw [sized _ below]
      exact room
    have left : (base (symbolAt s position)).drop (bucket s (symbolAt s position) placed).length =
        (base (symbolAt s position))[(bucket s (symbolAt s position) placed).length] ::
          (base (symbolAt s position)).drop ((bucket s (symbolAt s position) placed).length + 1) :=
      drop_eq_getElem_cons within
    have grown : bucket s (symbolAt s position) (placed ++ [position]) =
        bucket s (symbolAt s position) placed ++ [position] := pick_snoc_self (symbolAt s)
    rw [headShelf, headShelf, grown, left, set_append_right _ _ (le_of_eq (length_map some)),
      length_map, Nat.sub_self, set_cons_zero, map_append, append_assoc, length_append]
    rfl
  · intro c _ other
    have same : bucket s c (placed ++ [position]) = bucket s c placed :=
      pick_snoc_other (symbolAt s) other
    rw [headShelf, headShelf, same]

/-- A position is placed at the head of its bucket. -/
theorem placeAtHead_eq (sized : Sized s k base) (inside : position < s.length)
    (below : symbolAt s position < k) (fits : Fits s k (placed ++ [position])) :
    placeAtHead s position (headFilling s k base placed) =
      .ok (headFilling s k base (placed ++ [position])) := by
  have within : headSlot s placed position < (join k (headShelf s base placed)).length :=
    (headShelf_length sized fits.of_snoc).slot_lt below (fits.room below)
  have heads : ((List.range k).map fun c => bucketStart s c + (bucket s c placed).length).set
      (symbolAt s position) (headSlot s placed position + 1) =
        (List.range k).map fun c => bucketStart s c + (bucket s c (placed ++ [position])).length := by
    have grown : headSlot s placed position + 1 = bucketStart s (symbolAt s position) +
        (bucket s (symbolAt s position) (placed ++ [position])).length := by
      rw [headSlot, bucket, bucket, pick_snoc_self, length_append]
      rfl
    rw [grown]
    refine set_map_range (fun c => bucketStart s c + (bucket s c placed).length)
      (fun c => bucketStart s c + (bucket s c (placed ++ [position])).length) below ?_
    intro c _ other
    rw [bucket, pick_snoc_other (symbolAt s) other]
    rfl
  have slots := headFilling_snoc sized below fits
  rw [placeAtHead, index_of_getElem? (symbolAt_getElem? inside), ok_bind, headFilling]
  dsimp only
  rw [index_of_getElem? (getElem?_map_range _ below), ok_bind]
  change (Outcome.store (join k (headShelf s base placed)) (headSlot s placed position)
    (some position) >>= fun sa => Outcome.store _ (symbolAt s position)
      (headSlot s placed position + 1) >>= fun head => pure (sa, head)) = _
  rw [store_of_lt within, ok_bind, store_of_lt (by simpa using below), ok_bind, heads]
  exact congrArg Outcome.ok (Prod.ext slots.symm rfl)

/-- Where the next position of a symbol goes at its tail. -/
def tailSlot (s : List Nat) (placed : List Nat) (position : Nat) : Nat :=
  bucketStart s (symbolAt s position) +
    (s.count (symbolAt s position) - (bucket s (symbolAt s position) placed).length - 1)

/-- The array with one more position at a tail. -/
theorem tailFilling_snoc (sized : Sized s k base) (below : symbolAt s position < k)
    (fits : Fits s k (placed ++ [position])) :
    (tailFilling s k base (placed ++ [position])).1 =
      (tailFilling s k base placed).1.set (tailSlot s placed position) (some position) := by
  have room := fits.room below
  have shelves := tailShelf_length sized fits.of_snoc
  have start := shelves.length_join (le_of_lt below)
  rw [tailFilling, tailFilling, tailSlot, ← start]
  refine (set_join below ?_ ?_ ?_).symm
  · rw [shelves _ below]
    omega
  · have grown : bucket s (symbolAt s position) (placed ++ [position]) =
        bucket s (symbolAt s position) placed ++ [position] := pick_snoc_self (symbolAt s)
    have length := sized _ below
    have within : s.count (symbolAt s position) -
        (bucket s (symbolAt s position) placed).length - 1 < (base (symbolAt s position)).length := by
      omega
    have left : (base (symbolAt s position)).take
        (s.count (symbolAt s position) - (bucket s (symbolAt s position) placed).length) =
        (base (symbolAt s position)).take
          (s.count (symbolAt s position) - (bucket s (symbolAt s position) placed).length - 1) ++
            [(base (symbolAt s position))[s.count (symbolAt s position) -
              (bucket s (symbolAt s position) placed).length - 1]] := by
      have count : s.count (symbolAt s position) - (bucket s (symbolAt s position) placed).length =
          s.count (symbolAt s position) - (bucket s (symbolAt s position) placed).length - 1 + 1 := by
        omega
      conv_lhs => rw [count]
      rw [take_add_one, List.getElem?_eq_getElem (by omega)]
      rfl
    rw [tailShelf, tailShelf, grown, left, length_append, length_singleton, append_assoc,
      set_append_right _ _ (by rw [length_take]; omega), length_take,
      Nat.min_eq_left (by omega), Nat.sub_self, reverse_append]
    rfl
  · intro c _ other
    have same : bucket s c (placed ++ [position]) = bucket s c placed :=
      pick_snoc_other (symbolAt s) other
    rw [tailShelf, tailShelf, same]

/-- A position is placed at the tail of its bucket. -/
theorem placeAtTail_eq (sized : Sized s k base) (inside : position < s.length)
    (below : symbolAt s position < k) (fits : Fits s k (placed ++ [position])) :
    placeAtTail s position (tailFilling s k base placed) =
      .ok (tailFilling s k base (placed ++ [position])) := by
  have room := fits.room below
  have within : tailSlot s placed position < (join k (tailShelf s base placed)).length :=
    (tailShelf_length sized fits.of_snoc).slot_lt below (by omega)
  have tails : ((List.range k).map fun c =>
      bucketStart s c + (s.count c - (bucket s c placed).length)).set
      (symbolAt s position) (tailSlot s placed position) =
        (List.range k).map fun c =>
          bucketStart s c + (s.count c - (bucket s c (placed ++ [position])).length) := by
    have grown : tailSlot s placed position = bucketStart s (symbolAt s position) +
        (s.count (symbolAt s position) -
          (bucket s (symbolAt s position) (placed ++ [position])).length) := by
      rw [tailSlot, bucket, bucket, pick_snoc_self, length_append, length_singleton, Nat.sub_sub]
    rw [grown]
    refine set_map_range (fun c => bucketStart s c + (s.count c - (bucket s c placed).length))
      (fun c => bucketStart s c + (s.count c - (bucket s c (placed ++ [position])).length)) below ?_
    intro c _ other
    rw [bucket, pick_snoc_other (symbolAt s) other]
    rfl
  have slots := tailFilling_snoc sized below fits
  have positive : 0 < bucketStart s (symbolAt s position) +
      (s.count (symbolAt s position) - (bucket s (symbolAt s position) placed).length) := by
    omega
  have previous : bucketStart s (symbolAt s position) +
      (s.count (symbolAt s position) - (bucket s (symbolAt s position) placed).length) - 1 =
        tailSlot s placed position := by
    rw [tailSlot]
    omega
  rw [placeAtTail, index_of_getElem? (symbolAt_getElem? inside), ok_bind, tailFilling]
  dsimp only
  rw [index_of_getElem? (getElem?_map_range _ below), ok_bind,
    checked_eq_ok.mpr ⟨positive, rfl⟩, ok_bind, previous,
    store_of_lt (by simpa using below), ok_bind, tails, store_of_lt within, ok_bind]
  exact congrArg Outcome.ok (Prod.ext slots.symm rfl)

/-- Positions are placed at the tails of their buckets, one after the other. -/
theorem placeAtTails_eq (sized : Sized s k base) {positions : List Nat}
    (inside : ∀ position ∈ positions, position < s.length) (below : ∀ symbol ∈ s, symbol < k)
    (fits : Fits s k (placed ++ positions)) :
    positions.foldlM (fun filling position => placeAtTail s position filling)
        (tailFilling s k base placed) =
      .ok (tailFilling s k base (placed ++ positions)) := by
  induction positions generalizing placed with
  | nil =>
    rw [append_nil]
    rfl
  | cons position rest ih =>
    have here := inside position mem_cons_self
    have small : symbolAt s position < k := below _ (mem_of_getElem? (symbolAt_getElem? here))
    have parts : placed ++ position :: rest = placed ++ [position] ++ rest := by simp
    have first : Fits s k (placed ++ [position]) := by
      intro c within
      have enough := fits c within
      rw [parts, bucket, pick_append, length_append] at enough
      exact Nat.le_trans (Nat.le_add_right _ _) enough
    rw [parts] at fits
    rw [foldlM_cons, placeAtTail_eq sized here small first, ok_bind, parts,
      ih (fun other later => inside other (mem_cons_of_mem _ later)) fits]

end Filling

end HermesDecomp.SuffixArray
