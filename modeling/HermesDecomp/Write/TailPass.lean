import Mathlib.Data.List.Nodup
import HermesDecomp.Write.BucketFilling

/-!
# The pass from the right

The second pass finds the L-type positions at the front of their buckets and leftmost S-type ones
that are left over at the back. The left over ones place nothing: an L-type position stands before
each of them.
-/

namespace HermesDecomp.SuffixArray

open Shelves List

/-!
Leftmost S-type positions stand at the tails of their buckets, in some order. The first pass goes
through the slots from the left and puts the L-type position before each one it finds at the head
of its bucket; the second pass goes from the right and puts the S-type ones at the tails. A slot
is read after it has got its last value.
-/

/-- The position before another one, where it has the type asked for. -/
def before (s : List Nat) (wanted : Bool) : Nat → Option Nat
  | 0 => none
  | position + 1 => if isS s position = wanted then some position else none

theorem before_eq_some {s : List Nat} {wanted : Bool} {position previous : Nat} :
    before s wanted position = some previous ↔
      position = previous + 1 ∧ isS s previous = wanted := by
  cases position with
  | zero => simp [before]
  | succ position =>
    rw [before]
    split
    case isTrue typed =>
      rw [Option.some.injEq, Nat.succ.injEq]
      exact ⟨fun same => ⟨same, same ▸ typed⟩, And.left⟩
    case isFalse typed =>
      refine iff_of_false (by nofun) ?_
      rintro ⟨same, other⟩
      exact typed (Nat.succ.inj same ▸ other)

/-- Positions that are different have different ones before them. -/
theorem filterMap_before_nodup {s : List Nat} {wanted : Bool} {positions : List Nat}
    (nodup : positions.Nodup) : (positions.filterMap (before s wanted)).Nodup := by
  refine List.Nodup.filterMap (fun first second previous here there => ?_) nodup
  rw [Option.mem_def, before_eq_some] at here there
  rw [here.1, there.1]

/-- The leftmost S-type positions, in some order. -/
structure LmsOrder (s : List Nat) (order : List Nat) : Prop where
  nodup : order.Nodup
  mem_iff : ∀ position, position ∈ order ↔ isLms s position = true

section Room

variable {s : List Nat} {k : Nat}

theorem eq_map_symbolAt (s : List Nat) : s = (List.range s.length).map (symbolAt s) := by
  refine ext_getElem? fun i => ?_
  by_cases inside : i < s.length
  · rw [getElem?_map_range _ inside, symbolAt_getElem? inside]
  · rw [List.getElem?_eq_none (Nat.le_of_not_lt inside), List.getElem?_eq_none (by simpa using inside)]

/-- A bucket holds as many positions as its symbol is frequent. -/
theorem bucket_range_length (s : List Nat) (c : Nat) :
    (bucket s c (List.range s.length)).length = s.count c := by
  rw [count_eq_length_filter]
  conv_rhs => rw [eq_map_symbolAt s]
  rw [filter_map, length_map]
  rfl

/-- Positions that are all different fit into their buckets. -/
theorem fits_of_nodup {positions : List Nat} (nodup : positions.Nodup)
    (inside : ∀ position ∈ positions, position < s.length) : Fits s k positions := by
  intro c _
  rw [← bucket_range_length]
  refine (subperm_of_subset (nodup.sublist (pick_sublist (symbolAt s) c positions))
    fun position found => ?_).length_le
  obtain ⟨member, same⟩ := (mem_pick (symbolAt s)).mp found
  exact (mem_pick (symbolAt s)).mpr ⟨mem_range.mpr (inside position member), same⟩

theorem Fits.append_le {left right : List Nat} (fits : Fits s k (left ++ right)) {c : Nat}
    (inside : c < k) : (bucket s c left).length + (bucket s c right).length ≤ s.count c := by
  have enough := fits c inside
  rw [bucket, pick_append, length_append] at enough
  exact enough

theorem symbolAt_lt {position : Nat} (below : ∀ symbol ∈ s, symbol < k)
    (inside : position < s.length) : symbolAt s position < k :=
  below _ (mem_of_getElem? (symbolAt_getElem? inside))

/-- The buckets fill the array. -/
theorem bucketStart_all (below : ∀ symbol ∈ s, symbol < k) : bucketStart s k = s.length := by
  have sorted := (join_pick_perm id below).length_eq
  rw [← sorted]
  have sizes : (join k fun c => pick id c s).length =
      (join k fun c => List.replicate (s.count c) ()).length :=
    length_join_congr fun c _ => by
      rw [length_replicate, count_eq_length_filter]
      rfl
  rw [sizes, join_replicate, length_replicate]
  rfl

/-- The slots before anything but the leftmost S-type positions is placed. -/
def lmsShelf (s : List Nat) (order : List Nat) (c : Nat) : List (Option Nat) :=
  List.replicate (s.count c - (bucket s c order).length) none ++ (bucket s c order).map some

theorem lmsShelf_sized {order : List Nat} (fits : Fits s k order) : Sized s k (lmsShelf s order) := by
  intro c inside
  have enough := fits c inside
  rw [lmsShelf, length_append, length_replicate, length_map]
  omega

/-- Positions that are dropped at the tails stand at the back of their buckets, the last one
first. -/
theorem dropAtTails_eq (below : ∀ symbol ∈ s, symbol < k) {order : List Nat} (nodup : order.Nodup)
    (inside : ∀ position ∈ order, position < s.length) :
    dropAtTails s ((List.range k).map s.count) order.reverse =
      .ok (join k (lmsShelf s order)) := by
  have sized : Sized s k fun c => List.replicate (s.count c) none := fun c _ => length_replicate
  have fits : Fits s k ([] ++ order.reverse) :=
    fits_of_nodup (nodup_reverse.mpr nodup) fun position found =>
      inside position (mem_reverse.mp found)
  have start : (List.replicate s.length none, tails 0 ((List.range k).map s.count)) =
      tailFilling s k (fun c => List.replicate (s.count c) none) [] := by
    rw [tailFilling_nil sized, tails_counts, join_replicate]
    exact congrArg (fun length => (List.replicate length none, _)) (bucketStart_all below).symm
  rw [dropAtTails, start, placeAtTails_eq sized
    (fun position found => inside position (mem_reverse.mp found)) below fits, Outcome.ok_bind]
  refine congrArg Outcome.ok (join_congr fun c _ => ?_)
  rw [nil_append, tailShelf, lmsShelf, bucket, pick_reverse, length_reverse,
    reverse_reverse, take_replicate, min_eq_left (Nat.sub_le _ _)]
  rfl

end Room

section Passes

variable {s : List Nat} {k : Nat}

/-- What a pass finds in a slot. -/
theorem predecessor_eq {sa : List (Option Nat)} {i : Nat} {wanted : Bool} {content : Option Nat}
    (found : sa[i]? = some content)
    (inside : ∀ position, content = some position → position ≤ s.length) :
    predecessor (suffixTypes s) wanted sa i = .ok (content.bind (before s wanted)) := by
  rw [predecessor, index_of_getElem? found, Outcome.ok_bind]
  match content, inside with
  | none, _ | some 0, _ => rfl
  | some (position + 1), inside =>
    have within : position < s.length := inside _ rfl
    dsimp only
    rw [index_of_getElem? (suffixTypes_getElem? within)]
    rfl

/-- A step of the first pass. -/
def headStep (s : List Nat) (filling : Filling) (i : Nat) : Result Filling := do
  match ← predecessor (suffixTypes s) false filling.1 i with
  | some position => placeAtHead s position filling
  | none => pure filling

/-- A step of the second pass. -/
def tailStep (s : List Nat) (filling : Filling) (i : Nat) : Result Filling := do
  match ← predecessor (suffixTypes s) true filling.1 i with
  | some position => placeAtTail s position filling
  | none => pure filling

/-- The slots after L-type positions were placed. -/
def headSlots (s : List Nat) (k : Nat) (order placed : List Nat) : List (Option Nat) :=
  join k (headShelf s (lmsShelf s order) placed)

/-- What the first pass has placed when it comes to a slot. -/
structure HeadsPlaced (s : List Nat) (k : Nat) (order placed : List Nat) (i : Nat) : Prop where
  scanned : placed = ((headSlots s k order placed).take i).filterMap (·.bind (before s false))
  nodup : (placed ++ order).Nodup
  large : ∀ position ∈ placed, isS s position = false
  inside : ∀ position ∈ placed, position < s.length

variable {order placed : List Nat} {i : Nat}

/-- The bucket of a symbol holds the positions that were placed, free slots, and the leftmost
S-type positions. -/
theorem headShelf_eq {c : Nat}
    (room : (bucket s c placed).length + (bucket s c order).length ≤ s.count c) :
    headShelf s (lmsShelf s order) placed c = (bucket s c placed).map some ++
      (List.replicate (s.count c - (bucket s c order).length - (bucket s c placed).length) none ++
        (bucket s c order).map some) := by
  rw [headShelf, lmsShelf, drop_append_of_le_length (by rw [length_replicate]; omega),
    drop_replicate]

/-- A position in a slot was placed, or is leftmost S-type. -/
theorem mem_headShelf {c : Nat} {position : Nat}
    (room : (bucket s c placed).length + (bucket s c order).length ≤ s.count c)
    (found : some position ∈ headShelf s (lmsShelf s order) placed c) :
    (position ∈ placed ∨ position ∈ order) ∧ symbolAt s position = c := by
  rw [headShelf_eq room, mem_append, mem_append, mem_replicate] at found
  rcases found with here | ⟨_, absent⟩ | there
  · obtain ⟨other, member, same⟩ := mem_map.mp here
    cases same
    obtain ⟨member, symbol⟩ := (mem_pick (symbolAt s)).mp member
    exact ⟨.inl member, symbol⟩
  · cases absent
  · obtain ⟨other, member, same⟩ := mem_map.mp there
    cases same
    obtain ⟨member, symbol⟩ := (mem_pick (symbolAt s)).mp member
    exact ⟨.inr member, symbol⟩

/-- What a pass chooses from the slots it chooses from the positions in them. -/
theorem filterMap_headSlots {f : Nat → Option Nat} (fits : Fits s k (placed ++ order)) :
    (headSlots s k order placed).filterMap (·.bind f) =
      (join k fun c => bucket s c placed ++ bucket s c order).filterMap f := by
  rw [headSlots, filterMap_join, filterMap_join]
  refine join_congr fun c inside => ?_
  rw [headShelf_eq (fits.append_le inside), filterMap_append, filterMap_append, filterMap_append,
    filterMap_map, filterMap_map, filterMap_replicate_of_none rfl, nil_append]
  rfl

namespace HeadsPlaced

section

variable (state : HeadsPlaced s k order placed i) (lms : LmsOrder s order)

include state lms

/-- The positions in the slots are all different and fit. -/
theorem fits : Fits s k (placed ++ order) := by
  refine fits_of_nodup state.nodup fun position found => ?_
  rcases mem_append.mp found with here | there
  · exact state.inside position here
  · exact lt_length_of_isLms ((lms.mem_iff position).mp there)

/-- A slot is a place in the bucket of the symbol of the position in it. -/
theorem place_of_slot {position : Nat}
    (found : (headSlots s k order placed)[i]? = some (some position)) :
    symbolAt s position < k ∧ ∃ place < s.count (symbolAt s position),
      i = bucketStart s (symbolAt s position) + place ∧
        (position ∈ placed ∧ place < (bucket s (symbolAt s position) placed).length ∨
          position ∈ order) ∧ position < s.length := by
  have fits := state.fits lms
  have small : Fits s k placed := fun c inside =>
    Nat.le_trans (Nat.le_add_right _ _) (fits.append_le inside)
  have orderFits : Fits s k order := fun c inside =>
    le_trans (Nat.le_add_left _ _) (fits.append_le inside)
  have sized := headShelf_length (lmsShelf_sized orderFits) small
  obtain ⟨inside, _⟩ := List.getElem?_eq_some_iff.mp found
  obtain ⟨c, below, place, within, rfl⟩ := locate inside
  rw [headSlots, getElem?_join below within] at found
  have room := fits.append_le below
  obtain ⟨member, rfl⟩ := mem_headShelf room (mem_of_getElem? found)
  rw [sized _ below] at within
  refine ⟨below, place, within, by rw [sized.length_join (le_of_lt below)], ?_, ?_⟩
  · by_cases front : place < (bucket s (symbolAt s position) placed).length
    · rw [headShelf, List.getElem?_append_left (by rw [length_map]; exact front),
        List.getElem?_map, Option.map_eq_some_iff] at found
      obtain ⟨other, at_place, same⟩ := found
      cases same
      exact .inl ⟨((mem_pick (symbolAt s)).mp (mem_of_getElem? at_place)).1, front⟩
    · rw [headShelf_eq room, List.getElem?_append_right (by rw [length_map]; omega)] at found
      have behind := mem_of_getElem? found
      rw [mem_append, mem_replicate] at behind
      rcases behind with ⟨_, absent⟩ | there
      · cases absent
      · obtain ⟨other, stands, same⟩ := mem_map.mp there
        cases same
        exact .inr ((mem_pick (symbolAt s)).mp stands).1
  · rcases member with here | there
    · exact state.inside position here
    · exact lt_length_of_isLms ((lms.mem_iff position).mp there)

/-- The slots are as many as the symbols. -/
theorem length_headSlots (below : ∀ symbol ∈ s, symbol < k) :
    (headSlots s k order placed).length = s.length := by
  have fits := state.fits lms
  have small : Fits s k placed := fun c inside =>
    Nat.le_trans (Nat.le_add_right _ _) (fits.append_le inside)
  have orderFits : Fits s k order := fun c inside =>
    le_trans (Nat.le_add_left _ _) (fits.append_le inside)
  rw [headSlots, (headShelf_length (lmsShelf_sized orderFits) small).length_join (le_refl k),
    bucketStart_all below]

/-- The positions in the slots are the ones that were placed and the leftmost S-type ones. -/
theorem join_perm (below : ∀ symbol ∈ s, symbol < k) :
    (join k fun c => bucket s c placed ++ bucket s c order).Perm (placed ++ order) :=
  join_append_perm.trans (List.Perm.append
    (join_pick_perm (symbolAt s) fun position found =>
      symbolAt_lt below (state.inside position found))
    (join_pick_perm (symbolAt s) fun position found =>
      symbolAt_lt below (lt_length_of_isLms ((lms.mem_iff position).mp found))))

/-- The positions before the ones in the first slots are all different. -/
theorem scanned_nodup (below : ∀ symbol ∈ s, symbol < k) (count : Nat) :
    (((headSlots s k order placed).take count).filterMap (·.bind (before s false))).Nodup := by
  have whole : ((headSlots s k order placed).filterMap (·.bind (before s false))).Nodup := by
    rw [filterMap_headSlots (state.fits lms)]
    exact filterMap_before_nodup ((state.join_perm lms below).nodup_iff.mpr state.nodup)
  exact whole.sublist ((take_sublist count _).filterMap _)

end

end HeadsPlaced

/-- A bucket ends before a later one begins. -/
theorem bucketStart_le {first second : Nat} (earlier : first < second) :
    bucketStart s first + s.count first ≤ bucketStart s second := by
  induction second with
  | zero => exact absurd earlier (Nat.not_lt_zero _)
  | succ second ih =>
    rw [bucketStart_succ]
    rcases Nat.lt_or_eq_of_le (Nat.le_of_lt_succ earlier) with lower | rfl
    · exact Nat.le_trans (ih lower) (Nat.le_add_right _ _)
    · exact le_refl _

/-- An L-type position goes to a slot behind the one of the position after it. -/
theorem HeadsPlaced.lt_headSlot (state : HeadsPlaced s k order placed i) (lms : LmsOrder s order)
    {position : Nat} (found : (headSlots s k order placed)[i]? = some (some (position + 1)))
    (large : isS s position = false) : i < headSlot s placed position := by
  obtain ⟨_, place, within, rfl, member, inside⟩ := state.place_of_slot lms found
  obtain ⟨_, fall⟩ := next_of_largeType (Nat.lt_of_succ_lt inside) large
  rw [headSlot]
  rcases fall with lower | ⟨level, again⟩
  · have next := bucketStart_le (s := s) lower
    omega
  · rw [level] at member within ⊢
    rcases member with ⟨_, front⟩ | there
    · omega
    · have small := (isLms_iff.mp ((lms.mem_iff _).mp there)).2.1
      rw [again] at small
      cases small

/-- A later slot does not matter to what was read. -/
theorem take_headSlots_snoc {position : Nat} (below : ∀ symbol ∈ s, symbol < k)
    (lmsFits : Fits s k order) (fits : Fits s k (placed ++ [position])) (inside : position < s.length)
    {count : Nat} (later : count ≤ headSlot s placed position) :
    (headSlots s k order (placed ++ [position])).take count =
      (headSlots s k order placed).take count := by
  have changed : headSlots s k order (placed ++ [position]) =
      (headSlots s k order placed).set (headSlot s placed position) (some position) :=
    headFilling_snoc (lmsShelf_sized lmsFits) (symbolAt_lt below inside) fits
  rw [changed, take_set_of_le later]

/-- The first pass places the L-type position before the one in a slot. -/
theorem HeadsPlaced.step (state : HeadsPlaced s k order placed i) (lms : LmsOrder s order)
    (below : ∀ symbol ∈ s, symbol < k) (within : i < s.length) :
    ∃ placed', headStep s (headFilling s k (lmsShelf s order) placed) i =
      .ok (headFilling s k (lmsShelf s order) placed') ∧
        HeadsPlaced s k order placed' (i + 1) := by
  have slots : i < (headSlots s k order placed).length := by
    rw [state.length_headSlots lms below]
    exact within
  obtain ⟨content, found⟩ : ∃ content, (headSlots s k order placed)[i]? = some content :=
    ⟨_, List.getElem?_eq_getElem slots⟩
  have reads : predecessor (suffixTypes s) false (headSlots s k order placed) i =
      .ok (content.bind (before s false)) := by
    refine predecessor_eq found fun position same => ?_
    obtain ⟨_, _, _, _, _, small⟩ := state.place_of_slot lms (same ▸ found)
    exact le_of_lt small
  have longer : ((headSlots s k order placed).take (i + 1)).filterMap (·.bind (before s false)) =
      placed ++ (content.bind (before s false)).toList := by
    rw [take_add_one, found, filterMap_append, ← state.scanned]
    refine congrArg (placed ++ ·) ?_
    cases chosen : content.bind (before s false) with
    | none => exact filterMap_cons_none chosen
    | some position => exact filterMap_cons_some chosen
  unfold headStep
  rw [show (headFilling s k (lmsShelf s order) placed).1 = headSlots s k order placed from rfl, reads,
    Outcome.ok_bind]
  cases chosen : content.bind (before s false) with
  | none =>
    refine ⟨placed, rfl, ?_, state.nodup, state.large, state.inside⟩
    rw [longer, chosen]
    exact (append_nil placed).symm
  | some position =>
    obtain ⟨after, rfl, previous⟩ := Option.bind_eq_some_iff.mp chosen
    obtain ⟨rfl, large⟩ := before_eq_some.mp previous
    obtain ⟨_, _, _, _, _, behind⟩ := state.place_of_slot lms found
    have inside : position < s.length := Nat.lt_of_succ_lt behind
    have later := state.lt_headSlot lms found large
    have scanned := state.scanned_nodup lms below (i + 1)
    rw [longer, chosen] at scanned
    have nodup : (placed ++ [position] ++ order).Nodup := by
      refine nodup_append.mpr ⟨scanned, lms.nodup, ?_⟩
      rintro first member second leftmost rfl
      have small := (isLms_iff.mp ((lms.mem_iff first).mp leftmost)).2.1
      rcases mem_append.mp member with here | there
      · rw [state.large first here] at small
        cases small
      · rw [mem_singleton.mp there, large] at small
        cases small
    have fits : Fits s k (placed ++ [position]) := by
      refine fits_of_nodup scanned fun other member => ?_
      rcases mem_append.mp member with here | there
      · exact state.inside other here
      · rw [mem_singleton.mp there]
        exact inside
    have lmsFits : Fits s k order := fits_of_nodup lms.nodup fun other member =>
      lt_length_of_isLms ((lms.mem_iff other).mp member)
    refine ⟨placed ++ [position], placeAtHead_eq (lmsShelf_sized lmsFits) inside
      (symbolAt_lt below inside) fits, ?_, nodup, ?_, ?_⟩
    · rw [take_headSlots_snoc below lmsFits fits inside later, longer, chosen]
      rfl
    · intro other member
      rcases mem_append.mp member with here | there
      · exact state.large other here
      · rw [mem_singleton.mp there]
        exact large
    · intro other member
      rcases mem_append.mp member with here | there
      · exact state.inside other here
      · rw [mem_singleton.mp there]
        exact inside

/-- What the first pass has placed at its end. -/
theorem headPass_eq (lms : LmsOrder s order) (below : ∀ symbol ∈ s, symbol < k) {count : Nat}
    (bounded : count ≤ s.length) :
    ∃ placed, (List.range count).foldlM (headStep s) (headFilling s k (lmsShelf s order) []) =
      .ok (headFilling s k (lmsShelf s order) placed) ∧ HeadsPlaced s k order placed count := by
  induction count with
  | zero => exact ⟨[], rfl, rfl, lms.nodup, by nofun, by nofun⟩
  | succ count ih =>
    obtain ⟨placed, ran, state⟩ := ih (Nat.le_of_succ_le bounded)
    obtain ⟨placed', step, next⟩ := state.step lms below bounded
    refine ⟨placed', ?_, next⟩
    rw [range_succ, foldlM_append, ran, Outcome.ok_bind, foldlM_cons, step, Outcome.ok_bind]
    rfl

/-- The L-type positions in the order in which the first pass places them. -/
structure LargeOrder (s : List Nat) (k : Nat) (order large : List Nat) : Prop where
  nodup : large.Nodup
  mem_iff : ∀ position, position ∈ large ↔ position < s.length ∧ isS s position = false
  scanned : large = (join k fun c => bucket s c large ++ bucket s c order).filterMap (before s false)

/-- At its end the first pass has placed every L-type position. -/
theorem HeadsPlaced.largeOrder (state : HeadsPlaced s k order placed s.length)
    (lms : LmsOrder s order) (below : ∀ symbol ∈ s, symbol < k) : LargeOrder s k order placed := by
  have scanned : placed =
      (join k fun c => bucket s c placed ++ bucket s c order).filterMap (before s false) := by
    rw [← filterMap_headSlots (state.fits lms),
      ← take_of_length_le (le_of_eq (state.length_headSlots lms below))]
    exact state.scanned
  have complete : ∀ rest position, position + rest = s.length → isS s position = false →
      position < s.length → position ∈ placed := by
    intro rest
    induction rest with
    | zero =>
      intro position outside _ inside
      omega
    | succ rest ih =>
      intro position place large inside
      obtain ⟨within, _⟩ := next_of_largeType inside large
      have next : position + 1 ∈ placed ++ order := by
        cases type : isS s (position + 1) with
        | false => exact mem_append_left _ (ih (position + 1) (by omega) type within)
        | true => exact mem_append_right _ ((lms.mem_iff _).mpr (isLms_succ_iff.mpr ⟨type, large⟩))
      rw [scanned]
      exact mem_filterMap.mpr ⟨position + 1, (state.join_perm lms below).mem_iff.mpr next,
        before_eq_some.mpr ⟨rfl, large⟩⟩
  refine ⟨(nodup_append.mp state.nodup).1, fun position => ⟨fun found =>
    ⟨state.inside position found, state.large position found⟩, ?_⟩, scanned⟩
  rintro ⟨inside, large⟩
  exact complete (s.length - position) position (by omega) large inside

end Passes

open Shelves

section TailPass

variable {s : List Nat} {k : Nat} {order large small : List Nat} {i : Nat}

/-- The slots after S-type positions were placed. -/
def tailSlots (s : List Nat) (k : Nat) (order large small : List Nat) : List (Option Nat) :=
  join k (tailShelf s (headShelf s (lmsShelf s order) large) small)

/-- What the second pass has placed when it has read the slots from one on. -/
structure TailsPlaced (s : List Nat) (k : Nat) (order large small : List Nat) (i : Nat) : Prop where
  scanned : small =
    ((tailSlots s k order large small).drop i).reverse.filterMap (·.bind (before s true))
  nodup : small.Nodup
  small : ∀ position ∈ small, isS s position = true

/-- What is left of a bucket between the L-type positions and the S-type ones. -/
def middle (s : List Nat) (order large small : List Nat) (c : Nat) : List (Option Nat) :=
  (List.replicate (s.count c - (bucket s c order).length - (bucket s c large).length) none ++
    (bucket s c order).map some).take
      (s.count c - (bucket s c small).length - (bucket s c large).length)

/-- The bucket of a symbol holds its L-type positions, what is left over, and the S-type
positions that were placed. -/
theorem tailShelf_eq {c : Nat}
    (leftmost : (bucket s c large).length + (bucket s c order).length ≤ s.count c)
    (room : (bucket s c large).length + (bucket s c small).length ≤ s.count c) :
    tailShelf s (headShelf s (lmsShelf s order) large) small c =
      (bucket s c large).map some ++
        (middle s order large small c ++ (bucket s c small).reverse.map some) := by
  have front : (bucket s c large).map some =
      ((bucket s c large).map some).take (s.count c - (bucket s c small).length) := by
    rw [take_of_length_le]
    rw [length_map]
    omega
  rw [tailShelf, headShelf_eq leftmost, take_append, ← front, length_map, middle, append_assoc]

/-- The positions before leftmost S-type ones are not S-type. -/
theorem before_lms {position : Nat} (leftmost : isLms s position = true) :
    before s true position = none := by
  obtain ⟨positive, _, large⟩ := isLms_iff.mp leftmost
  match position, positive with
  | position + 1, _ =>
    rw [Nat.add_sub_cancel] at large
    rw [before, large]
    rfl

/-- What is left over places nothing. -/
theorem filterMap_middle (lms : LmsOrder s order) (c : Nat) :
    (middle s order large small c).filterMap (·.bind (before s true)) = [] := by
  rw [filterMap_eq_nil_iff]
  intro content found
  rcases mem_append.mp (mem_of_mem_take found) with free | left
  · rw [(mem_replicate.mp free).2]
    rfl
  · obtain ⟨position, member, rfl⟩ := mem_map.mp left
    exact before_lms ((lms.mem_iff position).mp ((mem_pick (symbolAt s)).mp member).1)

section

variable (heads : LargeOrder s k order large)

include heads

/-- The L-type positions fit beside the leftmost S-type ones. -/
theorem LargeOrder.fits (lms : LmsOrder s order) : Fits s k (large ++ order) := by
  refine fits_of_nodup (nodup_append.mpr ⟨heads.nodup, lms.nodup, ?_⟩) fun position found => ?_
  · rintro first member second leftmost rfl
    have type := (isLms_iff.mp ((lms.mem_iff first).mp leftmost)).2.1
    rw [((heads.mem_iff first).mp member).2] at type
    cases type
  · rcases mem_append.mp found with here | there
    · exact ((heads.mem_iff position).mp here).1
    · exact lt_length_of_isLms ((lms.mem_iff position).mp there)

/-- L-type and S-type positions are different. -/
theorem LargeOrder.nodup_append (nodup : small.Nodup)
    (types : ∀ position ∈ small, isS s position = true) : (large ++ small).Nodup := by
  refine List.nodup_append.mpr ⟨heads.nodup, nodup, ?_⟩
  rintro first member second other rfl
  have type := types first other
  rw [((heads.mem_iff first).mp member).2] at type
  cases type

theorem LargeOrder.inside (types : ∀ position ∈ small, isS s position = true) :
    ∀ position ∈ large ++ small, position < s.length := by
  intro position found
  rcases mem_append.mp found with here | there
  · exact ((heads.mem_iff position).mp here).1
  · exact lt_length_of_isS (types position there)

/-- The slots that the first pass leaves. -/
theorem LargeOrder.sized (lms : LmsOrder s order) :
    Sized s k (headShelf s (lmsShelf s order) large) := by
  have fits := heads.fits lms
  refine headShelf_length (lmsShelf_sized fun c inside => ?_) fun c inside => ?_
  · exact le_trans (Nat.le_add_left _ _) (fits.append_le inside)
  · exact Nat.le_trans (Nat.le_add_right _ _) (fits.append_le inside)

end

namespace TailsPlaced

section

variable (state : TailsPlaced s k order large small i)

include state

theorem fits (heads : LargeOrder s k order large) : Fits s k (large ++ small) :=
  fits_of_nodup (heads.nodup_append state.nodup state.small) (heads.inside state.small)

theorem smallFits : Fits s k small :=
  fits_of_nodup state.nodup fun position found => lt_length_of_isS (state.small position found)

/-- What the pass chooses from the slots it chooses from the positions that were placed. -/
theorem filterMap_tailSlots (heads : LargeOrder s k order large) (lms : LmsOrder s order) :
    (tailSlots s k order large small).filterMap (·.bind (before s true)) =
      (join k fun c => bucket s c large ++ (bucket s c small).reverse).filterMap (before s true) := by
  rw [tailSlots, filterMap_join, filterMap_join]
  refine join_congr fun c inside => ?_
  rw [tailShelf_eq ((heads.fits lms).append_le inside) ((state.fits heads).append_le inside),
    filterMap_append, filterMap_append, filterMap_middle lms, filterMap_append,
    filterMap_map, filterMap_map, nil_append]
  rfl

/-- The positions in the slots are the ones that were placed. -/
theorem join_perm (heads : LargeOrder s k order large) (below : ∀ symbol ∈ s, symbol < k) :
    (join k fun c => bucket s c large ++ (bucket s c small).reverse).Perm (large ++ small) := by
  have inside := heads.inside state.small
  have reversed : (join k fun c => (bucket s c small).reverse).Perm small := by
    have shelves : (join k fun c => (bucket s c small).reverse) =
        join k fun c => pick (symbolAt s) c small.reverse :=
      join_congr fun c _ => (pick_reverse (symbolAt s) c small).symm
    rw [shelves]
    exact (join_pick_perm (symbolAt s) fun position found =>
      symbolAt_lt below (inside position (mem_append_right _ (mem_reverse.mp found)))).trans
        (reverse_perm small)
  exact join_append_perm.trans (List.Perm.append
    (join_pick_perm (symbolAt s) fun position found =>
      symbolAt_lt below (inside position (mem_append_left _ found))) reversed)

end

section

variable (state : TailsPlaced s k order large small i) (heads : LargeOrder s k order large)
  (lms : LmsOrder s order)

include state heads lms

/-- The positions before the ones in the last slots are all different. -/
theorem scanned_nodup (below : ∀ symbol ∈ s, symbol < k) (count : Nat) :
    (((tailSlots s k order large small).drop count).reverse.filterMap
      (·.bind (before s true))).Nodup := by
  have whole : ((tailSlots s k order large small).filterMap (·.bind (before s true))).Nodup := by
    rw [state.filterMap_tailSlots heads lms]
    exact filterMap_before_nodup ((state.join_perm heads below).nodup_iff.mpr
      (heads.nodup_append state.nodup state.small))
  rw [filterMap_reverse, nodup_reverse]
  exact whole.sublist ((drop_sublist count _).filterMap _)

theorem sized : Sized s k (tailShelf s (headShelf s (lmsShelf s order) large) small) :=
  tailShelf_length (heads.sized lms) state.smallFits

theorem length_tailSlots (below : ∀ symbol ∈ s, symbol < k) :
    (tailSlots s k order large small).length = s.length := by
  rw [tailSlots, (state.sized heads lms).length_join (le_refl k), bucketStart_all below]

/-- A slot is a place in the bucket of the symbol of the position in it. An S-type position is
left over there, or stands among the ones that were placed. -/
theorem place_of_slot {slot position : Nat}
    (found : (tailSlots s k order large small)[slot]? = some (some position)) :
    position < s.length ∧ ∃ place < s.count (symbolAt s position),
      slot = bucketStart s (symbolAt s position) + place ∧
        (isS s position = true → isLms s position = true ∨
          s.count (symbolAt s position) - (bucket s (symbolAt s position) small).length ≤ place) := by
  have sized := state.sized heads lms
  obtain ⟨inside, _⟩ := List.getElem?_eq_some_iff.mp found
  obtain ⟨c, below, place, within, rfl⟩ := locate inside
  rw [tailSlots, getElem?_join below within] at found
  rw [sized.length_join (le_of_lt below)]
  rw [sized c below] at within
  have width : ((headShelf s (lmsShelf s order) large c).take
      (s.count c - (bucket s c small).length)).length =
        s.count c - (bucket s c small).length := by
    rw [length_take, heads.sized lms c below]
    omega
  by_cases front : place < s.count c - (bucket s c small).length
  · rw [tailShelf, List.getElem?_append_left (by rw [width]; exact front)] at found
    obtain ⟨member, rfl⟩ := mem_headShelf ((heads.fits lms).append_le below)
      (mem_of_mem_take (mem_of_getElem? found))
    rcases member with here | there
    · obtain ⟨short, type⟩ := (heads.mem_iff position).mp here
      refine ⟨short, place, within, rfl, fun other => ?_⟩
      rw [type] at other
      cases other
    · have leftmost := (lms.mem_iff position).mp there
      exact ⟨lt_length_of_isLms leftmost, place, within, rfl, fun _ => .inl leftmost⟩
  · rw [tailShelf, List.getElem?_append_right (by rw [width]; exact Nat.le_of_not_lt front)] at found
    obtain ⟨other, stands, same⟩ := mem_map.mp (mem_of_getElem? found)
    obtain rfl := Option.some.inj same
    obtain ⟨member, rfl⟩ := (mem_pick (symbolAt s)).mp (mem_reverse.mp stands)
    exact ⟨lt_length_of_isS (state.small other member), place, within, rfl,
      fun _ => .inr (Nat.le_of_not_lt front)⟩

/-- An S-type position goes to a slot before the one of the position after it. -/
theorem tailSlot_lt {slot position : Nat}
    (found : (tailSlots s k order large small)[slot]? = some (some (position + 1)))
    (type : isS s position = true)
    (room : (bucket s (symbolAt s position) small).length < s.count (symbolAt s position)) :
    tailSlot s small position < slot := by
  obtain ⟨inside, place, within, rfl, stands⟩ := state.place_of_slot heads lms found
  rw [tailSlot]
  rcases next_of_smallType inside type with rise | ⟨level, again⟩
  · have next := bucketStart_le (s := s) rise
    omega
  · rcases stands again with leftmost | behind
    · rw [(isLms_succ_iff.mp leftmost).2] at type
      cases type
    · rw [level] at room ⊢
      omega

end

end TailsPlaced

/-- An earlier slot does not matter to what was read. -/
theorem drop_tailSlots_snoc {position : Nat} (heads : LargeOrder s k order large)
    (lms : LmsOrder s order) (below : ∀ symbol ∈ s, symbol < k)
    (fits : Fits s k (small ++ [position])) (inside : position < s.length) {count : Nat}
    (earlier : tailSlot s small position < count) :
    (tailSlots s k order large (small ++ [position])).drop count =
      (tailSlots s k order large small).drop count := by
  have changed : tailSlots s k order large (small ++ [position]) =
      (tailSlots s k order large small).set (tailSlot s small position) (some position) :=
    tailFilling_snoc (heads.sized lms) (symbolAt_lt below inside) fits
  rw [changed, drop_set_of_lt earlier]

/-- The second pass places the S-type position before the one in a slot. -/
theorem TailsPlaced.step (state : TailsPlaced s k order large small (i + 1))
    (heads : LargeOrder s k order large) (lms : LmsOrder s order)
    (below : ∀ symbol ∈ s, symbol < k) (within : i < s.length) :
    ∃ small', tailStep s (tailFilling s k (headShelf s (lmsShelf s order) large) small) i =
      .ok (tailFilling s k (headShelf s (lmsShelf s order) large) small') ∧
        TailsPlaced s k order large small' i := by
  have slots : i < (tailSlots s k order large small).length := by
    rw [state.length_tailSlots heads lms below]
    exact within
  obtain ⟨content, found⟩ : ∃ content, (tailSlots s k order large small)[i]? = some content :=
    ⟨_, List.getElem?_eq_getElem slots⟩
  have state_here : ∀ {position}, content = some position → position < s.length := by
    rintro position rfl
    obtain ⟨place, _⟩ := state.place_of_slot heads lms found
    exact place
  have reads : predecessor (suffixTypes s) true (tailSlots s k order large small) i =
      .ok (content.bind (before s true)) :=
    predecessor_eq found fun position same => le_of_lt (state_here same)
  have longer : ((tailSlots s k order large small).drop i).reverse.filterMap
      (·.bind (before s true)) = small ++ (content.bind (before s true)).toList := by
    obtain ⟨_, here⟩ := List.getElem?_eq_some_iff.mp found
    rw [drop_eq_getElem_cons slots, here, reverse_cons, filterMap_append, ← state.scanned]
    refine congrArg (small ++ ·) ?_
    cases chosen : content.bind (before s true) with
    | none => exact filterMap_cons_none chosen
    | some position => exact filterMap_cons_some chosen
  unfold tailStep
  rw [show (tailFilling s k (headShelf s (lmsShelf s order) large) small).1 =
    tailSlots s k order large small from rfl, reads, Outcome.ok_bind]
  cases chosen : content.bind (before s true) with
  | none =>
    refine ⟨small, rfl, ?_, state.nodup, state.small⟩
    rw [longer, chosen]
    exact (append_nil small).symm
  | some position =>
    obtain ⟨after, rfl, previous⟩ := Option.bind_eq_some_iff.mp chosen
    obtain ⟨rfl, type⟩ := before_eq_some.mp previous
    have inside : position < s.length := Nat.lt_of_succ_lt (state_here rfl)
    have scanned := state.scanned_nodup heads lms below i
    rw [longer, chosen] at scanned
    have types : ∀ other ∈ small ++ [position], isS s other = true := by
      intro other member
      rcases mem_append.mp member with here | there
      · exact state.small other here
      · rw [mem_singleton.mp there]
        exact type
    have fits : Fits s k (small ++ [position]) :=
      fits_of_nodup scanned fun other member => lt_length_of_isS (types other member)
    have earlier := state.tailSlot_lt heads lms found type (fits.room (symbolAt_lt below inside))
    refine ⟨small ++ [position], placeAtTail_eq (heads.sized lms) inside (symbolAt_lt below inside)
      fits, ?_, scanned, types⟩
    rw [drop_tailSlots_snoc heads lms below fits inside earlier, longer, chosen]
    rfl

theorem tailPass_eq (heads : LargeOrder s k order large) (lms : LmsOrder s order)
    (below : ∀ symbol ∈ s, symbol < k) {count : Nat} (bounded : count ≤ s.length) :
    ∃ small, (List.range' (s.length - count) count).reverse.foldlM (tailStep s)
        (tailFilling s k (headShelf s (lmsShelf s order) large) []) =
      .ok (tailFilling s k (headShelf s (lmsShelf s order) large) small) ∧
        TailsPlaced s k order large small (s.length - count) := by
  induction count with
  | zero =>
    refine ⟨[], rfl, ?_, nodup_nil, by nofun⟩
    have empty : (tailSlots s k order large []).length = s.length := by
      have sized : Sized s k (tailShelf s (headShelf s (lmsShelf s order) large) []) :=
        tailShelf_length (heads.sized lms) fun c _ => Nat.zero_le _
      rw [tailSlots, sized.length_join (le_refl k), bucketStart_all below]
    rw [Nat.sub_zero, drop_of_length_le (le_of_eq empty)]
    rfl
  | succ count ih =>
    obtain ⟨small, ran, state⟩ := ih (Nat.le_of_succ_le bounded)
    have next : s.length - count = s.length - (count + 1) + 1 := by omega
    rw [next] at state ran
    obtain ⟨small', step, state'⟩ := state.step heads lms below (by omega)
    refine ⟨small', ?_, state'⟩
    rw [List.range'_succ, reverse_cons, foldlM_append, ran, Outcome.ok_bind,
      foldlM_cons, step, Outcome.ok_bind]
    rfl

/-- The S-type positions in the order in which the second pass places them. -/
structure SmallOrder (s : List Nat) (k : Nat) (large small : List Nat) : Prop where
  nodup : small.Nodup
  mem_iff : ∀ position, position ∈ small ↔ position + 1 < s.length ∧ isS s position = true
  scanned : small =
    (join k fun c => bucket s c large ++ (bucket s c small).reverse).reverse.filterMap (before s true)

/-- At its end the second pass has placed every S-type position but the last one. -/
theorem TailsPlaced.smallOrder (state : TailsPlaced s k order large small 0)
    (ends : EndsInZero s) (heads : LargeOrder s k order large) (lms : LmsOrder s order)
    (below : ∀ symbol ∈ s, symbol < k) : SmallOrder s k large small := by
  have scanned : small = (join k fun c =>
      bucket s c large ++ (bucket s c small).reverse).reverse.filterMap (before s true) := by
    rw [filterMap_reverse, ← state.filterMap_tailSlots heads lms, ← filterMap_reverse]
    exact state.scanned
  have inside : ∀ position ∈ small, position + 1 < s.length := by
    intro position found
    rw [scanned] at found
    obtain ⟨after, member, previous⟩ := mem_filterMap.mp found
    obtain ⟨rfl, _⟩ := before_eq_some.mp previous
    exact heads.inside state.small _
      ((state.join_perm heads below).mem_iff.mp (mem_reverse.mp member))
  have complete : ∀ rest position, position + 1 + rest = s.length → isS s position = true →
      position + 1 < s.length → position ∈ small := by
    intro rest
    induction rest with
    | zero =>
      intro position outside _ within
      omega
    | succ rest ih =>
      intro position place type within
      have next : position + 1 ∈ large ++ small := by
        cases behind : isS s (position + 1) with
        | false => exact mem_append_left _ ((heads.mem_iff _).mpr ⟨within, behind⟩)
        | true =>
          refine mem_append_right _ (ih (position + 1) (by omega) behind ?_)
          refine lt_of_le_of_ne within fun last => ?_
          rw [ends.isS_penultimate last] at type
          cases type
      rw [scanned]
      exact mem_filterMap.mpr ⟨position + 1,
        mem_reverse.mpr ((state.join_perm heads below).mem_iff.mpr next),
        before_eq_some.mpr ⟨rfl, type⟩⟩
  refine ⟨state.nodup, fun position => ⟨fun found =>
    ⟨inside position found, state.small position found⟩, ?_⟩, scanned⟩
  rintro ⟨within, type⟩
  exact complete (s.length - position - 1) position (by omega) type within

end TailPass

end HermesDecomp.SuffixArray
