import HermesDecomp.Write.SubstringNames

/-!
# The suffix array lists the suffixes in order

The names of the leftmost S-type substrings, read in the order of the text, form a shorter
sequence that ends in its only zero. Its suffixes are in the order of the suffixes at the leftmost
S-type positions. When the names are all different they say the order themselves; otherwise the
sequence is sorted in the same way.
-/

namespace HermesDecomp.SuffixArray

open Shelves List Outcome

/-- A sequence of answers chooses what the answers choose. -/
theorem filterM_eq {f : Nat → Result Bool} {g : Nat → Bool} {positions : List Nat}
    (answers : ∀ position ∈ positions, f position = .ok (g position)) :
    positions.filterM f = .ok (positions.filter g) := by
  have collected : ∀ rest acc : List Nat, (∀ position ∈ rest, f position = .ok (g position)) →
      List.filterAuxM f rest acc = .ok ((rest.filter g).reverse ++ acc) := by
    intro rest
    induction rest with
    | nil =>
      intro acc _
      rfl
    | cons first rest ih =>
      intro acc inside
      have later := fun position member => inside position (mem_cons_of_mem first member)
      rw [List.filterAuxM, inside first mem_cons_self, ok_bind, ih _ later]
      cases chosen : g first with
      | true => rw [filter_cons_of_pos chosen, reverse_cons, append_assoc]; rfl
      | false => rw [filter_cons_of_neg (Bool.eq_false_iff.mp chosen)]; rfl
  rw [List.filterM, collected positions [] answers, ok_bind, append_nil, reverse_reverse]
  rfl

section Order

variable {s : List Nat} {names : Nat → Nat}

/-- The leftmost S-type positions in the order of the text. -/
theorem lmsOrder_lmsFrom (s : List Nat) : LmsOrder s (lmsFrom s 0) := by
  refine ⟨List.Nodup.filter _ nodup_range', fun position => ?_⟩
  rw [lmsFrom, mem_filter, mem_range'_1, Nat.sub_zero, zero_add]
  exact ⟨And.right, fun leftmost => ⟨⟨Nat.zero_le _, lt_length_of_isLms leftmost⟩, leftmost⟩⟩

/-- The leftmost S-type positions before one of them, and the ones from there on. -/
theorem lmsFrom_split {position : Nat} (leftmost : isLms s position = true) :
    lmsFrom s 0 = (List.range' 0 position).filter (isLms s) ++ lmsFrom s position := by
  have inside := lt_length_of_isLms leftmost
  have joined : List.range' 0 position ++ List.range' (0 + position) (s.length - position) =
      List.range' 0 (position + (s.length - position)) := List.range'_append_1
  rw [Nat.zero_add, Nat.add_sub_cancel' (Nat.le_of_lt inside)] at joined
  rw [lmsFrom, lmsFrom, ← filter_append, Nat.sub_zero, joined]

/-- The leftmost S-type positions from one of them on end the list of all. -/
theorem drop_lmsFrom {place position : Nat} (found : (lmsFrom s 0)[place]? = some position) :
    (lmsFrom s 0).drop place = lmsFrom s position := by
  have leftmost : isLms s position = true :=
    ((lmsOrder_lmsFrom s).mem_iff position).mp (mem_of_getElem? found)
  have here : (lmsFrom s 0)[((List.range' 0 position).filter (isLms s)).length]? = some position := by
    rw [lmsFrom_split leftmost, List.getElem?_append_right (Nat.le_refl _), Nat.sub_self,
      lmsFrom_lms leftmost]
    rfl
  obtain ⟨within, at_place⟩ := List.getElem?_eq_some_iff.mp found
  obtain ⟨bound, at_front⟩ := List.getElem?_eq_some_iff.mp here
  have same := (lmsOrder_lmsFrom s).nodup.getElem_inj_iff.mp (at_place.trans at_front.symm)
  rw [same]
  conv_lhs => rw [lmsFrom_split leftmost]
  rw [drop_append_of_le_length (le_refl _), drop_length, nil_append]

/-- The slots of the names, read from the front, hold the names in the order of the text. -/
theorem filterMap_nameSlots {slots : Nat} {done : List Nat} (lms : LmsOrder s done)
    (room : ∀ p ∈ done, p / 2 < slots) :
    (nameSlots slots done names).filterMap id = (lmsFrom s 0).map names := by
  have chosen : (nameSlots slots done names).filterMap id =
      ((List.range slots).filterMap fun slot => done.find? fun p => p / 2 == slot).map names := by
    rw [nameSlots, filterMap_map, map_filterMap]
    rfl
  have stands : ∀ {slot p}, (done.find? fun p => p / 2 == slot) = some p → p ∈ done ∧ p / 2 = slot :=
    fun {slot p} found => ⟨mem_of_find?_eq_some found, beq_iff_eq.mp
      (show (p / 2 == slot) = true from List.find?_some (p := fun p => p / 2 == slot) found)⟩
  have increasing : ((List.range slots).filterMap fun slot => done.find? fun p => p / 2 == slot).Pairwise
      (· < ·) := by
    rw [pairwise_filterMap]
    refine pairwise_lt_range.imp fun before p first q second => ?_
    have left := (stands first).2
    have right := (stands second).2
    omega
  have positions : (lmsFrom s 0).Pairwise (· < ·) := List.Pairwise.filter _ pairwise_lt_range'
  have same : ((List.range slots).filterMap fun slot => done.find? fun p => p / 2 == slot).Perm
      (lmsFrom s 0) := by
    refine (perm_ext_iff_of_nodup (increasing.imp ne_of_lt)
      (lmsOrder_lmsFrom s).nodup).mpr fun p => ?_
    rw [(lmsOrder_lmsFrom s).mem_iff, mem_filterMap]
    constructor
    · rintro ⟨slot, _, found⟩
      exact (lms.mem_iff p).mp (stands found).1
    · intro leftmost
      have member := (lms.mem_iff p).mpr leftmost
      refine ⟨p / 2, mem_range.mpr (room p member), ?_⟩
      obtain ⟨q, found⟩ : ∃ q, (done.find? fun q => q / 2 == p / 2) = some q :=
        Option.isSome_iff_exists.mp (List.find?_isSome.mpr ⟨p, member, beq_self_eq_true _⟩)
      rw [found]
      by_contra other
      exact half_ne ((lms.mem_iff q).mp (stands found).1) leftmost (fun one => other (one ▸ rfl))
        (stands found).2
  rw [chosen, List.Perm.eq_of_pairwise (fun p q _ _ before after =>
    absurd after (lt_asymm before)) increasing positions same]

/-- Every name gets its own slot. -/
theorem stores_eq (rest order : List Nat) (start : Nat) (inside : ∀ name ∈ rest, name < order.length)
    (nodup : rest.Nodup) :
    ∃ order', (rest.zipIdx start).foldlM (fun order entry => Outcome.store order entry.1 entry.2)
        order = (.ok order' : Result (List Nat)) ∧ order'.length = order.length ∧
      (∀ i name, rest[i]? = some name → order'[name]? = some (start + i)) ∧
      ∀ name, name ∉ rest → order'[name]? = order[name]? := by
  induction rest generalizing start order with
  | nil => exact ⟨order, rfl, rfl, by nofun, fun _ _ => rfl⟩
  | cons first rest ih =>
    have bound := inside first mem_cons_self
    obtain ⟨fresh, later⟩ := nodup_cons.mp nodup
    obtain ⟨order', ran, length, stored, kept⟩ := ih (order.set first start)
      (start + 1) (fun name member => by
        rw [length_set]
        exact inside name (mem_cons_of_mem _ member)) later
    refine ⟨order', ?_, length.trans length_set, ?_, ?_⟩
    · rw [zipIdx_cons, foldlM_cons, store_of_lt bound, ok_bind]
      exact ran
    · rintro (_ | i) name found
      · obtain rfl : first = name := Option.some.inj found
        rw [kept first fresh, List.getElem?_set_self bound]
        rfl
      · rw [stored i name found]
        exact congrArg some (by omega)
    · intro name absent
      obtain ⟨other, behind⟩ := ne_and_not_mem_of_not_mem_cons absent
      rw [kept name behind, List.getElem?_set_ne (Ne.symm other)]

/-- Different names say the order of the suffixes that begin with them. -/
theorem invert_eq {reduced : List Nat} (ranks : reduced.Perm (List.range reduced.length)) :
    ∃ order, invert reduced = .ok order ∧ order.Perm (List.range reduced.length) ∧
      order.Pairwise fun i j => reduced.drop i < reduced.drop j := by
  have width : (List.replicate reduced.length 0).length = reduced.length := length_replicate
  obtain ⟨order, ran, length, stored, _⟩ := stores_eq reduced
    (List.replicate reduced.length 0) 0 (fun name member => by
      rw [width]
      exact mem_range.mp (ranks.mem_iff.mp member))
    (ranks.nodup_iff.mpr nodup_range)
  have stands : ∀ name i : Nat, order[name]? = some i → reduced[i]? = some name := by
    intro name i found
    have bound : name < reduced.length := by
      obtain ⟨inside, _⟩ := List.getElem?_eq_some_iff.mp found
      omega
    obtain ⟨place, within, here⟩ := getElem_of_mem (ranks.mem_iff.mpr (mem_range.mpr bound))
    have at_place : reduced[place]? = some name := here ▸ List.getElem?_eq_getElem within
    have same := (stored place name at_place).symm.trans found
    rw [zero_add] at same
    exact Option.some.inj same ▸ at_place
  have sorted : order.Pairwise fun i j => reduced.drop i < reduced.drop j := by
    rw [pairwise_iff_getElem]
    intro first second left right before
    have here := stands first _ (List.getElem?_eq_getElem left)
    have there := stands second _ (List.getElem?_eq_getElem right)
    obtain ⟨insideLeft, at_left⟩ := List.getElem?_eq_some_iff.mp here
    obtain ⟨insideRight, at_right⟩ := List.getElem?_eq_some_iff.mp there
    rw [drop_eq_getElem_cons insideLeft, drop_eq_getElem_cons insideRight, at_left, at_right]
    exact cons_lt_cons_iff.mpr (.inl before)
  have nodup : order.Nodup := sorted.imp fun before same => by
    rw [same] at before
    exact lt_irrefl _ before
  refine ⟨order, ran, ?_, sorted⟩
  refine (subperm_of_subset nodup fun i member => ?_).perm_of_length_le ?_
  · obtain ⟨name, inside, at_name⟩ := getElem_of_mem member
    have here := stands name i (at_name ▸ List.getElem?_eq_getElem inside)
    exact mem_range.mpr (List.getElem?_eq_some_iff.mp here).1
  · rw [length_range, length, width]

/-- What the naming pass leaves: a shorter sequence whose suffixes are in the order of the
suffixes at the leftmost S-type positions. -/
structure Reduction (s reduced : List Nat) (name : Nat) : Prop where
  length : reduced.length = (lmsFrom s 0).length
  ends : EndsInZero reduced
  below : ∀ symbol ∈ reduced, symbol < name
  ranks : reduced.length ≤ name → reduced.Perm (List.range reduced.length)
  ordered : ∀ {place other position next : Nat}, (lmsFrom s 0)[place]? = some position →
    (lmsFrom s 0)[other]? = some next → reduced.drop place < reduced.drop other →
      s.drop position < s.drop next

/-- The last position has the smallest key. -/
theorem EndsInZero.rise_last_lt (ends : EndsInZero s) {last position : Nat}
    (final : last + 1 = s.length) (inside : position < s.length) (other : position ≠ last) :
    rise s last < rise s position := by
  have zero : symbolAt s last = 0 := (ends.symbolAt_eq_zero_iff (by omega)).mpr final
  have positive : symbolAt s position ≠ 0 := by
    rw [ne_eq, ends.symbolAt_eq_zero_iff inside]
    omega
  obtain ⟨_, left⟩ := rise_head (s := s) (i := last) (by omega)
  obtain ⟨_, right⟩ := rise_head inside
  rw [left, right, cons_lt_cons_iff]
  left
  have most := Bool.toNat_le (isS s last)
  rw [code, code, zero]
  omega

/-- The names of all leftmost S-type positions are in the order of their keys. -/
theorem NamedSoFar.ofOrder {done : List Nat} {slots : Nat} {naming : Naming}
    (state : NamedSoFar s slots done naming names) (lms : LmsOrder s done) : Names s names where
  lower i j left right := state.lower i ((lms.mem_iff i).mpr left) j ((lms.mem_iff j).mpr right)
  same i j left right := state.same i ((lms.mem_iff i).mpr left) j ((lms.mem_iff j).mpr right)

/-- The names of all leftmost S-type positions reduce the sequence. -/
theorem NamedSoFar.reduction {done : List Nat} {slots : Nat} {naming : Naming}
    (state : NamedSoFar s slots done naming names) (ends : EndsInZero s) (lms : LmsOrder s done)
    {before : Nat} (long : before + 2 = s.length) :
    Reduction s ((lmsFrom s 0).map names) naming.name := by
  have named := state.ofOrder lms
  have member : ∀ {p}, p ∈ lmsFrom s 0 → p ∈ done := fun found =>
    (lms.mem_iff _).mpr (((lmsOrder_lmsFrom s).mem_iff _).mp found)
  have leftmost : isLms s (before + 1) = true := ends.isLms_last long
  have smallest : ∀ p, isLms s p = true → p ≠ before + 1 → names (before + 1) < names p :=
    fun p left other => named.lower _ _ leftmost left
      (ends.rise_last_lt long (lt_length_of_isLms left) other)
  have zero : names (before + 1) = 0 := by
    have positive : 0 < naming.name :=
      lt_of_le_of_lt (Nat.zero_le _) (state.below _ ((lms.mem_iff _).mpr leftmost))
    obtain ⟨p, found, first⟩ := state.onto 0 positive
    by_cases same : p = before + 1
    · rw [← same, first]
    · have lower := smallest p ((lms.mem_iff p).mp found) same
      omega
  refine ⟨length_map _, ?_, ?_, ?_, ?_⟩
  · refine ⟨((List.range' 0 (before + 1)).filter (isLms s)).map names, ?_, fun found => ?_⟩
    · have last : lmsFrom s (before + 1) = [before + 1] := by
        rw [lmsFrom_lms leftmost, long, lmsFrom_end]
      rw [lmsFrom_split leftmost, last, map_append, map_singleton, zero]
    · obtain ⟨p, inside, first⟩ := mem_map.mp found
      obtain ⟨range, left⟩ := mem_filter.mp inside
      have bound := (mem_range'_1.mp range).2
      have lower := smallest p left (by omega)
      omega
  · intro symbol found
    obtain ⟨p, inside, rfl⟩ := mem_map.mp found
    exact state.below p (member inside)
  · intro all
    have covered : (List.range naming.name).Subperm ((lmsFrom s 0).map names) := by
      refine subperm_of_subset nodup_range fun x found => ?_
      obtain ⟨p, inside, rfl⟩ := state.onto x (mem_range.mp found)
      exact mem_map_of_mem (((lmsOrder_lmsFrom s).mem_iff p).mpr ((lms.mem_iff p).mp inside))
    have perm := covered.perm_of_length_le (by rw [length_range]; exact all)
    have width := perm.length_eq
    rw [length_range] at width
    rw [← width]
    exact perm.symm
  · intro place other position next here there lower
    rw [← map_drop, ← map_drop, drop_lmsFrom here, drop_lmsFrom there] at lower
    exact ends.ordered named position next (Nat.zero_le _)
      (((lmsOrder_lmsFrom s).mem_iff _).mp (mem_of_getElem? here))
      (((lmsOrder_lmsFrom s).mem_iff _).mp (mem_of_getElem? there)) lower

/-- The naming pass reduces the sequence. -/
theorem EndsInZero.naming_reduces (ends : EndsInZero s) {before : Nat} (long : before + 2 = s.length)
    {sorted : List Nat} (lms : LmsOrder s sorted)
    (keys : sorted.Pairwise fun p q => rise s p ≤ rise s q) :
    ∃ naming, sorted.foldlM (nameNext s (suffixTypes s))
        { name := 0, prev := none, names := List.replicate (s.length - sorted.length) none } =
        .ok naming ∧ Reduction s (naming.names.filterMap id) naming.name := by
  have start : NamedSoFar s (s.length - sorted.length) []
      { name := 0, prev := none, names := List.replicate (s.length - sorted.length) none }
      fun _ => 0 := by
    refine ⟨?_, by nofun, by nofun, by nofun, by nofun, .inl ⟨rfl, rfl, rfl⟩⟩
    have empty : nameSlots (s.length - sorted.length) [] (fun _ => 0) =
        List.replicate (List.range (s.length - sorted.length)).length none := map_const'
    rw [empty, length_range]
  have room : ∀ p ∈ sorted, p / 2 < s.length - sorted.length := by
    intro p found
    have count := lms_count lms
    have inside := (lms.typed p found).1
    omega
  obtain ⟨naming, names, ran, state⟩ := ends.nameAll_eq start
    (fun p found => (lms.mem_iff p).mp found) lms.nodup keys room
  rw [nil_append] at state
  refine ⟨naming, ran, ?_⟩
  rw [state.slots, filterMap_nameSlots lms room]
  exact state.reduction ends lms long

/-- A sequence of answers is a list of what they answer. -/
theorem mapM_eq {f : Nat → Result Nat} {g : Nat → Nat} {places : List Nat}
    (answers : ∀ place ∈ places, f place = .ok (g place)) : places.mapM f = .ok (places.map g) := by
  induction places with
  | nil => rfl
  | cons first rest ih =>
    rw [mapM_cons, answers first mem_cons_self, ok_bind,
      ih fun place later => answers place (mem_cons_of_mem _ later)]
    rfl

/-- A list is what stands at its places. -/
theorem map_range_getD (items : List Nat) :
    ((List.range items.length).map fun place => items[place]?.getD 0) = items := by
  refine ext_getElem? fun place => ?_
  by_cases inside : place < items.length
  · rw [getElem?_map_range _ inside, List.getElem?_eq_getElem inside]
    rfl
  · rw [List.getElem?_eq_none (Nat.le_of_not_lt inside),
      List.getElem?_eq_none (by simpa using inside)]

/-- The order of the shorter sequence is the order of the leftmost S-type suffixes. -/
theorem Reduction.placed {reduced : List Nat} {name : Nat} (reduction : Reduction s reduced name)
    {order : List Nat} (perm : order.Perm (List.range reduced.length))
    (sorted : order.Pairwise fun i j => reduced.drop i < reduced.drop j) :
    ∃ leftmost, order.reverse.mapM (Outcome.index (lmsFrom s 0)) =
        (.ok leftmost.reverse : Result (List Nat)) ∧
      LmsOrder s leftmost ∧ leftmost.Pairwise fun i j => s.drop i < s.drop j := by
  have stands : ∀ place ∈ order, (lmsFrom s 0)[place]? = some ((lmsFrom s 0)[place]?.getD 0) := by
    intro place found
    have inside := mem_range.mp (perm.mem_iff.mp found)
    rw [reduction.length] at inside
    rw [List.getElem?_eq_getElem inside]
    rfl
  have placed : (order.map fun place => (lmsFrom s 0)[place]?.getD 0).Perm (lmsFrom s 0) := by
    have mapped := perm.map fun place => (lmsFrom s 0)[place]?.getD 0
    rw [reduction.length, map_range_getD] at mapped
    exact mapped
  refine ⟨order.map fun place => (lmsFrom s 0)[place]?.getD 0, ?_, ⟨?_, fun position => ?_⟩, ?_⟩
  · rw [← map_reverse]
    exact mapM_eq fun place found => index_of_getElem? (stands place (mem_reverse.mp found))
  · exact placed.nodup_iff.mpr (lmsOrder_lmsFrom s).nodup
  · exact placed.mem_iff.trans ((lmsOrder_lmsFrom s).mem_iff position)
  · rw [pairwise_map]
    refine sorted.imp_of_mem fun first second lower => ?_
    exact reduction.ordered (stands _ first) (stands _ second) lower

theorem LmsOrder.length_eq {left right : List Nat} (first : LmsOrder s left)
    (second : LmsOrder s right) : left.length = right.length :=
  ((perm_ext_iff_of_nodup first.nodup second.nodup).mpr fun position =>
    (first.mem_iff position).trans (second.mem_iff position).symm).length_eq

/-- Sorted substrings put the leftmost S-type positions in the order of their keys. -/
theorem lmsOrder_filter {out : List Nat} (perm : out.Perm (List.range s.length)) :
    LmsOrder s (out.filter (isLms s)) := by
  refine ⟨List.Nodup.filter _ (perm.nodup_iff.mpr nodup_range), fun position => ?_⟩
  rw [mem_filter, perm.mem_iff, mem_range]
  exact ⟨And.right, fun leftmost => ⟨lt_length_of_isLms leftmost, leftmost⟩⟩

/-- The order of the shorter sequence, by its own suffix array or by its names. -/
theorem Reduction.order_eq {reduced : List Nat} {name fuel : Nat}
    (reduction : Reduction s reduced name)
    (sorts : ∃ order, suffixArray fuel reduced name = .ok order ∧
      order.Perm (List.range reduced.length) ∧
        order.Pairwise fun i j => reduced.drop i < reduced.drop j) :
    ∃ order, (if name < reduced.length then suffixArray fuel reduced name else invert reduced) =
        .ok order ∧ order.Perm (List.range reduced.length) ∧
      order.Pairwise fun i j => reduced.drop i < reduced.drop j := by
  by_cases shared : name < reduced.length
  · rw [if_pos shared]
    exact sorts
  · rw [if_neg shared]
    exact invert_eq (reduction.ranks (Nat.le_of_not_lt shared))

/-- The suffix array of a sequence that ends in its only zero lists all suffixes in order. -/
theorem suffixArray_sorted {fuel : Nat} {s : List Nat} {k : Nat} (enough : s.length ≤ fuel)
    (ends : EndsInZero s) (below : ∀ symbol ∈ s, symbol < k) :
    ∃ sa, suffixArray fuel s k = .ok sa ∧ sa.Perm (List.range s.length) ∧
      sa.Pairwise fun i j => s.drop i < s.drop j := by
  induction fuel generalizing s k with
  | zero =>
    obtain ⟨front, rfl, _⟩ := ends
    rw [length_append, length_singleton] at enough
    omega
  | succ fuel ih =>
    have nonempty : s.length ≠ 0 := by
      obtain ⟨front, rfl, _⟩ := ends
      rw [length_append, length_singleton]
      exact Nat.succ_ne_zero _
    unfold suffixArray
    rw [if_neg nonempty]
    by_cases single : s.length = 1
    · rw [if_pos single, single]
      exact ⟨[0], rfl, .refl _, pairwise_singleton _ _⟩
    · obtain ⟨before, long⟩ : ∃ before, before + 2 = s.length := ⟨s.length - 2, by omega⟩
      have positions : (List.range s.length).filterM (lms (suffixTypes s)) = .ok (lmsFrom s 0) := by
        rw [filterM_eq fun position found => lms_eq (mem_range.mp found), lmsFrom, Nat.sub_zero,
          range_eq_range']
      -- The substrings, sorted by their keys.
      obtain ⟨out, ran, perm, induced⟩ := induce_sorted ends (by omega) below (lmsOrder_lmsFrom s)
      obtain ⟨dropped, drops, passes⟩ := bind_eq_ok.mp ran
      obtain ⟨slots, fills, reads⟩ := bind_eq_ok.mp passes
      have leftmost : out.filterM (lms (suffixTypes s)) = .ok (out.filter (isLms s)) :=
        filterM_eq fun position found => lms_eq (mem_range.mp (perm.mem_iff.mp found))
      have order := lmsOrder_filter perm
      have keys : (out.filter (isLms s)).Pairwise fun p q => rise s p ≤ rise s q :=
        ((induced _ _ (induces_keys s) fun c _ => bucket_falls (lmsOrder_lmsFrom s) c).imp
          le_of_not_gt).sublist filter_sublist
      -- Their names, and the order of these.
      obtain ⟨naming, names, reduction⟩ := ends.naming_reduces long order keys
      have count : (out.filter (isLms s)).length = (naming.names.filterMap id).length :=
        (order.length_eq (lmsOrder_lmsFrom s)).trans reduction.length.symm
      have half := lms_count order
      obtain ⟨ranks, ordered, ranksPerm, ranksSorted⟩ := reduction.order_eq
        (ih (by omega) reduction.ends reduction.below)
      obtain ⟨leading, places, lms, sorted⟩ := reduction.placed ranksPerm ranksSorted
      -- All suffixes, induced from the leftmost S-type ones.
      obtain ⟨sa, ran', perm', induced'⟩ := induce_sorted ends (by omega) below lms
      refine ⟨sa, ?_, perm', induced' _ _ ends.induces_drop fun c _ =>
        sorted.sublist (pick_sublist (symbolAt s) c leading)⟩
      have rest : (ranks.reverse.mapM (Outcome.index (lmsFrom s 0)) >>= fun placed =>
          dropAtTails s ((List.range k).map s.count) placed >>= fun sa =>
            induce s (suffixTypes s) ((List.range k).map s.count) sa >>= filled) =
              .ok sa := by
        rw [places, ok_bind]
        exact ran'
      rw [if_neg single, symbolCounts_eq below, ok_bind, positions, ok_bind]
      dsimp only
      rw [drops, ok_bind, fills, ok_bind, reads, ok_bind, leftmost, ok_bind, names, ok_bind, count]
      by_cases shared : naming.name < (naming.names.filterMap id).length
      · rw [if_pos shared] at ordered ⊢
        rw [ordered, ok_bind]
        exact rest
      · rw [if_neg shared] at ordered ⊢
        rw [ordered, ok_bind]
        exact rest

/-- The suffix array of a sequence that ends in its only zero exists, whatever fuel there is
from its length on, and lists all suffixes in order. -/
theorem suffixArray_correct {k : Nat} (ends : EndsInZero s) (below : ∀ symbol ∈ s, symbol < k) :
    ∃ sa, (∀ fuel, s.length ≤ fuel → suffixArray fuel s k = .ok sa) ∧
      sa.Perm (List.range s.length) ∧ sa.Pairwise fun i j => s.drop i < s.drop j := by
  obtain ⟨sa, _, perm, sorted⟩ := suffixArray_sorted (le_refl s.length) ends below
  refine ⟨sa, fun fuel enough => ?_, perm, sorted⟩
  obtain ⟨other, ran, permOther, sortedOther⟩ := suffixArray_sorted enough ends below
  have same : other = sa := List.Perm.eq_of_pairwise (fun i j _ _ lower higher =>
    absurd higher (lt_asymm lower)) sortedOther sorted (permOther.trans perm.symm)
  rw [ran, same]

/-- The suffixes of `banana`, with a zero behind. -/
theorem suffixArray_correct_banana :
    ∃ sa, (∀ fuel, 7 ≤ fuel → suffixArray fuel [2, 1, 3, 1, 3, 1, 0] 4 = .ok sa) ∧
      sa.Perm (List.range 7) ∧
        sa.Pairwise fun i j => [2, 1, 3, 1, 3, 1, 0].drop i < [2, 1, 3, 1, 3, 1, 0].drop j :=
  suffixArray_correct ⟨[2, 1, 3, 1, 3, 1], rfl, by decide⟩ (by decide)

end Order

end HermesDecomp.SuffixArray
