import HermesDecomp.Write.TailPass

/-!
# The order that the passes induce

Both passes together put every position into the array. Let a relation hold from smaller
codes to larger ones, and between positions of one code when it holds between the
positions behind them. If the leftmost S-type positions of each bucket stand in the order of
the relation, the passes leave all positions in it: when a position was placed, the position
behind it had been read, and of two positions of one code the first one was placed from the
first of the positions behind.
-/

namespace HermesDecomp.SuffixArray

open Shelves List

section Order

variable {s : List Nat} {k : Nat} {order large small : List Nat}

/-- The positions in the order that the passes leave. -/
def inducedOrder (s : List Nat) (k : Nat) (large small : List Nat) : List Nat :=
  join k fun c => bucket s c large ++ (bucket s c ((s.length - 1) :: small)).reverse

/-- The zero stands in a bucket of its own. -/
theorem EndsInZero.mem_bucket_zero (ends : EndsInZero s) {positions : List Nat}
    (inside : ∀ position ∈ positions, position < s.length) {position : Nat} :
    position ∈ bucket s 0 positions ↔ position ∈ positions ∧ position + 1 = s.length := by
  rw [bucket, mem_pick]
  exact and_congr_right fun member => ends.symbolAt_eq_zero_iff (inside position member)

theorem EndsInZero.bucket_zero_eq_nil (ends : EndsInZero s) {positions : List Nat}
    (inside : ∀ position ∈ positions, position + 1 < s.length) : bucket s 0 positions = [] := by
  rw [eq_nil_iff_forall_not_mem]
  intro position found
  obtain ⟨member, last⟩ := (ends.mem_bucket_zero fun position member =>
    Nat.lt_of_succ_lt (inside position member)).mp found
  exact ne_of_lt (inside position member) last

theorem EndsInZero.bucket_zero_eq_last (ends : EndsInZero s) {positions : List Nat}
    (nodup : positions.Nodup) (inside : ∀ position ∈ positions, position < s.length)
    (last : s.length - 1 ∈ positions) : bucket s 0 positions = [s.length - 1] := by
  have within := inside _ last
  refine perm_singleton.mp ((perm_ext_iff_of_nodup
    (nodup.sublist (pick_sublist (symbolAt s) 0 positions)) (nodup_singleton _)).mpr ?_)
  intro position
  refine (ends.mem_bucket_zero inside).trans ?_
  rw [mem_singleton]
  constructor
  · rintro ⟨_, same⟩
    omega
  · rintro rfl
    exact ⟨last, by omega⟩

theorem EndsInZero.bucket_last_cons (ends : EndsInZero s) (nonempty : 0 < s.length) {c : Nat}
    (positive : c ≠ 0) : bucket s c ((s.length - 1) :: small) = bucket s c small := by
  have zero : symbolAt s (s.length - 1) = 0 := (ends.symbolAt_eq_zero_iff (by omega)).mpr (by omega)
  exact pick_cons_other (symbolAt s) (zero ▸ positive)

theorem SmallOrder.nodup_last (rest : SmallOrder s k large small) :
    ((s.length - 1) :: small).Nodup := by
  refine nodup_cons.mpr ⟨fun found => ?_, rest.nodup⟩
  have before := ((rest.mem_iff _).mp found).1
  omega

theorem SmallOrder.inside_last (rest : SmallOrder s k large small) (nonempty : 0 < s.length) :
    ∀ position ∈ (s.length - 1) :: small, position < s.length := by
  intro position found
  rcases mem_cons.mp found with rfl | member
  · omega
  · exact Nat.lt_of_succ_lt ((rest.mem_iff position).mp member).1

section

variable (heads : LargeOrder s k order large) (rest : SmallOrder s k large small)

include heads rest

/-- The L-type positions and the S-type ones are all positions. -/
theorem LargeOrder.perm (nonempty : 0 < s.length) :
    (large ++ (s.length - 1) :: small).Perm (List.range s.length) := by
  have last : isS s (s.length - 1) = true := isS_last (by omega)
  have types : ∀ position ∈ (s.length - 1) :: small, isS s position = true := by
    intro position found
    rcases mem_cons.mp found with rfl | member
    · exact last
    · exact ((rest.mem_iff position).mp member).2
  refine (perm_ext_iff_of_nodup (heads.nodup_append rest.nodup_last types)
    nodup_range).mpr fun position => ?_
  rw [mem_append, mem_cons, heads.mem_iff, rest.mem_iff, mem_range]
  constructor
  · rintro (⟨inside, _⟩ | rfl | ⟨within, _⟩)
    · exact inside
    · omega
    · exact Nat.lt_of_succ_lt within
  · intro inside
    cases type : isS s position with
    | false => exact .inl ⟨inside, rfl⟩
    | true =>
      by_cases final : position = s.length - 1
      · exact .inr (.inl final)
      · exact .inr (.inr ⟨by omega, rfl⟩)

/-- The passes leave all positions. -/
theorem inducedOrder_perm (below : ∀ symbol ∈ s, symbol < k) (nonempty : 0 < s.length) :
    (inducedOrder s k large small).Perm (List.range s.length) := by
  have reversed : (join k fun c => (bucket s c ((s.length - 1) :: small)).reverse).Perm
      ((s.length - 1) :: small) := by
    have shelves : (join k fun c => (bucket s c ((s.length - 1) :: small)).reverse) =
        join k fun c => pick (symbolAt s) c ((s.length - 1) :: small).reverse :=
      join_congr fun c _ => (pick_reverse (symbolAt s) c _).symm
    rw [shelves]
    exact (join_pick_perm (symbolAt s) fun position found => symbolAt_lt below
      (rest.inside_last nonempty position (mem_reverse.mp found))).trans (reverse_perm _)
  exact (join_append_perm.trans (List.Perm.append (join_pick_perm (symbolAt s) fun position found =>
    symbolAt_lt below ((heads.mem_iff position).mp found).1) reversed)).trans
      (heads.perm rest nonempty)

/-- The L-type positions of a symbol and its S-type ones fill its bucket. -/
theorem LargeOrder.bucket_length (nonempty : 0 < s.length) (c : Nat) :
    (bucket s c large).length + (bucket s c ((s.length - 1) :: small)).length = s.count c := by
  rw [← bucket_range_length, ← length_append, bucket, bucket, ← pick_append]
  exact ((heads.perm rest nonempty).filter _).length_eq

end

/-- Nothing is left over. -/
theorem tailShelf_eq_inducedOrder (ends : EndsInZero s) (heads : LargeOrder s k order large)
    (rest : SmallOrder s k large small) (lms : LmsOrder s order) (long : 1 < s.length) {c : Nat}
    (inside : c < k) :
    tailShelf s (headShelf s (lmsShelf s order) large) small c =
      (bucket s c large ++ (bucket s c ((s.length - 1) :: small)).reverse).map some := by
  have nonempty : 0 < s.length := Nat.lt_of_succ_lt long
  have count := heads.bucket_length rest nonempty c
  have leftmost := (heads.fits lms).append_le inside
  by_cases zero : c = 0
  · subst zero
    have orders : bucket s 0 order = [s.length - 1] := by
      refine ends.bucket_zero_eq_last lms.nodup (fun position found =>
        lt_length_of_isLms ((lms.mem_iff position).mp found)) ((lms.mem_iff _).mpr ?_)
      have last := ends.isLms_last (i := s.length - 2) (by omega)
      have place : s.length - 2 + 1 = s.length - 1 := by omega
      exact place ▸ last
    have smalls : bucket s 0 small = [] :=
      ends.bucket_zero_eq_nil fun position found => ((rest.mem_iff position).mp found).1
    have lasts : bucket s 0 ((s.length - 1) :: small) = [s.length - 1] :=
      ends.bucket_zero_eq_last rest.nodup_last (rest.inside_last nonempty) mem_cons_self
    have larges : bucket s 0 large = [] := by
      refine ends.bucket_zero_eq_nil fun position found => ?_
      obtain ⟨within, type⟩ := (heads.mem_iff position).mp found
      exact (next_of_largeType within type).1
    rw [larges, lasts] at count
    rw [tailShelf_eq leftmost (by rw [larges, smalls]; exact Nat.zero_le _), middle, larges, smalls,
      lasts, orders, ← count]
    rfl
  · rw [ends.bucket_last_cons nonempty zero] at count ⊢
    have empty : s.count c - (bucket s c small).length - (bucket s c large).length = 0 := by omega
    rw [tailShelf_eq leftmost (le_of_eq count), middle, empty, take_zero, nil_append, map_append]

/-- Slots that all hold a position hold a list of positions. -/
theorem filled_map_some (positions : List Nat) : filled (positions.map some) = .ok positions := by
  induction positions with
  | nil => rfl
  | cons first rest ih =>
    rw [filled] at ih ⊢
    rw [map_cons, mapM_cons, ih]
    rfl

theorem map_join {α β : Type} (f : α → β) (count : Nat) (shelf : Nat → List α) :
    (join count shelf).map f = join count fun c => (shelf c).map f := by
  rw [join, map_flatMap]
  rfl

/-- From leftmost S-type positions in some order the passes fill the array. -/
theorem induce_eq (ends : EndsInZero s) (long : 1 < s.length) (below : ∀ symbol ∈ s, symbol < k)
    (lms : LmsOrder s order) :
    ∃ large small, LargeOrder s k order large ∧ SmallOrder s k large small ∧
      (dropAtTails s ((List.range k).map s.count) order.reverse >>= fun sa =>
        induce s (suffixTypes s) ((List.range k).map s.count) sa >>= filled) =
          .ok (inducedOrder s k large small) := by
  have inside : ∀ position ∈ order, position < s.length := fun position found =>
    lt_length_of_isLms ((lms.mem_iff position).mp found)
  obtain ⟨large, ranHeads, headState⟩ := headPass_eq lms below (le_refl s.length)
  have heads := headState.largeOrder lms below
  obtain ⟨small, ranTails, tailState⟩ := tailPass_eq heads lms below (le_refl s.length)
  rw [Nat.sub_self] at ranTails tailState
  have rest := tailState.smallOrder ends heads lms below
  refine ⟨large, small, heads, rest, ?_⟩
  have slots : tailSlots s k order large small = (inducedOrder s k large small).map some := by
    rw [inducedOrder, map_join]
    exact join_congr fun c within => tailShelf_eq_inducedOrder ends heads rest lms long within
  have ran : induce s (suffixTypes s) ((List.range k).map s.count)
      (join k (lmsShelf s order)) = .ok (tailSlots s k order large small) := by
    rw [headFilling_nil] at ranHeads
    rw [tailFilling_nil (heads.sized lms), ← range_eq_range'] at ranTails
    rw [induce, heads_counts, tails_counts]
    change ((List.range s.length).foldlM (headStep s) _ >>= fun filling =>
      (List.range s.length).reverse.foldlM (tailStep s) (filling.1, _) >>= fun filling =>
        pure filling.1) = _
    rw [ranHeads, Outcome.ok_bind]
    exact (congrArg (· >>= fun filling => pure filling.1) ranTails).trans rfl
  rw [dropAtTails_eq below lms.nodup inside, Outcome.ok_bind, ran, Outcome.ok_bind, slots,
    filled_map_some]

variable {R : Nat → Nat → Prop}

/-- Positions are in order when the L-type ones and the S-type ones of every bucket are. -/
theorem pairwise_codes {front back : Nat → List Nat}
    (byCode : ∀ i j, i < s.length → j < s.length → code s i < code s j → R i j)
    (fronts : ∀ c, ∀ i ∈ front c, i < s.length ∧ symbolAt s i = c ∧ isS s i = false)
    (backs : ∀ c, ∀ i ∈ back c, i < s.length ∧ symbolAt s i = c ∧ isS s i = true)
    (alongFront : ∀ c < k, (front c).Pairwise R) (alongBack : ∀ c < k, (back c).Pairwise R) :
    (join k fun c => front c ++ back c).Pairwise R := by
  have stands : ∀ c, ∀ i ∈ front c ++ back c, i < s.length ∧ symbolAt s i = c := by
    intro c i found
    rcases mem_append.mp found with here | there
    · exact ⟨(fronts c i here).1, (fronts c i here).2.1⟩
    · exact ⟨(backs c i there).1, (backs c i there).2.1⟩
  refine pairwise_join (fun c inside => ?_) fun c d lower _ i first j second => ?_
  · refine pairwise_append.mpr ⟨alongFront c inside, alongBack c inside, ?_⟩
    intro i first j second
    obtain ⟨insideLeft, symbol, large⟩ := fronts c i first
    obtain ⟨insideRight, same, type⟩ := backs c j second
    refine byCode i j insideLeft insideRight ?_
    rw [code, code, symbol, same, large, type]
    exact Nat.lt_succ_self _
  · obtain ⟨insideLeft, rfl⟩ := stands c i first
    obtain ⟨insideRight, rfl⟩ := stands d j second
    refine byCode i j insideLeft insideRight ?_
    have most := Bool.toNat_le (isS s i)
    unfold code
    omega

/-- The positions that were placed from positions in order are in order, bucket by bucket. -/
theorem pairwise_bucket {read placed : List Nat} {wanted : Bool} {Q : Nat → Nat → Prop} (c : Nat)
    (scanned : placed = read.filterMap (before s wanted)) (sorted : read.Pairwise R)
    (byNext : ∀ i j, isS s i = wanted → isS s j = wanted → symbolAt s i = c → symbolAt s j = c →
      i ∈ placed → j ∈ placed → R (i + 1) (j + 1) → Q i j) :
    (bucket s c placed).Pairwise Q := by
  have along : placed.Pairwise fun i j => isS s i = wanted ∧ isS s j = wanted ∧ R (i + 1) (j + 1) := by
    rw [scanned, pairwise_filterMap]
    refine sorted.imp fun related i first j second => ?_
    obtain ⟨rfl, left⟩ := before_eq_some.mp first
    obtain ⟨rfl, right⟩ := before_eq_some.mp second
    exact ⟨left, right, related⟩
  refine (along.sublist (pick_sublist (symbolAt s) c placed)).imp_of_mem ?_
  rintro i j first second ⟨left, right, related⟩
  obtain ⟨here, symbol⟩ := (mem_pick (symbolAt s)).mp first
  obtain ⟨there, same⟩ := (mem_pick (symbolAt s)).mp second
  exact byNext i j left right symbol same here there related

/-- What a collection holds of the positions of one symbol and type. -/
theorem mem_bucket_typed {positions : List Nat} {wanted : Bool}
    (typed : ∀ i ∈ positions, i < s.length ∧ isS s i = wanted) (c : Nat) :
    ∀ i ∈ bucket s c positions, i < s.length ∧ symbolAt s i = c ∧ isS s i = wanted := by
  intro i found
  obtain ⟨member, symbol⟩ := (mem_pick (symbolAt s)).mp found
  obtain ⟨inside, type⟩ := typed i member
  exact ⟨inside, symbol, type⟩

theorem LmsOrder.typed (lms : LmsOrder s order) : ∀ i ∈ order, i < s.length ∧ isS s i = true := by
  intro i found
  have leftmost := (lms.mem_iff i).mp found
  exact ⟨lt_length_of_isLms leftmost, (isLms_iff.mp leftmost).2.1⟩

/-- The first pass leaves the positions in order. -/
theorem LargeOrder.sorted (heads : LargeOrder s k order large) (lms : LmsOrder s order)
    (byCode : ∀ i j, i < s.length → j < s.length → code s i < code s j → R i j)
    (byNext : ∀ i j, i < s.length → j < s.length → isS s i = false → isS s j = false →
      symbolAt s i = symbolAt s j → R (i + 1) (j + 1) → R i j)
    (given : ∀ c < k, (bucket s c order).Pairwise R) :
    (join k fun c => bucket s c large ++ bucket s c order).Pairwise R := by
  have fronts := mem_bucket_typed fun i found => (heads.mem_iff i).mp found
  have backs := mem_bucket_typed lms.typed
  -- Positions at the end are compared first: a comparison refers to the positions behind.
  have near : ∀ distance, (join k fun c => bucket s c large ++ bucket s c order).Pairwise
      fun i j => s.length ≤ i + distance → R i j := by
    intro distance
    induction distance with
    | zero =>
      refine pairwise_of_forall_mem_list fun i found j _ far => ?_
      obtain ⟨c, _, member⟩ := mem_join.mp found
      have inside : i < s.length := by
        rcases mem_append.mp member with here | there
        · exact (fronts c i here).1
        · exact (backs c i there).1
      exact absurd inside (Nat.not_lt_of_le far)
    | succ distance ih =>
      refine pairwise_codes (fun i j insideLeft insideRight lower _ =>
        byCode i j insideLeft insideRight lower) fronts backs (fun c _ => ?_)
          fun c inside => (given c inside).imp ?_
      · refine pairwise_bucket c heads.scanned ih ?_
        intro i j left right symbol same first second related far
        exact byNext i j ((heads.mem_iff i).mp first).1 ((heads.mem_iff j).mp second).1 left right
          (symbol.trans same.symm) (related (by omega))
      · intro i j related _
        exact related
  exact (near s.length).imp fun related => related (Nat.le_add_left _ _)

/-- The second pass reads the positions that it leaves. -/
theorem SmallOrder.scanned_induced (rest : SmallOrder s k large small) (ends : EndsInZero s)
    (long : 1 < s.length) :
    small = (inducedOrder s k large small).reverse.filterMap (before s true) := by
  have nonempty : 0 < s.length := Nat.lt_of_succ_lt long
  refine rest.scanned.trans ?_
  rw [filterMap_reverse, filterMap_reverse, inducedOrder, filterMap_join, filterMap_join]
  refine congrArg List.reverse (join_congr fun c inside => ?_)
  rw [filterMap_append, filterMap_append]
  refine congrArg ((bucket s c large).filterMap (before s true) ++ ·) ?_
  by_cases zero : c = 0
  · subst zero
    have last : isLms s (s.length - 1) = true := by
      have leftmost := ends.isLms_last (i := s.length - 2) (by omega)
      have place : s.length - 2 + 1 = s.length - 1 := by omega
      exact place ▸ leftmost
    have alone : bucket s 0 ((s.length - 1) :: small) = [s.length - 1] :=
      ends.bucket_zero_eq_last rest.nodup_last (rest.inside_last nonempty) mem_cons_self
    have none_left : bucket s 0 small = [] :=
      ends.bucket_zero_eq_nil fun position found => ((rest.mem_iff position).mp found).1
    rw [alone, none_left]
    exact (filterMap_cons_none (before_lms last)).symm
  · rw [ends.bucket_last_cons nonempty zero]

/-- The passes leave all positions in order. -/
theorem SmallOrder.sorted (rest : SmallOrder s k large small) (ends : EndsInZero s)
    (long : 1 < s.length) (heads : LargeOrder s k order large)
    (byCode : ∀ i j, i < s.length → j < s.length → code s i < code s j → R i j)
    (byNext : ∀ i j, i + 1 < s.length → j + 1 < s.length → isS s i = true → isS s j = true →
      symbolAt s i = symbolAt s j → R (i + 1) (j + 1) → R i j)
    (given : ∀ c < k, (bucket s c large).Pairwise R) :
    (inducedOrder s k large small).Pairwise R := by
  have nonempty : 0 < s.length := Nat.lt_of_succ_lt long
  have fronts := mem_bucket_typed fun i found => (heads.mem_iff i).mp found
  have lasts : ∀ i ∈ (s.length - 1) :: small, i < s.length ∧ isS s i = true := by
    intro i found
    refine ⟨rest.inside_last nonempty i found, ?_⟩
    rcases mem_cons.mp found with rfl | member
    · exact isS_last (by omega)
    · exact ((rest.mem_iff i).mp member).2
  have backs : ∀ c, ∀ i ∈ (bucket s c ((s.length - 1) :: small)).reverse,
      i < s.length ∧ symbolAt s i = c ∧ isS s i = true :=
    fun c i found => mem_bucket_typed lasts c i (mem_reverse.mp found)
  have near : ∀ distance, (inducedOrder s k large small).Pairwise
      fun i j => s.length ≤ i + distance → R i j := by
    intro distance
    induction distance with
    | zero =>
      refine pairwise_of_forall_mem_list fun i found j _ far => ?_
      obtain ⟨c, _, member⟩ := mem_join.mp found
      have inside : i < s.length := by
        rcases mem_append.mp member with here | there
        · exact (fronts c i here).1
        · exact (backs c i there).1
      exact absurd inside (Nat.not_lt_of_le far)
    | succ distance ih =>
      refine pairwise_codes (fun i j insideLeft insideRight lower _ =>
        byCode i j insideLeft insideRight lower) fronts backs
          (fun c inside => (given c inside).imp ?_) fun c inside => ?_
      · intro i j related _
        exact related
      · rw [pairwise_reverse]
        by_cases zero : c = 0
        · subst zero
          have alone : bucket s 0 ((s.length - 1) :: small) = [s.length - 1] :=
            ends.bucket_zero_eq_last rest.nodup_last (rest.inside_last nonempty) mem_cons_self
          rw [alone]
          exact pairwise_singleton _ _
        · rw [ends.bucket_last_cons nonempty zero]
          refine pairwise_bucket c (rest.scanned_induced ends long) (pairwise_reverse.mpr ih) ?_
          intro i j left right symbol same first second related far
          exact byNext j i ((rest.mem_iff j).mp second).1 ((rest.mem_iff i).mp first).1 right left
            (same.trans symbol.symm) (related (by omega))
  exact (near s.length).imp fun related => related (Nat.le_add_left _ _)

/-- A relation that the first pass carries on and one that the second pass carries on from it. -/
structure Induces (s : List Nat) (Q R : Nat → Nat → Prop) : Prop where
  largeCode : ∀ i j, i < s.length → j < s.length → code s i < code s j → Q i j
  largeNext : ∀ i j, i < s.length → j < s.length → isS s i = false → isS s j = false →
    symbolAt s i = symbolAt s j → Q (i + 1) (j + 1) → Q i j
  passed : ∀ i j, isS s i = false → isS s j = false → Q i j → R i j
  smallCode : ∀ i j, i < s.length → j < s.length → code s i < code s j → R i j
  smallNext : ∀ i j, i + 1 < s.length → j + 1 < s.length → isS s i = true → isS s j = true →
    symbolAt s i = symbolAt s j → R (i + 1) (j + 1) → R i j

/-- From leftmost S-type positions that are in order bucket by bucket, the passes put all
positions in order. -/
theorem induce_sorted (ends : EndsInZero s) (long : 1 < s.length)
    (below : ∀ symbol ∈ s, symbol < k) (lms : LmsOrder s order) :
    ∃ out, (dropAtTails s ((List.range k).map s.count) order.reverse >>= fun sa =>
        induce s (suffixTypes s) ((List.range k).map s.count) sa >>= filled) = .ok out ∧
      out.Perm (List.range s.length) ∧
        ∀ Q R, Induces s Q R → (∀ c < k, (bucket s c order).Pairwise Q) → out.Pairwise R := by
  obtain ⟨large, small, heads, rest, ran⟩ := induce_eq ends long below lms
  refine ⟨inducedOrder s k large small, ran,
    inducedOrder_perm heads rest below (Nat.lt_of_succ_lt long), fun Q R induces given => ?_⟩
  have first := heads.sorted lms induces.largeCode induces.largeNext given
  refine rest.sorted ends long heads induces.smallCode induces.smallNext fun c inside => ?_
  have shelf : (bucket s c large ++ bucket s c order).Pairwise Q := by
    rw [join_split inside] at first
    exact (pairwise_append.mp (pairwise_append.mp first).2.1).1
  refine (pairwise_append.mp shelf).1.imp_of_mem ?_
  intro i j first second related
  have typed := fun position found => (heads.mem_iff position).mp found
  exact induces.passed i j (mem_bucket_typed typed c i first).2.2
    (mem_bucket_typed typed c j second).2.2 related

/-- Suffixes are in the order of the suffixes behind them. -/
theorem EndsInZero.induces_drop (ends : EndsInZero s) :
    Induces s (fun i j => s.drop i < s.drop j) (fun i j => s.drop i < s.drop j) where
  largeCode _ _ insideLeft insideRight := ends.drop_lt_of_code insideLeft insideRight
  largeNext _ _ insideLeft insideRight _ _ := drop_lt_of_next insideLeft insideRight
  passed _ _ _ _ := id
  smallCode _ _ insideLeft insideRight := ends.drop_lt_of_code insideLeft insideRight
  smallNext _ _ withinLeft withinRight _ _ :=
    drop_lt_of_next (Nat.lt_of_succ_lt withinLeft) (Nat.lt_of_succ_lt withinRight)

end Order

end HermesDecomp.SuffixArray
