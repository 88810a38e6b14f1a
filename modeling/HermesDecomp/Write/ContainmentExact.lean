import HermesDecomp.Write.PackedLayout
import HermesDecomp.Write.SuffixOrder

/-!
# Containers are found exactly

The sequence of all texts ends in its only zero, so its suffix array lists all suffixes in order,
and the rank of a text's own suffix tells where to look. The search answers for every text. It
answers with a container exactly when some other text contains the text; then the container is a
longer text, so climbing from container to container ends at a text that no other one contains.
-/

namespace HermesDecomp.StringStorage

open Outcome List

/-- What stands between two lists that begin alike begins like them. -/
theorem prefix_between {start low middle high : List Nat} (first : start <+: low)
    (last : start <+: high) (above : low < middle) (below : middle < high) : start <+: middle := by
  induction start generalizing low middle high with
  | nil => exact nil_prefix
  | cons head start ih =>
    obtain ⟨lowRest, rfl⟩ := first
    obtain ⟨highRest, rfl⟩ := last
    match middle, above, below with
    | symbol :: middle, above, below =>
      rw [cons_append, cons_lt_cons_iff] at above below
      have same : symbol = head := by
        rcases above with lower | ⟨same, _⟩
        · rcases below with higher | ⟨same, _⟩
          · exact absurd higher (lt_asymm lower)
          · exact same
        · exact same.symm
      subst same
      have lower := (above.resolve_left (lt_irrefl _)).2
      have higher := (below.resolve_left (lt_irrefl _)).2
      exact (prefix_cons_inj _).mpr (ih (prefix_append _ _) (prefix_append _ _) lower higher)

/-- Of two suffixes that begin with a text, the first one has a neighbour that does. -/
theorem neighbour_of_occurrence {text start : List Nat} {sa : List Nat} {place other here : Nat}
    {position : Nat} (sorted : sa.Pairwise fun i j => text.drop i < text.drop j)
    (found : sa[place]? = some here) (elsewhere : sa[other]? = some position) (apart : here ≠ position)
    (own : start <+: text.drop here) (occurs : start <+: text.drop position) :
    ∃ next neighbour, (next + 1 = place ∨ next = place + 1) ∧ sa[next]? = some neighbour ∧
      start <+: text.drop neighbour := by
  have ordered : ∀ {first second left right : Nat}, sa[first]? = some left →
      sa[second]? = some right → first < second → text.drop left < text.drop right := by
    intro first second left right at_first at_second before
    obtain ⟨insideFirst, rfl⟩ := List.getElem?_eq_some_iff.mp at_first
    obtain ⟨insideSecond, rfl⟩ := List.getElem?_eq_some_iff.mp at_second
    exact pairwise_iff_getElem.mp sorted first second insideFirst insideSecond before
  obtain ⟨inside, _⟩ := List.getElem?_eq_some_iff.mp found
  obtain ⟨within, _⟩ := List.getElem?_eq_some_iff.mp elsewhere
  rcases Nat.lt_trichotomy other place with before | same | after
  · obtain ⟨next, rfl⟩ : ∃ next, place = next + 1 := ⟨place - 1, by omega⟩
    have stands : sa[next]? = some sa[next] := List.getElem?_eq_getElem (by omega)
    refine ⟨next, sa[next], .inl rfl, stands, ?_⟩
    rcases Nat.lt_or_eq_of_le (Nat.le_of_lt_succ before) with earlier | rfl
    · exact prefix_between occurs own (ordered elsewhere stands earlier)
        (ordered stands found (Nat.lt_succ_self next))
    · obtain rfl : position = sa[other] := Option.some.inj (elsewhere.symm.trans stands)
      exact occurs
  · subst same
    exact absurd (Option.some.inj (found.symm.trans elsewhere)) apart
  · have stands : sa[place + 1]? = some sa[place + 1] := List.getElem?_eq_getElem (by omega)
    refine ⟨place + 1, sa[place + 1], .inr rfl, stands, ?_⟩
    rcases Nat.lt_or_eq_of_le (Nat.succ_le_of_lt after) with later | rfl
    · exact prefix_between own occurs (ordered found stands (Nat.lt_succ_self place))
        (ordered stands elsewhere later)
    · obtain rfl : position = sa[place + 1] := Option.some.inj (elsewhere.symm.trans stands)
      exact occurs

/-- Skipping whole units of bytes skips symbols. -/
theorem symbols_drop (utf16 : Bool) (text : Bytes) (count : Nat) :
    symbols utf16 (text.drop (count * unitSize utf16)) = (symbols utf16 text).drop count := by
  cases utf16 with
  | false =>
    rw [unitSize, if_neg Bool.false_ne_true, mul_one, symbols, symbols,
      if_neg Bool.false_ne_true, if_neg Bool.false_ne_true, map_drop]
  | true =>
    have skipped : Utf.units (text.drop (count * 2)) = (Utf.units text).drop count := by
      induction count generalizing text with
      | zero => rw [zero_mul]; rfl
      | succ count ih =>
        rw [Nat.succ_mul]
        rcases text with _ | ⟨_, _ | ⟨_, rest⟩⟩
        · rw [drop_nil]; rfl
        · rfl
        · exact ih rest
    rw [unitSize, if_pos rfl, symbols, symbols, if_pos rfl, if_pos rfl, skipped, map_drop]

/-- Keeping whole units of bytes keeps symbols. -/
theorem symbols_take (utf16 : Bool) (text : Bytes) (count : Nat) :
    symbols utf16 (text.take (count * unitSize utf16)) = (symbols utf16 text).take count := by
  cases utf16 with
  | false =>
    rw [unitSize, if_neg Bool.false_ne_true, mul_one, symbols, symbols,
      if_neg Bool.false_ne_true, if_neg Bool.false_ne_true, map_take]
  | true =>
    have kept : Utf.units (text.take (count * 2)) = (Utf.units text).take count := by
      induction count generalizing text with
      | zero => rw [zero_mul]; rfl
      | succ count ih =>
        rw [Nat.succ_mul]
        rcases text with _ | ⟨low, _ | ⟨high, rest⟩⟩
        · rw [take_nil]; rfl
        · rfl
        · exact congrArg (List.cons (Bytes.leNat [low, high])) (ih rest)
    rw [unitSize, if_pos rfl, symbols, symbols, if_pos rfl, if_pos rfl, kept, map_take]

/-- The text occurs in another one, at a whole unit. -/
def OccursAt (utf16 : Bool) (inner outer : Bytes) (offset : Nat) : Prop :=
  unitSize utf16 ∣ offset ∧ Bytes.slice outer offset inner.length = some inner

/-- An occurrence of bytes at a whole unit is one of symbols. -/
theorem OccursAt.symbols {utf16 : Bool} {inner outer : Bytes} {offset : Nat}
    (occurs : OccursAt utf16 inner outer offset) (whole : inner.length % unitSize utf16 = 0) :
    ∃ units, offset = units * unitSize utf16 ∧
      StringStorage.symbols utf16 inner <+: (StringStorage.symbols utf16 outer).drop units := by
  obtain ⟨⟨units, rfl⟩, held⟩ := occurs
  obtain ⟨_, same⟩ := Bytes.slice_eq_some.mp held
  refine ⟨units, mul_comm _ _, ?_⟩
  have size := symbols_length whole
  rw [mul_comm] at same
  have read : StringStorage.symbols utf16 inner = ((StringStorage.symbols utf16 outer).drop units).take
      (StringStorage.symbols utf16 inner).length := by
    conv_lhs => rw [← same, size, symbols_take, symbols_drop]
  rw [read]
  exact take_prefix _ _

open Outcome SuffixArray

section Sequence

variable {utf16 : Bool} {reps : List Bytes}

/-- The sequence of the texts ends in its only zero. -/
theorem endsInZero_joined (utf16 : Bool) (reps : List Bytes) : EndsInZero (joined utf16 reps) := by
  refine ⟨separated utf16 reps, rfl, fun found => ?_⟩
  obtain ⟨text, _, member⟩ := mem_flatMap.mp found
  rcases mem_append.mp member with here | there
  · have large := two_le_symbol here
    omega
  · exact absurd (mem_singleton.mp there) (by decide)

/-- Every symbol is below the size of the alphabet. -/
theorem lt_alphabet {text : List Nat} {symbol : Nat} (found : symbol ∈ text) :
    symbol < text.foldl max 0 + 1 := by
  have grows : ∀ (rest : List Nat) (most : Nat), most ≤ rest.foldl max most ∧
      ∀ symbol ∈ rest, symbol ≤ rest.foldl max most := by
    intro rest
    induction rest with
    | nil => exact fun most => ⟨le_refl most, by nofun⟩
    | cons first rest ih =>
      intro most
      obtain ⟨kept, each⟩ := ih (max most first)
      refine ⟨le_trans (le_max_left _ _) kept, fun symbol member => ?_⟩
      rcases mem_cons.mp member with rfl | later
      · exact le_trans (le_max_right _ _) kept
      · exact each symbol later
  exact Nat.lt_succ_of_le ((grows text 0).2 symbol found)

/-- A text ends before a later one starts. -/
theorem startsFrom_apart {start c d first second : Nat} {text : Bytes} (earlier : c < d)
    (placed : (startsFrom utf16 start reps)[c]? = some first) (found : reps[c]? = some text)
    (later : (startsFrom utf16 start reps)[d]? = some second) :
    first + (symbols utf16 text).length + 1 ≤ second := by
  have from_start : ∀ {reps : List Bytes} {start d second : Nat},
      (startsFrom utf16 start reps)[d]? = some second → start ≤ second := by
    intro reps
    induction reps with
    | nil => nofun
    | cons text rest ih =>
      intro start d second found
      cases d with
      | zero => exact le_of_eq (Option.some.inj found)
      | succ d =>
        have behind := ih (List.getElem?_cons_succ.symm.trans found)
        omega
  induction reps generalizing start c d with
  | nil => cases found
  | cons head rest ih =>
    cases d with
    | zero => exact absurd earlier (Nat.not_lt_zero c)
    | succ d =>
      cases c with
      | zero =>
        obtain rfl : start = first := Option.some.inj placed
        obtain rfl : head = text := Option.some.inj found
        exact from_start (List.getElem?_cons_succ.symm.trans later)
      | succ c =>
        exact ih (Nat.lt_of_succ_lt_succ earlier)
          (List.getElem?_cons_succ.symm.trans placed) (List.getElem?_cons_succ.symm.trans found)
          (List.getElem?_cons_succ.symm.trans later)

/-- The sequence from a text's start on is the text, its separator, and the rest. -/
theorem drop_joined {c base : Nat} {text : Bytes}
    (placed : (startsFrom utf16 0 reps)[c]? = some base) (found : reps[c]? = some text) :
    ∃ after, (joined utf16 reps).drop base = symbols utf16 text ++ 1 :: after ∧
      base + (symbols utf16 text).length + 1 + after.length = (joined utf16 reps).length := by
  obtain ⟨before, after, parts, rfl⟩ := startsFrom_spec placed found
  refine ⟨after ++ [0], ?_, ?_⟩
  · rw [joined_eq, parts, zero_add, append_assoc, drop_left' rfl, append_assoc, cons_append]
  · simp only [joined_eq, parts, length_append, length_cons, length_nil]
    omega

/-- A text that begins at a position of a text occurs in it. -/
theorem eq_owner {c r first second position : Nat} {text : Bytes}
    (placed : (startsFrom utf16 0 reps)[c]? = some first) (found : reps[c]? = some text)
    (low : first ≤ position) (high : position ≤ first + (symbols utf16 text).length)
    (other : (startsFrom utf16 0 reps)[r]? = some second) (same : second = position)
    {inner : Bytes} (innerFound : reps[r]? = some inner) : c = r := by
  subst same
  rcases Nat.lt_trichotomy c r with before | equal | after
  · have apart := startsFrom_apart before placed found other
    omega
  · exact equal
  · have apart := startsFrom_apart after other innerFound placed
    omega

/-- Every position of the sequence has the rank that the suffix array says. -/
theorem ranks_eq {size : Nat} {sa : List Nat} (perm : sa.Perm (List.range size)) :
    ∃ rank, ranks size sa = ok rank ∧ ∀ place position : Nat, sa[place]? = some position →
      rank[position]? = some place := by
  obtain ⟨rank, ran, _, stored, _⟩ := stores_eq sa (List.replicate size 0) 0
    (fun position member => by
      rw [length_replicate]
      exact mem_range.mp (perm.mem_iff.mp member)) (perm.nodup_iff.mpr nodup_range)
  refine ⟨rank, ran, fun place position found => ?_⟩
  rw [stored place position found, zero_add]

/-- Another text contains the `r`-th one at a whole unit. -/
def ContainedElsewhere (utf16 : Bool) (reps : List Bytes) (r : Nat) : Prop :=
  ∃ c inner outer offset, c ≠ r ∧ reps[r]? = some inner ∧ reps[c]? = some outer ∧
    OccursAt utf16 inner outer offset

/-- A suffix array of the sequence and its ranks. -/
structure Ranked (text sa rank : List Nat) : Prop where
  perm : sa.Perm (List.range text.length)
  sorted : sa.Pairwise fun i j => text.drop i < text.drop j
  ranks : ∀ place position : Nat, sa[place]? = some position → rank[position]? = some place

/-- Every position stands in the suffix array. -/
theorem Ranked.stands {text sa rank : List Nat} (ranked : Ranked text sa rank) {position : Nat}
    (inside : position < text.length) : ∃ place : Nat, sa[place]? = some position := by
  obtain ⟨place, within, here⟩ := getElem_of_mem (ranked.perm.mem_iff.mpr (mem_range.mpr inside))
  exact ⟨place, here ▸ List.getElem?_eq_getElem within⟩

/-- A suffix that begins with symbols is not empty. -/
theorem lt_of_begins {text own : List Nat} {position : Nat} (nonempty : own ≠ [])
    (begins : own <+: text.drop position) : position < text.length := by
  by_contra outside
  rw [drop_eq_nil_of_le (Nat.le_of_not_lt outside)] at begins
  exact nonempty (prefix_nil.mp begins)

/-- A suffix that begins with a text is not the final sentinel. -/
theorem lt_separated_of_begins {inner : Bytes} {position : Nat} (nonempty : symbols utf16 inner ≠ [])
    (begins : symbols utf16 inner <+: (joined utf16 reps).drop position) :
    position < 0 + (separated utf16 reps).length := by
  have inside := lt_of_begins nonempty begins
  rw [joined_eq, length_append, length_singleton] at inside
  by_contra outside
  have last : position = (separated utf16 reps).length := by omega
  rw [joined_eq, last, drop_left' rfl] at begins
  obtain ⟨symbol, rest, own⟩ := exists_cons_of_ne_nil nonempty
  rw [own, cons_prefix_cons] at begins
  have large : 2 ≤ symbol := two_le_symbol (own ▸ mem_cons_self)
  omega

/-- Where an occurrence inside a text stands in the sequence. -/
theorem occurrence_position {c units : Nat} {inner outer : Bytes} (found : reps[c]? = some outer)
    (held : symbols utf16 inner <+: (symbols utf16 outer).drop units)
    (nonempty : symbols utf16 inner ≠ []) :
    ∃ base, (startsFrom utf16 0 reps)[c]? = some base ∧ base ≤ base + units ∧
      base + units ≤ base + (symbols utf16 outer).length ∧
        symbols utf16 inner <+: (joined utf16 reps).drop (base + units) := by
  obtain ⟨inside, _⟩ := List.getElem?_eq_some_iff.mp found
  have placed : c < (startsFrom utf16 0 reps).length := by
    rw [startsFrom_length]
    exact inside
  have within := lt_of_begins nonempty held
  obtain ⟨after, suffix, _⟩ := drop_joined (List.getElem?_eq_getElem placed) found
  refine ⟨_, List.getElem?_eq_getElem placed, Nat.le_add_right _ _, by omega, ?_⟩
  rw [← drop_drop, suffix, drop_append_of_le_length (le_of_lt within)]
  exact held.trans (prefix_append _ _)

/-- What the comparison at a position says. -/
theorem begins_iff {text own : List Nat} {position : Nat} :
    position + own.length ≤ text.length ∧ (text.drop position).take own.length = own ↔
      own <+: text.drop position ∧ position + own.length ≤ text.length := by
  rw [and_comm, and_congr_left_iff]
  intro _
  rw [prefix_iff_eq_take]
  exact eq_comm

/-- The slots next to a slot. -/
theorem mem_neighbours {place next : Nat} :
    next ∈ (if 0 < place then [place - 1] else []) ++ [place + 1] ↔
      next + 1 = place ∨ next = place + 1 := by
  rw [mem_append, mem_singleton]
  refine or_congr_left ?_
  split
  · rw [mem_singleton]
    omega
  · refine iff_of_false not_mem_nil ?_
    omega

/-- The neighbour of a slot whose suffix begins with the symbols. -/
def beginning (text own sa : List Nat) (place : Nat) : Option Nat :=
  (((if 0 < place then [place - 1] else []) ++ [place + 1]).filterMap (sa[·]?)).find? fun q =>
    decide (q + own.length ≤ text.length ∧ (text.drop q).take own.length = own)

theorem beginning_eq_none {text own sa : List Nat} {place next position : Nat}
    (none_begins : beginning text own sa place = none) (beside : next + 1 = place ∨ next = place + 1)
    (found : sa[next]? = some position) (inside : position + own.length ≤ text.length) :
    ¬ own <+: text.drop position := by
  have listed : position ∈ ((if 0 < place then [place - 1] else []) ++ [place + 1]).filterMap
      (sa[·]?) := mem_filterMap.mpr ⟨next, mem_neighbours.mpr beside, found⟩
  have differs := List.find?_eq_none.mp none_begins position listed
  rw [decide_eq_true_eq, begins_iff] at differs
  exact fun begins => differs ⟨begins, inside⟩

theorem beginning_eq_some {text own sa : List Nat} {place position : Nat}
    (begins : beginning text own sa place = some position) :
    (∃ next, (next + 1 = place ∨ next = place + 1) ∧ sa[next]? = some position) ∧
      own <+: text.drop position ∧ position + own.length ≤ text.length := by
  obtain ⟨next, beside, found⟩ := mem_filterMap.mp (mem_of_find?_eq_some begins)
  have matched := List.find?_some begins
  rw [decide_eq_true_eq, begins_iff] at matched
  exact ⟨⟨next, mem_neighbours.mp beside, found⟩, matched⟩

/-- What the search does for a text. -/
theorem container_eq {sa rank : List Nat} {r start place : Nat} {inner : Bytes}
    (texts : WholeTexts utf16 reps) (startFound : (startsFrom utf16 0 reps)[r]? = some start)
    (innerFound : reps[r]? = some inner) (stands : rank[start]? = some place) :
    container utf16 reps (joined utf16 reps) (startsFrom utf16 0 reps) sa rank r =
      match beginning (joined utf16 reps) (symbols utf16 inner) sa place with
      | none => ok none
      | some q => owner (startsFrom utf16 0 reps) q >>= fun c =>
          index (startsFrom utf16 0 reps) c >>= fun base =>
            checked (base ≤ q) (q - base) >>= fun units =>
              ok (some (c, units * unitSize utf16)) := by
  obtain ⟨_, whole⟩ := texts inner (mem_of_getElem? innerFound)
  obtain ⟨after, suffix, size⟩ := drop_joined startFound innerFound
  have units : inner.length / unitSize utf16 = (symbols utf16 inner).length := by
    rw [symbols_length whole, Nat.mul_div_cancel _ (unitSize_pos utf16)]
  have own : ((joined utf16 reps).drop start).take (symbols utf16 inner).length =
      symbols utf16 inner := by
    rw [suffix, take_left' rfl]
  have fits : start + (symbols utf16 inner).length ≤ (joined utf16 reps).length := by omega
  unfold container
  rw [index_eq_ok.mpr startFound, ok_bind, index_eq_ok.mpr innerFound, ok_bind]
  dsimp only
  rw [units, checked_eq_ok.mpr ⟨fits, rfl⟩, ok_bind, index_eq_ok.mpr stands, ok_bind, own]
  rfl

/-- The search answers for every text: with nothing when no other text contains it, and with
another text otherwise. -/
theorem container_spec {sa rank : List Nat} {r : Nat} (texts : WholeTexts utf16 reps)
    (ranked : Ranked (joined utf16 reps) sa rank) (inside : r < reps.length) :
    ∃ found, container utf16 reps (joined utf16 reps) (startsFrom utf16 0 reps) sa rank r = ok found ∧
      (found = none → ¬ ContainedElsewhere utf16 reps r) ∧
        ∀ c offset, found = some (c, offset) → c ≠ r := by
  obtain ⟨inner, innerFound⟩ : ∃ inner, reps[r]? = some inner := ⟨_, List.getElem?_eq_getElem inside⟩
  obtain ⟨start, startFound⟩ : ∃ start, (startsFrom utf16 0 reps)[r]? = some start :=
    ⟨_, List.getElem?_eq_getElem (by rw [startsFrom_length]; exact inside)⟩
  obtain ⟨nonempty, whole⟩ := texts inner (mem_of_getElem? innerFound)
  obtain ⟨after, suffix, size⟩ := drop_joined startFound innerFound
  obtain ⟨place, stands⟩ : ∃ place : Nat, sa[place]? = some start := ranked.stands (by omega)
  have positive : symbols utf16 inner ≠ [] := fun empty => nonempty (by
    have length := symbols_length whole
    rw [empty, length_nil, zero_mul] at length
    exact eq_nil_of_length_eq_zero length)
  have begins : symbols utf16 inner <+: (joined utf16 reps).drop start := by
    rw [suffix]
    exact prefix_append _ _
  rw [container_eq texts startFound innerFound (ranked.ranks place start stands)]
  cases search : beginning (joined utf16 reps) (symbols utf16 inner) sa place with
  | none =>
    refine ⟨none, rfl, fun _ elsewhere => ?_, by nofun⟩
    obtain ⟨c, inner', outer, offset, other, innerFound', outerFound, occurs⟩ := elsewhere
    obtain rfl : inner = inner' := Option.some.inj (innerFound.symm.trans innerFound')
    obtain ⟨units, rfl, held⟩ := occurs.symbols whole
    obtain ⟨base, baseFound, low, high, occursThere⟩ := occurrence_position outerFound held positive
    have apart : start ≠ base + units := fun same => other
      (eq_owner baseFound outerFound low high startFound same innerFound)
    have within : base + units < (joined utf16 reps).length := lt_of_begins positive occursThere
    obtain ⟨elsewhere, found⟩ := ranked.stands within
    obtain ⟨next, neighbour, beside, standsNext, starts⟩ :=
      neighbour_of_occurrence ranked.sorted stands found apart begins occursThere
    refine beginning_eq_none search beside standsNext ?_ starts
    have bound := lt_of_begins positive starts
    have long := starts.length_le
    rw [length_drop] at long
    omega
  | some q =>
    obtain ⟨⟨next, beside, found⟩, starts, fits⟩ := beginning_eq_some search
    have apart : q ≠ start := by
      rintro rfl
      obtain ⟨insideNext, here⟩ := List.getElem?_eq_some_iff.mp found
      obtain ⟨insidePlace, there⟩ := List.getElem?_eq_some_iff.mp stands
      have same := (ranked.perm.nodup_iff.mpr nodup_range).getElem_inj_iff.mp
        (here.trans there.symm)
      omega
    obtain ⟨c, base, outer, owned, baseFound, outerFound, low, high⟩ :=
      owner_spec (Nat.zero_le q) (lt_separated_of_begins positive starts)
    refine ⟨some (c, (q - base) * unitSize utf16), ?_, by nofun, ?_⟩
    · dsimp only
      rw [owned, ok_bind, index_eq_ok.mpr baseFound, ok_bind, checked_eq_ok.mpr ⟨low, rfl⟩, ok_bind]
    · rintro _ _ ⟨rfl, rfl⟩ rfl
      obtain rfl : base = start := Option.some.inj (baseFound.symm.trans startFound)
      obtain rfl : outer = inner := Option.some.inj (outerFound.symm.trans innerFound)
      have same : ((symbols utf16 outer ++ 1 :: after).drop (q - base)).take
          (symbols utf16 outer).length = symbols utf16 outer := by
        rw [← suffix, drop_drop, Nat.add_sub_cancel' low]
        exact (prefix_iff_eq_take.mp starts).symm
      have ends := occurrence_inside (by omega) same
      omega

/-- A row of steps that all answer has answers. -/
theorem mapM_answers {α β : Type} {f : α → Result β} {items : List α}
    (answers : ∀ item ∈ items, ∃ result, f item = ok result) :
    ∃ results, items.mapM f = ok results := by
  induction items with
  | nil => exact ⟨[], rfl⟩
  | cons first rest ih =>
    obtain ⟨result, here⟩ := answers first mem_cons_self
    obtain ⟨results, there⟩ := ih fun item later => answers item (mem_cons_of_mem _ later)
    refine ⟨result :: results, ?_⟩
    rw [mapM_cons, here, ok_bind, there]
    rfl

/-- A text that occurs in a different one is shorter. -/
theorem OccursAt.lt_length {inner outer : Bytes} {offset : Nat}
    (occurs : OccursAt utf16 inner outer offset) (other : inner ≠ outer) :
    inner.length < outer.length := by
  obtain ⟨fits, same⟩ := Bytes.slice_eq_some.mp occurs.2
  refine lt_of_le_of_ne (le_trans (Nat.le_add_left _ _) fits) fun equal => other ?_
  obtain rfl : offset = 0 := by omega
  rw [drop_zero, equal, take_length] at same
  exact same.symm

/-- The suffix array of the sequence and its ranks are there. -/
theorem exists_ranked (utf16 : Bool) (reps : List Bytes) :
    ∃ sa rank, suffixArray (joined utf16 reps).length (joined utf16 reps)
        ((joined utf16 reps).foldl max 0 + 1) = ok sa ∧
      ranks (joined utf16 reps).length sa = ok rank ∧ Ranked (joined utf16 reps) sa rank := by
  obtain ⟨sa, ran, perm, sorted⟩ := suffixArray_sorted (le_refl _) (endsInZero_joined utf16 reps)
    fun symbol => lt_alphabet
  obtain ⟨rank, ranked, stored⟩ := ranks_eq perm
  exact ⟨sa, rank, ran, ranked, perm, sorted, stored⟩

/-- The containers of all texts: another text, a longer one, for each text that some other
text contains, and none for the others. -/
theorem containers_spec (texts : WholeTexts utf16 reps) (nodup : reps.Nodup) :
    ∃ parents, containers reps utf16 = ok parents ∧ parents.length = reps.length ∧
      (∀ r < reps.length,
        (∃ parent, parents[r]? = some (some parent)) ↔ ContainedElsewhere utf16 reps r) ∧
      ∀ r c offset : Nat, parents[r]? = some (some (c, offset)) → ∃ inner outer : Bytes,
        reps[r]? = some inner ∧ reps[c]? = some outer ∧ inner.length < outer.length ∧
          OccursAt utf16 inner outer offset := by
  obtain ⟨sa, rank, ran, ranksRan, ranked⟩ := exists_ranked utf16 reps
  obtain ⟨parents, found⟩ := mapM_answers fun r (member : r ∈ List.range reps.length) => by
    obtain ⟨result, here, _⟩ := container_spec texts ranked (mem_range.mp member)
    exact ⟨result, here⟩
  have all : containers reps utf16 = ok parents := by
    unfold containers
    dsimp only
    rw [ran, ok_bind, ranksRan, ok_bind]
    exact found
  obtain ⟨sizes, contained⟩ := containers_sound texts all
  have answers : ∀ {r result}, parents[r]? = some result → r < reps.length →
      (result = none → ¬ ContainedElsewhere utf16 reps r) ∧
        ∀ c offset, result = some (c, offset) → c ≠ r := by
    intro r result recorded inside
    obtain ⟨r', ranged, ran⟩ := mapM_getElem? (mapM_eq_ok.mp found) recorded
    obtain ⟨bound, same⟩ := List.getElem?_eq_some_iff.mp ranged
    rw [getElem_range] at same
    subst same
    obtain ⟨result', ran', answer⟩ := container_spec texts ranked inside
    obtain rfl : result = result' := ok.inj (ran.symm.trans ran')
    exact answer
  have longer : ∀ r c offset : Nat, parents[r]? = some (some (c, offset)) → ∃ inner outer : Bytes,
      reps[r]? = some inner ∧ reps[c]? = some outer ∧ c ≠ r ∧ inner.length < outer.length ∧
        OccursAt utf16 inner outer offset := by
    intro r c offset recorded
    obtain ⟨inner, outer, innerFound, outerFound, held, aligned⟩ := contained r _ recorded
    have inside := (List.getElem?_eq_some_iff.mp innerFound).1
    have other := (answers recorded inside).2 c offset rfl
    have occurs : OccursAt utf16 inner outer offset := ⟨aligned, held⟩
    refine ⟨inner, outer, innerFound, outerFound, other, occurs.lt_length ?_, occurs⟩
    rintro rfl
    obtain ⟨insideRight, right⟩ := List.getElem?_eq_some_iff.mp innerFound
    obtain ⟨insideLeft, left⟩ := List.getElem?_eq_some_iff.mp outerFound
    exact other (nodup.getElem_inj_iff.mp (left.trans right.symm))
  refine ⟨parents, all, sizes, fun r inside => ⟨?_, fun elsewhere => ?_⟩, ?_⟩
  · rintro ⟨⟨c, offset⟩, recorded⟩
    obtain ⟨inner, outer, innerFound, outerFound, other, _, occurs⟩ := longer r c offset recorded
    exact ⟨c, inner, outer, offset, other, innerFound, outerFound, occurs⟩
  · obtain ⟨result, recorded⟩ : ∃ result, parents[r]? = some result :=
      ⟨_, List.getElem?_eq_getElem (by rw [sizes]; exact inside)⟩
    cases result with
    | some parent => exact ⟨parent, recorded⟩
    | none => exact absurd elsewhere ((answers recorded inside).1 rfl)
  · intro r c offset recorded
    obtain ⟨inner, outer, innerFound, outerFound, _, shorter, occurs⟩ := longer r c offset recorded
    exact ⟨inner, outer, innerFound, outerFound, shorter, occurs⟩

end Sequence

end HermesDecomp.StringStorage
