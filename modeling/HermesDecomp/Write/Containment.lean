import HermesDecomp.Write.StringStorage

/-!
# Occurrences the packer uses

The packer reads occurrences off a suffix array and compares the symbols before
it uses one. The comparison alone makes an occurrence real: symbols of texts are
at least two, so equal symbols cannot cross a separator, and equal symbols inside
one text are equal bytes at whole units.
-/

namespace HermesDecomp.StringStorage

open Outcome List

/-- Every text with a separator after it, without the final sentinel. -/
def separated (utf16 : Bool) (reps : List Bytes) : List Nat :=
  reps.flatMap fun text => symbols utf16 text ++ [1]

/-- The bytes that symbols stand for. -/
def bytesOf (utf16 : Bool) (symbols : List Nat) : Bytes :=
  symbols.flatMap fun symbol => Bytes.leBytes (unitSize utf16) (symbol - 2)

theorem joined_eq (utf16 : Bool) (reps : List Bytes) : joined utf16 reps = separated utf16 reps ++ [0] :=
  rfl

variable {utf16 : Bool} {text : Bytes}

/-- Symbols of a text avoid the sentinel and the separator. -/
theorem two_le_symbol {symbol : Nat} (found : symbol ∈ symbols utf16 text) : 2 ≤ symbol:= by
  unfold symbols at found
  split at found <;>
  · obtain ⟨source, -, rfl⟩ := mem_map.mp found
    omega

theorem bytesOf_cons (utf16 : Bool) (symbol : Nat) (rest : List Nat) :
    bytesOf utf16 (symbol :: rest) =
      Bytes.leBytes (unitSize utf16) (symbol - 2) ++ bytesOf utf16 rest :=
  flatMap_cons

/-- Two bytes are the two bytes of the unit they form. -/
theorem leBytes_pair (low high : UInt8) : Bytes.leBytes 2 (Bytes.leNat [low, high]) = [low, high] :=
  Bytes.leBytes_leNat [low, high]

/-- The units of a text of whole units carry all of its bytes. -/
theorem bytesOf_units (text : Bytes) (whole : text.length % 2 = 0) :
    bytesOf true ((Utf.units text).map (· + 2)) = text := by
  fun_induction Utf.units text with
  | case1 low high rest ih =>
    have restWhole : rest.length % 2 = 0 := by
      simp only [length_cons] at whole
      omega
    rw [map_cons, bytesOf_cons, ih restWhole, Nat.add_sub_cancel]
    exact congrArg (· ++ rest) (leBytes_pair low high)
  | case2 text short =>
    match text, short with
    | [], _ => rfl
    | [_], _ => simp at whole
    | low :: high :: rest, short => exact absurd rfl (short low high rest)

/-- The symbols of a text of whole units determine its bytes. -/
theorem bytesOf_symbols (whole : text.length % unitSize utf16 = 0) :
    bytesOf utf16 (symbols utf16 text) = text := by
  cases utf16 with
  | true => exact bytesOf_units text whole
  | false =>
    induction text with
    | nil => rfl
    | cons byte rest ih =>
      have first : Bytes.leBytes (unitSize false) (byte.toNat + 2 - 2) = [byte] := by
        simp [unitSize, Bytes.leBytes]
      have tail : bytesOf false (symbols false rest) = rest := ih (Nat.mod_one _)
      rw [symbols, if_neg Bool.false_ne_true] at tail ⊢
      rw [map_cons, bytesOf_cons, tail, first, singleton_append]

theorem bytesOf_length (utf16 : Bool) (symbols : List Nat) :
    (bytesOf utf16 symbols).length = symbols.length * unitSize utf16 := by
  induction symbols with
  | nil => simp [bytesOf]
  | cons symbol rest ih =>
    unfold bytesOf at ih ⊢
    rw [flatMap_cons, length_append, Bytes.leBytes_length, ih, length_cons, Nat.succ_mul, add_comm]

theorem bytesOf_append (utf16 : Bool) (left right : List Nat) :
    bytesOf utf16 (left ++ right) = bytesOf utf16 left ++ bytesOf utf16 right :=
  flatMap_append

/-- Skipping symbols skips whole units of bytes. -/
theorem bytesOf_drop (utf16 : Bool) (symbols : List Nat) {count : Nat}
    (inside : count ≤ symbols.length) :
    bytesOf utf16 (symbols.drop count) = (bytesOf utf16 symbols).drop (count * unitSize utf16) := by
  have skipped : (bytesOf utf16 (symbols.take count)).length = count * unitSize utf16 := by
    rw [bytesOf_length, length_take, min_eq_left inside]
  calc bytesOf utf16 (symbols.drop count)
      = (bytesOf utf16 (symbols.take count) ++ bytesOf utf16 (symbols.drop count)).drop
          (count * unitSize utf16) := (drop_left' skipped).symm
    _ = (bytesOf utf16 symbols).drop (count * unitSize utf16) := by
        rw [← bytesOf_append, take_append_drop]

/-- Keeping symbols keeps whole units of bytes. -/
theorem bytesOf_take (utf16 : Bool) (symbols : List Nat) {count : Nat}
    (inside : count ≤ symbols.length) :
    bytesOf utf16 (symbols.take count) = (bytesOf utf16 symbols).take (count * unitSize utf16) := by
  have kept : (bytesOf utf16 (symbols.take count)).length = count * unitSize utf16 := by
    rw [bytesOf_length, length_take, min_eq_left inside]
  calc bytesOf utf16 (symbols.take count)
      = (bytesOf utf16 (symbols.take count) ++ bytesOf utf16 (symbols.drop count)).take
          (count * unitSize utf16) := (take_left' kept).symm
    _ = (bytesOf utf16 symbols).take (count * unitSize utf16) := by
        rw [← bytesOf_append, take_append_drop]

/-- A text of whole units has one symbol a unit. -/
theorem symbols_length (whole : text.length % unitSize utf16 = 0) :
    text.length = (symbols utf16 text).length * unitSize utf16 := by
  have measured := bytesOf_length utf16 (symbols utf16 text)
  rwa [bytesOf_symbols whole] at measured

theorem startsFrom_length (utf16 : Bool) (start : Nat) (reps : List Bytes) :
    (startsFrom utf16 start reps).length = reps.length := by
  induction reps generalizing start with
  | nil => rfl
  | cons text rest ih => simp [startsFrom, ih]

variable {reps : List Bytes}

/-- A start is the position of its text in the sequence. -/
theorem startsFrom_spec {start c base : Nat}
    (placed : (startsFrom utf16 start reps)[c]? = some base) (found : reps[c]? = some text) :
    ∃ before after, separated utf16 reps = before ++ (symbols utf16 text ++ 1 :: after) ∧
      base = start + before.length := by
  induction reps generalizing start c with
  | nil => simp at found
  | cons first rest ih =>
    cases c with
    | zero =>
      simp only [startsFrom, List.getElem?_cons_zero, Option.some.injEq] at placed found
      subst placed found
      exact ⟨[], separated utf16 rest, by simp [separated], rfl⟩
    | succ c =>
      simp only [startsFrom, List.getElem?_cons_succ] at placed found
      obtain ⟨before, after, split, position⟩ := ih placed found
      refine ⟨symbols utf16 first ++ [1] ++ before, after, ?_, ?_⟩
      · simp only [separated, flatMap_cons, append_assoc] at split ⊢
        rw [split]
      · simp only [position, length_append, length_singleton]
        omega

/-- A position within the separated texts is owned by the text it lies in, its
separator included. -/
theorem owner_spec {start position : Nat} (low : start ≤ position)
    (high : position < start + (separated utf16 reps).length) :
    ∃ c base text, owner (startsFrom utf16 start reps) position = ok c ∧
      (startsFrom utf16 start reps)[c]? = some base ∧ reps[c]? = some text ∧
      base ≤ position ∧ position ≤ base + (symbols utf16 text).length := by
  induction reps generalizing start with
  | nil => simp [separated] at high; omega
  | cons first rest ih =>
    have size : (separated utf16 (first :: rest)).length =
        (symbols utf16 first).length + 1 + (separated utf16 rest).length := by
      simp only [separated, flatMap_cons, length_append, length_singleton]
    by_cases here : position < start + (symbols utf16 first).length + 1
    · refine ⟨0, start, first, ?_, rfl, rfl, low, by omega⟩
      have alone : (startsFrom utf16 start (first :: rest)).takeWhile (· ≤ position) = [start] := by
        rw [startsFrom, takeWhile_cons_of_pos (by simpa using low)]
        cases rest with
        | nil => rfl
        | cons second rest => rw [startsFrom, takeWhile_cons_of_neg (by simp; omega)]
      simp [owner, alone]
    · obtain ⟨c, base, text, owned, placed, found, before, after⟩ :=
        @ih (start + (symbols utf16 first).length + 1) (by omega) (by omega)
      refine ⟨c + 1, base, text, ?_, placed, found, before, after⟩
      unfold owner at owned ⊢
      rw [startsFrom, takeWhile_cons_of_pos (by simpa using low)]
      simp only [checked_eq_ok, length_cons] at owned ⊢
      omega

/-- Equal symbols from inside a text on stay inside it. -/
theorem occurrence_inside {inner outer : Bytes} {after : List Nat} {within : Nat}
    (inside : within ≤ (symbols utf16 outer).length)
    (same : ((symbols utf16 outer ++ 1 :: after).drop within).take (symbols utf16 inner).length =
      symbols utf16 inner) :
    within + (symbols utf16 inner).length ≤ (symbols utf16 outer).length := by
  by_contra beyond
  have crossed : (symbols utf16 inner)[(symbols utf16 outer).length - within]? = some 1 := by
    rw [← same, List.getElem?_take_of_lt (by omega), List.getElem?_drop,
      List.getElem?_append_right (by omega)]
    simp [show within + ((symbols utf16 outer).length - within) - (symbols utf16 outer).length = 0
      by omega]
  have large : 2 ≤ 1 := two_le_symbol (mem_of_getElem? crossed)
  omega

/-- Equal symbols inside a text are an occurrence of the bytes at whole units. -/
theorem occurrence_bytes {inner outer : Bytes} {after : List Nat} {within : Nat}
    (innerWhole : inner.length % unitSize utf16 = 0)
    (outerWhole : outer.length % unitSize utf16 = 0)
    (inside : within ≤ (symbols utf16 outer).length)
    (same : ((symbols utf16 outer ++ 1 :: after).drop within).take (symbols utf16 inner).length =
      symbols utf16 inner) :
    Bytes.slice outer (within * unitSize utf16) inner.length = some inner := by
  have ends := occurrence_inside inside same
  have symbolsSame : ((symbols utf16 outer).drop within).take (symbols utf16 inner).length =
      symbols utf16 inner := by
    rw [drop_append_of_le_length inside, take_append_of_le_length
      (by rw [length_drop]; omega)] at same
    exact same
  have outerLength := symbols_length outerWhole
  have innerLength := symbols_length innerWhole
  rw [Bytes.slice_eq_some]
  constructor
  · calc within * unitSize utf16 + inner.length
        = (within + (symbols utf16 inner).length) * unitSize utf16 := by rw [add_mul, ← innerLength]
      _ ≤ (symbols utf16 outer).length * unitSize utf16 := Nat.mul_le_mul_right _ ends
      _ = outer.length := outerLength.symm
  · calc (outer.drop (within * unitSize utf16)).take inner.length
        = ((bytesOf utf16 (symbols utf16 outer)).drop (within * unitSize utf16)).take
            ((symbols utf16 inner).length * unitSize utf16) := by
          rw [bytesOf_symbols outerWhole, ← innerLength]
      _ = bytesOf utf16 (((symbols utf16 outer).drop within).take (symbols utf16 inner).length) := by
          rw [← bytesOf_drop utf16 _ inside, bytesOf_take utf16 _ (by rw [length_drop]; omega)]
      _ = inner := by rw [symbolsSame, bytesOf_symbols innerWhole]

/-- A recorded container holds the text at the recorded byte offset. -/
def Contains (reps : List Bytes) (utf16 : Bool) (r : Nat) (parent : Nat × Nat) : Prop :=
  ∃ inner outer, reps[r]? = some inner ∧ reps[parent.1]? = some outer ∧
    Bytes.slice outer parent.2 inner.length = some inner ∧ unitSize utf16 ∣ parent.2

/-- What the packer knows of its texts: they are not empty and of whole units. -/
def WholeTexts (utf16 : Bool) (reps : List Bytes) : Prop :=
  ∀ text ∈ reps, text ≠ [] ∧ text.length % unitSize utf16 = 0

/-- Every container the packer finds contains the text, whatever order of
suffixes it was found with. -/
theorem container_sound {sa rank : List Nat} {r : Nat} {parent : Nat × Nat}
    (texts : WholeTexts utf16 reps)
    (found : container utf16 reps (joined utf16 reps) (startsFrom utf16 0 reps) sa rank r =
      ok (some parent)) : Contains reps utf16 r parent:= by
  simp only [container, bind_eq_ok, index_eq_ok, checked_eq_ok] at found
  obtain ⟨start, startFound, inner, innerFound, own, ⟨-, ownEq⟩, place, -, found⟩ := found
  obtain ⟨innerNonempty, innerWhole⟩ := texts inner (mem_of_getElem? innerFound)
  have innerLength := symbols_length innerWhole
  have count : inner.length / unitSize utf16 = (symbols utf16 inner).length := by
    rw [innerLength, Nat.mul_div_cancel _ (unitSize_pos utf16)]
  obtain ⟨before, after, split, position⟩ := startsFrom_spec startFound innerFound
  have ownSymbols : own = symbols utf16 inner := by
    rw [← ownEq, count, joined_eq, split, position, zero_add, append_assoc,
      drop_left' rfl, append_assoc, take_left' rfl]
  rw [count] at found
  split at found
  · simp at found
  next q search =>
    simp only [bind_eq_ok, index_eq_ok, checked_eq_ok, pure_eq, ok.injEq, Option.some.injEq]
      at found
    obtain ⟨c, owned, base, baseFound, within, ⟨ordered, rfl⟩, rfl⟩ := found
    have matched := List.find?_some search
    rw [decide_eq_true_eq, ownSymbols] at matched
    obtain ⟨fits, same⟩ := matched
    have positive : 0 < (symbols utf16 inner).length := by
      rcases Nat.eq_zero_or_pos (symbols utf16 inner).length with none | some
      · rw [none, zero_mul] at innerLength
        exact absurd (eq_nil_of_length_eq_zero innerLength) innerNonempty
      · exact some
    have notSentinel : q < 0 + (separated utf16 reps).length := by
      rw [joined_eq, length_append, length_singleton] at fits
      by_contra outside
      have last : q = (separated utf16 reps).length := by omega
      have sentinel : (symbols utf16 inner)[0]? = some 0 := by
        rw [← same, List.getElem?_take_of_lt positive, List.getElem?_drop, joined_eq, last]
        simp
      have large : 2 ≤ 0 := two_le_symbol (mem_of_getElem? sentinel)
      omega
    obtain ⟨c', base', outer, owned', baseFound', outerFound, low, high⟩ :=
      owner_spec (Nat.zero_le q) notSentinel
    obtain rfl : c' = c := by rw [owned', ok.injEq] at owned; exact owned
    obtain rfl : base' = base := by rw [baseFound', Option.some.injEq] at baseFound; exact baseFound
    obtain ⟨before', after', split', position'⟩ := startsFrom_spec baseFound' outerFound
    have shifted : ((symbols utf16 outer ++ 1 :: (after' ++ [0])).drop (q - base')).take
        (symbols utf16 inner).length = symbols utf16 inner := by
      have tail : (joined utf16 reps).drop base' = symbols utf16 outer ++ 1 :: (after' ++ [0]) := by
        rw [joined_eq, split', position', zero_add, append_assoc, drop_left' rfl,
          append_assoc, cons_append]
      rw [← tail, drop_drop, Nat.add_sub_cancel' low]
      exact same
    have outerWhole := (texts outer (mem_of_getElem? outerFound)).2
    exact ⟨inner, outer, innerFound, outerFound,
      occurrence_bytes innerWhole outerWhole (by omega) shifted, Nat.dvd_mul_left _ _⟩

/-- Every entry of the container list is right, and there is one for each text. -/
theorem containers_sound {parents : List (Option (Nat × Nat))} (texts : WholeTexts utf16 reps)
    (found : containers reps utf16 = ok parents) :
    parents.length = reps.length ∧
      ∀ r parent, parents[r]? = some (some parent) → Contains reps utf16 r parent := by
  simp only [containers, bind_eq_ok] at found
  obtain ⟨sa, -, rank, -, found⟩ := found
  have pairs := mapM_eq_ok.mp found
  constructor
  · rw [← pairs.length_eq, length_range]
  · intro r parent recorded
    obtain ⟨r', ranged, run⟩ := mapM_getElem? pairs recorded
    obtain ⟨inside, same⟩ := List.getElem?_eq_some_iff.mp ranged
    rw [getElem_range] at same
    exact container_sound texts (same ▸ run)

open Outcome

/-- The string of an id is readable at its recorded offset, which is at least
`low` and at a whole unit. -/
def Stored (draft : Draft) (low id : Nat) (string : StoredString) : Prop :=
  ∃ offset, draft.offsets[id]? = some offset ∧ low ≤ offset ∧ unitSize string.isUtf16 ∣ offset ∧
    Bytes.slice draft.storage offset string.bytes.length = some string.bytes

/-- The ranges recorded for two ids do not meet. -/
def Apart (strings : List StoredString) (draft : Draft) (id other : Nat) : Prop :=
  ∀ string otherString offset otherOffset, strings[id]? = some string →
    strings[other]? = some otherString → draft.offsets[id]? = some offset →
    draft.offsets[other]? = some otherOffset →
    offset + string.bytes.length ≤ otherOffset ∨ otherOffset + otherString.bytes.length ≤ offset

/-- What laying out some ids leaves: storage has only grown, only their offsets
are new, their strings are in the new part, and pinned ones are there alone. -/
structure Laid (strings : List StoredString) (pinned : Finset Nat) (ids : List Nat)
    (before after : Draft) : Prop where
  grows : before.storage <+: after.storage
  kept : ∀ id, id ∉ ids → after.offsets[id]? = before.offsets[id]?
  stored : ∀ id ∈ ids, ∀ string, strings[id]? = some string →
    Stored after before.storage.length id string
  apart : ∀ id ∈ ids, id ∈ pinned → ∀ other ∈ ids, other ≠ id → Apart strings after id other

section Passes

variable {strings : List StoredString} {pinned : Finset Nat}

/-- Extending storage, without recording anything, lays out no id. -/
theorem laid_nil {before after : Draft} (grows : before.storage <+: after.storage)
    (same : after.offsets = before.offsets) : Laid strings pinned [] before after where
  grows := grows
  kept := fun id _ => by rw [same]
  stored := fun id found => nomatch found
  apart := fun id found => nomatch found

/-- A stored string ends inside storage. -/
theorem Stored.end_le {draft : Draft} {low id offset : Nat} {string : StoredString}
    (stored : Stored draft low id string) (recorded : draft.offsets[id]? = some offset) :
    offset + string.bytes.length ≤ draft.storage.length := by
  obtain ⟨offset', recorded', -, -, read⟩ := stored
  obtain rfl : offset' = offset := by
    rw [recorded, Option.some.injEq] at recorded'
    exact recorded'.symm
  exact (Bytes.slice_eq_some.mp read).1

variable {ids : List Nat}

/-- A pass over other ids keeps what is stored. -/
theorem Stored.mono {before after : Draft} {low id : Nat} {string : StoredString}
    (stored : Stored before low id string) (laid : Laid strings pinned ids before after)
    (outside : id ∉ ids) : Stored after low id string:= by
  obtain ⟨offset, recorded, bound, aligned, read⟩ := stored
  exact ⟨offset, (laid.kept id outside).trans recorded, bound, aligned,
    Bytes.slice_of_prefix laid.grows read⟩

/-- What a second pass stores lies after what the first one stored. -/
theorem Laid.apart_across {first second : List Nat} {start middle finish : Draft}
    (left : Laid strings pinned first start middle)
    (right : Laid strings pinned second middle finish)
    {id other : Nat} (idFirst : id ∈ first) (idElsewhere : id ∉ second) (otherSecond : other ∈ second) :
    Apart strings finish id other ∧ Apart strings finish other id := by
  have ordered : ∀ string otherString offset otherOffset, strings[id]? = some string →
      strings[other]? = some otherString → finish.offsets[id]? = some offset →
      finish.offsets[other]? = some otherOffset → offset + string.bytes.length ≤ otherOffset := by
    intro string otherString offset otherOffset found otherFound recorded otherRecorded
    rw [right.kept id idElsewhere] at recorded
    have ends := (left.stored id idFirst string found).end_le recorded
    obtain ⟨offset', recorded', low, -, -⟩ := right.stored other otherSecond otherString otherFound
    rw [otherRecorded, Option.some.injEq] at recorded'
    omega
  constructor
  · intro string otherString offset otherOffset found otherFound recorded otherRecorded
    exact .inl (ordered string otherString offset otherOffset found otherFound recorded otherRecorded)
  · intro string otherString offset otherOffset found otherFound recorded otherRecorded
    exact .inr (ordered otherString string otherOffset offset otherFound found otherRecorded recorded)

/-- A later pass over other ids keeps two ranges apart. -/
theorem Apart.mono {before after : Draft} {id other : Nat} (apart : Apart strings before id other)
    (laid : Laid strings pinned ids before after) (idOutside : id ∉ ids)
    (otherOutside : other ∉ ids) : Apart strings after id other:= by
  intro string otherString offset otherOffset found otherFound recorded otherRecorded
  rw [laid.kept id idOutside] at recorded
  rw [laid.kept other otherOutside] at otherRecorded
  exact apart string otherString offset otherOffset found otherFound recorded otherRecorded

/-- Passes over different ids compose. -/
theorem Laid.trans {first second : List Nat} {start middle finish : Draft}
    (left : Laid strings pinned first start middle)
    (right : Laid strings pinned second middle finish) (disjoint : first.Disjoint second) :
    Laid strings pinned (first ++ second) start finish where
  grows := left.grows.trans right.grows
  kept := by
    intro id outside
    rw [mem_append, not_or] at outside
    exact (right.kept id outside.2).trans (left.kept id outside.1)
  stored := by
    intro id found string here
    rcases mem_append.mp found with early | late
    · exact (left.stored id early string here).mono right (disjoint early)
    · obtain ⟨offset, recorded, low, rest⟩ := right.stored id late string here
      exact ⟨offset, recorded, left.grows.length_le.trans low, rest⟩
  apart := by
    intro id found isPinned other otherFound distinct
    rcases mem_append.mp found with early | late <;>
      rcases mem_append.mp otherFound with otherEarly | otherLate
    · exact (left.apart id early isPinned other otherEarly distinct).mono right (disjoint early)
        (disjoint otherEarly)
    · exact (left.apart_across right early (disjoint early) otherLate).1
    · exact (left.apart_across right otherEarly (disjoint otherEarly) late).2
    · exact right.apart id late isPinned other otherLate distinct

/-- Only the ids a pass is about matter, not their order. -/
theorem Laid.perm {ids ids' : List Nat} {before after : Draft}
    (laid : Laid strings pinned ids before after) (same : ∀ id, id ∈ ids' ↔ id ∈ ids) :
    Laid strings pinned ids' before after where
  grows := laid.grows
  kept := fun id outside => laid.kept id fun inside => outside ((same id).mpr inside)
  stored := fun id found => laid.stored id ((same id).mp found)
  apart := fun id found isPinned other otherFound =>
    laid.apart id ((same id).mp found) isPinned other ((same other).mp otherFound)

variable {draft after : Draft} {id : Nat}

/-- A step writes one string at the end of storage and records where. -/
theorem fresh_eq_ok (ran : fresh strings draft id = ok after) :
    id < draft.offsets.length ∧ ∃ string, strings[id]? = some string ∧
      after = { storage := draft.storage ++ string.bytes,
                offsets := draft.offsets.set id (draft.storage.length % 2 ^ 32) } := by
  simp only [fresh, store, bind_eq_ok, checked_eq_ok, index_eq_ok, pure_eq, ok.injEq] at ran
  obtain ⟨offsets, ⟨inside, rfl⟩, string, found, rfl⟩ := ran
  exact ⟨inside, string, found, rfl⟩

/-- A step lays out one id. -/
theorem fresh_laid (ran : fresh strings draft id = ok after) (fits : after.storage.length < 2 ^ 32)
    (aligned : ∀ string, strings[id]? = some string → unitSize string.isUtf16 ∣ draft.storage.length) :
    Laid strings pinned [id] draft after := by
  obtain ⟨inside, string, found, rfl⟩ := fresh_eq_ok ran
  have start : draft.storage.length < 2 ^ 32 := by
    rw [length_append] at fits
    omega
  refine ⟨prefix_append _ _, ?_, ?_, ?_⟩
  · intro other outside
    exact List.getElem?_set_ne fun same => outside (mem_singleton.mpr same.symm)
  · intro other here otherString otherFound
    obtain rfl := mem_singleton.mp here
    obtain rfl : string = otherString := by
      rw [found, Option.some.injEq] at otherFound
      exact otherFound
    refine ⟨draft.storage.length, ?_, le_refl _, aligned string found, Bytes.slice_appended _ _⟩
    rw [List.getElem?_set_self inside, Nat.mod_eq_of_lt start]
  · intro a aHere _ b bHere distinct
    exact absurd ((mem_singleton.mp bHere).trans (mem_singleton.mp aHere).symm) distinct

/-- The ids of one encoding: their strings exist and have that encoding. -/
def OfEncoding (strings : List StoredString) (utf16 : Bool) (ids : List Nat) : Prop :=
  ∀ id ∈ ids, ∃ string, strings[id]? = some string ∧ string.isUtf16 = utf16

/-- Storage only grows along a row of steps. -/
theorem freshAll_grows (ran : ids.foldlM (fresh strings) draft = ok after)
    : draft.storage <+: after.storage:= by
  refine foldlM_preserves (fun draft' => draft.storage <+: draft'.storage) ?_ (prefix_refl _) ran
  intro id _ before next grown step
  obtain ⟨-, string, -, rfl⟩ := fresh_eq_ok step
  exact grown.trans (prefix_append _ _)

variable {utf16 : Bool}

/-- A step of one encoding keeps storage at a whole unit of it. -/
theorem fresh_aligned (encoding : OfEncoding strings utf16 ids) (inside : id ∈ ids)
    (aligned : unitSize utf16 ∣ draft.storage.length) (ran : fresh strings draft id = ok after) :
    unitSize utf16 ∣ after.storage.length := by
  obtain ⟨-, string, found, rfl⟩ := fresh_eq_ok ran
  obtain ⟨string', found', rfl⟩ := encoding id inside
  obtain rfl : string = string' := Option.some.inj (found.symm.trans found')
  rw [length_append]
  exact Nat.dvd_add aligned (Nat.dvd_of_mod_eq_zero string.whole)

theorem freshAll_aligned (encoding : OfEncoding strings utf16 ids)
    (aligned : unitSize utf16 ∣ draft.storage.length)
    (ran : ids.foldlM (fresh strings) draft = ok after) : unitSize utf16 ∣ after.storage.length:=
  foldlM_preserves (fun draft => unitSize utf16 ∣ draft.storage.length)
    (fun _ inside _ _ whole step => fresh_aligned encoding inside whole step) aligned ran

/-- A row of steps lays out all of its ids. -/
theorem freshAll_laid (ran : ids.foldlM (fresh strings) draft = ok after) (nodup : ids.Nodup)
    (encoding : OfEncoding strings utf16 ids) (fits : after.storage.length < 2 ^ 32)
    (aligned : unitSize utf16 ∣ draft.storage.length) : Laid strings pinned ids draft after:= by
  induction ids generalizing draft with
  | nil =>
    obtain rfl : draft = after := foldlM_nil_eq_ok.mp ran
    exact laid_nil (prefix_refl _) rfl
  | cons id ids ih =>
    obtain ⟨middle, first, rest⟩ := foldlM_cons_eq_ok.mp ran
    obtain ⟨new, nodupRest⟩ := nodup_cons.mp nodup
    have middleAligned := fresh_aligned encoding mem_cons_self aligned first
    have middleFits : middle.storage.length < 2 ^ 32 :=
      lt_of_le_of_lt (freshAll_grows rest).length_le fits
    have head : Laid strings pinned [id] draft middle := by
      apply fresh_laid first middleFits
      intro string found
      obtain ⟨string', found', rfl⟩ := encoding id mem_cons_self
      obtain rfl : string = string' := Option.some.inj (found.symm.trans found')
      exact aligned
    have tail := ih rest nodupRest
      (fun other inside => encoding other (mem_cons_of_mem _ inside)) middleAligned
    exact head.trans tail (singleton_disjoint.mpr new)

end Passes

end HermesDecomp.StringStorage
