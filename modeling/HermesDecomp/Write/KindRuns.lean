import HermesDecomp.Library.RunLengths
import HermesDecomp.Write.HashTracking
import HermesDecomp.Write.StringMeaning

/-!
# The kind runs of the strings

The string table gives every string the kind of the run it falls in, but an empty run behind
the first one takes a string all the same. An addition makes the last run longer or appends a
run: strings that no run covers fall in it.
-/

namespace HermesDecomp.Parser

open RunLengths List

/-- A kind run: its kind and how many strings it has. -/
def kindRun (entry : StringKindEntry) : StringKindType × Nat := (entry.kind, entry.count)

/-- The runs as they are expanded: an empty run behind the first one has one string. -/
def expandedRuns : List StringKindEntry → List (StringKindType × Nat)
  | [] => []
  | first :: rest => kindRun first :: (rest.map kindRun).map stretch

/-- A string falls in a run of identifiers. -/
def InIdentifierRun (kinds : List StringKindEntry) (id : Nat) : Prop :=
  FallsIn (kinds.map kindRun) .identifier id

/-- From the first empty run behind the first run on, all runs are of plain strings. -/
def PlainFromEmpty (kinds : List StringKindEntry) : Prop :=
  BlankFromEmpty .string (kinds.map kindRun).tail

/-- Whether a string of a table is an identifier is what the runs say about its id. -/
def MarksByRuns (kinds : List StringKindEntry) : Prop :=
  ∀ stringCount small overflow storage strings invalid,
    decodeStringTable stringCount kinds small overflow storage = .ok (strings, invalid) →
      ∀ id entry, strings[id]? = some entry → (entry.isIdentifier = true ↔ InIdentifierRun kinds id)

/-- The run at an index and those behind it. -/
theorem drop_cases (kinds : List StringKindEntry) (index : Nat) :
    (kinds.drop index = [] ∧ runLength kinds index = 0 ∧ runKind kinds index = .string) ∨
      ∃ entry, kinds.drop index = entry :: kinds.drop (index + 1) ∧
        runLength kinds index = entry.count ∧ runKind kinds index = entry.kind := by
  unfold runLength runKind
  by_cases inside : index < kinds.length
  · refine .inr ⟨kinds[index], drop_eq_getElem_cons inside, ?_, ?_⟩
    · rw [List.getElem?_eq_getElem inside]
      rfl
    · rw [List.getElem?_eq_getElem inside]
      rfl
  · have past := Nat.le_of_not_lt inside
    refine .inl ⟨drop_eq_nil_of_le past, ?_, ?_⟩
    · rw [List.getElem?_eq_none past]
      rfl
    · rw [List.getElem?_eq_none past]
      rfl

/-- The strings left in a run have its kind, and the later ones the kinds of the stretched runs
behind it. -/
theorem expandKinds_getElem? (kinds : List StringKindEntry) {count index remaining id : Nat}
    (inside : id < count) : (expandKinds kinds count index remaining)[id]? =
      some (labelAt .string ((runKind kinds index, remaining) ::
        ((kinds.drop (index + 1)).map kindRun).map stretch) id) := by
  induction count generalizing index remaining id with
  | zero => exact absurd inside (Nat.not_lt_zero id)
  | succ count ih =>
    unfold expandKinds
    by_cases done : remaining = 0
    · subst done
      rw [if_pos rfl, labelAt_cons_of_le (Nat.zero_le _), Nat.sub_zero]
      rcases drop_cases kinds (index + 1) with ⟨none, length, kind⟩ | ⟨entry, next, length, kind⟩
      · rw [none, length, kind]
        cases id with
        | zero => rfl
        | succ id =>
          rw [List.getElem?_cons_succ, ih (Nat.lt_of_succ_lt_succ inside), kind]
          have behind : kinds.drop (index + 1 + 1) = [] := by rw [← drop_drop, none, drop_nil]
          rw [behind]
          rfl
      · rw [next, map_cons, map_cons, length, kind]
        cases id with
        | zero =>
          rw [labelAt_cons_of_lt (lt_of_lt_of_le Nat.zero_lt_one (le_max_left _ _))]
          rfl
        | succ id =>
          rw [List.getElem?_cons_succ, ih (Nat.lt_of_succ_lt_succ inside), kind,
            labelAt, labelAt, stretch, kindRun]
          dsimp only
          by_cases within : id < entry.count - 1
          · rw [if_pos within, if_pos (by omega)]
          · rw [if_neg within, if_neg (by omega)]
            congr 2
            omega
    · rw [if_neg done]
      cases id with
      | zero =>
        rw [labelAt_cons_of_lt (pos_of_ne_zero done)]
        rfl
      | succ id =>
        rw [List.getElem?_cons_succ, ih (Nat.lt_of_succ_lt_succ inside), labelAt, labelAt]
        dsimp only
        by_cases within : id < remaining - 1
        · rw [if_pos within, if_pos (by omega)]
        · rw [if_neg within, if_neg (by omega)]
          congr 2
          omega

/-- Every string has the kind of the expanded run it falls in. -/
theorem stringKindsOf_getElem? (kinds : List StringKindEntry) {count id : Nat} (inside : id < count) :
    (stringKindsOf kinds count)[id]? = some (labelAt .string (expandedRuns kinds) id) := by
  rw [stringKindsOf, expandKinds_getElem? kinds inside]
  cases kinds with
  | nil | cons => rfl

variable {overflow : List (Nat × Nat)} {storage : Bytes} {strings : List StringTableEntry}

/-- The entries of a table have the kinds that stand beside them. -/
theorem decodeEntries_kinds {start invalid : Nat} {rows : List (Nat × StringKindType)}
    (ran : decodeEntries overflow storage start rows = .ok (strings, invalid)) :
    strings.map (·.isIdentifier) = rows.map (·.2 == .identifier) := by
  induction rows generalizing start strings invalid with
  | nil =>
    obtain ⟨rfl, -⟩ := Prod.mk.inj (Outcome.ok.inj ran)
    rfl
  | cons row rows ih =>
    obtain ⟨⟨offset, length⟩, -, rest⟩ := Outcome.bind_eq_ok.mp ran
    obtain ⟨⟨others, more⟩, decoded, done⟩ := Outcome.bind_eq_ok.mp rest
    obtain ⟨rfl, -⟩ := Prod.mk.inj (Outcome.ok.inj done)
    rw [map_cons, map_cons, ih decoded]

section

variable {stringCount invalid : Nat} {kinds : List StringKindEntry} {small : List Nat}
  (ran : decodeStringTable stringCount kinds small overflow storage = .ok (strings, invalid))

include ran

/-- Whether the strings of a table are identifiers is what the kinds say. -/
theorem decodeStringTable_kinds :
    strings.map (·.isIdentifier) =
      (stringKindsOf kinds (min stringCount small.length)).map (· == .identifier) := by
  have lengths : (stringKindsOf kinds (min stringCount small.length)).length ≤
      (small.take (min stringCount small.length)).length := by
    rw [stringKindsOf, expandKinds_length, length_take]
    exact Nat.le_min.mpr ⟨Nat.le_refl _, Nat.min_le_right _ _⟩
  refine (decodeEntries_kinds ran).trans ?_
  refine Eq.trans ?_ (congrArg (List.map (· == StringKindType.identifier)) (map_snd_zip lengths))
  rw [map_map]
  rfl

/-- A string of a table is an identifier exactly where the expanded runs have identifiers. -/
theorem decodeStringTable_marks {id : Nat} {entry : StringTableEntry}
    (found : strings[id]? = some entry) :
    entry.isIdentifier = true ↔ labelAt .string (expandedRuns kinds) id = .identifier := by
  have flags := decodeStringTable_kinds ran
  have present : id < strings.length := (List.getElem?_eq_some_iff.mp found).1
  have inside : id < min stringCount small.length := by
    have sizes := congrArg List.length flags
    rw [length_map, length_map, stringKindsOf, expandKinds_length] at sizes
    rwa [← sizes]
  have flag : (strings.map (·.isIdentifier))[id]? = some entry.isIdentifier := by
    rw [List.getElem?_map, found, Option.map_some]
  rw [flags, List.getElem?_map, stringKindsOf_getElem? kinds inside, Option.map_some] at flag
  rw [← Option.some.inj flag, beq_iff_eq]

end

/-- Plain empty strings decode whatever their kinds are. -/
theorem decodeEntries_empty (kinds : List StringKindType) (start : Nat) :
    ∃ strings invalid, decodeEntries [] [] start
      ((List.replicate kinds.length 0).zip kinds) = .ok (strings, invalid) ∧
        strings.length = kinds.length := by
  induction kinds generalizing start with
  | nil => exact ⟨[], 0, rfl, rfl⟩
  | cons kind kinds ih =>
    obtain ⟨strings, invalid, decoded, length⟩ := ih (start + 1)
    have resolved : (SmallStringEntry.decode 0).resolve [] = some (0, 0) := rfl
    refine ⟨_, _, Outcome.bind_eq_ok.mpr ⟨(0, 0), ?_, Outcome.bind_eq_ok.mpr
      ⟨(strings, invalid), decoded, rfl⟩⟩, ?_⟩
    · rw [resolved]
      rfl
    · rw [length_cons, length_cons, length]

/-- There are tables of any size. -/
theorem exists_decoded (kinds : List StringKindEntry) (id : Nat) :
    ∃ strings invalid entry, decodeStringTable (id + 1) kinds (List.replicate (id + 1) 0) [] [] =
      .ok (strings, invalid) ∧ strings[id]? = some entry := by
  have size : (stringKindsOf kinds (id + 1)).length = id + 1 := by
    rw [stringKindsOf, expandKinds_length]
  obtain ⟨strings, invalid, decoded, length⟩ := decodeEntries_empty (stringKindsOf kinds (id + 1)) 0
  rw [size] at decoded length
  have present : id < strings.length := length ▸ Nat.lt_succ_self id
  refine ⟨strings, invalid, strings[id], ?_, List.getElem?_eq_getElem present⟩
  rw [decodeStringTable, length_replicate, Nat.min_self, take_of_length_le]
  · exact decoded
  · rw [length_replicate]

/-- The marks are by the runs when the expanded runs read like the runs. -/
theorem marksByRuns_iff_labels (kinds : List StringKindEntry) :
    MarksByRuns kinds ↔ ∀ id, labelAt .string (expandedRuns kinds) id =
      labelAt .string (kinds.map kindRun) id := by
  have identifier : StringKindType.identifier ≠ .string := by decide
  have decided : ∀ first second : StringKindType,
      (first = .identifier ↔ second = .identifier) → first = second := by
    intro first second same
    cases first with
    | identifier => exact (same.mp rfl).symm
    | string =>
      cases second with
      | string => rfl
      | identifier => exact same.mpr rfl
  constructor
  · intro marks id
    obtain ⟨strings, invalid, entry, decoded, found⟩ := exists_decoded kinds id
    refine decided _ _ ?_
    rw [← decodeStringTable_marks decoded found, labelAt_eq_iff identifier]
    exact marks _ _ _ _ _ _ decoded id entry found
  · intro same stringCount small overflow storage strings invalid decoded id entry found
    rw [decodeStringTable_marks decoded found, same, labelAt_eq_iff identifier]
    rfl

/-- The string table marks the strings by the runs exactly when all runs from the first empty one
behind the first run on are of plain strings. -/
theorem marksByRuns_iff (kinds : List StringKindEntry) : MarksByRuns kinds ↔ PlainFromEmpty kinds := by
  rw [marksByRuns_iff_labels]
  cases kinds with
  | nil => exact iff_of_true (fun _ => rfl) trivial
  | cons first rest =>
    refine Iff.trans ?_ (stretched_iff (rest.map kindRun))
    rw [expandedRuns, map_cons]
    constructor
    · intro same position
      have shifted := same (position + (kindRun first).2)
      rwa [labelAt_cons_of_le (Nat.le_add_left _ _), labelAt_cons_of_le (Nat.le_add_left _ _),
        Nat.add_sub_cancel] at shifted
    · intro same id
      rw [labelAt, labelAt, same]

end HermesDecomp.Parser

namespace HermesDecomp.Strings

open Outcome HermesDecomp.Parser RunLengths List

/-- How many strings the expanded runs cover. -/
def covered (kinds : List StringKindEntry) : Nat := total (expandedRuns kinds)

/-- The longest run that can be written. -/
def longestRun : Nat := 2 ^ 31 - 1

/-- How many strings an expanded run has when these runs come before it. -/
def expandedCount (before : List StringKindEntry) (count : Nat) : Nat :=
  if before = [] then count else max 1 count

/-- Strings keep their kinds when one more is added: a plain string is added, or the runs cover
the strings, or the last run is empty and the new string takes the place that it was given
already. A run that is as long as it can get becomes an empty run of identifiers. -/
def KeepsKinds (kinds : List StringKindEntry) (strings : Nat) (isIdentifier : Bool) : Prop :=
  let before := kinds.dropLast
  match kinds.getLast? with
  | some ⟨.identifier, count⟩ =>
      if isIdentifier = false then True
      else if count = longestRun then strings ≤ covered before + expandedCount before 0
      else strings ≤ covered kinds ∨ count = 0 ∧ before ≠ []
  | some ⟨.string, count⟩ =>
      if isIdentifier then strings ≤ covered kinds
      else count = longestRun → strings ≤ covered before ∨ before = []
  | none => isIdentifier = true → strings = 0

/-- The kind runs behind others are all stretched. -/
theorem expandedRuns_append (before : List StringKindEntry) (last : StringKindEntry) :
    expandedRuns (before ++ [last]) =
      expandedRuns before ++ [(last.kind, expandedCount before last.count)] := by
  unfold expandedCount
  cases before with
  | nil => rfl
  | cons first rest =>
    rw [if_neg (cons_ne_nil first rest), cons_append, expandedRuns, expandedRuns,
      map_append, map_append]
    rfl

theorem covered_append (before : List StringKindEntry) (last : StringKindEntry) :
    covered (before ++ [last]) = covered before + expandedCount before last.count := by
  rw [covered, expandedRuns_append, total_append]
  rfl

/-- A written run is read back, but one that is too long is an empty run of identifiers. -/
theorem kindOfRaw_rawKind {entry : StringKindEntry} (small : entry.count < 2 ^ 31) :
    kindOfRaw (rawKind entry) = entry := by
  obtain ⟨kind, count⟩ := entry
  dsimp only at small
  have low : count &&& 0x7fffffff = count := by
    rw [show 0x7fffffff = 2 ^ 31 - 1 from rfl, Nat.and_two_pow_sub_one_eq_mod, Nat.mod_eq_of_lt small]
  have high : count &&& 2 ^ 31 = 0 := by
    refine Nat.eq_of_testBit_eq fun bit => ?_
    rw [Nat.testBit_and, Nat.testBit_two_pow, Nat.zero_testBit]
    by_cases top : 31 = bit
    · subst top
      rw [Nat.testBit_lt_two_pow small, Bool.false_and]
    · rw [decide_eq_false top, Bool.and_false]
  cases kind with
  | string =>
    unfold kindOfRaw rawKind stringKindTypeBit
    dsimp only
    rw [if_pos high, low]
  | identifier =>
    unfold kindOfRaw rawKind stringKindTypeBit
    dsimp only
    rw [Nat.and_or_distrib_right, high, Nat.zero_or, Nat.and_self, if_neg (by decide),
      Nat.and_or_distrib_right, low, show 2 ^ 31 &&& 0x7fffffff = 0 by decide, Nat.or_zero]

theorem kindOfRaw_full (kind : StringKindType) :
    kindOfRaw (rawKind ⟨kind, longestRun + 1⟩) = ⟨.identifier, 0⟩ := by
  cases kind with
  | string | identifier => decide

/-- The runs of a file after an addition, as they are read. -/
def runsWith (kinds : List StringKindEntry) (kind : StringKindType) : List StringKindEntry :=
  ((addKind kinds kind).map rawKind).map kindOfRaw

theorem map_kindOfRaw_rawKind {kinds : List StringKindEntry}
    (small : ∀ entry ∈ kinds, entry.count < 2 ^ 31) : (kinds.map rawKind).map kindOfRaw = kinds := by
  rw [map_map]
  refine Eq.trans (map_congr_left fun entry inside => ?_) (map_id kinds)
  exact kindOfRaw_rawKind (small entry inside)

/-- A new kind is a run of its own. -/
theorem runsWith_other {before : List StringKindEntry} {last : StringKindEntry}
    {kind : StringKindType} (small : ∀ entry ∈ before ++ [last], entry.count < 2 ^ 31)
    (other : last.kind ≠ kind) :
    runsWith (before ++ [last]) kind = (before ++ [last]) ++ [⟨kind, 1⟩] := by
  have added : addKind (before ++ [last]) kind = (before ++ [last]) ++ [⟨kind, 1⟩] := by
    rw [addKind, List.getLast?_concat]
    exact if_neg other
  rw [runsWith, added, map_kindOfRaw_rawKind]
  intro entry inside
  rcases mem_append.mp inside with old | new
  · exact small entry old
  · obtain rfl := mem_singleton.mp new
    exact Nat.one_lt_two_pow (by decide)

/-- A string of the last run's kind makes it longer, unless it is as long as it can get. -/
theorem runsWith_same {before : List StringKindEntry} {kind : StringKindType} {count : Nat}
    (small : ∀ entry ∈ before ++ [⟨kind, count⟩], entry.count < 2 ^ 31) :
    runsWith (before ++ [⟨kind, count⟩]) kind =
      before ++ [if count = longestRun then ⟨.identifier, 0⟩ else ⟨kind, count + 1⟩] := by
  have bound : count < 2 ^ 31 := small ⟨kind, count⟩ (mem_append_right before mem_cons_self)
  have added : addKind (before ++ [⟨kind, count⟩]) kind = before ++ [⟨kind, count + 1⟩] := by
    rw [addKind, List.getLast?_concat]
    dsimp only
    rw [if_pos rfl, dropLast_concat]
  rw [runsWith, added, map_append, map_append, map_kindOfRaw_rawKind
    fun entry inside => small entry (mem_append_left _ inside)]
  refine congrArg (before ++ ·) ?_
  rw [map_singleton, map_singleton]
  by_cases full : count = longestRun
  · rw [if_pos full, full, kindOfRaw_full]
  · rw [if_neg full, kindOfRaw_rawKind]
    unfold longestRun at full
    dsimp only
    omega

theorem runsWith_nil (kind : StringKindType) : runsWith [] kind = [⟨kind, 1⟩] := by
  cases kind with
  | string | identifier => decide

/-- Two lengths of a last run of identifiers. -/
theorem identifiersEnd_iff (runs : List (StringKindType × Nat)) (strings first second : Nat) :
    (∀ id < strings, labelAt .string (runs ++ [(.identifier, first)]) id =
        labelAt .string (runs ++ [(.identifier, second)]) id) ↔
      strings ≤ total runs + min first second ∨ first = second :=
  end_length_iff (by decide) runs strings first second

/-- A last run of identifiers beside none. -/
theorem identifiersAdded_iff (runs : List (StringKindType × Nat)) (strings count : Nat) :
    (∀ id < strings, labelAt .string (runs ++ [(.identifier, count)]) id =
      labelAt .string runs id) ↔ strings ≤ total runs ∨ count = 0 := by
  have ends := identifiersEnd_iff runs strings count 0
  rw [Nat.min_zero, add_zero] at ends
  rw [← ends]
  constructor
  · intro same id below
    rw [same id below, labelAt_empty_end]
  · intro same id below
    rw [same id below, labelAt_empty_end]

/-- Strings keep their kinds exactly when the condition on the runs says so. -/
theorem keepsKinds_iff {kinds : List StringKindEntry}
    (small : ∀ entry ∈ kinds, entry.count < 2 ^ 31) (strings : Nat) (isIdentifier : Bool) :
    (∀ id < strings, labelAt .string (expandedRuns
        (runsWith kinds (if isIdentifier then .identifier else .string))) id =
      labelAt .string (expandedRuns kinds) id) ↔ KeepsKinds kinds strings isIdentifier := by
  unfold KeepsKinds
  rcases eq_nil_or_concat kinds with rfl | ⟨before, ⟨kind, count⟩, rfl⟩
  · rw [runsWith_nil, List.getLast?_nil]
    dsimp only
    cases isIdentifier with
    | false =>
      refine iff_of_true (fun id _ => ?_) (fun wrong => nomatch wrong)
      exact labelAt_blank_end [] 1 id
    | true =>
      rw [if_pos rfl]
      refine (identifiersAdded_iff [] strings 1).trans ?_
      rw [total_nil, Nat.le_zero]
      simp
  · rw [concat_eq_append] at small ⊢
    rw [List.getLast?_concat, dropLast_concat]
    cases kind with
    | string =>
      dsimp only
      cases isIdentifier with
      | false =>
        rw [if_neg Bool.false_ne_true, if_neg Bool.false_ne_true, runsWith_same small]
        by_cases full : count = longestRun
        · rw [if_pos full, expandedRuns_append, expandedRuns_append]
          have plain : ∀ id, labelAt .string (expandedRuns before ++
              [(StringKindType.string, expandedCount before count)]) id =
                labelAt .string (expandedRuns before) id := labelAt_blank_end _ _
          simp only [plain]
          rw [identifiersAdded_iff]
          unfold expandedCount covered
          by_cases first : before = []
          · simp [first]
          · simp [first, full]
        · rw [if_neg full, expandedRuns_append, expandedRuns_append]
          refine iff_of_true (fun id _ => ?_) (fun wrong => absurd wrong full)
          dsimp only
          rw [labelAt_blank_end, labelAt_blank_end]
      | true =>
        rw [if_pos rfl, if_pos rfl, runsWith_other small (by simp), expandedRuns_append,
          identifiersAdded_iff]
        unfold expandedCount covered
        simp
    | identifier =>
      dsimp only
      cases isIdentifier with
      | false =>
        rw [if_neg Bool.false_ne_true, if_pos rfl, runsWith_other small (by simp),
          expandedRuns_append]
        exact iff_of_true (fun id _ => labelAt_blank_end _ _ id) trivial
      | true =>
        rw [if_pos rfl, if_neg Bool.noConfusion, runsWith_same small]
        by_cases full : count = longestRun
        · rw [if_pos full, if_pos full, expandedRuns_append, expandedRuns_append,
            identifiersEnd_iff]
          have long : 1 < count := full ▸ by decide
          unfold expandedCount covered
          dsimp only
          split
          · omega
          · omega
        · rw [if_neg full, if_neg full, expandedRuns_append, expandedRuns_append,
            identifiersEnd_iff, covered_append]
          unfold expandedCount covered
          by_cases first : before = []
          · simp [first]
          · rw [if_neg first, if_neg first]
            simp only [ne_eq, first, not_false_eq_true, and_true]
            omega

/-- Two files agree on which of the first strings are identifiers exactly when their expanded
runs do. -/
theorem flags_agree_iff {kinds after : List StringKindEntry} {strings more : Nat}
    (enough : strings ≤ more) :
    (∀ id < strings, ((stringKindsOf after more).map (· == .identifier))[id]? =
        ((stringKindsOf kinds strings).map (· == .identifier))[id]?) ↔
      ∀ id < strings, labelAt .string (expandedRuns after) id =
        labelAt .string (expandedRuns kinds) id := by
  have decided : ∀ first second : StringKindType,
      (first == .identifier) = (second == .identifier) ↔ first = second := by
    intro first second
    cases first <;> cases second <;> decide
  refine forall₂_congr fun id inside => ?_
  rw [List.getElem?_map, List.getElem?_map, stringKindsOf_getElem? after (lt_of_lt_of_le inside
    enough), stringKindsOf_getElem? kinds inside, Option.map_some, Option.map_some,
    Option.some.injEq, decided]

/-- An addition keeps the kinds of the strings exactly when the condition on the runs says so. -/
theorem addString_keeps_iff {sha1 : Sha1} {image : TidyImage sha1} {value : Text}
    {isIdentifier : Bool} {options : PatchOptions} {out : Bytes} {newId : Nat}
    {after : BytecodeFile}
    (ran : addString sha1 value isIdentifier options image.file = (.ok (out, newId), after)) :
    (∀ id < image.file.header.stringCount,
        (identifierFlags after)[id]? = (identifierFlags image.file)[id]?) ↔
      KeepsKinds image.file.stringKinds image.file.header.stringCount isIdentifier := by
  obtain ⟨tables, locs, view⟩ := image.exists_view
  obtain ⟨strings, layout, found, current, -, -, -, written⟩ := addString_eq_ok view ran
  obtain ⟨_, _, view'⟩ := written.view
  have count := view'.stored_length written.stored
  rw [length_append, length_singleton, view.stored_length current] at count
  have small : ∀ entry ∈ image.file.stringKinds, entry.count < 2 ^ 31 := by
    intro entry inside
    obtain ⟨raws, -, decoded⟩ := view.found.kinds
    rw [view.kinds, decoded] at inside
    obtain ⟨raw, -, rfl⟩ := mem_map.mp inside
    exact kindOfRaw_count raw
  rw [flags_eq view', flags_eq view, written.kinds, ← count, kindsWith]
  exact (flags_agree_iff (Nat.le_succ _)).trans (keepsKinds_iff small _ isIdentifier)

/-- The string table marks the strings by the runs, and an addition keeps their kinds, exactly
under two conditions on the runs: from the first empty run behind the first one on all are of
plain strings, and those that the new string could lengthen cover the strings. -/
theorem kindRuns_iff (kinds : List StringKindEntry) :
    (MarksByRuns kinds ↔ PlainFromEmpty kinds) ∧
      ∀ (sha1 : Sha1) (image : TidyImage sha1) value isIdentifier options out newId after,
        addString sha1 value isIdentifier options image.file = (.ok (out, newId), after) →
          ((∀ id < image.file.header.stringCount,
              (identifierFlags after)[id]? = (identifierFlags image.file)[id]?) ↔
            KeepsKinds image.file.stringKinds image.file.header.stringCount isIdentifier) := by
  refine ⟨marksByRuns_iff kinds, ?_⟩
  intro sha1 image value isIdentifier options out newId after ran
  exact addString_keeps_iff ran

/-- An identifier that is added to the two plain strings of an image leaves them plain. -/
theorem kindRuns_plain : ∃ file, parseAuto Sha1Hash.hash plainImage = .ok file ∧
    ∃ out newId after, addString Sha1Hash.hash ['c'] true .default file = (.ok (out, newId), after) ∧
      ∀ id < 2, (identifierFlags after)[id]? = (identifierFlags file)[id]? := by
  have added : ∃ file, parseAuto Sha1Hash.hash plainImage = .ok file ∧
      (Tidy plainImage file ∧ (file.stringKinds = [⟨.string, 2⟩] ∧ file.header.stringCount = 2) ∧
        ∃ result after, addString Sha1Hash.hash ['c'] true .default file = (.ok result, after) ∧
          after.strings.length = 3) := by
    decide +kernel
  obtain ⟨file, parsed, tidy, ⟨kinds, count⟩, ⟨out, newId⟩, after, ran, -⟩ := added
  refine ⟨file, parsed, out, newId, after, ran, ?_⟩
  have keeps : KeepsKinds file.stringKinds file.header.stringCount true := by
    rw [kinds, count]
    exact le_refl 2
  have kept := ((kindRuns_iff []).2 Sha1Hash.hash ⟨plainImage, file, parsed, tidy⟩ ['c'] true .default out
    newId after ran).mpr keeps
  rwa [count] at kept

/-- An empty run of identifiers between two plain strings makes the second one an identifier. -/
theorem emptyRun_marked : ¬ ∀ kinds, MarksByRuns kinds := by
  intro always
  have decoded : ∃ result, decodeStringTable 2
      [⟨.string, 1⟩, ⟨.identifier, 0⟩, ⟨.string, 1⟩] [0x01000000, 0x01000002] [] [97, 98] =
        .ok result ∧ (result.1[1]?).map (·.isIdentifier) = some true := by
    decide +kernel
  obtain ⟨⟨strings, invalid⟩, ran, flag⟩ := decoded
  obtain ⟨entry, found, marked⟩ := Option.map_eq_some_iff.mp flag
  have falls := (always _ _ _ _ _ _ _ ran 1 entry found).mp marked
  have identifier : StringKindType.identifier ≠ .string := by decide
  exact absurd ((labelAt_eq_iff identifier _ 1).mpr falls) (by decide)

end HermesDecomp.Strings
