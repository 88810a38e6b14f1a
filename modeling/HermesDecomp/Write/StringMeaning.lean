import HermesDecomp.Library.Sha1
import HermesDecomp.Write.LaidBehind
import HermesDecomp.Write.StringResults

/-!
# String writes mean what they say

The check of a write reads entries through their tables alone; the parser also asks
that an entry starts before the end of storage. The two agree except on entries
without bytes behind them, so a write means what it says exactly when every entry
shows after it as it showed before, and the written one shows.
-/

namespace HermesDecomp.Strings

open Bytes Outcome Serialize StringStorage HermesDecomp.Parser

/-- The text of a string as the parser decodes it; nothing where it shows a
placeholder. -/
def decodedText (file : BytecodeFile) (id : Nat) : Option Text :=
  match readAllStringLocs file with
  | .ok locs => do
      let loc ← locs[id]?
      let entry ← file.strings[id]?
      if Inside file.header.stringStorageSize loc then some entry.value else none
  | _ => none

/-- The kind of each string of a file. -/
def kindsOf (file : BytecodeFile) : List StringKindType :=
  stringKindsOf file.stringKinds file.header.stringCount

/-- A write of a text to an entry means what it says: the entry decodes to the text
and is UTF-16 exactly when the text needs it, every other entry is what it was, and
no placeholder is new. -/
structure Means (before after : BytecodeFile) (id : Nat) (text : Text) : Prop where
  written : decodedText after id = some text
  encoded : (after.strings[id]?).map (·.isUtf16) = some (needsUtf16 text)
  others : ∀ other entry, other ≠ id → before.strings[other]? = some entry →
    after.strings[other]? = some entry ∧ decodedText after other = decodedText before other
  noNew : ∀ other < after.strings.length, decodedText after other = none →
    other < before.strings.length ∧ decodedText before other = none

section Reading

variable {bytes : Bytes} {file : BytecodeFile} {tables : CommonTables} {locs : List StrLoc}
  {strings : List StoredString} {id : Nat}

theorem storedAt_eq_some {raw : Bytes} {start : Nat} {loc : StrLoc} {string : StoredString}
    (found : storedAt raw start loc = some string) :
    string.isUtf16 = loc.isUtf16 ∧
      Bytes.slice raw (start + loc.storageOff) (byteLen loc) = some string.bytes := by
  unfold storedAt at found
  split at found
  next bytes taken =>
    cases found
    exact ⟨rfl, taken⟩
  · simp at found

/-- An entry is decoded from its location and its kind. -/
theorem entry_eq (view : View bytes file tables locs) {loc : StrLoc} (here : locs[id]? = some loc) :
    ∃ kind, (kindsOf file)[id]? = some kind ∧
      file.strings[id]? = some (entryOf tables.stringStorage loc kind) := by
  have inside : id < (kindsOf file).length := by
    rw [kindsOf, stringKindsOf, expandKinds_length, ← view.count]
    exact (List.getElem?_eq_some_iff.mp here).1
  have kind : (stringKindsOf file.stringKinds file.header.stringCount)[id]? =
    some (kindsOf file)[id] := List.getElem?_eq_getElem inside
  refine ⟨(kindsOf file)[id], kind, ?_⟩
  rw [view.strings, List.getElem?_map, (List.getElem?_zip_eq_some).mpr
    (⟨here, kind⟩ : locs[id]? = some (loc, (kindsOf file)[id]).1 ∧ _)]
  rfl

/-- Where an entry lies in storage, the parser decodes the bytes that are stored. -/
theorem decodedText_eq (view : View bytes file tables locs)
    (current : currentStrings file = .ok strings) {loc : StrLoc} {string : StoredString}
    (here : locs[id]? = some loc) (stored : strings[id]? = some string) :
    string.isUtf16 = loc.isUtf16 ∧ decodedText file id =
      if Inside file.header.stringStorageSize loc then some string.text else none := by
  obtain ⟨kind, -, entry⟩ := entry_eq view here
  have size := slice_length view.found.storage
  have pair := view.stored current
  obtain ⟨inLocs, rfl⟩ := List.getElem?_eq_some_iff.mp here
  obtain ⟨inStrings, rfl⟩ := List.getElem?_eq_some_iff.mp stored
  obtain ⟨wide, read⟩ := storedAt_eq_some (pair.get inLocs inStrings)
  rw [List.get_eq_getElem, List.get_eq_getElem] at wide read
  refine ⟨wide, ?_⟩
  rw [decodedText, view.read]
  simp only [here, entry, Option.bind_eq_bind, Option.bind_some]
  by_cases inside : Inside file.header.stringStorageSize locs[id]
  · rw [if_pos inside, if_pos inside, entryOf, decodeString_eq, size, if_pos inside, Option.getD_some,
      StoredString.text, wide]
    have part : Bytes.slice tables.stringStorage locs[id].storageOff (byteLen locs[id]) =
        some ((tables.stringStorage.drop locs[id].storageOff).take (byteLen locs[id])) :=
      slice_eq_some.mpr ⟨size ▸ inside.2, rfl⟩
    have same := slice_slice view.found.storage part
    rw [read] at same
    rw [Option.some.inj same]
  · rw [if_neg inside, if_neg inside]

/-- The parsed entry of a string is made of its decoded text and its kind. -/
theorem entry_of_stored (view : View bytes file tables locs)
    (current : currentStrings file = .ok strings) {string : StoredString}
    (stored : strings[id]? = some string) :
    ∃ kind, (kindsOf file)[id]? = some kind ∧ file.strings[id]? = some
      { value := (decodedText file id).getD (invalidString string.isUtf16)
        isUtf16 := string.isUtf16
        isIdentifier := kind == .identifier } ∧
      ∀ text, decodedText file id = some text → text = string.text := by
  have lengths := (view.stored current).length_eq
  have inside : id < locs.length := by
    rw [lengths]
    exact (List.getElem?_eq_some_iff.mp stored).1
  have here := List.getElem?_eq_getElem inside
  obtain ⟨wide, decoded⟩ := decodedText_eq view current here stored
  obtain ⟨kind, present, entry⟩ := entry_eq view here
  have size := slice_length view.found.storage
  refine ⟨kind, present, ?_, fun text found => ?_⟩
  · rw [entry, entryOf, wide]
    have unfolded : decodedText file id = if Inside file.header.stringStorageSize locs[id] then
        some (entryOf tables.stringStorage locs[id] kind).value else none := by
      rw [decodedText, view.read]
      simp [here, entry]
    rw [unfolded]
    by_cases shown : Inside file.header.stringStorageSize locs[id]
    · rw [if_pos shown, Option.getD_some, entryOf]
    · rw [if_neg shown, decodeString_eq, size, if_neg shown, Option.getD_none]
  · rw [decoded] at found
    split at found
    · exact (Option.some.inj found).symm
    · simp at found

end Reading

section Writes

variable {bytes out : Bytes} {before after : BytecodeFile} {tables tables' : CommonTables}
  {locs locs' : List StrLoc} {strings expected : List StoredString}

section

variable (view : View bytes before tables locs) (view' : View out after tables' locs')
  (current : currentStrings before = .ok strings) (current' : currentStrings after = .ok expected)

include view view' current current'

/-- An entry whose stored bytes stay is what it was exactly when it shows as before and
keeps its kind. -/
theorem entry_kept_iff {other : Nat} {string : StoredString}
    (stored : strings[other]? = some string) (stored' : expected[other]? = some string) :
    ∃ entry, before.strings[other]? = some entry ∧
      ((after.strings[other]? = some entry ∧ decodedText after other = decodedText before other) ↔
        ((decodedText after other).isSome ↔ (decodedText before other).isSome) ∧
          (kindsOf after)[other]? = (kindsOf before)[other]?) := by
  obtain ⟨kind, present, entry, text⟩ := entry_of_stored view current stored
  obtain ⟨kind', present', entry', text'⟩ := entry_of_stored view' current' stored'
  refine ⟨_, entry, ?_⟩
  rw [entry', present, present']
  have sameKind : (kind' == StringKindType.identifier) = (kind == StringKindType.identifier) ↔
      kind' = kind := by
    cases kind <;> cases kind' <;> simp
  cases shown : decodedText before other with
  | none =>
    cases shown' : decodedText after other with
    | none => simp [sameKind]
    | some found => simp
  | some found =>
    cases shown' : decodedText after other with
    | none => simp
    | some found' =>
      rw [text found shown, text' found' shown']
      simp [sameKind]

/-- A write that stores a text in an entry and leaves the others as stored means what
it says exactly when the entry shows, the others show as before, and kinds stay. -/
theorem means_iff {id : Nat} {text : Text}
    (stored : expected[id]? = some (StoredString.encode text))
    (same : ∀ other < strings.length, other ≠ id → expected[other]? = strings[other]?)
    (noMore : ∀ other < expected.length, other ≠ id → other < strings.length) :
    Means before after id text ↔ (decodedText after id).isSome ∧
      ∀ other < strings.length, other ≠ id →
        ((decodedText after other).isSome ↔ (decodedText before other).isSome) ∧
          (kindsOf after)[other]? = (kindsOf before)[other]? := by
  have kept : ∀ other < strings.length, other ≠ id → ∃ entry, before.strings[other]? = some entry ∧
      ((after.strings[other]? = some entry ∧ decodedText after other = decodedText before other) ↔
        ((decodedText after other).isSome ↔ (decodedText before other).isSome) ∧
          (kindsOf after)[other]? = (kindsOf before)[other]?) := by
    intro other inside different
    have here := List.getElem?_eq_getElem inside
    exact entry_kept_iff view view' current current' here ((same other inside different).trans here)
  have lengths : before.strings.length = strings.length := by
    rw [view.stored_length current, view.strings_length]
  have lengths' : after.strings.length = expected.length := by
    rw [view'.stored_length current', view'.strings_length]
  obtain ⟨kind, -, entry, only⟩ := entry_of_stored view' current' stored
  rw [text_encode] at only
  constructor
  · intro means
    refine ⟨by rw [means.written, Option.isSome_some], fun other inside different => ?_⟩
    obtain ⟨old, present, iff⟩ := kept other inside different
    exact iff.mp (means.others other old different present)
  · rintro ⟨shows, rest⟩
    obtain ⟨found, shown⟩ := Option.isSome_iff_exists.mp shows
    refine ⟨shown.trans (congrArg some (only found shown)), ?_, ?_, ?_⟩
    · rw [entry, Option.map_some, StoredString.encode_isUtf16]
    · intro other old different present
      have inside : other < strings.length := by
        rw [← lengths]
        exact (List.getElem?_eq_some_iff.mp present).1
      obtain ⟨old', present', iff⟩ := kept other inside different
      obtain rfl := Option.some.inj (present.symm.trans present')
      exact iff.mpr (rest other inside different)
    · intro other inside placeholder
      have different : other ≠ id := by
        rintro rfl
        rw [shown] at placeholder
        simp at placeholder
      have old := noMore other (lengths' ▸ inside) different
      refine ⟨lengths ▸ old, ?_⟩
      have shows := (rest other old different).1
      rw [placeholder] at shows
      simpa using shows

end

end Writes

/-- An entry of strings to lay out has bytes, or bytes are laid out behind it. -/
def Visible (strings : List StoredString) (pinned : Finset Nat) (packing : Packing) (id : Nat) :
    Prop :=
  ∃ string, strings[id]? = some string ∧
    (string.bytes ≠ [] ∨ Followed strings pinned packing string.isUtf16 id)

/-- A rebuild of some strings shows the written entry, and every other entry exactly
when it showed before. -/
structure RebuildShows (file : BytecodeFile) (strings : List StoredString) (id : Nat)
    (packing : Packing) : Prop where
  written : Visible strings {id} packing id
  others : ∀ other < file.strings.length, other ≠ id →
    (Visible strings {id} packing other ↔ (decodedText file other).isSome)

/-- A new text takes the place of an old one. -/
def EditsInPlace (file : BytecodeFile) (id : Nat) (text : Text) : Prop :=
  ∃ locs entry loc, readAllStringLocs file = .ok locs ∧ file.strings[id]? = some entry ∧
    FitsInPlace locs entry id text loc

/-- When a patch means what it says: in place, the old entry shows; rebuilt, the
rebuild shows what it must. -/
def PatchShows (file : BytecodeFile) (id : Nat) (text : Text) (packing : Packing) : Prop :=
  EditsInPlace file id text ∧ (decodedText file id).isSome ∨
    ¬ EditsInPlace file id text ∧ ∃ strings, currentStrings file = .ok strings ∧
      RebuildShows file (strings.set id (StoredString.encode text)) id packing

/-- When an addition means what it says: the rebuild shows what it must, and the kind
runs with one more string give the old strings their kinds. -/
def AddShows (file : BytecodeFile) (text : Text) (isIdentifier : Bool) (packing : Packing) : Prop :=
  (∃ strings, currentStrings file = .ok strings ∧
    RebuildShows file (strings ++ [StoredString.encode text]) file.header.stringCount packing) ∧
  ∀ other < file.header.stringCount,
    (stringKindsOf ((kindsWith file isIdentifier).map kindOfRaw)
      (file.header.stringCount + 1))[other]? = (kindsOf file)[other]?

section Paths

variable {sha1 : Sha1} {image : TidyImage sha1} {after : BytecodeFile}

/-- After a rebuild an entry decodes exactly when it is visible in the layout. -/
theorem rebuilt_shows {kinds : List StringKindEntry} {hashes : List Nat}
    {expected : List StoredString} {id other : Nat} {packing : Packing} {layout : StringLayout}
    {locs : List StrLoc} (few : expected.length < 2 ^ 23)
    (laid : layOut expected {id} packing = .ok layout)
    (located : ∀ other, locs[other]? = locate layout.small layout.overflow other)
    (written : Rewritten kinds hashes expected layout.storage.length locs after)
    (inside : other < expected.length) :
    (decodedText after other).isSome ↔ Visible expected {id} packing other := by
  obtain ⟨out, tables, view⟩ := written.view
  have present := List.getElem?_eq_getElem inside
  have found : other < locs.length := by rwa [(view.stored written.stored).length_eq]
  have here := List.getElem?_eq_getElem found
  obtain ⟨-, decoded⟩ := decodedText_eq view written.stored here present
  have iff := layOut_inside few laid present ((located other).symm.trans here)
  rw [decoded, written.size]
  have visible : Visible expected {id} packing other ↔
      (expected[other].bytes ≠ [] ∨ Followed expected {id} packing expected[other].isUtf16 other) := by
    constructor
    · rintro ⟨string, same, shows⟩
      obtain rfl := Option.some.inj (present.symm.trans same)
      exact shows
    · exact fun shows => ⟨_, present, shows⟩
  rw [visible, ← iff]
  by_cases shown : Inside layout.storage.length locs[other]
  · rw [if_pos shown]
    exact ⟨fun _ => shown, fun _ => rfl⟩
  · rw [if_neg shown]
    exact ⟨fun absurd => by simp at absurd, fun absurd => (shown absurd).elim⟩

theorem patchStringById_means_iff {id : Nat} {text : Text} {options : PatchOptions} {out : Bytes}
    (few : image.file.header.stringCount < 2 ^ 23)
    (ran : patchStringById sha1 id text options image.file = (.ok out, after)) :
    Means image.file after id text ↔ PatchShows image.file id text options.stringPacking := by
  obtain ⟨tables, locs, view⟩ := image.exists_view
  obtain ⟨strings, entry, current, inside, foundEntry, paths⟩ := patchStringById_eq_ok view ran
  have count := view.stored_length current
  have setLength : (strings.set id (StoredString.encode text)).length = strings.length :=
    List.length_set
  have stored : (strings.set id (StoredString.encode text))[id]? =
      some (StoredString.encode text) := List.getElem?_set_self inside
  have same : ∀ other < strings.length, other ≠ id →
      (strings.set id (StoredString.encode text))[other]? = strings[other]? :=
    fun other _ different => List.getElem?_set_ne different.symm
  have noMore : ∀ other < (strings.set id (StoredString.encode text)).length, other ≠ id →
      other < strings.length := fun other less _ => setLength ▸ less
  have inPlace_iff : EditsInPlace image.file id text ↔ ∃ loc, FitsInPlace locs entry id text loc := by
    constructor
    · rintro ⟨locs', entry', loc, read, foundEntry', fits⟩
      obtain rfl := Outcome.ok.inj (view.read.symm.trans read)
      obtain rfl := Option.some.inj (foundEntry.symm.trans foundEntry')
      exact ⟨loc, fits⟩
    · rintro ⟨loc, fits⟩
      exact ⟨locs, entry, loc, view.read, foundEntry, fits⟩
  rcases paths with ⟨loc, fits, written⟩ | ⟨rebuilds, layout, found, laid, located, written⟩
  · obtain ⟨_, tables', view'⟩ := written.view
    rw [means_iff view view' current written.stored stored same noMore]
    have kinds : kindsOf after = kindsOf image.file := by
      rw [kindsOf, kindsOf, written.kinds, ← view'.stored_length written.stored, setLength, count]
    have shows : ∀ other < strings.length,
        ((decodedText after other).isSome ↔ (decodedText image.file other).isSome) := by
      intro other less
      have less' : other < locs.length := by rwa [(view.stored current).length_eq]
      have here := List.getElem?_eq_getElem less'
      have shown := (decodedText_eq view current here (List.getElem?_eq_getElem less)).2
      have shown' := (decodedText_eq view' written.stored here
        (List.getElem?_eq_getElem (setLength.symm ▸ less))).2
      rw [written.size] at shown'
      rw [shown, shown']
      split
      · exact ⟨fun _ => rfl, fun _ => rfl⟩
      · exact Iff.rfl
    rw [PatchShows, inPlace_iff, shows id inside, kinds]
    constructor
    · exact fun both => .inl ⟨⟨loc, fits⟩, both.1⟩
    · rintro (⟨-, shown⟩ | ⟨absurd, -⟩)
      · exact ⟨shown, fun other less _ => ⟨shows other less, rfl⟩⟩
      · exact (absurd ⟨loc, fits⟩).elim
  · obtain ⟨_, tables', view'⟩ := written.view
    rw [means_iff view view' current written.stored stored same noMore]
    have kinds : kindsOf after = kindsOf image.file := by
      rw [kindsOf, kindsOf, written.kinds, ← view'.stored_length written.stored, setLength, count]
    have shows : ∀ other < strings.length, ((decodedText after other).isSome ↔
        Visible (strings.set id (StoredString.encode text)) {id} options.stringPacking other) :=
      fun other less => rebuilt_shows (by rw [setLength, count]; exact few) laid located written
        (setLength.symm ▸ less)
    have lengths : image.file.strings.length = strings.length := by rw [view.strings_length, count]
    rw [PatchShows, inPlace_iff, shows id inside, kinds]
    constructor
    · rintro ⟨shown, rest⟩
      refine .inr ⟨fun ⟨loc, fits⟩ => rebuilds loc fits, strings, current, shown, ?_⟩
      intro other less different
      rw [lengths] at less
      exact (shows other less).symm.trans (rest other less different).1
    · rintro (⟨⟨loc, fits⟩, -⟩ | ⟨-, strings', current', written', others⟩)
      · exact (rebuilds loc fits).elim
      · obtain rfl := Outcome.ok.inj (current.symm.trans current')
        refine ⟨written', fun other less different => ⟨?_, rfl⟩⟩
        exact (shows other less).trans (others other (lengths.symm ▸ less) different)

theorem addString_means_iff {text : Text} {isIdentifier : Bool} {options : PatchOptions}
    {out : Bytes} {id : Nat} (few : image.file.header.stringCount + 1 < 2 ^ 23)
    (ran : addString sha1 text isIdentifier options image.file = (.ok (out, id), after)) :
    Means image.file after id text ↔
      AddShows image.file text isIdentifier options.stringPacking := by
  obtain ⟨tables, locs, view⟩ := image.exists_view
  obtain ⟨strings, layout, found, current, rfl, laid, located, written⟩ := addString_eq_ok view ran
  obtain ⟨_, tables', view'⟩ := written.view
  have count := view.stored_length current
  have length : (strings ++ [StoredString.encode text]).length =
      image.file.header.stringCount + 1 := by
    rw [List.length_append, count, List.length_singleton]
  have stored : (strings ++ [StoredString.encode text])[image.file.header.stringCount]? =
      some (StoredString.encode text) := by
    rw [← count, List.getElem?_append_right (Nat.le_refl _), Nat.sub_self, List.getElem?_cons_zero]
  have same : ∀ other < strings.length, other ≠ image.file.header.stringCount →
      (strings ++ [StoredString.encode text])[other]? = strings[other]? :=
    fun other less _ => List.getElem?_append_left less
  have noMore : ∀ other < (strings ++ [StoredString.encode text]).length,
      other ≠ image.file.header.stringCount → other < strings.length := by
    intro other less different
    omega
  have kinds : kindsOf after = stringKindsOf ((kindsWith image.file isIdentifier).map kindOfRaw)
      (image.file.header.stringCount + 1) := by
    rw [kindsOf, written.kinds, ← view'.stored_length written.stored, length]
  have shows : ∀ other < strings.length + 1, ((decodedText after other).isSome ↔
      Visible (strings ++ [StoredString.encode text]) {image.file.header.stringCount}
        options.stringPacking other) :=
    fun other less => rebuilt_shows (by rw [length]; exact few) laid located written (by omega)
  have lengths : image.file.strings.length = strings.length := by rw [view.strings_length, count]
  rw [means_iff view view' current written.stored stored same noMore, AddShows, kinds,
    shows _ (by omega)]
  constructor
  · rintro ⟨shown, rest⟩
    refine ⟨⟨strings, current, shown, fun other less different => ?_⟩, fun other less => ?_⟩
    · rw [lengths] at less
      exact (shows other (by omega)).symm.trans (rest other less different).1
    · exact (rest other (by omega) (ne_of_lt less)).2
  · rintro ⟨⟨strings', current', written', others⟩, sameKinds⟩
    obtain rfl := Outcome.ok.inj (current.symm.trans current')
    refine ⟨written', fun other less different => ⟨?_, sameKinds other (by omega)⟩⟩
    exact (shows other (by omega)).trans (others other (by omega) different)

/-- A successful write of a text means what it says exactly when the entries show: for
a patch on either path and for an addition, with either packing. -/
theorem stringWrites_mean_iff (image : TidyImage sha1)
    (few : image.file.header.stringCount + 1 < 2 ^ 23) (text : Text) (options : PatchOptions)
    (after : BytecodeFile) :
    (∀ id out, patchStringById sha1 id text options image.file = (.ok out, after) →
      (Means image.file after id text ↔ PatchShows image.file id text options.stringPacking)) ∧
    ∀ isIdentifier id out,
      addString sha1 text isIdentifier options image.file = (.ok (out, id), after) →
      (Means image.file after id text ↔
        AddShows image.file text isIdentifier options.stringPacking) :=
  ⟨fun _ _ ran => patchStringById_means_iff (by omega) ran,
    fun _ _ _ ran => addString_means_iff few ran⟩

end Paths

/-- An image with the two plain strings `a` and `b`. -/
def plainImage : Bytes :=
  [198, 31, 188, 3, 193, 3, 25, 31, 96, 0, 0, 0, 0, 0, 0, 0, 0, 0, 0, 0, 0, 0, 0, 0, 0, 0, 0, 0,
   0, 0, 0, 0, 184, 0, 0, 0, 0, 0, 0, 0, 1, 0, 0, 0, 1, 0, 0, 0, 0, 0, 0, 0, 2, 0, 0, 0, 0, 0, 0,
   0, 2, 0, 0, 0, 0, 0, 0, 0, 0, 0, 0, 0, 0, 0, 0, 0, 0, 0, 0, 0, 0, 0, 0, 0, 0, 0, 0, 0, 0, 0, 0,
   0, 0, 0, 0, 0, 0, 0, 0, 0, 0, 0, 0, 0, 0, 0, 0, 0, 0, 0, 0, 0, 0, 0, 0, 0, 0, 0, 0, 0, 0, 0, 0,
   0, 0, 0, 0, 0, 160, 0, 0, 2, 4, 0, 0, 0, 0, 0, 0, 0, 0, 0, 0, 0, 2, 0, 0, 0, 0, 0, 0, 1, 2, 0,
   0, 1, 97, 98, 0, 0, 140, 0, 92, 0, 172, 238, 22, 188, 211, 131, 11, 175, 59, 247, 205, 241, 250,
   44, 194, 192, 241, 12, 209, 16]

/-- Writing `é` over `b` is a write that the condition is about. -/
theorem stringWrites_mean_iff_rebuilt : ∃ file, parseAuto Sha1Hash.hash plainImage = .ok file ∧
    ∃ out after, patchStringById Sha1Hash.hash 1 ['é'] .default file = (.ok out, after) ∧
      (Means file after 1 ['é'] ↔ PatchShows file 1 ['é'] .packed) := by
  have patched : ∃ file, parseAuto Sha1Hash.hash plainImage = .ok file ∧
      (Tidy plainImage file ∧ file.header.stringCount + 1 < 2 ^ 23 ∧ ∃ out after,
        patchStringById Sha1Hash.hash 1 ['é'] .default file = (.ok out, after) ∧
          decodedText after 1 = some ['é']) := by
    decide +kernel
  obtain ⟨file, parsed, tidy, few, out, after, ran, -⟩ := patched
  exact ⟨file, parsed, out, after, ran,
    (stringWrites_mean_iff ⟨plainImage, file, parsed, tidy⟩ few ['é'] .default after).1 1 out ran⟩

/-- Writing the empty text over `b` succeeds and leaves a placeholder. -/
theorem patchStringById_empty : ∃ file, parseAuto Sha1Hash.hash plainImage = .ok file ∧
    ∃ out after, patchStringById Sha1Hash.hash 1 [] .default file = (.ok out, after) ∧
      (after.strings[1]?).map (·.value) = some "<invalid utf8>".toList ∧
      ¬ Means file after 1 [] := by
  have patched : ∃ file, parseAuto Sha1Hash.hash plainImage = .ok file ∧ ∃ out after,
      patchStringById Sha1Hash.hash 1 [] .default file = (.ok out, after) ∧
        ((after.strings[1]?).map (·.value) = some "<invalid utf8>".toList ∧
          decodedText after 1 = none) := by
    decide +kernel
  obtain ⟨file, parsed, out, after, ran, value, placeholder⟩ := patched
  refine ⟨file, parsed, out, after, ran, value, fun means => ?_⟩
  have written := means.written
  rw [placeholder] at written
  simp at written

end HermesDecomp.Strings
