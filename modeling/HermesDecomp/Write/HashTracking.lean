import HermesDecomp.Library.Sha1
import HermesDecomp.Write.StringResults

/-!
# Identifier hashes follow identifier texts

The hashes of an image are those of its identifiers' stored UTF-16 units, in id
order. A patch rewrites the hash of its text, an addition appends one, and a
retarget takes the hash of the other entry's decoded text, which is the hash of its
stored units only where decoding lost nothing.
-/

namespace HermesDecomp.Strings

open Bytes Outcome Serialize StringStorage HermesDecomp.Parser List

/-- The UTF-16 units of a stored string: its own, or one for each byte. -/
def storedUnits (stored : StoredString) : List Nat :=
  if stored.isUtf16 then Utf.units stored.bytes else stored.bytes.map (·.toNat)

/-- Whether each string of a file is an identifier. -/
def identifierFlags (file : BytecodeFile) : List Bool := file.strings.map (·.isIdentifier)

/-- The hashes of the flagged strings, in order. -/
def hashesOf (strings : List StoredString) (flags : List Bool) : List Nat :=
  ((strings.zip flags).filter (·.2)).map fun row => jenkinsHash (storedUnits row.1)

/-- The hashes of a file are those of its identifiers as stored, and the header
counts them. -/
def HashesTrack (file : BytecodeFile) : Prop :=
  ∃ strings, currentStrings file = .ok strings ∧
    file.identifierHashes = hashesOf strings (identifierFlags file) ∧
    file.header.identifierCount = identifiersIn file.strings

/-- An ASCII text has one unit for each byte. -/
theorem encodeUtf16_ascii {text : Text} (ascii : needsUtf16 text = false) :
    (text.map fun c => UInt8.ofNat c.toNat).map (·.toNat) = Utf.encodeUtf16 text := by
  induction text with
  | nil => rfl
  | cons c text ih =>
    rw [needsUtf16, any_cons, Bool.or_eq_false_iff, decide_eq_false_iff_not] at ascii
    have unit : Utf.encodeChar c = [c.toNat] := if_pos (by omega)
    have byte : (UInt8.ofNat c.toNat).toNat = c.toNat := UInt8.toNat_ofNat_of_lt (by
      rw [UInt8.size]
      omega)
    rw [map_cons, map_cons, ih ascii.2, byte, Utf.encodeUtf16,
      Utf.encodeUtf16, flatMap_cons, unit, singleton_append]

instance (file : BytecodeFile) : Decidable (HashesTrack file) :=
  inferInstanceAs (Decidable (∃ strings, currentStrings file = .ok strings ∧
    (file.identifierHashes = hashesOf strings (identifierFlags file) ∧
      file.header.identifierCount = identifiersIn file.strings)))

/-- A text is stored as its UTF-16 units. -/
theorem storedUnits_encode (value : Text) :
    storedUnits (StoredString.encode value) = Utf.encodeUtf16 value := by
  unfold storedUnits
  rw [StoredString.encode_isUtf16]
  unfold StoredString.encode
  split
  next wide => exact Utf.units_unitBytes fun unit inside => Utf.encodeUtf16_lt inside
  next narrow => exact encodeUtf16_ascii (Bool.eq_false_iff.mpr narrow)

section Lists

variable {strings : List StoredString} {flags : List Bool} {id : Nat} {string : StoredString}

/-- Replacing a flagged string replaces the hash in its slot. -/
theorem hashesOf_set (flagged : flags[id]? = some true) (inside : id < strings.length) :
    hashesOf (strings.set id string) flags =
      (hashesOf strings flags).set ((flags.take id).count true) (jenkinsHash (storedUnits string)) := by
  induction strings generalizing flags id with
  | nil => simp at inside
  | cons first strings ih =>
    cases flags with
    | nil => simp at flagged
    | cons flag flags =>
      cases id with
      | zero =>
        obtain rfl : flag = true := Option.some.inj flagged
        rfl
      | succ id =>
        have rest := @ih flags id flagged (by simpa using inside)
        unfold hashesOf at rest ⊢
        cases flag with
        | true => simpa using rest
        | false => simpa using rest

/-- Replacing a plain string replaces no hash. -/
theorem hashesOf_set_plain (plain : flags[id]? = some false) :
    hashesOf (strings.set id string) flags = hashesOf strings flags := by
  induction strings generalizing flags id with
  | nil => rfl
  | cons first strings ih =>
    cases flags with
    | nil => simp at plain
    | cons flag flags =>
      cases id with
      | zero =>
        obtain rfl : flag = false := Option.some.inj plain
        rfl
      | succ id =>
        have rest := @ih flags id plain
        unfold hashesOf at rest ⊢
        cases flag with
        | true => simpa using rest
        | false => simpa using rest

theorem hashesOf_append (flag : Bool) (lengths : strings.length = flags.length) :
    hashesOf (strings ++ [string]) (flags ++ [flag]) =
      hashesOf strings flags ++ if flag then [jenkinsHash (storedUnits string)] else [] := by
  unfold hashesOf
  rw [zip_append lengths, filter_append, map_append]
  cases flag <;> rfl

theorem hashesOf_length (lengths : strings.length = flags.length) :
    (hashesOf strings flags).length = flags.count true := by
  induction strings generalizing flags with
  | nil =>
    rw [length_eq_zero_iff.mp lengths.symm]
    rfl
  | cons first strings ih =>
    cases flags with
    | nil => simp at lengths
    | cons flag flags =>
      have rest := @ih flags (by simpa using lengths)
      unfold hashesOf at rest ⊢
      cases flag with
      | true => simpa using rest
      | false => simpa using rest

end Lists

theorem identifiersIn_eq (file : BytecodeFile) (id : Nat) :
    identifiersIn (file.strings.take id) = ((identifierFlags file).take id).count true := by
  rw [identifierFlags, ← map_take, List.count, countP_map, identifiersIn]
  congr
  funext entry
  simp

/-- A new hash for an identifier goes where its text goes. -/
theorem hashesAfter_eq {file : BytecodeFile} {strings : List StoredString} {id : Nat}
    {newValue : Text} {stored : StoredString}
    (tracked : file.identifierHashes = hashesOf strings (identifierFlags file))
    (lengths : strings.length = file.strings.length) (inside : id < strings.length)
    (hash : (identifierFlags file)[id]? = some true →
      jenkinsHash (storedUnits stored) = hermesIdentifierHash newValue) :
    hashesAfter file id newValue = hashesOf (strings.set id stored) (identifierFlags file) := by
  have present : id < file.strings.length := by rwa [← lengths]
  have flag : (identifierFlags file)[id]? = some file.strings[id].isIdentifier := by
    rw [identifierFlags, List.getElem?_map, List.getElem?_eq_getElem present, Option.map_some]
  unfold hashesAfter identifierIndex
  rw [List.getElem?_eq_getElem present]
  cases isIdentifier : file.strings[id].isIdentifier with
  | true =>
    rw [isIdentifier] at flag
    rw [hashesOf_set flag inside, hash flag, tracked, ← identifiersIn_eq]
    simp [isIdentifier]
  | false =>
    rw [isIdentifier] at flag
    rw [hashesOf_set_plain flag, ← tracked]
    simp [isIdentifier]

/-- The identifiers of a file are the identifiers of its kind runs. -/
theorem flags_eq {bytes : Bytes} {file : BytecodeFile} {tables : CommonTables} {locs : List StrLoc}
    (view : View bytes file tables locs) : identifierFlags file =
      (stringKindsOf file.stringKinds file.header.stringCount).map (· == .identifier) := by
  have lengths : (stringKindsOf file.stringKinds file.header.stringCount).length ≤ locs.length := by
    rw [view.count, stringKindsOf, expandKinds_length]
  rw [identifierFlags, view.strings, map_map]
  refine Eq.trans ?_ (congrArg (List.map (· == StringKindType.identifier)) (map_snd_zip lengths))
  rw [map_map]
  rfl

/-- Hashes that are those of the stored identifiers are as many as the header says. -/
theorem tracks_of_rewritten {kinds : List StringKindEntry} {hashes : List Nat}
    {expected : List StoredString} {size : Nat} {locs : List StrLoc} {after : BytecodeFile}
    (written : Rewritten kinds hashes expected size locs after)
    (same : hashes = hashesOf expected (identifierFlags after)) : HashesTrack after := by
  obtain ⟨out, tables, view⟩ := written.view
  have hashCount := view.found.hashes.1
  have lengths : expected.length = (identifierFlags after).length := by
    rw [identifierFlags, length_map, view.strings_length, view.stored_length written.stored]
  refine ⟨expected, written.stored, written.hashes.trans same, ?_⟩
  rw [← hashCount, ← view.hashes, written.hashes, same, hashesOf_length lengths,
    ← take_length (l := after.strings), identifiersIn_eq, take_of_length_le]
  rw [identifierFlags, length_map]

/-- The operations that edit strings. -/
inductive StringOp where
  | patchStringById (id : Nat) (newValue : Text) (options : PatchOptions)
  | retargetString (fromId toId : Nat)
  | addString (value : Text) (isIdentifier : Bool) (options : PatchOptions)

namespace StringOp

/-- Run an operation. -/
def perform (sha1 : Sha1) : StringOp → Edit Bytes
  | patchStringById id newValue options => Strings.patchStringById sha1 id newValue options
  | retargetString fromId toId => Strings.retargetString sha1 fromId toId
  | addString value isIdentifier options => do
      let (out, _) ← Strings.addString sha1 value isIdentifier options
      pure out

end StringOp

/-- The text that an identifier is made to read as decodes without loss: it encodes
to the units that are stored. -/
def DecodesFaithfully (file : BytecodeFile) (fromId toId : Nat) : Prop :=
  ∀ source target strings stored, file.strings[fromId]? = some source →
    source.isIdentifier = true → file.strings[toId]? = some target →
    currentStrings file = .ok strings → strings[toId]? = some stored →
    Utf.encodeUtf16 target.value = storedUnits stored

/-- The kind runs cover the strings: one more string adds one kind at the end. -/
def KindsCover (file : BytecodeFile) (isIdentifier : Bool) : Prop :=
  stringKindsOf ((kindsWith file isIdentifier).map kindOfRaw) (file.header.stringCount + 1) =
    stringKindsOf file.stringKinds file.header.stringCount ++
      [if isIdentifier then .identifier else .string]

/-- What keeps the hashes right: the image is tidy, a retargeted identifier gets a
text that decodes faithfully, and the kind runs cover the strings of an addition. -/
def HashSafe (sha1 : Sha1) (file : BytecodeFile) (operation : StringOp) : Prop :=
  (∃ image : TidyImage sha1, image.file = file) ∧
    match operation with
    | .patchStringById _ _ _ => True
    | .retargetString fromId toId => DecodesFaithfully file fromId toId
    | .addString _ isIdentifier _ => KindsCover file isIdentifier

section Steps

variable {sha1 : Sha1} {image : TidyImage sha1} {out : Bytes} {after : BytecodeFile}

/-- Kinds that stay keep the identifiers. -/
theorem flags_kept {hashes : List Nat} {expected strings : List StoredString} {size : Nat}
    {locs : List StrLoc} (current : currentStrings image.file = .ok strings)
    (length : expected.length = strings.length)
    (written : Rewritten image.file.stringKinds hashes expected size locs after) :
    identifierFlags after = identifierFlags image.file := by
  obtain ⟨_, _, view⟩ := image.exists_view
  obtain ⟨_, _, view'⟩ := written.view
  rw [flags_eq view', flags_eq view, written.kinds, ← view'.stored_length written.stored, length,
    view.stored_length current]

theorem lengths_of_current {strings : List StoredString}
    (current : currentStrings image.file = .ok strings) :
    strings.length = image.file.strings.length := by
  obtain ⟨_, _, view⟩ := image.exists_view
  rw [view.stored_length current, view.strings_length]

theorem patchStringById_tracks {id : Nat} {newValue : Text} {options : PatchOptions}
    (tracked : HashesTrack image.file)
    (ran : patchStringById sha1 id newValue options image.file = (.ok out, after)) :
    HashesTrack after := by
  obtain ⟨tables, locs, view⟩ := image.exists_view
  obtain ⟨strings, current, hashes, -⟩ := tracked
  obtain ⟨strings', entry, current', inside, -, paths⟩ := patchStringById_eq_ok view ran
  obtain rfl := Outcome.ok.inj (current.symm.trans current')
  have kept : hashesAfter image.file id newValue =
      hashesOf (strings.set id (StoredString.encode newValue)) (identifierFlags image.file) :=
    hashesAfter_eq hashes (lengths_of_current current) inside fun _ => by
      rw [storedUnits_encode, hermesIdentifierHash]
  have length : (strings.set id (StoredString.encode newValue)).length = strings.length :=
    length_set
  rcases paths with ⟨loc, -, written⟩ | ⟨-, layout, found, -, -, written⟩
  · refine tracks_of_rewritten written ?_
    rw [flags_kept current length written, kept]
  · refine tracks_of_rewritten written ?_
    rw [flags_kept current length written, kept]

theorem retargetString_tracks {fromId toId : Nat} (tracked : HashesTrack image.file)
    (faithful : DecodesFaithfully image.file fromId toId)
    (ran : retargetString sha1 fromId toId image.file = (.ok out, after)) : HashesTrack after := by
  obtain ⟨strings, current, hashes, -⟩ := tracked
  obtain ⟨strings', stored, source, target, locs, current', foundSource, foundStored, inside,
    foundTarget, written⟩ := retargetString_eq_ok ran
  obtain rfl := Outcome.ok.inj (current.symm.trans current')
  have length : (strings.set fromId stored).length = strings.length := length_set
  have flag : (identifierFlags image.file)[fromId]? = some source.isIdentifier := by
    rw [identifierFlags, List.getElem?_map, foundSource, Option.map_some]
  refine tracks_of_rewritten written ?_
  rw [flags_kept current length written, hashesRetargeted]
  cases isIdentifier : source.isIdentifier with
  | true =>
    rw [if_pos rfl]
    refine hashesAfter_eq hashes (lengths_of_current current) inside fun _ => ?_
    rw [hermesIdentifierHash, faithful source target strings stored foundSource isIdentifier
      (foundTarget isIdentifier) current foundStored]
  | false =>
    rw [if_neg Bool.false_ne_true]
    rw [isIdentifier] at flag
    rw [hashesOf_set_plain flag, hashes]

theorem addString_tracks {value : Text} {isIdentifier : Bool} {options : PatchOptions} {id : Nat}
    (tracked : HashesTrack image.file) (cover : KindsCover image.file isIdentifier)
    (ran : addString sha1 value isIdentifier options image.file = (.ok (out, id), after)) :
    HashesTrack after := by
  obtain ⟨tables, locs, view⟩ := image.exists_view
  obtain ⟨strings, current, hashes, -⟩ := tracked
  obtain ⟨strings', layout, found, current', -, -, -, written⟩ := addString_eq_ok view ran
  obtain rfl := Outcome.ok.inj (current.symm.trans current')
  obtain ⟨_, _, view'⟩ := written.view
  have count := view'.stored_length written.stored
  rw [length_append, length_singleton, view.stored_length current] at count
  have flags : identifierFlags after = identifierFlags image.file ++ [isIdentifier] := by
    rw [flags_eq view', flags_eq view, written.kinds, ← count, cover, map_append]
    cases isIdentifier <;> rfl
  have lengths : strings.length = (identifierFlags image.file).length := by
    rw [identifierFlags, length_map, lengths_of_current current]
  refine tracks_of_rewritten written ?_
  rw [flags, hashesOf_append isIdentifier lengths, ← hashes, storedUnits_encode, addHash]
  cases isIdentifier
  · rw [if_neg Bool.false_ne_true, if_neg Bool.false_ne_true, append_nil]
  · rw [if_pos rfl, if_pos rfl, hermesIdentifierHash]

end Steps

/-- In every run whose operations are all safe, the hashes of every file it reaches
are those of the identifiers as they are stored. -/
theorem runs_hashesTrack {sha1 : Sha1} {start finish : BytecodeFile} {operations : List StringOp}
    (tracked : HashesTrack start)
    (run : Action.Runs (StringOp.perform sha1) (HashSafe sha1) start operations finish) :
    HashesTrack finish := by
  refine run.keeps (fun start operation out between tracked safe ran => ?_) tracked
  obtain ⟨⟨image, rfl⟩, fits⟩ := safe
  cases operation with
  | patchStringById id newValue options => exact patchStringById_tracks tracked ran
  | retargetString fromId toId => exact retargetString_tracks tracked fits ran
  | addString value isIdentifier options =>
    simp only [StringOp.perform, Action.bind_eq_ok, Action.pure_apply, Prod.mk.injEq,
      Outcome.ok.injEq] at ran
    obtain ⟨⟨bytes, id⟩, _, added, rfl, rfl⟩ := ran
    exact addString_tracks tracked fits added

/-- An image with the identifier `a` and a plain string that is stored as one lone
surrogate. -/
def surrogateImage : Bytes :=
  [198, 31, 188, 3, 193, 3, 25, 31, 96, 0, 0, 0, 0, 0, 0, 0, 0, 0, 0, 0, 0, 0, 0, 0, 0, 0, 0, 0,
   0, 0, 0, 0, 192, 0, 0, 0, 0, 0, 0, 0, 1, 0, 0, 0, 2, 0, 0, 0, 1, 0, 0, 0, 2, 0, 0, 0, 0, 0, 0,
   0, 4, 0, 0, 0, 0, 0, 0, 0, 0, 0, 0, 0, 0, 0, 0, 0, 0, 0, 0, 0, 0, 0, 0, 0, 0, 0, 0, 0, 0, 0, 0,
   0, 0, 0, 0, 0, 0, 0, 0, 0, 0, 0, 0, 0, 0, 0, 0, 0, 0, 0, 0, 0, 0, 0, 0, 0, 0, 0, 0, 0, 0, 0, 0,
   0, 0, 0, 0, 0, 168, 0, 0, 2, 4, 0, 0, 0, 0, 0, 0, 0, 0, 0, 0, 0, 1, 0, 0, 128, 1, 0, 0, 0, 112,
   130, 1, 0, 0, 0, 0, 1, 5, 0, 0, 1, 97, 0, 0, 216, 140, 0, 92, 0, 121, 45, 24, 46, 77, 16, 48,
   30, 111, 7, 127, 15, 74, 25, 18, 181, 245, 25, 21, 111]

/-- Patching the identifier is a safe run. -/
theorem runs_hashesTrack_patched : ∃ start finish,
    parseAuto Sha1Hash.hash surrogateImage = .ok start ∧
    Action.Runs (StringOp.perform Sha1Hash.hash) (HashSafe Sha1Hash.hash) start
      [.patchStringById 0 ['b'] .default] finish ∧ HashesTrack finish := by
  have patched : ∃ start, parseAuto Sha1Hash.hash surrogateImage = .ok start ∧
      (Tidy surrogateImage start ∧ HashesTrack start ∧ ∃ out finish,
        (StringOp.patchStringById 0 ['b'] .default).perform Sha1Hash.hash start =
          (.ok out, finish) ∧ finish.strings.length = 2) := by
    decide +kernel
  obtain ⟨start, parsed, tidy, tracked, out, finish, ran, -⟩ := patched
  have run : Action.Runs (StringOp.perform Sha1Hash.hash) (HashSafe Sha1Hash.hash) start
      [.patchStringById 0 ['b'] .default] finish :=
    .cons ⟨⟨⟨surrogateImage, start, parsed, tidy⟩, rfl⟩, trivial⟩ ran (.nil finish)
  exact ⟨start, finish, parsed, run, runs_hashesTrack tracked run⟩

/-- Retargeting the identifier to the surrogate leaves the hash of the replacement
character. -/
theorem retargetString_surrogate : ∃ start, parseAuto Sha1Hash.hash surrogateImage = .ok start ∧
    (HashesTrack start ∧ ∃ out finish,
      (StringOp.retargetString 0 1).perform Sha1Hash.hash start = (.ok out, finish) ∧
        ¬ HashesTrack finish) := by
  decide +kernel

end HermesDecomp.Strings
