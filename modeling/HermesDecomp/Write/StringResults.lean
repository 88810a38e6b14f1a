import HermesDecomp.Write.Rebuild

/-!
# What a string operation leaves behind

For each operation that succeeds on a tidy image: which locations, kinds and
hashes the new image has.
-/

namespace HermesDecomp.Strings

open Bytes Outcome Serialize StringStorage HermesDecomp.Parser List

variable {sha1 : Sha1}

/-- A committed image is parsed from the finalized bytes with the declared header. -/
structure Committed (sha1 : Sha1) (file : BytecodeFile) (buf : Bytes) (edit : HeaderEdit)
    (expected : List StoredString) (out : Bytes) (after : BytecodeFile) : Prop where
  kept : Unchanged buf out (Sealed buf.length)
  parsed : parseAuto sha1 out = .ok after
  header : expectedHeader edit file.header out = after.header
  stored : currentStrings after = .ok expected

variable {edit : HeaderEdit} {expected : List StoredString}

theorem committed_of_ok {file after : BytecodeFile} {buf out : Bytes} {pinned : List Nat}
    (ran : commitImageChecked sha1 buf edit (validate expected pinned) file = (.ok out, after)) :
    Committed sha1 file buf edit expected out after := by
  obtain ⟨finalized, parsed, header, checked⟩ := commitImageChecked_eq_ok.mp ran
  exact ⟨finalize_unchanged finalized, parsed, header, validate_eq_ok checked⟩

/-- What a write leaves of the strings: the kind runs, the hashes, every string as it
is stored, and where the entries' ranges are. -/
structure Rewritten (kinds : List StringKindEntry) (hashes : List Nat)
    (expected : List StoredString) (size : Nat) (locs : List StrLoc) (after : BytecodeFile) :
    Prop where
  kinds : after.stringKinds = kinds
  hashes : after.identifierHashes = hashes
  stored : currentStrings after = .ok expected
  size : after.header.stringStorageSize = size
  view : ∃ out tables, View out after tables locs

variable {image : TidyImage sha1} {id : Nat} {newValue : Text}

/-- The bytes of an edit in place: storage changes, and a hash. -/
theorem inPlaceImage_eq_ok {loc : StrLoc} {raw : Bytes}
    (ran : inPlaceImage image.file id newValue (storageStart image.file.header) loc =
      .ok (raw, expected)) :
    ∃ strings edited, currentStrings image.file = .ok strings ∧ id < strings.length ∧
      expected = strings.set id (StoredString.encode newValue) ∧
      Unchanged image.bytes edited (fun index => storageStart image.file.header ≤ index) ∧
      updateIdentifierHash image.file edited id newValue = .ok raw := by
  simp only [inPlaceImage, withString, store, bind_eq_ok, pure_eq, ok.injEq, Prod.mk.injEq,
    image.rawOf_eq, checked_eq_ok] at ran
  obtain ⟨strings, current, _, ⟨inside, rfl⟩, _, rfl, edited, written, _, hashed, rfl, rfl⟩ := ran
  refine ⟨strings, edited, current, inside, rfl, ?_, hashed⟩
  exact (Buffer.write_unchanged written).mono fun index hit => by omega

variable {raw out : Bytes} {hashes : List Nat} {after : BytecodeFile}

/-- An edit past the kind runs that moves nothing keeps the kinds and has the hashes
that were written. -/
theorem default_rewritten
    (kept : Unchanged image.bytes raw fun index => hashesStart image.file.header ≤ index)
    (words : Words raw (hashesStart image.file.header) image.file.header.identifierCount hashes)
    (committed : Committed sha1 image.file raw .default expected out after) :
    ∃ tables locs, View out after tables locs ∧ Rewritten image.file.stringKinds hashes expected
      image.file.header.stringStorageSize locs after := by
  obtain ⟨old, _, view⟩ := image.exists_view
  have places := places_le image.file.header
  have sealedKept := committed.kept
  rw [kept.length] at sealedKept
  have low : storageStart after.header < 2 ^ 32 := by
    rw [← committed.header]
    exact image.storage_lt
  obtain ⟨tables, locs, view'⟩ := StringStorage.exists_view (parseAuto_region committed.parsed) low
  have found := view'.found
  rw [← committed.header] at found
  refine ⟨tables, locs, view', ?_, ?_, committed.stored, ?_, out, tables, view'⟩
  · obtain ⟨raws, wrote, decoded⟩ := view.found.kinds
    obtain ⟨raws', wrote', decoded'⟩ := found.kinds
    have before := keep_words kept (fun index _ high => Nat.not_le_of_lt high) wrote
    rw [view'.kinds, view.kinds, decoded, decoded',
      read_words sealedKept (fun index low high => image.unsealed low ?_) before wrote']
    exact lt_of_lt_of_le high (places.2.2.1.trans (by omega))
  · rw [view'.hashes]
    refine read_words sealedKept (fun index low high => image.unsealed (by omega) ?_) words
      found.hashes
    exact lt_of_lt_of_le high (places.2.2.2.1.trans (by omega))
  · rw [← committed.header]
    rfl

/-- Hashes that an edit of other bytes leaves are the ones the hash update starts
from. -/
theorem words_updated {edited raw : Bytes}
    (kept : Unchanged image.bytes edited fun index => smallStart image.file.header ≤ index)
    (hashed : updateIdentifierHash image.file edited id newValue = .ok raw) :
    Words raw (hashesStart image.file.header) image.file.header.identifierCount
      (hashesAfter image.file id newValue) := by
  obtain ⟨tables, _, view⟩ := image.exists_view
  have hashes := view.found.hashes
  rw [← view.hashes] at hashes
  exact updateIdentifierHash_words image
    (keep_words kept (fun index _ high => Nat.not_le_of_lt high) hashes) hashed

variable {tables : CommonTables} {locs : List StrLoc}

/-- An edit in place keeps the kinds and every entry's range. -/
theorem inPlace_rewritten {loc : StrLoc} (view : View image.bytes image.file tables locs)
    (ran : inPlaceImage image.file id newValue (storageStart image.file.header) loc =
      .ok (raw, expected)) (committed : Committed sha1 image.file raw .default expected out after) :
    Rewritten image.file.stringKinds (hashesAfter image.file id newValue) expected
      image.file.header.stringStorageSize locs after := by
  obtain ⟨strings, edited, -, -, -, storageEdited, hashed⟩ := inPlaceImage_eq_ok ran
  have places := places_le image.file.header
  have hashKept := image.updateIdentifierHash_unchanged hashed
  have fromHashes : Unchanged image.bytes raw fun index => hashesStart image.file.header ≤ index :=
    (storageEdited.mono fun index hit => by omega).trans (hashKept.mono fun index hit => hit.1)
  have words := words_updated (storageEdited.mono fun index hit => by omega) hashed
  obtain ⟨tables', locs', view', written⟩ := default_rewritten fromHashes words committed
  have sealedKept := committed.kept
  rw [fromHashes.length] at sealedKept
  have whole : Unchanged image.bytes out fun index => storageStart image.file.header ≤ index ∨
      index < smallStart image.file.header ∨ Sealed image.bytes.length index :=
    ((storageEdited.mono fun index hit => .inl hit).trans
      (hashKept.mono fun index hit => .inr (.inl hit.2))).trans
        (sealedKept.mono fun index hit => .inr (.inr hit))
  have free : ∀ index, smallStart image.file.header ≤ index →
      index < storageStart image.file.header → ¬ (storageStart image.file.header ≤ index ∨
        index < smallStart image.file.header ∨ Sealed image.bytes.length index) := by
    rintro index low high (past | before | hit)
    · omega
    · omega
    · exact image.unsealed (by omega) (by omega) hit
  have found := view'.found
  rw [← committed.header] at found
  have small : tables'.smallStringTable = tables.smallStringTable := by
    refine read_words whole (fun index low high => free index low ?_) view.found.small found.small
    exact lt_of_lt_of_le high places.2.2.2.2.1
  have overflow : tables'.overflowStringTable = tables.overflowStringTable :=
    read_pairs whole (fun index low high => free index (by omega) high) view.found.overflow
      found.overflow
  have resolves := view'.resolves
  rw [small, overflow] at resolves
  rwa [← resolves_unique view.resolves resolves]

/-- The rebuild of the small entries and what follows them. -/
def resizing (image : TidyImage sha1) (layout : StringLayout) : Rebuild image where
  start := smallStart image.file.header
  front := []
  layout := layout
  low := (places_le image.file.header).2.1.trans (places_le image.file.header).2.2.1
  high := by
    have places := places_le image.file.header
    omega

theorem writeStorageCounts_unchanged {buf after : Bytes} {layout : StringLayout}
    (ran : writeStorageCounts buf layout = .ok after) :
    Unchanged buf after fun index => index < headerSize := by
  obtain ⟨middle, first, second⟩ := bind_eq_ok.mp ran
  have header : headerSize = 128 := rfl
  exact ((Buffer.writeU32_unchanged first).mono fun index hit => by omega).trans
    ((Buffer.writeU32_unchanged second).mono fun index hit => by omega)

variable {packing : Packing}

/-- The bytes of a rebuild for one text. -/
theorem resizeImage_eq_ok {raw : Bytes}
    (ran : resizeImage image.file id newValue packing = .ok (raw, edit, expected)) :
    ∃ strings layout edited moved, currentStrings image.file = .ok strings ∧
      id < strings.length ∧ expected = strings.set id (StoredString.encode newValue) ∧
      layOut expected {id} packing = .ok layout ∧
      Unchanged (resizing image layout).spliced edited (fun index => index < headerSize) ∧
      Reloc.relocate image.file edited (resizing image layout).reloc = .ok moved ∧
      updateIdentifierHash image.file moved id newValue = .ok raw ∧
      edit = { HeaderEdit.shifted (resizing image layout).delta with
        stringStorage := some (storageCounts layout) } := by
  simp only [resizeImage, withString, store, bind_eq_ok, pure_eq, ok.injEq, Prod.mk.injEq,
    image.rawOf_eq, image.smallOf, image.storageOf, image.postStringSection_eq, checked_eq_ok] at ran
  obtain ⟨_, -, _, rfl, _, rfl, _, rfl, _, rfl, _, -, strings, current, _, ⟨inside, rfl⟩, layout,
    laid, _, spliced, edited, counted, moved, relocated, _, hashed, rfl, rfl, rfl⟩ := ran
  obtain rfl := Outcome.ok.inj ((resizing image layout).splice_eq.symm.trans spliced)
  exact ⟨strings, layout, edited, moved, current, inside, rfl, laid,
    writeStorageCounts_unchanged counted, relocated, hashed, rfl⟩

/-- A rebuild for one text keeps the kinds and places the entries as laid out. -/
theorem resize_rewritten (view : View image.bytes image.file tables locs)
    (ran : resizeImage image.file id newValue packing = .ok (raw, edit, expected))
    (committed : Committed sha1 image.file raw edit expected out after) :
    ∃ layout found, layOut expected {id} packing = .ok layout ∧
      (∀ other, found[other]? = locate layout.small layout.overflow other) ∧
      Rewritten image.file.stringKinds (hashesAfter image.file id newValue) expected
        layout.storage.length found after := by
  obtain ⟨strings, layout, edited, moved, current, inside, rfl, laid, counted, relocated, hashed,
    rfl⟩ := resizeImage_eq_ok ran
  have sized := layOut_wellSized laid
  have count : (strings.set id (StoredString.encode newValue)).length =
      image.file.header.stringCount := by
    rw [length_set, view.stored_length current]
  have places := places_le image.file.header
  have end_le := image.buffers_le
  have room := image.tidy.room
  have region := (resizing image layout).region_length
  have moved_kept := (resizing image layout).relocate_unchanged counted relocated
  have hashKept := image.updateIdentifierHash_unchanged hashed
  have length : raw.length = (resizing image layout).spliced.length :=
    hashKept.length.trans moved_kept.length
  have sealedKept := committed.kept
  rw [length] at sealedKept
  have final := sealedKept.mono fun index hit => (resizing image layout).sealed_outside hit
  have whole : Unchanged (resizing image layout).spliced out fun index =>
      (resizing image layout).Outside index ∨
        (hashesStart image.file.header ≤ index ∧ index < smallStart image.file.header) :=
    ((moved_kept.mono fun index hit => .inl hit).trans
      (hashKept.mono fun index hit => .inr hit)).trans (final.mono fun index hit => .inl hit)
  have few := sized.overflow
  have describes : (resizing image layout).Describes after.header := by
    rw [← committed.header]
    refine ⟨rfl, ?_, ?_, ?_⟩
    · exact count.symm.trans sized.small.symm
    · exact Nat.mod_eq_of_lt (by omega)
    · exact Nat.mod_eq_of_lt sized.storage
  have starts : kindsStart after.header = kindsStart image.file.header ∧
      hashesStart after.header = hashesStart image.file.header ∧
      after.header.stringKindCount = image.file.header.stringKindCount ∧
      after.header.identifierCount = image.file.header.identifierCount := by
    rw [← committed.header]
    exact ⟨rfl, rfl, rfl, rfl⟩
  have free : ∀ index, smallStart image.file.header ≤ index →
      index < (resizing image layout).landing →
      ¬ ((resizing image layout).Outside index ∨
        (hashesStart image.file.header ≤ index ∧ index < smallStart image.file.header)) := by
    rintro index low high ((before | past) | hash)
    · omega
    · omega
    · omega
  have kindsEnd : kindsStart image.file.header + image.file.header.stringKindCount * 4 =
    hashesStart image.file.header := rfl
  have hashesEnd : hashesStart image.file.header + image.file.header.identifierCount * 4 =
    smallStart image.file.header := rfl
  have lands : smallStart image.file.header ≤ (resizing image layout).landing :=
    Nat.le_add_right _ _
  have smallEnd : smallStart image.file.header + image.file.header.stringCount * 4 =
    overflowStart image.file.header := rfl
  have below : smallStart image.file.header + 0 + image.file.header.stringCount * 12 < 2 ^ 32 := by
    omega
  rw [← count] at below
  obtain ⟨tables', locs', view', located⟩ := Rebuild.exists_view sized whole free describes below
    committed.parsed
  refine ⟨layout, locs', laid, located, ?_, ?_, committed.stored, ?_, out, tables', view'⟩
  · obtain ⟨words, wrote, decoded⟩ := view.found.kinds
    obtain ⟨words', wrote', decoded'⟩ := view'.found.kinds
    rw [starts.1, starts.2.2.1] at wrote'
    have old := (resizing image layout).spliced_words places.2.2.1 wrote
    rw [view'.kinds, view.kinds, decoded, decoded',
      read_words whole (fun index low high => ?_) old wrote']
    rintro ((before | past) | hash)
    · omega
    · omega
    · omega
  · have old := (resizing image layout).spliced_words (le_refl _) view.found.hashes
    have inRegion : ∀ index, hashesStart image.file.header ≤ index →
        index < hashesStart image.file.header + image.file.header.identifierCount * 4 →
        ¬ (resizing image layout).Outside index := by
      rintro index low high (before | past)
      · omega
      · omega
    rw [← view.hashes] at old
    have wrote' := view'.found.hashes
    rw [starts.2.1, starts.2.2.2] at wrote'
    have edited := updateIdentifierHash_words image (keep_words moved_kept inRegion old) hashed
    rw [view'.hashes, read_words final inRegion edited wrote']
  · exact describes.storage

/-- The rebuild of the whole string region around new kind runs and hashes. -/
def adding (image : TidyImage sha1) (kinds hashes : List Nat) (layout : StringLayout) :
    Rebuild image where
  start := kindsStart image.file.header
  front := u32Bytes kinds ++ u32Bytes hashes
  layout := layout
  low := le_refl _
  high := by
    have places := places_le image.file.header
    omega

theorem writeStringCounts_unchanged {buf after : Bytes} {kinds hashes strings : Nat}
    (ran : writeStringCounts buf kinds hashes strings = .ok after) :
    Unchanged buf after fun index => index < headerSize := by
  simp only [writeStringCounts, bind_eq_ok] at ran
  obtain ⟨_, first, _, second, third⟩ := ran
  have header : headerSize = 128 := rfl
  exact (((Buffer.writeU32_unchanged first).mono fun index hit => by omega).trans
    ((Buffer.writeU32_unchanged second).mono fun index hit => by omega)).trans
    ((Buffer.writeU32_unchanged third).mono fun index hit => by omega)

/-- The kind runs as an addition writes them. -/
def kindsWith (file : BytecodeFile) (isIdentifier : Bool) : List Nat :=
  (addKind file.stringKinds (if isIdentifier then .identifier else .string)).map rawKind

variable {value : Text} {isIdentifier : Bool}

/-- The bytes of an addition. -/
theorem addImage_eq_ok {raw : Bytes}
    (ran : addImage image.file value isIdentifier packing = .ok (raw, edit, expected)) :
    ∃ strings layout edited, currentStrings image.file = .ok strings ∧
      expected = strings ++ [StoredString.encode value] ∧
      layOut expected {image.file.header.stringCount} packing = .ok layout ∧
      Unchanged (adding image (kindsWith image.file isIdentifier)
        (addHash image.file.identifierHashes value isIdentifier) layout).spliced edited
        (fun index => index < headerSize) ∧
      Reloc.relocate image.file edited (adding image (kindsWith image.file isIdentifier)
        (addHash image.file.identifierHashes value isIdentifier) layout).reloc = .ok raw ∧
      edit = { HeaderEdit.shifted (adding image (kindsWith image.file isIdentifier)
          (addHash image.file.identifierHashes value isIdentifier) layout).delta with
        stringCounts := some ((kindsWith image.file isIdentifier).length % 2 ^ 32,
          (addHash image.file.identifierHashes value isIdentifier).length % 2 ^ 32,
          image.file.header.stringCount + 1)
        stringStorage := some (storageCounts layout) } := by
  simp only [addImage, bind_eq_ok, pure_eq, ok.injEq, Prod.mk.injEq, image.rawOf_eq, image.smallOf,
    image.hashesOf, image.kindsOf, image.postStringSection_eq] at ran
  obtain ⟨_, rfl, _, rfl, _, -, _, -, _, rfl, _, -, strings, current, layout, laid, _, spliced,
    counted, wroteCounts, stored, wroteStorage, _, relocated, rfl, rfl, rfl⟩ := ran
  obtain rfl := Outcome.ok.inj ((adding image (kindsWith image.file isIdentifier)
    (addHash image.file.identifierHashes value isIdentifier) layout).splice_eq.symm.trans spliced)
  refine ⟨strings, layout, stored, current, rfl, laid, ?_, relocated, ?_⟩
  · exact (writeStringCounts_unchanged wroteCounts).trans (writeStorageCounts_unchanged wroteStorage)
  · rw [kindsWith, length_map]
    rfl

/-- A header field read from a kind run has 31 bits for its count. -/
theorem kindOfRaw_count (word : Nat) : (kindOfRaw word).count < 2 ^ 31 :=
  lt_of_le_of_lt Nat.and_le_right (by decide)

theorem rawKind_lt {entry : StringKindEntry} (small : entry.count ≤ 2 ^ 31) :
    rawKind entry < 2 ^ 32 := by
  unfold rawKind
  split
  · omega
  · exact Nat.or_lt_two_pow (by omega) (by decide)

theorem addKind_count {kinds : List StringKindEntry} {kind : StringKindType}
    (small : ∀ entry ∈ kinds, entry.count < 2 ^ 31) :
    ∀ entry ∈ addKind kinds kind, entry.count ≤ 2 ^ 31 := by
  unfold addKind
  split
  next last found =>
    have inside := small last (mem_of_getLast? found)
    split
    · intro entry member
      rcases mem_append.mp member with old | new
      · exact le_of_lt (small entry (mem_of_mem_dropLast old))
      · obtain rfl := mem_singleton.mp new
        exact inside
    · intro entry member
      rcases mem_append.mp member with old | new
      · exact le_of_lt (small entry old)
      · obtain rfl := mem_singleton.mp new
        exact Nat.one_le_two_pow
  · intro entry member
    obtain rfl := mem_singleton.mp member
    exact Nat.one_le_two_pow

theorem addKind_length (kinds : List StringKindEntry) (kind : StringKindType) :
    (addKind kinds kind).length ≤ kinds.length + 1 := by
  unfold addKind
  split
  · split
    · rw [length_append, length_dropLast, length_singleton]
      omega
    · rw [length_append, length_singleton]
  · exact Nat.le_add_left _ _

theorem addHash_length (hashes : List Nat) (value : Text) (isIdentifier : Bool) :
    (addHash hashes value isIdentifier).length ≤ hashes.length + 1 := by
  unfold addHash
  split
  · rw [length_append, length_singleton]
  · exact Nat.le_succ _

theorem addHash_lt (small : ∀ hash ∈ hashes, hash < 2 ^ 32) :
    ∀ hash ∈ addHash hashes value isIdentifier, hash < 2 ^ 32 := by
  unfold addHash
  split
  · exact forall_mem_append.mpr ⟨small, forall_mem_singleton.mpr (hermesIdentifierHash_lt value)⟩
  · exact small

/-- Numbers that bytes hold have 32 bits. -/
theorem words_lt {bytes : Bytes} {start count : Nat} {values : List Nat}
    (words : Words bytes start count values) : ∀ value ∈ values, value < 2 ^ 32 := by
  intro value inside
  obtain ⟨index, found⟩ := mem_iff_getElem?.mp inside
  exact u32At_lt (words.2 index value found)

theorem adding_kinds (image : TidyImage sha1) {kinds : List Nat} (hashes : List Nat)
    (layout : StringLayout) (fit : ∀ word ∈ kinds, word < 2 ^ 32) :
    Words (adding image kinds hashes layout).spliced (kindsStart image.file.header) kinds.length
      kinds := by
  obtain ⟨rest, spliced⟩ := (adding image kinds hashes layout).spliced_front
  have wrote := words_written (image.bytes.take (kindsStart image.file.header))
    (u32Bytes hashes ++ rest) fit
  have before : (image.bytes.take (kindsStart image.file.header)).length =
    kindsStart image.file.header := (adding image kinds hashes layout).kept_length
  rw [before] at wrote
  rw [spliced, adding, ← append_assoc, append_assoc _ _ rest]
  exact wrote

theorem adding_hashes (image : TidyImage sha1) (kinds : List Nat) (layout : StringLayout)
    (fit : ∀ word ∈ hashes, word < 2 ^ 32) :
    Words (adding image kinds hashes layout).spliced
      (kindsStart image.file.header + kinds.length * 4) hashes.length hashes := by
  obtain ⟨rest, spliced⟩ := (adding image kinds hashes layout).spliced_front
  have wrote := words_written (image.bytes.take (kindsStart image.file.header) ++ u32Bytes kinds)
    rest fit
  have before : (image.bytes.take (kindsStart image.file.header)).length =
    kindsStart image.file.header := (adding image kinds hashes layout).kept_length
  rw [length_append, before, u32Bytes_length] at wrote
  rw [spliced, adding, ← append_assoc]
  exact wrote

/-- An addition counts one more string of its kind, appends the hash of an
identifier and places the entries as laid out. -/
theorem add_rewritten (view : View image.bytes image.file tables locs)
    (ran : addImage image.file value isIdentifier packing = .ok (raw, edit, expected))
    (committed : Committed sha1 image.file raw edit expected out after) :
    ∃ layout found, layOut expected {image.file.header.stringCount} packing = .ok layout ∧
      (∀ other, found[other]? = locate layout.small layout.overflow other) ∧
      Rewritten ((kindsWith image.file isIdentifier).map kindOfRaw)
        (addHash image.file.identifierHashes value isIdentifier) expected
        layout.storage.length found after := by
  obtain ⟨strings, layout, edited, current, rfl, laid, counted, relocated, rfl⟩ :=
    addImage_eq_ok ran
  have kindWords : ∀ word ∈ kindsWith image.file isIdentifier, word < 2 ^ 32 := by
    intro word inside
    obtain ⟨entry, member, rfl⟩ := mem_map.mp inside
    refine rawKind_lt (addKind_count (fun old present => ?_) entry member)
    obtain ⟨raws, -, decoded⟩ := view.found.kinds
    rw [view.kinds, decoded] at present
    obtain ⟨raw, -, rfl⟩ := mem_map.mp present
    exact kindOfRaw_count raw
  have hashWords : ∀ word ∈ addHash image.file.identifierHashes value isIdentifier,
      word < 2 ^ 32 := by
    refine addHash_lt ?_
    rw [view.hashes]
    exact words_lt view.found.hashes
  have kindCount : (kindsWith image.file isIdentifier).length ≤
      image.file.header.stringKindCount + 1 := by
    obtain ⟨raws, wrote, decoded⟩ := view.found.kinds
    have size := addKind_length image.file.stringKinds (if isIdentifier then .identifier else .string)
    rwa [view.kinds, decoded, length_map, wrote.1, ← decoded, ← view.kinds,
      ← length_map (f := rawKind)] at size
  have hashCount : (addHash image.file.identifierHashes value isIdentifier).length ≤
      image.file.header.identifierCount + 1 := by
    rw [← view.found.hashes.1, ← view.hashes]
    exact addHash_length ..
  generalize kindsWith image.file isIdentifier = kinds at *
  generalize addHash image.file.identifierHashes value isIdentifier = hashes at *
  have sized := layOut_wellSized laid
  have count : (strings ++ [StoredString.encode value]).length =
      image.file.header.stringCount + 1 := by
    rw [length_append, view.stored_length current, length_singleton]
  have places := places_le image.file.header
  have end_le := image.buffers_le
  have room := image.tidy.room
  have few := sized.overflow
  have kindsEnd : kindsStart image.file.header + image.file.header.stringKindCount * 4 =
    hashesStart image.file.header := rfl
  have hashesEnd : hashesStart image.file.header + image.file.header.identifierCount * 4 =
    smallStart image.file.header := rfl
  have smallEnd : smallStart image.file.header + image.file.header.stringCount * 4 =
    overflowStart image.file.header := rfl
  have kept := (adding image kinds hashes layout).relocate_unchanged counted relocated
  have sealedKept := committed.kept
  rw [kept.length] at sealedKept
  have whole := kept.trans
    (sealedKept.mono fun index hit => (adding image kinds hashes layout).sealed_outside hit)
  have front : (adding image kinds hashes layout).front.length =
      kinds.length * 4 + hashes.length * 4 := by
    rw [adding, length_append, u32Bytes_length, u32Bytes_length]
  have free : ∀ index, kindsStart image.file.header ≤ index →
      index < (adding image kinds hashes layout).landing →
      ¬ (adding image kinds hashes layout).Outside index := by
    rintro index low high (before | past)
    · omega
    · omega
  have kindsFit : kinds.length % 2 ^ 32 = kinds.length := Nat.mod_eq_of_lt (by omega)
  have hashesFit : hashes.length % 2 ^ 32 = hashes.length := Nat.mod_eq_of_lt (by omega)
  have starts : kindsStart after.header = kindsStart image.file.header ∧
      after.header.stringKindCount = kinds.length ∧
      after.header.identifierCount = hashes.length := by
    rw [← committed.header]
    exact ⟨rfl, kindsFit, hashesFit⟩
  have hashesAt : hashesStart after.header = kindsStart image.file.header + kinds.length * 4 := by
    rw [hashesStart, starts.1, starts.2.1]
  have describes : (adding image kinds hashes layout).Describes after.header := by
    refine ⟨?_, ?_, ?_, ?_⟩
    · rw [smallStart, hashesAt, starts.2.2, front, ← add_assoc]
      rfl
    · rw [← committed.header]
      exact count.symm.trans sized.small.symm
    · rw [← committed.header]
      exact Nat.mod_eq_of_lt (by omega)
    · rw [← committed.header]
      exact Nat.mod_eq_of_lt sized.storage
  have below : kindsStart image.file.header + (kinds.length * 4 + hashes.length * 4) +
      (image.file.header.stringCount + 1) * 12 < 2 ^ 32 := by
    omega
  rw [← count, ← front] at below
  have region := (adding image kinds hashes layout).region_length
  have lands : kindsStart image.file.header + (kinds.length * 4 + hashes.length * 4) ≤
      (adding image kinds hashes layout).landing := by
    rw [← front]
    exact Nat.add_le_add_left (by omega) _
  obtain ⟨tables', locs', view', located⟩ := Rebuild.exists_view sized whole
    (fun index low high => free index ((Nat.le_add_right _ _).trans low) high) describes below
    committed.parsed
  refine ⟨layout, locs', laid, located, ?_, ?_, committed.stored, describes.storage, out, tables',
    view'⟩
  · obtain ⟨words, wrote, decoded⟩ := view'.found.kinds
    rw [starts.1, starts.2.1] at wrote
    rw [view'.kinds, decoded, read_words whole (fun index low high => free index low (by omega))
      (adding_kinds image hashes layout kindWords) wrote]
  · have wrote := view'.found.hashes
    rw [hashesAt, starts.2.2] at wrote
    rw [view'.hashes, read_words whole (fun index low high => free index (by omega) (by omega))
      (adding_hashes image kinds layout hashWords) wrote]

/-- The hashes after one entry is made to read as another. -/
def hashesRetargeted (file : BytecodeFile) (fromId : Nat) (source target : StringTableEntry) :
    List Nat :=
  if source.isIdentifier then hashesAfter file fromId target.value else file.identifierHashes

/-- The bytes of a retarget. -/
theorem retargetImage_eq_ok {fromId toId : Nat} {raw : Bytes}
    (ran : retargetImage image.file fromId toId = .ok (raw, expected)) :
    ∃ strings stored source target edited, currentStrings image.file = .ok strings ∧
      fromId ≠ toId ∧ image.file.strings[fromId]? = some source ∧
      strings[toId]? = some stored ∧ fromId < strings.length ∧
      expected = strings.set fromId stored ∧
      Unchanged image.bytes edited (fun index => smallStart image.file.header ≤ index ∧
        index < overflowStart image.file.header) ∧
      (if source.isIdentifier then image.file.strings[toId]? = some target ∧
        updateIdentifierHash image.file edited fromId target.value = .ok raw else raw = edited) := by
  simp only [retargetImage, withString, store, bind_eq_ok, pure_eq, ok.injEq, Prod.mk.injEq,
    image.rawOf_eq, image.smallOf, checked_eq_ok, ensure_eq_ok, index_eq_ok] at ran
  obtain ⟨_, fromInside, _, toInside, _, different, _, rfl, _, rfl, _, -, source, foundSource,
    strings, current, stored, foundStored, _, ⟨inside, rfl⟩, entry, taken, edited, written, _,
    hashed, rfl, rfl⟩ := ran
  have length := Bytes.slice_length (unwrap_eq_ok.mp taken)
  have kept : Unchanged image.bytes edited (fun index => smallStart image.file.header ≤ index ∧
      index < overflowStart image.file.header) := by
    refine (Buffer.write_unchanged written).mono fun index hit => ?_
    unfold overflowStart
    omega
  unfold retargetHash at hashed
  by_cases isIdentifier : source.isIdentifier = true
  · rw [if_pos isIdentifier] at hashed
    obtain ⟨target, foundTarget, hashed⟩ := bind_eq_ok.mp hashed
    refine ⟨strings, stored, source, target, edited, current, different, foundSource, foundStored,
      inside, rfl, kept, ?_⟩
    rw [if_pos isIdentifier]
    exact ⟨index_eq_ok.mp foundTarget, hashed⟩
  · rw [if_neg isIdentifier] at hashed
    refine ⟨strings, stored, source, source, edited, current, different, foundSource, foundStored,
      inside, rfl, kept, ?_⟩
    rw [if_neg isIdentifier]
    exact (Outcome.ok.inj hashed).symm

/-- A retarget keeps the kinds and rewrites the hash of an identifier. -/
theorem retarget_rewritten {fromId toId : Nat}
    (ran : retargetImage image.file fromId toId = .ok (raw, expected))
    (committed : Committed sha1 image.file raw .default expected out after) :
    ∃ strings stored source target locs, currentStrings image.file = .ok strings ∧
      image.file.strings[fromId]? = some source ∧ strings[toId]? = some stored ∧
      fromId < strings.length ∧ expected = strings.set fromId stored ∧
      (source.isIdentifier = true → image.file.strings[toId]? = some target) ∧
      Rewritten image.file.stringKinds (hashesRetargeted image.file fromId source target) expected
        image.file.header.stringStorageSize locs after := by
  obtain ⟨strings, stored, source, target, edited, current, -, foundSource, foundStored, inside,
    rfl, slotEdited, rest⟩ := retargetImage_eq_ok ran
  have places := places_le image.file.header
  unfold hashesRetargeted
  by_cases isIdentifier : source.isIdentifier = true
  · rw [if_pos isIdentifier] at rest
    obtain ⟨foundTarget, hashed⟩ := rest
    have hashKept := image.updateIdentifierHash_unchanged hashed
    obtain ⟨tables, locs, -, written⟩ := default_rewritten
      ((slotEdited.mono fun index hit => by omega).trans (hashKept.mono fun index hit => hit.1))
      (words_updated (slotEdited.mono fun index hit => hit.1) hashed) committed
    refine ⟨strings, stored, source, target, locs, current, foundSource, foundStored, inside, rfl,
      fun _ => foundTarget, ?_⟩
    rwa [if_pos isIdentifier]
  · rw [if_neg isIdentifier] at rest
    subst rest
    obtain ⟨tables, _, view⟩ := image.exists_view
    have hashes := view.found.hashes
    rw [← view.hashes] at hashes
    obtain ⟨tables, locs, -, written⟩ := default_rewritten
      (slotEdited.mono fun index hit => by omega)
      (keep_words slotEdited (fun index _ high hit => Nat.not_le_of_lt high hit.1) hashes) committed
    refine ⟨strings, stored, source, target, locs, current, foundSource, foundStored, inside, rfl,
      fun absurd => (isIdentifier absurd).elim, ?_⟩
    rwa [if_neg isIdentifier]

end HermesDecomp.Strings

namespace HermesDecomp.Strings

open Bytes Outcome Serialize StringStorage HermesDecomp.Parser List

variable {sha1 : Sha1}

/-- A new text takes the place of the old one: both are ASCII and of one length, and no
other entry reads the bytes. -/
def FitsInPlace (locs : List StrLoc) (entry : StringTableEntry) (id : Nat) (newValue : Text)
    (loc : StrLoc) : Prop :=
  entry.isUtf16 = false ∧ needsUtf16 newValue = false ∧ locs[id]? = some loc ∧
    newValue.length = loc.lenField ∧ sharesBytes locs id loc = false

variable {image : TidyImage sha1} {out : Bytes} {after : BytecodeFile}

section

variable {tables : CommonTables} {locs : List StrLoc} {id : Nat} {options : PatchOptions}
  (view : View image.bytes image.file tables locs)

include view

/-- What the write of one text leaves, on either path. -/
theorem patchStringById_eq_ok {newValue : Text}
    (ran : patchStringById sha1 id newValue options image.file = (.ok out, after)) :
    ∃ strings entry, currentStrings image.file = .ok strings ∧ id < strings.length ∧
      image.file.strings[id]? = some entry ∧
      ((∃ loc, FitsInPlace locs entry id newValue loc ∧
          Rewritten image.file.stringKinds (hashesAfter image.file id newValue)
            (strings.set id (StoredString.encode newValue)) image.file.header.stringStorageSize
            locs after) ∨
        ((∀ loc, ¬ FitsInPlace locs entry id newValue loc) ∧ ∃ layout found,
          layOut (strings.set id (StoredString.encode newValue)) {id} options.stringPacking =
            .ok layout ∧
          (∀ other, found[other]? = locate layout.small layout.overflow other) ∧
          Rewritten image.file.stringKinds (hashesAfter image.file id newValue)
            (strings.set id (StoredString.encode newValue)) layout.storage.length found after)) := by
  have resized : ∀ {packing : Packing},
      patchStringResize sha1 id newValue packing image.file = (.ok out, after) →
      ∃ strings layout found, currentStrings image.file = .ok strings ∧ id < strings.length ∧
        layOut (strings.set id (StoredString.encode newValue)) {id} packing = .ok layout ∧
        (∀ other, found[other]? = locate layout.small layout.overflow other) ∧
        Rewritten image.file.stringKinds (hashesAfter image.file id newValue)
          (strings.set id (StoredString.encode newValue)) layout.storage.length found after := by
    intro packing ran
    simp only [patchStringResize, Action.bind_eq_ok, Action.get_apply, Action.lift_apply,
      Prod.mk.injEq, Outcome.ok.injEq] at ran
    obtain ⟨_, _, ⟨rfl, rfl⟩, ⟨rebuilt, edit, expected⟩, _, ⟨built, rfl⟩, commit⟩ := ran
    obtain ⟨strings, _, _, _, current, inside, rfl, -⟩ := resizeImage_eq_ok built
    obtain ⟨layout, found, laid, located, written⟩ :=
      resize_rewritten view built (committed_of_ok commit)
    exact ⟨strings, layout, found, current, inside, laid, located, written⟩
  simp only [patchStringById, Action.bind_eq_ok, Action.get_apply, Action.lift_apply,
    Prod.mk.injEq, Outcome.ok.injEq, ofOption_eq_ok] at ran
  obtain ⟨_, _, ⟨rfl, rfl⟩, entry, _, ⟨foundEntry, rfl⟩, rest⟩ := ran
  split at rest
  next wide =>
    obtain ⟨strings, layout, found, current, inside, laid, located, written⟩ := resized rest
    refine ⟨strings, entry, current, inside, foundEntry, .inr ⟨fun loc fits => ?_, layout, found,
      laid, located, written⟩⟩
    obtain ⟨ascii, narrow, -⟩ := fits
    rcases wide with wide | wide
    · simp [ascii] at wide
    · simp [narrow] at wide
  next narrow =>
    simp only [patchAscii, readPlace, Action.bind_eq_ok, Action.get_apply, Action.lift_apply,
      Prod.mk.injEq, Outcome.ok.injEq, bind_eq_ok, pure_eq, index_eq_ok] at rest
    obtain ⟨_, _, ⟨rfl, rfl⟩, ⟨storageOff, locs', loc⟩, _, ⟨⟨_, storage, _, read, _, foundLoc,
      rfl, rfl, rfl⟩, rfl⟩, rest⟩ := rest
    obtain rfl := Outcome.ok.inj (image.storageOf.symm.trans storage)
    obtain rfl := Outcome.ok.inj (view.read.symm.trans read)
    split at rest
    next other =>
      obtain ⟨strings, layout, found, current, inside, laid, located, written⟩ := resized rest
      refine ⟨strings, entry, current, inside, foundEntry, .inr ⟨fun loc' fits => ?_, layout, found,
        laid, located, written⟩⟩
      obtain ⟨-, -, foundLoc', length, alone⟩ := fits
      obtain rfl := Option.some.inj (foundLoc.symm.trans foundLoc')
      rcases other with other | other
      · exact other length
      · simp [alone] at other
    next fits =>
      simp only [Action.bind_eq_ok, Action.lift_apply, Prod.mk.injEq] at rest
      obtain ⟨⟨raw, expected⟩, _, ⟨built, rfl⟩, commit⟩ := rest
      obtain ⟨strings, _, current, inside, rfl, -⟩ := inPlaceImage_eq_ok built
      refine ⟨strings, entry, current, inside, foundEntry, .inl ⟨loc, ?_, ?_⟩⟩
      · rw [not_or] at narrow fits
        exact ⟨by simpa using narrow.1, by simpa using narrow.2, foundLoc,
          by simpa using fits.1, by simpa using fits.2⟩
      · exact inPlace_rewritten view built (committed_of_ok commit)

/-- What an addition leaves. -/
theorem addString_eq_ok {value : Text} {isIdentifier : Bool}
    (ran : addString sha1 value isIdentifier options image.file = (.ok (out, id), after)) :
    ∃ strings layout found, currentStrings image.file = .ok strings ∧
      id = image.file.header.stringCount ∧
      layOut (strings ++ [StoredString.encode value]) {id} options.stringPacking = .ok layout ∧
      (∀ other, found[other]? = locate layout.small layout.overflow other) ∧
      Rewritten ((kindsWith image.file isIdentifier).map kindOfRaw)
        (addHash image.file.identifierHashes value isIdentifier)
        (strings ++ [StoredString.encode value]) layout.storage.length found after := by
  simp only [addString, Action.bind_eq_ok, Action.get_apply, Action.lift_apply, Action.pure_apply,
    Prod.mk.injEq, Outcome.ok.injEq] at ran
  obtain ⟨_, _, ⟨rfl, rfl⟩, ⟨rebuilt, edit, expected⟩, _, ⟨built, rfl⟩, _, _, commit, ⟨rfl, rfl⟩,
    rfl⟩ := ran
  obtain ⟨strings, _, _, current, rfl, -⟩ := addImage_eq_ok built
  obtain ⟨layout, found, laid, located, written⟩ :=
    add_rewritten view built (committed_of_ok commit)
  exact ⟨strings, layout, found, current, rfl, laid, located, written⟩

end

/-- What a retarget leaves. -/
theorem retargetString_eq_ok {fromId toId : Nat}
    (ran : retargetString sha1 fromId toId image.file = (.ok out, after)) :
    ∃ strings stored source target locs, currentStrings image.file = .ok strings ∧
      image.file.strings[fromId]? = some source ∧ strings[toId]? = some stored ∧
      fromId < strings.length ∧
      (source.isIdentifier = true → image.file.strings[toId]? = some target) ∧
      Rewritten image.file.stringKinds (hashesRetargeted image.file fromId source target)
        (strings.set fromId stored) image.file.header.stringStorageSize locs after := by
  simp only [retargetString, Action.bind_eq_ok, Action.get_apply, Action.lift_apply,
    Prod.mk.injEq, Outcome.ok.injEq] at ran
  obtain ⟨_, _, ⟨rfl, rfl⟩, ⟨raw, expected⟩, _, ⟨built, rfl⟩, commit⟩ := ran
  obtain ⟨strings, stored, source, target, locs, current, foundSource, foundStored, inside, rfl,
    foundTarget, written⟩ := retarget_rewritten built (committed_of_ok commit)
  exact ⟨strings, stored, source, target, locs, current, foundSource, foundStored, inside,
    foundTarget, written⟩

end HermesDecomp.Strings
