import HermesDecomp.Write.Reloc
import HermesDecomp.Write.StringView

/-!
# Editing the string table

A same-length ASCII edit of bytes that no other entry reads is made in place.
Every other edit rebuilds the tables and the storage and relocates what follows.
A retarget copies one small entry over another. An identifier's hash follows its
text, and every result is read back before it is adopted.
-/

namespace HermesDecomp.Strings

open Outcome Serialize StringStorage

/-- One step of the identifier hash, in 32 bits. -/
def jenkinsStep (hash : UInt32) (unit : Nat) : UInt32 :=
  let hash := hash + UInt32.ofNat unit
  let hash := hash + (hash <<< 10)
  hash ^^^ (hash >>> 6)

/-- The identifier hash of UTF-16 code units: Jenkins one at a time from zero. -/
def jenkinsHash (units : List Nat) : Nat := (units.foldl jenkinsStep 0).toNat

/-- The identifier hash of a text. -/
def hermesIdentifierHash (text : Text) : Nat := jenkinsHash (Utf.encodeUtf16 text)

/-- How many of the strings are identifiers. -/
def identifiersIn (strings : List StringTableEntry) : Nat := strings.countP (·.isIdentifier)

/-- The index of a string among the identifiers, which keep the order of their
ids; nothing for a plain string. -/
def identifierIndex (file : BytecodeFile) (id : Nat) : Option Nat :=
  match file.strings[id]? with
  | some entry => if entry.isIdentifier then some (identifiersIn (file.strings.take id)) else none
  | none => none

/-- Rewrite the hash of an identifier for a new text. -/
def updateIdentifierHash (file : BytecodeFile) (buf : Bytes) (id : Nat) (newValue : Text) :
    Result Bytes :=
  match identifierIndex file id with
  | none => pure buf
  | some index => do
      let base ← sectionOf file .identifierHashes "identifier_hashes"
      let pos := base + index * 4
      .ensure (pos + 4 ≤ buf.length) (.write "identifier hash slot out of range")
      Buffer.writeU32 buf pos (hermesIdentifierHash newValue)

/-- Options of a patch. -/
structure PatchOptions where
  allowStaleDebugInfo : Bool
  unpackedStrings : Bool
deriving DecidableEq, Repr

namespace PatchOptions

/-- Nothing permitted, strings packed. -/
def default : PatchOptions where
  allowStaleDebugInfo := false
  unpackedStrings := false

/-- How a rebuild lays out strings. -/
def stringPacking (options : PatchOptions) : Packing :=
  if options.unpackedStrings then .unpacked else .packed

end PatchOptions

/-- Replace one string of a list. -/
def withString (strings : List StoredString) (id : Nat) (string : StoredString) :
    Result (List StoredString) := store strings id string

/-- Rewrite the hash of an identifier that now reads as another string. -/
def retargetHash (file : BytecodeFile) (raw : Bytes) (fromIsId : Bool) (fromId toId : Nat) :
    Result Bytes :=
  if fromIsId then do
    let target ← index file.strings toId
    updateIdentifierHash file raw fromId target.value
  else pure raw

/-- The bytes of a retarget, and what every entry must read back as. -/
def retargetImage (file : BytecodeFile) (fromId toId : Nat) :
    Result (Bytes × List StoredString) := do
  let count := file.header.stringCount
  .ensure (fromId < count)
    (.write s!"retarget: from_id {fromId} out of range (string_count={count})")
  .ensure (toId < count) (.write s!"retarget: to_id {toId} out of range (string_count={count})")
  .ensure (fromId ≠ toId) (.write "retarget: from_id == to_id")
  let raw ← rawOf file
  let smallOff ← sectionOf file .smallStringTable "small_string_table"
  let fromSlot := smallOff + fromId * 4
  let toSlot := smallOff + toId * 4
  .ensure (fromSlot + 4 ≤ raw.length ∧ toSlot + 4 ≤ raw.length)
    (.write "string table slot out of range")
  let source ← index file.strings fromId
  let strings ← currentStrings file
  let target ← index strings toId
  let expected ← withString strings fromId target
  let entry ← Buffer.range raw toSlot 4
  let raw ← Buffer.write raw fromSlot entry
  let raw ← retargetHash file raw source.isIdentifier fromId toId
  pure (raw, expected)

/-- Make one string read as another by copying its small table entry. -/
def retargetString (sha1 : Sha1) (fromId toId : Nat) : Edit Bytes := do
  let file ← Action.get
  let (raw, expected) ← Action.lift (retargetImage file fromId toId)
  commitImageChecked sha1 raw .default (validate expected [])

/-- A table of numbers as it is written. -/
def u32Bytes (values : List Nat) : Bytes := values.flatMap (Bytes.leBytes 4)

/-- Overflow records as they are written. -/
def recordBytes (records : List (Nat × Nat)) : Bytes :=
  records.flatMap fun (offset, length) => Bytes.leBytes 4 offset ++ Bytes.leBytes 4 length

/-- Bytes padded to a multiple of four. -/
def padTo4 (bytes : Bytes) : Bytes :=
  bytes ++ List.replicate (Bytes.align4 bytes.length - bytes.length) 0

/-- Tables and storage in file order after what comes before them, padded to four. -/
def pushTablesAndStorage (region : Bytes) (layout : StringLayout) : Bytes :=
  padTo4 (region ++ u32Bytes layout.small ++ recordBytes layout.overflow ++ layout.storage)

/-- The section right after the string region. -/
def postStringSection (file : BytecodeFile) : Result Nat :=
  .ofOption (.write "post-string section missing")
    ((file.sectionOffset .arrayBuffer).or (file.sectionOffset .literalValueBuffer))

/-- Replace the range of an image between two positions. -/
def splice (raw : Bytes) (start finish : Nat) (region : Bytes) : Result Bytes := do
  let before ← .checked (start ≤ raw.length) (raw.take start)
  let after ← .checked (finish ≤ raw.length) (raw.drop finish)
  pure (before ++ region ++ after)

/-- Write the overflow record count and the storage size into a file header. -/
def writeStorageCounts (buf : Bytes) (layout : StringLayout) : Result Bytes := do
  let buf ← Buffer.writeU32 buf 56 layout.overflow.length
  Buffer.writeU32 buf 60 layout.storage.length

/-- The counts that a rebuilt layout declares. -/
def storageCounts (layout : StringLayout) : Nat × Nat :=
  (layout.overflow.length % 2 ^ 32, layout.storage.length % 2 ^ 32)

/-- The bytes of a rebuild for one new text: the image, how the header changes and
what every entry must read back as. -/
def resizeImage (file : BytecodeFile) (id : Nat) (newValue : Text) (packing : Packing) :
    Result (Bytes × HeaderEdit × List StoredString) := do
  .ensure (id < file.strings.length) (.write s!"string id {id} out of range")
  let raw ← rawOf file
  let smallOff ← sectionOf file .smallStringTable "small_string_table"
  let storageOff ← sectionOf file .stringStorage "string_storage"
  let arrayOff ← postStringSection file
  .ensure (smallOff ≤ arrayOff ∧ smallOff ≤ storageOff) (.write "unexpected string section order")
  let strings ← currentStrings file
  let strings ← withString strings id (StoredString.encode newValue)
  let layout ← layOut strings {id} packing
  let region := pushTablesAndStorage [] layout
  let delta : Int := region.length - (arrayOff - smallOff)
  let rebuilt ← splice raw smallOff arrayOff region
  let rebuilt ← writeStorageCounts rebuilt layout
  let rebuilt ← Reloc.relocate file rebuilt { movedFrom := arrayOff, delta, resized := none }
  let rebuilt ← updateIdentifierHash file rebuilt id newValue
  pure (rebuilt, { HeaderEdit.shifted delta with stringStorage := some (storageCounts layout) },
    strings)

/-- Grow, shrink or re-encode one string by rebuilding the string region. -/
def patchStringResize (sha1 : Sha1) (id : Nat) (newValue : Text) (packing : Packing) :
    Edit Bytes := do
  let file ← Action.get
  let (rebuilt, edit, strings) ← Action.lift (resizeImage file id newValue packing)
  commitImageChecked sha1 rebuilt edit (validate strings [id])

/-- Count one more string of a kind. -/
def addKind (kinds : List StringKindEntry) (kind : StringKindType) : List StringKindEntry :=
  match kinds.getLast? with
  | some last =>
      if last.kind = kind then kinds.dropLast ++ [{ last with count := last.count + 1 }]
      else kinds ++ [{ kind, count := 1 }]
  | none => [{ kind, count := 1 }]

/-- A kind run as it is written. -/
def rawKind (entry : StringKindEntry) : Nat :=
  match entry.kind with
  | .string => entry.count
  | .identifier => entry.count ||| Parser.stringKindTypeBit

/-- The hashes with one more for an identifier. -/
def addHash (hashes : List Nat) (value : Text) (isIdentifier : Bool) : List Nat :=
  if isIdentifier then hashes ++ [hermesIdentifierHash value] else hashes

/-- The counts of the string tables in a file header. -/
def writeStringCounts (buf : Bytes) (kinds hashes strings : Nat) : Result Bytes := do
  let buf ← Buffer.writeU32 buf 44 kinds
  let buf ← Buffer.writeU32 buf 48 hashes
  Buffer.writeU32 buf 52 strings

/-- The bytes of an addition: the image, how the header changes and what every
entry must read back as. -/
def addImage (file : BytecodeFile) (value : Text) (isIdentifier : Bool) (packing : Packing) :
    Result (Bytes × HeaderEdit × List StoredString) := do
  let newId := file.header.stringCount
  let raw ← rawOf file
  let kindsOff ← sectionOf file .stringKinds "string_kinds"
  let _ ← sectionOf file .identifierHashes "identifier_hashes"
  let _ ← sectionOf file .smallStringTable "small_string_table"
  let arrayOff ← postStringSection file
  .ensure (kindsOff ≤ arrayOff) (.write "unexpected string section order")
  let strings ← currentStrings file
  let strings := strings ++ [StoredString.encode value]
  let layout ← layOut strings {newId} packing
  let kinds := addKind file.stringKinds (if isIdentifier then .identifier else .string)
  let hashes := addHash file.identifierHashes value isIdentifier
  let region := pushTablesAndStorage (u32Bytes (kinds.map rawKind) ++ u32Bytes hashes) layout
  let delta : Int := region.length - (arrayOff - kindsOff)
  let rebuilt ← splice raw kindsOff arrayOff region
  let rebuilt ← writeStringCounts rebuilt kinds.length hashes.length (newId + 1)
  let rebuilt ← writeStorageCounts rebuilt layout
  let rebuilt ← Reloc.relocate file rebuilt { movedFrom := arrayOff, delta, resized := none }
  pure (rebuilt, { HeaderEdit.shifted delta with
    stringCounts := some (kinds.length % 2 ^ 32, hashes.length % 2 ^ 32, newId + 1)
    stringStorage := some (storageCounts layout) }, strings)

/-- Append a string; its id is the old number of strings. -/
def addString (sha1 : Sha1) (value : Text) (isIdentifier : Bool) (options : PatchOptions) :
    Edit (Bytes × Nat) := do
  let file ← Action.get
  let newId := file.header.stringCount
  let (rebuilt, edit, strings) ←
    Action.lift (addImage file value isIdentifier options.stringPacking)
  let out ← commitImageChecked sha1 rebuilt edit (validate strings [newId])
  pure (out, newId)

/-- Whether another entry reads one of an entry's bytes. -/
def sharesBytes (locs : List StrLoc) (id : Nat) (loc : StrLoc) : Bool :=
  (List.range locs.length).any fun other => other != id &&
    (locs[other]?.any (meets · loc.storageOff (loc.storageOff + loc.lenField)))

/-- The bytes of an edit in place, and what every entry must read back as. -/
def inPlaceImage (file : BytecodeFile) (id : Nat) (newValue : Text) (storageOff : Nat)
    (loc : StrLoc) : Result (Bytes × List StoredString) := do
  let strings ← currentStrings file
  let expected ← withString strings id (StoredString.encode newValue)
  let raw ← rawOf file
  let raw ← Buffer.write raw (storageOff + loc.storageOff) (StoredString.encode newValue).bytes
  let raw ← updateIdentifierHash file raw id newValue
  pure (raw, expected)

/-- What a same-length ASCII edit looks at: where storage starts and where every
entry's bytes are. -/
def readPlace (file : BytecodeFile) (id : Nat) : Result (Nat × List StrLoc × StrLoc) := do
  let storageOff ← sectionOf file .stringStorage "string_storage"
  let locs ← readAllStringLocs file
  let loc ← index locs id
  pure (storageOff, locs, loc)

/-- Edit an ASCII entry in place when the new text is as long as the old one and no
other entry reads its bytes, else rebuild. -/
def patchAscii (sha1 : Sha1) (id : Nat) (newValue : Text) (packing : Packing) : Edit Bytes := do
  let file ← Action.get
  let (storageOff, locs, loc) ← Action.lift (readPlace file id)
  if newValue.length ≠ loc.lenField ∨ sharesBytes locs id loc then
    patchStringResize sha1 id newValue packing
  else
    let (raw, expected) ← Action.lift (inPlaceImage file id newValue storageOff loc)
    commitImageChecked sha1 raw .default (validate expected [])

/-- Replace the value of a string. -/
def patchStringById (sha1 : Sha1) (id : Nat) (newValue : Text) (options : PatchOptions) :
    Edit Bytes := do
  let file ← Action.get
  let entry ← Action.lift (.ofOption (.write s!"string id {id} out of range") file.strings[id]?)
  if entry.isUtf16 ∨ needsUtf16 newValue then
    patchStringResize sha1 id newValue options.stringPacking
  else patchAscii sha1 id newValue options.stringPacking

end HermesDecomp.Strings
