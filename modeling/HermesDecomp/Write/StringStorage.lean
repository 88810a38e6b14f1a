import HermesDecomp.Format
import HermesDecomp.Write.SuffixTypes
import Mathlib.Data.Finset.Insert

/-!
# Laying out string storage

A rebuild writes every string into fresh storage: all ASCII strings, a pad to an
even offset, then all UTF-16 strings. Packed, a string that occurs inside another
one of its encoding is placed at that occurrence; only the texts nothing contains
are written out. Pinned ids get private bytes at the end of their encoding's part.
-/

namespace HermesDecomp.StringStorage

open Outcome

/-- Bytes for each character of an encoding. -/
def unitSize (isUtf16 : Bool) : Nat := if isUtf16 then 2 else 1

theorem unitSize_pos (isUtf16 : Bool) : 0 < unitSize isUtf16 := by cases isUtf16 <;> decide

/-- One string as it is stored: its bytes, the table's 32-bit length field
(characters for ASCII, code units for UTF-16) and its encoding. -/
structure StoredString where
  bytes : Bytes
  lenField : Nat
  isUtf16 : Bool
  /-- The bytes are whole units. -/
  whole : bytes.length % unitSize isUtf16 = 0
  /-- The length field counts them, in 32 bits. -/
  counted : lenField = bytes.length / unitSize isUtf16 % 2 ^ 32
deriving DecidableEq

/-- A text with a character outside ASCII. -/
def needsUtf16 (value : Text) : Bool := value.any fun c => decide (0x7f < c.toNat)

namespace StoredString

/-- A string is stored with one byte per character only when it is pure ASCII,
and as UTF-16 for anything with a non-ASCII character. -/
def encode (value : Text) : StoredString :=
  if needsUtf16 value then
    { bytes := Utf.unitBytes (Utf.encodeUtf16 value)
      lenField := (Utf.encodeUtf16 value).length % 2 ^ 32
      isUtf16 := true
      whole := by simp [unitSize]
      counted := by simp [unitSize] }
  else
    { bytes := value.map fun c => UInt8.ofNat c.toNat
      lenField := value.length % 2 ^ 32
      isUtf16 := false
      whole := by simp [unitSize, Nat.mod_one]
      counted := by simp [unitSize] }

@[simp] theorem encode_isUtf16 (value : Text) : (encode value).isUtf16 = needsUtf16 value := by
  unfold encode
  split <;> simp_all

/-- A string shorter than 4 GiB is measured exactly by its length field. -/
theorem length_eq (stored : StoredString) (fits : stored.bytes.length < 2 ^ 32) :
    stored.bytes.length = stored.lenField * unitSize stored.isUtf16 := by
  have positive := unitSize_pos stored.isUtf16
  have units : stored.bytes.length / unitSize stored.isUtf16 < 2 ^ 32 :=
    Nat.lt_of_le_of_lt (Nat.div_le_self _ _) fits
  rw [stored.counted, Nat.mod_eq_of_lt units]
  exact (Nat.div_mul_cancel (Nat.dvd_of_mod_eq_zero stored.whole)).symm

end StoredString

/-- How a rebuild lays out string storage. -/
inductive Packing where
  | packed
  | unpacked
deriving DecidableEq, Repr

/-- A rebuilt string table: the small and overflow tables and the storage. -/
structure StringLayout where
  small : List Nat
  overflow : List (Nat × Nat)
  storage : Bytes
deriving DecidableEq, Repr

/-- Per-string storage location, as the small and overflow tables give it. -/
structure StrLoc where
  storageOff : Nat
  lenField : Nat
  isUtf16 : Bool
deriving DecidableEq, Repr

/-- Bytes a location spans. -/
def byteLen (loc : StrLoc) : Nat := loc.lenField * unitSize loc.isUtf16

/-- The location of a string, from its small entry and the overflow table. -/
def locate (small : List Nat) (overflow : List (Nat × Nat)) (id : Nat) : Option StrLoc := do
  let entry := SmallStringEntry.decode (← small[id]?)
  let (storageOff, lenField) ← entry.resolve overflow
  pure { storageOff, lenField, isUtf16 := entry.isUtf16 }

/-- Storage under construction and the offset recorded for each id, in 32 bits. -/
structure Draft where
  storage : Bytes
  offsets : List Nat

/-- Write `id` out in full at the end of storage. -/
def fresh (strings : List StoredString) (draft : Draft) (id : Nat) : Result Draft := do
  let offsets ← store draft.offsets id (draft.storage.length % 2 ^ 32)
  let string ← index strings id
  pure { storage := draft.storage ++ string.bytes, offsets }

/-- The symbols of one text: each byte, or each UTF-16 unit, plus two. Zero is
the final sentinel and one the separator. -/
def symbols (utf16 : Bool) (text : Bytes) : List Nat :=
  if utf16 then (Utf.units text).map (· + 2) else text.map fun byte => byte.toNat + 2

/-- All texts as one sequence of symbols, each followed by a separator. -/
def joined (utf16 : Bool) (reps : List Bytes) : List Nat :=
  reps.flatMap (fun text => symbols utf16 text ++ [1]) ++ [0]

/-- Where each text starts in the sequence, the first one at `start`. -/
def startsFrom (utf16 : Bool) (start : Nat) : List Bytes → List Nat
  | [] => []
  | text :: rest => start :: startsFrom utf16 (start + (symbols utf16 text).length + 1) rest

/-- The rank of every position in a suffix array. -/
def ranks (size : Nat) (sa : List Nat) : Result (List Nat) :=
  sa.zipIdx.foldlM (fun rank (position, i) => store rank position i) (List.replicate size 0)

/-- The text whose part of the sequence a position lies in. -/
def owner (starts : List Nat) (position : Nat) : Result Nat :=
  let before := (starts.takeWhile (· ≤ position)).length
  checked (0 < before) (before - 1)

/-- A text that contains the `r`-th one and the byte offset of the occurrence,
when a suffix next to its own starts with it. -/
def container (utf16 : Bool) (reps : List Bytes) (text starts sa rank : List Nat) (r : Nat) :
    Result (Option (Nat × Nat)) := do
  let start ← index starts r
  let rep ← index reps r
  let n := rep.length / unitSize utf16
  let own ← checked (start + n ≤ text.length) ((text.drop start).take n)
  let place ← index rank start
  let neighbours := (if 0 < place then [place - 1] else []) ++ [place + 1]
  let found := (neighbours.filterMap (sa[·]?)).find? fun q =>
    decide (q + n ≤ text.length ∧ (text.drop q).take n = own)
  match found with
  | none => pure none
  | some q => do
      let c ← owner starts q
      let base ← index starts c
      let units ← checked (base ≤ q) (q - base)
      pure (some (c, units * unitSize utf16))

/-- For each distinct text, another text that contains it and where, or nothing. -/
def containers (reps : List Bytes) (utf16 : Bool) : Result (List (Option (Nat × Nat))) := do
  let text := joined utf16 reps
  let starts := startsFrom utf16 0 reps
  let alphabet := text.foldl max 0 + 1
  let sa ← SuffixArray.suffixArray text.length text alphabet
  let rank ← ranks text.length sa
  (List.range reps.length).mapM (container utf16 reps text starts sa rank)

/-- The index of a text among the distinct ones, which it joins when it is new. -/
def intern (reps : List Bytes) (bytes : Bytes) : List Bytes × Nat :=
  match reps.idxOf? bytes with
  | some r => (reps, r)
  | none => (reps ++ [bytes], reps.length)

/-- The distinct non-empty texts of some ids, in order of first use, and for each
id the index of its text among them. -/
def distinct (strings : List StoredString) :
    List Nat → List Bytes → Result (List Bytes × List (Nat × Option Nat))
  | [], reps => pure (reps, [])
  | id :: ids, reps => do
      let string ← index strings id
      if string.bytes = [] then
        let (reps, rest) ← distinct strings ids reps
        pure (reps, (id, none) :: rest)
      else
        let (reps, r) := intern reps string.bytes
        let (reps, rest) ← distinct strings ids reps
        pure (reps, (id, some r) :: rest)

/-- Write the texts without a container, in order, and record where. -/
def placeRoots : List (Bytes × Option (Nat × Nat)) → Bytes → Bytes × List (Option Nat)
  | [], storage => (storage, [])
  | (text, none) :: rest, storage =>
      let (final, placed) := placeRoots rest (storage ++ text)
      (final, some (storage.length % 2 ^ 32) :: placed)
  | (_, some _) :: rest, storage =>
      let (final, placed) := placeRoots rest storage
      (final, none :: placed)

/-- Follow containers up to a placed text. -/
def climb (parent : List (Option (Nat × Nat))) (placed : List (Option Nat)) :
    (fuel : Nat) → Nat → List Nat → Result (Nat × List Nat)
  | 0, _, _ => .panic
  | fuel + 1, here, chain => do
      match ← index placed here with
      | some base => pure (base, chain)
      | none =>
          let (up, _) ← unwrap (← index parent here)
          climb parent placed fuel up (here :: chain)

/-- Place the texts of a climb below the placement it ended at. -/
def descend (parent : List (Option (Nat × Nat))) :
    List Nat → Nat → List (Option Nat) → Result (List (Option Nat))
  | [], _, placed => pure placed
  | link :: rest, base, placed => do
      let (_, within) ← unwrap (← index parent link)
      let base ← checked (base + within % 2 ^ 32 < 2 ^ 32) (base + within % 2 ^ 32)
      descend parent rest base (← store placed link (some base))

/-- Place one text, through its chain of containers. -/
def resolve (parent : List (Option (Nat × Nat))) (placed : List (Option Nat)) (r : Nat) :
    Result (List (Option Nat)) := do
  let (base, chain) ← climb parent placed (placed.length + 1) r []
  descend parent chain base placed

/-- Where a text was placed. An empty string reads no bytes; any in-range offset
will do. -/
def offsetOf (placed : List (Option Nat)) (finish : Nat) : Option Nat → Result Nat
  | none => pure (finish % 2 ^ 32)
  | some r => do unwrap (← index placed r)

/-- Record where an id's text was placed. -/
def record (placed : List (Option Nat)) (finish : Nat) (offsets : List Nat)
    (entry : Nat × Option Nat) : Result (List Nat) := do
  let offset ← offsetOf placed finish entry.2
  store offsets entry.1 offset

/-- The encoding of the first id. -/
def encodingOf (strings : List StoredString) : List Nat → Result Bool
  | [] => pure false
  | id :: _ => do
      let string ← index strings id
      pure string.isUtf16

/-- Lay out ids of one encoding, each text inside another where it occurs there. -/
def packContained (strings : List StoredString) (ids : List Nat) (draft : Draft) :
    Result Draft := do
  let (reps, of) ← distinct strings ids []
  let utf16 ← encodingOf strings ids
  let parent ← containers reps utf16
  let (storage, placed) := placeRoots (reps.zip parent) draft.storage
  let placed ← (List.range reps.length).foldlM (resolve parent) placed
  let offsets ← of.foldlM (record placed storage.length) draft.offsets
  pure { storage, offsets }

/-- Lay out the ids of one encoding that may share storage. -/
def packShared (strings : List StoredString) (packing : Packing) (ids : List Nat) (draft : Draft) :
    Result Draft :=
  match packing with
  | .unpacked => ids.foldlM (fresh strings) draft
  | .packed => packContained strings ids draft

/-- Lay out the strings of one encoding: the shared ones, then the pinned ones
with bytes of their own. -/
def packGroup (strings : List StoredString) (pinned : Finset Nat) (packing : Packing)
    (ids : List Nat) (draft : Draft) : Result Draft := do
  let (shared, own) := ids.partition fun id => decide (id ∉ pinned)
  let draft ← packShared strings packing shared draft
  own.foldlM (fresh strings) draft

/-- The ids of one encoding, in order. -/
def idsOf (strings : List StoredString) (utf16 : Bool) : List Nat :=
  (List.range strings.length).filter fun id => strings[id]?.any (·.isUtf16 == utf16)

/-- Storage from which UTF-16 strings start at even offsets. -/
def padFor (utf16 : Bool) (storage : Bytes) : Bytes :=
  if utf16 = true ∧ storage.length % 2 ≠ 0 then storage ++ [0] else storage

/-- Lay out one encoding, when it has strings. -/
def packEncoding (strings : List StoredString) (pinned : Finset Nat) (packing : Packing)
    (draft : Draft) (utf16 : Bool) : Result Draft :=
  if idsOf strings utf16 = [] then pure draft
  else packGroup strings pinned packing (idsOf strings utf16)
    { draft with storage := padFor utf16 draft.storage }

/-- The small entries and overflow records of strings at their offsets. An offset
or length the small entry cannot hold gets an overflow record, numbered in table
order from `next` on. -/
def entries : (next : Nat) → List (StoredString × Nat) → List Nat × List (Nat × Nat)
  | _, [] => ([], [])
  | next, (string, offset) :: rest =>
      let (entry, needsRecord) :=
        SmallStringEntry.forString string.isUtf16 offset string.lenField (next % 2 ^ 32)
      let (small, overflow) := entries (if needsRecord then next + 1 else next) rest
      (entry.encode :: small,
        if needsRecord then (offset, string.lenField) :: overflow else overflow)

/-- Lay out strings, indexed by id, into fresh storage and tables. -/
def layOut (strings : List StoredString) (pinned : Finset Nat) (packing : Packing) :
    Result StringLayout := do
  let draft ← [false, true].foldlM (packEncoding strings pinned packing)
    { storage := [], offsets := List.replicate strings.length 0 }
  let (small, overflow) := entries 0 (strings.zip draft.offsets)
  ensure (draft.storage.length < 2 ^ 32) (.write "string storage larger than 4 GiB")
  pure { small, overflow, storage := draft.storage }

end HermesDecomp.StringStorage
