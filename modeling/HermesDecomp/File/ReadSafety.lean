import HermesDecomp.File.Safety
import HermesDecomp.Library.Sha1

/-!
# Reading an image without a panic

A parse panics exactly when it gets to a location stream whose running sums leave 64 bits.
-/

namespace HermesDecomp.Parser

open Outcome Action

/-- A byte string that a slice can hold. -/
structure Image where
  bytes : Bytes
  addressable : bytes.length < 2 ^ 63

/-- The sections of a layout are all there, and so are the records that its string
table refers to. -/
def ReadsFront (bytes : Bytes) (layout : HeaderLayout × FunctionHeaderLayout) (front : Front) :
    Prop :=
  headerSize ≤ bytes.length ∧ (parseFront layout.1 layout.2 (.new bytes)).1 = .ok front ∧
    ∃ strings, decodeStringTable front.header.stringCount front.tables.stringKinds
      front.tables.smallStringTable front.tables.overflowStringTable front.tables.stringStorage =
        .ok strings

/-- The location streams that the functions of a read image point to have sums
that stay in 64 bits. -/
def FrontFits (bytes : Bytes) (front : Front) : Prop :=
  ∀ encoding data, DebugInfo.debugRegion bytes front.header.debugInfoOffset front.header.version =
      some (encoding, data) →
    ∀ offsets, parseDebugOffsets bytes front.tables.functionHeaders front.header.version =
        .ok offsets →
      ∀ entry ∈ offsets, entry.2.sourceLocations ≠ noOffset →
        DebugInfo.StreamFits data encoding entry.2.sourceLocations

/-- Read in a layout, the location streams have sums that stay in 64 bits. -/
def LayoutFits (bytes : Bytes) (layout : HeaderLayout × FunctionHeaderLayout) : Prop :=
  ∀ front, ReadsFront bytes layout front → FrontFits bytes front

/-- The streams fit in the layout the declared version implies and, where the
sections of that layout are not all there, in the other one. -/
def StreamsFit (bytes : Bytes) : Prop :=
  ∀ version, peekVersion bytes = .ok version →
    LayoutFits bytes (impliedLayout version) ∧
      ((∀ front, ¬ ReadsFront bytes (impliedLayout version) front) →
        LayoutFits bytes (otherLayout version))

/-- The streams do not fit when reading them panics. -/
theorem not_frontFits {bytes : Bytes} {front : Front} :
    ¬ FrontFits bytes front ↔
      ∃ offsets, parseDebugOffsets bytes front.tables.functionHeaders front.header.version =
          .ok offsets ∧
        DebugInfo.parseWithStatus bytes front.header.debugInfoOffset front.header.version offsets =
          .panic := by
  simp only [DebugInfo.parseWithStatus_panics, DebugInfo.parseStreams_panics]
  unfold FrontFits
  constructor
  · intro fails
    by_contra fits
    refine fails fun encoding data region offsets found entry inside present => ?_
    by_contra overflows
    refine fits ⟨offsets, found, encoding, data, region, fun all => ?_⟩
    exact overflows (all entry inside present)
  · rintro ⟨offsets, found, encoding, data, region, overflows⟩ fits
    exact overflows (fits encoding data region offsets found)

/-- What follows the sections panics exactly when the strings decode and a stream
does not fit. -/
theorem buildFile_panics {bytes : Bytes} {front : Front} (sha1 : Sha1)
    (starts : front.trailing.instructionOffset ≤ bytes.length)
    (inRange : ∀ header ∈ front.tables.functionHeaders, InfoInRange header) :
    buildFile sha1 bytes front = .panic ↔
      (∃ strings, decodeStringTable front.header.stringCount front.tables.stringKinds
        front.tables.smallStringTable front.tables.overflowStringTable front.tables.stringStorage =
          .ok strings) ∧ ¬ FrontFits bytes front := by
  have started : (checked (front.trailing.instructionOffset ≤ bytes.length)
      (bytes.drop front.trailing.instructionOffset) : Result Bytes) =
        .ok (bytes.drop front.trailing.instructionOffset) := if_pos starts
  rw [not_frontFits]
  obtain ⟨header, tables, buffers, trailing, sections⟩ := front
  dsimp only [buildFile] at started ⊢
  rw [started]
  simp only [ok_bind, bind_eq_panic, decodeStringTable_ne_panic, parseExceptionHandlers_ne_panic,
    parseDebugOffsets_ne_panic _ inRange, pure_eq, false_or, reduceCtorEq, and_false,
    exists_false, or_false]
  constructor
  · rintro ⟨strings, decoded, offsets, found, panics⟩
    exact ⟨⟨strings, decoded⟩, offsets, found, panics⟩
  · rintro ⟨⟨strings, decoded⟩, offsets, found, panics⟩
    exact ⟨strings, decoded, offsets, found, panics⟩

/-- Reading in a layout panics exactly when it gets to a stream that does not fit. -/
theorem parseWithLayout_panics (sha1 : Sha1) (image : Image)
    (layout : HeaderLayout × FunctionHeaderLayout) :
    parseWithLayout sha1 image.bytes layout.1 layout.2 = .panic ↔
      ¬ LayoutFits image.bytes layout := by
  have quiet := (safe_parseFront layout.1 layout.2 (.new image.bytes) ⟨rfl, image.addressable⟩).1
  have built : ∀ front, (parseFront layout.1 layout.2 (.new image.bytes)).1 = .ok front →
      (buildFile sha1 image.bytes front = .panic ↔ _) := fun front read =>
    buildFile_panics sha1 (parseFront_offset image.addressable read)
      (returns_parseFront _ _ _ _ read)
  unfold parseWithLayout LayoutFits ReadsFront
  split
  next small =>
    simp only [reduceCtorEq, false_iff, not_not]
    rintro front ⟨large, -⟩
    omega
  next large =>
    rw [bind_eq_panic]
    simp only [quiet, false_or]
    constructor
    · rintro ⟨front, read, panics⟩ fits
      obtain ⟨decoded, overflows⟩ := (built front read).mp panics
      exact overflows (fits front ⟨Nat.le_of_not_lt large, read, decoded⟩)
    · intro fails
      obtain ⟨front, reads⟩ := not_forall.mp fails
      obtain ⟨⟨-, read, decoded⟩, overflows⟩ := Classical.not_imp.mp reads
      exact ⟨front, read, (built front read).mpr ⟨decoded, overflows⟩⟩

/-- Reading in a layout returns no error when its sections and strings are there. -/
theorem parseWithLayout_answers (sha1 : Sha1) {bytes : Bytes}
    {layout : HeaderLayout × FunctionHeaderLayout} {front : Front}
    (reads : ReadsFront bytes layout front) :
    Answers (parseWithLayout sha1 bytes layout.1 layout.2) := by
  obtain ⟨large, read, strings, decoded⟩ := reads
  unfold parseWithLayout
  rw [if_neg (not_lt.mpr large), read, ok_bind]
  obtain ⟨header, tables, buffers, trailing, sections⟩ := front
  dsimp only [buildFile] at decoded ⊢
  refine answers_bind (answers_checked _ _) fun _ => ?_
  rw [decoded, ok_bind]
  refine answers_bind (parseDebugOffsets_answers _ _ _) fun _ => ?_
  refine answers_bind (DebugInfo.parseWithStatus_answers _ _ _ _) fun _ => ?_
  exact answers_bind (parseExceptionHandlers_answers _ _) fun _ => answers_pure _

/-- A read that returns a file has read its sections and strings. -/
theorem parseWithLayout_reads {sha1 : Sha1} {bytes : Bytes}
    {layout : HeaderLayout × FunctionHeaderLayout} {file : BytecodeFile}
    (ran : parseWithLayout sha1 bytes layout.1 layout.2 = .ok file) :
    ∃ front, ReadsFront bytes layout front := by
  unfold parseWithLayout at ran
  split at ran
  · simp at ran
  next large =>
    obtain ⟨front, read, built⟩ := bind_eq_ok.mp ran
    obtain ⟨_, -, rest⟩ := bind_eq_ok.mp built
    obtain ⟨strings, decoded, -⟩ := bind_eq_ok.mp rest
    exact ⟨front, Nat.le_of_not_lt large, read, strings, decoded⟩

theorem peekVersion_ne_panic (image : Image) : peekVersion image.bytes ≠ .panic := by
  unfold peekVersion
  split
  · simp
  · exact (safe_bind Reader.safe_readU64 fun _ =>
      safe_ite (fun _ => safe_fail _) fun _ => Reader.safe_readU32)
        (.new image.bytes) ⟨rfl, image.addressable⟩ |>.1

/-- A parse panics exactly when it gets to a location stream whose running sums
leave 64 bits. -/
theorem parseAuto_ne_panic (sha1 : Sha1) (image : Image) :
    parseAuto sha1 image.bytes ≠ .panic ↔ StreamsFit image.bytes := by
  unfold parseAuto StreamsFit
  cases peeked : peekVersion image.bytes with
  | panic => exact absurd peeked (peekVersion_ne_panic image)
  | err error => simp
  | ok version =>
    have implied := parseWithLayout_panics sha1 image (impliedLayout version)
    have other := parseWithLayout_panics sha1 image (otherLayout version)
    simp only [ok_bind, ok.injEq, forall_eq']
    cases first : parseWithLayout sha1 image.bytes (impliedLayout version).1
        (impliedLayout version).2 with
    | panic =>
      simp only [ne_eq, not_true_eq_false, false_iff]
      exact fun fits => implied.mp first fits.1
    | ok file =>
      obtain ⟨front, reads⟩ := parseWithLayout_reads first
      have fits : LayoutFits image.bytes (impliedLayout version) := by
        by_contra fails
        exact absurd (first.symm.trans (implied.mpr fails)) (by simp)
      simp only [pure_eq, ne_eq, reduceCtorEq, not_false_eq_true, true_iff]
      exact ⟨fits, fun unread => absurd reads (unread front)⟩
    | err error =>
      have unread : ∀ front, ¬ ReadsFront image.bytes (impliedLayout version) front :=
        fun front reads => parseWithLayout_answers sha1 reads error first
      have fits : LayoutFits image.bytes (impliedLayout version) :=
        fun front reads => absurd reads (unread front)
      have second : LayoutFits image.bytes (otherLayout version) ↔
          parseWithLayout sha1 image.bytes (otherLayout version).1 (otherLayout version).2 ≠ .panic :=
        not_iff_not.mp (by rw [← other, ne_eq, not_not])
      simp only [fits, unread, not_false_eq_true, implies_true, forall_const, true_and, second]
      split
      · simp_all
      · simp_all
      · simp_all

/-- An image whose one location stream moves its address twice by the largest
64-bit number. -/
def overflowingImage : Bytes :=
  [198, 31, 188, 3, 193, 3, 25, 31, 96, 0, 0, 0, 0, 0, 0, 0, 0, 0, 0, 0, 0, 0, 0, 0, 0, 0, 0,
   0, 0, 0, 0, 0, 235, 0, 0, 0, 0, 0, 0, 0, 1, 0, 0, 0, 0, 0, 0, 0, 0, 0, 0, 0, 0, 0, 0, 0, 0,
   0, 0, 0, 0, 0, 0, 0, 0, 0, 0, 0, 0, 0, 0, 0, 0, 0, 0, 0, 0, 0, 0, 0, 0, 0, 0, 0, 0, 0, 0,
   0, 0, 0, 0, 0, 0, 0, 0, 0, 0, 0, 0, 0, 0, 0, 0, 0, 156, 0, 0, 0, 0, 0, 0, 0, 0, 0, 0, 0, 0,
   0, 0, 0, 0, 0, 0, 0, 0, 0, 0, 0, 144, 0, 0, 0, 4, 0, 0, 0, 148, 0, 0, 0, 0, 0, 0, 16, 0, 0,
   0, 0, 0, 0, 0, 0, 255, 255, 255, 255, 0, 0, 0, 0, 0, 0, 0, 0, 0, 0, 0, 0, 31, 0, 0, 0, 31,
   0, 0, 0, 31, 0, 0, 0, 31, 0, 0, 0, 0, 0, 0, 255, 255, 255, 255, 255, 255, 255, 255, 255, 0,
   0, 0, 0, 0, 255, 255, 255, 255, 255, 255, 255, 255, 255, 0, 0, 0, 0, 0, 194, 181, 168, 80,
   2, 95, 142, 65, 156, 249, 4, 217, 136, 183, 150, 227, 183, 12, 76, 30]

/-- Reading that image panics. -/
theorem parseAuto_overflowingImage :
    overflowingImage.length < 2 ^ 63 ∧ parseAuto Sha1Hash.hash overflowingImage = .panic := by
  decide +kernel

end HermesDecomp.Parser
