import HermesDecomp.Write.Encode
import HermesDecomp.Write.HeaderWrite

/-!
# Pointers to large headers

An overflowed slot holds a pointer in two of its bit fields. The parser follows the pointer,
and the writer reads it and writes it back moved. The two agree on every modern slot, and on
a legacy slot when its fields hold no more than the writer puts there.
-/

namespace HermesDecomp.HeaderWrite

open HermesDecomp.Parser Reader
open ByteReader (between)

theorem testBit_bitField (raw start width index : Nat) :
    (bitField raw start width).testBit index =
      (decide (index < width) && raw.testBit (start + index)) := by
  rw [bitField, Nat.testBit_and, Nat.testBit_two_pow_sub_one, Nat.testBit_shiftRight, Bool.and_comm]

/-- Replacing bits changes these bits and no others. -/
theorem testBit_setBits (raw lo bits value index : Nat) :
    (setBits raw lo bits value).testBit index =
      if lo ≤ index ∧ index < lo + bits then value.testBit (index - lo) else raw.testBit index := by
  have parts : setBits raw lo bits value =
      2 ^ lo * (2 ^ bits * (raw / 2 ^ (lo + bits)) + value % 2 ^ bits) + raw % 2 ^ lo := by
    rw [setBits, pow_add]
    ring
  rw [parts, Nat.testBit_two_pow_mul_add _ (Nat.mod_lt _ (Nat.two_pow_pos lo)),
    Nat.testBit_two_pow_mul_add _ (Nat.mod_lt _ (Nat.two_pow_pos bits))]
  by_cases low : index < lo
  · rw [if_pos low, if_neg (by omega), Nat.testBit_mod_two_pow, decide_eq_true low, Bool.true_and]
  · rw [if_neg low]
    by_cases inside : index - lo < bits
    · rw [if_pos inside, if_pos (by omega), Nat.testBit_mod_two_pow, decide_eq_true inside,
        Bool.true_and]
    · rw [if_neg inside, if_neg (by omega), Nat.testBit_div_two_pow]
      congr 1
      omega

/-- A field that the replaced bits do not meet is kept. -/
theorem bitField_setBits_of_apart {raw lo bits value start width : Nat}
    (apart : start + width ≤ lo ∨ lo + bits ≤ start) :
    bitField (setBits raw lo bits value) start width = bitField raw start width := by
  apply Nat.eq_of_testBit_eq
  intro index
  rw [testBit_bitField, testBit_bitField]
  by_cases inside : index < width
  · rw [testBit_setBits, if_neg (by omega)]
  · rw [decide_eq_false inside, Bool.false_and, Bool.false_and]

/-- Replacing bits of a word gives a word. -/
theorem setBits_lt {raw lo bits value size : Nat} (small : raw < 2 ^ size)
    (inside : lo + bits ≤ size) : setBits raw lo bits value < 2 ^ size := by
  refine Nat.lt_pow_two_of_testBit _ fun index high => ?_
  rw [testBit_setBits, if_neg (by omega)]
  exact Nat.testBit_lt_two_pow (lt_of_lt_of_le small (Nat.pow_le_pow_right (by decide) high))

/-- Two fields side by side are one. -/
theorem bitField_split (raw start low high : Nat) :
    bitField raw start (low + high) =
      2 ^ low * bitField raw (start + low) high + bitField raw start low := by
  apply Nat.eq_of_testBit_eq
  intro index
  rw [Nat.testBit_two_pow_mul_add _ (bitField_lt ..), testBit_bitField]
  split
  case isTrue inside => rw [testBit_bitField, decide_eq_true inside, decide_eq_true (by omega)]
  case isFalse outside =>
    rw [testBit_bitField]
    have place : start + low + (index - low) = start + index := by omega
    rw [place]
    congr 1
    exact decide_eq_decide.mpr (by omega)

variable {slot : Bytes}

/-- The number of a slot as a word. -/
theorem leNat_lt_of_length {size : Nat} (whole : slot.length = size) :
    Bytes.leNat slot < 2 ^ (8 * size) := by
  have small := Bytes.leNat_lt slot
  rwa [whole, show 256 = 2 ^ 8 from rfl, ← Nat.pow_mul] at small

theorem leNat_leBytes_word {raw size : Nat} (small : raw < 2 ^ (8 * size)) :
    Bytes.leNat (Bytes.leBytes size raw) = raw := by
  refine Bytes.leNat_leBytes_of_lt ?_
  rwa [show 256 = 2 ^ 8 from rfl, ← Nat.pow_mul]

/-- Overwriting a slot from its start to its end leaves what was written. -/
theorem write_slot {slot part : Bytes} (whole : part.length = slot.length) :
    Buffer.write slot 0 part = .ok part := by
  refine Buffer.write_eq_ok.mpr ⟨by omega, ?_⟩
  rw [Bytes.overwrite, List.take_zero, List.nil_append, List.drop_eq_nil_of_le (by omega),
    List.append_nil]

/-- A number in 64 bits is what it was. -/
theorem asU64_of_small {value : Int} (least : 0 ≤ value) (most : value < 2 ^ 64) :
    (asU64 value : Int) = value := by
  rw [asU64, Int.toNat_of_nonneg (Int.emod_nonneg _ (by decide)), Int.emod_eq_of_lt least most]

/-- A slot of `size` bytes with a number put in two fields of its word: the bits from `shift` on in
the `highBits` bits at `highAt`, the others in the `lowBits` bits at the start. -/
structure SplitWritten (size lowBits shift highAt highBits number : Nat) (slot moved : Bytes) :
    Prop where
  length : moved.length = size
  low : bitField (Bytes.leNat moved) 0 lowBits = number % 2 ^ shift
  high : bitField (Bytes.leNat moved) highAt highBits = number / 2 ^ shift
  others : ∀ bit, ¬ (bit < lowBits ∨ highAt ≤ bit ∧ bit < highAt + highBits) →
    (Bytes.leNat moved).testBit bit = (Bytes.leNat slot).testBit bit

/-- Two fields of a slot that are apart can be written. -/
theorem splitWritten {size lowBits shift highAt highBits number : Nat} (whole : slot.length = size)
    (apart : lowBits ≤ highAt) (inside : highAt + highBits ≤ 8 * size)
    (lowFits : number % 2 ^ shift < 2 ^ lowBits) (highFits : number / 2 ^ shift < 2 ^ highBits) :
    ∃ moved, Buffer.write slot 0 (Bytes.leBytes size (setBits (setBits
        (Bytes.leNat (slot.take size)) 0 lowBits (number % 2 ^ shift)) highAt highBits
          (number / 2 ^ shift))) = .ok moved ∧
      SplitWritten size lowBits shift highAt highBits number slot moved := by
  rw [List.take_of_length_le whole.le]
  obtain ⟨first, firstEq⟩ : ∃ raw, raw = setBits (Bytes.leNat slot) 0 lowBits (number % 2 ^ shift) :=
    ⟨_, rfl⟩
  obtain ⟨raw, rawEq⟩ : ∃ raw, raw = setBits first highAt highBits (number / 2 ^ shift) := ⟨_, rfl⟩
  rw [← firstEq, ← rawEq]
  have word : raw < 2 ^ (8 * size) := by
    rw [rawEq, firstEq]
    exact setBits_lt (setBits_lt (leNat_lt_of_length whole) (by omega)) inside
  have back := leNat_leBytes_word word
  refine ⟨_, write_slot (by rw [Bytes.leBytes_length, whole]),
    Bytes.leBytes_length _ _, ?_, ?_, fun bit free => ?_⟩ <;> rw [back]
  · rw [rawEq, bitField_setBits_of_apart (by omega), firstEq, bitField_setBits_self lowFits]
  · rw [rawEq, bitField_setBits_self highFits]
  · rw [rawEq, testBit_setBits, if_neg (by omega), firstEq, testBit_setBits, if_neg (by omega)]

/-- A field that the two written ones do not meet is kept. -/
theorem SplitWritten.bitField_eq {size lowBits shift highAt highBits number start width : Nat}
    {moved : Bytes} (written : SplitWritten size lowBits shift highAt highBits number slot moved)
    (free : ∀ bit, start ≤ bit → bit < start + width →
      ¬ (bit < lowBits ∨ highAt ≤ bit ∧ bit < highAt + highBits)) :
    bitField (Bytes.leNat moved) start width = bitField (Bytes.leNat slot) start width := by
  apply Nat.eq_of_testBit_eq
  intro index
  rw [testBit_bitField, testBit_bitField]
  by_cases inside : index < width
  · rw [written.others _ (free _ (by omega) (by omega))]
  · rw [decide_eq_false inside, Bool.false_and, Bool.false_and]

/-- Where the parser looks for the large header of a legacy slot. -/
def followedLegacy (slot : Bytes) : Nat := legacyLargeOffset (legacyInline 0 (Bytes.leNat slot))

/-- A legacy slot is overflowed. -/
def OverflowedLegacy (slot : Bytes) : Prop :=
  hasFlag (bitField (Bytes.leNat slot) 120 8) flagOverflowed = true

/-- The parser reads the function of a legacy slot at a pointer, wherever the slot stands. -/
def FollowsLegacy (slot : Bytes) (pointer : Nat) : Prop :=
  ∀ (functionId : Nat) (before after : Bytes),
    parseLegacyFunction functionId (between before (slot ++ after)) =
      (do
        let large ← parseLargeHeaderLegacy pointer functionId
        seekPast before.length legacyHeaderSize
        pure (.legacy large) : Reader FunctionHeader) (between (before ++ slot) after)

/-- The reader of the writer finds the pointer the parser follows, and a shift moves it. -/
structure LegacyAgrees (slot : Bytes) : Prop where
  read : readLegacyLargePointer slot = .ok (followedLegacy slot)
  shifted : ∀ delta : Int, 0 ≤ followedLegacy slot + delta → followedLegacy slot + delta < 2 ^ 32 →
    ∃ moved pointer, shiftLegacyLargePointer slot delta = .ok moved ∧
      FollowsLegacy moved pointer ∧ (pointer : Int) = followedLegacy slot + delta

/-- The pointer of a legacy slot has no bit past the 32nd, and its low part says nothing in
the places of the high part that the high part does not say. -/
def CanonicalPointer (slot : Bytes) : Prop :=
  bitField (Bytes.leNat slot) 64 25 < 2 ^ 16 ∧
    bitField (Bytes.leNat slot) 64 25 ||| bitField (Bytes.leNat slot) 16 9 =
      bitField (Bytes.leNat slot) 64 25

instance (slot : Bytes) : Decidable (CanonicalPointer slot) := inferInstanceAs (Decidable (_ ∧ _))

/-- An overflowed legacy function is read where its slot points. -/
theorem parseLegacyFunction_follows (whole : slot.length = legacyHeaderSize)
    (overflowed : OverflowedLegacy slot) : FollowsLegacy slot (followedLegacy slot):= by
  intro functionId before after
  have taken : readBytes legacyHeaderSize (between before (slot ++ after)) =
      (.ok slot, between (before ++ slot) after) :=
    readExact_between.mpr ⟨whole, after, rfl, rfl⟩
  have here : position (between before (slot ++ after)) =
      (.ok before.length, between before (slot ++ after)) := rfl
  have flagged : hasFlag (legacyInline functionId (Bytes.leNat slot)).flags flagOverflowed = true :=
    overflowed
  rw [parseLegacyFunction, Action.bind_of_run here, Action.bind_of_run taken, if_pos flagged]
  rfl

/-- The parts of the pointer that the parser puts together. -/
theorem followedLegacy_eq (slot : Bytes) : followedLegacy slot =
    2 ^ 16 * (bitField (Bytes.leNat slot) 64 25 ||| bitField (Bytes.leNat slot) 16 9) +
      bitField (Bytes.leNat slot) 0 16 := by
  have low := bitField_split (Bytes.leNat slot) 0 16 9
  have opened : followedLegacy slot =
      bitField (Bytes.leNat slot) 64 25 <<< 16 ||| bitField (Bytes.leNat slot) 0 25 := rfl
  rw [opened, low]
  apply Nat.eq_of_testBit_eq
  intro index
  rw [Nat.testBit_or, Nat.testBit_shiftLeft, Nat.testBit_two_pow_mul_add _ (bitField_lt ..),
    Nat.testBit_two_pow_mul_add _ (bitField_lt ..), Nat.testBit_or]
  by_cases inside : index < 16
  · simp [inside]
  · simp [inside, Nat.le_of_not_lt inside]

section

variable (whole : slot.length = legacyHeaderSize)

include whole

/-- The parts of the pointer that the writer puts together. -/
theorem readLegacyLargePointer_eq :
    readLegacyLargePointer slot = .ok (2 ^ 16 * (bitField (Bytes.leNat slot) 64 25 % 2 ^ 16) +
      bitField (Bytes.leNat slot) 0 16) := by
  have small : ¬ slot.length < 16 := by rw [whole]; decide
  have all : slot.take 16 = slot := List.take_of_length_le (by rw [whole]; decide)
  have high : bitField (Bytes.leNat slot) 64 25 <<< 16 % 2 ^ 32 =
      2 ^ 16 * (bitField (Bytes.leNat slot) 64 25 % 2 ^ 16) := by
    rw [Nat.shiftLeft_eq, mul_comm, show 2 ^ 32 = 2 ^ 16 * 2 ^ 16 from rfl, Nat.mul_mod_mul_left]
  rw [readLegacyLargePointer, if_neg small, all]
  dsimp only
  rw [high, Nat.two_pow_add_eq_or_of_lt (bitField_lt ..)]

/-- Reader and parser find the same pointer in canonical slots only. -/
theorem read_followed_iff :
    readLegacyLargePointer slot = .ok (followedLegacy slot) ↔ CanonicalPointer slot := by
  rw [readLegacyLargePointer_eq whole, followedLegacy_eq, Outcome.ok.injEq, CanonicalPointer]
  have wider : bitField (Bytes.leNat slot) 64 25 ≤
      bitField (Bytes.leNat slot) 64 25 ||| bitField (Bytes.leNat slot) 16 9 := Nat.left_le_or
  constructor
  · intro same
    have less := Nat.mod_le (bitField (Bytes.leNat slot) 64 25) (2 ^ 16)
    have bound : bitField (Bytes.leNat slot) 64 25 % 2 ^ 16 < 2 ^ 16 := Nat.mod_lt _ (by decide)
    constructor <;> omega
  · rintro ⟨small, same⟩
    rw [same, Nat.mod_eq_of_lt small]

/-- A shift writes the moved pointer in two fields. -/
theorem shiftLegacyLargePointer_written {pointer place : Nat} {delta : Int}
    (read : readLegacyLargePointer slot = .ok pointer) (lands : (place : Int) = pointer + delta)
    (small : place < 2 ^ 32) :
    ∃ moved, shiftLegacyLargePointer slot delta = .ok moved ∧
      SplitWritten legacyHeaderSize 25 16 64 25 place slot moved := by
  have new : asU64 (pointer + delta) = place := by
    have exactly := @asU64_of_small (pointer + delta) (by omega) (by omega)
    omega
  rw [shiftLegacyLargePointer, read, Outcome.ok_bind, new]
  exact splitWritten whole (by decide) (by decide)
    (lt_trans (Nat.mod_lt _ (by decide)) (by decide)) (by omega)

/-- A slot whose pointer is moved keeps its flags and points where it should. -/
theorem shiftLegacyLargePointer_moves {pointer : Nat} {delta : Int}
    (overflowed : OverflowedLegacy slot) (read : readLegacyLargePointer slot = .ok pointer)
    (least : 0 ≤ pointer + delta) (most : pointer + delta < 2 ^ 32) :
    ∃ moved, shiftLegacyLargePointer slot delta = .ok moved ∧ moved.length = legacyHeaderSize ∧
      OverflowedLegacy moved ∧ (followedLegacy moved : Int) = pointer + delta := by
  obtain ⟨place, lands⟩ := Int.eq_ofNat_of_zero_le least
  obtain ⟨moved, ran, written⟩ := shiftLegacyLargePointer_written whole read lands.symm (by omega)
  refine ⟨moved, ran, written.length, ?_, ?_⟩
  · rwa [OverflowedLegacy, written.bitField_eq (by omega)]
  · have opened : followedLegacy moved = bitField (Bytes.leNat moved) 64 25 <<< 16 |||
        bitField (Bytes.leNat moved) 0 25 := rfl
    rw [opened, written.high, written.low, Nat.shiftLeft_eq, mul_comm,
      ← Nat.two_pow_add_eq_or_of_lt (Nat.mod_lt _ (by decide)), Nat.div_add_mod]
    exact lands.symm

/-- Reader, writer and parser agree on the pointer of a legacy slot exactly when it is
canonical. -/
theorem legacyAgrees_iff (overflowed : OverflowedLegacy slot) :
    LegacyAgrees slot ↔ CanonicalPointer slot:= by
  constructor
  · exact fun agrees => (read_followed_iff whole).mp agrees.read
  · intro canonical
    have read := (read_followed_iff whole).mpr canonical
    refine ⟨read, fun delta least most => ?_⟩
    obtain ⟨moved, shifted, movedWhole, movedOver, exactly⟩ :=
      shiftLegacyLargePointer_moves whole overflowed read least most
    exact ⟨moved, followedLegacy moved, shifted, parseLegacyFunction_follows movedWhole movedOver,
      exactly⟩

end

/-- Where the parser looks for the large header of a modern slot. -/
def followedModern (layout : ModernLayout) (slot : Bytes) : Nat :=
  modernLargeOffsetOf (modernInline layout 0 (Bytes.leNat slot))

/-- A modern slot is overflowed. -/
def OverflowedModern (slot : Bytes) : Prop :=
  hasFlag (bitField (Bytes.leNat slot) 88 8) flagOverflowed = true

/-- The parser reads the function of a modern slot at a pointer, wherever the slot stands. -/
def FollowsModern (layout : ModernLayout) (slot : Bytes) (pointer : Nat) : Prop :=
  ∀ (functionId : Nat) (before after : Bytes),
    parseModernFunction layout functionId (between before (slot ++ after)) =
      (do
        let large ← parseLargeHeaderModern layout pointer functionId
        seekPast before.length modernHeaderSize
        pure (.modern large) : Reader FunctionHeader) (between (before ++ slot) after)

/-- The reader of the writer finds the pointer the parser follows, and a shift moves it. -/
structure ModernAgrees (layout : ModernLayout) (slot : Bytes) : Prop where
  read : readModernLargePointer slot = .ok (followedModern layout slot)
  shifted : ∀ delta : Int, 0 ≤ followedModern layout slot + delta →
    followedModern layout slot + delta < 2 ^ 32 →
      ∃ moved pointer, shiftModernLargePointer slot delta = .ok moved ∧
        FollowsModern layout moved pointer ∧ (pointer : Int) = followedModern layout slot + delta

/-- An overflowed modern function is read where its slot points. -/
theorem parseModernFunction_follows (layout : ModernLayout) (whole : slot.length = modernHeaderSize)
    (overflowed : OverflowedModern slot) :
    FollowsModern layout slot (followedModern layout slot) := by
  intro functionId before after
  have taken : readBytes modernHeaderSize (between before (slot ++ after)) =
      (.ok slot, between (before ++ slot) after) :=
    readExact_between.mpr ⟨whole, after, rfl, rfl⟩
  have here : position (between before (slot ++ after)) =
      (.ok before.length, between before (slot ++ after)) := rfl
  have flagged : hasFlag (modernInline layout functionId (Bytes.leNat slot)).flags flagOverflowed =
      true := overflowed
  rw [parseModernFunction, Action.bind_of_run here, Action.bind_of_run taken, if_pos flagged]
  rfl

/-- The parts of the pointer, for the parser. -/
theorem followedModern_eq (layout : ModernLayout) (slot : Bytes) : followedModern layout slot =
    2 ^ 24 * bitField (Bytes.leNat slot) 46 8 + bitField (Bytes.leNat slot) 0 24 := by
  have opened : followedModern layout slot = bitField (Bytes.leNat slot) 46 8 <<< 24 |||
      (bitField (Bytes.leNat slot) 0 25 &&& (2 ^ 24 - 1)) := rfl
  have low : bitField (Bytes.leNat slot) 0 25 &&& (2 ^ 24 - 1) = bitField (Bytes.leNat slot) 0 24 := by
    rw [Nat.and_two_pow_sub_one_eq_mod, bitField_split (Bytes.leNat slot) 0 24 1, Nat.mul_add_mod,
      Nat.mod_eq_of_lt (bitField_lt ..)]
  rw [opened, low, Nat.shiftLeft_eq, mul_comm, Nat.two_pow_add_eq_or_of_lt (bitField_lt ..)]

/-- Reader and parser find the same pointer in every modern slot. -/
theorem readModernLargePointer_eq (layout : ModernLayout) (whole : slot.length = modernHeaderSize) :
    readModernLargePointer slot = .ok (followedModern layout slot) := by
  have small : ¬ slot.length < 12 := by rw [whole]; decide
  have all : slot.take 12 = slot := List.take_of_length_le (by rw [whole]; decide)
  rw [readModernLargePointer, if_neg small, all, followedModern_eq]
  dsimp only
  rw [Nat.shiftLeft_eq, mul_comm, Nat.two_pow_add_eq_or_of_lt (bitField_lt ..)]

theorem shiftModernLargePointer_written {pointer place : Nat} {delta : Int}
    (whole : slot.length = modernHeaderSize) (read : readModernLargePointer slot = .ok pointer)
    (lands : (place : Int) = pointer + delta) (small : place < 2 ^ 32) :
    ∃ moved, shiftModernLargePointer slot delta = .ok moved ∧
      SplitWritten modernHeaderSize 24 24 46 8 place slot moved := by
  have new : asU64 (pointer + delta) = place := by
    have exactly := @asU64_of_small (pointer + delta) (by omega) (by omega)
    omega
  rw [shiftModernLargePointer, read, Outcome.ok_bind, new]
  exact splitWritten whole (by decide) (by decide) (Nat.mod_lt _ (by decide)) (by omega)

/-- A modern slot whose pointer is moved keeps its flags and points where it should. -/
theorem shiftModernLargePointer_moves (layout : ModernLayout) {pointer : Nat} {delta : Int}
    (whole : slot.length = modernHeaderSize) (overflowed : OverflowedModern slot)
    (read : readModernLargePointer slot = .ok pointer) (least : 0 ≤ pointer + delta)
    (most : pointer + delta < 2 ^ 32) :
    ∃ moved, shiftModernLargePointer slot delta = .ok moved ∧ moved.length = modernHeaderSize ∧
      OverflowedModern moved ∧ (followedModern layout moved : Int) = pointer + delta := by
  obtain ⟨place, lands⟩ := Int.eq_ofNat_of_zero_le least
  obtain ⟨moved, ran, written⟩ := shiftModernLargePointer_written whole read lands.symm (by omega)
  refine ⟨moved, ran, written.length, ?_, ?_⟩
  · rwa [OverflowedModern, written.bitField_eq (by omega)]
  · rw [followedModern_eq, written.high, written.low, Nat.div_add_mod]
    exact lands.symm

/-- Reader, writer and parser agree on the pointer of every modern slot. -/
theorem modernAgrees (layout : ModernLayout) (whole : slot.length = modernHeaderSize)
    (overflowed : OverflowedModern slot) : ModernAgrees layout slot := by
  have read := readModernLargePointer_eq layout whole
  refine ⟨read, fun delta least most => ?_⟩
  obtain ⟨moved, shifted, movedWhole, movedOver, exactly⟩ :=
    shiftModernLargePointer_moves layout whole overflowed read least most
  exact ⟨moved, followedModern layout moved, shifted,
    parseModernFunction_follows layout movedWhole movedOver, exactly⟩

/-- The parser follows the pointer of every overflowed slot. Reader and writer agree with it
on all modern slots, and on a legacy slot exactly when its pointer is canonical. -/
theorem largePointers_agree_iff (slot : Bytes) :
    (slot.length = legacyHeaderSize → OverflowedLegacy slot →
      FollowsLegacy slot (followedLegacy slot) ∧ (LegacyAgrees slot ↔ CanonicalPointer slot)) ∧
    ∀ layout : ModernLayout, slot.length = modernHeaderSize → OverflowedModern slot →
      FollowsModern layout slot (followedModern layout slot) ∧ ModernAgrees layout slot :=
  ⟨fun whole overflowed =>
      ⟨parseLegacyFunction_follows whole overflowed, legacyAgrees_iff whole overflowed⟩,
    fun layout whole overflowed =>
      ⟨parseModernFunction_follows layout whole overflowed, modernAgrees layout whole overflowed⟩⟩

/-- The pointers of two slots that point past 64 KiB. -/
theorem largePointers_agree_far :
    (FollowsLegacy [4, 0, 0, 0, 0, 0, 0, 0, 1, 0, 0, 0, 0, 0, 0, 32] 65540 ∧
      LegacyAgrees [4, 0, 0, 0, 0, 0, 0, 0, 1, 0, 0, 0, 0, 0, 0, 32]) ∧
    FollowsModern ⟨98, true⟩ [4, 0, 1, 0, 0, 0, 0, 0, 0, 0, 0, 32] 65540 ∧
      ModernAgrees ⟨98, true⟩ [4, 0, 1, 0, 0, 0, 0, 0, 0, 0, 0, 32] := by
  obtain ⟨follows, agrees⟩ :=
    (largePointers_agree_iff [4, 0, 0, 0, 0, 0, 0, 0, 1, 0, 0, 0, 0, 0, 0, 32]).1 rfl
      (by unfold OverflowedLegacy; decide)
  obtain ⟨modernFollows, modernAgrees⟩ :=
    (largePointers_agree_iff [4, 0, 1, 0, 0, 0, 0, 0, 0, 0, 0, 32]).2 ⟨98, true⟩ rfl
      (by unfold OverflowedModern; decide)
  exact ⟨⟨follows, agrees.mpr (by decide)⟩, modernFollows, modernAgrees⟩

/-- An overflowed legacy slot with bit sixteen set and no other bit of its pointer. -/
def strayBitSlot : Bytes := [0, 0, 1, 0, 0, 0, 0, 0, 0, 0, 0, 0, 0, 0, 0, 32]

/-- The parser follows the stray bit, and the writer does not see it. -/
theorem strayBitSlot_disagrees : strayBitSlot.length = legacyHeaderSize ∧
    OverflowedLegacy strayBitSlot ∧ followedLegacy strayBitSlot = 65536 ∧
      readLegacyLargePointer strayBitSlot = .ok 0 ∧ ¬ LegacyAgrees strayBitSlot := by
  refine ⟨rfl, by unfold OverflowedLegacy; decide, by decide, by decide, fun agrees => ?_⟩
  have read := agrees.read
  cases read

end HermesDecomp.HeaderWrite
