import HermesDecomp.Write.Frame
import HermesDecomp.Write.LargePointers

/-!
# The offsets that a relocation writes

Every offset that a relocation rewrites in a slot or in a large header comes out as the old one
plus the size change, or as it was when it is before the splice, and the slot keeps its other
bits.
-/

namespace HermesDecomp.Reloc

open HeaderWrite Bytes Outcome HermesDecomp.Parser

/-- An offset before the splice stays, and one at or past it moves by the size change. -/
def Moved (r : Reloc) (before after : Nat) : Prop :=
  (before < r.movedFrom → after = before) ∧
    (r.movedFrom ≤ before → (after : Int) = before + r.delta)

/-- An offset that may be absent stays when it is, and moves like others when it is not. -/
def MovedUnless (r : Reloc) (absent : Prop) (before after : Nat) : Prop :=
  (absent → after = before) ∧ (¬ absent → r.Moved before after)

variable {r : Reloc}

/-- A shifted offset is a moved one. -/
theorem moved_of_shifted {value bits new : Nat} {what : String}
    (ran : r.shifted value bits what = .ok new) : r.Moved value new:= by
  refine ⟨fun before => ?_, fun moved => shifted_of_moved moved ran⟩
  rw [shifted, if_pos before] at ran
  exact (Outcome.ok.inj ran).symm

/-- A shifted offset fits where the old one did. -/
theorem shifted_lt {value bits new : Nat} {what : String} (small : value < 2 ^ bits)
    (ran : r.shifted value bits what = .ok new) : new < 2 ^ bits:= by
  unfold shifted at ran
  split at ran
  · cases ran
    exact small
  · dsimp only at ran
    split at ran
    · simp at ran
    next fits =>
      cases ran
      obtain ⟨least, most⟩ := not_or.mp fits
      refine (Int.toNat_lt (Int.not_lt.mp least)).mpr ?_
      rw [Nat.cast_pow]
      exact Int.not_le.mp most

/-- A word keeps its bits outside the touched ones. -/
def BitsKept (touched : Nat → Prop) (raw after : Nat) : Prop :=
  ∀ bit, ¬ touched bit → after.testBit bit = raw.testBit bit

namespace BitsKept

variable {touched : Nat → Prop} {raw between after : Nat}

theorem refl (touched : Nat → Prop) (raw : Nat) : BitsKept touched raw raw := fun _ _ => rfl

theorem trans (first : BitsKept touched raw between) (second : BitsKept touched between after) :
    BitsKept touched raw after :=
  fun bit free => (second bit free).trans (first bit free)

theorem mono {more : Nat → Prop} (kept : BitsKept touched raw after)
    (covers : ∀ bit, touched bit → more bit) : BitsKept more raw after :=
  fun bit free => kept bit fun hit => free (covers bit hit)

/-- A field with no touched bit is kept. -/
theorem bitField_eq (kept : BitsKept touched raw after) {start width : Nat}
    (free : ∀ bit, start ≤ bit → bit < start + width → ¬ touched bit) :
    bitField after start width = bitField raw start width := by
  apply Nat.eq_of_testBit_eq
  intro index
  rw [testBit_bitField, testBit_bitField]
  by_cases inside : index < width
  · rw [kept _ (free _ (by omega) (by omega))]
  · rw [decide_eq_false inside, Bool.false_and, Bool.false_and]

/-- A word stays a word. -/
theorem lt {size : Nat} (kept : BitsKept touched raw after) (small : raw < 2 ^ size)
    (inside : ∀ bit, touched bit → bit < size) : after < 2 ^ size := by
  refine Nat.lt_pow_two_of_testBit _ fun bit high => ?_
  rw [kept bit fun hit => absurd (inside bit hit) (by omega)]
  exact Nat.testBit_lt_two_pow (lt_of_lt_of_le small (Nat.pow_le_pow_right (by decide) high))

end BitsKept

theorem setBits_kept (raw lo bits value : Nat) :
    BitsKept (fun bit => lo ≤ bit ∧ bit < lo + bits) raw (setBits raw lo bits value) := by
  intro bit free
  rw [testBit_setBits, if_neg free]

/-- Bits of the size in an inline header. -/
def sizeBits (layout : Option ModernLayout) : Nat :=
  if layout.isSome then modernSizeBits else legacySizeBits

/-- The bits of an inline header that a relocation may rewrite: the body offset, the info offset
where there is one, and the size of the function that is resized. -/
def InlineBit (layout : Option ModernLayout) (resized : Bool) (bit : Nat) : Prop :=
  bit < offsetBits ∨ layout = none ∧ 64 ≤ bit ∧ bit < 64 + offsetBits ∨
    resized = true ∧ 32 ≤ bit ∧ bit < 32 + sizeBits layout

/-- The offsets of an inline header moved, and the other bits are as they were. -/
structure InlineMoved (r : Reloc) (layout : Option ModernLayout) (resized : Bool)
    (slot moved : Bytes) : Prop where
  offset : r.Moved (bitField (leNat slot) 0 offsetBits) (bitField (leNat moved) 0 offsetBits)
  info : layout = none → r.MovedUnless (bitField (leNat slot) 64 offsetBits = 0)
    (bitField (leNat slot) 64 offsetBits) (bitField (leNat moved) 64 offsetBits)
  others : BitsKept (InlineBit layout resized) (leNat slot) (leNat moved)

variable {newSize : Option Nat}

theorem resize_kept {raw bits after : Nat} (ran : resize raw bits newSize = .ok after) :
    BitsKept (fun bit => newSize.isSome = true ∧ 32 ≤ bit ∧ bit < 32 + bits) raw after := by
  unfold resize at ran
  split at ran
  · obtain ⟨size, -, done⟩ := bind_eq_ok.mp ran
    cases done
    exact (setBits_kept raw 32 bits size).mono fun bit hit => ⟨rfl, hit⟩
  · cases ran
    exact .refl _ _

theorem shiftInfo_moved {raw after : Nat} (ran : r.shiftInfo raw = .ok after) :
    r.MovedUnless (bitField raw 64 offsetBits = 0) (bitField raw 64 offsetBits)
        (bitField after 64 offsetBits) ∧
      BitsKept (fun bit => 64 ≤ bit ∧ bit < 64 + offsetBits) raw after := by
  unfold shiftInfo at ran
  dsimp only at ran
  split at ran
  next absent =>
    cases ran
    exact ⟨⟨fun _ => rfl, fun present => absurd absent present⟩, .refl _ _⟩
  next present =>
    obtain ⟨info, shifting, done⟩ := bind_eq_ok.mp ran
    cases done
    rw [bitField_setBits_self (shifted_lt (bitField_lt ..) shifting)]
    exact ⟨⟨fun absent => absurd absent present, fun _ => moved_of_shifted shifting⟩,
      setBits_kept _ _ _ _⟩

variable {slot moved : Bytes}

theorem relocateLegacySmall_moved (whole : slot.length = legacyHeaderSize)
    (ran : r.relocateLegacySmall newSize slot = .ok moved) :
    r.InlineMoved none newSize.isSome slot moved := by
  simp only [relocateLegacySmall, bind_eq_ok, pure_eq, ok.injEq] at ran
  obtain ⟨offset, shifting, withInfo, shiftingInfo, raw, resizing, rfl⟩ := ran
  have first := setBits_kept (leNat slot) 0 offsetBits offset
  obtain ⟨info, second⟩ := shiftInfo_moved shiftingInfo
  have third := resize_kept resizing
  have all : BitsKept (InlineBit none newSize.isSome) (leNat slot) raw := by
    refine (first.mono fun bit hit => ?_).trans ((second.mono fun bit hit => ?_).trans
      (third.mono fun bit hit => ?_))
    · exact .inl (by omega)
    · exact .inr (.inl ⟨rfl, hit⟩)
    · exact .inr (.inr hit)
  have small : leNat slot < 2 ^ 128 := leNat_lt_of_length whole
  have word : raw < 2 ^ 128 := by
    refine all.lt small fun bit hit => ?_
    unfold InlineBit sizeBits offsetBits legacySizeBits at hit
    simp only [Option.isSome_none, Bool.false_eq_true, if_false] at hit
    omega
  have back : leNat (leBytes 16 raw) = raw := leNat_leBytes_word word
  unfold legacySizeBits at third
  unfold offsetBits at first second info shifting
  refine ⟨?_, fun _ => ?_, ?_⟩
  · rw [back, third.bitField_eq (by unfold offsetBits; omega),
      second.bitField_eq (by unfold offsetBits; omega), offsetBits,
      bitField_setBits_self (shifted_lt (bitField_lt ..) shifting)]
    exact moved_of_shifted shifting
  · rw [back, third.bitField_eq (by unfold offsetBits; omega), offsetBits,
      ← first.bitField_eq (fun bit low high hit => by omega)]
    exact info
  · rwa [back]

theorem relocateModernSmall_moved {layout : ModernLayout} (whole : slot.length = modernHeaderSize)
    (ran : r.relocateModernSmall newSize slot = .ok moved) :
    r.InlineMoved (some layout) newSize.isSome slot moved := by
  simp only [relocateModernSmall, bind_eq_ok, pure_eq, ok.injEq] at ran
  obtain ⟨offset, shifting, raw, resizing, rfl⟩ := ran
  have first := setBits_kept (leNat slot) 0 offsetBits offset
  have second := resize_kept resizing
  have all : BitsKept (InlineBit (some layout) newSize.isSome) (leNat slot) raw := by
    refine (first.mono fun bit hit => ?_).trans (second.mono fun bit hit => ?_)
    · exact .inl (by omega)
    · exact .inr (.inr hit)
  have small : leNat slot < 2 ^ 96 := leNat_lt_of_length whole
  have word : raw < 2 ^ 96 := by
    refine all.lt small fun bit hit => ?_
    unfold InlineBit sizeBits offsetBits modernSizeBits at hit
    simp only [Option.isSome_some, if_true, reduceCtorEq, false_and, false_or] at hit
    omega
  have back : leNat (leBytes 12 raw) = raw := leNat_leBytes_word word
  unfold modernSizeBits at second
  unfold offsetBits at first shifting
  refine ⟨?_, fun legacy => by simp at legacy, ?_⟩
  · rw [back, second.bitField_eq (by unfold offsetBits; omega), offsetBits,
      bitField_setBits_self (shifted_lt (bitField_lt ..) shifting)]
    exact moved_of_shifted shifting
  · rwa [back]

variable {layout : Option ModernLayout}

/-- Relocating an inline header moves its offsets and nothing else. -/
theorem relocateSlot_moved (whole : slot.length = slotSize layout)
    (ran : r.relocateSlot layout newSize slot = .ok moved) :
    r.InlineMoved layout newSize.isSome slot moved := by
  cases layout with
  | none => exact relocateLegacySmall_moved whole ran
  | some layout => exact relocateModernSmall_moved whole ran

/-- The bits of an overflowed slot that hold the pointer to the large header. -/
def PointerBit (layout : Option ModernLayout) (bit : Nat) : Prop :=
  if layout.isSome then bit < 24 ∨ 46 ≤ bit ∧ bit < 54 else bit < 25 ∨ 64 ≤ bit ∧ bit < 89

variable {ptr lh : Nat} {delta : Int}

/-- A legacy pointer that is moved is read back, and the slot keeps its other bits. -/
theorem shiftLegacyLargePointer_back (whole : slot.length = legacyHeaderSize)
    (read : readLegacyLargePointer slot = .ok ptr) (lands : (lh : Int) = ptr + delta)
    (small : lh < 2 ^ 32) (ran : shiftLegacyLargePointer slot delta = .ok moved) :
    moved.length = legacyHeaderSize ∧ readLegacyLargePointer moved = .ok lh ∧
      BitsKept (PointerBit none) (leNat slot) (leNat moved) := by
  obtain ⟨_, ran', written⟩ := shiftLegacyLargePointer_written whole read lands small
  obtain rfl := Outcome.ok.inj (ran.symm.trans ran')
  refine ⟨written.length, ?_, written.others⟩
  have parts : bitField (leNat moved) 0 25 =
      2 ^ 16 * bitField (leNat moved) 16 9 + bitField (leNat moved) 0 16 :=
    bitField_split (leNat moved) 0 16 9
  have bounded := bitField_lt (leNat moved) 0 16
  have low := written.low
  have halves : lh / 2 ^ 16 % 2 ^ 16 = lh / 2 ^ 16 := Nat.mod_eq_of_lt (by omega)
  have value : 2 ^ 16 * (lh / 2 ^ 16) + bitField (leNat moved) 0 16 = lh := by omega
  rw [readLegacyLargePointer_eq written.length, written.high, halves, value]

/-- A modern pointer that is moved is read back, and the slot keeps its other bits. -/
theorem shiftModernLargePointer_back {layout : ModernLayout}
    (whole : slot.length = modernHeaderSize) (read : readModernLargePointer slot = .ok ptr)
    (lands : (lh : Int) = ptr + delta) (small : lh < 2 ^ 32)
    (ran : shiftModernLargePointer slot delta = .ok moved) :
    moved.length = modernHeaderSize ∧ readModernLargePointer moved = .ok lh ∧
      BitsKept (PointerBit (some layout)) (leNat slot) (leNat moved) := by
  obtain ⟨_, ran', written⟩ := shiftModernLargePointer_written whole read lands small
  obtain rfl := Outcome.ok.inj (ran.symm.trans ran')
  refine ⟨written.length, ?_, written.others⟩
  rw [readModernLargePointer_eq layout written.length, followedModern_eq, written.high,
    written.low, Nat.div_add_mod]

/-- A pointer that is moved is read back, and the slot keeps its other bits. -/
theorem shiftLargePointer_back (whole : slot.length = slotSize layout)
    (read : readLargePointer layout slot = .ok ptr) (lands : (lh : Int) = ptr + delta)
    (small : lh < 2 ^ 32) (ran : shiftLargePointer layout slot delta = .ok moved) :
    moved.length = slotSize layout ∧ readLargePointer layout moved = .ok lh ∧
      BitsKept (PointerBit layout) (leNat slot) (leNat moved) := by
  cases layout with
  | none => exact shiftLegacyLargePointer_back whole read lands small ran
  | some layout => exact shiftModernLargePointer_back whole read lands small ran

/-- Where the large header of a slot stands after the splice. -/
def target (r : Reloc) (layout : Option ModernLayout) (slot : Bytes) : Option Nat :=
  match readLargePointer layout slot with
  | .ok ptr =>
      match r.shifted ptr 32 "large header pointer" with
      | .ok lh => some lh
      | _ => none
  | _ => none

/-- The pointer of an overflowed slot and the offsets of its large header moved, and the other
bits of the slot are as they were. -/
structure LargeMoved (r : Reloc) (layout : Option ModernLayout) (lh : Nat)
    (slot moved large after : Bytes) : Prop where
  pointer : ∃ ptr, readLargePointer layout slot = .ok ptr ∧
    readLargePointer layout moved = .ok lh ∧ r.Moved ptr lh
  body : ∃ old new, u32At large 0 = some old ∧ u32At after 0 = some new ∧ r.Moved old new
  info : layout = none → ∃ old new, u32At large 16 = some old ∧ u32At after 16 = some new ∧
    r.MovedUnless (old = 0) old new
  others : BitsKept (PointerBit layout) (leNat slot) (leNat moved)

/-- A number in a slice is the number at its place. -/
theorem u32At_slice {bytes part : Bytes} {start count offset : Nat}
    (taken : slice bytes start count = some part) (inside : offset + 4 ≤ count) :
    u32At part offset = u32At bytes (start + offset) := by
  have length := slice_length taken
  obtain ⟨fits, -⟩ := slice_eq_some.mp taken
  have same : slice part offset 4 = slice bytes (start + offset) 4 := by
    refine slice_congr (by omega) (by omega) fun index bounded => ?_
    rw [slice_getElem? taken (by omega), add_assoc]
  rw [u32At, u32At, same]

theorem largeSizeOf_pos (layout : Option ModernLayout) : 20 ≤ largeSizeOf layout := by
  cases layout with
  | none => decide
  | some layout =>
    unfold largeSizeOf ModernLayout.largeSize modernLargeU8Tail
    simp only [Option.map_some, Option.getD_some]
    split <;> decide

/-- What moving the pointer in a slot does. -/
theorem movePointer_moved {buf after bytes : Bytes} {slot ptr lh : Nat}
    (taken : slice buf slot (slotSize layout) = some bytes)
    (read : readLargePointer layout bytes = .ok ptr)
    (shifting : r.shifted ptr 32 "large header pointer" = .ok lh) (small : ptr < 2 ^ 32)
    (ran : r.movePointer layout buf slot ptr lh = .ok after) :
    ∃ moved, slice after slot (slotSize layout) = some moved ∧
      readLargePointer layout moved = .ok lh ∧
        BitsKept (PointerBit layout) (leNat bytes) (leNat moved) ∧
          Unchanged buf after fun index => slot ≤ index ∧ index < slot + slotSize layout := by
  unfold movePointer at ran
  split at ran
  next same =>
    cases ran
    exact ⟨bytes, taken, same ▸ read, .refl _ _, .refl _ _⟩
  next moves =>
    obtain ⟨slotBytes, found, ran⟩ := bind_eq_ok.mp ran
    obtain ⟨moved, shifted, written⟩ := bind_eq_ok.mp ran
    obtain rfl := Option.some.inj ((unwrap_eq_ok.mp found).symm.trans taken)
    have past : r.movedFrom ≤ ptr := by
      by_contra before
      exact moves ((moved_of_shifted shifting).1 (by omega))
    obtain ⟨length, back, kept⟩ := shiftLargePointer_back (slice_length taken) read
      ((moved_of_shifted shifting).2 past) (shifted_lt small shifting) shifted
    have touched := Buffer.write_unchanged written
    obtain ⟨inside, rfl⟩ := Buffer.write_eq_ok.mp written
    rw [length] at touched
    have read := slice_overwrite_self inside
    rw [length] at read
    exact ⟨moved, read, back, kept, touched⟩

/-- A pointer has 32 bits. -/
theorem readLargePointer_lt {slot : Bytes} {ptr : Nat} (whole : slot.length = slotSize layout)
    (read : readLargePointer layout slot = .ok ptr) : ptr < 2 ^ 32 := by
  cases layout with
  | none =>
    have same := (readLegacyLargePointer_eq whole).symm.trans read
    have high : bitField (leNat slot) 64 25 % 2 ^ 16 < 2 ^ 16 := Nat.mod_lt _ (by decide)
    have low := bitField_lt (leNat slot) 0 16
    have value := Outcome.ok.inj same
    omega
  | some layout =>
    have same := (readModernLargePointer_eq layout whole).symm.trans read
    rw [followedModern_eq] at same
    have high := bitField_lt (leNat slot) 46 8
    have low := bitField_lt (leNat slot) 0 24
    have value := Outcome.ok.inj same
    omega

variable {buf after : Bytes}

/-- What moving the info offset of a large header does. -/
theorem shiftStoredInfo_moved {lh : Nat} (ran : r.shiftStoredInfo layout buf lh = .ok after) :
    (Unchanged buf after fun index => lh + 16 ≤ index ∧ index < lh + 20) ∧
      (layout = none → ∃ old new, u32At buf (lh + 16) = some old ∧
        u32At after (lh + 16) = some new ∧ r.MovedUnless (old = 0) old new) := by
  cases layout with
  | some layout =>
    cases ran
    exact ⟨.refl _ _, fun legacy => by simp at legacy⟩
  | none =>
    obtain ⟨info, read, ran⟩ := bind_eq_ok.mp ran
    have old := unwrap_eq_ok.mp read
    split at ran
    next absent =>
      cases ran
      exact ⟨.refl _ _, fun _ => ⟨info, info, old, old, fun _ => rfl, fun there => absurd absent there⟩⟩
    next present =>
      obtain ⟨new, shifting, written⟩ := bind_eq_ok.mp ran
      have small := shifted_lt (u32At_lt old) shifting
      have reads := Buffer.writeU32_reads written
      rw [Nat.mod_eq_of_lt small] at reads
      exact ⟨Buffer.writeU32_unchanged written, fun _ => ⟨info, new, old, reads,
        fun absent => absurd absent present, fun _ => moved_of_shifted shifting⟩⟩

/-- Where a large header has its size, apart from its offsets. -/
theorem resizeLarge_unchanged {lh : Nat} (ran : resizeLarge layout buf lh newSize = .ok after) :
    Unchanged buf after fun index => lh + 8 ≤ index ∧ index < lh + 16 := by
  unfold resizeLarge at ran
  split at ran
  · refine (Buffer.writeU32_unchanged ran).mono fun index hit => ?_
    unfold largeSizePos modernLargeBytecodeSize at hit
    split at hit <;> omega
  · cases ran
    exact .refl _ _

/-- What relocating an overflowed function does, when its large header is behind its slot. -/
theorem relocateOverflowed_moved {slot : Nat}
    (behind : ∀ bytes lh, slice buf slot (slotSize layout) = some bytes →
      r.target layout bytes = some lh → slot + slotSize layout ≤ lh)
    (ran : r.relocateOverflowed layout newSize buf slot = .ok after) :
    ∃ bytes moved lh large largeAfter, slice buf slot (slotSize layout) = some bytes ∧
      slice after slot (slotSize layout) = some moved ∧ r.target layout bytes = some lh ∧
        slice buf lh (largeSizeOf layout) = some large ∧
          slice after lh (largeSizeOf layout) = some largeAfter ∧
            r.LargeMoved layout lh bytes moved large largeAfter ∧
              Unchanged buf after fun index => slot ≤ index ∧ index < slot + slotSize layout ∨
                lh ≤ index ∧ index < lh + largeSizeOf layout := by
  simp only [relocateOverflowed, bind_eq_ok, ensure_eq_ok] at ran
  obtain ⟨bytes, taken, ptr, read, lh, shifting, pointed, pointing, _, fits, body, readBody, newBody,
    shiftingBody, withBody, wroteBody, withInfo, wroteInfo, resized⟩ := ran
  have taken := unwrap_eq_ok.mp taken
  have whole := slice_length taken
  have aimed : r.target layout bytes = some lh := by
    unfold target
    rw [read]
    dsimp only
    rw [shifting]
  have apart := behind bytes lh taken aimed
  obtain ⟨moved, movedAt, back, kept, pointedKept⟩ :=
    movePointer_moved taken read shifting (readLargePointer_lt whole read) pointing
  have positive := largeSizeOf_pos layout
  have bodyAt := unwrap_eq_ok.mp readBody
  have bodyKept := Buffer.writeU32_unchanged wroteBody
  have bodyReads := Buffer.writeU32_reads wroteBody
  obtain ⟨infoKept, info⟩ := shiftStoredInfo_moved wroteInfo
  have sizeKept := resizeLarge_unchanged resized
  rw [pointedKept.length] at fits
  have all : Unchanged buf after fun index => slot ≤ index ∧ index < slot + slotSize layout ∨
      lh ≤ index ∧ index < lh + largeSizeOf layout :=
    (pointedKept.mono fun index hit => .inl hit).trans
      ((bodyKept.mono fun index hit => .inr (by omega)).trans
        ((infoKept.mono fun index hit => .inr (by omega)).trans
          (sizeKept.mono fun index hit => .inr (by omega))))
  have large : slice buf lh (largeSizeOf layout) =
      some ((buf.drop lh).take (largeSizeOf layout)) := slice_eq_some.mpr ⟨fits, rfl⟩
  have largeAfter : slice after lh (largeSizeOf layout) =
      some ((after.drop lh).take (largeSizeOf layout)) :=
    slice_eq_some.mpr ⟨by rwa [all.length], rfl⟩
  refine ⟨bytes, moved, lh, _, _, taken, ?_, aimed, large, largeAfter, ⟨?_, ?_, ?_, kept⟩, all⟩
  · rw [sizeKept.slice_eq fun index low high hit => by omega,
      infoKept.slice_eq fun index low high hit => by omega,
      bodyKept.slice_eq fun index low high hit => by omega]
    exact movedAt
  · exact ⟨ptr, read, back, moved_of_shifted shifting⟩
  · refine ⟨body, newBody, ?_, ?_, moved_of_shifted shiftingBody⟩
    · rw [u32At_slice large (by omega), add_zero,
        ← pointedKept.u32At_eq fun index low high hit => by omega]
      exact bodyAt
    · rw [u32At_slice largeAfter (by omega), add_zero,
        sizeKept.u32At_eq fun index low high hit => by omega,
        infoKept.u32At_eq fun index low high hit => by omega, bodyReads,
        Nat.mod_eq_of_lt (shifted_lt (u32At_lt bodyAt) shiftingBody)]
  · intro legacy
    obtain ⟨old, new, oldAt, newAt, moves⟩ := info legacy
    refine ⟨old, new, ?_, ?_, moves⟩
    · rw [u32At_slice large (by omega), ← pointedKept.u32At_eq fun index low high hit => by omega,
        ← bodyKept.u32At_eq fun index low high hit => by omega]
      exact oldAt
    · rw [u32At_slice largeAfter (by omega), sizeKept.u32At_eq fun index low high hit => by omega]
      exact newAt

end HermesDecomp.Reloc
