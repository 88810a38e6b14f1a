import HermesDecomp.File.Arrivals
import HermesDecomp.Write.LargePointers
import HermesDecomp.Write.Create

/-!
# The one function of a created image

The fields of a legacy slot are masked and put side by side; each is read back modulo its width.
A modern slot only holds the place of its large header, which is read instead.
-/

namespace HermesDecomp

open Outcome Bytes

namespace Parser

theorem bitField_or (left right start width : Nat) :
    bitField (left ||| right) start width = bitField left start width ||| bitField right start width := by
  unfold bitField
  rw [Nat.shiftRight_or_distrib, Nat.and_or_distrib_right]

/-- A masked value is read back where it was put. -/
theorem bitField_masked (value start width : Nat) :
    bitField ((value &&& (2 ^ width - 1)) <<< start) start width = value % 2 ^ width := by
  unfold bitField
  rw [Nat.shiftLeft_shiftRight, Nat.and_two_pow_sub_one_eq_mod, Nat.and_two_pow_sub_one_eq_mod,
    Nat.mod_mod]

/-- It leaves the bits on either side alone. -/
theorem bitField_masked_apart (value lo bits start width : Nat)
    (apart : lo + bits ≤ start ∨ start + width ≤ lo) :
    bitField ((value &&& (2 ^ bits - 1)) <<< lo) start width = 0 := by
  have small : value &&& (2 ^ bits - 1) < 2 ^ bits := Nat.and_lt_two_pow _ (by
    exact Nat.sub_lt (Nat.two_pow_pos bits) Nat.zero_lt_one)
  refine Nat.eq_of_testBit_eq fun index => ?_
  rw [bitField, Nat.testBit_and, Nat.testBit_shiftRight, Nat.testBit_shiftLeft,
    Nat.zero_testBit, Nat.testBit_two_pow_sub_one]
  rcases apart with low | high
  · by_cases inside : start + index - lo < bits
    · omega
    · rw [Nat.testBit_lt_two_pow (lt_of_lt_of_le small
        (Nat.pow_le_pow_right (by decide) (Nat.le_of_not_lt inside)))]
      simp
  · by_cases within : index < width
    · simp [within]
      omega
    · simp [within]

end Parser

namespace HeaderWrite

open HermesDecomp.Parser

/-- Each field of a legacy slot is read back modulo its width. -/
theorem legacyInline_written (functionId offset paramCount bytecodeSize functionName infoOffset
    frameSize environmentSize highestReadCache highestWriteCache flags : Nat) :
    legacyInline functionId (Bytes.leNat (writeFunctionHeaderLegacySmall offset paramCount
      bytecodeSize functionName infoOffset frameSize environmentSize highestReadCache
      highestWriteCache flags)) =
    { functionId, offset := offset % 2 ^ 25, paramCount := paramCount % 2 ^ 7,
      bytecodeSizeInBytes := bytecodeSize % 2 ^ 15, functionName := functionName % 2 ^ 17,
      infoOffset := infoOffset % 2 ^ 25, frameSize := frameSize % 2 ^ 7,
      environmentSize := environmentSize % 2 ^ 8,
      highestReadCacheIndex := highestReadCache % 2 ^ 8,
      highestWriteCacheIndex := highestWriteCache % 2 ^ 8, flags := flags % 2 ^ 8 } := by
  have masked : ∀ value bits lo : Nat, lo + bits ≤ 128 →
      (value &&& (2 ^ bits - 1)) <<< lo < 2 ^ 128 := by
    intro value bits lo fits
    have small : value &&& (2 ^ bits - 1) < 2 ^ bits :=
      Nat.and_lt_two_pow _ (Nat.sub_lt (Nat.two_pow_pos bits) Nat.zero_lt_one)
    rw [Nat.shiftLeft_eq]
    refine lt_of_lt_of_le (Nat.mul_lt_mul_of_pos_right small (Nat.two_pow_pos lo)) ?_
    rw [← pow_add, add_comm]
    exact Nat.pow_le_pow_right (by decide) fits
  unfold writeFunctionHeaderLegacySmall
  rw [leNat_leBytes_of_lt]
  · unfold legacyInline
    simp only [bitField_or]
    simp (disch := omega) only [bitField_masked, bitField_masked_apart, Nat.zero_or, Nat.or_zero]
  · have size : 256 ^ 16 = 2 ^ 128 := by decide
    rw [size]
    repeat refine Nat.or_lt_two_pow ?_ (masked _ _ _ (by decide))
    exact masked _ _ _ (by decide)

end HeaderWrite

namespace Create

open Reader HeaderWrite HermesDecomp.Parser

/-- A legacy function is read from its slot when that is not overflowed. -/
theorem arrives_legacyFunction {data slot : Bytes} {start functionId : Nat}
    (taken : Bytes.slice data start legacyHeaderSize = some slot)
    (inline : hasFlag (legacyInline functionId (Bytes.leNat slot)).flags flagOverflowed = false) :
    Arrives data start (parseLegacyFunction functionId)
      (· = .legacy (legacyInline functionId (Bytes.leNat slot))) (start + legacyHeaderSize) := by
  refine arrives_bind arrives_position fun _ _ => ?_
  refine arrives_bind (arrives_readBytes taken) ?_
  rintro _ rfl
  dsimp only
  rw [if_neg (by rw [inline]; exact Bool.false_ne_true)]
  exact arrives_pure rfl

/-- A modern function is read from the large header that its slot points at. -/
theorem arrives_modernFunction {data slot raw : Bytes} {start functionId : Nat}
    {layout : ModernLayout} {large : ModernFunctionHeader} (small : data.length < 2 ^ 32)
    (taken : Bytes.slice data start modernHeaderSize = some slot) (overflowed : OverflowedModern slot)
    (pointed : Bytes.slice data (followedModern layout slot) layout.largeSize = some raw)
    (found : modernLarge layout (followedModern layout slot) functionId raw = .ok large) :
    Arrives data start (parseModernFunction layout functionId) (· = .modern large)
      (start + modernHeaderSize) := by
  have inside := (slice_eq_some.mp taken).1
  have there := (slice_eq_some.mp pointed).1
  have flagged : hasFlag (modernInline layout functionId (Bytes.leNat slot)).flags flagOverflowed =
      true := overflowed
  have read : Arrives data (start + modernHeaderSize) (parseLargeHeaderModern layout
      (modernLargeOffsetOf (modernInline layout functionId (Bytes.leNat slot))) functionId)
      (· = large) (start + modernHeaderSize) := by
    refine arrives_bind arrives_position ?_
    rintro _ rfl
    refine arrives_bind (arrives_seek ((Nat.le_add_right _ _).trans there)) fun _ _ => ?_
    refine arrives_bind (arrives_readBytes pointed) ?_
    rintro _ rfl
    refine arrives_bind (arrives_lift found) ?_
    rintro _ rfl
    refine arrives_bind (arrives_seek inside) fun _ _ => ?_
    exact arrives_pure rfl
  refine arrives_bind arrives_position ?_
  rintro here rfl
  refine arrives_bind (arrives_readBytes taken) ?_
  rintro _ rfl
  dsimp only
  rw [if_pos flagged]
  refine arrives_bind read ?_
  rintro _ rfl
  have past : (Outcome.checked (here + modernHeaderSize < 2 ^ 64) (here + modernHeaderSize) :
      Result Nat) = .ok (here + modernHeaderSize) :=
    checked_eq_ok.mpr ⟨by omega, rfl⟩
  have moved : Arrives data (here + modernHeaderSize) (seekPast here modernHeaderSize)
      (fun _ => True) (here + modernHeaderSize) := by
    refine arrives_bind (arrives_lift past) ?_
    rintro _ rfl
    exact arrives_seek inside
  refine arrives_bind moved fun _ _ => ?_
  exact arrives_pure rfl

theorem leBytes_take {count width : Nat} (value : Nat) (fits : count ≤ width) :
    (Bytes.leBytes width value).take count = Bytes.leBytes count value := by
  induction count generalizing width value with
  | zero => rfl
  | succ count ih =>
    cases width with
    | zero => exact absurd fits (Nat.not_succ_le_zero count)
    | succ width =>
      rw [Bytes.leBytes, List.take_succ_cons, ih _ (Nat.le_of_succ_le_succ fits), Bytes.leBytes]

/-- The slot of a created modern function points at its large header. -/
theorem overflowedSlot_points (layout : ModernLayout) {pos : Nat} (small : pos < 2 ^ 32) :
    (overflowedSlot pos).length = modernHeaderSize ∧ OverflowedModern (overflowedSlot pos) ∧
      followedModern layout (overflowedSlot pos) = pos := by
  have top : pos >>> 24 < 2 ^ 8 := by
    rw [Nat.shiftRight_eq_div_pow]
    omega
  have high : pos >>> 24 = pos >>> 24 &&& (2 ^ 8 - 1) := by
    rw [Nat.and_two_pow_sub_one_eq_mod, Nat.mod_eq_of_lt top]
  have flag : flagOverflowed = flagOverflowed &&& (2 ^ 8 - 1) := rfl
  obtain ⟨raw, rawEq⟩ : ∃ raw, raw = (pos &&& (2 ^ 24 - 1)) <<< 0 |||
      (pos >>> 24 &&& (2 ^ 8 - 1)) <<< 46 ||| (flagOverflowed &&& (2 ^ 8 - 1)) <<< 88 := ⟨_, rfl⟩
  have slot : overflowedSlot pos = Bytes.leBytes 12 raw := by
    rw [rawEq, ← high, ← flag, overflowedSlot, leBytes_take _ (by decide)]
  have word : raw < 2 ^ 96 := by
    have low : (pos &&& (2 ^ 24 - 1)) <<< 0 < 2 ^ 96 := by
      rw [Nat.and_two_pow_sub_one_eq_mod, Nat.shiftLeft_zero]
      omega
    have middle : (pos >>> 24 &&& (2 ^ 8 - 1)) <<< 46 < 2 ^ 96 := by
      rw [← high, Nat.shiftLeft_eq]
      omega
    rw [rawEq]
    exact Nat.or_lt_two_pow (Nat.or_lt_two_pow low middle) (by decide)
  have back : Bytes.leNat (Bytes.leBytes 12 raw) = raw := leNat_leBytes_word word
  have lowBits : bitField raw 0 24 = pos % 2 ^ 24 := by
    rw [rawEq, bitField_or, bitField_or, bitField_masked,
      bitField_masked_apart _ _ _ _ _ (by decide), bitField_masked_apart _ _ _ _ _ (by decide),
      Nat.or_zero, Nat.or_zero]
  have highBits : bitField raw 46 8 = pos >>> 24 := by
    rw [rawEq, bitField_or, bitField_or, bitField_masked,
      bitField_masked_apart _ _ _ _ _ (by decide), bitField_masked_apart _ _ _ _ _ (by decide),
      Nat.or_zero, Nat.zero_or, Nat.mod_eq_of_lt top]
  have flagBits : bitField raw 88 8 = flagOverflowed := by
    rw [rawEq, bitField_or, bitField_or, bitField_masked,
      bitField_masked_apart _ _ _ _ _ (by decide), bitField_masked_apart _ _ _ _ _ (by decide),
      Nat.zero_or, Nat.zero_or]
    rfl
  rw [slot]
  refine ⟨leBytes_length _ _, ?_, ?_⟩
  · rw [OverflowedModern, back, flagBits]
    rfl
  · rw [followedModern_eq, back, highBits, lowBits, Nat.shiftRight_eq_div_pow, Nat.div_add_mod]

/-- The eight 32-bit fields of the large header of a created function. -/
def largeFields (instructionOffset bodySize : Nat) : Bytes :=
  Bytes.leBytes 4 instructionOffset ++ ([1, 0, 0, 0, 0, 0, 0, 0] ++ (Bytes.leBytes 4 bodySize ++
    [0, 0, 0, 0, 0, 0, 0, 0, 1, 0, 0, 0, 1, 0, 0, 0]))

theorem largeFields_length (instructionOffset bodySize : Nat) :
    (largeFields instructionOffset bodySize).length = 32 := by
  simp [largeFields, leBytes_length]

/-- A large header is its fields and a few bytes that end in the flags. -/
theorem largeHeader_eq {version : Nat} {layout : ModernLayout}
    (known : ModernLayout.forVersion version = .ok layout) (instructionOffset bodySize : Nat) :
    ∃ tail : Bytes, largeHeader layout instructionOffset bodySize =
        largeFields instructionOffset bodySize ++ tail ∧ tail.length + 32 = layout.largeSize ∧
      tail[layout.largeFlagsPos - 32]? = some (UInt8.ofNat prohibitNone) := by
  rcases ModernLayout.forVersion_eq_ok known with ⟨rfl, -⟩ | ⟨rfl, -⟩
  on_goal 1 => refine ⟨[0, 0, 0, 0, 2], ?_, rfl, rfl⟩
  on_goal 2 => refine ⟨[0, 0, 0, 2], ?_, rfl, rfl⟩
  all_goals
    simp [largeHeader, largeFields, Bytes.overwrite, ModernLayout.largeSize,
      ModernLayout.largeFlagsPos, modernLargeU8Tail, modernLargeOffset, modernLargeParamCount,
      modernLargeLoopDepth, modernLargeBytecodeSize, modernLargeFunctionName,
      modernLargeNumberRegCount, modernLargeNonPtrRegCount, modernLargeFrameSize, Bytes.leBytes,
      prohibitNone, List.replicate]

theorem largeU8_eq_ok {raw : Bytes} {pos : Nat} (inside : pos < raw.length) :
    ∃ value, largeU8 raw pos = .ok value := by
  refine ⟨raw[pos].toNat, map_eq_ok.mpr ⟨raw[pos], ?_, rfl⟩⟩
  exact index_eq_ok.mpr (List.getElem?_eq_getElem inside)

/-- The large header of a created function says where its body is. -/
theorem modernLarge_largeHeader {version : Nat} {layout : ModernLayout}
    (known : ModernLayout.forVersion version = .ok layout) {pos instructionOffset bodySize : Nat}
    (place : pos < 2 ^ 32) (start : instructionOffset < 2 ^ 32) (size : bodySize < 2 ^ 32) :
    (largeHeader layout instructionOffset bodySize).length = layout.largeSize ∧
      ∃ large, modernLarge layout pos 0 (largeHeader layout instructionOffset bodySize) = .ok large ∧
        large.offset = instructionOffset ∧ large.bytecodeSizeInBytes = bodySize ∧
        large.flags = prohibitNone ||| flagOverflowed := by
  obtain ⟨tail, shape, sized, flags⟩ := largeHeader_eq known instructionOffset bodySize
  have fields := largeFields_length instructionOffset bodySize
  have whole : (largeHeader layout instructionOffset bodySize).length = layout.largeSize := by
    rw [shape, List.length_append, fields, add_comm, sized]
  refine ⟨whole, ?_⟩
  obtain ⟨readCache, writeCache, newObject, privateName, flagsInside⟩ := layout.tail_inside
  have kept : ∀ field value, Bytes.u32At (largeFields instructionOffset bodySize) field = some value →
      largeU32 (largeHeader layout instructionOffset bodySize) field = .ok value := by
    intro field value found
    obtain ⟨part, taken, rfl⟩ := Option.map_eq_some_iff.mp found
    refine unwrap_eq_ok.mpr ?_
    rw [shape, Bytes.u32At, slice_of_prefix (List.prefix_append _ tail) taken, Option.map_some]
  have first : Bytes.u32At (largeFields instructionOffset bodySize) modernLargeOffset =
      some instructionOffset := by
    have taken := @slice_between [] (Bytes.leBytes 4 instructionOffset)
      ([1, 0, 0, 0, 0, 0, 0, 0] ++ (Bytes.leBytes 4 bodySize ++
        [0, 0, 0, 0, 0, 0, 0, 0, 1, 0, 0, 0, 1, 0, 0, 0]))
    rw [leBytes_length, List.nil_append] at taken
    exact (congrArg (Option.map Bytes.leNat) taken).trans
      (congrArg some (leNat_leBytes_of_lt start))
  have fourth : Bytes.u32At (largeFields instructionOffset bodySize) modernLargeBytecodeSize =
      some bodySize := by
    have taken := @slice_between (Bytes.leBytes 4 instructionOffset ++ [1, 0, 0, 0, 0, 0, 0, 0])
      (Bytes.leBytes 4 bodySize) [0, 0, 0, 0, 0, 0, 0, 0, 1, 0, 0, 0, 1, 0, 0, 0]
    rw [leBytes_length, List.length_append, leBytes_length, List.append_assoc] at taken
    exact (congrArg (Option.map Bytes.leNat) taken).trans (congrArg some (leNat_leBytes_of_lt size))
  obtain ⟨readCacheSize, tail1⟩ := @largeU8_eq_ok (largeHeader layout instructionOffset bodySize)
    layout.largeReadCacheSizePos (by rwa [whole])
  obtain ⟨writeCacheSize, tail2⟩ := @largeU8_eq_ok (largeHeader layout instructionOffset bodySize)
    layout.largeWriteCacheSizePos (by rwa [whole])
  obtain ⟨privateNameCacheSize, tail4⟩ := @largeU8_eq_ok
    (largeHeader layout instructionOffset bodySize) layout.largePrivateNameCacheSizePos
    (by rwa [whole])
  obtain ⟨numCacheNewObject, tail3⟩ : ∃ value, largeU8When
      (largeHeader layout instructionOffset bodySize) layout.largeNumCacheNewObjectPos = .ok value := by
    cases found : layout.largeNumCacheNewObjectPos with
    | none => exact ⟨0, rfl⟩
    | some pos => exact largeU8_eq_ok (by rw [whole]; exact newObject pos found)
  have tail5 : largeU8 (largeHeader layout instructionOffset bodySize) layout.largeFlagsPos =
      .ok prohibitNone := by
    have behind : 32 ≤ layout.largeFlagsPos := by
      have bounds := layout.largeSize_bounds
      unfold ModernLayout.largeFlagsPos
      omega
    refine map_eq_ok.mpr ⟨UInt8.ofNat prohibitNone, index_eq_ok.mpr ?_, rfl⟩
    rw [shape, List.getElem?_append_right (by rw [fields]; exact behind), fields, flags]
  have bounds := layout.largeSize_bounds
  have info : layout.infoOffsetFor pos = .ok ((pos + layout.largeSize + 3) / 4 * 4) :=
    checked_eq_ok.mpr ⟨by omega, rfl⟩
  unfold modernLarge
  rw [kept _ _ first, ok_bind, kept modernLargeParamCount 1 rfl, ok_bind,
    kept modernLargeLoopDepth 0 rfl, ok_bind, kept _ _ fourth, ok_bind,
    kept modernLargeFunctionName 0 rfl, ok_bind, kept modernLargeNumberRegCount 0 rfl, ok_bind,
    kept modernLargeNonPtrRegCount 1 rfl, ok_bind, kept modernLargeFrameSize 1 rfl, ok_bind, tail1,
    ok_bind, tail2, ok_bind, tail3, ok_bind, tail4, ok_bind, tail5, ok_bind, info, ok_bind]
  exact ⟨_, rfl, rfl, rfl, rfl⟩

end Create

end HermesDecomp
