import HermesDecomp.Write.Encode

/-!
# The values an encoding keeps

What is read back stands for the same number exactly when the number is one that the kind of the
operand holds: a wider value is refused for an unsigned operand, but a signed operand takes the
bits of a large unsigned value and reads them back as a negative number.
-/

namespace HermesDecomp

open ByteReader (between)

/-- What a value stands for: a whole number, or a double by its bits. -/
inductive Quantity where
  | number (value : Int)
  | double (bits : UInt64)
deriving DecidableEq

/-- What the value of an operand stands for. -/
def OperandValue.quantity : OperandValue → Quantity
  | .u8 value => .number value.toNat
  | .u16 value => .number value.toNat
  | .u32 value => .number value.toNat
  | .i8 value => .number value.toInt
  | .i32 value => .number value.toInt
  | .f64 bits => .double bits

/-- The quantities an operand of a kind can be. -/
def OperandType.Holds : OperandType → Quantity → Prop
  | .reg8, .number value | .uint8, .number value | .uint8S, .number value =>
      0 ≤ value ∧ value < 2 ^ 8
  | .uint16, .number value | .uint16S, .number value => 0 ≤ value ∧ value < 2 ^ 16
  | .reg32, .number value | .uint32, .number value | .uint32S, .number value =>
      0 ≤ value ∧ value < 2 ^ 32
  | .addr8, .number value => -2 ^ 7 ≤ value ∧ value < 2 ^ 7
  | .addr32, .number value | .imm32, .number value => -2 ^ 31 ≤ value ∧ value < 2 ^ 31
  | .double, .double _ => True
  | _, _ => False

/-- The kinds of the operands of an opcode. -/
def BytecodeFormat.operandTypes (format : BytecodeFormat) (opcode : UInt8) : List OperandType :=
  ((format.definition? opcode).map InstructionDef.operandTypes).getD []

/-- Every operand is read back as what was written exactly where its kind holds that. -/
def ExactWhereHeld (written : List Operand) (types : List OperandType) (decoded : List Operand) :
    Prop :=
  List.Forall₂ (fun pair result =>
    result.value.quantity = pair.1.value.quantity ↔ pair.2.Holds pair.1.value.quantity)
    (written.zip types) decoded

variable {ty : OperandType} {value : OperandValue}

/-- A value that fits is held by the kind of its operand. -/
theorem Fits.holds (fits : Fits ty value) : ty.Holds value.quantity := by
  cases ty <;> cases value <;> try exact fits.elim
  case reg8.u8 value | uint8.u8 value | uint8S.u8 value =>
    exact ⟨Int.natCast_nonneg _, by exact_mod_cast value.toNat_lt⟩
  case uint16.u16 value | uint16S.u16 value =>
    exact ⟨Int.natCast_nonneg _, by exact_mod_cast value.toNat_lt⟩
  case reg32.u32 value | uint32.u32 value | uint32S.u32 value =>
    exact ⟨Int.natCast_nonneg _, by exact_mod_cast value.toNat_lt⟩
  case addr8.i8 value => exact ⟨value.le_toInt, value.toInt_lt⟩
  case addr32.i32 value | imm32.i32 value => exact ⟨value.le_toInt, value.toInt_lt⟩
  case double.f64 bits => trivial

/-- Bytes are those of a value of the kind, which stands for what was written exactly when
the kind holds that. -/
def Settles (ty : OperandType) (value : OperandValue) (bytes : Bytes) : Prop :=
  ∃ settled, Fits ty settled ∧ writeOperand ty settled = .ok bytes ∧
    (settled.quantity = value.quantity ↔ ty.Holds value.quantity)

variable {bytes : Bytes}

/-- A value of the kind that stands for the same settles what was written. -/
theorem settles_of_same (settled : OperandValue) (fits : Fits ty settled)
    (written : writeOperand ty settled = .ok bytes) (same : settled.quantity = value.quantity)
    : Settles ty value bytes:= by
  refine ⟨settled, fits, written, fun _ => ?_, fun _ => same⟩
  rw [← same]
  exact fits.holds

/-- A byte read as a signed number stands for the same exactly below half its range. -/
theorem toInt8_toInt_eq (value : UInt8) :
    value.toInt8.toInt = value.toNat ↔ -2 ^ 7 ≤ (value.toNat : Int) ∧ (value.toNat : Int) < 2 ^ 7 := by
  have range := value.toNat_lt
  have read : value.toInt8.toInt = (value.toNat : Int).bmod (2 ^ 8) := by
    rw [← Int8.toInt_toBitVec, UInt8.toBitVec_toInt8, BitVec.toInt_eq_toNat_bmod]
    rfl
  rw [read, Int.bmod_def]
  omega

/-- A word read as a signed number stands for the same exactly below half its range. -/
theorem toInt32_toInt_eq (value : UInt32) :
    value.toInt32.toInt = value.toNat ↔
      -2 ^ 31 ≤ (value.toNat : Int) ∧ (value.toNat : Int) < 2 ^ 31 := by
  have range := value.toNat_lt
  have read : value.toInt32.toInt = (value.toNat : Int).bmod (2 ^ 32) := by
    rw [← Int32.toInt_toBitVec, UInt32.toBitVec_toInt32, BitVec.toInt_eq_toNat_bmod]
    rfl
  rw [read, Int.bmod_def]
  omega

theorem toInt32_ofNat_toInt {number : Nat} (small : number < 2 ^ 31) :
    (UInt32.ofNat number).toInt32.toInt = number := by
  have bits : (UInt32.ofNat number).toNat = number :=
    UInt32.toNat_ofNat_of_lt' (lt_trans small (by decide))
  have same := (toInt32_toInt_eq (UInt32.ofNat number)).mpr
  rw [bits] at same
  exact same ⟨by omega, by exact_mod_cast small⟩

/-- What is written as a byte settles. -/
theorem settles_byte (kind : ty = .reg8 ∨ ty = .uint8 ∨ ty = .uint8S)
    (written : writeOperand ty value = .ok bytes) : Settles ty value bytes := by
  have kept : ∀ number : Nat, number ≤ 255 → value.quantity = .number number →
      bytes = [UInt8.ofNat number] → Settles ty value bytes := by
    rintro number small stands rfl
    refine settles_of_same (.u8 (UInt8.ofNat number)) ?_ ?_ ?_
    · rcases kind with rfl | rfl | rfl <;> trivial
    · rcases kind with rfl | rfl | rfl <;> rfl
    · rw [stands, OperandValue.quantity, UInt8.toNat_ofNat_of_lt' (Nat.lt_succ_of_le small)]
  cases value with
  | u8 value =>
    refine kept value.toNat (Nat.le_of_lt_succ value.toNat_lt) rfl ?_
    rw [UInt8.ofNat_toNat]
    rcases kind with rfl | rfl | rfl <;> exact (Outcome.ok.inj written).symm
  | u16 value | u32 value =>
    by_cases small : value.toNat ≤ 255
    · refine kept value.toNat small rfl ?_
      rcases kind with rfl | rfl | rfl <;>
        exact (Outcome.ok.inj ((if_pos small).symm.trans written)).symm
    · rcases kind with rfl | rfl | rfl <;> cases (if_neg small).symm.trans written
  | i8 | i32 | f64 => rcases kind with rfl | rfl | rfl <;> cases written

/-- What is written as two bytes settles. -/
theorem settles_short (kind : ty = .uint16 ∨ ty = .uint16S)
    (written : writeOperand ty value = .ok bytes) : Settles ty value bytes := by
  have kept : ∀ short : UInt16, value.quantity = .number short.toNat →
      bytes = Bytes.leBytes 2 short.toNat → Settles ty value bytes := by
    rintro short stands rfl
    refine settles_of_same (.u16 short) ?_ ?_ stands.symm
    · rcases kind with rfl | rfl <;> trivial
    · rcases kind with rfl | rfl <;> rfl
  cases value with
  | u8 value =>
    have same : value.toUInt16.toNat = value.toNat := rfl
    refine kept value.toUInt16 rfl ?_
    rw [same]
    rcases kind with rfl | rfl <;> exact (Outcome.ok.inj written).symm
  | u16 value =>
    refine kept value rfl ?_
    rcases kind with rfl | rfl <;> exact (Outcome.ok.inj written).symm
  | u32 value =>
    by_cases small : value.toNat ≤ 65535
    · have same : (UInt16.ofNat value.toNat).toNat = value.toNat :=
        UInt16.toNat_ofNat_of_lt' (Nat.lt_succ_of_le small)
      refine kept (UInt16.ofNat value.toNat) ?_ ?_
      · rw [same, OperandValue.quantity]
      · rw [same]
        rcases kind with rfl | rfl <;>
          exact (Outcome.ok.inj ((if_pos small).symm.trans written)).symm
    · rcases kind with rfl | rfl <;> cases (if_neg small).symm.trans written
  | i8 | i32 | f64 => rcases kind with rfl | rfl <;> cases written

/-- What is written as an unsigned word settles. -/
theorem settles_word (kind : ty = .reg32 ∨ ty = .uint32 ∨ ty = .uint32S)
    (written : writeOperand ty value = .ok bytes) : Settles ty value bytes := by
  have kept : ∀ word : UInt32, value.quantity = .number word.toNat →
      bytes = Bytes.leBytes 4 word.toNat → Settles ty value bytes := by
    rintro word stands rfl
    refine settles_of_same (.u32 word) ?_ ?_ stands.symm
    · rcases kind with rfl | rfl | rfl <;> trivial
    · rcases kind with rfl | rfl | rfl <;> rfl
  cases value with
  | u8 value | u16 value =>
    have same : value.toUInt32.toNat = value.toNat := rfl
    refine kept value.toUInt32 rfl ?_
    rw [same]
    rcases kind with rfl | rfl | rfl <;> exact (Outcome.ok.inj written).symm
  | u32 value =>
    refine kept value rfl ?_
    rcases kind with rfl | rfl | rfl <;> exact (Outcome.ok.inj written).symm
  | i8 | i32 | f64 => rcases kind with rfl | rfl | rfl <;> cases written

/-- What is written as a signed byte settles. An unsigned byte past half its range does not
stand for the same. -/
theorem settles_signedByte (written : writeOperand .addr8 value = .ok bytes)
    : Settles .addr8 value bytes:= by
  cases value with
  | u8 value =>
    refine ⟨.i8 value.toInt8, trivial, ?_, ?_⟩
    · rw [← Outcome.ok.inj written]
      exact congrArg (fun byte => Outcome.ok [byte]) (UInt8.toUInt8_toInt8 value)
    · rw [OperandValue.quantity, OperandValue.quantity, Quantity.number.injEq]
      exact toInt8_toInt_eq value
  | i8 value => exact settles_of_same (.i8 value) trivial written rfl
  | i32 value =>
    by_cases small : -128 ≤ value.toInt ∧ value.toInt ≤ 127
    · refine settles_of_same (.i8 value.toInt8) trivial ((if_pos small).symm.trans written) ?_
      rw [OperandValue.quantity, OperandValue.quantity, Quantity.number.injEq, Int32.toInt_toInt8]
      rw [Int.bmod_def]
      omega
    · cases (if_neg small).symm.trans written
  | u16 | u32 | f64 => cases written

/-- What is written as a signed word settles. An unsigned word past half its range does not
stand for the same. -/
theorem settles_signedWord (kind : ty = .addr32 ∨ ty = .imm32)
    (written : writeOperand ty value = .ok bytes) : Settles ty value bytes := by
  have kept : ∀ word : Int32, value.quantity = .number word.toInt →
      bytes = Bytes.leBytes 4 word.toUInt32.toNat → Settles ty value bytes := by
    rintro word stands rfl
    refine settles_of_same (.i32 word) ?_ ?_ stands.symm
    · rcases kind with rfl | rfl <;> trivial
    · rcases kind with rfl | rfl <;> rfl
  have small : ∀ number : Nat, number < 2 ^ 31 → value.quantity = .number number →
      bytes = Bytes.leBytes 4 number → Settles ty value bytes := by
    rintro number range stands rfl
    refine kept (UInt32.ofNat number).toInt32 ?_ ?_
    · rw [stands, toInt32_ofNat_toInt range]
    · rw [UInt32.toUInt32_toInt32, UInt32.toNat_ofNat_of_lt' (lt_trans range (by decide))]
  cases value with
  | u8 value | u16 value =>
    refine small value.toNat (lt_trans value.toNat_lt (by decide)) rfl ?_
    rcases kind with rfl | rfl <;> exact (Outcome.ok.inj written).symm
  | u32 value =>
    have front : bytes = Bytes.leBytes 4 value.toInt32.toUInt32.toNat := by
      rw [UInt32.toUInt32_toInt32]
      rcases kind with rfl | rfl <;> exact (Outcome.ok.inj written).symm
    refine ⟨.i32 value.toInt32, ?_, ?_, ?_⟩
    · rcases kind with rfl | rfl <;> trivial
    · rw [front]
      rcases kind with rfl | rfl <;> rfl
    · rw [OperandValue.quantity, OperandValue.quantity, Quantity.number.injEq]
      rcases kind with rfl | rfl <;> exact toInt32_toInt_eq value
  | i8 value =>
    refine kept value.toInt32 ?_ ?_
    · rw [OperandValue.quantity, Int8.toInt_toInt32]
    · rcases kind with rfl | rfl <;> exact (Outcome.ok.inj written).symm
  | i32 value =>
    refine kept value rfl ?_
    rcases kind with rfl | rfl <;> exact (Outcome.ok.inj written).symm
  | f64 => rcases kind with rfl | rfl <;> cases written

/-- What is written for an operand is read back as a value of its kind, which stands for
what was written exactly when the kind holds that. -/
theorem writeOperand_settles (written : writeOperand ty value = .ok bytes)
    : Settles ty value bytes:= by
  cases ty
  case reg8 => exact settles_byte (.inl rfl) written
  case uint8 => exact settles_byte (.inr (.inl rfl)) written
  case uint8S => exact settles_byte (.inr (.inr rfl)) written
  case uint16 => exact settles_short (.inl rfl) written
  case uint16S => exact settles_short (.inr rfl) written
  case reg32 => exact settles_word (.inl rfl) written
  case uint32 => exact settles_word (.inr (.inl rfl)) written
  case uint32S => exact settles_word (.inr (.inr rfl)) written
  case addr8 => exact settles_signedByte written
  case addr32 => exact settles_signedWord (.inl rfl) written
  case imm32 => exact settles_signedWord (.inr rfl) written
  case double =>
    cases value with
    | f64 bits => exact settles_of_same (.f64 bits) trivial written rfl
    | u8 | u16 | u32 | i8 | i32 => cases written

/-- What is written for operands is what is written for operands of the kinds. -/
theorem writeOperands_settles {operands : List Operand} {types : List OperandType}
    (written : writeOperands operands types = .ok bytes) (length : operands.length = types.length) :
    ∃ settled, List.Forall₂ (fun operand ty => operand.ty = ty ∧ Fits ty operand.value) settled
      types ∧ writeOperands settled types = .ok bytes ∧ ExactWhereHeld operands types settled := by
  induction types generalizing operands bytes with
  | nil =>
    obtain rfl := List.eq_nil_of_length_eq_zero length
    exact ⟨[], .nil, written, .nil⟩
  | cons ty types ih =>
    obtain ⟨operand, operands, rfl⟩ := List.exists_cons_of_length_eq_add_one length
    rw [writeOperands] at written
    obtain ⟨first, writtenFirst, written⟩ := Outcome.bind_eq_ok.mp written
    obtain ⟨rest, writtenRest, joined⟩ := Outcome.bind_eq_ok.mp written
    cases joined
    obtain ⟨value, fits, same, exactly⟩ := writeOperand_settles writtenFirst
    obtain ⟨settled, typed, others, exactRest⟩ := ih writtenRest (Nat.succ.inj length)
    refine ⟨⟨ty, value⟩ :: settled, .cons ⟨rfl, fits⟩ typed, ?_, .cons exactly exactRest⟩
    rw [writeOperands, same, others]
    rfl

variable {format : BytecodeFormat} {insn : Instruction}

/-- What is written for an instruction is what is written for one that is typed as the opcode
table says. -/
theorem encodeInstruction_settles (encoded : encodeInstruction format insn = .ok bytes)
    (offset : Nat) :
    ∃ settled, settled.offset = offset ∧ settled.opcode = insn.opcode ∧
      settled.length = bytes.length ∧ WellTyped format settled ∧
        encodeInstruction format settled = .ok bytes ∧
          ExactWhereHeld insn.operands (format.operandTypes insn.opcode) settled.operands := by
  rw [encodeInstruction] at encoded
  split at encoded
  case h_1 => cases encoded
  case h_2 entry found =>
    dsimp only at encoded
    split at encoded
    case isTrue => cases encoded
    case isFalse length =>
      obtain ⟨operands, written, joined⟩ := Outcome.bind_eq_ok.mp encoded
      cases joined
      obtain ⟨settled, typed, same, exactly⟩ := writeOperands_settles written (not_not.mp length)
      refine ⟨⟨offset, insn.opcode, settled, (insn.opcode :: operands).length⟩, rfl, rfl, rfl,
        ⟨entry, found, typed⟩, ?_, ?_⟩
      · rw [encodeInstruction]
        simp [found, typed.length_eq, same, Outcome.ok_bind, Outcome.pure_eq]
      · rw [BytecodeFormat.operandTypes, found]
        exact exactly

/-- Bytes are decoded as an instruction, wherever they stand. -/
def DecodedAs (format : BytecodeFormat) (bytes : Bytes) (decoded : Instruction) : Prop :=
  ∀ offset before after, decodeInstruction format offset (between before (bytes ++ after)) =
    (.ok { decoded with offset }, between (before ++ bytes) after)

/-- The bytes of an instruction that is typed as the opcode table says are decoded as it. -/
theorem decodedAs_of_typed (typed : WellTyped format insn)
    (encoded : encodeInstruction format insn = .ok bytes) (length : insn.length = bytes.length)
    : DecodedAs format bytes insn:= by
  intro offset before after
  exact decodeInstruction_between.mpr ⟨rfl, typed, bytes, after, encoded, length, rfl, rfl⟩

/-- What was encoded is decoded, and every operand comes back as what was written exactly
where its kind holds that. -/
theorem decodedAs_encoded (encoded : encodeInstruction format insn = .ok bytes) :
    ∃ decoded, DecodedAs format bytes decoded ∧ decoded.opcode = insn.opcode ∧
      ExactWhereHeld insn.operands (format.operandTypes insn.opcode) decoded.operands := by
  obtain ⟨settled, _, opcode, length, typed, same, exactly⟩ := encodeInstruction_settles encoded 0
  exact ⟨settled, decodedAs_of_typed typed same length, opcode, exactly⟩

end HermesDecomp
