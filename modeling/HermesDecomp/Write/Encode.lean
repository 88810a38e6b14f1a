import HermesDecomp.File.Instructions

/-!
# Encoding instructions

An instruction is written as its opcode and its operands, each as wide as the opcode table
says. What was read is written back as the bytes it was read from, and what was written is
read back wherever it stands.
-/

namespace HermesDecomp

open List Action

/-- Write a value as an operand of a kind, if it fits. -/
def writeOperand (ty : OperandType) (value : OperandValue) : Result Bytes :=
  let text := value.debug
  match ty with
  | .reg8 | .uint8 | .uint8S =>
      match value with
      | .u8 v => .ok [v]
      | .u16 v =>
          if v.toNat ≤ 255 then .ok [UInt8.ofNat v.toNat]
          else .err (.write s!"cannot encode {text} as UInt8/Reg8")
      | .u32 v =>
          if v.toNat ≤ 255 then .ok [UInt8.ofNat v.toNat]
          else .err (.write s!"cannot encode {text} as UInt8/Reg8")
      | _ => .err (.write s!"cannot encode {text} as UInt8/Reg8")
  | .uint16 | .uint16S =>
      match value with
      | .u16 v => .ok (Bytes.leBytes 2 v.toNat)
      | .u8 v => .ok (Bytes.leBytes 2 v.toNat)
      | .u32 v =>
          if v.toNat ≤ 65535 then .ok (Bytes.leBytes 2 v.toNat)
          else .err (.write s!"cannot encode {text} as UInt16")
      | _ => .err (.write s!"cannot encode {text} as UInt16")
  | .reg32 | .uint32 | .uint32S =>
      match value with
      | .u32 v => .ok (Bytes.leBytes 4 v.toNat)
      | .u16 v => .ok (Bytes.leBytes 4 v.toNat)
      | .u8 v => .ok (Bytes.leBytes 4 v.toNat)
      | _ => .err (.write s!"cannot encode {text} as UInt32/Reg32")
  | .addr8 =>
      match value with
      | .i8 v => .ok [v.toUInt8]
      | .i32 v =>
          if -128 ≤ v.toInt ∧ v.toInt ≤ 127 then .ok [v.toInt8.toUInt8]
          else .err (.write s!"cannot encode {text} as Addr8")
      | .u8 v => .ok [v]
      | _ => .err (.write s!"cannot encode {text} as Addr8")
  | .addr32 | .imm32 =>
      match value with
      | .i32 v => .ok (Bytes.leBytes 4 v.toUInt32.toNat)
      | .i8 v => .ok (Bytes.leBytes 4 v.toInt32.toUInt32.toNat)
      | .u32 v => .ok (Bytes.leBytes 4 v.toNat)
      | .u16 v => .ok (Bytes.leBytes 4 v.toNat)
      | .u8 v => .ok (Bytes.leBytes 4 v.toNat)
      | _ => .err (.write s!"cannot encode {text} as Addr32/Imm32")
  | .double =>
      match value with
      | .f64 v => .ok (Bytes.leBytes 8 v.toNat)
      | _ => .err (.write s!"cannot encode {text} as Double")

/-- Write operands as operands of the given kinds. -/
def writeOperands : List Operand → List OperandType → Result Bytes
  | operand :: operands, ty :: types => do
      let first ← writeOperand ty operand.value
      let rest ← writeOperands operands types
      pure (first ++ rest)
  | _, _ => pure []

/-- Encode an instruction. -/
def encodeInstruction (format : BytecodeFormat) (insn : Instruction) : Result Bytes :=
  let opcode := insn.opcode
  match format.definition? opcode with
  | none => .err (.write s!"unknown opcode {opcode} for encode")
  | some entry =>
      let name := entry.name
      let expected := entry.operandTypes.length
      let found := insn.operands.length
      if found ≠ expected then
        .err (.write s!"opcode {opcode} ({name}): expected {expected} operands, got {found}")
      else do
        let operands ← writeOperands insn.operands entry.operandTypes
        pure (opcode :: operands)

/-- Encode the instructions of a body in order. -/
def encodeFunctionBody (format : BytecodeFormat) : List Instruction → Result Bytes
  | [] => pure []
  | insn :: rest => do
      let first ← encodeInstruction format insn
      let others ← encodeFunctionBody format rest
      pure (first ++ others)

/-- The reader between two parts of a byte string. -/
def ByteReader.between (before after : Bytes) : ByteReader where
  data := before ++ after
  pos := before.length
  inside := by rw [length_append]; exact Nat.le_add_right _ _

theorem ByteReader.new_eq_between (data : Bytes) : ByteReader.new data = .between [] data := rfl

namespace Reader

open ByteReader (between)

/-- A read of bytes takes them from the front of what is left. -/
theorem readExact_between {len : Nat} {before after bytes : Bytes} {final : ByteReader} :
    readExact len (between before after) = (.ok bytes, final) ↔
      bytes.length = len ∧ ∃ later, after = bytes ++ later ∧
        final = between (before ++ bytes) later := by
  rw [readExact_eq_ok, Bytes.slice_eq_some]
  constructor
  · rintro ⟨⟨inside, taken⟩, data, pos⟩
    have found : after.take len = bytes := by rw [← taken, between, drop_left]
    have enough : len ≤ after.length := by
      rw [between, length_append] at inside
      exact Nat.le_of_add_le_add_left inside
    refine ⟨by rw [← found, length_take_of_le enough], after.drop len, ?_, ?_⟩
    · rw [← found, take_append_drop]
    · cases final with | mk finalData finalPos finalInside =>
      obtain rfl : finalData = before ++ after := data
      obtain rfl : finalPos = before.length + len := pos
      unfold between
      congr 1
      · rw [← found, append_assoc, take_append_drop]
      · rw [← found, length_append, length_take_of_le enough]
  · rintro ⟨rfl, later, rfl, rfl⟩
    refine ⟨⟨?_, ?_⟩, ?_, ?_⟩
    · rw [between, length_append, length_append]
      exact Nat.add_le_add_left (Nat.le_add_right _ _) _
    · rw [between, drop_left, take_left]
    · exact append_assoc ..
    · exact length_append

/-- A read of a number takes its bytes from the front of what is left. -/
theorem readNat_between {width value : Nat} {before after : Bytes} {final : ByteReader} :
    readNat width (between before after) = (.ok value, final) ↔
      value < 256 ^ width ∧ ∃ later, after = Bytes.leBytes width value ++ later ∧
        final = between (before ++ Bytes.leBytes width value) later := by
  unfold readNat
  rw [bind_eq_ok]
  constructor
  · rintro ⟨bytes, middle, taken, given⟩
    obtain ⟨rfl, later, rfl, rfl⟩ := readExact_between.mp taken
    obtain ⟨same, rfl⟩ := Prod.mk.inj given
    obtain rfl : Bytes.leNat bytes = value := Outcome.ok.inj same
    rw [Bytes.leBytes_leNat]
    exact ⟨Bytes.leNat_lt bytes, later, rfl, rfl⟩
  · rintro ⟨small, later, rfl, rfl⟩
    refine ⟨Bytes.leBytes width value, _, readExact_between.mpr
      ⟨Bytes.leBytes_length width value, later, rfl, rfl⟩, ?_⟩
    rw [Bytes.leNat_leBytes_of_lt small]
    rfl

end Reader

open ByteReader (between)

/-- Values that are little-endian numbers of a fixed width. -/
structure Word (α : Type) where
  width : Nat
  make : Nat → α
  bits : α → Nat
  small : ∀ value, bits value < 256 ^ width
  make_bits : ∀ value, make (bits value) = value
  bits_make : ∀ number < 256 ^ width, bits (make number) = number

namespace Word

def u8 : Word UInt8 where
  width := 1
  make := UInt8.ofNat
  bits := UInt8.toNat
  small value := value.toNat_lt
  make_bits _ := UInt8.ofNat_toNat
  bits_make _ small := UInt8.toNat_ofNat_of_lt small

def u16 : Word UInt16 where
  width := 2
  make := UInt16.ofNat
  bits := UInt16.toNat
  small value := value.toNat_lt
  make_bits _ := UInt16.ofNat_toNat
  bits_make _ small := UInt16.toNat_ofNat_of_lt small

def u32 : Word UInt32 where
  width := 4
  make := UInt32.ofNat
  bits := UInt32.toNat
  small value := value.toNat_lt
  make_bits _ := UInt32.ofNat_toNat
  bits_make _ small := UInt32.toNat_ofNat_of_lt small

def i8 : Word Int8 where
  width := 1
  make number := (UInt8.ofNat number).toInt8
  bits value := value.toUInt8.toNat
  small value := value.toUInt8.toNat_lt
  make_bits value := by rw [UInt8.ofNat_toNat, Int8.toInt8_toUInt8]
  bits_make _ small := by
    rw [UInt8.toUInt8_toInt8]
    exact UInt8.toNat_ofNat_of_lt small

def i32 : Word Int32 where
  width := 4
  make number := (UInt32.ofNat number).toInt32
  bits value := value.toUInt32.toNat
  small value := value.toUInt32.toNat_lt
  make_bits value := by rw [UInt32.ofNat_toNat, Int32.toInt32_toUInt32]
  bits_make _ small := by
    rw [UInt32.toUInt32_toInt32]
    exact UInt32.toNat_ofNat_of_lt small

def f64 : Word UInt64 where
  width := 8
  make := UInt64.ofNat
  bits := UInt64.toNat
  small value := value.toNat_lt
  make_bits _ := UInt64.ofNat_toNat
  bits_make _ small := UInt64.toNat_ofNat_of_lt small

/-- The bytes of a value. -/
def bytes {α : Type} (word : Word α) (value : α) : Bytes := Bytes.leBytes word.width (word.bits value)

/-- A read of a value takes its bytes from the front of what is left. -/
theorem read_between {α : Type} (word : Word α) {wrap : α → OperandValue} {before after : Bytes}
    {value : OperandValue} {final : ByteReader} :
    (Reader.readNat word.width >>= fun number => pure (wrap (word.make number)) :
        Reader OperandValue) (between before after) = (.ok value, final) ↔
      ∃ inner, value = wrap inner ∧ ∃ later, after = word.bytes inner ++ later ∧
        final = between (before ++ word.bytes inner) later := by
  rw [bind_eq_ok]
  constructor
  · rintro ⟨number, middle, taken, given⟩
    obtain ⟨fits, later, rfl, rfl⟩ := Reader.readNat_between.mp taken
    obtain ⟨same, rfl⟩ := Prod.mk.inj given
    refine ⟨word.make number, (Outcome.ok.inj same).symm, later, ?_, ?_⟩
    · rw [bytes, word.bits_make number fits]
    · rw [bytes, word.bits_make number fits]
  · rintro ⟨inner, rfl, later, rfl, rfl⟩
    refine ⟨word.bits inner, _, Reader.readNat_between.mpr ⟨word.small inner, later, rfl, rfl⟩, ?_⟩
    rw [word.make_bits inner]
    rfl

end Word

/-- The values of operands of a kind. -/
def Fits : OperandType → OperandValue → Prop
  | .reg8, .u8 _ | .uint8, .u8 _ | .uint8S, .u8 _ => True
  | .uint16, .u16 _ | .uint16S, .u16 _ => True
  | .reg32, .u32 _ | .uint32, .u32 _ | .uint32S, .u32 _ => True
  | .addr8, .i8 _ => True
  | .addr32, .i32 _ | .imm32, .i32 _ => True
  | .double, .f64 _ => True
  | _, _ => False

variable {before after : Bytes} {final : ByteReader}

/-- An operand of a kind that is read and written as a word. -/
theorem operand_between {α : Type} (word : Word α) {wrap : α → OperandValue} {ty : OperandType}
    (reads : ty.read = Reader.readNat word.width >>= fun number => pure (wrap (word.make number)))
    (writes : ∀ inner, writeOperand ty (wrap inner) = .ok (word.bytes inner))
    (fits : ∀ value, Fits ty value ↔ ∃ inner, value = wrap inner) {value : OperandValue} :
    ty.read (between before after) = (.ok value, final) ↔
      Fits ty value ∧ ∃ bytes later, writeOperand ty value = .ok bytes ∧
        after = bytes ++ later ∧ final = between (before ++ bytes) later := by
  rw [reads, word.read_between, fits]
  constructor
  · rintro ⟨inner, rfl, later, rfl, rfl⟩
    exact ⟨⟨inner, rfl⟩, word.bytes inner, later, writes inner, rfl, rfl⟩
  · rintro ⟨⟨inner, rfl⟩, bytes, later, written, rfl, rfl⟩
    rw [writes inner] at written
    cases written
    exact ⟨inner, rfl, later, rfl, rfl⟩

/-- A read of an operand takes what is written for it from the front of what is left. -/
theorem OperandType.read_between {ty : OperandType} {value : OperandValue} :
    ty.read (between before after) = (.ok value, final) ↔
      Fits ty value ∧ ∃ bytes later, writeOperand ty value = .ok bytes ∧
        after = bytes ++ later ∧ final = between (before ++ bytes) later := by
  have byte : ∀ value : UInt8, Word.u8.bytes value = [value] := by
    intro value
    simp [Word.bytes, Word.u8, Bytes.leBytes]
  have signed : ∀ value : Int8, Word.i8.bytes value = [value.toUInt8] := by
    intro value
    simp [Word.bytes, Word.i8, Bytes.leBytes]
  cases ty
  case reg8 | uint8 | uint8S =>
    refine operand_between .u8 rfl (fun inner => ?_) fun value => ?_
    · rw [byte]
      rfl
    · cases value <;> simp [Fits]
  case uint16 | uint16S =>
    refine operand_between .u16 rfl (fun inner => rfl) fun value => ?_
    cases value <;> simp [Fits]
  case reg32 | uint32 | uint32S =>
    refine operand_between .u32 rfl (fun inner => rfl) fun value => ?_
    cases value <;> simp [Fits]
  case addr8 =>
    refine operand_between .i8 rfl (fun inner => ?_) fun value => ?_
    · rw [signed]
      rfl
    · cases value <;> simp [Fits]
  case addr32 | imm32 =>
    refine operand_between .i32 rfl (fun inner => rfl) fun value => ?_
    cases value <;> simp [Fits]
  case double =>
    refine operand_between .f64 rfl (fun inner => rfl) fun value => ?_
    cases value <;> simp [Fits]

/-- A read of operands takes what is written for them from the front of what is left. -/
theorem readOperands_between {types : List OperandType} {operands : List Operand} :
    readOperands types (between before after) = (.ok operands, final) ↔
      List.Forall₂ (fun operand ty => operand.ty = ty ∧ Fits ty operand.value) operands types ∧
        ∃ bytes later, writeOperands operands types = .ok bytes ∧ after = bytes ++ later ∧
          final = between (before ++ bytes) later := by
  induction types generalizing before after operands final with
  | nil =>
    rw [forall₂_nil_right_iff]
    constructor
    · intro ran
      obtain ⟨same, rfl⟩ := Prod.mk.inj ran
      cases same
      exact ⟨rfl, [], after, rfl, rfl, by rw [append_nil]⟩
    · rintro ⟨rfl, bytes, later, written, rfl, rfl⟩
      cases written
      rw [append_nil]
      rfl
  | cons ty types ih =>
    rw [readOperands, bind_eq_ok, forall₂_cons_right_iff]
    constructor
    · rintro ⟨value, middle, first, ran⟩
      obtain ⟨fits, bytes, later, written, rfl, rfl⟩ := OperandType.read_between.mp first
      obtain ⟨rest, last, ranRest, given⟩ := bind_eq_ok.mp ran
      obtain ⟨others, more, last', writtenRest, rfl, rfl⟩ := ih.mp ranRest
      obtain ⟨same, rfl⟩ := Prod.mk.inj given
      cases same
      refine ⟨⟨⟨ty, value⟩, rest, ⟨rfl, fits⟩, others, rfl⟩, bytes ++ more, last', ?_, ?_, ?_⟩
      · rw [writeOperands]
        exact Outcome.bind_eq_ok.mpr ⟨bytes, written, Outcome.bind_eq_ok.mpr ⟨more, writtenRest, rfl⟩⟩
      · rw [append_assoc]
      · rw [append_assoc]
    · rintro ⟨⟨operand, rest, ⟨rfl, fits⟩, others, rfl⟩, bytes, later, written, rfl, rfl⟩
      rw [writeOperands] at written
      obtain ⟨first, writtenFirst, written⟩ := Outcome.bind_eq_ok.mp written
      obtain ⟨more, writtenRest, joined⟩ := Outcome.bind_eq_ok.mp written
      obtain rfl : first ++ more = bytes := Outcome.ok.inj joined
      refine ⟨operand.value, between (before ++ first) (more ++ later),
        OperandType.read_between.mpr ⟨fits, first, more ++ later, writtenFirst, ?_, rfl⟩,
        bind_eq_ok.mpr ⟨rest, between (before ++ (first ++ more)) later,
          ih.mpr ⟨others, more, later, writtenRest, rfl, ?_⟩, rfl⟩⟩
      · rw [append_assoc]
      · rw [append_assoc]

/-- The operands of an instruction are the ones of its opcode. -/
def WellTyped (format : BytecodeFormat) (insn : Instruction) : Prop :=
  ∃ entry, format.definition? insn.opcode = some entry ∧
    List.Forall₂ (fun operand ty => operand.ty = ty ∧ Fits ty operand.value) insn.operands
      entry.operandTypes

variable {format : BytecodeFormat} {insn : Instruction}

/-- What a read of an instruction does. -/
theorem decodeInstruction_eq_ok {offset : Nat} {reader final : ByteReader} :
    decodeInstruction format offset reader = (.ok insn, final) ↔
      ∃ opcode middle entry operands, Reader.readU8 reader = (.ok opcode, middle) ∧
        format.definitions[opcode]? = some entry ∧
          readOperands entry.operandTypes middle = (.ok operands, final) ∧
            insn = ⟨offset, UInt8.ofNat opcode, operands, final.pos - reader.pos⟩ := by
  simp only [decodeInstruction, bind_eq_ok, Reader.position, Prod.mk.injEq,
    Outcome.ok.injEq, lift_apply, Outcome.ofOption_eq_ok, pure_apply]
  constructor
  · rintro ⟨_, _, ⟨rfl, rfl⟩, opcode, middle, first, entry, _, ⟨found, rfl⟩, operands, last, rest,
      _, _, ⟨rfl, rfl⟩, rfl, rfl⟩
    exact ⟨opcode, middle, entry, operands, first, found, rest, rfl⟩
  · rintro ⟨opcode, middle, entry, operands, first, found, rest, rfl⟩
    exact ⟨_, _, ⟨rfl, rfl⟩, opcode, middle, first, entry, _, ⟨found, rfl⟩, operands, final, rest,
      _, _, ⟨rfl, rfl⟩, rfl, rfl⟩

/-- A read of an instruction takes what is written for it from the front of what is left. -/
theorem decodeInstruction_between {offset : Nat} :
    decodeInstruction format offset (between before after) = (.ok insn, final) ↔
      insn.offset = offset ∧ WellTyped format insn ∧
        ∃ bytes later, encodeInstruction format insn = .ok bytes ∧ insn.length = bytes.length ∧
          after = bytes ++ later ∧ final = between (before ++ bytes) later := by
  rw [decodeInstruction_eq_ok]
  constructor
  · rintro ⟨opcode, middle, entry, operands, first, found, rest, rfl⟩
    obtain ⟨small, later, rfl, rfl⟩ := Reader.readNat_between.mp first
    obtain ⟨fit, bytes, later, written, rfl, rfl⟩ := readOperands_between.mp rest
    have byte : (UInt8.ofNat opcode).toNat = opcode := UInt8.toNat_ofNat_of_lt small
    have entryFound : format.definition? (UInt8.ofNat opcode) = some entry := by
      rw [BytecodeFormat.definition?, byte]
      exact found
    have front : Bytes.leBytes 1 opcode = [UInt8.ofNat opcode] := rfl
    refine ⟨rfl, ⟨entry, entryFound, fit⟩, UInt8.ofNat opcode :: bytes, later, ?_, ?_, ?_, ?_⟩
    · rw [encodeInstruction]
      simp [entryFound, fit.length_eq, written, Outcome.ok_bind, Outcome.pure_eq]
    · rw [front]
      simp [between]
    · rw [front]
      rfl
    · rw [front, append_assoc]
      rfl
  · rintro ⟨rfl, ⟨entry, found, fit⟩, bytes, later, written, length, rfl, rfl⟩
    rw [encodeInstruction] at written
    simp only [found, fit.length_eq, ne_eq, not_true_eq_false, if_false] at written
    obtain ⟨operands, writtenOperands, joined⟩ := Outcome.bind_eq_ok.mp written
    obtain rfl : insn.opcode :: operands = bytes := Outcome.ok.inj joined
    have front : Bytes.leBytes 1 insn.opcode.toNat = [insn.opcode] := by simp [Bytes.leBytes]
    refine ⟨insn.opcode.toNat, between (before ++ [insn.opcode]) (operands ++ later), entry,
      insn.operands, Reader.readNat_between.mpr ⟨insn.opcode.toNat_lt, operands ++ later, ?_, ?_⟩,
      found, readOperands_between.mpr ⟨fit, operands, later, writtenOperands, rfl, ?_⟩, ?_⟩
    · rw [front]
      rfl
    · rw [front]
    · rw [append_assoc]
      rfl
    · have taken : (between (before ++ insn.opcode :: operands) later).pos -
          (between before (insn.opcode :: operands ++ later)).pos = insn.length := by
        rw [length]
        simp [between]
      rw [UInt8.ofNat_toNat, taken]

/-- Bytes are the encoding of instructions, one after the other from an offset on. -/
inductive Listing (format : BytecodeFormat) : Nat → List Instruction → Bytes → Prop where
  | nil (offset : Nat) : Listing format offset [] []
  | cons {offset : Nat} {insn : Instruction} {rest : List Instruction} {bytes later : Bytes}
      (place : insn.offset = offset) (typed : WellTyped format insn)
      (encoded : encodeInstruction format insn = .ok bytes) (length : insn.length = bytes.length)
      (others : Listing format (offset + bytes.length) rest later) :
      Listing format offset (insn :: rest) (bytes ++ later)

/-- An encoded instruction has a byte at least. -/
theorem encodeInstruction_pos {bytes : Bytes} (encoded : encodeInstruction format insn = .ok bytes)
    : 0 < bytes.length:= by
  rw [encodeInstruction] at encoded
  split at encoded
  case h_1 => cases encoded
  case h_2 entry found =>
    dsimp only at encoded
    split at encoded
    case isTrue => cases encoded
    case isFalse =>
      obtain ⟨operands, _, joined⟩ := Outcome.bind_eq_ok.mp encoded
      cases joined
      exact Nat.succ_pos _

theorem remaining_between : (between before after).remaining = after.length := by
  rw [ByteReader.remaining, between, length_append]
  exact Nat.add_sub_cancel_left _ _

/-- What is decoded is a listing of the bytes. -/
theorem listing_of_decodeFrom {fuel offset : Nat} {body : List Instruction}
    (ran : decodeFrom format fuel offset (between before after) = (.ok body, final)) :
    Listing format offset body after := by
  induction fuel generalizing offset before after body final with
  | zero =>
    rw [decodeFrom] at ran
    obtain ⟨left, middle, at_left, ran⟩ := bind_eq_ok.mp ran
    obtain ⟨same, rfl⟩ := Prod.mk.inj at_left
    cases same
    split at ran
    case isTrue empty =>
      obtain rfl := eq_nil_of_length_eq_zero (remaining_between ▸ empty)
      obtain rfl := Outcome.ok.inj (Prod.mk.inj ran).1
      exact .nil offset
    case isFalse => cases (Prod.mk.inj ran).1
  | succ fuel ih =>
    rw [decodeFrom] at ran
    obtain ⟨left, middle, at_left, ran⟩ := bind_eq_ok.mp ran
    obtain ⟨same, rfl⟩ := Prod.mk.inj at_left
    cases same
    split at ran
    case isTrue empty =>
      obtain rfl := eq_nil_of_length_eq_zero (remaining_between ▸ empty)
      obtain rfl := Outcome.ok.inj (Prod.mk.inj ran).1
      exact .nil offset
    case isFalse =>
      obtain ⟨insn, middle, first, ran⟩ := bind_eq_ok.mp ran
      obtain ⟨place, typed, bytes, later, encoded, length, rfl, rfl⟩ :=
        decodeInstruction_between.mp first
      split at ran
      case isTrue =>
        obtain ⟨rest, last, others, given⟩ := bind_eq_ok.mp ran
        obtain rfl := Outcome.ok.inj (Prod.mk.inj given).1
        rw [length] at others
        exact .cons place typed encoded length (ih others)
      case isFalse => cases (Prod.mk.inj ran).1

namespace Listing

variable {format : BytecodeFormat} {offset : Nat} {body : List Instruction} {code : Bytes}

/-- The encoding of a body is the bytes it lists. -/
theorem encode (listing : Listing format offset body code) :
    encodeFunctionBody format body = .ok code := by
  induction listing with
  | nil offset => rfl
  | cons place typed encoded length others ih =>
    rw [encodeFunctionBody, encoded, ih]
    rfl

/-- The bytes of a body are as many as its instructions take. -/
theorem length_eq (listing : Listing format offset body code) :
    code.length = (body.map Instruction.length).sum := by
  induction listing with
  | nil offset => rfl
  | cons place typed encoded length others ih => rw [length_append, map_cons, sum_cons, length, ih]

/-- The parts of a body are listed one behind the other. -/
theorem split {before after : List Instruction}
    (listing : Listing format offset (before ++ after) code) :
    ∃ front back, code = front ++ back ∧ Listing format offset before front ∧
      Listing format (offset + front.length) after back := by
  induction before generalizing offset code with
  | nil => exact ⟨[], code, rfl, .nil offset, listing⟩
  | cons insn before ih =>
    cases listing with
    | cons place typed encoded length others =>
      obtain ⟨front, back, rfl, listed, behind⟩ := ih others
      refine ⟨_ ++ front, back, ?_, .cons place typed encoded length listed, ?_⟩
      · rw [append_assoc]
      · rw [length_append, ← Nat.add_assoc]
        exact behind

/-- An instruction of a body has its bytes at its offset. -/
theorem of_mem (listing : Listing format offset body code) {insn : Instruction}
    (member : insn ∈ body) :
    ∃ front bytes back, code = front ++ (bytes ++ back) ∧
      encodeInstruction format insn = .ok bytes ∧ insn.offset = offset + front.length ∧
        WellTyped format insn ∧ insn.length = bytes.length := by
  obtain ⟨before, after, rfl⟩ := append_of_mem member
  obtain ⟨front, back, rfl, _, listed⟩ := listing.split
  cases listed with
  | cons place typed encoded length others =>
    exact ⟨front, _, _, rfl, encoded, place, typed, length⟩

end Listing

/-- What is decoded of the bytes of a function is a listing of them. -/
theorem listing_of_decodeInstructions {code : Bytes} {body : List Instruction}
    (decoded : decodeInstructions format code = .ok body) : Listing format 0 body code := by
  rcases ran : decodeFrom format code.length 0 (ByteReader.new code) with ⟨outcome, final⟩
  obtain rfl : outcome = .ok body := by
    rw [decodeInstructions, ran] at decoded
    exact decoded
  rw [ByteReader.new_eq_between] at ran
  exact listing_of_decodeFrom ran

variable {offset : Nat} {body : List Instruction} {code : Bytes}

/-- A listing decodes to its instructions when no offset behind one of them overflows. -/
theorem Listing.decodeFrom_iff (listing : Listing format offset body code) :
    ∀ (fuel : Nat) (before : Bytes), code.length ≤ fuel →
      ((decodeFrom format fuel offset (between before code)).1 = .ok body ↔
        code = [] ∨ offset + code.length < 2 ^ 32) := by
  induction listing with
  | nil offset =>
    intro fuel before _
    cases fuel <;> simp [decodeFrom, bind_apply, Reader.remaining, remaining_between]
  | @cons offset insn rest bytes later place typed encoded length others ih =>
    intro fuel before enough
    have some := encodeInstruction_pos encoded
    rw [length_append] at enough
    cases fuel with
    | zero => omega
    | succ fuel =>
      have first : decodeInstruction format offset (between before (bytes ++ later)) =
          (.ok insn, between (before ++ bytes) later) :=
        decodeInstruction_between.mpr ⟨place, typed, bytes, later, encoded, length, rfl, rfl⟩
      have behind := ih fuel (before ++ bytes) (by omega)
      rw [← length] at behind
      have many : (bytes ++ later).length ≠ 0 := by grind
      have none : bytes ++ later ≠ [] := by grind
      simp only [decodeFrom, bind_apply, Reader.remaining, remaining_between, if_neg many, first]
      split_ifs with room
      · simp only [none, false_or, length_append, ← length]
        rw [show offset + (insn.length + later.length) = offset + insn.length + later.length by omega]
        rw [bind_apply]
        rcases ran : decodeFrom format fuel (offset + insn.length) (between (before ++ bytes) later)
          with ⟨_ | _ | _, _⟩ <;> simp only [ran, pure_apply] at behind ⊢ <;> grind
      · simp [none]
        omega

/-- The bytes of a function decode to instructions exactly when these, placed one behind the other,
encode to them, and the offset behind the last one does not overflow. -/
theorem decodeInstructions_eq_ok_iff : decodeInstructions format code = .ok body ↔
    Listing format 0 body code ∧ code.length < 2 ^ 32 := by
  constructor
  · intro decoded
    have listing := listing_of_decodeInstructions decoded
    have small := (listing.decodeFrom_iff _ [] le_rfl).mp decoded
    exact ⟨listing, by grind⟩
  · rintro ⟨listing, small⟩
    exact (listing.decodeFrom_iff _ [] le_rfl).mpr (.inr (by omega))

end HermesDecomp
