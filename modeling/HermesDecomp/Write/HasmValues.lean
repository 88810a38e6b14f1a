import HermesDecomp.Write.HasmLabels

/-!
# The values that assembly keeps

The parser reads a number as an unsigned word and takes its low bits for a narrow operand. So what
is decoded is what was written exactly when the kind of the operand holds it.
-/

namespace HermesDecomp.Hasm

open Scan Numeral Outcome
open ByteReader (between)

/-- The number that a token writes, in hexadecimal or decimal digits. -/
def writtenNumber? (token : Text) : Option Nat :=
  match stripEither ['0', 'x'] ['0', 'X'] token with
  | some hex => unsigned? 16 hex
  | none => unsigned? 10 token

/-- What a token writes for an operand of a kind. -/
def written? (labels : Labels) (strings : StringLookup) (insnOffset : Nat) (ty : OperandType)
    (token : Text) : Option Quantity :=
  match ty with
  | .reg8 | .reg32 =>
      ((stripEither ['r'] ['R'] token).bind (unsigned? 10)).map fun value : Nat => .number value
  | .addr8 | .addr32 =>
      ((labels.lookup token).or (literalTarget? token)).map fun target : Nat =>
        .number ((target : Int) - insnOffset)
  | .uint8S | .uint16S | .uint32S =>
      if token.head? = some '"' then
        ((unquote token).toOption.bind strings).map fun id => .number id.toNat
      else (writtenNumber? token).map fun value : Nat => .number value
  | .uint8 | .uint16 | .uint32 => (writtenNumber? token).map fun value : Nat => .number value
  | .imm32 => (signed? token).map .number
  | .double => (Binary64.parseF64? token).map .double

/-- Every operand stands for what its token writes exactly where its kind holds that. -/
def TokensExact (labels : Labels) (strings : StringLookup) (insnOffset : Nat) (tokens : List Text)
    (types : List OperandType) (decoded : List Operand) : Prop :=
  List.Forall₂ (fun pair result => ∃ quantity,
    written? labels strings insnOffset pair.2 (trim pair.1) = some quantity ∧
      (result.value.quantity = quantity ↔ pair.2.Holds quantity)) (tokens.zip types) decoded

/-- A value fits its operand and stands for a quantity exactly where the kind holds that. -/
def Stands (ty : OperandType) (value : OperandValue) (quantity : Quantity) : Prop :=
  Fits ty value ∧ (value.quantity = quantity ↔ ty.Holds quantity)

section Bits

variable (value : UInt32)

/-- The low eight bits of a word are the word exactly below 256. -/
theorem byte_quantity :
    (OperandValue.u8 value.toUInt8).quantity = .number value.toNat ↔
      0 ≤ (value.toNat : Int) ∧ (value.toNat : Int) < 2 ^ 8 := by
  rw [OperandValue.quantity, Quantity.number.injEq, UInt32.toNat_toUInt8]
  omega

/-- The low sixteen bits of a word are the word exactly below 65536. -/
theorem short_quantity :
    (OperandValue.u16 value.toUInt16).quantity = .number value.toNat ↔
      0 ≤ (value.toNat : Int) ∧ (value.toNat : Int) < 2 ^ 16 := by
  rw [OperandValue.quantity, Quantity.number.injEq, UInt32.toNat_toUInt16]
  omega

theorem word_quantity :
    (OperandValue.u32 value).quantity = .number value.toNat ↔
      0 ≤ (value.toNat : Int) ∧ (value.toNat : Int) < 2 ^ 32 := by
  have range := value.toNat_lt
  rw [OperandValue.quantity, Quantity.number.injEq]
  omega

/-- The low bits of a word, as an operand of a kind that is not signed. -/
theorem stands_narrow {ty : OperandType}
    (kind : ty = .uint8 ∨ ty = .uint16 ∨ ty = .uint32 ∨ ty = .uint8S ∨ ty = .uint16S ∨
      ty = .uint32S) : Stands ty (narrow ty value) (.number value.toNat) := by
  rcases kind with rfl | rfl | rfl | rfl | rfl | rfl
  · exact ⟨trivial, byte_quantity value⟩
  · exact ⟨trivial, short_quantity value⟩
  · exact ⟨trivial, word_quantity value⟩
  · exact ⟨trivial, byte_quantity value⟩
  · exact ⟨trivial, short_quantity value⟩
  · exact ⟨trivial, word_quantity value⟩

/-- The low bits of a word, as a register. -/
theorem stands_narrowRegister {ty : OperandType} (kind : ty = .reg8 ∨ ty = .reg32) :
    Stands ty (narrowRegister ty value) (.number value.toNat) := by
  rcases kind with rfl | rfl
  · exact ⟨trivial, byte_quantity value⟩
  · exact ⟨trivial, word_quantity value⟩

end Bits

/-- The distance between two offsets is the one between them as signed words exactly where a
signed word holds it. -/
theorem distance_eq_iff {target offset : Nat} {displacement : Int}
    (same : displacement = signedWord target - signedWord offset)
    (low : -2 ^ 31 ≤ displacement) (high : displacement < 2 ^ 31) :
    displacement = (target : Int) - offset ↔
      -2 ^ 31 ≤ (target : Int) - offset ∧ (target : Int) - offset < 2 ^ 31 := by
  unfold signedWord at same
  rw [Int.bmod_def, Int.bmod_def] at same
  omega

variable {ty : OperandType} {value : OperandValue}

/-- A displacement, as an address. -/
theorem stands_address (kind : ty = .addr8 ∨ ty = .addr32) {target offset : Nat}
    {displacement : Int} (same : displacement = signedWord target - signedWord offset)
    (low : -2 ^ 31 ≤ displacement) (high : displacement < 2 ^ 31)
    (given : addressValue ty displacement = .ok value) :
    Stands ty value (.number ((target : Int) - offset)) := by
  have exactly := distance_eq_iff same low high
  rcases kind with rfl | rfl
  · by_cases outside : displacement < -128 ∨ 127 < displacement
    · cases (if_pos outside).symm.trans given
    · obtain rfl := Outcome.ok.inj ((if_neg outside).symm.trans given)
      have read : (Int8.ofInt displacement).toInt = displacement :=
        Int8.toInt_ofInt_of_le (by omega) (by omega)
      refine ⟨trivial, ?_⟩
      rw [OperandValue.quantity, Quantity.number.injEq, read, OperandType.Holds]
      omega
  · cases given
    have read : (Int32.ofInt displacement).toInt = displacement := Int32.toInt_ofInt_of_le low high
    refine ⟨trivial, ?_⟩
    rw [OperandValue.quantity, Quantity.number.injEq, read]
    exact exactly

variable {token : Text}

/-- A number in digits is the number that the token writes. -/
theorem parseUint_eq_ok (parsed : parseUint token ty = .ok value) :
    ∃ word : UInt32, writtenNumber? token = some word.toNat ∧ value = narrow ty word := by
  unfold parseUint at parsed
  unfold writtenNumber?
  cases hexadecimal : stripEither ['0', 'x'] ['0', 'X'] token with
  | some | none =>
    rw [hexadecimal] at parsed
    obtain ⟨word, read, joined⟩ := bind_eq_ok.mp parsed
    rw [ofOption_eq_ok] at read
    exact ⟨word, parseU32?_eq_some read, (Outcome.ok.inj joined).symm⟩

variable {labels : Labels} {strings : StringLookup} {insnOffset : Nat}

/-- A quoted string that is found is the id the token writes. -/
theorem written?_string (kind : ty = .uint8S ∨ ty = .uint16S ∨ ty = .uint32S)
    (parsed : (if token.head? = some '"' then do
        let unquoted ← unquote token
        let id ← Outcome.ofOption (refuse "string not in table: " (escapeJsString unquoted) "")
          (strings unquoted)
        pure (narrow ty id)
      else parseUint token ty : Result OperandValue) = .ok value) :
    ∃ word : UInt32, written? labels strings insnOffset ty token = some (.number word.toNat) ∧
      value = narrow ty word := by
  have unfolded : written? labels strings insnOffset ty token =
      if token.head? = some '"' then
        ((unquote token).toOption.bind strings).map fun id => .number id.toNat
      else (writtenNumber? token).map fun value : Nat => .number value := by
    rcases kind with rfl | rfl | rfl <;> rfl
  rw [unfolded]
  split at parsed
  case isTrue quoted =>
    obtain ⟨unquoted, ran, parsed⟩ := bind_eq_ok.mp parsed
    obtain ⟨id, found, joined⟩ := bind_eq_ok.mp parsed
    rw [ofOption_eq_ok] at found
    rw [if_pos quoted, ran, Outcome.toOption, Option.bind_some, found]
    exact ⟨id, rfl, (Outcome.ok.inj joined).symm⟩
  case isFalse bare =>
    obtain ⟨word, read, rfl⟩ := parseUint_eq_ok parsed
    rw [if_neg bare, read]
    exact ⟨word, rfl, rfl⟩

/-- What a token of an address operand is read as. -/
theorem addressTarget_eq_ok {target : Nat} (found : addressTarget labels token = .ok target) :
    (labels.lookup token).or (literalTarget? token) = some target := by
  unfold addressTarget at found
  split at found
  case h_1 place kept => rw [kept, Outcome.ok.inj found]
  case h_2 => split at found <;> cases found

/-- A token that is read stands for what it writes exactly where its kind holds that. -/
theorem parseOperandToken_stands {raw : Text}
    (parsed : parseOperandToken raw ty insnOffset labels strings = .ok value) :
    ∃ quantity, written? labels strings insnOffset ty (trim raw) = some quantity ∧
      Stands ty value quantity := by
  cases ty
  case reg8 | reg32 =>
    obtain ⟨number, stripped, parsed⟩ := bind_eq_ok.mp parsed
    obtain ⟨word, read, joined⟩ := bind_eq_ok.mp parsed
    rw [ofOption_eq_ok] at stripped read
    cases joined
    refine ⟨.number word.toNat, ?_, stands_narrowRegister word (by simp)⟩
    rw [written?, stripped, Option.bind_some, parseU32?_eq_some read]
    rfl
  case addr8 | addr32 =>
    obtain ⟨target, found, parsed⟩ := bind_eq_ok.mp parsed
    obtain ⟨displacement, range, given⟩ := bind_eq_ok.mp parsed
    obtain ⟨⟨low, high⟩, same⟩ := checked_eq_ok.mp range
    refine ⟨.number ((target : Int) - insnOffset), ?_, ?_⟩
    · rw [written?, addressTarget_eq_ok found]
      rfl
    · rw [same] at low high
      exact stands_address (by simp) same.symm low high given
  case uint8S | uint16S | uint32S =>
    obtain ⟨word, writes, rfl⟩ := written?_string (by simp) parsed
    exact ⟨_, writes, stands_narrow word (by simp)⟩
  case uint8 | uint16 | uint32 =>
    obtain ⟨word, read, rfl⟩ := parseUint_eq_ok parsed
    refine ⟨.number word.toNat, ?_, stands_narrow word (by simp)⟩
    rw [written?, read]
    rfl
  case imm32 =>
    obtain ⟨word, read, joined⟩ := bind_eq_ok.mp parsed
    rw [ofOption_eq_ok] at read
    cases joined
    refine ⟨.number word.toInt, ?_, trivial, iff_of_true rfl ⟨word.le_toInt, word.toInt_lt⟩⟩
    rw [written?, parseI32?_eq_some read]
    rfl
  case double =>
    obtain ⟨bits, read, joined⟩ := bind_eq_ok.mp parsed
    rw [ofOption_eq_ok] at read
    cases joined
    refine ⟨.double bits, ?_, trivial, iff_of_true rfl trivial⟩
    rw [written?, read]
    rfl

/-- The operands of a line stand for what their tokens write exactly where the kinds hold
that, and they are typed. -/
theorem parseOperands_stand {tokens : List Text} {types : List OperandType}
    {operands : List Operand}
    (parsed : parseOperands insnOffset labels strings tokens types = .ok operands)
    (length : tokens.length = types.length) :
    List.Forall₂ (fun operand ty => operand.ty = ty ∧ Fits ty operand.value) operands types ∧
      TokensExact labels strings insnOffset tokens types operands := by
  induction tokens generalizing types operands with
  | nil =>
    obtain rfl := List.eq_nil_of_length_eq_zero length.symm
    cases parsed
    exact ⟨.nil, .nil⟩
  | cons token tokens ih =>
    obtain ⟨ty, types, rfl⟩ := List.exists_cons_of_length_eq_add_one length.symm
    rw [parseOperands] at parsed
    obtain ⟨value, ran, parsed⟩ := bind_eq_ok.mp parsed
    obtain ⟨rest, ranRest, joined⟩ := bind_eq_ok.mp parsed
    cases joined
    obtain ⟨quantity, writes, fits, exactly⟩ := parseOperandToken_stands ran
    obtain ⟨typed, others⟩ := ih ranRest (Nat.succ.inj length)
    exact ⟨.cons ⟨rfl, fits⟩ typed, .cons ⟨quantity, writes, exactly⟩ others⟩

/-- A line is encoded so that every operand comes back as what its token writes, exactly where
its kind holds that. -/
def LineExact (format : BytecodeFormat) (labels : Labels) (strings : StringLookup)
    (line : Text × List Text) (insn : Instruction) : Prop :=
  ∀ bytes, encodeInstruction format insn = .ok bytes →
    ∃ decoded, DecodedAs format bytes decoded ∧ opcodeOf? format line.1 = some decoded.opcode ∧
      TokensExact labels strings insn.offset line.2 (format.operandTypes decoded.opcode)
        decoded.operands

/-- An instruction of the third pass is encoded from its line. -/
theorem lineExact_of_built {format : BytecodeFormat} {raw : RawLine} {here : Sized}
    {insn : Instruction} (row : SizedAs format raw here)
    (built : buildInstruction labels strings here = .ok insn) :
    LineExact format labels strings (raw.mnemonic, raw.ops) insn := by
  obtain ⟨operands, parsed, joined⟩ := bind_eq_ok.mp built
  cases joined
  obtain ⟨typed, exactly⟩ := parseOperands_stand parsed row.counted
  obtain ⟨entry, found, types⟩ := row.types
  rw [types] at typed exactly
  intro bytes encoded
  refine ⟨⟨here.offset, here.opcode, operands, bytes.length⟩, ?_, row.opcode, ?_⟩
  · exact decodedAs_of_typed ⟨entry, found, typed⟩ encoded rfl
  · rw [BytecodeFormat.operandTypes, found, ← row.ops]
    exact exactly

/-- What is encoded of an instruction, or of a line of assembly, is decoded with every operand
standing for what was written, exactly where the kind of the operand holds that. -/
theorem assembly_exact_iff (format : BytecodeFormat) :
    (∀ insn bytes, encodeInstruction format insn = .ok bytes →
      ∃ decoded, DecodedAs format bytes decoded ∧ decoded.opcode = insn.opcode ∧
        ExactWhereHeld insn.operands (format.operandTypes insn.opcode) decoded.operands) ∧
      ∀ text strings body, parseHasmFunction text format strings = .ok body →
        ∃ lines labels, readLines format text = .ok lines ∧ LabelsOf format lines labels ∧
          List.Forall₂ (LineExact format labels strings) (lines.filterMap instructionOf) body := by
  refine ⟨fun insn bytes encoded => decodedAs_encoded encoded, ?_⟩
  intro text strings body parsed
  obtain ⟨⟨body', handlers⟩, ran, rfl⟩ := map_eq_ok.mp parsed
  obtain ⟨lines, labels, sized, read, passes⟩ := passes_of_parse ran
  refine ⟨lines, labels, read, passes.kept, ?_⟩
  rw [← rawLines_eq none, List.forall₂_map_left_iff]
  have length := passes.rows.length_eq.trans passes.body.length_eq
  refine List.forall₂_iff_get.mpr ⟨length, ?_⟩
  intro index inside inside'
  have between : index < sized.length := passes.rows.length_eq ▸ inside
  exact lineExact_of_built (passes.rows.get inside between) (passes.body.get between inside')

/-- A register number of nine bits, for an operand of eight. -/
def wideRegister : Text := "LoadConstUndefined r300".toList

/-- The instruction it is parsed to. -/
def wideInstruction : Instruction := ⟨0, 118, [⟨.reg8, .u8 44⟩], 2⟩

/-- The register that is decoded is not the one that was written. -/
theorem wideRegister_changed :
    parseHasmFunction wideRegister loopFormat (fun _ => none) = .ok [wideInstruction] ∧
      encodeInstruction loopFormat wideInstruction = .ok [118, 44] ∧
        decodeInstructions loopFormat [118, 44] = .ok [wideInstruction] ∧
          written? [] (fun _ => none) 0 .reg8 "r300".toList = some (.number 300) ∧
            (OperandValue.u8 44).quantity ≠ .number 300 := by
  refine ⟨?_, ?_, ?_, ?_, ?_⟩ <;> decide +kernel

theorem wideRegister_exact_iff :
    (∃ decoded, DecodedAs loopFormat [118, 44] decoded ∧ decoded.opcode = 118 ∧
      ExactWhereHeld wideInstruction.operands (loopFormat.operandTypes 118) decoded.operands) ∧
      ∃ lines labels, readLines loopFormat wideRegister = .ok lines ∧
        LabelsOf loopFormat lines labels ∧
          List.Forall₂ (LineExact loopFormat labels fun _ => none) (lines.filterMap instructionOf)
            [wideInstruction] :=
  ⟨(assembly_exact_iff loopFormat).1 wideInstruction [118, 44] (by decide +kernel),
    (assembly_exact_iff loopFormat).2 wideRegister (fun _ => none) [wideInstruction]
      (by decide +kernel)⟩

end HermesDecomp.Hasm
