import HermesDecomp.Io

/-!
# Decoding the instructions of a function

The bytes of a function are read from the first to the last. Each instruction carries the
offset it was read at and the number of bytes it took.
-/

namespace HermesDecomp

/-- The kinds of operands. -/
inductive OperandType where
  | reg8 | reg32
  | uint8 | uint16 | uint32
  | uint8S | uint16S | uint32S
  | addr8 | addr32
  | imm32
  | double
deriving DecidableEq, Repr

/-- The value of an operand. A double is its bits. -/
inductive OperandValue where
  | u8 (value : UInt8)
  | u16 (value : UInt16)
  | u32 (value : UInt32)
  | i8 (value : Int8)
  | i32 (value : Int32)
  | f64 (bits : UInt64)
deriving DecidableEq

namespace OperandValue

/-- The value of an unsigned operand. -/
def asU32 : OperandValue → Option Nat
  | u8 value => some value.toNat
  | u16 value => some value.toNat
  | u32 value => some value.toNat
  | _ => none

/-- The value of a signed operand. -/
def asI32 : OperandValue → Option Int
  | i8 value => some value.toInt
  | i32 value => some value.toInt
  | _ => none

/-- A value as an error shows it, a double by its bits. -/
def debug : OperandValue → String
  | u8 value => s!"U8({value})"
  | u16 value => s!"U16({value})"
  | u32 value => s!"U32({value})"
  | i8 value => s!"I8({value})"
  | i32 value => s!"I32({value})"
  | f64 bits => s!"F64({bits})"

end OperandValue

/-- An operand of an instruction. -/
structure Operand where
  ty : OperandType
  value : OperandValue
deriving DecidableEq

/-- Read the value of an operand. -/
def OperandType.read : OperandType → Reader OperandValue
  | reg8 | uint8 | uint8S => do
      let value ← Reader.readU8
      pure (.u8 (UInt8.ofNat value))
  | reg32 | uint32 | uint32S => do
      let value ← Reader.readU32
      pure (.u32 (UInt32.ofNat value))
  | uint16 | uint16S => do
      let value ← Reader.readU16
      pure (.u16 (UInt16.ofNat value))
  | addr8 => do
      let value ← Reader.readU8
      pure (.i8 (UInt8.ofNat value).toInt8)
  | addr32 | imm32 => do
      let value ← Reader.readU32
      pure (.i32 (UInt32.ofNat value).toInt32)
  | double => do
      let value ← Reader.readU64
      pure (.f64 (UInt64.ofNat value))

/-- An entry of an opcode table. -/
structure InstructionDef where
  opcode : UInt8
  name : String
  operandTypes : List OperandType
  isJump : Bool
deriving DecidableEq

/-- The opcode table of a bytecode version, by opcode. -/
structure BytecodeFormat where
  version : Nat
  definitions : List InstructionDef

/-- The entry of an opcode. -/
def BytecodeFormat.definition? (format : BytecodeFormat) (opcode : UInt8) : Option InstructionDef :=
  format.definitions[opcode.toNat]?

/-- Whether an opcode has a name. -/
def BytecodeFormat.named (format : BytecodeFormat) (opcode : UInt8) (name : String) : Bool :=
  match format.definition? opcode with
  | some entry => entry.name == name
  | none => false

/-- The opcode of the instruction that does nothing, in the versions that have it. -/
def BytecodeFormat.asyncBreakCheck? (format : BytecodeFormat) : Option UInt8 :=
  (format.definitions.find? (·.name == "AsyncBreakCheck")).map InstructionDef.opcode

/-- A decoded instruction. -/
structure Instruction where
  offset : Nat
  opcode : UInt8
  operands : List Operand
  length : Nat
deriving DecidableEq

/-- Read operands of the given kinds. -/
def readOperands : List OperandType → Reader (List Operand)
  | [] => pure []
  | ty :: types => do
      let value ← ty.read
      let rest ← readOperands types
      pure (⟨ty, value⟩ :: rest)

/-- Read an instruction. -/
def decodeInstruction (format : BytecodeFormat) (offset : Nat) : Reader Instruction := do
  let start ← Reader.position
  let opcode ← Reader.readU8
  let entry ← Action.lift
    (Outcome.ofOption (.parse s!"unknown opcode: {opcode}") format.definitions[opcode]?)
  let operands ← readOperands entry.operandTypes
  let stop ← Reader.position
  pure ⟨offset, UInt8.ofNat opcode, operands, stop - start⟩

/-- The instructions from an offset on. Each takes a byte at least, so the loop ends before
the fuel does. -/
def decodeFrom (format : BytecodeFormat) : (fuel offset : Nat) → Reader (List Instruction)
  | fuel, offset => do
      let left ← Reader.remaining
      if left = 0 then pure []
      else
        match fuel with
        | 0 => Action.lift .panic
        | fuel + 1 => do
            let instruction ← decodeInstruction format offset
            if offset + instruction.length < 2 ^ 32 then do
              let rest ← decodeFrom format fuel (offset + instruction.length)
              pure (instruction :: rest)
            else Action.fail (.parse "instruction offset overflow")

/-- The instructions of the bytes of a function. -/
def decodeInstructions (format : BytecodeFormat) (code : Bytes) : Result (List Instruction) :=
  (decodeFrom format code.length 0 (ByteReader.new code)).1

end HermesDecomp
