import Mathlib.Data.List.Infix
import HermesDecomp.Library.Sha1
import HermesDecomp.Write.Encode
import HermesDecomp.Write.Serialize

/-!
# Patching a string operand

One string id in one instruction is overwritten where it stands, without rebuilding the body.
-/

namespace HermesDecomp

/-- The bytes of a function's body, where the header finds them among the instructions. -/
def functionCode (file : BytecodeFile) (functionId : Nat) : Result Bytes := do
  let header ← .ofOption (.parse s!"invalid function id: {functionId}")
    file.functionHeaders[functionId]?
  .ensure (file.instructionOffset ≤ header.offset) (.parse "function offset underflow")
  let start := header.offset - file.instructionOffset
  let finish := start + header.bytecodeSizeInBytes
  .ensure (finish < 2 ^ 64) (.parse s!"function {functionId} bytecode offset overflow")
  .ensure (finish ≤ file.instructions.length)
    (.parse s!"function {functionId} bytecode out of range")
  pure ((file.instructions.drop start).take header.bytecodeSizeInBytes)

/-- The instructions of a function. -/
def decodeFunctionInstructions (file : BytecodeFile) (format : BytecodeFormat) (functionId : Nat) :
    Result (List Instruction) := do
  let code ← functionCode file functionId
  decodeInstructions format code

/-- Instructions stand one behind the other from an offset on. -/
def Consecutive : Nat → List Instruction → Prop
  | _, [] => True
  | offset, insn :: rest => insn.offset = offset ∧ Consecutive (offset + insn.length) rest

variable {code : Bytes}

/-- The bytes of a body are a slice of the instructions, as long as the header says. -/
theorem functionCode_eq_ok {file : BytecodeFile} {functionId : Nat} :
    functionCode file functionId = .ok code ↔
      ∃ header, file.functionHeaders[functionId]? = some header ∧
        file.instructionOffset ≤ header.offset ∧
          header.offset - file.instructionOffset + header.bytecodeSizeInBytes < 2 ^ 64 ∧
            Bytes.slice file.instructions (header.offset - file.instructionOffset)
              header.bytecodeSizeInBytes = some code := by
  simp only [functionCode, Outcome.bind_eq_ok, Outcome.ofOption_eq_ok, Outcome.ensure_eq_ok,
    Outcome.pure_eq, Outcome.ok.injEq, Bytes.slice_eq_some]
  constructor
  · rintro ⟨header, found, _, starts, _, small, _, inside, taken⟩
    exact ⟨header, found, starts, small, inside, taken⟩
  · rintro ⟨header, found, starts, small, inside, taken⟩
    exact ⟨header, found, ⟨⟩, starts, ⟨⟩, small, ⟨⟩, inside, taken⟩

variable {format : BytecodeFormat} {body : List Instruction}

/-- A listing is consecutive. -/
theorem Listing.consecutive {offset : Nat} (listing : Listing format offset body code)
    : Consecutive offset body:= by
  induction listing with
  | nil offset => trivial
  | cons place typed encoded length others ih =>
    refine ⟨place, ?_⟩
    rw [length]
    exact ih

/-- A listing is what its bytes decode to. -/
theorem decodeFrom_of_listing {offset : Nat} (listing : Listing format offset body code)
    {fuel : Nat} {before : Bytes} (enough : code.length ≤ fuel)
    (small : offset + code.length < 2 ^ 32) :
    decodeFrom format fuel offset (.between before code) =
      (.ok body, .between (before ++ code) []) := by
  induction listing generalizing fuel before with
  | nil offset =>
    have left : Reader.remaining (ByteReader.between before []) =
        (.ok 0, .between before []) := by
      rw [Reader.remaining, remaining_between]
      rfl
    rw [List.append_nil, decodeFrom.eq_def]
    exact Action.bind_of_run left
  | @cons offset insn rest bytes later place typed encoded length others ih =>
    have positive := encodeInstruction_pos encoded
    rw [List.length_append] at enough small
    obtain ⟨fuel, rfl⟩ : ∃ less, fuel = less + 1 := ⟨fuel - 1, by omega⟩
    have first : decodeInstruction format offset (.between before (bytes ++ later)) =
        (.ok insn, .between (before ++ bytes) later) :=
      decodeInstruction_between.mpr ⟨place, typed, bytes, later, encoded, length, rfl, rfl⟩
    have left : Reader.remaining (ByteReader.between before (bytes ++ later)) =
        (.ok (bytes ++ later).length, .between before (bytes ++ later)) := by
      rw [Reader.remaining, remaining_between]
    rw [decodeFrom, Action.bind_of_run left, List.length_append, if_neg (by omega),
      Action.bind_of_run first, length, if_pos (by omega),
      Action.bind_of_run (ih (by omega) (by omega)), List.append_assoc]
    rfl

/-- What is decoded of some bytes is the listing of them, in a body of less than 4 GiB. -/
theorem decodeInstructions_of_listing (listing : Listing format 0 body code)
    (small : code.length < 2 ^ 32) : decodeInstructions format code = .ok body := by
  rw [decodeInstructions, ByteReader.new_eq_between,
    decodeFrom_of_listing listing (Nat.le_refl _) (by rwa [Nat.zero_add])]

/-- What a function decodes to is a listing of its bytes. -/
theorem decodeFunctionInstructions_eq_ok {file : BytecodeFile} {functionId : Nat}
    (decoded : decodeFunctionInstructions file format functionId = .ok body) :
    ∃ code, functionCode file functionId = .ok code ∧ Listing format 0 body code := by
  obtain ⟨code, found, decoded⟩ := Outcome.bind_eq_ok.mp decoded
  exact ⟨code, found, listing_of_decodeInstructions decoded⟩

/-- Decoding is inverted by encoding: the instructions of a function stand one behind the
other from its start to its end and encode to its bytes. -/
theorem decodeFunctionInstructions_encode {file : BytecodeFile} {format : BytecodeFormat}
    {functionId : Nat} {body : List Instruction}
    (decoded : decodeFunctionInstructions file format functionId = .ok body) :
    ∃ header code, file.functionHeaders[functionId]? = some header ∧
      Bytes.slice file.instructions (header.offset - file.instructionOffset)
        header.bytecodeSizeInBytes = some code ∧
      Consecutive 0 body ∧ (body.map Instruction.length).sum = header.bytecodeSizeInBytes ∧
        encodeFunctionBody format body = .ok code := by
  obtain ⟨code, found, listing⟩ := decodeFunctionInstructions_eq_ok decoded
  obtain ⟨header, present, -, -, taken⟩ := functionCode_eq_ok.mp found
  refine ⟨header, code, present, taken, listing.consecutive, ?_, listing.encode⟩
  rw [← listing.length_eq, Bytes.slice_length taken]

/-- A function that loads the first string and returns it, and its opcode table. -/
def loadFormat : BytecodeFormat where
  version := 96
  definitions := [⟨0, "LoadConstString", [.reg8, .uint16S], false⟩, ⟨1, "Ret", [.reg8], false⟩]

/-- An image with that function and the strings `a` and `b`. -/
def loadImage : Bytes :=
  [198, 31, 188, 3, 193, 3, 25, 31, 96, 0, 0, 0, 0, 0, 0, 0, 0, 0, 0, 0, 0, 0, 0, 0, 0, 0, 0,
   0, 0, 0, 0, 0, 186, 0, 0, 0, 0, 0, 0, 0, 1, 0, 0, 0, 1, 0, 0, 0, 0, 0, 0, 0, 2, 0, 0, 0, 0,
   0, 0, 0, 2, 0, 0, 0, 0, 0, 0, 0, 0, 0, 0, 0, 0, 0, 0, 0, 0, 0, 0, 0, 0, 0, 0, 0, 0, 0, 0,
   0, 0, 0, 0, 0, 0, 0, 0, 0, 0, 0, 0, 0, 0, 0, 0, 0, 0, 0, 0, 0, 0, 0, 0, 0, 0, 0, 0, 0, 0,
   0, 0, 0, 0, 0, 0, 0, 0, 0, 0, 0, 160, 0, 0, 2, 6, 0, 0, 0, 0, 0, 0, 4, 0, 0, 0, 2, 2, 0, 0,
   0, 0, 0, 0, 1, 2, 0, 0, 1, 97, 98, 0, 0, 0, 0, 0, 0, 1, 0, 89, 37, 151, 62, 1, 117, 164,
   25, 135, 82, 119, 178, 55, 150, 214, 13, 226, 89, 206, 140]

/-- The instructions of that function. -/
def loadBody : List Instruction :=
  [⟨0, 0, [⟨.reg8, .u8 0⟩, ⟨.uint16S, .u16 0⟩], 4⟩, ⟨4, 1, [⟨.reg8, .u8 0⟩], 2⟩]

/-- The two instructions encode to the six bytes they were decoded from. -/
theorem decodeFunctionInstructions_encode_load :
    ∃ file, Parser.parseAuto Sha1Hash.hash loadImage = .ok file ∧
      ∃ header code, file.functionHeaders[0]? = some header ∧
        Bytes.slice file.instructions (header.offset - file.instructionOffset)
          header.bytecodeSizeInBytes = some code ∧
        Consecutive 0 loadBody ∧
          (loadBody.map Instruction.length).sum = header.bytecodeSizeInBytes ∧
            encodeFunctionBody loadFormat loadBody = .ok code := by
  have decoded : ∃ file, Parser.parseAuto Sha1Hash.hash loadImage = .ok file ∧
      decodeFunctionInstructions file loadFormat 0 = .ok loadBody := by decide +kernel
  obtain ⟨file, parsed, decoded⟩ := decoded
  exact ⟨file, parsed, decodeFunctionInstructions_encode decoded⟩

/-- How an instruction is addressed. -/
inductive OperandTarget where
  /-- By the place of its opcode in the file. -/
  | absoluteOffset (offset : Nat)
  /-- By a function and an offset in its body. -/
  | functionRelative (function insnOffset : Nat)

/-- Whether operands of a kind are string ids. -/
def OperandType.isString : OperandType → Bool
  | uint8S | uint16S | uint32S => true
  | _ => false

/-- What a patch did: the parts of the line that reports it. -/
structure OperandChange where
  name : String
  absOff : Nat
  opIdx : Nat
  opTy : OperandType
  oldId : Nat
  oldStr : Text
  newStringId : Nat
  newStr : Text
deriving DecidableEq

/-- The warning about a property name that is not an identifier: the parts of its line. -/
structure OperandWarning where
  name : String
  newStringId : Nat
  newStr : Text
deriving DecidableEq

namespace Operands

/-- The place of the opcode that a target names. -/
def resolveTarget (file : BytecodeFile) : OperandTarget → Result Nat
  | .absoluteOffset offset => pure offset
  | .functionRelative function insnOffset => do
      let header ← .ofOption (.write s!"function {function} not found")
        file.functionHeaders[function]?
      let bodySize := header.bytecodeSizeInBytes
      if bodySize ≤ insnOffset then
        let offset := Parser.hex insnOffset
        let size := Parser.hex bodySize
        .err (.write s!"insn_offset 0x{offset} >= function body size 0x{size}")
      else pure (header.offset + insnOffset)

/-- Read operands of the given kinds, with the places they stand at. -/
def readPlaced (absOff : Nat) : List OperandType → Reader (List Operand × List Nat)
  | [] => pure ([], [])
  | ty :: types => do
      let position ← Reader.position
      let value ← ty.read
      let (operands, places) ← readPlaced absOff types
      pure (⟨ty, value⟩ :: operands, (absOff + position) :: places)

/-- The instruction at the reader, with the places of its operands. -/
def readOne (absOff : Nat) (format : BytecodeFormat) : Reader (Instruction × List Nat) := do
  let opcode ← Reader.readU8
  let place := Parser.hex absOff
  let entry ← Action.lift (.ofOption (.write s!"unknown opcode {opcode} at 0x{place}")
    format.definitions[opcode]?)
  let (operands, places) ← readPlaced absOff entry.operandTypes
  let position ← Reader.position
  pure (⟨absOff % 2 ^ 32, UInt8.ofNat opcode, operands, position % 2 ^ 32⟩, places)

/-- Decode one instruction at a place of an image. -/
def decodeOneAt (raw : Bytes) (absOff : Nat) (format : BytecodeFormat) :
    Result (Instruction × List Nat) :=
  if raw.length ≤ absOff then
    let place := Parser.hex absOff
    .err (.write s!"offset 0x{place} past end of file")
  else (readOne absOff format (.new (raw.drop absOff))).1

/-- How many bytes an operand of a kind takes. -/
def operandByteWidth : OperandType → Nat
  | .reg8 | .uint8 | .uint8S | .addr8 => 1
  | .uint16 | .uint16S => 2
  | .reg32 | .uint32 | .uint32S | .addr32 | .imm32 => 4
  | .double => 8

/-- The largest string id that an operand of a kind can hold. -/
def maxStringId : OperandType → Result Nat
  | .uint8S => pure 0xff
  | .uint16S => pure 0xffff
  | .uint32S => pure 0xffffffff
  | _ => .panic

/-- A kind of operand as it is printed. -/
def typeName : OperandType → String
  | .reg8 => "Reg8"
  | .reg32 => "Reg32"
  | .uint8 => "UInt8"
  | .uint16 => "UInt16"
  | .uint32 => "UInt32"
  | .uint8S => "UInt8S"
  | .uint16S => "UInt16S"
  | .uint32S => "UInt32S"
  | .addr8 => "Addr8"
  | .addr32 => "Addr32"
  | .imm32 => "Imm32"
  | .double => "Double"

/-- The string operands of an instruction: their indexes, what they are and where they stand. -/
def stringOps (insn : Instruction) (places : List Nat) : List (Nat × Operand × Nat) :=
  ((insn.operands.zip places).zipIdx.filter fun row => row.1.1.ty.isString).map fun row =>
    (row.2, row.1.1, row.1.2)

/-- The string operand that is selected, the first one by default. -/
def selectOp (name : String) (absOff : Nat) (ops : List (Nat × Operand × Nat))
    (operandIndex : Option Nat) : Result (Nat × Operand × Nat) :=
  let place := Parser.hex absOff
  let count := ops.length
  let sel := operandIndex.getD 0
  if ops = [] then .err (.write s!"instruction {name} at 0x{place} has no string operand")
  else .ofOption (.write s!"instruction {name} has {count} string operand(s), --operand-index {sel} out of range") ops[sel]?

/-- The text of a string, as messages show it. -/
def textOf (file : BytecodeFile) (id : Nat) : Text :=
  ((file.strings[id]?).map (·.value)).getD "<unknown>".toList

/-- Whether a string is an identifier. -/
def isIdentifier (file : BytecodeFile) (id : Nat) : Bool :=
  ((file.strings[id]?).map (·.isIdentifier)).getD false

/-- The edited bytes, what changed and whether to warn about it. -/
def operandImage (file : BytecodeFile) (format : BytecodeFormat) (target : OperandTarget)
    (newStringId : Nat) (operandIndex : Option Nat) :
    Result (Bytes × OperandChange × Option OperandWarning) := do
  let raw ← Serialize.rawOf file
  let count := file.header.stringCount
  .ensure (newStringId < count)
    (.write s!"string id {newStringId} out of range (string_count={count})")
  let absOff ← resolveTarget file target
  let (insn, places) ← decodeOneAt raw absOff format
  let opcode := insn.opcode
  let entry ← .ofOption (.write s!"unknown opcode {opcode}") (format.definition? insn.opcode)
  let (opIdx, oldOp, bytePos) ← selectOp entry.name absOff (stringOps insn places) operandIndex
  let oldId := oldOp.value.asU32.getD 0
  let maxVal ← maxStringId oldOp.ty
  let kind := typeName oldOp.ty
  .ensure (newStringId ≤ maxVal) (.write s!"string id {newStringId} exceeds operand width ({kind} max {maxVal}); use the Long variant of the opcode or ensure add-string returned a lower id")
  let width := operandByteWidth oldOp.ty
  .ensure (bytePos + width ≤ raw.length) (.write "operand position out of range")
  let out := Bytes.overwrite raw bytePos (Bytes.leBytes width newStringId)
  let (verifyInsn, _) ← decodeOneAt out absOff format
  let verifyOp ← .index verifyInsn.operands opIdx
  let verifyVal := verifyOp.value.asU32.getD 0xffffffff
  .ensure (verifyVal = newStringId)
    (.write s!"read-back failed: expected {newStringId}, got {verifyVal}")
  let newStr := textOf file newStringId
  let warning := if "ById".toList <:+: entry.name.toList ∧ isIdentifier file newStringId = false then
    some { name := entry.name, newStringId, newStr } else none
  pure (out, { name := entry.name, absOff, opIdx, opTy := oldOp.ty, oldId,
               oldStr := textOf file oldId, newStringId, newStr }, warning)

/-- Rewrite one string operand of one instruction. -/
def patchStringOperand (sha1 : Sha1) (format : BytecodeFormat) (target : OperandTarget)
    (newStringId : Nat) (operandIndex : Option Nat) :
    Edit (Bytes × OperandChange × Option OperandWarning) := do
  let file ← Action.get
  let (out, change, warning) ← Action.lift (operandImage file format target newStringId operandIndex)
  let out ← Serialize.commitImage sha1 out .default
  pure (out, change, warning)

end Operands

end HermesDecomp
