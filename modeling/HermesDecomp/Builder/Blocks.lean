import HermesDecomp.File.Instructions
import HermesDecomp.File.Structure
import HermesDecomp.Ir.Graph

/-!
# Building blocks

The instructions of a function are lowered one after the other, each into the block that is open
then. A block is created for every leader before; a jump, branch or switch to another offset
creates one while it is lowered.
-/

namespace HermesDecomp.Ir

/-- What an instruction is lowered to. -/
inductive FlowResult where
  | statement (statement : Statement)
  | jump (target : Nat)
  | branch (condition : Expression) (target fallthrough : Nat)
  | returns (value : Option Expression)
  | throws (value : Expression)
  | noop
  | switch (value : Expression) (default : Nat) (cases : List (Expression × Nat))

def getReg (operands : List Operand) (index : Nat) : Option Nat :=
  operands[index]?.bind fun operand => operand.value.asU32

/-- A register operand as an expression. -/
def regExpr (operands : List Operand) (index : Nat) : Option Expression :=
  (getReg operands index).map Expression.register

/-- A sum of signed words. -/
def wrappingAdd (offset : Nat) (relative : Int) : Int := ((offset : Int) + relative).bmod (2 ^ 32)

/-- The offset a jump goes to, unless it is negative. -/
def getJumpTarget (inst : Instruction) (format : BytecodeFormat) : Option Nat := do
  let entry ← format.definition? inst.opcode
  if entry.isJump then
    inst.operands.findSome? fun operand =>
      if operand.ty = .addr8 ∨ operand.ty = .addr32 then do
        let relative ← operand.value.asI32
        let target := wrappingAdd inst.offset relative
        if 0 ≤ target then some target.toNat else none
      else none
  else none

/-- The offset behind an instruction. -/
def fallthroughOf (inst : Instruction) : Nat := (inst.offset + inst.length) % 2 ^ 32

/-- A jump on the truth of a register. -/
def handleJmpCond (name : String) (inst : Instruction) (format : BytecodeFormat) :
    Option FlowResult := do
  let target ← getJumpTarget inst format
  let condition ← regExpr inst.operands 1
  let condition := if "False".toList <:+: name.toList then .unary .not condition else condition
  some (.branch condition target (fallthroughOf inst))

/-- A text without a suffix, however often it ends in it. -/
def trimEndMatches (suffix text : List Char) : List Char :=
  (fun text : List Char =>
    ((text.reverse.dropPrefix? suffix.reverse).map List.reverse).getD text)^[text.length] text

/-- The comparison of a jump, by its name without the mark of the long form. -/
def comparisonOp : String → Option BinaryOp
  | "JEqual" => some .eq
  | "JNotEqual" => some .neq
  | "JStrictEqual" => some .strictEq
  | "JStrictNotEqual" => some .strictNeq
  | "JLess" | "JLessN" => some .lt
  | "JLessEqual" | "JLessEqualN" => some .le
  | "JGreater" | "JGreaterN" => some .gt
  | "JGreaterEqual" | "JGreaterEqualN" => some .ge
  | "JNotLess" | "JNotLessN" => some .ge
  | "JNotLessEqual" | "JNotLessEqualN" => some .gt
  | "JNotGreater" | "JNotGreaterN" => some .le
  | "JNotGreaterEqual" | "JNotGreaterEqualN" => some .lt
  | _ => none

def comparisonOfName (name : String) : Option BinaryOp :=
  comparisonOp (String.ofList (trimEndMatches "Long".toList name.toList))

/-- A jump on a comparison of two registers. -/
def handleJmpComparison (name : String) (inst : Instruction) (format : BytecodeFormat) :
    Option FlowResult := do
  let target ← getJumpTarget inst format
  let left ← regExpr inst.operands 1
  let right ← regExpr inst.operands 2
  let op ← comparisonOfName name
  some (.branch (.binary op left right) target (fallthroughOf inst))

/-- The bits of the types, as masks. -/
def typeofIsMasks : List (Nat × String) :=
  [(1, "undefined"), (2 ||| 256, "object"), (4, "string"), (8, "symbol"), (16, "boolean"),
    (32, "number"), (64, "bigint"), (128, "function")]

/-- The comparison of the type of an operand with a text. -/
def typeIs (op : BinaryOp) (src : Expression) (type : String) : Expression :=
  .binary op (.unary .typeOf src) (.value (.constant (.string type)))

/-- All bits of the masks. -/
def typeofUniverse : Nat := typeofIsMasks.foldl (fun bits entry => bits ||| entry.1) 0

/-- The condition that the type of an operand is among those of a mask. -/
def typeofIsCondition (src : Expression) (mask : Nat) : Expression :=
  match typeofIsMasks.find? fun entry => entry.1 == mask with
  | some (_, type) => typeIs .strictEq src type
  | none =>
      let complement := typeofUniverse &&& ((2 ^ 32 - 1) ^^^ mask)
      match typeofIsMasks.find? fun entry => entry.1 == complement with
      | some (_, type) => typeIs .strictNeq src type
      | none =>
          match (typeofIsMasks.filter fun entry => mask &&& entry.1 == entry.1).map Prod.snd with
          | [] => typeIs .strictEq src ("type" ++ toString mask)
          | first :: rest =>
              rest.foldl (fun condition type =>
                .binary .logicalOr condition (typeIs .strictEq src type))
                (typeIs .strictEq src first)

/-- A jump on the type of a register. -/
def handleJmpTypeofIs (inst : Instruction) (format : BytecodeFormat) : Option FlowResult := do
  let target ← getJumpTarget inst format
  let src ← regExpr inst.operands 1
  let mask ← inst.operands[2]?.bind fun operand => operand.value.asU32
  some (.branch (typeofIsCondition src mask) target (fallthroughOf inst))

/-- A property of the global object, or a property of one. -/
def builtinNameToExpr (name : String) : Expression :=
  let (object, behind) := name.toList.span (· != '.')
  match behind with
  | _ :: property =>
      .member (.member (.value .global) (.ident (String.ofList object)) false)
        (.ident (String.ofList property)) false
  | [] => .member (.value .global) (.ident name) false

/-- The expression that names a builtin of a table. -/
def builtinRefExpr (table : List String) (index : Nat) : Expression :=
  match table[index]? with
  | some name => builtinNameToExpr name
  | none => .unknown ("builtin" ++ toString index) []

/-- A jump on whether a register holds a builtin. -/
def handleJmpBuiltinIs (table : List String) (name : String) (inst : Instruction)
    (format : BytecodeFormat) : Option FlowResult := do
  let target ← getJumpTarget inst format
  let index ← inst.operands[1]?.bind fun operand => operand.value.asU32
  let src ← regExpr inst.operands 2
  let op := if "Not".toList <:+: name.toList then .strictNeq else .strictEq
  some (.branch (.binary op src (builtinRefExpr table index)) target (fallthroughOf inst))

/-- A jump on whether a register is undefined. -/
def handleJmpUndefined (inst : Instruction) (format : BytecodeFormat) : Option FlowResult := do
  let target ← getJumpTarget inst format
  let value ← regExpr inst.operands 1
  some (.branch (.binary .strictEq value (.value (.constant .undefined))) target
    (fallthroughOf inst))

/-- The opcodes that jump on a comparison. -/
def comparisonJumps : List String :=
  ["JEqual", "JNotEqual", "JStrictEqual", "JStrictNotEqual", "JEqualLong", "JNotEqualLong",
    "JStrictEqualLong", "JStrictNotEqualLong", "JLess", "JLessEqual", "JGreater", "JGreaterEqual",
    "JLessLong", "JLessEqualLong", "JGreaterLong", "JGreaterEqualLong", "JLessN", "JLessEqualN",
    "JGreaterN", "JGreaterEqualN", "JLessNLong", "JLessEqualNLong", "JGreaterNLong",
    "JGreaterEqualNLong", "JNotLess", "JNotLessEqual", "JNotGreater", "JNotGreaterEqual",
    "JNotLessLong", "JNotLessEqualLong", "JNotGreaterLong", "JNotGreaterEqualLong", "JNotLessN",
    "JNotLessEqualN", "JNotGreaterN", "JNotGreaterEqualN", "JNotLessNLong", "JNotLessEqualNLong",
    "JNotGreaterNLong", "JNotGreaterEqualNLong"]

/-- The arms of the dispatch for conditional jumps. `table` names the builtins of the version. -/
def tryFlowHandlers (table : List String) (name : String) (inst : Instruction)
    (format : BytecodeFormat) : Option FlowResult :=
  if name ∈ ["JmpTrue", "JmpTrueLong", "JmpFalse", "JmpFalseLong"] then
    handleJmpCond name inst format
  else if name ∈ comparisonJumps then handleJmpComparison name inst format
  else if name ∈ ["JmpUndefined", "JmpUndefinedLong"] then handleJmpUndefined inst format
  else if name = "JmpTypeOfIs" then handleJmpTypeofIs inst format
  else if name ∈ ["JmpBuiltinIs", "JmpBuiltinIsLong", "JmpBuiltinIsNot", "JmpBuiltinIsNotLong"] then
    handleJmpBuiltinIs table name inst format
  else none

end HermesDecomp.Ir

namespace HermesDecomp

namespace OrdMap

/-- Inserting keys one after the other keeps the order. -/
theorem Ordered.foldl_insert {α : Type} (value : Nat → α) (keys : List Nat) :
    ∀ {start : OrdMap α}, Ordered start →
      Ordered (keys.foldl (fun map key => map.insert key (value key)) start) := by
  induction keys with
  | nil => intro start ordered; exact ordered
  | cons key rest hypothesis =>
    intro start ordered
    exact hypothesis (ordered.insert key (value key))

theorem Ordered.mem_keys_iff {α : Type} {map : OrdMap α} (ordered : Ordered map) (key : Nat) :
    key ∈ map.map Prod.fst ↔ ∃ value, map.get? key = some value := by
  simp [ordered.mem_iff]

end OrdMap

namespace Ir.Builder

/-- A signed word of four bytes. -/
def readI32 : Reader Int := do
  let value ← Reader.readU32
  pure (UInt32.ofNat value).toInt32.toInt

/-- The offset a distance from an instruction, as an unsigned word. -/
def targetFrom (inst : Instruction) (relative : Int) : Nat :=
  (wrappingAdd inst.offset relative % 2 ^ 32).toNat

/-- Where the table of a switch stands in the code of the file. -/
def tableStart (inst : Instruction) (tableOffset funcBytecodeOffset : Nat) : Nat :=
  (inst.offset + tableOffset + funcBytecodeOffset + 3) / 4 * 4

/-- The targets of a table of distances. -/
def numberTargets (inst : Instruction) : (count : Nat) → ByteReader → List Nat
  | 0, _ => []
  | count + 1, reader =>
      match readI32 reader with
      | (.ok relative, reader) => targetFrom inst relative :: numberTargets inst count reader
      | (_, reader) => numberTargets inst count reader

/-- The targets of a table of texts and distances. -/
def stringTargets (inst : Instruction) : (count : Nat) → ByteReader → List Nat
  | 0, _ => []
  | count + 1, reader =>
      match Reader.readU32 reader with
      | (.ok _, reader) =>
          match readI32 reader with
          | (.ok relative, reader) => targetFrom inst relative :: stringTargets inst count reader
          | (_, reader) => stringTargets inst count reader
      | (_, _) => []

/-- The targets of a jump. -/
def jumpTargets (inst : Instruction) : List Nat :=
  inst.operands.filterMap fun operand =>
    if operand.ty = .addr8 ∨ operand.ty = .addr32 then do
      let relative ← operand.value.asI32
      let target := wrappingAdd inst.offset relative
      if 0 ≤ target then some target.toNat else none
    else none

/-- The targets of a switch over numbers: the default, and the table where the code holds it. -/
def switchTargets (inst : Instruction) (code : Bytes) (funcBytecodeOffset : Nat) : List Nat :=
  (do
    let tableOffset ← inst.operands[1]?.bind fun operand => operand.value.asU32
    let default ← inst.operands[2]?.bind fun operand => operand.value.asI32
    let least ← inst.operands[3]?.bind fun operand => operand.value.asU32
    let greatest ← inst.operands[4]?.bind fun operand => operand.value.asU32
    let start := tableStart inst tableOffset funcBytecodeOffset
    let count := if least ≤ greatest then greatest - least + 1 else 0
    let listed :=
      if 0 < count ∧ start + count * 4 ≤ code.length then
        numberTargets inst count (ByteReader.new (code.drop start))
      else []
    some (targetFrom inst default :: listed) : Option (List Nat)).getD []

/-- The targets of a switch over texts. -/
def stringSwitchTargets (inst : Instruction) (code : Bytes) (funcBytecodeOffset : Nat) : List Nat :=
  (do
    let tableOffset ← inst.operands[2]?.bind fun operand => operand.value.asU32
    let default ← inst.operands[3]?.bind fun operand => operand.value.asI32
    let count ← inst.operands[4]?.bind fun operand => operand.value.asU32
    let start := tableStart inst tableOffset funcBytecodeOffset
    let listed :=
      if start + count * 8 ≤ code.length then
        stringTargets inst count (ByteReader.new (code.drop start))
      else []
    some (targetFrom inst default :: listed) : Option (List Nat)).getD []

/-- The offsets an instruction can go to, besides the one behind it. -/
def explicitTargets (inst : Instruction) (format : BytecodeFormat) (code : Bytes)
    (funcBytecodeOffset : Nat) : List Nat :=
  match format.definition? inst.opcode with
  | none => []
  | some entry =>
      (if entry.isJump then jumpTargets inst else []) ++
        (if entry.name ∈ ["SwitchImm", "UIntSwitchImm"] then
          switchTargets inst code funcBytecodeOffset else []) ++
          if entry.name = "StringSwitchImm" then
            stringSwitchTargets inst code funcBytecodeOffset else []

/-- The names of the conditional jumps. -/
def isConditionalJump (name : String) : Bool :=
  name ∈ ["JmpTrue", "JmpTrueLong", "JmpFalse", "JmpFalseLong", "JEqual", "JNotEqual",
    "JStrictEqual", "JStrictNotEqual", "JLess", "JLessEqual", "JGreater", "JGreaterEqual", "JLessN",
    "JLessEqualN", "JGreaterN", "JGreaterEqualN", "JNotLess", "JNotLessEqual", "JNotGreater",
    "JNotGreaterEqual", "JNotLessN", "JNotLessEqualN", "JNotGreaterN", "JNotGreaterEqualN"]

/-- The offsets at which an instruction makes a block begin. -/
def leadersOf (format : BytecodeFormat) (code : Bytes) (funcBytecodeOffset : Nat)
    (inst : Instruction) : List Nat :=
  match format.definition? inst.opcode with
  | none => []
  | some entry =>
      (if entry.name ∈ ["Ret", "Throw", "Jmp", "JmpLong"] then [fallthroughOf inst] else []) ++
        explicitTargets inst format code funcBytecodeOffset ++
          if entry.isJump && isConditionalJump entry.name then [fallthroughOf inst] else []

/-- The bounds and the target of a handler. -/
def handlerLeaders (handler : ExceptionHandler) : List Nat :=
  [handler.target, handler.start] ++ if 0 < handler.finish then [handler.finish] else []

/-- The offsets at which blocks begin, in their order. -/
def findBlockStarts (insts : List Instruction) (format : BytecodeFormat) (code : Bytes)
    (handlers : List ExceptionHandler) (funcBytecodeOffset : Nat) : List Nat :=
  let targets :=
    (insts.head?.map Instruction.offset).toList ++
      insts.flatMap (leadersOf format code funcBytecodeOffset) ++ handlers.flatMap handlerLeaders
  ((targets.foldl (fun set target => OrdMap.insert target ⟨⟩ set) ([] : OrdMap PUnit)).map
    Prod.fst).filter fun target => insts.any fun inst => inst.offset == target

/-- A block begins at an instruction that something makes a block begin at. -/
theorem mem_findBlockStarts {insts : List Instruction} {format : BytecodeFormat} {code : Bytes}
    {handlers : List ExceptionHandler} {funcBytecodeOffset offset : Nat} :
    offset ∈ findBlockStarts insts format code handlers funcBytecodeOffset ↔
      (∃ inst ∈ insts, inst.offset = offset) ∧
        (insts.head?.map Instruction.offset = some offset ∨
          (∃ inst ∈ insts, offset ∈ leadersOf format code funcBytecodeOffset inst) ∨
            ∃ handler ∈ handlers, offset ∈ handlerLeaders handler) := by
  have ordered : ∀ targets : List Nat, OrdMap.Ordered
      (targets.foldl (fun set target => OrdMap.insert target ⟨⟩ set) ([] : OrdMap PUnit)) :=
    fun targets => OrdMap.Ordered.foldl_insert (fun _ => PUnit.unit) targets List.Pairwise.nil
  have inserted : ∀ targets : List Nat, ∀ key, (∃ value, OrdMap.get?
      (targets.foldl (fun set target => OrdMap.insert target ⟨⟩ set) ([] : OrdMap PUnit)) key =
        some value) ↔ key ∈ targets := by
    intro targets key
    rw [OrdMap.get?_foldl_insert (fun _ => PUnit.unit) targets [] key]
    simp [OrdMap.get?]
  rw [findBlockStarts, List.mem_filter, (ordered _).mem_keys_iff, inserted, List.any_eq_true, and_comm]
  simp

end Ir.Builder

end HermesDecomp

namespace HermesDecomp.Ir.Builder

def opcodeName (format : BytecodeFormat) (inst : Instruction) : Option String :=
  (format.definition? inst.opcode).map InstructionDef.name

/-- The position of the instruction at an offset. -/
def positionOf (insts : List Instruction) (offset : Nat) : Option Nat :=
  insts.findIdx? fun inst => inst.offset == offset

/-- The handler at an offset catches a value into a register and throws the register. -/
def isRethrowOnlyHandler (insts : List Instruction) (format : BytecodeFormat)
    (targetOffset : Nat) : Bool :=
  (do
    let index ← positionOf insts targetOffset
    let inst ← insts[index]?
    if opcodeName format inst = some "Catch" then do
      let caught ← getReg inst.operands 0
      let next ← insts[index + 1]?
      if opcodeName format next = some "Throw" then some (getReg next.operands 0 == some caught)
      else none
    else none).getD false

/-- The position an unconditional jump goes to. -/
def jumpPosition (insts : List Instruction) (inst : Instruction) : Option Nat := do
  let relative ← inst.operands.findSome? fun operand =>
    if operand.ty = .addr8 ∨ operand.ty = .addr32 then operand.value.asI32 else none
  positionOf insts (((inst.offset : Int) + relative) % 2 ^ 32).toNat

/-- The instructions from a position on close an iterator before the next handler, behind one
unconditional jump at most and within a number of steps. -/
def closesWithin (insts : List Instruction) (format : BytecodeFormat) :
    (steps index : Nat) → (followed : Bool) → Bool
  | 0, _, _ => false
  | steps + 1, index, followed =>
      match insts[index]? with
      | none => false
      | some inst =>
          match opcodeName format inst, followed with
          | some "IteratorClose", _ => true
          | some "Catch", _ => false
          | some "Jmp", false | some "JmpLong", false =>
              match jumpPosition insts inst with
              | some position => closesWithin insts format steps position true
              | none => false
          | _, _ => closesWithin insts format steps (index + 1) followed

/-- The handler at an offset is taken to close an iterator and nothing else. -/
def isIteratorCleanupHandler (insts : List Instruction) (format : BytecodeFormat)
    (targetOffset : Nat) : Bool :=
  match positionOf insts targetOffset with
  | none => false
  | some index =>
      match insts[index]?.bind (opcodeName format) with
      | some "Catch" => closesWithin insts format 64 (index + 1) false
      | _ => false

/-- A graph while it is built: the blocks by offset, the open block and its statements. -/
structure Building where
  cfg : Cfg
  offsetToBlock : OrdMap BlockId
  currentBlock : BlockId
  currentStmts : List Statement

/-- A graph with an empty entry. -/
def emptyCfg : Cfg where
  entry := 0
  blocks := [⟨[], .none⟩]
  exceptionHandlers := []

/-- A graph with another block. -/
def createBlock (cfg : Cfg) : BlockId × Cfg :=
  (cfg.blocks.length, { cfg with blocks := cfg.blocks ++ [⟨[], .none⟩] })

/-- Change a block. -/
def modifyBlock (block : BlockId) (change : BasicBlock → BasicBlock) (cfg : Cfg) : Cfg :=
  { cfg with blocks := cfg.blocks.modify block change }

/-- A block at another offset than the first. -/
def addLeader (firstOffset : Nat) (blocks : Cfg × OrdMap BlockId) (offset : Nat) :
    Cfg × OrdMap BlockId :=
  if offset ≠ firstOffset then
    let (id, cfg) := createBlock blocks.1
    (cfg, blocks.2.insert offset id)
  else blocks

/-- A block at each of some offsets, the entry at the first instruction. -/
def initialBlocks (firstOffset : Nat) (blockStarts : List Nat) : Cfg × OrdMap BlockId :=
  blockStarts.foldl (addLeader firstOffset) (emptyCfg, OrdMap.insert firstOffset emptyCfg.entry [])

/-- The protected range of a handler that is kept. -/
def protectedRange (insts : List Instruction) (format : BytecodeFormat)
    (offsetToBlock : OrdMap BlockId) (handler : ExceptionHandler) : Option CfgExceptionHandler :=
  if isRethrowOnlyHandler insts format handler.target then none
  else if isIteratorCleanupHandler insts format handler.target then none
  else do
    let tryStart ← offsetToBlock.get? handler.start
    let catchBlock ← offsetToBlock.get? handler.target
    some {
      tryBlockStart := tryStart
      catchBlock := catchBlock
      tryBlocks := (offsetToBlock.filter fun entry =>
        handler.start ≤ entry.1 && entry.1 < max handler.finish handler.start).map Prod.snd }

def setBlockStmts (block : BlockId) (statements : List Statement) : Cfg → Cfg :=
  modifyBlock block fun content => { content with statements := statements }

def setTerminator (block : BlockId) (terminator : Terminator) : Cfg → Cfg :=
  modifyBlock block fun content => { content with terminator := terminator }

/-- Close a block that runs on into the next one. -/
def finalizeBlock (block : BlockId) (statements : List Statement) (next : BlockId) : Cfg → Cfg :=
  modifyBlock block fun content =>
    match content.terminator with
    | .none => ⟨statements, .jump next⟩
    | terminator => if statements.isEmpty then content else ⟨statements, terminator⟩

/-- The block at an offset, created if there is none. -/
def getOrCreateBlock (building : Building) (offset : Nat) : BlockId × Building :=
  match building.offsetToBlock.get? offset with
  | some id => (id, building)
  | none =>
      let (id, cfg) := createBlock building.cfg
      (id, { building with cfg := cfg, offsetToBlock := building.offsetToBlock.insert offset id })

/-- The blocks at the offsets of the cases of a switch. -/
def caseBlocks : List (Expression × Nat) → Building → List (Expression × BlockId) × Building
  | [], building => ([], building)
  | (value, offset) :: rest, building =>
      let (id, building) := getOrCreateBlock building offset
      let (others, building) := caseBlocks rest building
      ((value, id) :: others, building)

/-- Open the block that begins at an instruction. -/
def openBlock (inst : Instruction) (building : Building) : Building :=
  match building.offsetToBlock.get? inst.offset with
  | none => building
  | some id =>
      if id = building.currentBlock then building
      else {
        cfg := finalizeBlock building.currentBlock building.currentStmts id building.cfg
        offsetToBlock := building.offsetToBlock
        currentBlock := id
        currentStmts := [] }

/-- Close the open block with a terminator. -/
def closeBlock (terminator : Terminator) (building : Building) : Building :=
  { building with
    cfg := setTerminator building.currentBlock terminator
      (setBlockStmts building.currentBlock building.currentStmts building.cfg)
    currentStmts := [] }

/-- Put what an instruction is lowered to into the open block. -/
def place (result : FlowResult) (building : Building) : Building :=
  match result with
  | .statement (.block inner) => { building with currentStmts := building.currentStmts ++ inner }
  | .statement statement => { building with currentStmts := building.currentStmts ++ [statement] }
  | .jump target =>
      let (targetBlock, building) := getOrCreateBlock building target
      closeBlock (.jump targetBlock) building
  | .branch condition target fallthrough =>
      let (trueBlock, building) := getOrCreateBlock building target
      let (falseBlock, building) := getOrCreateBlock building fallthrough
      { closeBlock (.branch condition trueBlock falseBlock) building with
        currentBlock := falseBlock }
  | .returns value => closeBlock (.returnTerm value) building
  | .throws value => closeBlock (.throwTerm value) building
  | .noop => building
  | .switch value default cases =>
      let (defaultBlock, building) := getOrCreateBlock building default
      let (switchCases, building) := caseBlocks cases building
      closeBlock (.switch value switchCases defaultBlock) building

/-- Whether the offsets of instructions are shown, and from where they count. -/
structure IRBuilderOptions where
  includeOffsets : Bool
  absoluteOffsets : Bool
  instructionOffset : Nat
  funcBytecodeOffset : Nat

/-- A number in hexadecimal, with zeros in front. -/
def paddedHex (width value : Nat) : String :=
  String.ofList ((Nat.toDigits 16 value).leftpad width '0')

/-- The comment in front of an instruction, where the options ask for one. -/
def remark (options : IRBuilderOptions) (inst : Instruction) : Option Statement :=
  if options.includeOffsets then
    if options.absoluteOffsets then
      some (.comment ("@" ++ paddedHex 8
        ((options.instructionOffset + options.funcBytecodeOffset + inst.offset) % 2 ^ 32)))
    else some (.comment ("@" ++ paddedHex 4 inst.offset))
  else none

/-- Lower an instruction whose result is known. -/
def lowerInstruction (options : IRBuilderOptions) (building : Building)
    (lowered : Instruction × FlowResult) : Building :=
  let opened := openBlock lowered.1 building
  place lowered.2 { opened with
    currentStmts := opened.currentStmts ++ (remark options lowered.1).toList }

/-- Close the last block with a return of nothing. -/
def finish (building : Building) : Cfg :=
  match building.cfg.terminator building.currentBlock with
  | .none => (closeBlock (.returnTerm (some (.value (.constant .undefined)))) building).cfg
  | _ =>
      if building.currentStmts.isEmpty then building.cfg
      else setBlockStmts building.currentBlock building.currentStmts building.cfg

/-- The lowering of single instructions. It keeps track of environments; the block behind a
branch is the one behind the instruction. -/
structure Dispatch where
  Environments : Type
  start : Environments
  run : Environments → Instruction → FlowResult × Environments
  fallthrough : ∀ environments inst condition target next,
    (run environments inst).1 = .branch condition target next → next = fallthroughOf inst

/-- The instructions with what they are lowered to. -/
def Dispatch.lowered (dispatch : Dispatch) : dispatch.Environments → List Instruction →
    List (Instruction × FlowResult)
  | _, [] => []
  | environments, inst :: rest =>
      let (result, environments) := dispatch.run environments inst
      (inst, result) :: dispatch.lowered environments rest

/-- The graph before the first instruction is lowered. -/
def startBuilding (insts : List Instruction) (format : BytecodeFormat) (firstOffset : Nat)
    (blockStarts : List Nat) (handlers : List ExceptionHandler) : Building :=
  let (cfg, offsetToBlock) := initialBlocks firstOffset blockStarts
  { cfg := { cfg with
      exceptionHandlers := handlers.filterMap (protectedRange insts format offsetToBlock) }
    offsetToBlock := offsetToBlock
    currentBlock := cfg.entry
    currentStmts := [] }

/-- The graph of a function. -/
def buildFromInstructions (dispatch : Dispatch) (options : IRBuilderOptions)
    (format : BytecodeFormat) (code : Bytes) (insts : List Instruction)
    (handlers : List ExceptionHandler) : Cfg :=
  match insts with
  | [] => setTerminator emptyCfg.entry (.returnTerm none) emptyCfg
  | first :: _ =>
      let blockStarts := findBlockStarts insts format code handlers options.funcBytecodeOffset
      let building := startBuilding insts format first.offset blockStarts handlers
      finish ((dispatch.lowered dispatch.start insts).foldl (lowerInstruction options) building)

end HermesDecomp.Ir.Builder
