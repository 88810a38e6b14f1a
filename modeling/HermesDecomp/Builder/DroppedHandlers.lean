import HermesDecomp.Builder.JumpMeaning
import HermesDecomp.Builder.ProtectedRanges

/-!
# Handlers that may be left out

A handler may be left out where every run that enters it at most closes iterators and ends by
throwing the value it was entered with. The cleanup handler the scan looks for is one if all
instructions that can be reached from it are quiet, and each value it throws is the caught one.
-/

namespace HermesDecomp.Ir.Builder

open List Option

/-- What an instruction of a handler does. -/
inductive HandlerOp where
  | catches (register : Nat)
  | moves (register source : Nat)
  | loads (register : Nat)
  | jumps (target : Nat)
  | branches (test : JumpTest) (target : Nat)
  | closes (register : Nat)
  | throws (register : Nat)
  | other
deriving DecidableEq

/-- The opcodes that load a constant. -/
def constantLoads : List String :=
  ["LoadConstUInt8", "LoadConstInt", "LoadConstDouble", "LoadConstString",
    "LoadConstStringLongIndex", "LoadConstEmpty", "LoadConstUndefined", "LoadConstNull",
    "LoadConstTrue", "LoadConstFalse", "LoadConstZero"]

/-- The tests that run no code of the program. -/
def quietTest : JumpTest → Bool
  | .compare op _ _ _ => op == .strictEq
  | _ => true

/-- What the instruction with a name does, as far as a handler that only closes an iterator needs
it. An iterator is closed with its exceptions ignored. -/
def handlerOp? (format : BytecodeFormat) (inst : Instruction) (name : String) :
    Option HandlerOp :=
  match name with
  | "Catch" => (getReg inst.operands 0).map HandlerOp.catches
  | "Mov" | "MovLong" => do
      let register ← getReg inst.operands 0
      let source ← getReg inst.operands 1
      some (.moves register source)
  | "Jmp" | "JmpLong" => (getJumpTarget inst format).map HandlerOp.jumps
  | "IteratorClose" => do
      let register ← getReg inst.operands 0
      let ignores ← getReg inst.operands 1
      if ignores = 0 then none else some (.closes register)
  | "Throw" => (getReg inst.operands 0).map HandlerOp.throws
  | name =>
      if name ∈ constantLoads then (getReg inst.operands 0).map HandlerOp.loads
      else do
        let test ← jumpTest name inst.operands
        let target ← getJumpTarget inst format
        if quietTest test then some (.branches test target) else none

def handlerOp (format : BytecodeFormat) (inst : Instruction) : HandlerOp :=
  ((opcodeName format inst).bind (handlerOp? format inst)).getD .other

def instructionAt (insts : List Instruction) (offset : Nat) : Option Instruction :=
  insts.find? fun inst => inst.offset == offset

/-- What a step leads to. -/
inductive Move (Val World : Type) where
  | goes (offset : Nat) (registers : Nat → Val) (world : World)
  | throws (value : Val) (world : World)
  | returns (value : Val) (world : World)

/-- The parts of a virtual machine that a handler can run into. -/
structure Interpreter where
  Val : Type
  World : Type
  constant : Instruction → Val
  holds : JumpTest → (Nat → Val) → Bool
  close : Val → World → World
  other : Instruction → (Nat → Val) → World → Move Val World

section

variable (engine : Interpreter) (format : BytecodeFormat) (insts : List Instruction)

/-- One instruction that does what is given, while a value is caught. -/
def act (caught : engine.Val) (inst : Instruction) (registers : Nat → engine.Val)
    (world : engine.World) : HandlerOp → Move engine.Val engine.World
  | .catches register =>
      .goes (fallthroughOf inst) (Function.update registers register caught) world
  | .moves register source =>
      .goes (fallthroughOf inst) (Function.update registers register (registers source)) world
  | .loads register =>
      .goes (fallthroughOf inst) (Function.update registers register (engine.constant inst)) world
  | .jumps target => .goes target registers world
  | .branches test target =>
      .goes (if engine.holds test registers then target else fallthroughOf inst) registers world
  | .closes register =>
      .goes (fallthroughOf inst) registers (engine.close (registers register) world)
  | .throws register => .throws (registers register) world
  | .other => engine.other inst registers world

/-- One instruction. -/
def step (caught : engine.Val) (inst : Instruction) (registers : Nat → engine.Val)
    (world : engine.World) : Move engine.Val engine.World :=
  act engine caught inst registers world (handlerOp format inst)

/-- Where a run is that entered a handler with a caught value in a world. -/
inductive Entered (target : Nat) (caught : engine.Val) (start : engine.World) :
    Nat → (Nat → engine.Val) → engine.World → Prop where
  | enters (registers : Nat → engine.Val) : Entered target caught start target registers start
  | goes {offset next : Nat} {registers registers' : Nat → engine.Val}
      {world world' : engine.World} {inst : Instruction}
      (before : Entered target caught start offset registers world)
      (stands : instructionAt insts offset = some inst)
      (leads : step engine format caught inst registers world = .goes next registers' world') :
      Entered target caught start next registers' world'

/-- Only iterators were closed. -/
def OnlyClosed : engine.World → engine.World → Prop :=
  Relation.ReflTransGen fun world world' => ∃ iterator, world' = engine.close iterator world

/-- Every run that enters at a target does nothing but close iterators, and throws the value it was
entered with. -/
def Harmless (target : Nat) : Prop :=
  ∀ (caught : engine.Val) (start : engine.World) (offset : Nat) (registers : Nat → engine.Val)
    (world : engine.World), Entered engine format insts target caught start offset registers world →
      ∃ inst, instructionAt insts offset = some inst ∧
        match step engine format caught inst registers world with
        | .goes _ _ world' => OnlyClosed engine start world'
        | .throws value world' => value = caught ∧ OnlyClosed engine start world'
        | .returns _ _ => False

end

/-- Where an instruction goes, and which registers hold the caught value there. -/
def flows (inst : Instruction) (held : List Nat) : HandlerOp → List (Nat × List Nat)
  | .catches register => [(fallthroughOf inst, register :: held)]
  | .moves register source =>
      [(fallthroughOf inst,
        if source ∈ held then register :: held else held.filter (· ≠ register))]
  | .loads register => [(fallthroughOf inst, held.filter (· ≠ register))]
  | .jumps target => [(target, held)]
  | .branches _ target => [(target, held), (fallthroughOf inst, held)]
  | .closes _ => [(fallthroughOf inst, held)]
  | .throws _ | .other => []

/-- An instruction does nothing that can be seen but close an iterator, and throws nothing but the
caught value. -/
def QuietOp (held : List Nat) : HandlerOp → Prop
  | .throws register => register ∈ held
  | .other => False
  | _ => True

/-- The offsets that can be reached from a target, with the registers that hold the caught value. -/
inductive Traced (format : BytecodeFormat) (insts : List Instruction) (target : Nat) :
    Nat → List Nat → Prop where
  | enters : Traced format insts target target []
  | goes {offset next : Nat} {held held' : List Nat} {inst : Instruction}
      (before : Traced format insts target offset held)
      (stands : instructionAt insts offset = some inst)
      (leads : (next, held') ∈ flows inst held (handlerOp format inst)) :
      Traced format insts target next held'

/-- Every instruction that can be reached is quiet, and throws the caught value if it throws. -/
def Quiet (format : BytecodeFormat) (insts : List Instruction) (target : Nat) : Prop :=
  ∀ offset held, Traced format insts target offset held →
    ∃ inst, instructionAt insts offset = some inst ∧ QuietOp held (handlerOp format inst)

section

variable {engine : Interpreter} {format : BytecodeFormat} {insts : List Instruction}

/-- The registers hold the caught value. -/
def Holds (registers : Nat → engine.Val) (caught : engine.Val) (held : List Nat) : Prop :=
  ∀ register ∈ held, registers register = caught

variable {registers : Nat → engine.Val} {caught : engine.Val} {held : List Nat}

theorem Holds.update_caught (holds : Holds registers caught held) (register : Nat) :
    Holds (Function.update registers register caught) caught (register :: held) := by
  intro other member
  by_cases same : other = register
  · rw [same, Function.update_self]
  · rw [Function.update_of_ne same]
    exact holds other ((mem_cons.mp member).resolve_left same)

theorem Holds.update_other (holds : Holds registers caught held) (register : Nat)
    (value : engine.Val) :
    Holds (Function.update registers register value) caught (held.filter (· ≠ register)) := by
  intro other member
  obtain ⟨inside, different⟩ := mem_filter.mp member
  rw [Function.update_of_ne (of_decide_eq_true different)]
  exact holds other inside

/-- One quiet instruction keeps the registers that hold the caught value, and closes an iterator at
most. -/
theorem act_quiet {inst : Instruction} {world : engine.World} (holds : Holds registers caught held) :
    ∀ {op : HandlerOp}, QuietOp held op →
      (∃ next registers' world' held', act engine caught inst registers world op =
          .goes next registers' world' ∧ (next, held') ∈ flows inst held op ∧
            Holds registers' caught held' ∧ OnlyClosed engine world world') ∨
        act engine caught inst registers world op = .throws caught world
  | .throws register, known => .inr (congrArg (Move.throws · world) (holds register known))
  | .other, quiet => quiet.elim
  | .catches register, _ =>
    .inl ⟨_, _, _, _, rfl, mem_singleton_self _, holds.update_caught register, .refl⟩
  | .loads register, _ =>
    .inl ⟨_, _, _, _, rfl, mem_singleton_self _, holds.update_other register _, .refl⟩
  | .jumps target, _ => .inl ⟨_, _, _, _, rfl, mem_singleton_self _, holds, .refl⟩
  | .closes register, _ => .inl ⟨_, _, _, _, rfl, mem_singleton_self _, holds, .single ⟨_, rfl⟩⟩
  | .moves register source, _ => by
    refine .inl ⟨_, _, _, _, rfl, mem_singleton_self _, ?_, .refl⟩
    split
    case isTrue known =>
      rw [holds source known]
      exact holds.update_caught register
    case isFalse => exact holds.update_other register _
  | .branches test target, _ => by
    refine .inl ⟨_, _, _, held, rfl, ?_, holds, .refl⟩
    split
    · exact mem_cons_self
    · exact mem_cons_of_mem _ mem_cons_self

/-- A run through quiet instructions keeps track of the registers that hold the caught value. -/
theorem Quiet.traced {target : Nat} (quiet : Quiet format insts target) {start world : engine.World}
    {offset : Nat}
    (entered : Entered engine format insts target caught start offset registers world) :
    OnlyClosed engine start world ∧
      ∃ held, Traced format insts target offset held ∧ Holds registers caught held := by
  induction entered with
  | enters registers => exact ⟨.refl, [], .enters, fun register member => by cases member⟩
  | goes before stands leads hypothesis =>
    obtain ⟨closed, held, traced, holds⟩ := hypothesis
    obtain ⟨inst, here, isQuiet⟩ := quiet _ held traced
    obtain rfl := Option.some.inj (here.symm.trans stands)
    rcases act_quiet holds isQuiet with ⟨next, registers', world', held', goes, inside, holds',
      closes⟩ | ends
    · obtain ⟨rfl, rfl, rfl⟩ := Move.goes.inj (goes.symm.trans leads)
      exact ⟨closed.trans closes, held', .goes traced stands inside, holds'⟩
    · cases ends.symm.trans leads

/-- A handler of quiet instructions is harmless. -/
theorem Quiet.harmless {target : Nat} (quiet : Quiet format insts target) (engine : Interpreter) :
    Harmless engine format insts target := by
  intro caught start offset registers world entered
  obtain ⟨closed, held, traced, holds⟩ := quiet.traced entered
  obtain ⟨inst, stands, isQuiet⟩ := quiet offset held traced
  refine ⟨inst, stands, ?_⟩
  rcases act_quiet holds isQuiet with ⟨next, registers', world', held', goes, -, -, closes⟩ | ends
  · rw [step, goes]
    exact closed.trans closes
  · rw [step, ends]
    exact ⟨rfl, closed⟩

end

variable {insts : List Instruction}

theorem instructionAt_of_mem :
    ∀ {offset : Nat}, Following offset insts → ∀ {inst}, inst ∈ insts →
      instructionAt insts inst.offset = some inst := by
  induction insts with
  | nil => intro offset _ inst member; cases member
  | cons first rest hypothesis =>
    intro offset following inst member
    obtain ⟨rfl, positive, -, others⟩ := following
    rw [instructionAt, List.find?_cons]
    rcases mem_cons.mp member with rfl | later
    · rw [beq_self_eq_true]
    · have behind := others.le_of_mem later
      have different : (first.offset == inst.offset) = false := beq_false_of_ne (by omega)
      rw [different]
      exact hypothesis others later

/-- The next instruction stands where the one before it ends. -/
theorem offset_next :
    ∀ {offset index : Nat}, Following offset insts → ∀ {inst next : Instruction},
      insts[index]? = some inst → insts[index + 1]? = some next →
        next.offset = fallthroughOf inst := by
  induction insts with
  | nil => intro offset index _ inst next found; cases found
  | cons first rest hypothesis =>
    intro offset index following inst next found behind
    obtain ⟨rfl, -, small, others⟩ := following
    cases index with
    | succ index => exact hypothesis others found behind
    | zero =>
      cases found
      cases rest with
      | nil => cases behind
      | cons second rest =>
        cases behind
        rw [fallthroughOf, Nat.mod_eq_of_lt small]
        exact others.1

theorem positionOf_eq_some {offset index : Nat} (found : positionOf insts offset = some index) :
    ∃ inst, insts[index]? = some inst ∧ inst.offset = offset := by
  obtain ⟨inside, same, -⟩ := List.findIdx?_eq_some_iff_getElem.mp found
  exact ⟨insts[index], List.getElem?_eq_getElem inside, eq_of_beq same⟩

variable {format : BytecodeFormat} {target : Nat}

theorem isRethrowOnlyHandler_eq_true (rethrows : isRethrowOnlyHandler insts format target = true) :
    ∃ index inst next register, insts[index]? = some inst ∧ inst.offset = target ∧
      insts[index + 1]? = some next ∧ handlerOp format inst = .catches register ∧
        handlerOp format next = .throws register := by
  have answered := (getD_eq_iff.mp rethrows).resolve_right fun missing => by cases missing.2
  obtain ⟨index, position, answered⟩ := bind_eq_some_iff.mp answered
  obtain ⟨inst, found, answered⟩ := bind_eq_some_iff.mp answered
  obtain ⟨named, answered⟩ := ite_none_right_eq_some.mp answered
  obtain ⟨register, caught, answered⟩ := bind_eq_some_iff.mp answered
  obtain ⟨next, behind, answered⟩ := bind_eq_some_iff.mp answered
  obtain ⟨throws, answered⟩ := ite_none_right_eq_some.mp answered
  have thrown : getReg next.operands 0 = some register := eq_of_beq (Option.some.inj answered)
  obtain ⟨first, there, place⟩ := positionOf_eq_some position
  obtain rfl := Option.some.inj (found.symm.trans there)
  refine ⟨index, inst, next, register, found, place, behind, ?_, ?_⟩
  · rw [handlerOp, named, bind_some, handlerOp?, caught]
    rfl
  · rw [handlerOp, throws, bind_some, handlerOp?, thrown]
    rfl

/-- A rethrow is quiet. -/
theorem quiet_of_isRethrowOnlyHandler {offset target : Nat} (following : Following offset insts)
    (rethrows : isRethrowOnlyHandler insts format target = true) : Quiet format insts target:= by
  obtain ⟨index, inst, next, register, found, rfl, behind, catches, throws⟩ :=
    isRethrowOnlyHandler_eq_true rethrows
  have here := instructionAt_of_mem following (mem_of_getElem? found)
  have there := instructionAt_of_mem following (mem_of_getElem? behind)
  rw [offset_next following found behind] at there
  have places : ∀ offset held, Traced format insts inst.offset offset held →
      (offset = inst.offset ∧ held = []) ∨ (offset = fallthroughOf inst ∧ held = [register]) := by
    intro offset held traced
    induction traced with
    | enters => exact .inl ⟨rfl, rfl⟩
    | goes before stands leads hypothesis =>
      rcases hypothesis with ⟨rfl, rfl⟩ | ⟨rfl, rfl⟩
      · obtain rfl := Option.some.inj (here.symm.trans stands)
        rw [catches] at leads
        obtain ⟨rfl, rfl⟩ := Prod.mk.inj (mem_singleton.mp leads)
        exact .inr ⟨rfl, rfl⟩
      · obtain rfl := Option.some.inj (there.symm.trans stands)
        rw [throws] at leads
        cases leads
  intro offset held traced
  rcases places offset held traced with ⟨rfl, rfl⟩ | ⟨rfl, rfl⟩
  · refine ⟨inst, here, ?_⟩
    rw [catches]
    trivial
  · refine ⟨next, there, ?_⟩
    rw [throws]
    exact mem_singleton_self register

/-- A set of places that contains the target and is closed under the flow shows that a handler is
quiet. -/
theorem quiet_of_closed {format : BytecodeFormat} {insts : List Instruction} {target : Nat}
    {places : List (Nat × List Nat)} (entry : (target, []) ∈ places)
    (closed : ∀ place ∈ places, ∃ inst, instructionAt insts place.1 = some inst ∧
      QuietOp place.2 (handlerOp format inst) ∧
        ∀ next ∈ flows inst place.2 (handlerOp format inst), next ∈ places) :
    Quiet format insts target := by
  have inside : ∀ offset held, Traced format insts target offset held → (offset, held) ∈ places := by
    intro offset held traced
    induction traced with
    | enters => exact entry
    | goes before stands leads hypothesis =>
      obtain ⟨inst, here, -, next⟩ := closed _ hypothesis
      obtain rfl := Option.some.inj (here.symm.trans stands)
      exact next _ leads
  intro offset held traced
  obtain ⟨inst, here, quiet, -⟩ := closed _ (inside offset held traced)
  exact ⟨inst, here, quiet⟩

/-- No branch can be reached. -/
def Straight (format : BytecodeFormat) (insts : List Instruction) (target : Nat) : Prop :=
  ∀ offset held inst, Traced format insts target offset held → instructionAt insts offset = some inst →
    ∀ test next, handlerOp format inst ≠ .branches test next

/-- An engine that tells the caught value from all others, and returns at any other instruction. -/
def telltale : Interpreter where
  Val := Bool
  World := PUnit
  constant _ := false
  holds _ _ := false
  close _ world := world
  other _ _ world := .returns false world

/-- The registers hold the caught value and no others do. -/
def Tells (registers : Nat → Bool) (held : List Nat) : Prop :=
  ∀ register, registers register = true ↔ register ∈ held

variable {registers : Nat → Bool} {held : List Nat}

theorem Tells.update_true (tells : Tells registers held) (register : Nat)
    : Tells (Function.update registers register true) (register :: held):= by
  intro other
  by_cases same : other = register
  · simp [same]
  · rw [Function.update_of_ne same, tells, mem_cons]
    exact (or_iff_right same).symm

theorem Tells.update_false (tells : Tells registers held) (register : Nat) :
    Tells (Function.update registers register false) (held.filter (· ≠ register)) := by
  intro other
  by_cases same : other = register
  · simp [same]
  · rw [Function.update_of_ne same, tells, mem_filter]
    simp [same]

variable {inst : Instruction}

/-- Where no branch is met, one instruction goes to the one place there is. -/
theorem act_telltale {held held' : List Nat} {next : Nat} (tells : Tells registers held) :
    ∀ {op : HandlerOp}, (∀ test target, op ≠ .branches test target) →
      (next, held') ∈ flows inst held op →
        ∃ registers', act telltale true inst registers ⟨⟩ op = .goes next registers' ⟨⟩ ∧
          Tells registers' held'
  | .throws _, _, leads | .other, _, leads => by cases leads
  | .branches test target, straight, _ => absurd rfl (straight test target)
  | .catches register, _, leads => by
    obtain ⟨rfl, rfl⟩ := Prod.mk.inj (mem_singleton.mp leads)
    exact ⟨_, rfl, tells.update_true register⟩
  | .loads register, _, leads => by
    obtain ⟨rfl, rfl⟩ := Prod.mk.inj (mem_singleton.mp leads)
    exact ⟨_, rfl, tells.update_false register⟩
  | .jumps target, _, leads | .closes register, _, leads => by
    obtain ⟨rfl, rfl⟩ := Prod.mk.inj (mem_singleton.mp leads)
    exact ⟨_, rfl, tells⟩
  | .moves register source, _, leads => by
    obtain ⟨rfl, rfl⟩ := Prod.mk.inj (mem_singleton.mp leads)
    refine ⟨_, rfl, ?_⟩
    split
    case isTrue known =>
      rw [(tells source).mpr known]
      exact tells.update_true register
    case isFalse unknown =>
      rw [Bool.eq_false_iff.mpr fun holds => unknown ((tells source).mp holds)]
      exact tells.update_false register

theorem Straight.entered (straight : Straight format insts target) {offset : Nat}
    (traced : Traced format insts target offset held) :
    ∃ registers, Entered telltale format insts target true ⟨⟩ offset registers ⟨⟩ ∧
      Tells registers held := by
  induction traced with
  | enters =>
    refine ⟨fun _ => false, .enters _, fun register => ?_⟩
    simp
  | goes before stands leads hypothesis =>
    obtain ⟨registers, entered, tells⟩ := hypothesis
    obtain ⟨registers', goes, tells'⟩ := act_telltale tells (straight _ _ _ before stands) leads
    exact ⟨registers', .goes entered stands goes, tells'⟩

/-- Without branches, a handler is quiet when it is harmless in every engine. -/
theorem Straight.quiet_iff (straight : Straight format insts target) :
    (∀ engine, Harmless engine format insts target) ↔ Quiet format insts target := by
  constructor
  · intro harmless offset held traced
    obtain ⟨registers, entered, tells⟩ := straight.entered traced
    obtain ⟨inst, stands, stepped⟩ := harmless telltale true ⟨⟩ offset registers ⟨⟩ entered
    refine ⟨inst, stands, ?_⟩
    unfold step at stepped
    cases does : handlerOp format inst with
    | throws register =>
      rw [does] at stepped
      exact (tells register).mp stepped.1
    | other =>
      rw [does] at stepped
      exact stepped
    | catches | moves | loads | jumps | branches | closes => trivial
  · intro quiet engine
    exact quiet.harmless engine

section

variable (dispatch : Dispatch) (options : IRBuilderOptions) (format : BytecodeFormat) (code : Bytes)
  (insts : List Instruction) (handlers : List ExceptionHandler)

/-- The offsets at which blocks begin before jumps are lowered. -/
def leaders : List Nat := findBlockStarts insts format code handlers options.funcBytecodeOffset

def firstOffset : Nat := (insts.head?.map Instruction.offset).getD 0

def initialBuilding : Building :=
  startBuilding insts format (firstOffset insts) (leaders options format code insts handlers) handlers

/-- Each instruction with the block it is put into. -/
def placed : List (Nat × BlockId) :=
  placements options (initialBuilding options format code insts handlers)
    (dispatch.lowered dispatch.start insts)

/-- Each instruction with the offset its block begins at. -/
def runs : List (Nat × Nat) :=
  runStarts (leaders options format code insts handlers) (firstOffset insts)
    (dispatch.lowered dispatch.start insts)

/-- The protected range of a handler, if it is kept. -/
def handlerRange (handler : ExceptionHandler) : Option CfgExceptionHandler :=
  match insts with
  | [] => none
  | _ :: _ =>
      protectedRange insts format (initialBuilding options format code insts handlers).offsetToBlock
        handler

theorem finish_handlers (building : Building) :
    (finish building).exceptionHandlers = building.cfg.exceptionHandlers := by
  unfold finish
  split
  · rfl
  · split <;> rfl

/-- The graph has the handlers that are kept, in their order. -/
theorem exceptionHandlers_build :
    (buildFromInstructions dispatch options format code insts handlers).exceptionHandlers =
      handlers.filterMap (handlerRange options format code insts handlers) := by
  cases insts with
  | nil => exact (filterMap_eq_nil_iff.mpr fun _ _ => rfl).symm
  | cons first rest =>
    rw [buildFromInstructions, finish_handlers, foldl_handlers]
    rfl

variable {format insts handlers}

/-- There is one block for each leader, and the entry is the block of the first instruction. -/
theorem initialBuilding_maps (inhabited : insts ≠ []) :
    Maps (leaders options format code insts handlers)
        (initialBuilding options format code insts handlers).cfg
        (initialBuilding options format code insts handlers).offsetToBlock ∧
      (initialBuilding options format code insts handlers).offsetToBlock.get? (firstOffset insts) =
        some (initialBuilding options format code insts handlers).currentBlock := by
  obtain ⟨first, rest, rfl⟩ := exists_cons_of_ne_nil inhabited
  obtain ⟨maps, entry⟩ := initialBlocks_maps first.offset
    (leaders options format code (first :: rest) handlers)
  have leads : first.offset ∈ leaders options format code (first :: rest) handlers :=
    mem_findBlockStarts.mpr ⟨⟨first, mem_cons_self, rfl⟩, .inl rfl⟩
  refine ⟨maps.congr (fun offset => ?_) rfl, entry⟩
  rw [mem_cons]
  constructor
  · exact Or.inr
  · rintro (rfl | inside)
    · exact leads
    · exact inside

/-- A handler whose bounds stand at instructions is left out by one of the two tests only. -/
theorem handlerRange_eq_none_iff {handler : ExceptionHandler} (listed : handler ∈ handlers)
    (starts : ∃ inst ∈ insts, inst.offset = handler.start)
    (enters : ∃ inst ∈ insts, inst.offset = handler.target) :
    handlerRange options format code insts handlers handler = none ↔
      isRethrowOnlyHandler insts format handler.target = true ∨
        isIteratorCleanupHandler insts format handler.target = true := by
  have inhabited : insts ≠ [] := by
    rintro rfl
    obtain ⟨inst, member, -⟩ := starts
    cases member
  have maps := (@initialBuilding_maps options format code insts handlers inhabited).1
  have listedAt : ∀ offset, offset ∈ handlerLeaders handler →
      (∃ inst ∈ insts, inst.offset = offset) →
        ∃ id, (initialBuilding options format code insts handlers).offsetToBlock.get? offset =
          some id := by
    intro offset leads stands
    exact (maps.keys offset).mpr
      (mem_findBlockStarts.mpr ⟨stands, .inr (.inr ⟨handler, listed, leads⟩)⟩)
  obtain ⟨tryStart, foundStart⟩ := listedAt handler.start (by simp [handlerLeaders]) starts
  obtain ⟨catchBlock, foundTarget⟩ := listedAt handler.target (by simp [handlerLeaders]) enters
  obtain ⟨first, rest, rfl⟩ := exists_cons_of_ne_nil inhabited
  rw [handlerRange, protectedRange, foundStart, foundTarget]
  by_cases rethrows : isRethrowOnlyHandler (first :: rest) format handler.target = true
  · simp [rethrows]
  · by_cases cleans : isIteratorCleanupHandler (first :: rest) format handler.target = true
    · simp [rethrows, cleans]
    · simp [rethrows, cleans]

/-- The blocks of a handler that is kept. -/
theorem tryBlocks_build {offset : Nat} (following : Following offset insts)
    {handler : ExceptionHandler} {kept : CfgExceptionHandler}
    (found : handlerRange options format code insts handlers handler = some kept) :
    (∀ block, block ∈ kept.tryBlocks ↔
        Within (placed dispatch options format code insts handlers) handler.start handler.finish
          block) ↔
      ∀ start, (start, start) ∈ runs dispatch options format code insts handlers →
        handler.start ≤ start → start < handler.finish →
          (start ∈ leaders options format code insts handlers ↔
            ∀ offset, (offset, start) ∈ runs dispatch options format code insts handlers →
              offset < handler.finish) := by
  obtain ⟨first, rest, rfl⟩ : ∃ first rest, insts = first :: rest := by
    cases insts with
    | nil => cases found
    | cons first rest => exact ⟨first, rest, rfl⟩
  obtain ⟨maps, entry⟩ := @initialBuilding_maps options format code (first :: rest) handlers
    (cons_ne_nil first rest)
  have names := dispatch.map_fst_lowered (first :: rest) dispatch.start
  have follows : Following offset
      ((dispatch.lowered dispatch.start (first :: rest)).map Prod.fst) := by
    rw [names]
    exact following
  have falls := dispatch.fallsThrough (first :: rest) dispatch.start
  have atFirst : first.offset = offset := following.1
  have covers : ∀ leader ∈ leaders options format code (first :: rest) handlers,
      (leader, leader) ∈ runs dispatch options format code (first :: rest) handlers := by
    intro leader leads
    obtain ⟨⟨inst, member, rfl⟩, -⟩ := mem_findBlockStarts.mp leads
    exact mem_runStarts_of_known _ inst (names.symm ▸ member) leads
  have firstLeads : first.offset ∈ leaders options format code (first :: rest) handlers :=
    mem_findBlockStarts.mpr ⟨⟨first, mem_cons_self, rfl⟩, .inl rfl⟩
  have agree := @placements_eq options (dispatch.lowered dispatch.start (first :: rest)) _ _
    first.offset _ maps follows falls fun _ => entry
  have final := foldl_maps options (dispatch.lowered dispatch.start (first :: rest)) maps
  refine tryBlocks_iff agree (mem_tryBlocks maps.ordered found) maps final
    (fun offset id there => foldl_keeps options _ there) ?_ covers
  intro place member
  refine ⟨start_le_of_mem_runStarts _ follows (Nat.le_of_eq atFirst) place member, ?_⟩
  rcases start_mem_runStarts _ place member with same | inside
  · rw [same]
    exact covers first.offset firstLeads
  · exact inside

/-- A handler is left out by the two tests only. The blocks of a handler that is kept are those of
its range exactly where a run that begins in the range begins at a leader if and only if it ends in
it; what is left out is harmless where the handlers taken for cleanup are quiet, and without
branches only there. -/
theorem handlers_built {offset : Nat} (following : Following offset insts) :
    (buildFromInstructions dispatch options format code insts handlers).exceptionHandlers =
        handlers.filterMap (handlerRange options format code insts handlers) ∧
      ∀ handler ∈ handlers,
        (∀ kept, handlerRange options format code insts handlers handler = some kept →
          ((∀ block, block ∈ kept.tryBlocks ↔
              Within (placed dispatch options format code insts handlers) handler.start
                handler.finish block) ↔
            ∀ start, (start, start) ∈ runs dispatch options format code insts handlers →
              handler.start ≤ start → start < handler.finish →
                (start ∈ leaders options format code insts handlers ↔
                  ∀ offset, (offset, start) ∈ runs dispatch options format code insts handlers →
                    offset < handler.finish))) ∧
        ((∃ inst ∈ insts, inst.offset = handler.start) →
          (∃ inst ∈ insts, inst.offset = handler.target) →
            handlerRange options format code insts handlers handler = none →
              (isRethrowOnlyHandler insts format handler.target = true ∨
                isIteratorCleanupHandler insts format handler.target = true) ∧
              ((isRethrowOnlyHandler insts format handler.target = true ∨
                  Quiet format insts handler.target) →
                ∀ engine, Harmless engine format insts handler.target) ∧
              (Straight format insts handler.target →
                (∀ engine, Harmless engine format insts handler.target) →
                  Quiet format insts handler.target)) := by
  refine ⟨exceptionHandlers_build .., ?_⟩
  intro handler listed
  constructor
  · intro kept found
    exact tryBlocks_build dispatch options code following found
  · intro starts enters dropped
    refine ⟨(handlerRange_eq_none_iff options code listed starts enters).mp dropped, ?_, ?_⟩
    · rintro (rethrows | quiet) engine
      · exact (quiet_of_isRethrowOnlyHandler following rethrows).harmless engine
      · exact quiet.harmless engine
    · intro straight harmless
      exact straight.quiet_iff.mp harmless

end

def handleJmp (inst : Instruction) (format : BytecodeFormat) : Option FlowResult :=
  (getJumpTarget inst format).map FlowResult.jump

def handleRet (inst : Instruction) : Option FlowResult :=
  (regExpr inst.operands 0).map fun value => .returns (some value)

def handleThrow (inst : Instruction) : Option FlowResult :=
  (regExpr inst.operands 0).map FlowResult.throws

def handleCatch (inst : Instruction) : Option FlowResult :=
  (getReg inst.operands 0).map fun register =>
    .statement (.assign (.binding (.register register))
      (.value (.binding (.variable ⟨"__exception", none⟩))))

def handleIteratorClose (inst : Instruction) : Option FlowResult :=
  (regExpr inst.operands 0).map fun iterator =>
    .statement (.expr (.call (.member iterator (.ident "return") false) []))

/-- The arms of the dispatch for jumps, returns, throws and handlers. -/
def handlerArm (table : List String) (format : BytecodeFormat) (inst : Instruction) (name : String) :
    Option FlowResult :=
  match name with
  | "Jmp" | "JmpLong" => handleJmp inst format
  | "Ret" => handleRet inst
  | "Throw" => handleThrow inst
  | "Catch" => handleCatch inst
  | "IteratorClose" => handleIteratorClose inst
  | name => tryFlowHandlers table name inst format

/-- A conditional jump goes on behind its instruction. -/
theorem fallthrough_of_tryFlowHandlers {table : List String} {name : String}
    {condition : Expression} {target next : Nat}
    (lowered : tryFlowHandlers table name inst format = some (.branch condition target next)) :
    next = fallthroughOf inst := by
  unfold tryFlowHandlers at lowered
  split at lowered
  case isTrue =>
    simp only [handleJmpCond, bind_eq_bind, bind_eq_some_iff, Option.some.injEq,
      FlowResult.branch.injEq] at lowered
    obtain ⟨_, _, _, _, _, _, rfl⟩ := lowered
    rfl
  split at lowered
  case isTrue =>
    simp only [handleJmpComparison, bind_eq_bind, bind_eq_some_iff,
      Option.some.injEq, FlowResult.branch.injEq] at lowered
    obtain ⟨_, _, _, _, _, _, _, _, _, _, rfl⟩ := lowered
    rfl
  split at lowered
  case isTrue =>
    simp only [handleJmpUndefined, bind_eq_bind, bind_eq_some_iff,
      Option.some.injEq, FlowResult.branch.injEq] at lowered
    obtain ⟨_, _, _, _, _, _, rfl⟩ := lowered
    rfl
  split at lowered
  case isTrue =>
    simp only [handleJmpTypeofIs, bind_eq_bind, bind_eq_some_iff,
      Option.some.injEq, FlowResult.branch.injEq] at lowered
    obtain ⟨_, _, _, _, _, _, _, _, rfl⟩ := lowered
    rfl
  split at lowered
  case isTrue =>
    simp only [handleJmpBuiltinIs, bind_eq_bind, bind_eq_some_iff,
      Option.some.injEq, FlowResult.branch.injEq] at lowered
    obtain ⟨_, _, _, _, _, _, _, _, rfl⟩ := lowered
    rfl
  case isFalse => cases lowered

theorem fallthrough_of_handlerArm {table : List String} {name : String} {condition : Expression}
    {target next : Nat}
    (lowered : handlerArm table format inst name = some (.branch condition target next)) :
    next = fallthroughOf inst := by
  unfold handlerArm at lowered
  split at lowered
  case h_7 => exact fallthrough_of_tryFlowHandlers lowered
  all_goals
    simp [handleJmp, handleRet, handleThrow, handleCatch, handleIteratorClose] at lowered

/-- The dispatch of a table of opcodes that has only these arms. -/
def handlerDispatch (table : List String) (format : BytecodeFormat) : Dispatch where
  Environments := PUnit
  start := ⟨⟩
  run _ inst :=
    (((opcodeName format inst).bind (handlerArm table format inst)).getD
      (.statement (.comment "unknown opcode")), ⟨⟩)
  fallthrough _ inst condition target next lowered := by
    cases found : (opcodeName format inst).bind (handlerArm table format inst) with
    | none =>
      rw [found] at lowered
      cases lowered
    | some result =>
      rw [found] at lowered
      obtain ⟨name, -, arm⟩ := bind_eq_some_iff.mp found
      obtain rfl : result = .branch condition target next := lowered
      exact fallthrough_of_handlerArm arm

/-- A table of the opcodes of handlers. -/
def handlerFormat : BytecodeFormat :=
  ⟨96, [⟨0, "Catch", [.reg8], false⟩, ⟨1, "Throw", [.reg8], false⟩,
    ⟨2, "IteratorClose", [.reg8, .uint8], false⟩, ⟨3, "Ret", [.reg8], false⟩,
    ⟨4, "JmpUndefined", [.addr8, .reg8], true⟩]⟩

def plainOptions : IRBuilderOptions := ⟨false, false, 0, 0⟩

/-- A protected return, a handler that closes an iterator and throws what it caught, and a handler
that returns it. -/
def cleaning : List Instruction :=
  [⟨0, 3, [⟨.reg8, .u8 1⟩], 2⟩, ⟨2, 0, [⟨.reg8, .u8 0⟩], 2⟩,
    ⟨4, 2, [⟨.reg8, .u8 1⟩, ⟨.uint8, .u8 1⟩], 3⟩, ⟨7, 1, [⟨.reg8, .u8 0⟩], 2⟩,
    ⟨9, 0, [⟨.reg8, .u8 2⟩], 2⟩, ⟨11, 3, [⟨.reg8, .u8 2⟩], 2⟩]

def cleaningHandlers : List ExceptionHandler := [⟨0, 2, 2⟩, ⟨0, 2, 9⟩]

theorem quiet_cleaning : Quiet handlerFormat cleaning 2 := by
  refine @quiet_of_closed _ _ _ [(2, []), (4, [0]), (7, [0])] mem_cons_self ?_
  simp only [forall_mem_cons]
  exact ⟨⟨_, rfl, trivial, by decide⟩, ⟨_, rfl, trivial, by decide⟩,
    ⟨_, rfl, mem_cons_self, by decide⟩, by simp⟩

/-- The first handler is left out and harmless; the second is kept with the block of the return. -/
theorem handlers_built_cleaning :
    (buildFromInstructions (handlerDispatch [] handlerFormat) plainOptions handlerFormat [] cleaning
        cleaningHandlers).exceptionHandlers = [⟨0, 2, [0]⟩] ∧
      (∀ block, block ∈ [0] ↔ Within (placed (handlerDispatch [] handlerFormat) plainOptions
        handlerFormat [] cleaning cleaningHandlers) 0 2 block) ∧
      ∀ engine, Harmless engine handlerFormat cleaning 2 := by
  have following : Following 0 cleaning := by simp [cleaning, Following]
  obtain ⟨built, each⟩ := @handlers_built (handlerDispatch [] handlerFormat) plainOptions
    handlerFormat [] cleaning cleaningHandlers 0 following
  refine ⟨built.trans rfl, ?_, ?_⟩
  · refine ((each ⟨0, 2, 9⟩ (by decide)).1 ⟨0, 2, [0]⟩ rfl).mpr ?_
    have runsAre : runs (handlerDispatch [] handlerFormat) plainOptions handlerFormat [] cleaning
        cleaningHandlers = [(0, 0), (2, 2), (4, 2), (7, 2), (9, 9), (11, 9)] := rfl
    have leadersAre : leaders plainOptions handlerFormat [] cleaning cleaningHandlers = [0, 2, 9] :=
      rfl
    rw [runsAre, leadersAre]
    intro start inside reached early
    have bounded : start < 2 := early
    obtain rfl | rfl : start = 0 ∨ start = 1 := by omega
    · simp
    · simp at inside
  · exact ((each ⟨0, 2, 2⟩ (by decide)).2 ⟨_, mem_cons_self, rfl⟩
      ⟨_, mem_cons_of_mem _ mem_cons_self, rfl⟩ rfl).2.1 (.inr quiet_cleaning)

/-- A protected check for `undefined` and a return, with a handler that returns, and behind it the
closing of an iterator. -/
def returning : List Instruction :=
  [⟨0, 4, [⟨.addr8, .i8 5⟩, ⟨.reg8, .u8 1⟩], 3⟩, ⟨3, 3, [⟨.reg8, .u8 1⟩], 2⟩,
    ⟨5, 3, [⟨.reg8, .u8 2⟩], 2⟩, ⟨7, 0, [⟨.reg8, .u8 0⟩], 2⟩, ⟨9, 3, [⟨.reg8, .u8 0⟩], 2⟩,
    ⟨11, 0, [⟨.reg8, .u8 0⟩], 2⟩, ⟨13, 3, [⟨.reg8, .u8 2⟩], 2⟩,
    ⟨15, 2, [⟨.reg8, .u8 1⟩, ⟨.uint8, .u8 1⟩], 3⟩, ⟨18, 1, [⟨.reg8, .u8 0⟩], 2⟩]

/-- A return behind the check lies in the range of the handler and is in none of its blocks, and a
handler that returns is left out. -/
theorem handlers_lost :
    (∃ kept, handlerRange plainOptions handlerFormat [] returning [⟨0, 5, 7⟩] ⟨0, 5, 7⟩ =
        some kept ∧
      ¬ (∀ block, block ∈ kept.tryBlocks ↔ Within (placed (handlerDispatch [] handlerFormat)
        plainOptions handlerFormat [] returning [⟨0, 5, 7⟩]) 0 5 block)) ∧
    (handlerRange plainOptions handlerFormat [] returning [⟨3, 5, 11⟩] ⟨3, 5, 11⟩ = none ∧
      ¬ ∀ engine, Harmless engine handlerFormat returning 11) := by
  refine ⟨⟨⟨0, 2, [0]⟩, rfl, ?_⟩, rfl, ?_⟩
  · intro same
    have placedAre : placed (handlerDispatch [] handlerFormat) plainOptions handlerFormat []
        returning [⟨0, 5, 7⟩] =
          [(0, 0), (3, 5), (5, 1), (7, 2), (9, 2), (11, 3), (13, 3), (15, 4), (18, 4)] := rfl
    have late : 5 ∈ [0] := by
      rw [same 5, placedAre]
      refine ⟨⟨3, by decide⟩, fun offset member => ?_⟩
      simp at member
      omega
    cases late with
    | tail _ later => cases later
  · intro harmless
    have entered : Entered telltale handlerFormat returning 11 true ⟨⟩ 13
        (Function.update (fun _ => false) 0 true) ⟨⟩ :=
      .goes (.enters fun _ => false) rfl rfl
    obtain ⟨inst, stands, returns⟩ := harmless telltale true ⟨⟩ 13 _ ⟨⟩ entered
    cases stands
    exact returns

end HermesDecomp.Ir.Builder
