import HermesDecomp.Transforms.Copies

/-!
# Propagation of copies inside a block

A register that is defined once, as a parameter, a constant or the global object, is replaced by
that value in the whole function. After that each block is walked with the copies made so far: a
plain value, or a property of a known object, replaces the reads of the register it was assigned
to.
-/

namespace HermesDecomp.Ir

section UsesRegister

variable (register : Nat)

mutual

/-- Whether an expression reads a register, as the propagation sees it. -/
def Expression.usesRegister : Expression → Bool
  | .value (.binding (.register used)) => used == register
  | .binary _ left right => left.usesRegister || right.usesRegister
  | .unary _ operand => operand.usesRegister
  | .member object property _ => object.usesRegister || property.usesRegister
  | .call callee arguments => callee.usesRegister || anyUsesRegister arguments
  | .new callee arguments => callee.usesRegister || anyUsesRegister arguments
  | .object properties => propertiesUseRegister properties
  | .array elements => elementsUseRegister elements
  | .conditional condition thenExpr elseExpr =>
      condition.usesRegister || thenExpr.usesRegister || elseExpr.usesRegister
  | _ => false

def anyUsesRegister : List Expression → Bool
  | [] => false
  | first :: rest => first.usesRegister || anyUsesRegister rest

def elementsUseRegister : List (Option Expression) → Bool
  | [] => false
  | none :: rest => elementsUseRegister rest
  | some first :: rest => first.usesRegister || elementsUseRegister rest

def PropertyKey.usesRegister : PropertyKey → Bool
  | .computed key => key.usesRegister
  | _ => false

def propertiesUseRegister : List ObjectProperty → Bool
  | [] => false
  | .mk key value :: rest => (value.usesRegister || key.usesRegister) || propertiesUseRegister rest

end

end UsesRegister

/-- The values that may replace the register they are assigned to. The value the catch
opcode produces stays in its register. -/
def Expression.isPropagatable : Expression → Bool
  | .value (.binding (.variable name)) => name.name != "__exception"
  | .value _ => true
  | .member (.value .global) (.ident _) false => true
  | .member (.value (.constant (.string _))) (.ident _) false => true
  | _ => false

/-- The expressions that stand for registers. -/
abbrev Copies := Nat → Option Expression

namespace Copies

/-- No copy. -/
def empty : Copies := fun _ => none

/-- The copies after a statement: a plain assignment ends the copies of its register and
those that read it, and may make a new one. -/
def track (copies : Copies) : Statement → Copies
  | .assignReg target value => fun register =>
      if register = target then if value.isPropagatable then some value else none
      else (copies register).filter fun copy => !copy.usesRegister target
  | _ => copies

end Copies

namespace Propagate

/-- The value of the last plain assignment of a register. -/
def valueOf (graph : Cfg) (register : Nat) : Option Expression :=
  ((Ssa.definitions graph).reverse.find? fun site => site.register = register).bind fun site =>
    match graph.statementAt site.point with
    | some (.assignReg _ value) => some value
    | _ => none

/-- The value of a register that is defined once, through a chain of at most so many
registers. -/
def resolveInvariantRegister (graph : Cfg) : Nat → Nat → Option Expression
  | 0, _ => none
  | depth + 1, register =>
      if defCount graph register ≠ 1 then none
      else
        match valueOf graph register with
        | some (.value (.parameter index)) => some (.value (.parameter index))
        | some (.value .global) => some (.value .global)
        | some (.value (.constant constant)) => some (.value (.constant constant))
        | some (.value (.binding (.register source))) => resolveInvariantRegister graph depth source
        | _ => none

/-- The registers with one value in the whole function, and these values. A chain is
followed over seventeen registers. -/
def globalInvariantCopies (graph : Cfg) : List (Nat × Expression) :=
  ((Ssa.definitions graph).map DefSite.register).dedup.filterMap fun register =>
    (resolveInvariantRegister graph 17 register).map fun value => (register, value)

/-- Substitute the registers with one value. -/
def substituteInvariant (graph : Cfg) : Cfg :=
  let invariants := globalInvariantCopies graph
  if invariants.isEmpty then graph
  else
    let copies : Copies := fun register => invariants.lookup register
    { graph with
      blocks := graph.blocks.map fun block =>
        { statements := block.statements.map fun statement => statement.substitute copies
          terminator := block.terminator.substitute copies } }

/-- What a walk over statements with copies gives. -/
structure Walked where
  statements : List Statement
  changed : Bool
  copies : Copies

/-- Substitute the copies made so far in each statement. -/
def propagateStatements (copies : Copies) : List Statement → Walked
  | [] => ⟨[], false, copies⟩
  | statement :: rest =>
      let substituted := statement.substitute copies
      let walked := propagateStatements (copies.track substituted) rest
      ⟨substituted :: walked.statements, !substituted.same statement || walked.changed,
        walked.copies⟩

/-- Substitute the copies of a block, and say whether this changed anything. -/
def propagateBlock (block : BasicBlock) : Bool × BasicBlock :=
  let walked := propagateStatements Copies.empty block.statements
  let terminator := block.terminator.substitute walked.copies
  (walked.changed || !terminator.same block.terminator, ⟨walked.statements, terminator⟩)

/-- Substitute the copies of every block. -/
def sweep (graph : Cfg) : Bool × Cfg :=
  let results := graph.blocks.map propagateBlock
  (results.any Prod.fst, { graph with blocks := results.map Prod.snd })

/-- Sweep over the blocks until nothing changes, at most so many times. -/
def sweeps : Nat → Cfg → Cfg
  | 0, graph => graph
  | count + 1, graph =>
      let swept := sweep graph
      if swept.1 then sweeps count swept.2 else swept.2

end Propagate

/-- Propagate values and copies. A limit of zero stands for the usual one. -/
def propagate (maxIterations : Nat) (graph : Cfg) : Cfg :=
  Propagate.sweeps (if maxIterations = 0 then 10 else maxIterations)
    (Propagate.substituteInvariant graph)

end HermesDecomp.Ir
