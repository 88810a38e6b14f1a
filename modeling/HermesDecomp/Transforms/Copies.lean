import HermesDecomp.Transforms.SsaClasses
import HermesDecomp.Transforms.Substitute

/-!
# Copy propagation across blocks

A register whose only definition copies another register is replaced by that other one
wherever the definitions of the other register that reach the read are those that
reach the copy.
-/

namespace HermesDecomp.Ir

/-- A register-to-register copy, at its place. -/
structure Copy where
  target : Nat
  source : Nat
  point : Point
deriving DecidableEq, Repr

/-- The copy a statement makes. -/
def Statement.copy? (point : Point) : Statement → Option Copy
  | assignReg target (.register source) => some ⟨target, source, point⟩
  | _ => none

namespace Propagate

variable (graph : Cfg)

/-- How often a register is defined. -/
def defCount (register : Nat) : Nat :=
  (Ssa.definitions graph).countP fun site => site.register = register

variable {graph} in
/-- A register that is defined once is defined at one point. -/
theorem eq_of_defCount {register : Nat} (once : defCount graph register = 1) {point point' : Point}
    (defines : graph.definedAt point = some register)
    (defines' : graph.definedAt point' = some register) : point = point' := by
  obtain ⟨only, isOnly⟩ := List.length_eq_one_iff.mp (List.countP_eq_length_filter.symm.trans once)
  have equal : ∀ point, graph.definedAt point = some register →
      (⟨point.block, point.index, register⟩ : DefSite) = only := by
    intro point defines
    rw [← List.mem_singleton, ← isOnly, List.mem_filter, decide_eq_true_eq]
    exact ⟨Ssa.mem_definitions.mpr defines, rfl⟩
  have sites := (equal point defines).trans (equal point' defines').symm
  rcases point with ⟨block, index⟩
  rcases point' with ⟨block', index'⟩
  simp only [DefSite.mk.injEq] at sites
  obtain ⟨rfl, rfl, _⟩ := sites
  rfl

/-- The copies of other registers into registers that are defined exactly once. -/
def copies : List Copy :=
  graph.blockIds.flatMap fun block =>
    ((graph.statements block).zipIdx.filterMap fun item =>
      item.1.copy? ⟨block, item.2⟩).filter fun copy =>
        copy.target ≠ copy.source ∧ defCount graph copy.target = 1

/-- The definitions of a register that reach a point. -/
def reachingOf (facts : ReachingDefs) (point : Point) (register : Nat) : Finset DefSite :=
  (ReachingDefs.reachingAt graph facts point).filter fun site => site.register = register

/-- The copies that apply at a point: the definitions of the source that reach the point
are those that reach the copy. -/
def active (facts : ReachingDefs) (point : Point) : List Copy :=
  (copies graph).filter fun copy =>
    reachingOf graph facts point copy.source = reachingOf graph facts copy.point copy.source

/-- The substitution at a point. -/
def activeMap (facts : ReachingDefs) (point : Point) (register : Nat) : Option Expression :=
  ((active graph facts point).find? fun copy => copy.target = register).map fun copy =>
    .register copy.source

/-- Substitute the copies that apply at a statement. -/
def copyStatement (facts : ReachingDefs) (point : Point) (statement : Statement) : Statement :=
  if (active graph facts point).isEmpty then statement
  else statement.substitute (activeMap graph facts point)

/-- Substitute the copies that apply in a block. -/
def copyBlock (facts : ReachingDefs) (id : BlockId) (block : BasicBlock) : BasicBlock where
  statements := block.statements.zipIdx.map fun item =>
    copyStatement graph facts ⟨id, item.2⟩ item.1
  terminator :=
    if (active graph facts ⟨id, block.statements.length⟩).isEmpty then block.terminator
    else block.terminator.substitute (activeMap graph facts ⟨id, block.statements.length⟩)

end Propagate

open Propagate in
/-- Propagate copies through the whole function. -/
def propagateCopies (graph : Cfg) : Cfg :=
  let facts := ReachingDefs.analyze graph
  if (copies graph).isEmpty then graph
  else { graph with
    blocks := graph.blocks.zipIdx.map fun item => copyBlock graph facts item.2 item.1 }

end HermesDecomp.Ir
