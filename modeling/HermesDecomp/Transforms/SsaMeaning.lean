import HermesDecomp.Transforms.SsaRuns
import HermesDecomp.Ir.Explore

/-!
# What live-range splitting keeps

A graph all of whose reads may find only what the pass looks for is split without a change to what
any read finds.

A graph whose protected block defines a register twice need not be.
-/

namespace HermesDecomp.Ir

open Cfg ReachingDefs List

namespace Ssa

variable {graph : Cfg} {order : SiteOrder}

theorem reads_redefine (register : Nat) (statement : Statement) :
    (statement.redefine register).reads = statement.reads := by
  unfold Statement.redefine
  split <;> rfl

theorem reads_renameStatement (point : Point) (statement : Statement) :
    (renameStatement graph order (analyze graph) (liveRanges graph order (analyze graph)) point
      statement).reads = statement.reads.map (renamed graph order point) := by
  have plain := statement.reads_rewriteReads (renamed graph order point)
  unfold renameStatement
  dsimp only
  split
  · split
    · rw [reads_redefine]
      exact plain
    · exact plain
  · exact plain

theorem reads_renameTerminator (map : Nat → Nat) (terminator : Terminator) :
    (terminator.rewriteReads map).reads = terminator.valueReads.map map ++ terminator.testReads := by
  cases terminator with
  | jump | none => rfl
  | branch condition =>
    simp only [Terminator.rewriteReads, Terminator.reads, Terminator.valueReads,
      Terminator.testReads, append_nil]
    exact condition.reads_rewriteReads map
  | returnTerm value =>
    simp only [Terminator.rewriteReads, Terminator.reads, Terminator.valueReads,
      Terminator.testReads, append_nil]
    exact reads_rewriteOption map value
  | throwTerm value =>
    simp only [Terminator.rewriteReads, Terminator.reads, Terminator.valueReads,
      Terminator.testReads, append_nil]
    exact value.reads_rewriteReads map
  | switch value cases default =>
    simp only [Terminator.rewriteReads, Terminator.reads, Terminator.valueReads,
      Terminator.testReads]
    congr 1
    exact value.reads_rewriteReads map

/-- The reads at a point of the renamed graph are the renamed reads of the graph, and
the unchanged ones of the tests. -/
theorem readsAt_renamedGraph {point : Point}
    (within : point.index ≤ (graph.statements point.block).length) :
    (renamedGraph graph order).readsAt point =
      (graph.valueReadsAt point).map (renamed graph order point) ++ graph.testReadsAt point := by
  cases found : graph.get point.block with
  | none =>
    have missing : (renamedGraph graph order).get point.block = none := by
      rw [get_renamedGraph, found]
      rfl
    simp [readsAt, valueReadsAt, testReadsAt, statementAt, statements, terminator, missing, found,
      Terminator.reads, Terminator.valueReads, Terminator.testReads]
  | some block =>
    have here := statementAt_of_get found
    have found' : (renamedGraph graph order).get point.block = some (renameBlock graph order
        (analyze graph) (liveRanges graph order (analyze graph)) point.block block) := by
      rw [get_renamedGraph, found]
      rfl
    have here' := statementAt_of_get found'
    rw [renameBlock, List.getElem?_map, List.getElem?_zipIdx, ← here] at here'
    cases present : graph.statementAt point with
    | some statement =>
      rw [present] at here'
      simp only [Option.map_some, Nat.zero_add] at here'
      rw [readsAt, here', valueReadsAt, testReadsAt, present, append_nil]
      exact reads_renameStatement point statement
    | none =>
      rw [present] at here'
      simp only [Option.map_none] at here'
      have isLast := index_eq_length within present
      have sameLength : graph.statements point.block = block.statements := by rw [statements, found]
      have samePoint : (⟨point.block, block.statements.length⟩ : Point) = point := by
        rw [← sameLength, ← isLast]
      rw [readsAt, here', valueReadsAt, testReadsAt, present]
      dsimp only
      rw [terminator, found', renameBlock, samePoint, terminator, found]
      exact reads_renameTerminator _ block.terminator

/-- In a run of a splittable graph every read finds what it finds in the split graph. -/
theorem reads_of_simulates {host : Host} (splittable : Splittable graph)
    {state state' : Status host × Machine host} (simulates : Simulates graph order state state')
    {point : Point} (running : state.1 = .running point) :
    List.Forall₂ (fun register register' =>
      state.2.registers register = state'.2.registers register')
      (graph.readsAt point) ((renamedGraph graph order).readsAt point) := by
  have traced := simulates.traced point running
  have inside := simulates.versions.inside splittable traced
  have split : graph.readsAt point = graph.valueReadsAt point ++ graph.testReadsAt point := by
    unfold readsAt valueReadsAt testReadsAt
    cases graph.statementAt point with
    | some statement => exact (append_nil _).symm
    | none => rfl
  rw [split, readsAt_renamedGraph traced.inside]
  apply rel_append
  · rw [forall₂_map_right_iff, forall₂_same]
    exact inside.reads
  · rw [forall₂_same]
    exact inside.tests

/-- **Live-range splitting keeps what every read finds.** For every order of the sets and
every graph whose reads may find only what the pass looks for, each run of the split
graph goes through the same points with the same world, and each read there yields the
value written by the same definition. -/
theorem transformToSsa_readsKept (order : SiteOrder) (graph : Cfg) (splittable : Splittable graph) :
    ReadsKept graph (transformToSsa order graph) := by
  intro host fuel schedule world
  rw [transformToSsa, splitLiveRanges]
  dsimp only
  split
  · refine ⟨rfl, rfl, ?_⟩
    intro point _
    rw [forall₂_same]
    exact fun _ _ => rfl
  · have simulates : Simulates graph order (graph.run fuel schedule world)
        ((renamedGraph graph order).run fuel schedule world) :=
      simulates_run splittable fuel schedule world
    refine ⟨simulates.status, simulates.versions.world, ?_⟩
    intro point running
    exact reads_of_simulates splittable simulates running

/-- Where no exception leaves a block, whatever holds at a point is carried there. -/
theorem carried_of_holds (noHandlers : graph.exceptionHandlers = []) {writer : Writer}
    {register : Nat} {point : Point} (holds : Holds graph register writer point) :
    ∀ definition, writer = .definition definition →
      Carried graph ⟨definition.block, definition.index, register⟩ point := by
  induction holds with
  | defined reachable defines =>
    rintro definition ⟨⟩
    exact Carried.made defines
  | written reachable writes move keeps =>
    intro definition isDefinition
    cases isDefinition
  | kept holds move keeps ih =>
    intro definition isDefinition
    have carried := ih definition isDefinition
    cases move with
    | next inside => exact carried.next inside (keeps rfl)
    | follow follows => exact carried.follow follows
    | raise listed protects inside =>
      rw [noHandlers] at listed
      cases listed

/-- A graph without handlers whose registers are written by plain assignments only, with
numbers below those of the live ranges, can be split. -/
theorem splittable_of_plain (noHandlers : graph.exceptionHandlers = [])
    (plain : ∀ point, graph.otherWritesAt point = []) (noTests : ∀ point, graph.testReadsAt point = [])
    (low : ∀ point, ∀ register ∈ graph.valueReadsAt point, register < firstVersion) :
    Splittable graph where
  carried holds _ := carried_of_holds noHandlers holds _ rfl
  apart := by
    intro write register point holds _
    have written := (holds.writer.2 write rfl).2
    rw [plain] at written
    cases written
  inner := by
    intro register point _ written _
    have written := innerWritesAt_subset graph point written
    rw [plain] at written
    cases written
  tests := by
    intro definition register point _ read
    rw [noTests] at read
    cases read
  spare := by
    rintro register point _ (written | read | ⟨read, _⟩)
    · rw [plain] at written
      cases written
    · rw [noTests] at read
      cases read
    · exact Or.inl (low point register read)

/-- A loop that counts in a register. -/
def counting : Cfg where
  entry := 0
  blocks := [ ⟨[.assignReg 0 (.value (.constant (.integer 1)))], .jump 1⟩,
    ⟨[.assignReg 0 (.binary .add (.register 0) (.value (.constant (.integer 1))))],
      .branch (.binary .lt (.register 0) (.value (.constant (.integer 10)))) 1 2⟩,
    ⟨[], .returnTerm (some (.register 0))⟩]
  exceptionHandlers := []

theorem counting_splittable : Splittable counting := by
  apply splittable_of_plain
  · rfl
  · rintro ⟨_ | _ | _ | block, _ | _ | index⟩ <;> rfl
  · rintro ⟨_ | _ | _ | block, _ | _ | index⟩ <;> rfl
  · rintro ⟨_ | _ | _ | block, _ | _ | index⟩ register read
    all_goals
      simp [valueReadsAt, statementAt, statements, Cfg.get, counting, Statement.reads,
        Statement.visit, AssignTarget.visit, Expression.visit, readVisitor, Binding.register?,
        terminator, Terminator.valueReads, Expression.reads, visitOption] at read
    all_goals
      subst read
      exact Nat.succ_pos _

theorem counting_readsKept :
    Splittable counting ∧ ReadsKept counting (transformToSsa .ascending counting) :=
  ⟨counting_splittable, transformToSsa_readsKept .ascending counting counting_splittable⟩

/-- A protected block that defines a register, calls a function and defines the register
again, with a handler that returns the register. -/
def interrupted : Cfg where
  entry := 0
  blocks := [ ⟨[.assignReg 0 (.value (.constant (.integer 1)))], .jump 1⟩,
    ⟨[.assignReg 0 (.value (.constant (.integer 2))), .expr (.call (.value .global) []),
      .assignReg 0 (.value (.constant (.integer 3)))], .returnTerm none⟩,
    ⟨[], .returnTerm (some (.register 0))⟩]
  exceptionHandlers := [⟨1, 2, [1]⟩]

theorem interrupted_readsDefined : ReadsDefined interrupted :=
  readsDefined_of_explored 8 (by decide +kernel) (by decide +kernel) (by decide +kernel)

/-- The call throws, after the second definition of the register and before the third. -/
def throwing : List (Option (Interrupt Tracing.host)) :=
  [none, none, none, some ⟨0, Constant.undefined⟩]

/-- The handler returns 2 in the graph, and 1 in the split graph: the exception finds
the value of a definition that the split form keeps elsewhere. -/
theorem not_transformToSsa_readsKept : ¬ ∀ (order : SiteOrder) (graph : Cfg),
    ReadsDefined graph → ReadsKept graph (transformToSsa order graph) := by
  intro all
  have kept := (all .ascending interrupted interrupted_readsDefined Tracing.host 0 throwing
    Tracing.blank).2.2 ⟨2, 0⟩ rfl
  have original : interrupted.readsAt ⟨2, 0⟩ = [0] := by decide +kernel
  have split : (transformToSsa .ascending interrupted).readsAt ⟨2, 0⟩ = [10000] := by decide +kernel
  rw [original, split, forall₂_cons] at kept
  have found : (((interrupted.run 0 throwing Tracing.blank).2.registers 0).map Cell.value :
      Option Constant) = some (.integer 2) := by decide +kernel
  have found' : ((((transformToSsa .ascending interrupted).run 0 throwing Tracing.blank).2.registers
      10000).map Cell.value : Option Constant) = some (.integer 1) := by decide +kernel
  have same := congrArg (Option.map Cell.value) kept.1
  exact absurd (found.symm.trans (same.trans found')) (by decide)

end Ssa

end HermesDecomp.Ir
