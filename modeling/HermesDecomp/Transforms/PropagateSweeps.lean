import HermesDecomp.Transforms.Propagate
import HermesDecomp.Transforms.PhasedAgreement

/-!
# What the sweeps leave

The copies a block collects never replace a register by one that has a copy itself, so
substituting twice changes nothing more, and one sweep is as good as ten. Together with
the substitution of registers with one value the pass puts, for each read, what stands
for the register at its point.
-/

namespace HermesDecomp.Ir

open Option

/-- The values that are the same wherever they are evaluated. -/
def Value.isFixed : Value → Bool
  | .parameter _ | .global | .constant _ => true
  | _ => false

namespace Copies

/-- The copies after a list of statements. -/
def after (copies : Copies) : List Statement → Copies
  | [] => copies
  | statement :: rest => (copies.track (statement.substitute copies)).after rest

/-- Copies of values that are not replaced any further. -/
structure Settled (copies : Copies) : Prop where
  propagatable : ∀ register expression, copies register = some expression →
    expression.isPropagatable = true
  closed : Composes copies copies copies

variable {copies : Copies}

theorem settled_empty : Settled empty :=
  ⟨fun _ _ found => absurd found.symm (some_ne_none _), fun _ => rfl⟩

/-- What stands for the register that stands for another is that register. -/
theorem Settled.standIn_source (settled : copies.Settled) {register source : Nat}
    (stands : standIn copies register = .register source) :
    standIn copies source = .register source := by
  have closed := settled.closed register
  rw [stands] at closed
  exact closed

/-- A plain value or a property of a known object changes under a substitution only where
it is a register. -/
theorem substitute_of_isPropagatable {expression : Expression}
    (propagatable : expression.isPropagatable = true)
    (registers : ∀ register, expression = .register register →
      standIn copies register = .register register) :
    expression.substitute copies = expression := by
  unfold Expression.isPropagatable at propagatable
  split at propagatable
  · rfl
  · rename_i value _
    cases value with
    | binding place =>
      cases place with
      | register register => exact registers register rfl
      | «variable» | closureVar => rfl
    | constant | this | global | parameter | arguments | newTarget | super => rfl
  · rfl
  · rfl
  · cases propagatable

theorem usesRegister_register (used register : Nat) :
    (Expression.register used).usesRegister register = (used == register) := rfl

/-- A register that stands for itself still does after a plain assignment of another. -/
theorem track_register {target source : Nat} {value : Expression} (apart : source ≠ target)
    (stands : standIn copies source = .register source) :
    standIn (copies.track (.assignReg target value)) source = .register source := by
  unfold standIn at stands ⊢
  simp only [track, if_neg apart]
  cases found : copies source with
  | none => rfl
  | some expression =>
    rw [found] at stands
    obtain rfl : expression = .register source := stands
    have unused : (Expression.register source).usesRegister target = false := by
      rw [usesRegister_register]
      exact beq_false_of_ne apart
    rw [filter_some, unused]
    rfl

/-- A plain assignment keeps the copies settled. -/
theorem Settled.track_assign (settled : copies.Settled) (target : Nat) (value : Expression) :
    (copies.track (.assignReg target (value.substitute copies))).Settled := by
  have again : (value.substitute copies).substitute copies = value.substitute copies :=
    value.substitute_substitute settled.closed
  let tracked := copies.track (.assignReg target (value.substitute copies))
  have stays : ∀ {source : Nat}, tracked source = none → standIn tracked source = .register source := by
    intro source missing
    rw [standIn, missing]
    rfl
  have isStable : ∀ {register : Nat} {expression : Expression}, tracked register = some expression →
      expression.isPropagatable = true ∧ expression.substitute tracked = expression := by
    intro register expression found
    by_cases here : register = target
    · simp only [tracked, track, if_pos here] at found
      split at found
      · rename_i propagatable
        obtain ⟨⟩ := found
        refine ⟨propagatable, substitute_of_isPropagatable propagatable ?_⟩
        intro source isRegister
        rw [isRegister] at again
        by_cases itself : source = target
        · have holds : tracked source = some (.register source) := by
            simp only [tracked, track, if_pos itself, isRegister]
            rfl
          rw [standIn, holds]
          rfl
        · exact track_register itself again
      · exact absurd found.symm (some_ne_none _)
    · simp only [tracked, track, if_neg here] at found
      obtain ⟨old, unused⟩ := filter_eq_some_iff.mp found
      have propagatable := settled.propagatable register expression old
      refine ⟨propagatable, substitute_of_isPropagatable propagatable ?_⟩
      rintro source rfl
      have stands : standIn copies register = .register source := by
        rw [standIn, old]
        rfl
      rw [usesRegister_register, Bool.not_eq_true', beq_eq_false_iff_ne] at unused
      exact track_register unused (settled.standIn_source stands)
  constructor
  · exact fun register expression found => (isStable found).1
  · intro register
    cases found : tracked register with
    | none =>
      rw [stays found]
      exact stays found
    | some expression =>
      have stands : standIn tracked register = expression := by
        rw [standIn, found]
        rfl
      rw [stands]
      exact (isStable found).2

theorem track_assignReg (target : Nat) (value : Expression) (register : Nat) :
    copies.track (.assignReg target value) register =
      if register = target then if value.isPropagatable then some value else none
      else (copies register).filter fun copy => !copy.usesRegister target := rfl

/-- Only a plain assignment changes the copies. -/
theorem track_of_none {statement : Statement} (plain : statement.definition? = none) :
    copies.track statement = copies := by
  unfold track
  split
  · exact absurd plain (some_ne_none _)
  · rfl

/-- The copies after a statement with copies substituted are settled again. -/
theorem Settled.track (settled : copies.Settled) (statement : Statement) :
    (copies.track (statement.substitute copies)).Settled := by
  cases defines : statement.definition? with
  | some register =>
    obtain ⟨value, rfl⟩ := Statement.eq_assignReg defines
    exact settled.track_assign register value
  | none =>
    rw [track_of_none]
    · exact settled
    · rw [Statement.definition?_substitute, defines]

theorem Settled.after (settled : copies.Settled) (statements : List Statement) :
    (copies.after statements).Settled := by
  induction statements generalizing copies with
  | nil => exact settled
  | cons statement rest ih => exact ih (settled.track statement)

end Copies

namespace Propagate

variable {copies : Copies} {graph : Cfg}

theorem copies_propagateStatements (copies : Copies) (statements : List Statement) :
    (propagateStatements copies statements).copies = copies.after statements := by
  induction statements generalizing copies with
  | nil => rfl
  | cons statement rest ih => exact ih _

/-- Each statement gets the copies made before it. -/
theorem getElem?_propagateStatements (copies : Copies) (statements : List Statement) (index : Nat) :
    (propagateStatements copies statements).statements[index]? =
      statements[index]?.map fun statement =>
        statement.substitute (copies.after (statements.take index)) := by
  induction statements generalizing copies index with
  | nil => rfl
  | cons statement rest ih =>
    cases index with
    | zero => rfl
    | succ index => exact ih _ index

/-- A second walk finds nothing to replace. -/
theorem propagateStatements_again (settled : copies.Settled) (statements : List Statement) :
    (propagateStatements copies (propagateStatements copies statements).statements).statements =
        (propagateStatements copies statements).statements ∧
      copies.after (propagateStatements copies statements).statements =
        copies.after statements := by
  induction statements generalizing copies with
  | nil => exact ⟨rfl, rfl⟩
  | cons statement rest ih =>
    have again : (statement.substitute copies).substitute copies = statement.substitute copies :=
      statement.substitute_substitute settled.closed
    obtain ⟨same, sameCopies⟩ := ih (settled.track statement)
    simp only [propagateStatements, Copies.after, again]
    exact ⟨congrArg _ same, sameCopies⟩

theorem propagateBlock_again (block : BasicBlock) :
    (propagateBlock (propagateBlock block).2).2 = (propagateBlock block).2 := by
  obtain ⟨same, sameCopies⟩ := propagateStatements_again Copies.settled_empty block.statements
  have settled := Copies.settled_empty.after block.statements
  simp [propagateBlock, copies_propagateStatements, same, sameCopies,
    Terminator.substitute_substitute settled.closed]

/-- The graph after one sweep. -/
def swept (graph : Cfg) : Cfg :=
  { graph with blocks := graph.blocks.map fun block => (propagateBlock block).2 }

theorem sweep_snd (graph : Cfg) : (sweep graph).2 = swept graph := by
  simp only [sweep, swept, List.map_map]
  rfl

theorem swept_swept (graph : Cfg) : swept (swept graph) = swept graph := by
  simp only [swept, List.map_map]
  congr 1
  apply List.map_congr_left
  intro block _
  exact propagateBlock_again block

/-- All the sweeps do what the first does. -/
theorem sweeps_succ (count : Nat) (graph : Cfg) : sweeps (count + 1) graph = swept graph := by
  induction count generalizing graph with
  | zero =>
    simp only [sweeps, sweep_snd]
    split <;> rfl
  | succ count ih =>
    rw [sweeps, sweep_snd]
    split
    · rw [ih, swept_swept]
    · rfl

theorem propagate_eq (maxIterations : Nat) (graph : Cfg) :
    propagate maxIterations graph = swept (substituteInvariant graph) := by
  unfold propagate
  by_cases zero : maxIterations = 0
  · rw [if_pos zero]
    exact sweeps_succ 9 _
  · rw [if_neg zero]
    obtain ⟨count, rfl⟩ := Nat.exists_eq_succ_of_ne_zero zero
    exact sweeps_succ count _

/-- The registers with one value, as copies. -/
def invariantCopies (graph : Cfg) : Copies :=
  fun register => (globalInvariantCopies graph).lookup register

/-- The value of a register with one value is fixed. -/
theorem isFixed_of_resolve {depth register : Nat} {expression : Expression}
    (resolved : resolveInvariantRegister graph depth register = some expression) :
    ∃ value, expression = .value value ∧ value.isFixed = true := by
  induction depth generalizing register with
  | zero => exact absurd resolved.symm (some_ne_none _)
  | succ depth ih =>
    rw [resolveInvariantRegister] at resolved
    split at resolved
    · exact absurd resolved.symm (some_ne_none _)
    · split at resolved
      · obtain ⟨⟩ := resolved
        exact ⟨_, rfl, rfl⟩
      · obtain ⟨⟩ := resolved
        exact ⟨_, rfl, rfl⟩
      · obtain ⟨⟩ := resolved
        exact ⟨_, rfl, rfl⟩
      · exact ih resolved
      · exact absurd resolved.symm (some_ne_none _)

theorem resolve_of_invariantCopies {register : Nat} {expression : Expression}
    (found : invariantCopies graph register = some expression) :
    resolveInvariantRegister graph 17 register = some expression := by
  have member := List.lookup_eq_some_iff.mp found
  obtain ⟨before, behind, same, _⟩ := member
  have listed : (register, expression) ∈ globalInvariantCopies graph := by
    rw [same]
    exact List.mem_append_right _ List.mem_cons_self
  obtain ⟨defined, _, resolved⟩ := List.mem_filterMap.mp listed
  obtain ⟨value, isValue, pair⟩ := map_eq_some_iff.mp resolved
  cases pair
  exact isValue

/-- One value for the whole function comes before a copy of the block. -/
def preferred (invariants copies : Copies) : Copies :=
  fun register => (invariants register).or (copies register)

theorem composes_preferred (copies : Copies) :
    Composes (invariantCopies graph) copies (preferred (invariantCopies graph) copies) := by
  intro register
  unfold standIn preferred
  cases found : invariantCopies graph register with
  | none => rfl
  | some expression =>
    obtain ⟨value, rfl, fixed⟩ := isFixed_of_resolve (resolve_of_invariantCopies found)
    cases value with
    | parameter | global | constant => rfl
    | binding | this | arguments | newTarget | super => exact nomatch fixed

/-- A statement after the substitution of registers with one value. -/
def invariantStatement (graph : Cfg) (statement : Statement) : Statement :=
  if (globalInvariantCopies graph).isEmpty then statement
  else statement.substitute (invariantCopies graph)

/-- A terminator after the substitution of registers with one value. -/
def invariantTerminator (graph : Cfg) (terminator : Terminator) : Terminator :=
  if (globalInvariantCopies graph).isEmpty then terminator
  else terminator.substitute (invariantCopies graph)

/-- A block after the substitution of registers with one value. -/
def invariantBlock (graph : Cfg) (block : BasicBlock) : BasicBlock where
  statements := block.statements.map (invariantStatement graph)
  terminator := invariantTerminator graph block.terminator

/-- What the pass puts for the registers read at a point. -/
def copiesAt (graph : Cfg) (point : Point) : Copies :=
  preferred (invariantCopies graph) (Copies.empty.after
    (((graph.statements point.block).map (invariantStatement graph)).take point.index))

theorem invariantCopies_of_isEmpty (empty : (globalInvariantCopies graph).isEmpty = true) :
    invariantCopies graph = Copies.empty := by
  funext register
  rw [invariantCopies, List.isEmpty_iff.mp empty]
  rfl

theorem substituteInvariant_eq (graph : Cfg) :
    substituteInvariant graph = { graph with blocks := graph.blocks.map (invariantBlock graph) } := by
  unfold substituteInvariant invariantBlock invariantStatement invariantTerminator
  dsimp only
  split
  · simp
  · rfl

/-- Both substitutions put what is preferred. -/
theorem substitute_invariantStatement (copies : Copies) (statement : Statement) :
    (invariantStatement graph statement).substitute copies =
      statement.substitute (preferred (invariantCopies graph) copies) := by
  unfold invariantStatement
  split
  · rename_i empty
    rw [invariantCopies_of_isEmpty empty]
    rfl
  · exact statement.substitute_substitute (composes_preferred copies)

theorem substitute_invariantTerminator (copies : Copies) (terminator : Terminator) :
    (invariantTerminator graph terminator).substitute copies =
      terminator.substitute (preferred (invariantCopies graph) copies) := by
  unfold invariantTerminator
  split
  · rename_i empty
    rw [invariantCopies_of_isEmpty empty]
    rfl
  · exact terminator.substitute_substitute (composes_preferred copies)

/-- The blocks the pass leaves. -/
theorem get_propagate (maxIterations : Nat) (graph : Cfg) (id : BlockId) :
    (propagate maxIterations graph).get id =
      (graph.get id).map fun block => (propagateBlock (invariantBlock graph block)).2 := by
  rw [propagate_eq, substituteInvariant_eq]
  simp only [Cfg.get, swept, List.getElem?_map, map_map]
  rfl

/-- Each statement gets what the pass puts at its point. -/
theorem getElem?_propagateBlock {id : BlockId} {block : BasicBlock} (found : graph.get id = some block)
    (index : Nat) :
    (propagateBlock (invariantBlock graph block)).2.statements[index]? =
      block.statements[index]?.map fun statement =>
        statement.substitute (copiesAt graph ⟨id, index⟩) := by
  have here : graph.statements id = block.statements := by rw [Cfg.statements, found]
  simp only [propagateBlock, getElem?_propagateStatements, invariantBlock, List.getElem?_map,
    map_map, copiesAt, here]
  congr 1
  funext statement
  exact substitute_invariantStatement _ statement

/-- The terminator gets what the pass puts at the end of the block. -/
theorem terminator_propagateBlock {id : BlockId} {block : BasicBlock}
    (found : graph.get id = some block) :
    (propagateBlock (invariantBlock graph block)).2.terminator =
      block.terminator.substitute (copiesAt graph ⟨id, block.statements.length⟩) := by
  have here : graph.statements id = block.statements := by rw [Cfg.statements, found]
  simp only [propagateBlock, copies_propagateStatements, invariantBlock, copiesAt, here]
  rw [substitute_invariantTerminator, List.take_of_length_le]
  rw [List.length_map]

end Propagate

end HermesDecomp.Ir
