import HermesDecomp.Analysis.Dominators
import HermesDecomp.Analysis.ReachingPaths

/-!
# Paths that the reaching-definition analysis covers

An exception can leave a protected block after any of its statements. A definition that its
block replaces later is then carried into the catch block, but the analysis has kept only the
last definition of the block. And blocks that neither the entry nor a catch block leads to are
never swept over, so nothing flows from one into another. With neither of these the analysis
covers every path.
-/

namespace HermesDecomp.Ir.ReachingDefs

open Finset

variable {graph : Cfg} {site : DefSite}

variable {point : Point}

theorem Carried.defines (carried : Carried graph site point) :
    graph.definedAt site.point = some site.register := by
  induction carried with
  | made defines => exact defines
  | next _ _ _ ih | follow _ _ ih | raiseAtStart _ _ _ ih | raiseAtEnd _ _ _ ih => exact ih

/-- A carried definition is still in the visit of its block that made it, or is the last
one of its register there. -/
theorem Carried.here_or_lasting (carried : Carried graph site point) :
    (point.block = site.block ∧ site.index < point.index ∧
      Untouched graph site.block site.register (site.index + 1) point.index) ∨
    Lasting graph site := by
  induction carried with
  | made defines =>
    left
    refine ⟨rfl, Nat.lt_succ_self _, ?_⟩
    intro index low high
    exact absurd low (Nat.not_le_of_lt high)
  | next carried inside kept ih =>
    rcases ih with ⟨here, early, untouched⟩ | lasting
    · left
      dsimp only at here early untouched ⊢
      subst here
      exact ⟨rfl, by omega, untouched.snoc kept⟩
    · exact .inr lasting
  | follow carried follows ih | raiseAtEnd carried listed protects ih =>
    right
    rcases ih with ⟨here, early, untouched⟩ | lasting
    · dsimp only at here untouched
      subst here
      exact ⟨carried.defines, untouched⟩
    · exact lasting
  | raiseAtStart carried listed protects ih =>
    right
    rcases ih with ⟨here, early, untouched⟩ | lasting
    · exact absurd early (Nat.not_lt_zero _)
    · exact lasting

variable {block : BlockId}

theorem Carried.advance {first last : Nat} (carried : Carried graph site ⟨block, first⟩)
    (ordered : first ≤ last) (inside : last ≤ (graph.statements block).length)
    (untouched : Untouched graph block site.register first last) :
    Carried graph site ⟨block, last⟩ := by
  induction last, ordered using Nat.le_induction with
  | base => exact carried
  | succ last ordered ih =>
    apply Carried.next
    · exact ih (Nat.le_of_succ_le inside) untouched.init
    · exact inside
    · exact untouched last ordered (Nat.lt_succ_self _)

theorem Lasting.carried (lasting : Lasting graph site) :
    Carried graph site ⟨site.block, (graph.statements site.block).length⟩ :=
  (Carried.made lasting.1).advance (definedAt_lt lasting.1) le_rfl lasting.2

/-- Where a definition was carried into a block and is not replaced by the block, or is
one of the block's own, it is carried to the end of the block. -/
theorem Carried.leaves (carried : Carried graph site ⟨block, 0⟩) (kept : site.block = block ∨
      Untouched graph block site.register 0 (graph.statements block).length) :
    Carried graph site ⟨block, (graph.statements block).length⟩ := by
  rcases kept with here | untouched
  · subst here
    rcases carried.here_or_lasting with ⟨_, early, _⟩ | lasting
    · exact absurd early (Nat.not_lt_zero _)
    · exact lasting.carried
  · exact carried.advance (Nat.zero_le _) le_rfl untouched

theorem Carried.mem_sites (carried : Carried graph site point) : site ∈ sites graph := by
  have defines := carried.defines
  have inside := definedAt_lt defines
  have known : site.block ∈ graph.blockIds := by
    rw [Cfg.mem_blockIds]
    by_contra outside
    have missing : graph.get site.block = none := List.getElem?_eq_none (Nat.le_of_not_lt outside)
    simp [DefSite.point, Cfg.statements, missing] at inside
  rw [sites, mem_biUnion]
  refine ⟨site.block, List.mem_toFinset.mpr known, ?_⟩
  rw [List.mem_toFinset, List.mem_filterMap]
  obtain ⟨statement, found⟩ : ∃ statement,
      (graph.statements site.block)[site.index]? = some statement :=
    ⟨_, List.getElem?_eq_getElem inside⟩
  refine ⟨(statement, site.index), ?_, ?_⟩
  · apply List.mem_of_getElem? (i := site.index)
    simp [List.getElem?_zipIdx, found]
  · simp only [Cfg.definedAt, Cfg.statementAt, DefSite.point, found, Option.bind_some] at defines
    simp [defines]

theorem inOf_initial (block : BlockId) : (initial graph).inOf block = ∅ := by
  unfold inOf initial
  dsimp only
  rw [OrdMap.get?_foldl_insert (fun _ => ∅)]
  split <;> rfl

theorem outOf_initial (block : BlockId) : (initial graph).outOf block = computeGen graph block := by
  unfold outOf initial
  dsimp only
  rw [OrdMap.get?_foldl_insert (computeGen graph)]
  split
  · rfl
  · rename_i outside
    rw [Cfg.mem_blockIds] at outside
    have missing : graph.get block = none := List.getElem?_eq_none (Nat.le_of_not_lt outside)
    simp [computeGen, Cfg.statements, missing, OrdMap.get?]

theorem update_eq_none {facts : ReachingDefs} (idle : update graph block facts = none) :
    facts.inOf block = newIn graph facts block ∧
      facts.outOf block = newOut graph block (newIn graph facts block) := by
  unfold update at idle
  dsimp only at idle
  split at idle
  · rename_i same
    exact ⟨same.1.symm, same.2.symm⟩
  · cases idle

variable {facts changed : ReachingDefs}

/-- An update sets the facts of its block to the recomputed ones, which differ from the
old ones, and keeps those of the others. -/
theorem update_eq_some (updated : update graph block facts = some changed) :
    (∀ other, changed.inOf other =
      if other = block then newIn graph facts block else facts.inOf other) ∧
    (∀ other, changed.outOf other =
      if other = block then newOut graph block (newIn graph facts block)
      else facts.outOf other) ∧
    (newIn graph facts block ≠ facts.inOf block ∨
      newOut graph block (newIn graph facts block) ≠ facts.outOf block) := by
  unfold update at updated
  dsimp only at updated
  split at updated
  · cases updated
  · rename_i differs
    cases updated
    exact ⟨fun other => OrdMap.getD_insertNew ..,
      fun other => OrdMap.getD_insertNew .., not_and_or.mp differs⟩

/-- Larger facts make larger facts. -/
theorem newIn_mono {facts larger : ReachingDefs}
    (ins : ∀ block, facts.inOf block ⊆ larger.inOf block)
    (outs : ∀ block, facts.outOf block ⊆ larger.outOf block) (block : BlockId) :
    newIn graph facts block ⊆ newIn graph larger block := by
  intro site member
  rw [mem_newIn] at member ⊢
  rcases member with ⟨source, follows, reaches⟩ | ⟨handler, listed, catches, source, protects, reaches⟩
  · exact .inl ⟨source, follows, outs source reaches⟩
  · refine .inr ⟨handler, listed, catches, source, protects, ?_⟩
    rcases reaches with atStart | atEnd
    · exact .inl (ins source atStart)
    · exact .inr (outs source atEnd)

theorem newOut_mono {reaching larger : Finset DefSite} (subset : reaching ⊆ larger)
    : newOut graph block reaching ⊆ newOut graph block larger:= by
  intro site member
  rw [mem_newOut] at member ⊢
  rcases member with ⟨reaches, kept⟩ | own
  · exact .inl ⟨subset reaches, kept⟩
  · exact .inr own

/-- What every sweep keeps: the facts are carried definitions, and recomputing them
loses none. -/
structure Sweeping (graph : Cfg) (facts : ReachingDefs) : Prop where
  carriedIn : ∀ block, ∀ site ∈ facts.inOf block, Carried graph site ⟨block, 0⟩
  carriedOut : ∀ block, ∀ site ∈ facts.outOf block,
    Carried graph site ⟨block, (graph.statements block).length⟩
  growsIn : ∀ block, facts.inOf block ⊆ newIn graph facts block
  growsOut : ∀ block, facts.outOf block ⊆ newOut graph block (newIn graph facts block)

theorem sweeping_initial : Sweeping graph (initial graph) where
  carriedIn := by
    intro block site member
    rw [inOf_initial] at member
    exact absurd member (notMem_empty _)
  carriedOut := by
    intro block site member
    rw [outOf_initial, mem_computeGen] at member
    obtain ⟨rfl, lasting⟩ := member
    exact lasting.carried
  growsIn := by
    intro block
    rw [inOf_initial]
    exact empty_subset _
  growsOut := by
    intro block
    rw [outOf_initial]
    exact subset_union_right

theorem Sweeping.carried_newIn {facts : ReachingDefs} (sweeping : Sweeping graph facts)
    (member : site ∈ newIn graph facts block) : Carried graph site ⟨block, 0⟩ := by
  rcases mem_newIn.mp member with
    ⟨source, follows, reaches⟩ | ⟨handler, listed, rfl, source, protects, atStart | atEnd⟩
  · exact (sweeping.carriedOut source site reaches).follow follows
  · exact (sweeping.carriedIn source site atStart).raiseAtStart listed protects
  · exact (sweeping.carriedOut source site atEnd).raiseAtEnd listed protects

theorem Sweeping.update (sweeping : Sweeping graph facts)
    (updated : ReachingDefs.update graph block facts = some changed) :
    Sweeping graph changed ∧ (∀ other, facts.inOf other ⊆ changed.inOf other) ∧
      ∀ other, facts.outOf other ⊆ changed.outOf other := by
  obtain ⟨ins, outs, _⟩ := update_eq_some updated
  have largerIn : ∀ other, facts.inOf other ⊆ changed.inOf other := by
    intro other
    rw [ins]
    split
    · rename_i same
      subst same
      exact sweeping.growsIn other
    · exact Finset.Subset.refl _
  have largerOut : ∀ other, facts.outOf other ⊆ changed.outOf other := by
    intro other
    rw [outs]
    split
    · rename_i same
      subst same
      exact sweeping.growsOut other
    · exact Finset.Subset.refl _
  refine ⟨⟨?_, ?_, ?_, ?_⟩, largerIn, largerOut⟩
  · intro other site member
    rw [ins] at member
    split at member
    · rename_i same
      subst same
      exact sweeping.carried_newIn member
    · exact sweeping.carriedIn other site member
  · intro other site member
    rw [outs] at member
    split at member
    · rename_i same
      subst same
      rcases mem_newOut.mp member with ⟨reaches, kept⟩ | ⟨rfl, lasting⟩
      · exact (sweeping.carried_newIn reaches).leaves kept
      · exact lasting.carried
    · exact sweeping.carriedOut other site member
  · intro other
    have larger : newIn graph facts other ⊆ newIn graph changed other :=
      newIn_mono largerIn largerOut other
    rw [ins]
    split
    · rename_i same
      subst same
      exact larger
    · exact (sweeping.growsIn other).trans larger
  · intro other
    have larger : newOut graph other (newIn graph facts other) ⊆
        newOut graph other (newIn graph changed other) :=
      newOut_mono (newIn_mono largerIn largerOut other)
    rw [outs]
    split
    · rename_i same
      subst same
      exact larger
    · exact (sweeping.growsOut other).trans larger

/-- How many facts there are. -/
def size (graph : Cfg) (facts : ReachingDefs) : Nat :=
  ∑ block ∈ graph.reversePostorder.toFinset, ((facts.inOf block).card + (facts.outOf block).card)

theorem Sweeping.size_le {facts : ReachingDefs} (sweeping : Sweeping graph facts) :
    size graph facts ≤ graph.reversePostorder.toFinset.card * (2 * (sites graph).card) := by
  rw [← smul_eq_mul]
  apply sum_le_card_nsmul
  intro block _
  have ins : (facts.inOf block).card ≤ (sites graph).card :=
    card_le_card fun site member => (sweeping.carriedIn block site member).mem_sites
  have outs : (facts.outOf block).card ≤ (sites graph).card :=
    card_le_card fun site member => (sweeping.carriedOut block site member).mem_sites
  omega

theorem Sweeping.size_lt (sweeping : Sweeping graph facts) (swept : block ∈ graph.reversePostorder)
    (updated : ReachingDefs.update graph block facts = some changed) :
    size graph facts < size graph changed := by
  obtain ⟨_, largerIn, largerOut⟩ := sweeping.update updated
  obtain ⟨ins, outs, differs⟩ := update_eq_some updated
  apply sum_lt_sum
  · intro other _
    have := card_le_card (largerIn other)
    have := card_le_card (largerOut other)
    omega
  · refine ⟨block, List.mem_toFinset.mpr swept, ?_⟩
    have inLe := card_le_card (largerIn block)
    have outLe := card_le_card (largerOut block)
    have inHere := ins block
    have outHere := outs block
    rw [if_pos rfl] at inHere outHere
    rcases differs with different | different
    · have strict : (facts.inOf block).card < (changed.inOf block).card := by
        apply card_lt_card
        apply (largerIn block).ssubset_of_ne
        rw [inHere]
        exact different.symm
      omega
    · have strict : (facts.outOf block).card < (changed.outOf block).card := by
        apply card_lt_card
        apply (largerOut block).ssubset_of_ne
        rw [outHere]
        exact different.symm
      omega

/-- The sweeps end within the number allowed, with facts that no update changes. -/
theorem analyze_settled :
    Settling.settle (update graph) graph.reversePostorder (sweeps graph) (initial graph) =
        some (analyze graph) ∧
      Sweeping graph (analyze graph) ∧
      ∀ block ∈ graph.reversePostorder, update graph block (analyze graph) = none := by
  have enough : graph.reversePostorder.toFinset.card * (2 * (sites graph).card) <
      size graph (initial graph) + sweeps graph := by
    unfold sweeps
    omega
  have keeps : ∀ block ∈ graph.reversePostorder, ∀ facts changed, Sweeping graph facts →
      update graph block facts = some changed →
        Sweeping graph changed ∧ size graph facts < size graph changed :=
    fun block swept facts changed sweeping updated =>
      ⟨(sweeping.update updated).1, sweeping.size_lt swept updated⟩
  obtain ⟨settled, ended, sweeping, idle⟩ := Settling.settle_spec keeps
    (fun facts sweeping => sweeping.size_le) sweeping_initial enough
  have same : analyze graph = settled := by rw [analyze, ended, Option.getD_some]
  rw [same]
  exact ⟨ended, sweeping, idle⟩

/-- The sweep goes over every block control can reach. -/
theorem swept_of_reachable (reachable : graph.Reachable point) :
    point.block ∈ graph.reversePostorder := by
  have general : ∃ root, (root = graph.entry ∨
      ∃ handler ∈ graph.exceptionHandlers, handler.catchBlock = root) ∧
      Relation.ReflTransGen (fun source target => target ∈ graph.successors source)
        root point.block := by
    induction reachable with
    | refl => exact ⟨graph.entry, .inl rfl, .refl⟩
    | tail _ move ih =>
      obtain ⟨root, isRoot, path⟩ := ih
      cases move with
      | next => exact ⟨root, isRoot, path⟩
      | follow follows => exact ⟨root, isRoot, path.tail follows⟩
      | raise listed => exact ⟨_, .inr ⟨_, listed, rfl⟩, .refl⟩
  obtain ⟨root, isRoot, path⟩ := general
  exact Cfg.mem_reversePostorder isRoot path

/-- What the analysis finds at a point was carried there. -/
theorem carried_of_mem (inside : point.index ≤ (graph.statements point.block).length)
    (member : site ∈ reachingAt graph (analyze graph) point) : Carried graph site point:= by
  rcases (mem_reachingAt inside).mp member with ⟨reaches, untouched⟩ | ⟨here, early, defines, untouched⟩
  · exact (analyze_settled.2.1.carriedIn point.block site reaches).advance (Nat.zero_le _) inside
      untouched
  · have made := Carried.made defines
    rw [here] at made
    exact made.advance early inside untouched

/-- What a swept block's facts say, in terms of the blocks before it. -/
theorem settled_at (swept : block ∈ graph.reversePostorder) :
    (analyze graph).inOf block = newIn graph (analyze graph) block ∧
      (analyze graph).outOf block = newOut graph block ((analyze graph).inOf block) := by
  obtain ⟨ins, outs⟩ := update_eq_none (analyze_settled.2.2 block swept)
  refine ⟨ins, ?_⟩
  rw [outs, ← ins]

/-- A definition found at the end of a block that is reached is found leaving it. -/
theorem mem_outOf_of_mem (swept : block ∈ graph.reversePostorder)
    (member : site ∈ reachingAt graph (analyze graph) ⟨block, (graph.statements block).length⟩) :
    site ∈ (analyze graph).outOf block := by
  rw [(settled_at swept).2, mem_newOut]
  rcases (mem_reachingAt (by exact le_rfl)).mp member with
    ⟨reaches, untouched⟩ | ⟨here, early, defines, untouched⟩
  · exact .inl ⟨reaches, .inr untouched⟩
  · refine .inr ⟨here, defines, ?_⟩
    rw [here]
    exact untouched

/-- A definition of a reachable block is found wherever it is carried. -/
theorem mem_of_carried (carried : Carried graph site point) (reachable : graph.Reachable site.point) :
    graph.Reachable point ∧ point.index ≤ (graph.statements point.block).length ∧
      site ∈ reachingAt graph (analyze graph) point := by
  induction carried with
  | made defines =>
    have inside := definedAt_lt defines
    refine ⟨reachable.tail (Move.next inside), inside, ?_⟩
    rw [mem_reachingAt (by exact inside)]
    refine .inr ⟨rfl, Nat.lt_succ_self _, defines, ?_⟩
    intro index low high
    exact absurd low (Nat.not_le_of_lt high)
  | next carried inside kept ih =>
    obtain ⟨before, bounded, member⟩ := ih
    refine ⟨before.tail (Move.next inside), inside, ?_⟩
    rw [mem_reachingAt (by exact inside)]
    rcases (mem_reachingAt bounded).mp member with
      ⟨reaches, untouched⟩ | ⟨here, early, defines, untouched⟩
    · exact .inl ⟨reaches, untouched.snoc kept⟩
    · exact .inr ⟨here, Nat.lt_succ_of_lt early, defines, untouched.snoc kept⟩
  | follow carried follows ih =>
    obtain ⟨before, _, member⟩ := ih
    have after := before.tail (Move.follow follows)
    refine ⟨after, Nat.zero_le _, ?_⟩
    rw [mem_reachingAt (Nat.zero_le _)]
    left
    rw [(settled_at (swept_of_reachable after)).1, mem_newIn]
    refine ⟨.inl ⟨_, follows, ?_⟩, fun index _ high => absurd high (Nat.not_lt_zero _)⟩
    exact mem_outOf_of_mem (swept_of_reachable before) member
  | raiseAtStart carried listed protects ih =>
    obtain ⟨before, _, member⟩ := ih
    have after := before.tail (Move.raise listed protects (Nat.zero_le _))
    refine ⟨after, Nat.zero_le _, ?_⟩
    rw [mem_reachingAt (Nat.zero_le _)]
    left
    rw [(settled_at (swept_of_reachable after)).1, mem_newIn]
    refine ⟨.inr ⟨_, listed, rfl, _, protects, .inl ?_⟩,
      fun index _ high => absurd high (Nat.not_lt_zero _)⟩
    rcases (mem_reachingAt (Nat.zero_le _)).mp member with ⟨reaches, _⟩ | ⟨_, early, _⟩
    · exact reaches
    · exact absurd early (Nat.not_lt_zero _)
  | raiseAtEnd carried listed protects ih =>
    obtain ⟨before, _, member⟩ := ih
    have after := before.tail (Move.raise listed protects le_rfl)
    refine ⟨after, Nat.zero_le _, ?_⟩
    rw [mem_reachingAt (Nat.zero_le _)]
    left
    rw [(settled_at (swept_of_reachable after)).1, mem_newIn]
    refine ⟨.inr ⟨_, listed, rfl, _, protects, .inr ?_⟩,
      fun index _ high => absurd high (Nat.not_lt_zero _)⟩
    exact mem_outOf_of_mem (swept_of_reachable before) member

end HermesDecomp.Ir.ReachingDefs

namespace HermesDecomp.Ir.ReachingDefs

open Dominance Dominators Finset

variable {graph : Cfg} {site : DefSite}

/-- A path leads from a definition to a point, along edges or out of a protected block at any
point, on which the register is not defined again. -/
inductive Survives (graph : Cfg) (site : DefSite) : Point → Prop where
  | made (defines : graph.definedAt site.point = some site.register) :
      Survives graph site ⟨site.block, site.index + 1⟩
  | next {block : BlockId} {index : Nat} (survives : Survives graph site ⟨block, index⟩)
      (inside : index < (graph.statements block).length)
      (kept : graph.definedAt ⟨block, index⟩ ≠ some site.register) :
      Survives graph site ⟨block, index + 1⟩
  | follow {source target : BlockId}
      (survives : Survives graph site ⟨source, (graph.statements source).length⟩)
      (follows : target ∈ graph.successors source) : Survives graph site ⟨target, 0⟩
  | raise {source : BlockId} {index : Nat} {handler : CfgExceptionHandler}
      (survives : Survives graph site ⟨source, index⟩)
      (listed : handler ∈ graph.exceptionHandlers) (protects : source ∈ handler.tryBlocks) :
      Survives graph site ⟨handler.catchBlock, 0⟩

/-- Every definition is found at the start of every block a path carries it to. -/
def Sound (graph : Cfg) : Prop :=
  ∀ site block, Survives graph site ⟨block, 0⟩ → site ∈ (analyze graph).inOf block

/-- No definition in a protected block is replaced later in the block. -/
def NoneReplaced (graph : Cfg) : Prop :=
  ∀ handler ∈ graph.exceptionHandlers, ∀ block ∈ handler.tryBlocks, ∀ index register,
    graph.definedAt ⟨block, index⟩ = some register →
      Untouched graph block register (index + 1) (graph.statements block).length

/-- No block that no root reaches and that has a definition leads to another such block. -/
def NoneStranded (graph : Cfg) : Prop :=
  ∀ source target, target ∈ graph.successors source →
    ¬ Reached graph.successors (roots graph) target →
      ∀ index register, graph.definedAt ⟨source, index⟩ ≠ some register

variable {block : BlockId}

/-- The sweep goes over reached blocks only. -/
theorem reached_of_swept (swept : block ∈ graph.reversePostorder) :
    Reached graph.successors (roots graph) block := by
  refine Cfg.holds_of_mem_reversePostorder ?_ ?_ swept
  · intro root isRoot
    exact ⟨root, mem_coe.mpr (mem_roots.mpr isRoot), [root], .here⟩
  · exact fun node reached successor follows => reached.step follows

/-- What the sweeps leave alone: nothing reaches the start of a block they do not go over, and
the last definitions of a block reach its end. -/
theorem analyze_kept : (∀ block, block ∉ graph.reversePostorder → (analyze graph).inOf block = ∅) ∧
    ∀ block, computeGen graph block ⊆ (analyze graph).outOf block := by
  refine @Settling.settle_keeps _ _ (update graph)
    (fun facts => (∀ block, block ∉ graph.reversePostorder → facts.inOf block = ∅) ∧
      ∀ block, computeGen graph block ⊆ facts.outOf block)
    graph.reversePostorder ?_ (sweeps graph) (initial graph) (analyze graph) ?_ analyze_settled.1
  · rintro node swept facts changed ⟨ins, outs⟩ updated
    obtain ⟨newIns, newOuts, _⟩ := update_eq_some updated
    refine ⟨?_, ?_⟩
    · intro block away
      have other : block ≠ node := by
        rintro rfl
        exact away swept
      rw [newIns, if_neg other]
      exact ins block away
    · intro block
      rw [newOuts]
      split
      case isTrue same =>
        subst same
        exact subset_union_right
      case isFalse => exact outs block
  · refine ⟨fun block _ => inOf_initial block, fun block => ?_⟩
    rw [outOf_initial]

theorem Lasting.mem_outOf (lasting : Lasting graph site) :
    site ∈ (analyze graph).outOf site.block :=
  analyze_kept.2 site.block (mem_computeGen.mpr ⟨rfl, lasting⟩)

/-- A register that a block defines has a last definition there. -/
theorem exists_lasting {index register : Nat}
    (defines : graph.definedAt ⟨block, index⟩ = some register) :
    ∃ last, Lasting graph ⟨block, last, register⟩ := by
  let defined : Nat → Prop := fun other => graph.definedAt ⟨block, other⟩ = some register
  have inside : index ≤ (graph.statements block).length := le_of_lt (definedAt_lt defines)
  have isLast : defined (Nat.findGreatest defined (graph.statements block).length) :=
    Nat.findGreatest_spec inside defines
  refine ⟨_, isLast, ?_⟩
  intro other low high found
  have above : other ≤ Nat.findGreatest defined (graph.statements block).length :=
    Nat.le_findGreatest (le_of_lt high) found
  exact absurd low (Nat.not_le_of_lt (Nat.lt_succ_of_le above))

/-- A definition survives the statements that do not replace it. -/
theorem Survives.advance {first last : Nat} (survives : Survives graph site ⟨block, first⟩)
    (ordered : first ≤ last) (inside : last ≤ (graph.statements block).length)
    (untouched : Untouched graph block site.register first last) :
    Survives graph site ⟨block, last⟩ := by
  induction last, ordered using Nat.le_induction with
  | base => exact survives
  | succ last ordered ih =>
    apply Survives.next
    · exact ih (Nat.le_of_succ_le inside) untouched.init
    · exact inside
    · exact untouched last ordered (Nat.lt_succ_self _)

/-- With no definition replaced in a protected block and none stranded, a path that carries a
definition to a point made it in the same visit of the block, or the analysis found it at the
start of the block. -/
theorem Survives.here_or_found (replaced : NoneReplaced graph) (stranded : NoneStranded graph)
    {point : Point} (survives : Survives graph site point) :
    (point.block = site.block ∧ site.index < point.index ∧
      graph.definedAt site.point = some site.register ∧
      Untouched graph site.block site.register (site.index + 1) point.index) ∨
    (site ∈ (analyze graph).inOf point.block ∧
      Untouched graph point.block site.register 0 point.index) := by
  have swept_of_mem : ∀ {block}, site ∈ (analyze graph).inOf block →
      block ∈ graph.reversePostorder := by
    intro block member
    by_contra away
    rw [analyze_kept.1 block away] at member
    exact absurd member (notMem_empty site)
  have fresh : ∀ block, Untouched graph block site.register 0 0 :=
    fun block index _ high => absurd high (Nat.not_lt_zero _)
  induction survives with
  | made defines =>
    refine .inl ⟨rfl, Nat.lt_succ_self _, defines, ?_⟩
    exact fun index low high => absurd low (Nat.not_le_of_lt high)
  | next survives inside kept ih =>
    rcases ih with ⟨here, early, defines, untouched⟩ | ⟨found, untouched⟩
    · dsimp only at here early untouched ⊢
      subst here
      exact .inl ⟨rfl, Nat.lt_succ_of_lt early, defines, untouched.snoc kept⟩
    · exact .inr ⟨found, untouched.snoc kept⟩
  | @follow source target survives follows ih =>
    refine .inr ⟨?_, fresh target⟩
    have leaves : site ∈ (analyze graph).outOf source ∧
        Reached graph.successors (roots graph) target := by
      rcases ih with ⟨here, early, defines, untouched⟩ | ⟨found, untouched⟩
      · dsimp only at here untouched
        subst here
        refine ⟨Lasting.mem_outOf ⟨defines, untouched⟩, ?_⟩
        by_contra unreached
        exact stranded site.block target follows unreached site.index site.register defines
      · have swept := swept_of_mem found
        refine ⟨?_, (reached_of_swept swept).step follows⟩
        rw [(settled_at swept).2, mem_newOut]
        exact .inl ⟨found, .inr untouched⟩
    dsimp only
    rw [(settled_at (swept_of_reached leaves.2)).1, mem_newIn]
    exact .inl ⟨source, follows, leaves.1⟩
  | @raise source index handler survives listed protects ih =>
    refine .inr ⟨?_, fresh handler.catchBlock⟩
    have swept : handler.catchBlock ∈ graph.reversePostorder :=
      Cfg.mem_reversePostorder (.inr ⟨handler, listed, rfl⟩) .refl
    dsimp only
    rw [(settled_at swept).1, mem_newIn]
    refine .inr ⟨handler, listed, rfl, source, protects, ?_⟩
    rcases ih with ⟨here, early, defines, untouched⟩ | ⟨found, untouched⟩
    · dsimp only at here
      subst here
      have lasting := replaced handler listed site.block protects site.index site.register defines
      exact .inr (Lasting.mem_outOf ⟨defines, lasting⟩)
    · exact .inl found

/-- The analysis ends, nothing it finds at a point of a block is made up, and of the definitions in
reach it finds each one that is carried there. -/
theorem analyze_carried_iff (graph : Cfg) :
    Settling.settle (update graph) graph.reversePostorder (sweeps graph) (initial graph) =
        some (analyze graph) ∧
      ∀ site point, point.index ≤ (graph.statements point.block).length →
        (site ∈ reachingAt graph (analyze graph) point → Carried graph site point) ∧
        (graph.Reachable site.point →
          (site ∈ reachingAt graph (analyze graph) point ↔ Carried graph site point)) :=
  ⟨analyze_settled.1, fun _ _ inside => ⟨carried_of_mem inside, fun reachable =>
    ⟨carried_of_mem inside, fun carried => (mem_of_carried carried reachable).2.2⟩⟩⟩

/-- The analysis ends within the sweeps allowed. It finds every definition at the start of every
block that a path carries it to exactly when no definition in a protected block is replaced
later in the block, and no unreached block that has a definition leads to an unreached one. -/
theorem analyze_sound_iff (graph : Cfg) :
    Settling.settle (update graph) graph.reversePostorder (sweeps graph) (initial graph) =
        some (analyze graph) ∧
      (Sound graph ↔ NoneReplaced graph ∧ NoneStranded graph) := by
  refine ⟨analyze_settled.1, ?_, ?_⟩
  · intro sound
    refine ⟨?_, ?_⟩
    · intro handler listed block protects index register defines
      have made := @Survives.made graph ⟨block, index, register⟩ defines
      have found := sound _ _ (made.raise listed protects)
      rcases (analyze_settled.2.1.carriedIn _ _ found).here_or_lasting with ⟨_, early, _⟩ | lasting
      · exact absurd early (Nat.not_lt_zero _)
      · exact lasting.2
    · intro source target follows unreached index register defines
      obtain ⟨last, lasting⟩ := exists_lasting defines
      have made := @Survives.made graph ⟨source, last, register⟩ lasting.1
      have inside := definedAt_lt lasting.1
      have found := sound _ _ ((made.advance inside le_rfl lasting.2).follow follows)
      rw [analyze_kept.1 target (mt reached_of_swept unreached)] at found
      exact absurd found (notMem_empty _)
  · rintro ⟨replaced, stranded⟩ site block survives
    rcases survives.here_or_found replaced stranded with ⟨_, early, _⟩ | ⟨found, _⟩
    · exact absurd early (Nat.not_lt_zero _)
    · exact found

/-- A register defined twice in a protected block. -/
def replacingGraph : Cfg where
  entry := 0
  blocks := [⟨[.assignReg 0 (.value (.constant .undefined)),
      .assignReg 0 (.value (.constant .null))], .returnTerm none⟩, ⟨[], .returnTerm none⟩]
  exceptionHandlers := [⟨0, 1, [0]⟩]

theorem analyze_replacing : ¬ Sound replacingGraph := by
  intro sound
  have made := @Survives.made replacingGraph ⟨0, 0, 0⟩ rfl
  have found := sound _ _ (made.raise List.mem_cons_self (List.mem_singleton_self 0))
  revert found
  decide +kernel

end HermesDecomp.Ir.ReachingDefs
