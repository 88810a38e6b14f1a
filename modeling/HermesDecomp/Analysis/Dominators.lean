import HermesDecomp.Ir.Graph
import HermesDecomp.Library.Dominance
import HermesDecomp.Library.OrdMap
import HermesDecomp.Library.Worklist
import Mathlib.Algebra.Group.Action.Defs
import Mathlib.Tactic.Linarith

/-!
# Dominators

The dominators of every block, found by sweeping over the blocks in reverse postorder and
cutting the set of each down to what its predecessors share. The entry and the catch blocks
are roots: they are dominated by themselves alone, and no sweep visits them. A block that no
root reaches keeps the set of all blocks.
-/

namespace HermesDecomp.Ir.Dominators

open Dominance List

/-- The sets of dominators found so far. -/
abbrev Dom := OrdMap (Finset BlockId)

/-- The entry and the catch blocks. -/
def roots (graph : Cfg) : Finset BlockId :=
  (graph.entry :: graph.exceptionHandlers.map CfgExceptionHandler.catchBlock).toFinset

/-- The sets before the first sweep. -/
def initial (graph : Cfg) : Dom :=
  graph.blockIds.foldl (fun dom id =>
    dom.insert id (if id ∈ roots graph then {id} else graph.blockIds.toFinset)) []

/-- What the predecessors of a block share, and the block. -/
def newDom (dom : Dom) (block first : BlockId) (rest : List BlockId) : Finset BlockId :=
  insert block (rest.foldl (fun shared pred =>
    match dom.get? pred with
    | some predDom => shared ∩ predDom
    | none => shared) ((dom.get? first).getD ∅))

/-- Recompute the set of a block, and answer nothing when it is what it was. The set of a
block that is not in the graph is missing, and reading it fails, which no set stands for. -/
def update (graph : Cfg) (block : BlockId) : Option Dom → Option (Option Dom)
  | none => none
  | some dom =>
    if block ∈ roots graph then none
    else
      match graph.predecessors block with
      | [] => none
      | first :: rest =>
        match dom.get? block with
        | none => some none
        | some old =>
          if newDom dom block first rest = old then none
          else some (some (dom.insert block (newDom dom block first rest)))

/-- More sweeps than the sets can change in. -/
def sweeps (graph : Cfg) : Nat := graph.blocks.length * graph.blocks.length + 1

/-- The dominators of every block, when the sweeps end and read no missing set. -/
def computeDominators (graph : Cfg) : Option Dom :=
  (Settling.settle (update graph) graph.reversePostorder (sweeps graph) (some (initial graph))).join

/-- The set of a block. -/
def domOf (dom : Dom) (block : BlockId) : Finset BlockId := (dom.get? block).getD ∅

/-- Every block that a terminator goes to is in the graph. -/
def Closed (graph : Cfg) : Prop :=
  ∀ source, ∀ target ∈ graph.successors source, target ∈ graph.blockIds

instance (graph : Cfg) : Decidable (Closed graph) :=
  decidable_of_iff (∀ source ∈ graph.blockIds, ∀ target ∈ graph.successors source,
    target ∈ graph.blockIds)
    ⟨fun inside source target follows =>
      inside source (Cfg.mem_blockIds_of_successor follows) target follows,
      fun closed source _ => closed source⟩

variable {graph : Cfg}

theorem mem_roots {block : BlockId} : block ∈ roots graph ↔
    block = graph.entry ∨ ∃ handler ∈ graph.exceptionHandlers, handler.catchBlock = block := by
  simp [roots]

/-- A block that is reached from a root is swept over. -/
theorem swept_of_reached {block : BlockId} (reached : Reached graph.successors (roots graph) block) :
    block ∈ graph.reversePostorder := by
  obtain ⟨root, isRoot, _, path⟩ := reached
  exact Cfg.mem_reversePostorder (mem_roots.mp (Finset.mem_coe.mp isRoot)) path.reaches

variable {dom : Dom} {block first above : BlockId} {rest : List BlockId}

/-- The sets hold what predecessors share and the block. -/
theorem mem_newDom (known : ∀ pred ∈ rest, ∃ set, dom.get? pred = some set) :
    above ∈ newDom dom block first rest ↔
      above = block ∨ ∀ pred ∈ first :: rest, above ∈ domOf dom pred := by
  have shared : ∀ (preds : List BlockId) (start : Finset BlockId),
      (∀ pred ∈ preds, ∃ set, dom.get? pred = some set) →
      (above ∈ preds.foldl (fun shared pred =>
        match dom.get? pred with
        | some predDom => shared ∩ predDom
        | none => shared) start ↔ above ∈ start ∧ ∀ pred ∈ preds, above ∈ domOf dom pred) := by
    intro preds
    induction preds with
    | nil => simp
    | cons pred preds ih =>
      intro start sets
      obtain ⟨set, found⟩ := sets pred mem_cons_self
      rw [foldl_cons, found, ih _ fun other member => sets other (mem_cons_of_mem pred member)]
      simp [domOf, found, and_assoc]
  rw [newDom, Finset.mem_insert, shared rest _ known, forall_mem_cons, domOf]

/-- What the sweeps keep: every block of the graph has a set, of blocks of the graph, that
holds its dominators; roots have themselves alone; and no set is smaller than its
recomputation. -/
structure Sweeping (graph : Cfg) (dom : Dom) : Prop where
  known : ∀ block ∈ graph.blockIds, ∃ set, dom.get? block = some set
  inside : ∀ block ∈ graph.blockIds, ∀ above ∈ domOf dom block, above ∈ graph.blockIds
  dominators : ∀ block ∈ graph.blockIds, ∀ above ∈ graph.blockIds,
    Dominates graph.successors (roots graph) above block → above ∈ domOf dom block
  atRoot : ∀ block ∈ graph.blockIds, block ∈ roots graph → domOf dom block = {block}
  shrinks : ∀ block ∈ graph.blockIds, block ∉ roots graph → ∀ first rest,
    graph.predecessors block = first :: rest → newDom dom block first rest ⊆ domOf dom block

theorem predecessor_mem {block pred : BlockId} (member : pred ∈ graph.predecessors block) :
    pred ∈ graph.blockIds := Cfg.mem_blockIds_of_successor (Cfg.mem_predecessors.mp member)

theorem Sweeping.mem_newDom (sweeping : Sweeping graph dom)
    (preds : graph.predecessors block = first :: rest) :
    above ∈ newDom dom block first rest ↔
      above = block ∨ ∀ pred ∈ graph.predecessors block, above ∈ domOf dom pred := by
  rw [Dominators.mem_newDom, preds]
  intro pred member
  refine sweeping.known pred (@predecessor_mem _ block _ ?_)
  rw [preds]
  exact mem_cons_of_mem first member

theorem domOf_initial {block : BlockId} (listed : block ∈ graph.blockIds) :
    (initial graph).get? block =
      some (if block ∈ roots graph then {block} else graph.blockIds.toFinset) := by
  rw [initial, OrdMap.get?_foldl_insert (fun id =>
    if id ∈ roots graph then {id} else graph.blockIds.toFinset), if_pos listed]

theorem sweeping_initial : Sweeping graph (initial graph) where
  known := fun block listed => ⟨_, domOf_initial listed⟩
  inside := by
    intro block listed above member
    rw [domOf, domOf_initial listed, Option.getD_some] at member
    split at member
    · rw [Finset.mem_singleton.mp member]
      exact listed
    · exact mem_toFinset.mp member
  dominators := by
    intro block listed above inside dominates
    rw [domOf, domOf_initial listed, Option.getD_some]
    split
    case isTrue isRoot =>
      rw [(dominates_root (Finset.mem_coe.mpr isRoot)).mp dominates]
      exact Finset.mem_singleton_self block
    case isFalse => exact mem_toFinset.mpr inside
  atRoot := by
    intro block listed isRoot
    rw [domOf, domOf_initial listed, Option.getD_some, if_pos isRoot]
  shrinks := by
    intro block listed notRoot first rest preds above member
    rw [domOf, domOf_initial listed, Option.getD_some, if_neg notRoot, mem_toFinset]
    have isPred : first ∈ graph.predecessors block := by rw [preds]; exact mem_cons_self
    have known : ∀ pred ∈ rest, ∃ set, (initial graph).get? pred = some set := by
      intro pred later
      refine ⟨_, domOf_initial (@predecessor_mem _ block _ ?_)⟩
      rw [preds]
      exact mem_cons_of_mem first later
    rcases (Dominators.mem_newDom known).mp member with rfl | shared
    · exact listed
    · have inFirst := shared first mem_cons_self
      rw [domOf, domOf_initial (predecessor_mem isPred), Option.getD_some] at inFirst
      split at inFirst
      · rw [Finset.mem_singleton.mp inFirst]
        exact predecessor_mem isPred
      · exact mem_toFinset.mp inFirst

/-- Smaller sets make smaller sets. -/
theorem newDom_mono {dom smaller : Dom} (sweeping : Sweeping graph dom)
    (known : ∀ block ∈ graph.blockIds, ∃ set, smaller.get? block = some set)
    (subset : ∀ block ∈ graph.blockIds, domOf smaller block ⊆ domOf dom block)
    {block first : BlockId} (preds : graph.predecessors block = first :: rest) :
    newDom smaller block first rest ⊆ newDom dom block first rest := by
  intro above member
  have listed : ∀ pred ∈ rest, pred ∈ graph.blockIds := by
    intro pred later
    refine @predecessor_mem _ block _ ?_
    rw [preds]
    exact mem_cons_of_mem first later
  rw [Dominators.mem_newDom fun pred later => known pred (listed pred later), ← preds] at member
  rw [sweeping.mem_newDom preds]
  refine member.imp_right fun shared pred isPred => ?_
  exact subset pred (predecessor_mem isPred) (shared pred isPred)

/-- What dominates a block dominates its predecessors, or is the block. -/
theorem Sweeping.dominators_newDom (sweeping : Sweeping graph dom)
    (preds : graph.predecessors block = first :: rest) (inside : above ∈ graph.blockIds)
    (dominates : Dominates graph.successors (roots graph) above block) :
    above ∈ newDom dom block first rest := by
  rw [sweeping.mem_newDom preds]
  by_cases same : above = block
  · exact .inl same
  · refine .inr fun pred isPred => ?_
    have before := dominates.of_follows (Cfg.mem_predecessors.mp isPred) same
    exact sweeping.dominators pred (predecessor_mem isPred) above inside before

theorem domOf_insert (dom : Dom) (block other : BlockId) (set : Finset BlockId) :
    domOf (dom.insert block set) other = if other = block then set else domOf dom other :=
  OrdMap.getD_insert dom block other set ∅

/-- Setting a block of the graph to the recomputed set keeps what the sweeps keep. -/
theorem Sweeping.insert (sweeping : Sweeping graph dom) {block first : BlockId}
    (listed : block ∈ graph.blockIds) (notRoot : block ∉ roots graph)
    (preds : graph.predecessors block = first :: rest) :
    Sweeping graph (dom.insert block (newDom dom block first rest)) := by
  have known : ∀ other ∈ graph.blockIds, ∃ set,
      (dom.insert block (newDom dom block first rest)).get? other = some set := by
    intro other member
    by_cases same : other = block
    · rw [same]
      exact ⟨_, OrdMap.get?_insert_self ..⟩
    · rw [OrdMap.get?_insert_of_ne same]
      exact sweeping.known other member
  have subset : ∀ other ∈ graph.blockIds,
      domOf (dom.insert block (newDom dom block first rest)) other ⊆ domOf dom other := by
    intro other _
    rw [domOf_insert]
    split
    case isTrue same =>
      subst same
      exact sweeping.shrinks other listed notRoot first rest preds
    case isFalse => exact Finset.Subset.refl _
  refine ⟨known, ?_, ?_, ?_, ?_⟩
  · intro other member above found
    exact sweeping.inside other member above (subset other member found)
  · intro other member above inside dominates
    rw [domOf_insert]
    split
    case isTrue same =>
      subst same
      exact sweeping.dominators_newDom preds inside dominates
    case isFalse => exact sweeping.dominators other member above inside dominates
  · intro other member isRoot
    have different : other ≠ block := fun same => notRoot (same ▸ isRoot)
    rw [domOf_insert, if_neg different]
    exact sweeping.atRoot other member isRoot
  · intro other member away first' rest' preds'
    have smaller := newDom_mono sweeping known subset preds'
    rw [domOf_insert]
    split
    case isTrue same =>
      subst same
      rw [preds] at preds'
      cases preds'
      exact smaller
    case isFalse => exact smaller.trans (sweeping.shrinks other member away first' rest' preds')

/-- Before the sweeps fail, what they keep holds. -/
def Holds (graph : Cfg) (facts : Option Dom) : Prop := ∃ dom, facts = some dom ∧ Sweeping graph dom

/-- How many blocks the sets have given up. -/
def givenUp (graph : Cfg) (facts : Option Dom) : Nat :=
  ∑ block ∈ graph.blockIds.toFinset, (graph.blockIds.toFinset \ domOf (facts.getD []) block).card

/-- An update of a closed graph reads no missing set, and sets a block that is no root. -/
theorem update_eq_some (closed : Closed graph) {block : BlockId} {changed : Option Dom}
    (sweeping : Sweeping graph dom) (updated : update graph block (some dom) = some changed) :
    ∃ first rest, graph.predecessors block = first :: rest ∧ block ∈ graph.blockIds ∧
      block ∉ roots graph ∧ newDom dom block first rest ≠ domOf dom block ∧
      changed = some (dom.insert block (newDom dom block first rest)) := by
  rw [update] at updated
  by_cases isRoot : block ∈ roots graph
  · rw [if_pos isRoot] at updated
    cases updated
  · rw [if_neg isRoot] at updated
    cases preds : graph.predecessors block with
    | nil => simp [preds] at updated
    | cons first rest =>
      have isPred : first ∈ graph.predecessors block := by rw [preds]; exact mem_cons_self
      have listed : block ∈ graph.blockIds := closed first block (Cfg.mem_predecessors.mp isPred)
      obtain ⟨old, found⟩ := sweeping.known block listed
      simp only [preds, found] at updated
      split at updated
      case isTrue => exact nomatch updated
      case isFalse differs =>
        refine ⟨first, rest, rfl, listed, isRoot, ?_, (Option.some.inj updated).symm⟩
        rw [domOf, found, Option.getD_some]
        exact differs

/-- An idle update leaves a block that is no root with its recomputed set. -/
theorem update_eq_none {block first : BlockId} (sweeping : Sweeping graph dom)
    (listed : block ∈ graph.blockIds) (notRoot : block ∉ roots graph)
    (preds : graph.predecessors block = first :: rest) (idle : update graph block (some dom) = none) :
    domOf dom block = newDom dom block first rest := by
  obtain ⟨old, found⟩ := sweeping.known block listed
  simp only [update, if_neg notRoot, preds, found] at idle
  split at idle
  case isTrue same => rw [domOf, found, Option.getD_some, same]
  case isFalse => exact nomatch idle

/-- An update keeps what the sweeps keep, and gives up a block. -/
theorem update_keeps (closed : Closed graph) (block : BlockId) (facts changed : Option Dom)
    (holds : Holds graph facts) (updated : update graph block facts = some changed) :
    Holds graph changed ∧ givenUp graph facts < givenUp graph changed := by
  obtain ⟨dom, rfl, sweeping⟩ := holds
  obtain ⟨first, rest, preds, listed, notRoot, differs, rfl⟩ :=
    update_eq_some closed sweeping updated
  refine ⟨⟨_, rfl, sweeping.insert listed notRoot preds⟩, ?_⟩
  have smaller := sweeping.shrinks block listed notRoot first rest preds
  refine Finset.sum_lt_sum ?_ ⟨block, mem_toFinset.mpr listed, ?_⟩
  · intro other _
    rw [Option.getD_some, Option.getD_some, domOf_insert]
    apply Finset.card_le_card
    split
    case isTrue same =>
      subst same
      exact Finset.sdiff_subset_sdiff (Finset.Subset.refl _) smaller
    case isFalse => exact Finset.Subset.refl _
  · rw [Option.getD_some, Option.getD_some, domOf_insert, if_pos rfl]
    apply Finset.card_lt_card
    obtain ⟨above, inOld, notNew⟩ := Finset.exists_of_ssubset
      ((Finset.ssubset_iff_subset_ne).mpr ⟨smaller, differs⟩)
    rw [Finset.ssubset_iff_of_subset (Finset.sdiff_subset_sdiff (Finset.Subset.refl _) smaller)]
    refine ⟨above, ?_, ?_⟩
    · rw [Finset.mem_sdiff, mem_toFinset]
      exact ⟨sweeping.inside block listed above inOld, notNew⟩
    · rw [Finset.mem_sdiff]
      exact fun both => both.2 inOld

theorem givenUp_le (facts : Option Dom) :
    givenUp graph facts ≤ graph.blocks.length * graph.blocks.length := by
  have size : graph.blockIds.toFinset.card ≤ graph.blocks.length := by
    refine (toFinset_card_le _).trans ?_
    rw [Cfg.blockIds, length_range]
  calc givenUp graph facts ≤ ∑ _ ∈ graph.blockIds.toFinset, graph.blocks.length :=
        Finset.sum_le_sum fun block _ => (Finset.card_le_card Finset.sdiff_subset).trans size
    _ = graph.blockIds.toFinset.card * graph.blocks.length := by rw [Finset.sum_const, smul_eq_mul]
    _ ≤ graph.blocks.length * graph.blocks.length := Nat.mul_le_mul_right _ size

/-- On a closed graph the sweeps end and fail nowhere, at sets that no update changes. -/
theorem computeDominators_settled (closed : Closed graph) :
    ∃ dom, computeDominators graph = some dom ∧ Sweeping graph dom ∧
      ∀ block ∈ graph.reversePostorder, update graph block (some dom) = none := by
  obtain ⟨facts, settled, ⟨dom, rfl, sweeping⟩, idle⟩ :=
    @Settling.settle_spec _ _ (update graph) (Holds graph) (givenUp graph) graph.reversePostorder
      (fun block _ facts changed => update_keeps closed block facts changed)
      (graph.blocks.length * graph.blocks.length) (fun facts _ => givenUp_le facts)
      (sweeps graph) (some (initial graph)) ⟨_, rfl, sweeping_initial⟩
      (by rw [sweeps]; omega)
  refine ⟨dom, ?_, sweeping, idle⟩
  rw [computeDominators, settled]
  rfl

/-- Sets that no update changes hold, for the blocks that roots reach, dominators only. -/
theorem Sweeping.dominates_of_mem (sweeping : Sweeping graph dom)
    (idle : ∀ block ∈ graph.reversePostorder, update graph block (some dom) = none)
    {block above : BlockId} (listed : block ∈ graph.blockIds) (member : above ∈ domOf dom block) :
    Dominates graph.successors (roots graph) above block := by
  intro root isRoot nodes path
  let inside : BlockId → Set BlockId :=
    fun block => {above | block ∈ graph.blockIds ∧ above ∈ domOf dom block}
  refine @mem_of_path _ graph.successors (roots graph) inside ?_ ?_ root block above nodes isRoot
    path ⟨listed, member⟩
  · rintro root isRoot above ⟨listed, found⟩
    rw [sweeping.atRoot root listed (Finset.mem_coe.mp isRoot)] at found
    exact Finset.mem_singleton.mp found
  · rintro source target reached follows notRoot above ⟨listed, found⟩
    have isPred : source ∈ graph.predecessors target := Cfg.mem_predecessors.mpr follows
    obtain ⟨first, rest, preds⟩ := exists_cons_of_ne_nil (ne_nil_of_mem isPred)
    have away : target ∉ roots graph := fun isRoot => notRoot (Finset.mem_coe.mpr isRoot)
    rw [update_eq_none sweeping listed away preds
      (idle target (swept_of_reached (reached.step follows))), sweeping.mem_newDom preds] at found
    rcases found with same | shared
    · exact .inl same
    · exact .inr ⟨predecessor_mem isPred, shared source isPred⟩

/-- The sweeps end, and give every block of the graph that is reached from the entry or from a
catch block exactly the blocks that lie on every path to it from those. -/
theorem computeDominators_exact (graph : Cfg) (closed : Closed graph) :
    ∃ dom, computeDominators graph = some dom ∧
      ∀ block ∈ graph.blockIds, Reached graph.successors (roots graph) block →
        ∀ above, above ∈ domOf dom block ↔
          Dominates graph.successors (roots graph) above block := by
  obtain ⟨dom, computed, sweeping, idle⟩ := computeDominators_settled closed
  refine ⟨dom, computed, ?_⟩
  rintro block listed ⟨root, isRoot, nodes, path⟩ above
  constructor
  · exact sweeping.dominates_of_mem idle listed
  · intro dominates
    have onPath := dominates root isRoot nodes path
    obtain ⟨rest, more, _⟩ := path.from_mem onPath
    refine sweeping.dominators block listed above ?_ dominates
    cases more with
    | here => exact listed
    | step before follows =>
      rcases before.reaches.cases_head with same | ⟨next, leads, _⟩
      · rw [same]
        exact Cfg.mem_blockIds_of_successor follows
      · exact Cfg.mem_blockIds_of_successor leads

/-- A loop with a protected body, and a block that nothing leads to. -/
def loopGraph : Cfg where
  entry := 0
  blocks := [⟨[], .jump 1⟩, ⟨[], .branch (.value (.constant .undefined)) 2 3⟩, ⟨[], .jump 1⟩,
    ⟨[], .returnTerm none⟩, ⟨[], .jump 3⟩, ⟨[], .jump 2⟩]
  exceptionHandlers := [⟨2, 4, [2]⟩]

theorem computeDominators_exact_loop :
    ∃ dom, computeDominators loopGraph = some dom ∧
      ∀ block ∈ loopGraph.blockIds, Reached loopGraph.successors (roots loopGraph) block →
        ∀ above, above ∈ domOf dom block ↔
          Dominates loopGraph.successors (roots loopGraph) above block :=
  computeDominators_exact loopGraph (by decide)

example : (computeDominators loopGraph).map (domOf · 2) = some {0, 1, 2} := by decide +kernel

end HermesDecomp.Ir.Dominators
