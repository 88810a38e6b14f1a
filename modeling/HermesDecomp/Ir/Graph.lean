import HermesDecomp.Ir.Registers
import HermesDecomp.Library.DepthFirst

/-!
# Control-flow graphs

A graph numbers its blocks in the order they were created, and no block is removed, so
the block of an identifier is the one at that position. Control moves from statement to
statement, from the end of a block to a successor, and, from any point of a protected
block, to the block of its exception handler.
-/

namespace HermesDecomp.Ir

open List

structure BasicBlock where
  statements : List Statement
  terminator : Terminator

/-- A protected range: `tryBlocks` are the blocks an exception can leave for
`catchBlock`. -/
structure CfgExceptionHandler where
  tryBlockStart : BlockId
  catchBlock : BlockId
  tryBlocks : List BlockId
deriving DecidableEq

structure Cfg where
  entry : BlockId
  blocks : List BasicBlock
  exceptionHandlers : List CfgExceptionHandler

namespace Cfg

def get (graph : Cfg) (id : BlockId) : Option BasicBlock := graph.blocks[id]?

def blockIds (graph : Cfg) : List BlockId := List.range graph.blocks.length

/-- The statements of a block. -/
def statements (graph : Cfg) (id : BlockId) : List Statement :=
  match graph.get id with
  | some block => block.statements
  | none => []

/-- How a block ends. -/
def terminator (graph : Cfg) (id : BlockId) : Terminator :=
  match graph.get id with
  | some block => block.terminator
  | none => .none

def successors (graph : Cfg) (id : BlockId) : List BlockId := (graph.terminator id).successors

def predecessors (graph : Cfg) (target : BlockId) : List BlockId :=
  graph.blockIds.filter fun id => (graph.successors id).contains target

/-- The blocks an exception edge into a catch block can come from. -/
def exceptionEdgeSources (graph : Cfg) (catchBlock : BlockId) : List BlockId :=
  graph.exceptionHandlers.foldl (fun out handler =>
    if handler.catchBlock ≠ catchBlock then out
    else handler.tryBlocks.foldl
      (fun out block => if out.contains block then out else out ++ [block]) out) []

/-- The block identifiers a graph mentions. -/
def mentioned (graph : Cfg) : List BlockId :=
  graph.entry :: (graph.exceptionHandlers.map CfgExceptionHandler.catchBlock ++
    graph.blockIds.flatMap graph.successors)

/-- The blocks in the order a depth-first walk from the entry, and then from each catch
block, leaves them. -/
def postorder (graph : Cfg) : List BlockId :=
  ((graph.entry :: graph.exceptionHandlers.map CfgExceptionHandler.catchBlock).foldl
    (fun walk block => DepthFirst.visit graph.successors (graph.mentioned.length + 1) block walk)
    ⟨[], []⟩).order

def reversePostorder (graph : Cfg) : List BlockId := graph.postorder.reverse

variable {graph : Cfg}

theorem mem_blockIds {id : BlockId} : id ∈ graph.blockIds ↔ id < graph.blocks.length := mem_range

/-- Only a block of the graph has successors. -/
theorem mem_blockIds_of_successor {source target : BlockId}
    (follows : target ∈ graph.successors source) : source ∈ graph.blockIds := by
  rw [mem_blockIds]
  by_contra outside
  have missing : graph.get source = none := List.getElem?_eq_none (Nat.le_of_not_lt outside)
  simp [successors, terminator, missing, Terminator.successors] at follows

theorem mem_predecessors {source target : BlockId} :
    source ∈ graph.predecessors target ↔ target ∈ graph.successors source := by
  simp only [predecessors, mem_filter, contains_iff_mem]
  constructor
  · rintro ⟨_, follows⟩
    exact follows
  · intro follows
    exact ⟨mem_blockIds_of_successor follows, follows⟩

/-- Adding what is not there yet adds the members. -/
theorem mem_foldl_addNew (added : List BlockId) : ∀ (out : List BlockId) (block : BlockId),
    block ∈ added.foldl (fun out block => if out.contains block then out else out ++ [block]) out ↔
      block ∈ out ∨ block ∈ added := by
  induction added with
  | nil => simp
  | cons first rest ih =>
    intro out block
    rw [foldl_cons, ih, mem_cons]
    by_cases present : out.contains first = true
    · rw [if_pos present]
      have known : first ∈ out := contains_iff_mem.mp present
      constructor
      · rintro (old | new)
        · exact .inl old
        · exact .inr (.inr new)
      · rintro (old | rfl | new)
        · exact .inl old
        · exact .inl known
        · exact .inr new
    · rw [if_neg present]
      simp [or_assoc]

theorem mem_exceptionEdgeSources {catchBlock block : BlockId} :
    block ∈ graph.exceptionEdgeSources catchBlock ↔ ∃ handler ∈ graph.exceptionHandlers,
      handler.catchBlock = catchBlock ∧ block ∈ handler.tryBlocks := by
  have general : ∀ (handlers : List CfgExceptionHandler) (out : List BlockId),
      block ∈ handlers.foldl (fun out handler =>
          if handler.catchBlock ≠ catchBlock then out
          else handler.tryBlocks.foldl
            (fun out block => if out.contains block then out else out ++ [block]) out) out ↔
        block ∈ out ∨ ∃ handler ∈ handlers, handler.catchBlock = catchBlock ∧
          block ∈ handler.tryBlocks := by
    intro handlers
    induction handlers with
    | nil => simp
    | cons handler rest ih =>
      intro out
      rw [foldl_cons, ih]
      by_cases same : handler.catchBlock = catchBlock
      · rw [if_neg (not_not.mpr same), mem_foldl_addNew]
        simp [same, or_assoc]
      · rw [if_pos same]
        simp [same]
  simpa [exceptionEdgeSources] using general graph.exceptionHandlers []

/-- The walk covers what the entry and the catch blocks lead to. -/
theorem covers_postorder : DepthFirst.Covers graph.successors
    (graph.entry :: graph.exceptionHandlers.map CfgExceptionHandler.catchBlock) ⟨[], []⟩
    ((graph.entry :: graph.exceptionHandlers.map CfgExceptionHandler.catchBlock).foldl
      (fun walk block => DepthFirst.visit graph.successors (graph.mentioned.length + 1) block walk)
      ⟨[], []⟩) := by
  have closed : ∀ node ∈ graph.mentioned.toFinset, ∀ successor ∈ graph.successors node,
      successor ∈ graph.mentioned.toFinset := by
    intro node _ successor follows
    rw [mem_toFinset, mentioned]
    apply mem_cons_of_mem
    apply mem_append_right
    exact mem_flatMap.mpr ⟨node, mem_blockIds_of_successor follows, follows⟩
  have inside : ∀ root ∈ graph.entry :: graph.exceptionHandlers.map CfgExceptionHandler.catchBlock,
      root ∈ graph.mentioned.toFinset := by
    intro root member
    rw [mem_toFinset, mentioned]
    rcases mem_cons.mp member with here | later
    · exact mem_cons.mpr (.inl here)
    · exact mem_cons_of_mem _ (mem_append_left _ later)
  have enough : (DepthFirst.unvisited graph.mentioned.toFinset ⟨[], []⟩).card <
      graph.mentioned.length + 1 := by
    apply Nat.lt_succ_of_le
    exact (Finset.card_filter_le _ _).trans (toFinset_card_le _)
  exact DepthFirst.covers_visitAll closed _ ⟨[], []⟩ inside enough

theorem mem_roots {root : BlockId} :
    root ∈ graph.entry :: graph.exceptionHandlers.map CfgExceptionHandler.catchBlock ↔
      root = graph.entry ∨ ∃ handler ∈ graph.exceptionHandlers, handler.catchBlock = root := by
  rw [mem_cons, mem_map]

/-- The walk lists every block reachable from the entry or from a catch block. -/
theorem mem_reversePostorder {root block : BlockId}
    (isRoot : root = graph.entry ∨ ∃ handler ∈ graph.exceptionHandlers, handler.catchBlock = root)
    (reaches : Relation.ReflTransGen (fun source target => target ∈ graph.successors source)
      root block) : block ∈ graph.reversePostorder := by
  rw [reversePostorder, mem_reverse]
  exact covers_postorder.listed_of_reaches (mem_roots.mpr isRoot) reaches

/-- What holds of the entry and the catch blocks, and goes over to successors, holds of every
block the walk lists. -/
theorem holds_of_mem_reversePostorder {holds : BlockId → Prop}
    (atRoot : ∀ root, (root = graph.entry ∨
      ∃ handler ∈ graph.exceptionHandlers, handler.catchBlock = root) → holds root)
    (keeps : ∀ node, holds node → ∀ successor ∈ graph.successors node, holds successor)
    {block : BlockId} (listed : block ∈ graph.reversePostorder) : holds block := by
  rw [reversePostorder, mem_reverse] at listed
  have marked := ((covers_postorder.listed block).mp listed).resolve_left not_mem_nil
  have only := DepthFirst.visited_of_foldl
    (fun walk node => DepthFirst.visited_visit_mono (graph.mentioned.length + 1) node walk)
    (DepthFirst.visited_of_visit keeps (graph.mentioned.length + 1)) _ ⟨[], []⟩
    (fun root member => .inr (atRoot root (mem_roots.mp member))) block marked.1
  exact only.resolve_left not_mem_nil

end Cfg

/-- One move of control. From a protected block control can leave at any point for
the catch block. -/
inductive Move (graph : Cfg) : Point → Point → Prop where
  | next {block : BlockId} {index : Nat} (inside : index < (graph.statements block).length) :
      Move graph ⟨block, index⟩ ⟨block, index + 1⟩
  | follow {source target : BlockId} (follows : target ∈ graph.successors source) :
      Move graph ⟨source, (graph.statements source).length⟩ ⟨target, 0⟩
  | raise {block : BlockId} {index : Nat} {handler : CfgExceptionHandler}
      (listed : handler ∈ graph.exceptionHandlers) (protects : block ∈ handler.tryBlocks)
      (inside : index ≤ (graph.statements block).length) :
      Move graph ⟨block, index⟩ ⟨handler.catchBlock, 0⟩

namespace Cfg

variable (graph : Cfg)

/-- The points control can reach from the entry. -/
def Reachable (point : Point) : Prop := Relation.ReflTransGen (Move graph) ⟨graph.entry, 0⟩ point

/-- The statement a point stands before. -/
def statementAt (point : Point) : Option Statement := (graph.statements point.block)[point.index]?

/-- The register a point's statement plainly assigns. -/
def definedAt (point : Point) : Option Nat := (graph.statementAt point).bind Statement.definition?

end Cfg

end HermesDecomp.Ir
