import HermesDecomp.Analysis.ReachingPaths
import Mathlib.Algebra.Group.Action.Defs

/-!
# What the liveness analysis computes

A register is read first from a point when a path leads from there to a read of it and no
statement on the path assigns it before. The analysis ends, and it finds the registers that are
read, in one of the positions its walkers visit, along normal edges between the blocks it goes
over. It is sound when every read its walkers miss and every read of a handler is made up for by
one they see.
-/

namespace HermesDecomp.Ir

open List

/-- The registers live at the start and at the end of each block. -/
structure LivenessInfo where
  liveIn : OrdMap (Finset Nat)
  liveOut : OrdMap (Finset Nat)

namespace LivenessInfo

mutual

/-- Add the registers an expression reads that are not assigned yet, where the walk looks. -/
def collectExprUses (defs : Finset Nat) : Expression → Finset Nat → Finset Nat
  | .value (.binding (.register register)), uses =>
      if register ∉ defs then insert register uses else uses
  | .binary _ left right, uses => collectExprUses defs right (collectExprUses defs left uses)
  | .unary _ operand, uses => collectExprUses defs operand uses
  | .call callee arguments, uses => collectAllUses defs arguments (collectExprUses defs callee uses)
  | .new callee arguments, uses => collectAllUses defs arguments (collectExprUses defs callee uses)
  | .member object _ _, uses => collectExprUses defs object uses
  | _, uses => uses

def collectAllUses (defs : Finset Nat) : List Expression → Finset Nat → Finset Nat
  | [], uses => uses
  | first :: rest, uses => collectAllUses defs rest (collectExprUses defs first uses)

end

def collectStmtUses (defs : Finset Nat) (statement : Statement) (uses : Finset Nat) :
    Finset Nat :=
  match statement with
  | .expr value | .throwStmt value => collectExprUses defs value uses
  | .letStmt _ value _ => collectExprUses defs value uses
  | .assign _ value => collectExprUses defs value uses
  | .returnStmt (some value) => collectExprUses defs value uses
  | _ => uses

def collectStmtDefs (statement : Statement) (defs : Finset Nat) : Finset Nat :=
  match statement with
  | .assign (.binding (.register register)) _ => insert register defs
  | _ => defs

def collectTerminatorUses (defs : Finset Nat) (terminator : Terminator) (uses : Finset Nat) :
    Finset Nat :=
  match terminator with
  | .returnTerm (some value) => collectExprUses defs value uses
  | .throwTerm value => collectExprUses defs value uses
  | .branch condition _ _ => collectExprUses defs condition uses
  | .switch value _ _ => collectExprUses defs value uses
  | _ => uses

/-- The registers some statements use and define, one statement after the other. -/
def collectStatements (statements : List Statement) : Finset Nat × Finset Nat :=
  statements.foldl (fun found statement =>
    (collectStmtUses found.2 statement found.1, collectStmtDefs statement found.2)) (∅, ∅)

/-- The registers a block uses before it defines them, and those it defines. -/
def collectUsesDefs (block : BasicBlock) : Finset Nat × Finset Nat :=
  let (uses, defs) := collectStatements block.statements
  (collectTerminatorUses defs block.terminator uses, defs)

/-- The registers live at the start of a block. -/
def inOf (info : LivenessInfo) (block : BlockId) : Finset Nat := (info.liveIn.get? block).getD ∅

/-- The registers live at the end of a block. -/
def outOf (info : LivenessInfo) (block : BlockId) : Finset Nat := (info.liveOut.get? block).getD ∅

/-- What is live at the start of a successor is live at the end of a block. -/
def newOut (block : BasicBlock) (info : LivenessInfo) : Finset Nat :=
  block.terminator.successors.foldl (fun live successor => live ∪ info.inOf successor) ∅

/-- What is used, or live at the end and not defined, is live at the start. -/
def newIn (block : BasicBlock) (out : Finset Nat) : Finset Nat :=
  (out \ (collectUsesDefs block).2) ∪ (collectUsesDefs block).1

/-- Recompute what is live in a block, and answer nothing when it is what it was. -/
def update (graph : Cfg) (id : BlockId) (info : LivenessInfo) : Option LivenessInfo :=
  match graph.get id with
  | none => none
  | some block =>
      let out := newOut block info
      let entering := newIn block out
      if entering = info.inOf id ∧ out = info.outOf id then none
      else some ⟨
        if entering = info.inOf id then info.liveIn else info.liveIn.insert id entering,
        if out = info.outOf id then info.liveOut else info.liveOut.insert id out⟩

/-- Nothing is live before the first sweep. -/
def initial (graph : Cfg) : LivenessInfo where
  liveIn := graph.blockIds.foldl (fun live id => live.insert id ∅) []
  liveOut := graph.blockIds.foldl (fun live id => live.insert id ∅) []

/-- The live registers of a graph, when the sweeps end after so many. -/
def analyze (graph : Cfg) (sweeps : Nat) : Option LivenessInfo :=
  Settling.settle (update graph) graph.reversePostorder.reverse sweeps (initial graph)

def isLiveOut (info : LivenessInfo) (block : BlockId) (register : Nat) : Bool :=
  match info.liveOut.get? block with
  | some live => decide (register ∈ live)
  | none => false

def isLiveIn (info : LivenessInfo) (block : BlockId) (register : Nat) : Bool :=
  match info.liveIn.get? block with
  | some live => decide (register ∈ live)
  | none => false

end LivenessInfo

namespace Cfg

/-- The registers read at a point: by the statement there, or by the terminator behind the last
one. -/
def liveReadsAt (graph : Cfg) (point : Point) : List Nat :=
  match graph.statementAt point with
  | some statement => statement.reads
  | none => (graph.terminator point.block).reads

end Cfg

namespace LivenessInfo

/-- A path from a point reads a register before a statement assigns it. -/
inductive ReadFirst (graph : Cfg) (register : Nat) : Point → Prop where
  | read {point : Point} (reads : register ∈ graph.liveReadsAt point) : ReadFirst graph register point
  | next {block : BlockId} {index : Nat} (inside : index < (graph.statements block).length)
      (kept : graph.definedAt ⟨block, index⟩ ≠ some register)
      (later : ReadFirst graph register ⟨block, index + 1⟩) :
      ReadFirst graph register ⟨block, index⟩
  | follow {source target : BlockId} (follows : target ∈ graph.successors source)
      (later : ReadFirst graph register ⟨target, 0⟩) :
      ReadFirst graph register ⟨source, (graph.statements source).length⟩
  | raise {block : BlockId} {index : Nat} {handler : CfgExceptionHandler}
      (listed : handler ∈ graph.exceptionHandlers) (protects : block ∈ handler.tryBlocks)
      (present : block ∈ graph.blockIds) (inside : index ≤ (graph.statements block).length)
      (later : ReadFirst graph register ⟨handler.catchBlock, 0⟩) :
      ReadFirst graph register ⟨block, index⟩

/-- What is read first from the start of a block is live there, and what is read first from a
successor is live at the end. -/
structure Sound (graph : Cfg) (info : LivenessInfo) : Prop where
  entry : ∀ block ∈ graph.blockIds, ∀ register, ReadFirst graph register ⟨block, 0⟩ →
    info.isLiveIn block register = true
  exit : ∀ block, ∀ target ∈ graph.successors block, ∀ register,
    ReadFirst graph register ⟨target, 0⟩ → info.isLiveOut block register = true

/-- The registers a block uses and defines. -/
def usesDefs (graph : Cfg) (id : BlockId) : Finset Nat × Finset Nat :=
  match graph.get id with
  | some block => collectUsesDefs block
  | none => (∅, ∅)

/-- A register is used in a block, or in one that normal edges lead to from it without defining
the register, all of them blocks the sweep goes over. -/
inductive Seen (graph : Cfg) (register : Nat) : BlockId → Prop where
  | here {block : BlockId} (listed : block ∈ graph.reversePostorder)
      (used : register ∈ (usesDefs graph block).1) : Seen graph register block
  | later {block target : BlockId} (listed : block ∈ graph.reversePostorder)
      (kept : register ∉ (usesDefs graph block).2) (follows : target ∈ graph.successors block)
      (seen : Seen graph register target) : Seen graph register block

/-- A block reads a register and no statement of the block assigns it before. -/
def ReadIn (graph : Cfg) (block : BlockId) (register : Nat) : Prop :=
  ∃ index ≤ (graph.statements block).length, register ∈ graph.liveReadsAt ⟨block, index⟩ ∧
    ReachingDefs.Untouched graph block register 0 index

/-- Every read is made up for by one the walkers see: in the block that reads, and in each block
the handler of which needs the register. The sweep goes over every block that leads to one. -/
structure Covered (graph : Cfg) : Prop where
  reads : ∀ block register, ReadIn graph block register → Seen graph register block
  handlers : ∀ handler ∈ graph.exceptionHandlers, ∀ block ∈ handler.tryBlocks,
    block ∈ graph.blockIds → ∀ register, Seen graph register handler.catchBlock →
      Seen graph register block
  listed : ∀ block, ∀ target ∈ graph.successors block, ∀ register,
    Seen graph register target → block ∈ graph.reversePostorder

mutual

theorem reads_of_mem_collectExprUses {defs : Finset Nat} {register : Nat} :
    ∀ (expression : Expression) (uses : Finset Nat),
      register ∈ collectExprUses defs expression uses →
        register ∈ uses ∨ (register ∉ defs ∧ register ∈ expression.reads)
  | .value (.binding (.register found)), uses, member => by
    rw [collectExprUses] at member
    by_cases fresh : found ∉ defs
    · rw [if_pos fresh] at member
      rcases Finset.mem_insert.mp member with rfl | old
      · exact .inr ⟨fresh, mem_singleton.mpr rfl⟩
      · exact .inl old
    · rw [if_neg fresh] at member
      exact .inl member
  | .binary _ left right, uses, member => by
    rcases reads_of_mem_collectExprUses right _ member with inLeft | ⟨fresh, read⟩
    · exact (reads_of_mem_collectExprUses left _ inLeft).imp_right fun ⟨fresh, read⟩ =>
        ⟨fresh, mem_append_left _ read⟩
    · exact .inr ⟨fresh, mem_append_right _ read⟩
  | .unary _ operand, uses, member => reads_of_mem_collectExprUses operand _ member
  | .call callee arguments, uses, member | .new callee arguments, uses, member => by
    rcases reads_of_mem_collectAllUses arguments _ member with inCallee | ⟨fresh, read⟩
    · exact (reads_of_mem_collectExprUses callee _ inCallee).imp_right fun ⟨fresh, read⟩ =>
        ⟨fresh, mem_append_left _ read⟩
    · exact .inr ⟨fresh, mem_append_right _ read⟩
  | .member object _ _, uses, member =>
    (reads_of_mem_collectExprUses object _ member).imp_right fun ⟨fresh, read⟩ =>
      ⟨fresh, mem_append_left _ read⟩
  | .value (.binding (.variable _)), _, member | .value (.binding (.closureVar _ _)), _, member
  | .value (.constant _), _, member | .value .this, _, member | .value .global, _, member
  | .value (.parameter _), _, member | .value .arguments, _, member
  | .value .newTarget, _, member | .value .super, _, member
  | .conditional .., _, member | .array _, _, member | .object _, _, member
  | .function .., _, member | .assignment .., _, member | .spread _, _, member
  | .templateLiteral .., _, member | .regExp .., _, member | .yield .., _, member
  | .await _, _, member | .jsxElement .., _, member | .unknown .., _, member => .inl member

theorem reads_of_mem_collectAllUses {defs : Finset Nat} {register : Nat} :
    ∀ (expressions : List Expression) (uses : Finset Nat),
      register ∈ collectAllUses defs expressions uses →
        register ∈ uses ∨ (register ∉ defs ∧ register ∈ visitAll readVisitor expressions)
  | [], _, member => .inl member
  | first :: rest, uses, member => by
    rcases reads_of_mem_collectAllUses rest _ member with inFirst | ⟨fresh, read⟩
    · exact (reads_of_mem_collectExprUses first _ inFirst).imp_right fun ⟨fresh, read⟩ =>
        ⟨fresh, mem_append_left _ read⟩
    · exact .inr ⟨fresh, mem_append_right _ read⟩

end

variable {register : Nat}

theorem reads_of_mem_collectStmtUses {defs uses : Finset Nat} (statement : Statement)
    (member : register ∈ collectStmtUses defs statement uses) :
    register ∈ uses ∨ (register ∉ defs ∧ register ∈ statement.reads) := by
  unfold collectStmtUses at member
  split at member
  · exact reads_of_mem_collectExprUses _ _ member
  · exact reads_of_mem_collectExprUses _ _ member
  · exact reads_of_mem_collectExprUses _ _ member
  · exact (reads_of_mem_collectExprUses _ _ member).imp_right fun ⟨fresh, read⟩ =>
      ⟨fresh, mem_append_right _ read⟩
  · exact reads_of_mem_collectExprUses _ _ member
  · exact .inl member

theorem reads_of_mem_collectTerminatorUses {defs uses : Finset Nat} (terminator : Terminator)
    (member : register ∈ collectTerminatorUses defs terminator uses) :
    register ∈ uses ∨ (register ∉ defs ∧ register ∈ terminator.reads) := by
  have inValue : ∀ {value : Expression}, register ∈ collectExprUses defs value uses →
      value.reads = terminator.valueReads →
        register ∈ uses ∨ (register ∉ defs ∧ register ∈ terminator.reads) := by
    intro value member same
    refine (reads_of_mem_collectExprUses value uses member).imp_right fun ⟨fresh, read⟩ => ?_
    exact ⟨fresh, mem_append_left _ (same ▸ read)⟩
  unfold collectTerminatorUses at member
  split at member
  · exact inValue member rfl
  · exact inValue member rfl
  · exact inValue member rfl
  · exact inValue member rfl
  · exact .inl member

theorem mem_collectStmtDefs {statement : Statement} {defs : Finset Nat} :
    register ∈ collectStmtDefs statement defs ↔
      statement.definition? = some register ∨ register ∈ defs := by
  unfold collectStmtDefs
  split
  · rename_i found value
    rw [Finset.mem_insert, eq_comm]
    exact or_congr_left Option.some_inj.symm
  · rename_i plain
    have undefined : statement.definition? ≠ some register := by
      unfold Statement.definition?
      split
      · exact absurd rfl (plain _ _)
      · simp
    exact (or_iff_right undefined).symm

variable {graph : Cfg}

/-- What some statements use is read by one of them and not defined before, and what they define
is what one of them defines. -/
theorem collectStatements_spec (statements : List Statement) (register : Nat) :
    (register ∈ (collectStatements statements).1 → ∃ (index : Nat) (statement : Statement),
      statements[index]? = some statement ∧ register ∈ statement.reads ∧
        ∀ earlier < index, (statements[earlier]?).bind Statement.definition? ≠ some register) ∧
    (register ∈ (collectStatements statements).2 ↔
      ∃ statement ∈ statements, statement.definition? = some register) := by
  induction statements using List.reverseRecOn with
  | nil => simp [collectStatements]
  | append_singleton statements statement ih =>
    obtain ⟨uses, defs⟩ := ih
    have last : collectStatements (statements ++ [statement]) =
        (collectStmtUses (collectStatements statements).2 statement
          (collectStatements statements).1,
          collectStmtDefs statement (collectStatements statements).2) := by
      rw [collectStatements, foldl_append, foldl_cons, foldl_nil]
      rfl
    rw [last]
    constructor
    · intro member
      rcases reads_of_mem_collectStmtUses statement member with earlier | ⟨fresh, read⟩
      · obtain ⟨index, found, atIndex, reads, untouched⟩ := uses earlier
        have inside := List.getElem?_eq_some_iff.mp atIndex |>.1
        refine ⟨index, found, ?_, reads, ?_⟩
        · rw [List.getElem?_append_left inside, atIndex]
        · intro earlier before
          rw [List.getElem?_append_left (before.trans inside)]
          exact untouched earlier before
      · refine ⟨statements.length, statement, List.getElem?_concat_length, read, ?_⟩
        intro earlier before
        rw [List.getElem?_append_left before, List.getElem?_eq_getElem before]
        intro defined
        exact fresh (defs.mpr ⟨_, getElem_mem before, defined⟩)
    · rw [mem_collectStmtDefs, defs]
      simp [or_comm]

theorem usesDefs_eq (id : BlockId) : usesDefs graph id =
    (collectTerminatorUses (collectStatements (graph.statements id)).2 (graph.terminator id)
      (collectStatements (graph.statements id)).1,
      (collectStatements (graph.statements id)).2) := by
  rw [usesDefs, Cfg.statements, Cfg.terminator]
  cases graph.get id <;> rfl

variable {block : BlockId}

theorem mem_defs_iff :
    register ∈ (usesDefs graph block).2 ↔ ¬ ReachingDefs.Untouched graph block register 0
      (graph.statements block).length := by
  rw [usesDefs_eq, ← ReachingDefs.exists_definition_iff]
  exact (collectStatements_spec (graph.statements block) register).2

theorem statementAt_length (block : BlockId) :
    graph.statementAt ⟨block, (graph.statements block).length⟩ = none :=
  List.getElem?_eq_none le_rfl

/-- What a block uses it reads. -/
theorem readIn_of_mem_uses (member : register ∈ (usesDefs graph block).1)
    : ReadIn graph block register:= by
  obtain ⟨uses, defs⟩ := collectStatements_spec (graph.statements block) register
  rw [usesDefs_eq] at member
  rcases reads_of_mem_collectTerminatorUses _ member with earlier | ⟨fresh, read⟩
  · obtain ⟨index, statement, atIndex, reads, untouched⟩ := uses earlier
    have inside := List.getElem?_eq_some_iff.mp atIndex |>.1
    refine ⟨index, inside.le, ?_, fun earlier _ before => untouched earlier before⟩
    have here : graph.statementAt ⟨block, index⟩ = some statement := atIndex
    rw [Cfg.liveReadsAt, here]
    exact reads
  · refine ⟨(graph.statements block).length, le_rfl, ?_, ?_⟩
    · rw [Cfg.liveReadsAt, statementAt_length]
      exact read
    · by_contra touched
      exact fresh (defs.mpr (ReachingDefs.exists_definition_iff.mpr touched))

/-- Past statements that do not define the register, what is read first behind them is read
first. -/
theorem ReadFirst.before : ∀ {index : Nat},
    index ≤ (graph.statements block).length →
      ReachingDefs.Untouched graph block register 0 index →
        ReadFirst graph register ⟨block, index⟩ → ReadFirst graph register ⟨block, 0⟩ := by
  intro index
  induction index with
  | zero => exact fun _ _ later => later
  | succ index ih =>
    intro bounded untouched later
    refine ih (Nat.le_of_succ_le bounded) untouched.init ?_
    exact .next bounded (untouched index (Nat.zero_le index) (Nat.lt_succ_self index)) later

theorem readFirst_of_readIn (readIn : ReadIn graph block register)
    : ReadFirst graph register ⟨block, 0⟩:= by
  obtain ⟨index, bounded, reads, untouched⟩ := readIn
  exact (ReadFirst.read reads).before bounded untouched

/-- What is seen is read first. -/
theorem Seen.readFirst (seen : Seen graph register block) :
    ReadFirst graph register ⟨block, 0⟩ := by
  induction seen with
  | here listed used => exact readFirst_of_readIn (readIn_of_mem_uses used)
  | later listed kept follows seen ih =>
    rw [mem_defs_iff, not_not] at kept
    exact (ReadFirst.follow follows ih).before le_rfl kept

/-- When every read is made up for, what is read first from a position is seen from its block. -/
theorem Covered.seen (covered : Covered graph) {point : Point}
    (first : ReadFirst graph register point)
    (inside : point.index ≤ (graph.statements point.block).length)
    (untouched : ReachingDefs.Untouched graph point.block register 0 point.index) :
    Seen graph register point.block := by
  have none : ∀ {block : BlockId}, ReachingDefs.Untouched graph block register 0 0 :=
    fun index _ before => absurd before (Nat.not_lt_zero index)
  induction first with
  | read reads => exact covered.reads _ register ⟨_, inside, reads, untouched⟩
  | next before kept later ih => exact ih before (untouched.snoc kept)
  | follow follows later ih =>
    have target := ih (Nat.zero_le _) none
    exact .later (covered.listed _ _ follows register target)
      (mem_defs_iff.not.mpr (not_not.mpr untouched)) follows target
  | raise listed protects present bounded later ih =>
    exact covered.handlers _ listed _ protects present register (ih (Nat.zero_le _) none)

variable {info changed : LivenessInfo}

theorem isLiveIn_eq : info.isLiveIn block register = true ↔ register ∈ info.inOf block := by
  rw [isLiveIn, inOf]
  cases info.liveIn.get? block <;> simp

theorem isLiveOut_eq : info.isLiveOut block register = true ↔ register ∈ info.outOf block := by
  rw [isLiveOut, outOf]
  cases info.liveOut.get? block <;> simp

theorem inOf_initial (block : BlockId) : (initial graph).inOf block = ∅ := by
  rw [inOf, initial, OrdMap.get?_foldl_insert (fun _ => ∅)]
  split <;> rfl

theorem outOf_initial (block : BlockId) : (initial graph).outOf block = ∅ := by
  rw [outOf, initial, OrdMap.get?_foldl_insert (fun _ => ∅)]
  split <;> rfl

theorem mem_newOut {block : BasicBlock} :
    register ∈ newOut block info ↔
      ∃ successor ∈ block.terminator.successors, register ∈ info.inOf successor := by
  have general : ∀ (successors : List BlockId) (live : Finset Nat),
      register ∈ successors.foldl (fun live successor => live ∪ info.inOf successor) live ↔
        register ∈ live ∨ ∃ successor ∈ successors, register ∈ info.inOf successor := by
    intro successors
    induction successors with
    | nil => simp
    | cons successor rest ih =>
      intro live
      rw [foldl_cons, ih]
      simp [or_assoc]
  rw [newOut, general]
  simp

theorem mem_newIn {block : BasicBlock} {out : Finset Nat} :
    register ∈ newIn block out ↔
      (register ∈ out ∧ register ∉ (collectUsesDefs block).2) ∨
        register ∈ (collectUsesDefs block).1 := by
  rw [newIn, Finset.mem_union, Finset.mem_sdiff]

theorem newOut_mono (larger : ∀ block, info.inOf block ⊆ changed.inOf block)
    (block : BasicBlock) : newOut block info ⊆ newOut block changed := by
  intro register member
  obtain ⟨successor, follows, live⟩ := mem_newOut.mp member
  exact mem_newOut.mpr ⟨successor, follows, larger successor live⟩

theorem newIn_mono {block : BasicBlock} {out out' : Finset Nat} (larger : out ⊆ out') :
    newIn block out ⊆ newIn block out' := by
  intro register member
  rw [mem_newIn] at member ⊢
  exact member.imp_left fun ⟨live, kept⟩ => ⟨larger live, kept⟩

variable {id : BlockId}

theorem update_eq_none {block : BasicBlock} (found : graph.get id = some block)
    (idle : update graph id info = none) :
    info.inOf id = newIn block (newOut block info) ∧ info.outOf id = newOut block info := by
  rw [update, found] at idle
  dsimp only at idle
  split_ifs at idle with same
  exact ⟨same.1.symm, same.2.symm⟩

/-- An update sets what is live in its block to what is recomputed, and keeps the other blocks. -/
theorem update_eq_some (updated : update graph id info = some changed) :
    ∃ block, graph.get id = some block ∧
      (∀ other, changed.inOf other =
        if other = id then newIn block (newOut block info) else info.inOf other) ∧
      (∀ other, changed.outOf other = if other = id then newOut block info else info.outOf other) ∧
      (newIn block (newOut block info) ≠ info.inOf id ∨ newOut block info ≠ info.outOf id) := by
  rw [update] at updated
  cases found : graph.get id with
  | none =>
    rw [found] at updated
    cases updated
  | some block =>
    rw [found] at updated
    dsimp only at updated
    by_cases same : newIn block (newOut block info) = info.inOf id ∧
        newOut block info = info.outOf id
    · rw [if_pos same] at updated
      cases updated
    · rw [if_neg same] at updated
      cases updated
      exact ⟨block, rfl, fun other => OrdMap.getD_insertNew ..,
        fun other => OrdMap.getD_insertNew .., not_and_or.mp same⟩

/-- What every sweep keeps: what is live is seen, and recomputing it loses nothing. -/
structure Sweeping (graph : Cfg) (info : LivenessInfo) : Prop where
  seenIn : ∀ block, ∀ register ∈ info.inOf block, Seen graph register block
  seenOut : ∀ block, ∀ register ∈ info.outOf block, block ∈ graph.reversePostorder ∧
    ∃ target ∈ graph.successors block, Seen graph register target
  growsIn : ∀ id block, graph.get id = some block → info.inOf id ⊆ newIn block (newOut block info)
  growsOut : ∀ id block, graph.get id = some block → info.outOf id ⊆ newOut block info

theorem sweeping_initial : Sweeping graph (initial graph) where
  seenIn := by
    intro block register member
    rw [inOf_initial] at member
    exact absurd member (Finset.notMem_empty _)
  seenOut := by
    intro block register member
    rw [outOf_initial] at member
    exact absurd member (Finset.notMem_empty _)
  growsIn := by
    intro id block _
    rw [inOf_initial]
    exact Finset.empty_subset _
  growsOut := by
    intro id block _
    rw [outOf_initial]
    exact Finset.empty_subset _

theorem successors_eq {block : BasicBlock} (found : graph.get id = some block) :
    graph.successors id = block.terminator.successors := by
  rw [Cfg.successors, Cfg.terminator, found]

theorem usesDefs_of_get {block : BasicBlock} (found : graph.get id = some block) :
    usesDefs graph id = collectUsesDefs block := by
  rw [usesDefs, found]

theorem Sweeping.seen_newOut (sweeping : Sweeping graph info) {block : BasicBlock}
    (found : graph.get id = some block) (member : register ∈ newOut block info) :
    ∃ target ∈ graph.successors id, Seen graph register target := by
  obtain ⟨target, follows, live⟩ := mem_newOut.mp member
  rw [← successors_eq found] at follows
  exact ⟨target, follows, sweeping.seenIn target register live⟩

theorem Sweeping.seen_newIn (sweeping : Sweeping graph info) {block : BasicBlock}
    (found : graph.get id = some block) (listed : id ∈ graph.reversePostorder)
    (member : register ∈ newIn block (newOut block info)) : Seen graph register id:= by
  rw [mem_newIn, ← usesDefs_of_get found] at member
  rcases member with ⟨live, kept⟩ | used
  · obtain ⟨target, follows, seen⟩ := sweeping.seen_newOut found live
    exact .later listed kept follows seen
  · exact .here listed used

theorem Sweeping.update (sweeping : Sweeping graph info) (listed : id ∈ graph.reversePostorder)
    (updated : LivenessInfo.update graph id info = some changed) :
    Sweeping graph changed ∧ (∀ other, info.inOf other ⊆ changed.inOf other) ∧
      ∀ other, info.outOf other ⊆ changed.outOf other := by
  obtain ⟨block, found, ins, outs, -⟩ := update_eq_some updated
  have largerIn : ∀ other, info.inOf other ⊆ changed.inOf other := by
    intro other
    rw [ins]
    split_ifs with same
    · subst same
      exact sweeping.growsIn other block found
    · exact Finset.Subset.refl _
  have largerOut : ∀ other, info.outOf other ⊆ changed.outOf other := by
    intro other
    rw [outs]
    split_ifs with same
    · subst same
      exact sweeping.growsOut other block found
    · exact Finset.Subset.refl _
  refine ⟨⟨?_, ?_, ?_, ?_⟩, largerIn, largerOut⟩
  · intro other register member
    rw [ins] at member
    split_ifs at member with same
    · subst same
      exact sweeping.seen_newIn found listed member
    · exact sweeping.seenIn other register member
  · intro other register member
    rw [outs] at member
    split_ifs at member with same
    · subst same
      exact ⟨listed, sweeping.seen_newOut found member⟩
    · exact sweeping.seenOut other register member
  · intro other block' found'
    have larger := @newIn_mono block' _ _ (newOut_mono largerIn block')
    rw [ins]
    split_ifs with same
    · subst same
      obtain rfl := Option.some.inj (found.symm.trans found')
      exact larger
    · exact (sweeping.growsIn other block' found').trans larger
  · intro other block' found'
    have larger := newOut_mono largerIn block'
    rw [outs]
    split_ifs with same
    · subst same
      obtain rfl := Option.some.inj (found.symm.trans found')
      exact larger
    · exact (sweeping.growsOut other block' found').trans larger

/-- The registers the blocks of a graph use. -/
def registers (graph : Cfg) : Finset Nat :=
  graph.reversePostorder.toFinset.biUnion fun block => (usesDefs graph block).1

theorem Seen.mem_registers (seen : Seen graph register block) : register ∈ registers graph := by
  induction seen with
  | here listed used => exact Finset.mem_biUnion.mpr ⟨_, mem_toFinset.mpr listed, used⟩
  | later listed kept follows seen ih => exact ih

/-- How many registers are live. -/
def size (graph : Cfg) (info : LivenessInfo) : Nat :=
  ∑ block ∈ graph.reversePostorder.toFinset, ((info.inOf block).card + (info.outOf block).card)

theorem Sweeping.size_le (sweeping : Sweeping graph info) :
    size graph info ≤ graph.reversePostorder.toFinset.card * (2 * (registers graph).card) := by
  rw [← smul_eq_mul]
  apply Finset.sum_le_card_nsmul
  intro block _
  have ins : (info.inOf block).card ≤ (registers graph).card :=
    Finset.card_le_card fun register member => (sweeping.seenIn block register member).mem_registers
  have outs : (info.outOf block).card ≤ (registers graph).card := by
    apply Finset.card_le_card
    intro register member
    obtain ⟨-, target, -, seen⟩ := sweeping.seenOut block register member
    exact seen.mem_registers
  omega

theorem Sweeping.size_lt (sweeping : Sweeping graph info) (listed : id ∈ graph.reversePostorder)
    (updated : LivenessInfo.update graph id info = some changed) :
    size graph info < size graph changed := by
  obtain ⟨-, largerIn, largerOut⟩ := sweeping.update listed updated
  obtain ⟨block, -, ins, outs, differs⟩ := update_eq_some updated
  apply Finset.sum_lt_sum
  · intro other _
    exact add_le_add (Finset.card_le_card (largerIn other)) (Finset.card_le_card (largerOut other))
  · refine ⟨id, mem_toFinset.mpr listed, ?_⟩
    have inLe := Finset.card_le_card (largerIn id)
    have outLe := Finset.card_le_card (largerOut id)
    have inHere := ins id
    have outHere := outs id
    rw [if_pos rfl] at inHere outHere
    rcases differs with different | different
    · have strict : (info.inOf id).card < (changed.inOf id).card := by
        apply Finset.card_lt_card
        apply (largerIn id).ssubset_of_ne
        rw [inHere]
        exact different.symm
      omega
    · have strict : (info.outOf id).card < (changed.outOf id).card := by
        apply Finset.card_lt_card
        apply (largerOut id).ssubset_of_ne
        rw [outHere]
        exact different.symm
      omega

/-- The sweeps end, with live registers that no update changes. -/
theorem analyze_ends (graph : Cfg) : ∃ sweeps info, analyze graph sweeps = some info ∧
    Sweeping graph info ∧ ∀ id ∈ graph.reversePostorder, update graph id info = none := by
  have keeps : ∀ id ∈ graph.reversePostorder.reverse, ∀ info changed, Sweeping graph info →
      update graph id info = some changed →
        Sweeping graph changed ∧ size graph info < size graph changed := by
    intro id listed info changed sweeping updated
    rw [mem_reverse] at listed
    exact ⟨(sweeping.update listed updated).1, sweeping.size_lt listed updated⟩
  obtain ⟨info, ended, sweeping, idle⟩ := Settling.settle_spec keeps
    (fun info sweeping => sweeping.size_le) sweeping_initial
    (Nat.lt_add_left (size graph (initial graph)) (Nat.lt_succ_self _))
  exact ⟨_, info, ended, sweeping, fun id listed => idle id (mem_reverse.mpr listed)⟩

theorem sweeping_analyze {sweeps : Nat} (ended : analyze graph sweeps = some info) :
    Sweeping graph info := by
  refine Settling.settle_keeps ?_ sweeping_initial ended
  intro id listed info changed sweeping updated
  exact (sweeping.update (mem_reverse.mp listed) updated).1

theorem mem_outOf {block target : BlockId}
    (idle : ∀ id ∈ graph.reversePostorder, update graph id info = none)
    (listed : block ∈ graph.reversePostorder) (follows : target ∈ graph.successors block)
    (live : register ∈ info.inOf target) : register ∈ info.outOf block:= by
  cases found : graph.get block with
  | none =>
    rw [Cfg.successors, Cfg.terminator, found] at follows
    cases follows
  | some here =>
    rw [(update_eq_none found (idle block listed)).2, mem_newOut, ← successors_eq found]
    exact ⟨target, follows, live⟩

/-- What is seen from a block is live at its start. -/
theorem Seen.mem_inOf (seen : Seen graph register block)
    (idle : ∀ id ∈ graph.reversePostorder, update graph id info = none) :
    register ∈ info.inOf block := by
  induction seen with
  | @here block listed used =>
    cases found : graph.get block with
    | none =>
      rw [usesDefs, found] at used
      exact absurd used (Finset.notMem_empty _)
    | some here =>
      rw [(update_eq_none found (idle block listed)).1, mem_newIn, ← usesDefs_of_get found]
      exact .inr used
  | @later block target listed kept follows seen ih =>
    have live := mem_outOf idle listed follows ih
    cases found : graph.get block with
    | none =>
      rw [Cfg.successors, Cfg.terminator, found] at follows
      cases follows
    | some here =>
      obtain ⟨entering, leaving⟩ := update_eq_none found (idle block listed)
      rw [entering, mem_newIn, ← usesDefs_of_get found, ← leaving]
      exact .inl ⟨live, kept⟩

theorem mem_blockIds_of_readIn (readIn : ReadIn graph block register) : block ∈ graph.blockIds:= by
  rw [Cfg.mem_blockIds]
  by_contra outside
  have missing : graph.get block = none := List.getElem?_eq_none (Nat.le_of_not_lt outside)
  obtain ⟨index, -, reads, -⟩ := readIn
  simp [Cfg.liveReadsAt, Cfg.statementAt, Cfg.statements, Cfg.terminator, missing, Terminator.reads,
    Terminator.valueReads, Terminator.testReads] at reads

/-- The analysis ends, and a register is live at the start of a block exactly when its walkers see
it read first from there, and at the end when they do behind the block. Every such register is read
first indeed. -/
theorem analyze_live_iff (graph : Cfg) : ∃ sweeps info, analyze graph sweeps = some info ∧
    ∀ block register, (info.isLiveIn block register = true ↔ Seen graph register block) ∧
      (info.isLiveOut block register = true ↔ block ∈ graph.reversePostorder ∧
        ∃ target ∈ graph.successors block, Seen graph register target) ∧
      (info.isLiveIn block register = true → ReadFirst graph register ⟨block, 0⟩) := by
  obtain ⟨sweeps, info, ended, sweeping, idle⟩ := analyze_ends graph
  refine ⟨sweeps, info, ended, fun block register => ?_⟩
  simp only [isLiveIn_eq, isLiveOut_eq]
  refine ⟨⟨sweeping.seenIn block register, fun seen => seen.mem_inOf idle⟩,
    ⟨sweeping.seenOut block register, ?_⟩, fun live => (sweeping.seenIn block register live).readFirst⟩
  rintro ⟨listed, target, follows, seen⟩
  exact mem_outOf idle listed follows (seen.mem_inOf idle)

/-- The analysis ends with everything that is read first live exactly when every read its walkers
miss and every read of a handler is made up for, in blocks the sweep goes over. -/
theorem analyze_covers_iff (graph : Cfg) :
    (∃ sweeps info, analyze graph sweeps = some info ∧ Sound graph info) ↔ Covered graph := by
  constructor
  · rintro ⟨sweeps, info, ended, sound⟩
    have sweeping := sweeping_analyze ended
    have seen : ∀ {block register}, block ∈ graph.blockIds →
        ReadFirst graph register ⟨block, 0⟩ → Seen graph register block :=
      fun present first => sweeping.seenIn _ _ (isLiveIn_eq.mp (sound.entry _ present _ first))
    constructor
    case reads =>
      intro block register readIn
      exact seen (mem_blockIds_of_readIn readIn) (readFirst_of_readIn readIn)
    case handlers =>
      intro handler listed block protects present register needed
      exact seen present (.raise listed protects present (Nat.zero_le _) needed.readFirst)
    case listed =>
      intro block target follows register needed
      have live := isLiveOut_eq.mp (sound.exit block target follows register needed.readFirst)
      exact (sweeping.seenOut block register live).1
  · intro covered
    obtain ⟨sweeps, info, ended, -, idle⟩ := analyze_ends graph
    have seen : ∀ {block register}, ReadFirst graph register ⟨block, 0⟩ →
        Seen graph register block :=
      fun first => covered.seen first (Nat.zero_le _)
        fun index _ before => absurd before (Nat.not_lt_zero index)
    refine ⟨sweeps, info, ended, ?_, ?_⟩
    · intro block _ register first
      exact isLiveIn_eq.mpr ((seen first).mem_inOf idle)
    · intro block target follows register first
      have needed := seen first
      exact isLiveOut_eq.mpr
        (mem_outOf idle (covered.listed block target follows register needed) follows
          (needed.mem_inOf idle))

/-- Stores into a property of a register. -/
def storingGraph : Cfg where
  entry := 0
  blocks := [⟨[.assign (.member (.register 1) "size") (.value (.constant (.integer 0)))],
    .returnTerm none⟩]
  exceptionHandlers := []

/-- The register a property is stored into is read and is not live. -/
theorem storingGraph_misses : ¬ ∃ sweeps info, analyze storingGraph sweeps = some info ∧
    Sound storingGraph info := by
  rintro ⟨sweeps, info, ended, sound⟩
  have first : ReadFirst storingGraph 1 ⟨0, 0⟩ := .read (by decide)
  have live := sound.entry 0 (mem_singleton.mpr rfl) 1 first
  have seen := (sweeping_analyze ended).seenIn 0 1 (isLiveIn_eq.mp live)
  cases seen with
  | here listed used => exact nomatch used
  | later listed kept follows seen => cases follows

end LivenessInfo

end HermesDecomp.Ir
