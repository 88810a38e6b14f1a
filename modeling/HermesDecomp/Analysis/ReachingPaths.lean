import HermesDecomp.Ir.Graph
import HermesDecomp.Library.OrdMap
import HermesDecomp.Library.Worklist

/-!
# What the reaching-definition analysis computes

A definition is carried to a point when a path leads there from the definition, no
statement on it replaces the register, and an exceptional edge is taken only at the
start or the end of a block. The analysis ends, and it finds exactly the carried
definitions, among the blocks the sweep goes over.

The restriction on exceptional edges is the analysis's own.
-/

namespace HermesDecomp.Ir

/-- A plain assignment to a register, by its place. -/
structure DefSite where
  block : BlockId
  index : Nat
  register : Nat
deriving DecidableEq, Repr

/-- The point of a definition. -/
def DefSite.point (site : DefSite) : Point := ⟨site.block, site.index⟩

/-- The definitions reaching the start and the end of each block. -/
structure ReachingDefs where
  reachingIn : OrdMap (Finset DefSite)
  reachingOut : OrdMap (Finset DefSite)

namespace ReachingDefs

/-- The definitions reaching the start of a block. -/
def inOf (facts : ReachingDefs) (block : BlockId) : Finset DefSite :=
  (facts.reachingIn.get? block).getD ∅

/-- The definitions reaching the end of a block. -/
def outOf (facts : ReachingDefs) (block : BlockId) : Finset DefSite :=
  (facts.reachingOut.get? block).getD ∅

/-- What reaches past a statement of a block. A definition replaces the others of its
register. -/
def define (block : BlockId) (reaching : Finset DefSite) (item : Statement × Nat) :
    Finset DefSite :=
  match item.1.definition? with
  | some register =>
      insert ⟨block, item.2, register⟩ (reaching.filter fun site => site.register ≠ register)
  | none => reaching

/-- The last definition of each register in a block. -/
def computeGen (graph : Cfg) (block : BlockId) : Finset DefSite :=
  (graph.statements block).zipIdx.foldl (define block) ∅

/-- Add the reaching definitions of other blocks that a statement replaces. -/
def addKilled (block : BlockId) (reaching kill : Finset DefSite) (statement : Statement) :
    Finset DefSite :=
  match statement.definition? with
  | some register =>
      kill ∪ reaching.filter fun site => site.register = register ∧ site.block ≠ block
  | none => kill

/-- The reaching definitions of other blocks that a block replaces. -/
def computeKill (graph : Cfg) (block : BlockId) (reaching : Finset DefSite) : Finset DefSite :=
  (graph.statements block).foldl (addKilled block reaching) ∅

/-- What reaches the start of a block from the blocks before it. -/
def newIn (graph : Cfg) (facts : ReachingDefs) (block : BlockId) : Finset DefSite :=
  (graph.exceptionEdgeSources block).foldl
    (fun reaching source => reaching ∪ facts.inOf source ∪ facts.outOf source)
    ((graph.predecessors block).foldl
      (fun reaching predecessor => reaching ∪ facts.outOf predecessor) ∅)

/-- What reaches the end of a block from its start. -/
def newOut (graph : Cfg) (block : BlockId) (reaching : Finset DefSite) : Finset DefSite :=
  (reaching \ computeKill graph block reaching) ∪ computeGen graph block

/-- Recompute the facts of a block, and answer nothing when they are what they were. -/
def update (graph : Cfg) (block : BlockId) (facts : ReachingDefs) : Option ReachingDefs :=
  let reaching := newIn graph facts block
  let leaving := newOut graph block reaching
  if reaching = facts.inOf block ∧ leaving = facts.outOf block then none
  else some ⟨
    if reaching = facts.inOf block then facts.reachingIn
      else facts.reachingIn.insert block reaching,
    if leaving = facts.outOf block then facts.reachingOut
      else facts.reachingOut.insert block leaving⟩

/-- The facts before the first sweep. -/
def initial (graph : Cfg) : ReachingDefs where
  reachingIn := graph.blockIds.foldl (fun facts block => facts.insert block ∅) []
  reachingOut := graph.blockIds.foldl
    (fun facts block => facts.insert block (computeGen graph block)) []

/-- The definitions of a graph. -/
def sites (graph : Cfg) : Finset DefSite :=
  graph.blockIds.toFinset.biUnion fun block =>
    ((graph.statements block).zipIdx.filterMap fun item =>
      item.1.definition?.map fun register => DefSite.mk block item.2 register).toFinset

/-- More sweeps than the facts can change in. -/
def sweeps (graph : Cfg) : Nat :=
  graph.reversePostorder.toFinset.card * (2 * (sites graph).card) + 1

/-- The reaching definitions of a graph. -/
def analyze (graph : Cfg) : ReachingDefs :=
  (Settling.settle (update graph) graph.reversePostorder (sweeps graph) (initial graph)).getD
    (initial graph)

/-- The definitions reaching a point, from those that reach the start of its block. -/
def reachingAt (graph : Cfg) (facts : ReachingDefs) (point : Point) : Finset DefSite :=
  ((graph.statements point.block).zipIdx.take point.index).foldl (define point.block)
    (facts.inOf point.block)

end ReachingDefs

end HermesDecomp.Ir

namespace HermesDecomp.Ir.ReachingDefs

variable {graph : Cfg}

/-- No statement of a block between two positions defines a register. -/
def Untouched (graph : Cfg) (block : BlockId) (register first last : Nat) : Prop :=
  ∀ index, first ≤ index → index < last → graph.definedAt ⟨block, index⟩ ≠ some register

/-- A definition is carried to a point. -/
inductive Carried (graph : Cfg) (site : DefSite) : Point → Prop where
  | made (defines : graph.definedAt site.point = some site.register) :
      Carried graph site ⟨site.block, site.index + 1⟩
  | next {block : BlockId} {index : Nat} (carried : Carried graph site ⟨block, index⟩)
      (inside : index < (graph.statements block).length)
      (kept : graph.definedAt ⟨block, index⟩ ≠ some site.register) :
      Carried graph site ⟨block, index + 1⟩
  | follow {source target : BlockId}
      (carried : Carried graph site ⟨source, (graph.statements source).length⟩)
      (follows : target ∈ graph.successors source) : Carried graph site ⟨target, 0⟩
  | raiseAtStart {source : BlockId} {handler : CfgExceptionHandler}
      (carried : Carried graph site ⟨source, 0⟩) (listed : handler ∈ graph.exceptionHandlers)
      (protects : source ∈ handler.tryBlocks) : Carried graph site ⟨handler.catchBlock, 0⟩
  | raiseAtEnd {source : BlockId} {handler : CfgExceptionHandler}
      (carried : Carried graph site ⟨source, (graph.statements source).length⟩)
      (listed : handler ∈ graph.exceptionHandlers) (protects : source ∈ handler.tryBlocks) :
      Carried graph site ⟨handler.catchBlock, 0⟩

theorem Untouched.snoc {block : BlockId} {register first last : Nat}
    (untouched : Untouched graph block register first last)
    (kept : graph.definedAt ⟨block, last⟩ ≠ some register) :
    Untouched graph block register first (last + 1) := by
  intro index low high
  rcases Nat.lt_succ_iff_lt_or_eq.mp high with earlier | rfl
  · exact untouched index low earlier
  · exact kept

variable {block : BlockId}

theorem Untouched.init {register first last : Nat}
    (untouched : Untouched graph block register first (last + 1)) :
    Untouched graph block register first last :=
  fun index low high => untouched index low (by omega)

variable {register : Nat}

/-- A definition stands at a position of its block. -/
theorem definedAt_lt {point : Point} (defines : graph.definedAt point = some register) :
    point.index < (graph.statements point.block).length := by
  by_contra outside
  have absent : (graph.statements point.block)[point.index]? = none :=
    List.getElem?_eq_none (Nat.le_of_not_lt outside)
  simp [Cfg.definedAt, Cfg.statementAt, absent] at defines

variable {reaching : Finset DefSite}

theorem define_of_none {item : Statement × Nat} (made : item.1.definition? = none)
    : define block reaching item = reaching:= by
  rw [define, made]

theorem define_of_some {item : Statement × Nat} (made : item.1.definition? = some register) :
    define block reaching item =
      insert ⟨block, item.2, register⟩ (reaching.filter fun site => site.register ≠ register) := by
  rw [define, made]

/-- What reaches a position of a block is what reached its start and was not replaced,
and what the block defined since. -/
theorem mem_foldl_define (start : Finset DefSite) (site : DefSite) :
    ∀ {count : Nat}, count ≤ (graph.statements block).length →
      (site ∈ ((graph.statements block).zipIdx.take count).foldl (define block) start ↔
        (site ∈ start ∧ Untouched graph block site.register 0 count) ∨
        (site.block = block ∧ site.index < count ∧ graph.definedAt site.point = some site.register ∧
          Untouched graph block site.register (site.index + 1) count)) := by
  intro count
  induction count with
  | zero =>
    intro _
    simp [Untouched]
  | succ count ih =>
    intro bounded
    have inside : count < (graph.statements block).length := bounded
    obtain ⟨statement, found⟩ : ∃ statement, (graph.statements block)[count]? = some statement :=
      ⟨_, List.getElem?_eq_getElem inside⟩
    have item : (graph.statements block).zipIdx[count]? = some (statement, count) := by
      simp [List.getElem?_zipIdx, found]
    have defined : graph.definedAt ⟨block, count⟩ = statement.definition? := by
      simp [Cfg.definedAt, Cfg.statementAt, found]
    rw [List.take_add_one, item, Option.toList_some, List.foldl_append, List.foldl_cons,
      List.foldl_nil]
    have before := ih (le_of_lt inside)
    cases made : statement.definition? with
    | none =>
      rw [made] at defined
      rw [define_of_none made]
      have kept : graph.definedAt ⟨block, count⟩ ≠ some site.register := by simp [defined]
      rw [before]
      constructor
      · rintro (⟨old, untouched⟩ | ⟨here, early, defines, untouched⟩)
        · exact .inl ⟨old, untouched.snoc kept⟩
        · exact .inr ⟨here, by omega, defines, untouched.snoc kept⟩
      · rintro (⟨old, untouched⟩ | ⟨here, early, defines, untouched⟩)
        · exact .inl ⟨old, untouched.init⟩
        · refine .inr ⟨here, ?_, defines, untouched.init⟩
          rcases Nat.lt_succ_iff_lt_or_eq.mp early with earlier | same
          · exact earlier
          · exfalso
            rw [DefSite.point, here, same, defined] at defines
            simp at defines
    | some register =>
      rw [made] at defined
      rw [define_of_some made, Finset.mem_insert, Finset.mem_filter, before]
      constructor
      · rintro (rfl | ⟨⟨old, untouched⟩ | ⟨here, early, defines, untouched⟩, different⟩)
        · refine .inr ⟨rfl, Nat.lt_succ_self _, defined, ?_⟩
          intro index low high
          dsimp only at low
          omega
        · refine .inl ⟨old, untouched.snoc ?_⟩
          rw [defined]
          exact fun same => different (Option.some.inj same).symm
        · refine .inr ⟨here, by omega, defines, untouched.snoc ?_⟩
          rw [defined]
          exact fun same => different (Option.some.inj same).symm
      · rintro (⟨old, untouched⟩ | ⟨here, early, defines, untouched⟩)
        · refine .inr ⟨.inl ⟨old, untouched.init⟩, ?_⟩
          intro same
          exact untouched count (Nat.zero_le _) (Nat.lt_succ_self _) (by rw [defined, same])
        · rcases Nat.lt_succ_iff_lt_or_eq.mp early with earlier | same
          · refine .inr ⟨.inr ⟨here, earlier, defines, untouched.init⟩, ?_⟩
            intro sameRegister
            exact untouched count earlier (Nat.lt_succ_self _) (by rw [defined, sameRegister])
          · left
            rw [DefSite.point, here, same, defined] at defines
            cases site
            simp_all

theorem zipIdx_take_length (block : BlockId) :
    (graph.statements block).zipIdx.take (graph.statements block).length =
      (graph.statements block).zipIdx :=
  List.take_of_length_le (by simp)

/-- A definition is the last one of its register in its block. -/
def Lasting (graph : Cfg) (site : DefSite) : Prop :=
  graph.definedAt site.point = some site.register ∧
    Untouched graph site.block site.register (site.index + 1) (graph.statements site.block).length

variable {site : DefSite}

theorem mem_computeGen :
    site ∈ computeGen graph block ↔ site.block = block ∧ Lasting graph site := by
  rw [computeGen, ← zipIdx_take_length, mem_foldl_define ∅ site le_rfl]
  simp only [Finset.notMem_empty, false_and, false_or, Lasting]
  constructor
  · rintro ⟨here, _, defines, untouched⟩
    subst here
    exact ⟨rfl, defines, untouched⟩
  · rintro ⟨here, defines, untouched⟩
    subst here
    exact ⟨rfl, definedAt_lt defines, defines, untouched⟩

theorem mem_reachingAt {facts : ReachingDefs} {point : Point}
    (inside : point.index ≤ (graph.statements point.block).length) :
    site ∈ reachingAt graph facts point ↔
      (site ∈ facts.inOf point.block ∧ Untouched graph point.block site.register 0 point.index) ∨
      (site.block = point.block ∧ site.index < point.index ∧
        graph.definedAt site.point = some site.register ∧
        Untouched graph point.block site.register (site.index + 1) point.index) :=
  mem_foldl_define _ site inside

theorem mem_computeKill :
    site ∈ computeKill graph block reaching ↔ site ∈ reaching ∧ site.block ≠ block ∧
      ∃ statement ∈ graph.statements block, statement.definition? = some site.register := by
  have general : ∀ (statements : List Statement) (kill : Finset DefSite),
      site ∈ statements.foldl (addKilled block reaching) kill ↔
        site ∈ kill ∨ (site ∈ reaching ∧ site.block ≠ block ∧
          ∃ statement ∈ statements, statement.definition? = some site.register) := by
    intro statements
    induction statements with
    | nil => simp
    | cons statement rest ih =>
      intro kill
      rw [List.foldl_cons, ih, addKilled]
      cases made : statement.definition? with
      | none => simp [made]
      | some register =>
        simp only [Finset.mem_union, Finset.mem_filter, List.mem_cons, exists_eq_or_imp, made,
          Option.some.injEq, eq_comm (a := register)]
        tauto
  rw [computeKill, general]
  simp

theorem exists_definition_iff :
    (∃ statement ∈ graph.statements block, statement.definition? = some register) ↔
      ¬ Untouched graph block register 0 (graph.statements block).length := by
  constructor
  · rintro ⟨statement, member, made⟩ untouched
    obtain ⟨index, inside, rfl⟩ := List.getElem_of_mem member
    apply untouched index (Nat.zero_le _) inside
    simp [Cfg.definedAt, Cfg.statementAt, List.getElem?_eq_getElem inside, made]
  · intro touched
    simp only [Untouched, not_forall, not_not] at touched
    obtain ⟨index, _, inside, made⟩ := touched
    refine ⟨(graph.statements block)[index], List.getElem_mem inside, ?_⟩
    simpa [Cfg.definedAt, Cfg.statementAt, List.getElem?_eq_getElem inside] using made

theorem mem_newOut :
    site ∈ newOut graph block reaching ↔
      (site ∈ reaching ∧ (site.block = block ∨
        Untouched graph block site.register 0 (graph.statements block).length)) ∨
      (site.block = block ∧ Lasting graph site) := by
  simp only [newOut, Finset.mem_union, Finset.mem_sdiff, mem_computeKill, exists_definition_iff,
    mem_computeGen]
  tauto

theorem mem_newIn {facts : ReachingDefs} :
    site ∈ newIn graph facts block ↔
      (∃ source, block ∈ graph.successors source ∧ site ∈ facts.outOf source) ∨
      (∃ handler ∈ graph.exceptionHandlers, handler.catchBlock = block ∧
        ∃ source ∈ handler.tryBlocks, site ∈ facts.inOf source ∨ site ∈ facts.outOf source) := by
  have fromPredecessors : ∀ (sources : List BlockId) (start : Finset DefSite),
      site ∈ sources.foldl (fun reaching source => reaching ∪ facts.outOf source) start ↔
        site ∈ start ∨ ∃ source ∈ sources, site ∈ facts.outOf source := by
    intro sources
    induction sources with
    | nil => simp
    | cons source rest ih =>
      intro start
      rw [List.foldl_cons, ih]
      simp [or_assoc]
  have fromSources : ∀ (sources : List BlockId) (start : Finset DefSite),
      site ∈ sources.foldl
          (fun reaching source => reaching ∪ facts.inOf source ∪ facts.outOf source) start ↔
        site ∈ start ∨ ∃ source ∈ sources, site ∈ facts.inOf source ∨ site ∈ facts.outOf source := by
    intro sources
    induction sources with
    | nil => simp
    | cons source rest ih =>
      intro start
      rw [List.foldl_cons, ih]
      simp [or_assoc]
  rw [newIn, fromSources, fromPredecessors]
  simp only [Finset.notMem_empty, false_or, Cfg.mem_predecessors, Cfg.mem_exceptionEdgeSources]
  constructor
  · rintro (normal | ⟨source, ⟨handler, listed, catches, protects⟩, reaches⟩)
    · exact .inl normal
    · exact .inr ⟨handler, listed, catches, source, protects, reaches⟩
  · rintro (normal | ⟨handler, listed, catches, source, protects, reaches⟩)
    · exact .inl normal
    · exact .inr ⟨source, ⟨handler, listed, catches, protects⟩, reaches⟩

end HermesDecomp.Ir.ReachingDefs
