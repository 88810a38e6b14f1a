import Mathlib.Order.Lattice.Nat
import HermesDecomp.Analysis.ReachingSoundness
import HermesDecomp.Library.UnionFind

/-!
# The numbers live-range splitting gives

Definitions that meet at a use get one number, definitions of different registers get
different ones, and every number lies in a range of its own, as long as the graph has
definitions.
-/

namespace HermesDecomp.Ir

open List

/-!
Every definition of a register gets a new register number, the same number where two
definitions meet at a read. A first walk over the graph joins the definitions that meet,
a second one renames reads and definitions.

The analysis keeps its definitions in hash sets, whose order is not specified, so the
pass is given an order to go over a set in.
-/

/-- An order in which the definitions of a set are gone over. -/
structure SiteOrder where
  list : Finset DefSite → List DefSite
  mem_list : ∀ {sites : Finset DefSite} {site : DefSite}, site ∈ list sites ↔ site ∈ sites

/-- The definitions of a set by their blocks, their places there and their registers. -/
def SiteOrder.ascending : SiteOrder where
  list sites :=
    (List.range (sites.sup DefSite.block + 1)).flatMap fun block =>
      (List.range (sites.sup DefSite.index + 1)).flatMap fun index =>
        ((List.range (sites.sup DefSite.register + 1)).map (DefSite.mk block index)).filter
          fun site => site ∈ sites
  mem_list := by
    intro sites site
    simp only [mem_flatMap, mem_range, mem_filter, mem_map, decide_eq_true_eq]
    constructor
    · rintro ⟨_, _, _, _, _, member⟩
      exact member
    · intro member
      refine ⟨site.block, Nat.lt_succ_of_le (Finset.le_sup member), site.index,
        Nat.lt_succ_of_le (Finset.le_sup member), ⟨site.register, ?_, rfl⟩, member⟩
      exact Nat.lt_succ_of_le (Finset.le_sup member)

/-- Let a plain register assignment define another register. -/
def Statement.redefine (register : Nat) : Statement → Statement
  | assignReg _ value => assignReg register value
  | statement => statement

namespace Ssa

/-- Numbers start high to avoid colliding with physical registers. -/
def firstVersion : Nat := 10000

/-- Every register definition, in the order of the blocks. -/
def definitions (graph : Cfg) : List DefSite :=
  graph.blockIds.flatMap fun block =>
    (graph.statements block).zipIdx.filterMap fun item =>
      item.1.definition?.map fun register => ⟨block, item.2, register⟩

/-- The number of a definition. -/
def defId (graph : Cfg) (site : DefSite) : Option Nat :=
  if site ∈ definitions graph then some ((definitions graph).idxOf site) else none

/-- The reaching definitions on entry to a block, by register. -/
def blockEntryReaching (order : SiteOrder) (facts : ReachingDefs) (block : BlockId)
    (register : Nat) : List DefSite :=
  (order.list (facts.inOf block)).filter fun site => site.register = register

/-- Go past a statement: the definition it makes is the only one of its register. -/
def define (block : BlockId) (current : Nat → List DefSite) (item : Statement × Nat) :
    Nat → List DefSite :=
  match item.1.definition? with
  | some register => Function.update current register [⟨block, item.2, register⟩]
  | none => current

section Walks

variable (graph : Cfg) (order : SiteOrder) (facts : ReachingDefs)

/-- The reaching definitions at a point, by register. -/
def currentAt (point : Point) : Nat → List DefSite :=
  ((graph.statements point.block).zipIdx.take point.index).foldl (define point.block)
    (blockEntryReaching order facts point.block)

/-- The definitions that reach each use, in the order the first walk comes to the uses. -/
def meetings : List (List DefSite) :=
  graph.blockIds.flatMap fun block =>
    ((graph.statements block).zipIdx.flatMap fun item =>
      item.1.reads.map (currentAt graph order facts ⟨block, item.2⟩)) ++
    (graph.terminator block).valueReads.map
      (currentAt graph order facts ⟨block, (graph.statements block).length⟩)

/-- Union the definitions that reach a single use. -/
def unionReaching (forest : UnionFind) (sites : List DefSite) : UnionFind :=
  forest.unionAll (sites.filterMap (defId graph))

/-- The live ranges: the classes of definitions that meet at uses. -/
def liveRanges : UnionFind :=
  (meetings graph order facts).foldl (unionReaching graph) (.new (definitions graph).length)

end Walks

/-- The roots of the classes, in the order they are given numbers. -/
def classes (graph : Cfg) (forest : UnionFind) : List Nat :=
  ((List.range (definitions graph).length).map forest.root).foldl
    (fun roots root => if roots.contains root then roots else roots ++ [root]) []

/-- The register number of the live range a definition belongs to. -/
def versionOf (graph : Cfg) (forest : UnionFind) (site : DefSite) : Option Nat :=
  (defId graph site).map fun id => firstVersion + (classes graph forest).idxOf (forest.root id)

section Renaming

variable (graph : Cfg) (order : SiteOrder) (facts : ReachingDefs) (forest : UnionFind)

/-- A read resolves to the version of the class its reaching definitions belong to. -/
def readMap (point : Point) (register : Nat) : Nat :=
  ((currentAt graph order facts point register).head?.bind (versionOf graph forest)).getD register

/-- Rename a statement. -/
def renameStatement (point : Point) (statement : Statement) : Statement :=
  let renamed := statement.rewriteReads (readMap graph order facts forest point)
  match statement.definition? with
  | some register =>
      match versionOf graph forest ⟨point.block, point.index, register⟩ with
      | some version => renamed.redefine version
      | none => renamed
  | none => renamed

/-- Rename a block. -/
def renameBlock (id : BlockId) (block : BasicBlock) : BasicBlock where
  statements := block.statements.zipIdx.map fun item =>
    renameStatement graph order facts forest ⟨id, item.2⟩ item.1
  terminator := block.terminator.rewriteReads
    (readMap graph order facts forest ⟨id, block.statements.length⟩)

end Renaming

/-- Split the live ranges of every register. -/
def splitLiveRanges (order : SiteOrder) (graph : Cfg) : Cfg :=
  let facts := ReachingDefs.analyze graph
  if (definitions graph).isEmpty then graph
  else { graph with
    blocks := graph.blocks.zipIdx.map fun item =>
      renameBlock graph order facts (liveRanges graph order facts) item.2 item.1 }

/-- Transform the function to its split form. -/
def transformToSsa (order : SiteOrder) (graph : Cfg) : Cfg := splitLiveRanges order graph

end Ssa

end HermesDecomp.Ir

namespace HermesDecomp.Ir.Ssa

open ReachingDefs List

variable {graph : Cfg} {order : SiteOrder} {facts : ReachingDefs} {site other : DefSite}

/-- The definitions of a register at a point are those the analysis finds there. -/
theorem mem_currentAt {point : Point} {register : Nat} :
    site ∈ currentAt graph order facts point register ↔
      site ∈ reachingAt graph facts point ∧ site.register = register := by
  have general : ∀ (items : List (Statement × Nat)) (current : Nat → List DefSite)
      (reaching : Finset DefSite),
      (∀ register, site ∈ current register ↔ site ∈ reaching ∧ site.register = register) →
      ∀ register, site ∈ items.foldl (define point.block) current register ↔
        site ∈ items.foldl (ReachingDefs.define point.block) reaching ∧
          site.register = register := by
    intro items
    induction items with
    | nil =>
      intro current reaching same
      exact same
    | cons item rest ih =>
      intro current reaching same
      rw [foldl_cons, foldl_cons]
      apply ih
      intro register
      rw [define]
      cases made : item.1.definition? with
      | none =>
        rw [define_of_none made]
        exact same register
      | some defined =>
        rw [define_of_some made, Finset.mem_insert, Finset.mem_filter]
        dsimp only
        by_cases here : register = defined
        · subst here
          rw [Function.update_self, mem_singleton]
          constructor
          · rintro rfl
            exact ⟨Or.inl rfl, rfl⟩
          · rintro ⟨rfl | ⟨_, different⟩, isOne⟩
            · rfl
            · exact absurd isOne different
        · rw [Function.update_of_ne here, same register]
          constructor
          · rintro ⟨member, rfl⟩
            exact ⟨Or.inr ⟨member, here⟩, rfl⟩
          · rintro ⟨rfl | ⟨member, _⟩, isOne⟩
            · exact absurd isOne.symm here
            · exact ⟨member, isOne⟩
  apply general
  intro register
  rw [blockEntryReaching, mem_filter, order.mem_list, decide_eq_true_eq]

theorem mem_definitions :
    site ∈ definitions graph ↔ graph.definedAt site.point = some site.register := by
  simp only [definitions, mem_flatMap, mem_filterMap, Option.map_eq_some_iff]
  constructor
  · rintro ⟨block, _, ⟨statement, index⟩, member, register, defines, rfl⟩
    rw [mem_zipIdx_iff_getElem?] at member
    dsimp only at member
    simp [Cfg.definedAt, Cfg.statementAt, DefSite.point, member, defines]
  · intro defines
    obtain ⟨statement, found, made⟩ := Option.bind_eq_some_iff.mp defines
    have inside : site.block ∈ graph.blockIds := by
      rw [Cfg.mem_blockIds]
      by_contra outside
      have missing : graph.get site.block = none := List.getElem?_eq_none (Nat.le_of_not_lt outside)
      simp [Cfg.statementAt, DefSite.point, Cfg.statements, missing] at found
    refine ⟨site.block, inside, (statement, site.index), ?_, site.register, made, rfl⟩
    rw [mem_zipIdx_iff_getElem?]
    exact found

theorem defId_eq_some {id : Nat} : defId graph site = some id →
    (definitions graph)[id]? = some site := by
  rw [defId]
  split
  · rename_i member
    rintro ⟨⟩
    rw [List.getElem?_eq_getElem (idxOf_lt_length_of_mem member), getElem_idxOf]
  · intro impossible
    exact absurd impossible.symm (Option.some_ne_none _)

theorem defId_of_mem (member : site ∈ definitions graph) :
    defId graph site = some ((definitions graph).idxOf site) := if_pos member

/-- The register of the definition with a number. -/
def registerOf (graph : Cfg) (id : Nat) : Option Nat :=
  (definitions graph)[id]?.map DefSite.register

theorem registerOf_idxOf (member : site ∈ definitions graph) :
    registerOf graph ((definitions graph).idxOf site) = some site.register := by
  rw [registerOf, defId_eq_some (defId_of_mem member)]
  rfl

/-- The definitions gone over at a use are definitions of one register. -/
theorem register_of_meeting {sites : List DefSite} (meeting : sites ∈ meetings graph order facts) :
    ∃ register, ∀ site ∈ sites, site.register = register := by
  simp only [meetings, mem_flatMap, mem_append, mem_map] at meeting
  obtain ⟨block, _, ⟨item, _, register, _, rfl⟩ | ⟨register, _, rfl⟩⟩ := meeting
  · exact ⟨register, fun site member => (mem_currentAt.mp member).2⟩
  · exact ⟨register, fun site member => (mem_currentAt.mp member).2⟩

variable (graph order facts) in
/-- The classes of the live ranges: definitions that meet are together, and definitions
of different registers are apart. -/
theorem liveRanges_spec : ∃ rep, (liveRanges graph order facts).Represents rep ∧
    (∀ sites ∈ meetings graph order facts, ∀ id ∈ sites.filterMap (defId graph),
      ∀ id' ∈ sites.filterMap (defId graph), rep id = rep id') ∧
    UnionFind.Respects rep (registerOf graph) := by
  have inside : ∀ ids ∈ (meetings graph order facts).map fun sites =>
      sites.filterMap (defId graph), ∀ id ∈ ids,
        id < (UnionFind.new (definitions graph).length).size := by
    intro ids member id isOne
    obtain ⟨sites, _, rfl⟩ := mem_map.mp member
    obtain ⟨site, _, found⟩ := mem_filterMap.mp isOne
    have placed := defId_eq_some found
    simpa [UnionFind.new, UnionFind.size] using (List.getElem?_eq_some_iff.mp placed).1
  obtain ⟨rep, represents, _, together, labels⟩ :=
    (UnionFind.represents_new (definitions graph).length).unionGroups inside
  rw [foldl_map] at represents
  refine ⟨rep, represents, ?_, ?_⟩
  · intro sites meeting
    exact together _ (mem_map_of_mem meeting)
  · apply labels (registerOf graph)
    · rintro node other rfl
      rfl
    · intro ids member id isOne other isOther
      obtain ⟨sites, meeting, rfl⟩ := mem_map.mp member
      obtain ⟨register, same⟩ := register_of_meeting meeting
      have isRegister : ∀ id ∈ sites.filterMap (defId graph),
          registerOf graph id = some register := by
        intro id isOne
        obtain ⟨site, member, found⟩ := mem_filterMap.mp isOne
        rw [registerOf, defId_eq_some found, Option.map_some, same site member]
      rw [isRegister id isOne, isRegister other isOther]

theorem mem_classes {forest : UnionFind} (member : site ∈ definitions graph) :
    forest.root ((definitions graph).idxOf site) ∈ classes graph forest := by
  rw [classes, Cfg.mem_foldl_addNew]
  right
  apply mem_map_of_mem
  exact mem_range.mpr (idxOf_lt_length_of_mem member)

variable (graph) in
/-- There are no more classes than definitions. -/
theorem length_classes_le (forest : UnionFind) :
    (classes graph forest).length ≤ (definitions graph).length := by
  have general : ∀ (added roots : List Nat),
      (added.foldl (fun roots root => if roots.contains root then roots else roots ++ [root])
        roots).length ≤ roots.length + added.length := by
    intro added
    induction added with
    | nil =>
      intro roots
      exact le_rfl
    | cons first rest ih =>
      intro roots
      rw [foldl_cons, length_cons]
      apply (ih _).trans
      split
      · omega
      · rw [length_append, length_singleton]
        omega
  have bounded := general ((List.range (definitions graph).length).map forest.root) []
  simpa [classes] using bounded

/-- A register that no live range gets as its number. -/
def Spare (graph : Cfg) (register : Nat) : Prop :=
  register < firstVersion ∨ firstVersion + (definitions graph).length ≤ register

variable (graph order) in
/-- The number a definition gets. -/
def version (site : DefSite) : Nat :=
  firstVersion + (classes graph (liveRanges graph order (analyze graph))).idxOf
    ((liveRanges graph order (analyze graph)).root ((definitions graph).idxOf site))

theorem versionOf_of_mem (member : site ∈ definitions graph) :
    versionOf graph (liveRanges graph order (analyze graph)) site =
      some (version graph order site) := by
  rw [versionOf, defId_of_mem member]
  rfl

theorem version_not_spare (member : site ∈ definitions graph) :
    ¬ Spare graph (version graph order site) := by
  have listed : (liveRanges graph order (analyze graph)).root ((definitions graph).idxOf site) ∈
      classes graph (liveRanges graph order (analyze graph)) := mem_classes member
  have low := idxOf_lt_length_of_mem listed
  have few := length_classes_le graph (liveRanges graph order (analyze graph))
  unfold Spare version
  omega

/-- Definitions with one number define one register. -/
theorem register_of_version (member : site ∈ definitions graph)
    (member' : other ∈ definitions graph)
    (same : version graph order site = version graph order other) :
    site.register = other.register := by
  obtain ⟨rep, represents, _, respects⟩ := liveRanges_spec graph order (analyze graph)
  have sameRoot := (idxOf_inj (mem_classes member)).mp (Nat.add_left_cancel same)
  rw [represents.root_eq, represents.root_eq] at sameRoot
  have label := respects _ _ sameRoot
  rw [registerOf_idxOf member, registerOf_idxOf member'] at label
  exact Option.some.inj label

/-- Definitions that meet at a use have one number. -/
theorem version_of_meeting {sites : List DefSite}
    (meeting : sites ∈ meetings graph order (analyze graph)) (isOne : site ∈ sites)
    (isOther : other ∈ sites) (member : site ∈ definitions graph)
    (member' : other ∈ definitions graph) :
    version graph order site = version graph order other := by
  obtain ⟨rep, represents, together, _⟩ := liveRanges_spec graph order (analyze graph)
  have same := together sites meeting _ (mem_filterMap.mpr ⟨site, isOne, defId_of_mem member⟩)
    _ (mem_filterMap.mpr ⟨other, isOther, defId_of_mem member'⟩)
  rw [version, version, represents.root_eq, represents.root_eq, same]

end HermesDecomp.Ir.Ssa
