import HermesDecomp.Analysis.Dominators

/-!
# Loops

A back edge goes to a block that dominates the block it leaves. Back edges to one header make
one loop, whose body is collected backwards from the blocks the edges leave, and whose exit is
the first successor outside the body.

A block that no root reaches is dominated by every block, so each edge that leaves it counts as a
back edge.
-/

namespace HermesDecomp.Ir.Loops

open Dominance Dominators List

/-- A loop that was found. -/
structure LoopInfo where
  header : BlockId
  body : Finset BlockId
  exit : Option BlockId
  backEdges : List (BlockId × BlockId)
  isDoWhile : Bool
deriving DecidableEq

/-- The edges to a block in the set of the block they leave. -/
def backEdges (graph : Cfg) (dom : Dom) : List (BlockId × BlockId) :=
  graph.blockIds.flatMap fun id =>
    ((graph.successors id).filter fun succ =>
      ((dom.get? id).map fun set => decide (succ ∈ set)).getD false).map fun succ => (id, succ)

/-- The edges by the block they go to. -/
def headers (edges : List (BlockId × BlockId)) : OrdMap (List (BlockId × BlockId)) :=
  edges.foldl (fun headers edge =>
    headers.insert edge.2 ((headers.get? edge.2).getD [] ++ [edge])) []

/-- Collect a block and what leads to it around a header. -/
def collectLoopBody (graph : Cfg) (header node : BlockId)
    (body : DepthFirst.Walk BlockId) : DepthFirst.Walk BlockId :=
  DepthFirst.visit (fun node => (graph.predecessors node).filter (· ≠ header))
    (graph.blocks.length + 1) node body

/-- The body of a loop. -/
def loopBody (graph : Cfg) (header : BlockId) (edges : List (BlockId × BlockId)) :
    Finset BlockId :=
  (edges.foldl (fun body edge => collectLoopBody graph header edge.1 body)
    ⟨[header], []⟩).visited.toFinset

/-- The first successor outside a body, of its header or else of the blocks in order. -/
def findLoopExit (graph : Cfg) (header : BlockId) (body : Finset BlockId) : Option BlockId :=
  ((graph.successors header).find? (· ∉ body)).or
    ((graph.blockIds.filter (· ∈ body)).findSome? fun block =>
      (graph.successors block).find? (· ∉ body))

/-- Whether an edge to the header leaves a block that ends with a branch. -/
def isDoWhile (graph : Cfg) (header : BlockId) (edges : List (BlockId × BlockId)) : Bool :=
  edges.any fun edge => edge.2 == header &&
    match graph.terminator edge.1 with
    | .branch .. => true
    | _ => false

/-- The loops of a graph, when its dominators are found. -/
def detectLoops (graph : Cfg) : Option (List LoopInfo) :=
  (computeDominators graph).map fun dom =>
    (headers (backEdges graph dom)).map fun entry =>
      let body := loopBody graph entry.1 entry.2
      { header := entry.1
        body := body
        exit := findLoopExit graph entry.1 body
        backEdges := entry.2
        isDoWhile := isDoWhile graph entry.1 entry.2 }

/-- An edge from a reached block to a block that dominates it. -/
def Latch (graph : Cfg) (header source : BlockId) : Prop :=
  header ∈ graph.successors source ∧ Reached graph.successors (roots graph) source ∧
    Dominates graph.successors (roots graph) header source

/-- Loops are the natural ones: their headers are the targets of edges from reached blocks they
dominate, their bodies are what reaches such a block around the header, dominated by it, and
an exit is a successor of the body outside it. -/
structure Natural (graph : Cfg) (loops : List LoopInfo) : Prop where
  header : ∀ header, (∃ found ∈ loops, found.header = header) ↔ ∃ source, Latch graph header source
  body : ∀ found ∈ loops, ∀ block, block ∈ found.body ↔ block = found.header ∨
    ∃ source, Latch graph found.header source ∧
      Avoiding graph.successors {found.header} block source
  dominated : ∀ found ∈ loops, ∀ block ∈ found.body,
    Dominates graph.successors (roots graph) found.header block
  exit : ∀ found ∈ loops, ∀ exit, found.exit = some exit →
    exit ∉ found.body ∧ ∃ block ∈ found.body, exit ∈ graph.successors block

/-- An edge to a block that dominates the one it leaves, reached or not. -/
def Returning (graph : Cfg) (header source : BlockId) : Prop :=
  header ∈ graph.successors source ∧ Dominates graph.successors (roots graph) header source

variable {graph : Cfg}

theorem mem_backEdges {dom : Dom} (sweeping : Sweeping graph dom) (closed : Closed graph)
    (idle : ∀ block ∈ graph.reversePostorder, update graph block (some dom) = none)
    {source header : BlockId} :
    (source, header) ∈ backEdges graph dom ↔ Returning graph header source := by
  have listed : (source, header) ∈ backEdges graph dom ↔
      header ∈ graph.successors source ∧ source ∈ graph.blockIds ∧ header ∈ domOf dom source := by
    simp only [backEdges, mem_flatMap, mem_map, mem_filter, Prod.mk.injEq]
    constructor
    · rintro ⟨id, known, succ, ⟨follows, inside⟩, rfl, rfl⟩
      obtain ⟨set, found⟩ := sweeping.known id known
      rw [found] at inside
      refine ⟨follows, known, ?_⟩
      rw [domOf, found, Option.getD_some]
      exact of_decide_eq_true inside
    · rintro ⟨follows, known, inside⟩
      obtain ⟨set, found⟩ := sweeping.known source known
      rw [domOf, found, Option.getD_some] at inside
      refine ⟨source, known, header, ⟨follows, ?_⟩, rfl, rfl⟩
      rw [found]
      exact decide_eq_true inside
  rw [listed, Returning]
  constructor
  · rintro ⟨follows, known, inside⟩
    exact ⟨follows, sweeping.dominates_of_mem idle known inside⟩
  · rintro ⟨follows, dominates⟩
    have known := Cfg.mem_blockIds_of_successor follows
    have target := closed source header follows
    exact ⟨follows, known, sweeping.dominators source known header target dominates⟩

/-- The entries of the headers are the edges to each block that has any. -/
theorem get?_headers (edges : List (BlockId × BlockId)) (header : BlockId) :
    OrdMap.Ordered (headers edges) ∧ (headers edges).get? header =
      if edges.filter (·.2 = header) = [] then none else some (edges.filter (·.2 = header)) := by
  induction edges using List.reverseRec generalizing header with
  | nil => exact ⟨List.Pairwise.nil, rfl⟩
  | append_singleton edges edge ih =>
    obtain ⟨ordered, found⟩ := ih edge.2
    have step : headers (edges ++ [edge]) =
        (headers edges).insert edge.2 (((headers edges).get? edge.2).getD [] ++ [edge]) := by
      rw [headers, foldl_append]
      rfl
    have earlier : ((headers edges).get? edge.2).getD [] = edges.filter (·.2 = edge.2) := by
      rw [found]
      split
      case isTrue empty => rw [empty, Option.getD_none]
      case isFalse => rfl
    rw [step, earlier]
    refine ⟨ordered.insert _ _, ?_⟩
    by_cases same : header = edge.2
    · subst same
      rw [OrdMap.get?_insert_self]
      simp
    · have other : edge.2 ≠ header := fun equal => same equal.symm
      have kept : (edges ++ [edge]).filter (·.2 = header) = edges.filter (·.2 = header) := by
        simp [other]
      rw [OrdMap.get?_insert_of_ne same, (ih header).2, kept]

/-- The edges of a header are those to it, of which there is one. -/
theorem mem_headers {edges group : List (BlockId × BlockId)} {header : BlockId} :
    (header, group) ∈ headers edges ↔
      group = edges.filter (·.2 = header) ∧ ∃ source, (source, header) ∈ edges := by
  obtain ⟨ordered, found⟩ := get?_headers edges header
  have absent : edges.filter (·.2 = header) = [] ↔ ¬ ∃ source, (source, header) ∈ edges := by
    rw [filter_eq_nil_iff]
    constructor
    · rintro none ⟨source, member⟩
      exact none _ member (decide_eq_true rfl)
    · rintro none ⟨source, target⟩ member same
      rw [decide_eq_true_eq] at same
      exact none ⟨source, same ▸ member⟩
  rw [ordered.mem_iff, found]
  split
  case isTrue empty =>
    constructor
    · exact fun impossible => nomatch impossible
    · exact fun both => absurd both.2 (absent.mp empty)
  case isFalse nonempty =>
    rw [Option.some.injEq, eq_comm]
    exact ⟨fun same => ⟨same, not_not.mp (mt absent.mpr nonempty)⟩, And.left⟩

/-- The body of a loop is its header and what leads around it to a block its edges leave. -/
theorem mem_loopBody {edges : List (BlockId × BlockId)} {header block : BlockId}
    (known : ∀ edge ∈ edges, edge.1 ∈ graph.blockIds) :
    block ∈ loopBody graph header edges ↔ block = header ∨
      ∃ edge ∈ edges, Avoiding graph.successors {header} block edge.1 := by
  let next : BlockId → List BlockId := fun node => (graph.predecessors node).filter (· ≠ header)
  have mem_next : ∀ node pred, pred ∈ next node ↔ node ∈ graph.successors pred ∧ pred ≠ header := by
    intro node pred
    rw [mem_filter, Cfg.mem_predecessors, decide_eq_true_eq]
  let walked := (edges.map Prod.fst).foldl (fun walk node =>
    DepthFirst.visit next (graph.blocks.length + 1) node walk) ⟨[header], []⟩
  have visits : loopBody graph header edges = walked.visited.toFinset := by
    simp only [walked, foldl_map]
    rfl
  have bounded : ∀ node ∈ graph.blockIds.toFinset, ∀ pred ∈ next node,
      pred ∈ graph.blockIds.toFinset := by
    intro node _ pred member
    exact mem_toFinset.mpr (Cfg.mem_blockIds_of_successor ((mem_next node pred).mp member).1)
  have inside : ∀ root ∈ edges.map Prod.fst, root ∈ graph.blockIds.toFinset := by
    intro root member
    obtain ⟨edge, listed, rfl⟩ := mem_map.mp member
    exact mem_toFinset.mpr (known edge listed)
  have enough : (DepthFirst.unvisited graph.blockIds.toFinset ⟨[header], []⟩).card <
      graph.blocks.length + 1 := by
    apply Nat.lt_succ_of_le
    refine (Finset.card_filter_le _ _).trans ((toFinset_card_le _).trans ?_)
    rw [Cfg.blockIds, length_range]
  have covers : DepthFirst.Covers next (edges.map Prod.fst) ⟨[header], []⟩ walked :=
    DepthFirst.covers_visitAll bounded (edges.map Prod.fst) ⟨[header], []⟩ inside enough
  let leads : BlockId → Prop := fun node =>
    ∃ edge ∈ edges, Avoiding graph.successors {header} node edge.1
  have keeps : ∀ node, leads node → ∀ pred ∈ next node, leads pred := by
    rintro node ⟨edge, listed, onward⟩ pred member
    obtain ⟨follows, different⟩ := (mem_next node pred).mp member
    have start : pred ∉ ({header} : Set BlockId) := different
    exact ⟨edge, listed, (Avoiding.edge start follows onward.source_notMem).trans onward⟩
  rw [visits, mem_toFinset]
  constructor
  · intro marked
    have only := DepthFirst.visited_of_foldl
      (fun walk node => DepthFirst.visited_visit_mono (graph.blocks.length + 1) node walk)
      (DepthFirst.visited_of_visit keeps (graph.blocks.length + 1)) (edges.map Prod.fst)
      ⟨[header], []⟩ ?_ block marked
    · exact only.imp_left mem_singleton.mp
    · intro root member
      obtain ⟨edge, listed, rfl⟩ := mem_map.mp member
      by_cases same : edge.1 = header
      · exact .inl (mem_singleton.mpr same)
      · exact .inr ⟨edge, listed, .refl same⟩
  · rintro (rfl | ⟨edge, listed, nodes, path, away⟩)
    · exact covers.kept _ (mem_singleton_self _)
    · have backwards : ∀ {nodes target}, Path graph.successors block nodes target →
          (∀ node ∈ nodes, node ∉ ({header} : Set BlockId)) → target ∈ walked.visited →
          block ∈ walked.visited := by
        intro nodes target path
        induction path with
        | here => exact fun _ marked => marked
        | @step nodes middle target before follows ih =>
          intro away marked
          have middleAway := away middle (mem_append_left _ before.target_mem)
          have targetAway := away target (mem_append_right _ (mem_singleton_self target))
          refine ih (fun node member => away node (mem_append_left _ member)) ?_
          have fresh : target ∉ [header] := fun start => targetAway (mem_singleton.mp start)
          exact covers.closed target marked fresh middle
            ((mem_next target middle).mpr ⟨follows, middleAway⟩)
      exact backwards path away (covers.reached edge.1 (mem_map.mpr ⟨edge, listed, rfl⟩))

/-- An exit is a successor of a body outside it. -/
theorem findLoopExit_eq_some {header exit : BlockId} {body : Finset BlockId}
    (inside : header ∈ body) (found : findLoopExit graph header body = some exit) :
    exit ∉ body ∧ ∃ block ∈ body, exit ∈ graph.successors block := by
  rcases Option.or_eq_some_iff.mp found with ofHeader | ⟨_, ofBody⟩
  · have outside := List.find?_some ofHeader
    exact ⟨of_decide_eq_true outside, header, inside, mem_of_find?_eq_some ofHeader⟩
  · obtain ⟨block, listed, ofBlock⟩ := exists_of_findSome?_eq_some ofBody
    have outside := List.find?_some ofBlock
    exact ⟨of_decide_eq_true outside, block, of_decide_eq_true (mem_filter.mp listed).2,
      mem_of_find?_eq_some ofBlock⟩

/-- On a closed graph the loops are made of the edges to blocks that dominate the ones they
leave, reached or not. -/
theorem detectLoops_spec (closed : Closed graph) : ∃ loops, detectLoops graph = some loops ∧
    (∀ header, (∃ found ∈ loops, found.header = header) ↔ ∃ source, Returning graph header source) ∧
    ∀ found ∈ loops, (∀ block, block ∈ found.body ↔ block = found.header ∨
        ∃ source, Returning graph found.header source ∧
          Avoiding graph.successors {found.header} block source) ∧
      ∀ exit, found.exit = some exit →
        exit ∉ found.body ∧ ∃ block ∈ found.body, exit ∈ graph.successors block := by
  obtain ⟨dom, computed, sweeping, idle⟩ := computeDominators_settled closed
  have edges := fun source header => @mem_backEdges graph dom sweeping closed idle source header
  refine ⟨_, by rw [detectLoops, computed, Option.map_some], ?_, ?_⟩
  · intro header
    constructor
    · rintro ⟨found, member, rfl⟩
      obtain ⟨⟨header, group⟩, listed, rfl⟩ := mem_map.mp member
      obtain ⟨_, source, edge⟩ := mem_headers.mp listed
      exact ⟨source, (edges source header).mp edge⟩
    · rintro ⟨source, returning⟩
      have listed := mem_headers.mpr ⟨rfl, source, (edges source header).mpr returning⟩
      exact ⟨_, mem_map.mpr ⟨_, listed, rfl⟩, rfl⟩
  · intro found member
    obtain ⟨⟨header, group⟩, listed, rfl⟩ := mem_map.mp member
    obtain ⟨rfl, _⟩ := mem_headers.mp listed
    have ofGroup : ∀ edge, edge ∈ (backEdges graph dom).filter (·.2 = header) ↔
        edge.2 = header ∧ Returning graph header edge.1 := by
      rintro ⟨source, target⟩
      rw [mem_filter, edges, decide_eq_true_eq]
      constructor
      · rintro ⟨returning, rfl⟩
        exact ⟨rfl, returning⟩
      · rintro ⟨rfl, returning⟩
        exact ⟨returning, rfl⟩
    have body := fun block => @mem_loopBody graph _ header block
      fun edge inGroup => Cfg.mem_blockIds_of_successor ((ofGroup edge).mp inGroup).2.1
    refine ⟨?_, ?_⟩
    · intro block
      rw [body]
      refine or_congr_right ⟨?_, ?_⟩
      · rintro ⟨edge, inGroup, leads⟩
        exact ⟨edge.1, ((ofGroup edge).mp inGroup).2, leads⟩
      · rintro ⟨source, returning, leads⟩
        exact ⟨(source, header), (ofGroup _).mpr ⟨rfl, returning⟩, leads⟩
    · intro exit exits
      exact findLoopExit_eq_some ((body header).mpr (.inl rfl)) exits

/-- The blocks of a loop with a header, as they are collected. -/
def Inside (graph : Cfg) (header block : BlockId) : Prop :=
  block = header ∨ ∃ source, Returning graph header source ∧
    Avoiding graph.successors {header} block source

theorem Inside.dominates {header block : BlockId} (inside : Inside graph header block) :
    Dominates graph.successors (roots graph) header block := by
  rcases inside with rfl | ⟨source, ⟨-, dominates⟩, leads⟩
  · exact .refl _
  · exact dominates.of_avoiding leads

/-- A block that leads to a block of a loop around the header is in the loop. -/
theorem Inside.of_avoiding {header block before : BlockId} (inside : Inside graph header block)
    (leads : Avoiding graph.successors {header} before block) : Inside graph header before := by
  rcases inside with rfl | ⟨source, returning, onward⟩
  · exact absurd rfl leads.target_notMem
  · exact .inr ⟨source, returning, leads.trans onward⟩

/-- A loop whose header is in another one has its reached blocks there. -/
theorem Inside.nested {inner outer block : BlockId} (header : Inside graph outer inner)
    (reached : Reached graph.successors (roots graph) block) (inside : Inside graph inner block) :
    Inside graph outer block := by
  by_cases same : inner = outer
  · rwa [← same]
  rcases inside with rfl | ⟨source, ⟨follows, dominates⟩, nodes, path, away⟩
  · exact header
  refine header.of_avoiding (Avoiding.step ⟨nodes, path, ?_⟩ follows same)
  rintro node member rfl
  obtain ⟨rest, onward, within⟩ := path.from_mem member
  have above := dominates.of_avoiding ⟨rest, onward, fun other listed => away other (within _ listed)⟩
  obtain ⟨root, isRoot, _, start⟩ := reached
  obtain ⟨_, whole, -⟩ := start.trans path
  exact same (above.antisymm (.step ⟨root, isRoot, _, whole⟩ follows) header.dominates)

/-- Of two loops that share a reached block one has the header of the other. -/
theorem Inside.meets {one other block : BlockId}
    (reached : Reached graph.successors (roots graph) block) (first : Inside graph one block)
    (second : Inside graph other block) : Inside graph one other ∨ Inside graph other one := by
  by_cases same : one = other
  · exact .inl (.inl same.symm)
  obtain ⟨root, isRoot, nodes, path⟩ := reached
  obtain ⟨entry, -, found, rest, onward, behind⟩ :=
    path.last (show ∃ node ∈ nodes, node = one ∨ node = other from
      ⟨one, first.dominates root isRoot _ path, .inl rfl⟩)
  rcases found with rfl | rfl
  · exact .inr (second.of_avoiding ⟨rest, onward, by grind⟩)
  · exact .inl (first.of_avoiding ⟨rest, onward, by grind⟩)

/-- Two loops that share a reached block are nested, as far as a root reaches their blocks. -/
def Nested (graph : Cfg) (loops : List LoopInfo) : Prop :=
  ∀ one ∈ loops, ∀ other ∈ loops,
    (∃ block, Reached graph.successors (roots graph) block ∧ block ∈ one.body ∧
      block ∈ other.body) →
    (∀ block, Reached graph.successors (roots graph) block →
      block ∈ one.body → block ∈ other.body) ∨
    ∀ block, Reached graph.successors (roots graph) block →
      block ∈ other.body → block ∈ one.body

/-- The loops of a graph are nested, also where they are not natural. -/
theorem detectLoops_nested (closed : Closed graph) :
    ∃ loops, detectLoops graph = some loops ∧ Nested graph loops := by
  obtain ⟨loops, detected, -, bodies⟩ := detectLoops_spec closed
  refine ⟨loops, detected, ?_⟩
  rintro one here other there ⟨block, reached, first, second⟩
  have ofOne := (bodies one here).1
  have ofOther := (bodies other there).1
  rcases Inside.meets reached ((ofOne block).mp first) ((ofOther block).mp second) with holds | holds
  · exact .inr fun block reached inside =>
      (ofOne block).mpr (holds.nested reached ((ofOther block).mp inside))
  · exact .inl fun block reached inside =>
      (ofOther block).mpr (holds.nested reached ((ofOne block).mp inside))

theorem detectLoops_nested_loop :
    ∃ loops, detectLoops loopGraph = some loops ∧ Nested loopGraph loops :=
  detectLoops_nested (by decide)

/-- Loop detection finds the natural loops of a closed graph exactly when every edge out of a
block that no root reaches goes to the header of a natural loop, and its block leads around
that header to a block of a natural back edge. -/
theorem detectLoops_natural_iff (graph : Cfg) (closed : Closed graph) :
    (∃ loops, detectLoops graph = some loops ∧ Natural graph loops) ↔
      ∀ source, ¬ Reached graph.successors (roots graph) source →
        ∀ target ∈ graph.successors source, ∃ latch, Latch graph target latch ∧
          Avoiding graph.successors {target} source latch := by
  obtain ⟨loops, detected, headers, ofLoops⟩ := detectLoops_spec closed
  constructor
  · rintro ⟨_, detected', natural⟩ source unreached target follows
    obtain rfl := Option.some.inj (detected.symm.trans detected')
    have returning : Returning graph target source := ⟨follows, dominates_of_not_reached unreached⟩
    obtain ⟨found, member, rfl⟩ := (headers target).mpr ⟨source, returning⟩
    obtain ⟨latch, toHeader, reached, _⟩ := (natural.header _).mp ⟨found, member, rfl⟩
    have different : source ≠ found.header := by
      intro same
      exact unreached (same ▸ reached.step toHeader)
    have inBody : source ∈ found.body :=
      ((ofLoops found member).1 source).mpr (.inr ⟨source, returning, .refl different⟩)
    exact ((natural.body found member source).mp inBody).resolve_left different
  · intro harmless
    have latched : ∀ header source, Returning graph header source → ∃ latch,
        Latch graph header latch ∧
          (source = latch ∨ Avoiding graph.successors {header} source latch) := by
      rintro header source ⟨follows, dominates⟩
      by_cases reached : Reached graph.successors (roots graph) source
      · exact ⟨source, ⟨follows, reached, dominates⟩, .inl rfl⟩
      · obtain ⟨latch, isLatch, leads⟩ := harmless source reached header follows
        exact ⟨latch, isLatch, .inr leads⟩
    have returning : ∀ {header source}, Latch graph header source → Returning graph header source :=
      fun isLatch => ⟨isLatch.1, isLatch.2.2⟩
    refine ⟨loops, detected, ⟨?_, ?_, ?_, fun found member => (ofLoops found member).2⟩⟩
    · intro header
      rw [headers]
      constructor
      · rintro ⟨source, back⟩
        obtain ⟨latch, isLatch, _⟩ := latched header source back
        exact ⟨latch, isLatch⟩
      · rintro ⟨latch, isLatch⟩
        exact ⟨latch, returning isLatch⟩
    · intro found member block
      rw [(ofLoops found member).1]
      refine or_congr_right ⟨?_, ?_⟩
      · rintro ⟨source, back, leads⟩
        obtain ⟨latch, isLatch, rfl | onward⟩ := latched found.header source back
        · exact ⟨source, isLatch, leads⟩
        · exact ⟨latch, isLatch, leads.trans onward⟩
      · rintro ⟨latch, isLatch, leads⟩
        exact ⟨latch, returning isLatch, leads⟩
    · intro found member block inBody
      rcases ((ofLoops found member).1 block).mp inBody with rfl | ⟨source, ⟨_, dominates⟩, leads⟩
      · exact .refl _
      · exact dominates.of_avoiding leads

/-- A block that nothing leads to and that jumps to the end of the function. -/
def deadGraph : Cfg where
  entry := 0
  blocks := [⟨[], .jump 2⟩, ⟨[], .jump 2⟩, ⟨[], .returnTerm none⟩]
  exceptionHandlers := []

theorem detectLoops_natural_iff_loop :
    (∃ loops, detectLoops deadGraph = some loops ∧ Natural deadGraph loops) ↔
      ∀ source, ¬ Reached deadGraph.successors (roots deadGraph) source →
        ∀ target ∈ deadGraph.successors source, ∃ latch, Latch deadGraph target latch ∧
          Avoiding deadGraph.successors {target} source latch :=
  detectLoops_natural_iff deadGraph (by decide)

theorem detectLoops_dead :
    ¬ ∃ loops, detectLoops deadGraph = some loops ∧ Natural deadGraph loops := by
  have detected : detectLoops deadGraph = some [⟨2, {1, 2}, none, [(1, 2)], false⟩] := by
    decide +kernel
  rintro ⟨loops, found, natural⟩
  obtain rfl := Option.some.inj (detected.symm.trans found)
  obtain ⟨source, follows, ⟨root, isRoot, nodes, path⟩, dominates⟩ :=
    (natural.header 2).mp ⟨_, mem_singleton_self _, rfl⟩
  obtain rfl : root = 0 := by simpa [deadGraph] using mem_roots.mp (Finset.mem_coe.mp isRoot)
  have ahead : ∀ block ∈ deadGraph.blockIds, 2 ∈ deadGraph.successors block →
      block = 0 ∨ ∀ before ∈ deadGraph.blockIds, block ∉ deadGraph.successors before := by decide
  rcases ahead source (Cfg.mem_blockIds_of_successor follows) follows with rfl | unled
  · exact absurd (dominates 0 isRoot [0] .here) (by decide)
  · cases path with
    | here => exact absurd (dominates 0 isRoot [0] .here) (by decide)
    | step _ leads => exact unled _ (Cfg.mem_blockIds_of_successor leads) leads

end HermesDecomp.Ir.Loops
