import HermesDecomp.Ir.Graph
import HermesDecomp.Library.Dominance
import HermesDecomp.Library.Worklist

/-!
# Merge points

Where the arms of a branch meet again: the first block that a breadth-first search from the
second arm finds among those the first arm reaches, neither going back through the branch. It
is a block both arms reach, and there is one whenever any is. It lies on all paths into the
blocks both arms reach exactly when these are entered at one block only.
-/

namespace HermesDecomp.Ir.Merge

open Dominance List

/-- Fuel for a search that follows every edge. -/
def fuel (graph : Cfg) : Nat := (graph.blockIds.map fun id => (graph.successors id).length).sum + 2

/-- The blocks reachable from a block without going through the header, from a stack. -/
def reachableFrom (graph : Cfg) (header start : BlockId) : Option (List BlockId) :=
  (Worklist.search graph.successors (fun added rest => added.reverse ++ rest) (· == header)
    (fun _ => false) (fuel graph) [start] []).map Prod.snd

/-- The first block from one arm, in a queue, that the other reaches. -/
def findMergePoint (graph : Cfg) (header a b : BlockId) : Option (Option BlockId) :=
  (reachableFrom graph header a).bind fun reachA =>
    (Worklist.search graph.successors (fun added rest => rest ++ added) (· == header)
      (fun node => reachA.contains node) (fuel graph) [b] []).map Prod.fst

variable {graph : Cfg} {header a b : BlockId}

/-- A block that both arms reach without going through the header. -/
def Common (graph : Cfg) (header a b block : BlockId) : Prop :=
  Avoiding graph.successors {header} a block ∧ Avoiding graph.successors {header} b block

/-- A path from an arm around the header enters the common blocks at a block. -/
def Enters (graph : Cfg) (header a b arm block : BlockId) : Prop :=
  ∃ nodes, Path graph.successors arm (nodes ++ [block]) block ∧ Common graph header a b block ∧
    ∀ node ∈ nodes, node ≠ header ∧ ¬ Common graph header a b node

/-- A block lies on every path from an arm around the header to a common block. -/
def OnEveryPath (graph : Cfg) (header a b merge : BlockId) : Prop :=
  ∀ arm, arm = a ∨ arm = b → ∀ nodes block, Path graph.successors arm nodes block →
    header ∉ nodes → Common graph header a b block → merge ∈ nodes

/-- The common blocks are entered at one block only. -/
def SingleEntry (graph : Cfg) (header a b : BlockId) : Prop :=
  ∀ arm other, (arm = a ∨ arm = b) → (other = a ∨ other = b) → ∀ block block',
    Enters graph header a b arm block → Enters graph header a b other block' → block = block'

theorem fuel_enough (start : BlockId) :
    Worklist.pending graph.successors graph.blockIds.toFinset [start] [] < fuel graph := by
  have sum : ∑ node ∈ graph.blockIds.toFinset.filter (· ∉ ([] : List BlockId)),
      (graph.successors node).length =
        (graph.blockIds.map fun id => (graph.successors id).length).sum := by
    rw [Finset.filter_true_of_mem (fun node _ => not_mem_nil),
      sum_toFinset _ (show graph.blockIds.Nodup from nodup_range)]
  rw [Worklist.pending, sum, fuel, length_singleton]
  omega

theorem listed_of_successors (node : BlockId) (some : graph.successors node ≠ []) :
    node ∈ graph.blockIds.toFinset := by
  obtain ⟨target, follows⟩ := exists_mem_of_ne_nil _ some
  exact mem_toFinset.mpr (Cfg.mem_blockIds_of_successor follows)

/-- The first search ends with the blocks that the first arm reaches. -/
theorem reachableFrom_spec (graph : Cfg) (header start : BlockId) :
    ∃ reached, reachableFrom graph header start = some reached ∧
      ∀ block, block ∈ reached ↔ Avoiding graph.successors {header} start block := by
  have kept : ∀ added rest : List BlockId, (added.reverse ++ rest).Perm (added ++ rest) :=
    fun added rest => added.reverse_perm.append_right rest
  obtain ⟨⟨found, seen⟩, searched, ended⟩ :=
    @Worklist.search_ends _ _ graph.successors _ (· == header) (fun _ => false)
      graph.blockIds.toFinset listed_of_successors kept (fuel graph) [start] [] (fuel_enough start)
  have none : found = none := by
    cases found with
    | none => rfl
    | some node => exact absurd (ended.accepted node rfl).1 (by simp)
  refine ⟨seen, by rw [reachableFrom, searched, Option.map_some], ?_⟩
  intro block
  constructor
  · intro member
    let holds : BlockId → Prop := fun node =>
      node ≠ header → Avoiding graph.successors {header} start node
    have only := (@Worklist.search_holds _ _ _ _ (· == header) _ holds ?_ kept _ _ _ _ ?_ searched).2
      block member
    · obtain ⟨leads, outside⟩ := only.resolve_left not_mem_nil
      exact leads (beq_eq_false_iff_ne.mp outside)
    · intro node leads outside _ successor follows away
      exact (leads (beq_eq_false_iff_ne.mp outside)).step follows away
    · intro node member away
      rw [mem_singleton.mp member]
      rw [mem_singleton.mp member] at away
      exact .refl away
  · rintro ⟨nodes, path, away⟩
    induction path with
    | here =>
      refine (ended.worked none start (mem_singleton_self start)).resolve_left ?_
      exact fun isHeader => away start (mem_singleton_self start) (beq_iff_eq.mp isHeader)
    | @step nodes middle target path follows ih =>
      have before := ih fun node member => away node (mem_append_left _ member)
      refine ((ended.closed none middle before not_mem_nil).2 target follows).resolve_left ?_
      exact fun isHeader => away target (mem_append_right _ (mem_singleton_self target))
        (beq_iff_eq.mp isHeader)

/-- The second search ends, with a block where the second arm enters the common blocks, or with
none when there are none. -/
theorem findMergePoint_spec (graph : Cfg) (header a b : BlockId) :
    ∃ result, findMergePoint graph header a b = some result ∧
      (result = none → ∀ block, ¬ Common graph header a b block) ∧
      ∀ merge, result = some merge → Enters graph header a b b merge := by
  obtain ⟨reachA, reached, ofReached⟩ := reachableFrom_spec graph header a
  have kept : ∀ added rest : List BlockId, (rest ++ added).Perm (added ++ rest) :=
    fun added rest => perm_append_comm
  obtain ⟨⟨found, seen⟩, searched, ended⟩ :=
    @Worklist.search_ends _ _ graph.successors _ (· == header) reachA.contains
      graph.blockIds.toFinset listed_of_successors kept (fuel graph) [b] [] (fuel_enough b)
  have stops : ∀ node, reachA.contains node = true ↔ Avoiding graph.successors {header} a node :=
    fun node => contains_iff_mem.trans (ofReached node)
  have result : findMergePoint graph header a b = some found := by
    rw [findMergePoint, reached, Option.bind_some, searched, Option.map_some]
  refine ⟨found, result, ?_, ?_⟩
  · rintro none block ⟨fromA, nodes, path, away⟩
    have member : block ∈ seen := by
      clear fromA
      induction path with
      | here =>
        refine (ended.worked none b (mem_singleton_self b)).resolve_left ?_
        exact fun isHeader => away b (mem_singleton_self b) (beq_iff_eq.mp isHeader)
      | @step nodes middle target path follows ih =>
        have before := ih fun node member => away node (mem_append_left _ member)
        refine ((ended.closed none middle before not_mem_nil).2 target follows).resolve_left ?_
        exact fun isHeader => away target (mem_append_right _ (mem_singleton_self target))
          (beq_iff_eq.mp isHeader)
    have passed := (ended.closed none block member not_mem_nil).1
    rw [(stops block).mpr fromA] at passed
    exact Bool.noConfusion passed
  · intro merge isFound
    let holds : BlockId → Prop := fun node => ∃ nodes,
      Path graph.successors b (nodes ++ [node]) node ∧
        ∀ other ∈ nodes, other ≠ header ∧ ¬ Common graph header a b other
    have good := (@Worklist.search_holds _ _ _ _ (· == header) reachA.contains
      holds ?_ kept _ _ _ _ ?_ searched).1 merge isFound
    · obtain ⟨nodes, path, before⟩ := good
      obtain ⟨accepted, passes⟩ := ended.accepted merge isFound
      refine ⟨nodes, path, ⟨(stops merge).mp accepted, _, path, ?_⟩, before⟩
      intro node member
      rcases mem_append.mp member with earlier | last
      · exact (before node earlier).1
      · rw [mem_singleton.mp last]
        exact beq_eq_false_iff_ne.mp passes
    · rintro node ⟨nodes, path, before⟩ passes unaccepted successor follows
      refine ⟨nodes ++ [node], path.step follows, ?_⟩
      intro other member
      rcases mem_append.mp member with earlier | last
      · exact before other earlier
      · rw [mem_singleton.mp last]
        refine ⟨beq_eq_false_iff_ne.mp passes, fun common => ?_⟩
        rw [(stops node).mpr common.1] at unaccepted
        exact Bool.noConfusion unaccepted
    · intro node member
      rw [mem_singleton.mp member]
      exact ⟨[], .here, fun other impossible => nomatch impossible⟩

/-- A path from an arm to a common block enters the common blocks at a block of the path. -/
theorem exists_enters {arm block : BlockId} {nodes : List BlockId}
    (path : Path graph.successors arm nodes block) (away : header ∉ nodes)
    (common : Common graph header a b block) :
    ∃ entry ∈ nodes, Enters graph header a b arm entry := by
  obtain ⟨before, entry, leads, isCommon, unmet, inside⟩ :=
    path.first ⟨block, path.target_mem, common⟩
  refine ⟨entry, inside entry leads.target_mem, before, leads, isCommon, ?_⟩
  intro node member
  refine ⟨?_, unmet node member⟩
  rintro rfl
  exact away (inside node (mem_append_left _ member))

/-- A block where an arm enters the common blocks lies on every path to these exactly when
they are entered there only. -/
theorem onEveryPath_iff {merge : BlockId} (enters : Enters graph header a b b merge) :
    OnEveryPath graph header a b merge ↔ SingleEntry graph header a b := by
  constructor
  · intro onEvery
    have onlyMerge : ∀ arm block, arm = a ∨ arm = b → Enters graph header a b arm block →
        merge = block := by
      rintro arm block isArm ⟨before, path, common, unmet⟩
      have away : header ∉ before ++ [block] := by
        intro member
        rcases mem_append.mp member with earlier | last
        · exact (unmet header earlier).1 rfl
        · exact common.1.target_notMem (mem_singleton.mp last).symm
      obtain ⟨_, _, isCommon, _⟩ := enters
      rcases mem_append.mp (onEvery arm isArm _ block path away common) with earlier | last
      · exact absurd isCommon (unmet merge earlier).2
      · exact mem_singleton.mp last
    intro arm other isArm isOther block block' first second
    exact (onlyMerge arm block isArm first).symm.trans (onlyMerge other block' isOther second)
  · intro single arm isArm nodes block path away common
    obtain ⟨entry, member, entered⟩ := exists_enters path away common
    exact single b arm (.inr rfl) isArm merge entry enters entered ▸ member

/-- A merge point is found exactly when the arms of a branch reach a common block without going
back through it. It is a common block, the second arm enters the common blocks there, and it
lies on every path from an arm to a common block exactly when these are entered at one block
only. -/
theorem findMergePoint_joins (graph : Cfg) (header a b : BlockId) :
    ∃ result, findMergePoint graph header a b = some result ∧
      (result = none ↔ ∀ block, ¬ Common graph header a b block) ∧
      ∀ merge, result = some merge → Common graph header a b merge ∧
        Enters graph header a b b merge ∧
        (OnEveryPath graph header a b merge ↔ SingleEntry graph header a b) := by
  obtain ⟨result, found, ofNone, ofSome⟩ := findMergePoint_spec graph header a b
  refine ⟨result, found, ⟨ofNone, ?_⟩, ?_⟩
  · intro noCommon
    cases result with
    | none => rfl
    | some merge =>
      obtain ⟨_, _, common, _⟩ := ofSome merge rfl
      exact absurd common (noCommon merge)
  · intro merge isFound
    have enters := ofSome merge isFound
    obtain ⟨_, _, common, _⟩ := enters
    exact ⟨common, ofSome merge isFound, onEveryPath_iff (ofSome merge isFound)⟩

/-- Two arms that both branch to the same two blocks, which meet at a third. -/
def crossingGraph : Cfg where
  entry := 0
  blocks := [⟨[], .branch (.value (.constant .undefined)) 1 2⟩,
    ⟨[], .branch (.value (.constant .undefined)) 3 4⟩,
    ⟨[], .branch (.value (.constant .undefined)) 3 4⟩, ⟨[], .jump 5⟩, ⟨[], .jump 5⟩,
    ⟨[], .returnTerm none⟩]
  exceptionHandlers := []

theorem findMergePoint_crossing :
    ¬ ∀ merge, findMergePoint crossingGraph 0 1 2 = some (some merge) →
      OnEveryPath crossingGraph 0 1 2 merge := by
  intro claimed
  have onEvery := claimed 3 (by decide +kernel)
  have first : Path crossingGraph.successors 1 [1, 4] 4 := .step .here (by decide)
  have second : Path crossingGraph.successors 2 [2, 4] 4 := .step .here (by decide)
  have common : Common crossingGraph 0 1 2 4 :=
    ⟨⟨[1, 4], first, by simp⟩, ⟨[2, 4], second, by simp⟩⟩
  exact absurd (onEvery 1 (.inl rfl) [1, 4] 4 first (by decide) common) (by decide)

end HermesDecomp.Ir.Merge
