import Mathlib.Data.Set.Basic
import Mathlib.Logic.Relation

/-!
# Paths and dominance

A node dominates another when every path to that one from a root goes through it. What a node
dominates is found as the largest solution of equations between neighbouring nodes: a solution
keeps every dominator, and one whose sets shrink along every edge keeps nothing else.
-/

namespace HermesDecomp.Dominance

open List

variable {α : Type} {next : α → List α} {roots : Set α}

/-- A path from a node, with the nodes it visits, both its ends among them. -/
inductive Path (next : α → List α) (source : α) : List α → α → Prop where
  | here : Path next source [source] source
  | step {nodes : List α} {middle target : α} (path : Path next source nodes middle)
      (follows : target ∈ next middle) : Path next source (nodes ++ [target]) target

/-- A path from a root leads to a node. -/
def Reached (next : α → List α) (roots : Set α) (node : α) : Prop :=
  ∃ root ∈ roots, ∃ nodes, Path next root nodes node

/-- Every path from a root to a node goes through another one. -/
def Dominates (next : α → List α) (roots : Set α) (above node : α) : Prop :=
  ∀ root ∈ roots, ∀ nodes, Path next root nodes node → above ∈ nodes

/-- A path leads from a node to another and stays outside a set of nodes. -/
def Avoiding (next : α → List α) (avoided : Set α) (source target : α) : Prop :=
  ∃ nodes, Path next source nodes target ∧ ∀ node ∈ nodes, node ∉ avoided

variable {source target : α} {nodes : List α}

theorem Path.source_mem (path : Path next source nodes target) : source ∈ nodes:= by
  induction path with
  | here => exact mem_singleton_self source
  | step _ _ ih => exact mem_append_left _ ih

theorem Path.target_mem (path : Path next source nodes target) : target ∈ nodes:= by
  cases path with
  | here => exact mem_singleton_self source
  | step _ _ => exact mem_append_right _ (mem_singleton_self target)

/-- A path is a chain of edges. -/
theorem Path.reaches (path : Path next source nodes target) :
    Relation.ReflTransGen (fun source target => target ∈ next source) source target := by
  induction path with
  | here => exact .refl
  | step _ follows ih => exact .tail ih follows

/-- Paths are joined where one ends and the other starts. -/
theorem Path.trans {source middle target : α} {first second : List α}
    (path : Path next source first middle) (more : Path next middle second target) :
    ∃ nodes, Path next source nodes target ∧ ∀ node ∈ nodes, node ∈ first ∨ node ∈ second := by
  induction more with
  | here => exact ⟨first, path, fun node member => Or.inl member⟩
  | step _ follows ih =>
    obtain ⟨nodes, joined, members⟩ := ih
    refine ⟨_, joined.step follows, ?_⟩
    intro node member
    rcases mem_append.mp member with earlier | last
    · exact (members node earlier).imp_right (mem_append_left _)
    · exact Or.inr (mem_append_right _ last)

/-- From every node of a path its rest leads on. -/
theorem Path.from_mem {source target node : α} (path : Path next source nodes target)
    (member : node ∈ nodes) :
    ∃ rest, Path next node rest target ∧ ∀ other ∈ rest, other ∈ nodes := by
  induction path with
  | here =>
    obtain rfl := mem_singleton.mp member
    exact ⟨_, .here, fun other inside => inside⟩
  | step path follows ih =>
    rcases mem_append.mp member with earlier | last
    · obtain ⟨rest, remaining, inside⟩ := ih earlier
      refine ⟨_, remaining.step follows, ?_⟩
      intro other listed
      rcases mem_append.mp listed with before | final
      · exact mem_append_left _ (inside other before)
      · exact mem_append_right _ final
    · obtain rfl := mem_singleton.mp last
      refine ⟨[node], .here, ?_⟩
      intro other listed
      exact mem_append_right _ listed

/-- A path that meets a property meets it first somewhere. -/
theorem Path.first {holds : α → Prop} (path : Path next source nodes target)
    (meets : ∃ node ∈ nodes, holds node) :
    ∃ before entry, Path next source (before ++ [entry]) entry ∧ holds entry ∧
      (∀ node ∈ before, ¬ holds node) ∧ ∀ node ∈ before ++ [entry], node ∈ nodes := by
  induction path with
  | here =>
    obtain ⟨node, member, good⟩ := meets
    obtain rfl := mem_singleton.mp member
    exact ⟨[], _, .here, good, fun _ impossible => absurd impossible not_mem_nil,
      fun _ member => member⟩
  | @step nodes middle target path follows ih =>
    by_cases earlier : ∃ node ∈ nodes, holds node
    · obtain ⟨before, entry, leads, good, unmet, inside⟩ := ih earlier
      exact ⟨before, entry, leads, good, unmet,
        fun node member => mem_append_left _ (inside node member)⟩
    · obtain ⟨node, member, good⟩ := meets
      rcases mem_append.mp member with before | last
      · exact absurd ⟨node, before, good⟩ earlier
      · obtain rfl := mem_singleton.mp last
        exact ⟨nodes, _, path.step follows, good, fun other inside holds =>
          earlier ⟨other, inside, holds⟩, fun _ member => member⟩

/-- A path that meets a property meets it last somewhere. -/
theorem Path.last {holds : α → Prop} (path : Path next source nodes target)
    (meets : ∃ node ∈ nodes, holds node) :
    ∃ entry ∈ nodes, holds entry ∧ ∃ rest, Path next entry rest target ∧
      ∀ node ∈ rest, node = entry ∨ ¬ holds node := by
  induction path with
  | here =>
    obtain ⟨node, member, good⟩ := meets
    obtain rfl := mem_singleton.mp member
    exact ⟨_, member, good, _, .here, by simp⟩
  | @step nodes middle target path follows ih =>
    by_cases final : holds target
    · exact ⟨target, by simp, final, _, .here, by simp⟩
    · obtain ⟨entry, member, good, rest, onward, others⟩ := ih (by grind)
      exact ⟨entry, mem_append_left _ member, good, _, onward.step follows, by grind⟩

variable {avoided : Set α}

theorem Avoiding.refl {node : α} (outside : node ∉ avoided) : Avoiding next avoided node node :=
  ⟨[node], .here, fun _ member => mem_singleton.mp member ▸ outside⟩

theorem Avoiding.source_notMem (leads : Avoiding next avoided source target) : source ∉ avoided:= by
  obtain ⟨_, path, outside⟩ := leads
  exact outside source path.source_mem

theorem Avoiding.target_notMem (leads : Avoiding next avoided source target) : target ∉ avoided:= by
  obtain ⟨_, path, outside⟩ := leads
  exact outside target path.target_mem

theorem Avoiding.step {avoided : Set α} {source middle target : α}
    (leads : Avoiding next avoided source middle) (follows : target ∈ next middle)
    (outside : target ∉ avoided) : Avoiding next avoided source target := by
  obtain ⟨nodes, path, away⟩ := leads
  refine ⟨_, path.step follows, ?_⟩
  intro node member
  rcases mem_append.mp member with earlier | last
  · exact away node earlier
  · rw [mem_singleton.mp last]
    exact outside

theorem Avoiding.trans {source middle target : α} (leads : Avoiding next avoided source middle)
    (more : Avoiding next avoided middle target) : Avoiding next avoided source target := by
  obtain ⟨first, path, away⟩ := leads
  obtain ⟨second, rest, outside⟩ := more
  obtain ⟨nodes, joined, members⟩ := path.trans rest
  exact ⟨nodes, joined, fun node member => (members node member).elim (away node) (outside node)⟩

theorem Avoiding.edge (start : source ∉ avoided) (follows : target ∈ next source)
    (outside : target ∉ avoided) :
    Avoiding next avoided source target := (Avoiding.refl start).step follows outside

theorem Dominates.refl (node : α) : Dominates next roots node node :=
  fun _ _ _ path => path.target_mem

/-- Only a root dominates itself. -/
theorem dominates_root {root above : α} (isRoot : root ∈ roots) :
    Dominates next roots above root ↔ above = root := by
  constructor
  · intro dominates
    exact mem_singleton.mp (dominates root isRoot [root] .here)
  · rintro rfl
    exact .refl above

/-- What dominates a node, and is not the node, dominates what leads to it. -/
theorem Dominates.of_follows {source target above : α} (follows : target ∈ next source)
    (dominates : Dominates next roots above target) (different : above ≠ target) :
    Dominates next roots above source := by
  intro root isRoot nodes path
  rcases mem_append.mp (dominates root isRoot _ (path.step follows)) with earlier | last
  · exact earlier
  · exact absurd (mem_singleton.mp last) different

theorem Reached.step {source target : α} (reached : Reached next roots source)
    (follows : target ∈ next source) : Reached next roots target := by
  obtain ⟨root, isRoot, _, path⟩ := reached
  exact ⟨root, isRoot, _, path.step follows⟩

/-- Every node dominates one that no root reaches. -/
theorem dominates_of_not_reached {above node : α} (unreached : ¬ Reached next roots node) :
    Dominates next roots above node :=
  fun root isRoot nodes path => absurd ⟨root, isRoot, nodes, path⟩ unreached

/-- Two different nodes do not dominate each other when a root reaches one. -/
theorem Dominates.antisymm {one other : α} (reached : Reached next roots one)
    (above : Dominates next roots one other) (below : Dominates next roots other one) :
    one = other := by
  obtain ⟨root, isRoot, nodes, path⟩ := reached
  obtain ⟨before, entry, leads, found, unmet, -⟩ :=
    path.first (show ∃ node ∈ nodes, node = one ∨ node = other from ⟨one, path.target_mem, .inl rfl⟩)
  rcases found with rfl | rfl
  · have := below root isRoot _ leads
    grind
  · have := above root isRoot _ leads
    grind

/-- A node that leads to another around one that dominates it is dominated by that one. -/
theorem Dominates.of_avoiding {above source target : α}
    (dominates : Dominates next roots above target)
    (leads : Avoiding next {above} source target) : Dominates next roots above source := by
  intro root isRoot nodes path
  obtain ⟨rest, more, away⟩ := leads
  obtain ⟨joined, whole, members⟩ := path.trans more
  rcases members above (dominates root isRoot joined whole) with here | later
  · exact here
  · exact absurd rfl (away above later)

/-- Sets that are at most the root at a root, and along an edge to another node at most that
node and the set before it, hold dominators only. -/
theorem mem_of_path {dom : α → Set α} (atRoot : ∀ root ∈ roots, dom root ⊆ {root})
    (along : ∀ source target, Reached next roots source → target ∈ next source → target ∉ roots →
      dom target ⊆ insert target (dom source))
    {root node above : α} {nodes : List α} (isRoot : root ∈ roots)
    (path : Path next root nodes node) (member : above ∈ dom node) : above ∈ nodes := by
  induction path with
  | here => exact mem_singleton.mpr (atRoot root isRoot member)
  | @step nodes middle target path follows ih =>
    by_cases again : target ∈ roots
    · exact mem_append_right _ (mem_singleton.mpr (atRoot target again member))
    · rcases along middle target ⟨root, isRoot, nodes, path⟩ follows again member with same | before
      · exact mem_append_right _ (mem_singleton.mpr same)
      · exact mem_append_left _ (ih before)

end HermesDecomp.Dominance
