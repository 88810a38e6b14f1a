import HermesDecomp.Pipeline.ModuleOrder

/-!
# The two views of a module's dependencies

The printed tree is built depth-first and expands each module once; a subtree is selected
breadth-first. Both stop at a depth, and only the second has all that lies within it.
-/

namespace HermesDecomp.DependencyViews

open List ModuleOrder

/-- A node of the tree, under the id its module is filed as; what is shown of the module is looked
up by it. -/
inductive DependencyTree where
  | node (moduleId : Nat) (children : List DependencyTree)

mutual
/-- The modules a tree has nodes for. -/
def DependencyTree.modules : DependencyTree → List Nat
  | .node id children => id :: modulesOf children

/-- The modules some trees have nodes for. -/
def modulesOf : List DependencyTree → List Nat
  | [] => []
  | tree :: trees => tree.modules ++ modulesOf trees
end

variable (registry : Registry)

/-- What a module depends on; nothing when it is not filed. -/
def dependencies (id : Nat) : List Nat := (registry id).getD []

/-- Build the tree of a module, so many hops before the greatest depth. The state is the set of
visited modules. -/
def buildTree : (left : Nat) → Nat → StateM (List Nat) DependencyTree
  | 0, id => return .node id []
  | left + 1, id => do
      if id ∈ (← get) then return .node id []
      modify (id :: ·)
      return .node id (← (dependencies registry id).mapM (buildTree left))

def getDependencyTree (id maxDepth : Nat) : DependencyTree :=
  ((buildTree registry maxDepth id).run []).run.1

/-- What is queued when a module is seen. -/
def queued (maxDepth id depth : Nat) : List (Nat × Nat) :=
  if depth < maxDepth then (dependencies registry id).map (·, depth + 1) else []

/-- Work off a queue of modules with their depths, and answer with the modules put out. -/
def collectDependencySubtree (maxDepth : Nat) :
    (fuel : Nat) → List (Nat × Nat) → List Nat → Option (List Nat)
  | 0, _, _ => none
  | _ + 1, [], seen => some seen
  | fuel + 1, (id, depth) :: queue, seen =>
      if id ∈ seen then collectDependencySubtree maxDepth fuel queue seen
      else
        collectDependencySubtree maxDepth fuel (queue ++ queued registry maxDepth id depth)
          (id :: seen)

/-- The modules reached in at most so many hops. -/
def within : (hops : Nat) → Nat → List Nat
  | 0, id => [id]
  | hops + 1, id => id :: (dependencies registry id).flatMap (within hops)

/-- Walk depth-first and note the hops left where each module is expanded; fail when the walk
comes back to a module with more hops left than there. -/
def neverNearer : (left : Nat) → Nat → List (Nat × Nat) → Option (List (Nat × Nat))
  | 0, _, seen => some seen
  | left + 1, id, seen =>
      if id ∈ seen.map Prod.fst then
        if ∃ entry ∈ seen, entry.1 = id ∧ left < entry.2 then some seen else none
      else
        (dependencies registry id).foldlM (fun seen dep => neverNearer left dep seen)
          ((id, left + 1) :: seen)

/-- A module has a node and, if hops are left there, was expanded with as many. -/
def Met (seen : List (Nat × Nat)) (nodes : List Nat) (id left : Nat) : Prop :=
  id ∈ nodes ∧ (left = 0 ∨ ∃ more, left ≤ more ∧ (id, more) ∈ seen)

/-- What a part of the depth-first walk over some modules did. -/
structure Explores (roots : List Nat) (left : Nat) (seen after : List (Nat × Nat))
    (nodes : List Nat) : Prop where
  kept : seen ⊆ after
  inside : nodes ⊆ roots.flatMap (within registry left)
  met : ∀ id ∈ roots, Met after nodes id left
  closed : ∀ entry ∈ after, entry ∈ seen ∨
    ∀ dep ∈ dependencies registry entry.1, Met after nodes dep (entry.2 - 1)

/-- What is left to find from a queue. -/
def pending (maxDepth : Nat) (queue : List (Nat × Nat)) : List Nat :=
  queue.flatMap fun entry => within registry (maxDepth - entry.2) entry.1

/-- What holds between the steps of the breadth-first walk. -/
structure Searches (root maxDepth : Nat) (done queue : List (Nat × Nat)) : Prop where
  inside : done.map Prod.fst ++ pending registry maxDepth queue ⊆ within registry maxDepth root
  started : (root, 0) ∈ done ++ queue
  closed : ∀ id depth, (id, depth) ∈ done → depth < maxDepth → ∀ dep ∈ dependencies registry id,
    ∃ later ≤ depth + 1, (dep, later) ∈ done ++ queue
  level : ∀ entry ∈ done, ∀ next ∈ queue, entry.2 ≤ next.2
  sorted : queue.Pairwise fun first second => first.2 ≤ second.2 ∧ second.2 ≤ first.2 + 1

variable {registry}

/-- What knows, with a module some hops before the end, its dependencies one hop later, knows
all within these hops. -/
theorem within_known {known : Nat → Nat → Prop}
    (closed : ∀ id left, known id (left + 1) → ∀ dep ∈ dependencies registry id, known dep left)
    {left : Nat} : ∀ {id other}, known id left → other ∈ within registry left id →
      ∃ left, known other left := by
  induction left with
  | zero =>
    intro id other here member
    cases mem_singleton.mp member
    exact ⟨0, here⟩
  | succ left ih =>
    intro id other here member
    simp only [within, mem_cons, mem_flatMap] at member
    obtain rfl | ⟨dep, follows, member⟩ := member
    · exact ⟨_, here⟩
    · exact ih (closed id left here dep follows) member

theorem neverNearer_explores {left : Nat} : ∀ {id : Nat} {seen after : List (Nat × Nat)},
    neverNearer registry left id seen = some after → ∃ tree,
      ((buildTree registry left id).run (seen.map Prod.fst)).run = (tree, after.map Prod.fst) ∧
      Explores registry [id] left seen after tree.modules := by
  induction left with
  | zero =>
    intro id seen after ended
    cases ended
    refine ⟨.node id [], rfl, .refl _, ?_, ?_, fun _ => .inl⟩ <;>
      simp [Met, DependencyTree.modules, modulesOf, within]
  | succ left ih =>
    have children : ∀ {deps : List Nat} {seen after : List (Nat × Nat)},
        deps.foldlM (fun seen dep => neverNearer registry left dep seen) seen = some after →
        ∃ trees, ((deps.mapM (buildTree registry left)).run (seen.map Prod.fst)).run =
            (trees, after.map Prod.fst) ∧
          Explores registry deps left seen after (modulesOf trees) := by
      intro deps
      induction deps with
      | nil =>
        intro seen after ended
        cases ended
        exact ⟨[], rfl, .refl _, by simp [modulesOf], by simp, fun _ => .inl⟩
      | cons dep deps rest =>
        intro seen after ended
        rw [foldlM_cons, Option.bind_eq_bind, Option.bind_eq_some_iff] at ended
        obtain ⟨middle, first, ended⟩ := ended
        obtain ⟨tree, built, kept, inside, met, closed⟩ := ih first
        obtain ⟨trees, others, kept', inside', met', closed'⟩ := rest ended
        refine ⟨tree :: trees, by simp [built, others], ?_, ?_, ?_, ?_⟩
        · grind
        · grind [modulesOf]
        · grind [modulesOf, Met]
        · intro entry member
          have early := closed entry
          have late := closed' entry member
          grind [modulesOf, Met]
    intro id seen after ended
    rw [neverNearer] at ended
    split_ifs at ended with marked behind
    · cases ended
      obtain ⟨entry, member, rfl, enough⟩ := behind
      refine ⟨.node entry.1 [], ?_, .refl _, ?_, ?_, fun _ => .inl⟩
      · simp [buildTree, mem_map_of_mem member]
      · simp [DependencyTree.modules, modulesOf, within]
      · grind [Met, DependencyTree.modules]
    · obtain ⟨trees, built, kept, inside, met, closed⟩ := children ended
      rw [map_cons] at built
      refine ⟨.node id trees, by simp [buildTree, marked, built], ?_, ?_, ?_, ?_⟩
      · grind
      · grind [DependencyTree.modules, within]
      · grind [DependencyTree.modules, Met]
      · intro entry member
        have late := closed entry member
        grind [DependencyTree.modules, Met]

theorem within_eq_cons_pending {maxDepth : Nat} (id depth : Nat) :
    within registry (maxDepth - depth) id =
      id :: pending registry maxDepth (queued registry maxDepth id depth) := by
  rw [queued]
  split_ifs with above
  · rw [show maxDepth - depth = maxDepth - (depth + 1) + 1 by omega, within]
    simp [pending, flatMap_map]
  · rw [Nat.sub_eq_zero_of_le (by omega)]
    rfl

theorem mem_queued {maxDepth id depth : Nat} {entry : Nat × Nat} :
    entry ∈ queued registry maxDepth id depth ↔
      depth < maxDepth ∧ entry.1 ∈ dependencies registry id ∧ entry.2 = depth + 1 := by
  grind [queued]

theorem collectDependencySubtree_spec {root maxDepth fuel : Nat} :
    ∀ {done queue : List (Nat × Nat)}, Searches registry root maxDepth done queue →
      (pending registry maxDepth queue).length < fuel →
      ∃ out, collectDependencySubtree registry maxDepth fuel queue (done.map Prod.fst) = some out ∧
        ∀ id, id ∈ out ↔ id ∈ within registry maxDepth root := by
  induction fuel with
  | zero => exact fun _ _ => by omega
  | succ fuel ih =>
    intro done queue ⟨inside, started, closed, level, sorted⟩ enough
    match queue with
    | [] =>
      refine ⟨_, rfl, fun id => ⟨fun member => inside (mem_append_left _ member), ?_⟩⟩
      intro member
      obtain ⟨_, depth, _, found⟩ := @within_known registry
        (fun id left => ∃ depth, left + depth ≤ maxDepth ∧ (id, depth) ∈ done) (by grind)
        maxDepth root id (by grind) member
      exact mem_map_of_mem found
    | (id, depth) :: queue =>
      have expand := @within_eq_cons_pending registry maxDepth id depth
      have member := @mem_queued registry maxDepth id depth
      rw [collectDependencySubtree]
      by_cases marked : id ∈ done.map Prod.fst
      · rw [if_pos marked]
        obtain ⟨⟨id, less⟩, found, rfl⟩ := mem_map.mp marked
        exact ih ⟨by grind [pending], by grind, by grind, by grind, by grind⟩ (by grind [pending])
      · rw [if_neg marked]
        obtain ⟨ahead, sorted⟩ := pairwise_cons.mp sorted
        have behind : ∀ entry ∈ done, entry.2 ≤ depth :=
          fun entry old => level entry old _ mem_cons_self
        refine @ih ((id, depth) :: done) _ ⟨?_, ?_, ?_, ?_, ?_⟩ ?_
        · grind [pending]
        · grind
        · intro other place here above dep follows
          rcases mem_cons.mp here with same | old
          · cases same
            exact ⟨depth + 1, le_rfl, by simp [member, above, follows]⟩
          · grind
        · simp only [mem_cons, mem_append, member]
          grind
        · refine pairwise_append.mpr ⟨sorted, pairwise_of_forall_mem_list ?_, ?_⟩ <;>
            simp only [member] <;> grind
        · grind [pending]

/-- A tree has nodes for modules within the depth only. -/
theorem modules_buildTree {left : Nat} : ∀ (id : Nat) (seen : List Nat),
    ((buildTree registry left id).run seen).run.1.modules ⊆ within registry left id := by
  induction left with
  | zero => simp [buildTree, DependencyTree.modules, modulesOf, within]
  | succ left ih =>
    have children : ∀ (deps seen : List Nat),
        modulesOf ((deps.mapM (buildTree registry left)).run seen).run.1 ⊆
          deps.flatMap (within registry left) := by
      intro deps
      induction deps with
      | nil => simp [modulesOf]
      | cons dep deps rest =>
        intro seen
        rw [mapM_cons, flatMap_cons]
        exact append_subset.mpr ⟨subset_append_of_subset_left _ (ih dep seen),
          subset_append_of_subset_right _ (rest _)⟩
    intro id seen
    by_cases marked : id ∈ seen
    · simp [buildTree, marked, DependencyTree.modules, modulesOf, within]
    · simpa [buildTree, marked, DependencyTree.modules, within] using
        subset_cons_of_subset id (children (dependencies registry id) (id :: seen))

/-- The breadth-first walk ends with what lies within the depth, the nodes of the tree among it. -/
theorem tree_inside_subtree (root maxDepth : Nat) :
    ∃ fuel out, collectDependencySubtree registry maxDepth fuel [(root, 0)] [] = some out ∧
      (∀ id, id ∈ out ↔ id ∈ within registry maxDepth root) ∧
      (getDependencyTree registry root maxDepth).modules ⊆ out := by
  obtain ⟨out, ran, reached⟩ := @collectDependencySubtree_spec registry root maxDepth _ []
    [(root, 0)] ⟨by simp [pending], by simp, by simp, by simp, by simp⟩ (Nat.lt_succ_self _)
  exact ⟨_, out, ran, reached, fun id member => (reached id).mpr (modules_buildTree root [] member)⟩

/-- Where no module is come back to nearer, both views have what lies within the depth. -/
theorem views_agree (root maxDepth fuel : Nat)
    (never : (neverNearer registry maxDepth root []).isSome)
    (enough : (within registry maxDepth root).length < fuel) :
    ∃ out, collectDependencySubtree registry maxDepth fuel [(root, 0)] [] = some out ∧
      ∀ id, (id ∈ out ↔ id ∈ within registry maxDepth root) ∧
        (id ∈ (getDependencyTree registry root maxDepth).modules ↔
          id ∈ within registry maxDepth root) := by
  obtain ⟨out, ran, reached⟩ := @collectDependencySubtree_spec registry root maxDepth fuel []
    [(root, 0)] ⟨by simp [pending], by simp, by simp, by simp, by simp⟩ (by simpa [pending])
  obtain ⟨after, ended⟩ := Option.isSome_iff_exists.mp never
  obtain ⟨tree, built, explores⟩ := neverNearer_explores ended
  rw [map_nil] at built
  rw [getDependencyTree, built]
  refine ⟨out, ran, fun id => ⟨reached id, fun member => ?_, fun member => ?_⟩⟩
  · simpa using explores.inside member
  · have closed : ∀ id left, Met after tree.modules id (left + 1) →
        ∀ dep ∈ dependencies registry id, Met after tree.modules dep left := by
      rintro id left ⟨-, _ | ⟨more, enough, found⟩⟩ dep follows
      · omega
      · grind [Met, explores.closed _ found]
    exact (within_known closed (explores.met root (by simp)) member).choose_spec.1

/-- Two modules that depend on each other, within two hops. -/
theorem views_agree_cycle :
    ∃ out, collectDependencySubtree ([[1], [0]][·]?) 2 9 [(0, 0)] [] = some out ∧
      ∀ id, (id ∈ out ↔ id ∈ within ([[1], [0]][·]?) 2 0) ∧
        (id ∈ (getDependencyTree ([[1], [0]][·]?) 0 2).modules ↔ id ∈ within ([[1], [0]][·]?) 2 0) :=
  views_agree 0 2 9 (by decide) (by decide)

/-- Module 2 is first come to over module 1, with too few hops left for module 4 behind it. -/
theorem views_disagree :
    ∃ out, collectDependencySubtree ([[1, 2], [2], [3], [4]][·]?) 3 9 [(0, 0)] [] = some out ∧
      4 ∈ out ∧ 4 ∈ within ([[1, 2], [2], [3], [4]][·]?) 3 0 ∧
      4 ∉ (getDependencyTree ([[1, 2], [2], [3], [4]][·]?) 0 3).modules :=
  ⟨_, rfl, by decide, by decide, by decide⟩

end HermesDecomp.DependencyViews
