import Mathlib.Data.Finset.Card

/-!
# Depth-first search

A depth-first walk marks a node when it enters it and lists the node when it leaves
it. Started at some roots, with fuel for every node there is, the walk lists exactly
what it marked and is closed under successors, so it lists every node reachable from
the roots.
-/

namespace HermesDecomp.DepthFirst

open List

variable {α : Type}

/-- The marked nodes and the nodes left so far. -/
structure Walk (α : Type) where
  visited : List α
  order : List α

/-- Visit a node and, before leaving it, its successors. -/
def visit [DecidableEq α] (next : α → List α) : Nat → α → Walk α → Walk α
  | 0, _, walk => walk
  | fuel + 1, node, walk =>
      if node ∈ walk.visited then walk
      else
        let after := (next node).foldl (fun walk successor => visit next fuel successor walk)
          { walk with visited := node :: walk.visited }
        { after with order := after.order ++ [node] }

/-- What a part of a walk over some roots did: it marked the roots, kept what was
marked, marked every successor of what it marked, and listed what it marked. -/
structure Covers (next : α → List α) (roots : List α) (before after : Walk α) : Prop where
  kept : ∀ node ∈ before.visited, node ∈ after.visited
  reached : ∀ node ∈ roots, node ∈ after.visited
  closed : ∀ node ∈ after.visited, node ∉ before.visited →
    ∀ successor ∈ next node, successor ∈ after.visited
  listed : ∀ node, node ∈ after.order ↔
    node ∈ before.order ∨ (node ∈ after.visited ∧ node ∉ before.visited)

variable {next : α → List α}

theorem covers_nil (walk : Walk α) : Covers next [] walk walk where
  kept := fun _ marked => marked
  reached := fun _ member => nomatch member
  closed := fun _ marked unmarked => absurd marked unmarked
  listed := by
    intro node
    constructor
    · exact Or.inl
    · rintro (old | ⟨marked, unmarked⟩)
      · exact old
      · exact absurd marked unmarked

theorem Covers.cons {root : α} {roots : List α} {before middle after : Walk α}
    (first : Covers next [root] before middle) (rest : Covers next roots middle after) :
    Covers next (root :: roots) before after where
  kept := fun node marked => rest.kept node (first.kept node marked)
  reached := by
    intro node member
    rcases mem_cons.mp member with here | later
    · exact rest.kept node (first.reached node (by simp [here]))
    · exact rest.reached node later
  closed := by
    intro node marked unmarked successor follows
    by_cases early : node ∈ middle.visited
    · exact rest.kept successor (first.closed node early unmarked successor follows)
    · exact rest.closed node marked early successor follows
  listed := by
    intro node
    have keptFirst := first.kept node
    have keptRest := rest.kept node
    rw [rest.listed, first.listed]
    by_cases early : node ∈ middle.visited
    · simp [early, keptRest early]
    · have fresh : node ∉ before.visited := fun marked => early (keptFirst marked)
      simp [early, fresh]

/-- A walk that covers its roots from the empty walk lists whatever they reach. -/
theorem Covers.listed_of_reaches {roots : List α} {after : Walk α}
    (covers : Covers next roots ⟨[], []⟩ after) {root node : α} (isRoot : root ∈ roots)
    (reaches : Relation.ReflTransGen (fun source target => target ∈ next source) root node) :
    node ∈ after.order := by
  have marked : node ∈ after.visited := by
    induction reaches with
    | refl => exact covers.reached root isRoot
    | tail _ follows ih => exact covers.closed _ ih not_mem_nil _ follows
  exact (covers.listed node).mpr (.inr ⟨marked, not_mem_nil⟩)

/-- A marked node needs no visit. -/
theorem covers_marked {walk : Walk α} {node : α} (marked : node ∈ walk.visited) :
    Covers next [node] walk walk where
  kept := fun _ old => old
  reached := by simpa using marked
  closed := fun _ here away => absurd here away
  listed := (covers_nil walk : Covers next [] walk walk).listed

/-- Leaving a node behind its successors. -/
theorem Covers.leave {walk after : Walk α} {node : α}
    (below : Covers next (next node) { walk with visited := node :: walk.visited } after)
    (fresh : node ∉ walk.visited) :
    Covers next [node] walk { after with order := after.order ++ [node] } where
  kept := fun other old => below.kept other (mem_cons_of_mem _ old)
  reached := by
    intro other member
    rw [mem_singleton.mp member]
    exact below.kept node mem_cons_self
  closed := by
    intro other here away successor follows
    by_cases same : other = node
    · subst same
      exact below.reached successor follows
    · exact below.closed other here (by simp [same, away]) successor follows
  listed := by
    intro other
    have keptNode := below.kept node mem_cons_self
    simp only [mem_append, below.listed, mem_cons, not_or]
    by_cases same : other = node
    · subst same
      simp [keptNode, fresh]
    · simp [same]

variable [DecidableEq α] {nodes : Finset α}

/-- The nodes that are not marked. -/
def unvisited (nodes : Finset α) (walk : Walk α) : Finset α := nodes.filter (· ∉ walk.visited)

theorem unvisited_card_le {before after : Walk α}
    (kept : ∀ node ∈ before.visited, node ∈ after.visited) :
    (unvisited nodes after).card ≤ (unvisited nodes before).card := by
  apply Finset.card_le_card
  intro node member
  simp only [unvisited, Finset.mem_filter] at member ⊢
  exact ⟨member.1, fun marked => member.2 (kept node marked)⟩

theorem unvisited_card_lt {walk : Walk α} {node : α} (inside : node ∈ nodes)
    (fresh : node ∉ walk.visited) :
    (unvisited nodes { walk with visited := node :: walk.visited }).card <
      (unvisited nodes walk).card := by
  apply Finset.card_lt_card
  rw [Finset.ssubset_iff_of_subset]
  · exact ⟨node, by simp [unvisited, inside, fresh], by simp [unvisited]⟩
  · intro other member
    simp only [unvisited, Finset.mem_filter, mem_cons, not_or] at member ⊢
    exact ⟨member.1, member.2.2⟩

/-- With more fuel than unmarked nodes a visit covers its node. -/
theorem covers_visit (bounded : ∀ node ∈ nodes, ∀ successor ∈ next node, successor ∈ nodes)
    (fuel : Nat) : ∀ (node : α) (walk : Walk α), node ∈ nodes → (unvisited nodes walk).card < fuel →
      Covers next [node] walk (visit next fuel node walk) := by
  induction fuel with
  | zero => intro node walk inside enough; exact absurd enough (Nat.not_lt_zero _)
  | succ fuel ih =>
    intro node walk inside enough
    have visitAll : ∀ (roots : List α) (start : Walk α), (∀ root ∈ roots, root ∈ nodes) →
        (unvisited nodes start).card < fuel → Covers next roots start
          (roots.foldl (fun walk successor => visit next fuel successor walk) start) := by
      intro roots
      induction roots with
      | nil => intro start _ _; exact covers_nil start
      | cons root roots restHypothesis =>
        intro start allInside left
        have first := ih root start (allInside root mem_cons_self) left
        apply first.cons
        apply restHypothesis
        · exact fun other member => allInside other (mem_cons_of_mem _ member)
        · exact (unvisited_card_le first.kept).trans_lt left
    rw [visit]
    by_cases marked : node ∈ walk.visited
    · rw [if_pos marked]
      exact covers_marked marked
    · rw [if_neg marked]
      have fewer := unvisited_card_lt inside marked
      exact (visitAll (next node) { walk with visited := node :: walk.visited }
        (bounded node inside) (by omega)).leave marked

/-- With more fuel than unmarked nodes, visits of several roots cover them all. -/
theorem covers_visitAll (bounded : ∀ node ∈ nodes, ∀ successor ∈ next node, successor ∈ nodes)
    {fuel : Nat} (roots : List α) : ∀ walk : Walk α, (∀ root ∈ roots, root ∈ nodes) →
      (unvisited nodes walk).card < fuel →
      Covers next roots walk (roots.foldl (fun walk root => visit next fuel root walk) walk) := by
  induction roots with
  | nil => intro walk _ _; exact covers_nil walk
  | cons root roots ih =>
    intro walk inside enough
    have first := covers_visit bounded fuel root walk (inside root mem_cons_self) enough
    apply first.cons
    apply ih
    · exact fun other member => inside other (mem_cons_of_mem _ member)
    · exact (unvisited_card_le first.kept).trans_lt enough

/-- A visit keeps what is marked. -/
theorem visited_visit_mono (fuel : Nat) : ∀ (node : α) (walk : Walk α),
    ∀ other ∈ walk.visited, other ∈ (visit next fuel node walk).visited := by
  induction fuel with
  | zero => exact fun _ _ other marked => marked
  | succ fuel ih =>
    intro node walk other marked
    have visitAll : ∀ (roots : List α) (before : Walk α), other ∈ before.visited →
        other ∈ (roots.foldl (fun walk successor => visit next fuel successor walk)
          before).visited := by
      intro roots
      induction roots with
      | nil => exact fun _ old => old
      | cons root roots restHypothesis =>
        exact fun before old => restHypothesis _ (ih root before other old)
    rw [visit]
    split
    · exact marked
    · exact visitAll (next node) _ (mem_cons_of_mem node marked)

omit [DecidableEq α] in
/-- Steps that mark only what was marked and what a property holds of do so together. -/
theorem visited_of_foldl {holds : α → Prop} {step : Walk α → α → Walk α}
    (mono : ∀ walk node, ∀ other ∈ walk.visited, other ∈ (step walk node).visited)
    (only : ∀ walk node, (node ∈ walk.visited ∨ holds node) →
      ∀ other ∈ (step walk node).visited, other ∈ walk.visited ∨ holds other)
    (roots : List α) : ∀ walk : Walk α, (∀ root ∈ roots, root ∈ walk.visited ∨ holds root) →
      ∀ other ∈ (roots.foldl step walk).visited, other ∈ walk.visited ∨ holds other := by
  induction roots with
  | nil => exact fun _ _ other marked => .inl marked
  | cons root roots ih =>
    intro walk allowed other marked
    have later : ∀ root' ∈ roots, root' ∈ (step walk root).visited ∨ holds root' :=
      fun root' member => (allowed root' (mem_cons_of_mem root member)).imp_left
        (mono walk root root')
    rcases ih (step walk root) later other marked with early | good
    · exact only walk root (allowed root mem_cons_self) other early
    · exact .inr good

/-- A visit marks only what was marked and what a property holds of that successors keep. -/
theorem visited_of_visit {holds : α → Prop}
    (keeps : ∀ node, holds node → ∀ successor ∈ next node, holds successor) (fuel : Nat) :
    ∀ (walk : Walk α) (node : α), (node ∈ walk.visited ∨ holds node) →
      ∀ other ∈ (visit next fuel node walk).visited, other ∈ walk.visited ∨ holds other := by
  induction fuel with
  | zero => exact fun _ _ _ other marked => .inl marked
  | succ fuel ih =>
    intro walk node start
    rw [visit]
    by_cases marked : node ∈ walk.visited
    · rw [if_pos marked]
      exact fun other old => .inl old
    · rw [if_neg marked]
      have good : holds node := start.resolve_left marked
      intro other later
      have below := visited_of_foldl (fun walk node => visited_visit_mono fuel node walk)
        ih (next node) { walk with visited := node :: walk.visited }
        (fun successor follows => .inr (keeps node good successor follows)) other later
      rcases below with early | fine
      · rcases mem_cons.mp early with rfl | old
        · exact .inr good
        · exact .inl old
      · exact .inr fine

end HermesDecomp.DepthFirst
