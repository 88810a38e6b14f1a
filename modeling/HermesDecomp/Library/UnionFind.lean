import Mathlib.Data.Finset.Card
import Mathlib.Data.List.GetD

/-!
# Union-find

A forest of parent links over the numbers below its size. Finding the root of a number
shortens the path to it; joining two numbers hangs the root of the first below the root
of the second, whatever the sizes of the trees.
-/

namespace HermesDecomp

open List

structure UnionFind where
  parent : List Nat

namespace UnionFind

/-- The forest in which every number is a root. -/
def new (size : Nat) : UnionFind := ⟨List.range size⟩

def size (forest : UnionFind) : Nat := forest.parent.length

/-- The parent of a number. A number outside the forest is its own parent. -/
def parentOf (forest : UnionFind) (node : Nat) : Nat := forest.parent.getD node node

/-- Hang a number below another. -/
def link (forest : UnionFind) (node parent : Nat) : UnionFind := ⟨forest.parent.set node parent⟩

/-- Follow the links upwards. -/
def climb (forest : UnionFind) : Nat → Nat → Nat
  | 0, node => node
  | fuel + 1, node =>
      if forest.parentOf node = node then node else climb forest fuel (forest.parentOf node)

/-- The root of a number. No path is longer than the forest is large. -/
def root (forest : UnionFind) (node : Nat) : Nat := forest.climb forest.size node

/-- Hang every number on a path directly below the root. -/
def compress (root : Nat) : Nat → Nat → UnionFind → UnionFind
  | 0, _, forest => forest
  | fuel + 1, node, forest =>
      if forest.parentOf node = root then forest
      else compress root fuel (forest.parentOf node) (forest.link node root)

/-- The root of a number, and the forest with the path to it shortened. -/
def find (node : Nat) (forest : UnionFind) : Nat × UnionFind :=
  (forest.root node, compress (forest.root node) forest.size node forest)

/-- Join the classes of two numbers. -/
def union (left right : Nat) (forest : UnionFind) : UnionFind :=
  let (leftRoot, forest) := forest.find left
  let (rightRoot, forest) := forest.find right
  if leftRoot = rightRoot then forest else forest.link leftRoot rightRoot

/-- Join each number of a list with the next one. -/
def unionAll (ids : List Nat) (forest : UnionFind) : UnionFind :=
  (ids.zip ids.tail).foldl (fun forest pair => forest.union pair.1 pair.2) forest

/-- The roots of a forest. -/
def roots (forest : UnionFind) : Finset Nat :=
  (Finset.range forest.size).filter fun node => forest.parentOf node = node

/-- A function takes every number to its root: it is constant along links, and the roots are its
fixed points. -/
structure Represents (forest : UnionFind) (rep : Nat → Nat) : Prop where
  inside : ∀ node < forest.size, forest.parentOf node < forest.size
  along : ∀ node, rep (forest.parentOf node) = rep node
  fixed : ∀ node, forest.parentOf node = node → rep node = node
  shallow : ∃ depth : Nat → Nat,
    (∀ node, forest.parentOf node ≠ node → depth (forest.parentOf node) < depth node) ∧
    (∀ node, forest.parentOf node = node → depth node = 0) ∧
    ∀ node, depth node + forest.roots.card ≤ forest.size

/-- The function that sends what went to one value to another one. -/
def merge (rep : Nat → Nat) (left right : Nat) : Nat → Nat :=
  fun node => if rep node = rep left then rep right else rep node

variable {forest : UnionFind} {rep : Nat → Nat}

@[simp] theorem size_link (node parent : Nat) : (forest.link node parent).size = forest.size := by
  simp [link, size]

theorem parentOf_of_le {node : Nat} (outside : forest.size ≤ node) : forest.parentOf node = node :=
  getD_eq_default _ _ outside

theorem parentOf_link_self {node parent : Nat} (inside : node < forest.size) :
    (forest.link node parent).parentOf node = parent := by
  have inside' : node < forest.parent.length := inside
  simp [link, parentOf, getD_eq_getElem?_getD, inside']

theorem parentOf_link_of_ne {node other parent : Nat} (different : other ≠ node) :
    (forest.link node parent).parentOf other = forest.parentOf other := by
  simp [link, parentOf, getD_eq_getElem?_getD, List.getElem?_set_ne different.symm]

theorem represents_new (size : Nat) : (new size).Represents id := by
  have self : ∀ node, (new size).parentOf node = node := by
    intro node
    by_cases inside : node < size
    · simp [new, parentOf, getD_eq_getElem?_getD, List.getElem?_range inside]
    · exact parentOf_of_le (by simpa [new, UnionFind.size] using inside)
  constructor
  · intro node inside
    rw [self]
    exact inside
  · intro node
    rw [self]
  · intro node _
    rfl
  · refine ⟨fun _ => 0, fun node moved => absurd (self node) moved, fun _ _ => rfl, ?_⟩
    intro node
    rw [Nat.zero_add]
    exact (Finset.card_filter_le _ _).trans (Finset.card_range _).le

namespace Represents

variable (represents : forest.Represents rep)

include represents

theorem rep_climb (fuel : Nat) : ∀ node, rep (forest.climb fuel node) = rep node := by
  induction fuel with
  | zero =>
    intro node
    rfl
  | succ fuel ih =>
    intro node
    rw [climb]
    split
    · rfl
    · rw [ih, represents.along]

/-- The climb ends at the root. -/
theorem root_eq (node : Nat) : forest.root node = rep node := by
  obtain ⟨depth, decreases, atRoot, bounded⟩ := represents.shallow
  have arrives : ∀ fuel node, depth node ≤ fuel →
      forest.parentOf (forest.climb fuel node) = forest.climb fuel node := by
    intro fuel
    induction fuel with
    | zero =>
      intro node low
      by_contra moved
      have := decreases node moved
      omega
    | succ fuel ih =>
      intro node low
      rw [climb]
      split
      · assumption
      · rename_i moved
        apply ih
        have := decreases node moved
        omega
  have enough : depth node ≤ forest.size := by
    have := bounded node
    omega
  calc forest.root node = rep (forest.root node) :=
        (represents.fixed _ (arrives forest.size node enough)).symm
    _ = rep node := represents.rep_climb forest.size node

theorem parentOf_rep (node : Nat) : forest.parentOf (rep node) = rep node := by
  obtain ⟨depth, decreases, _⟩ := represents.shallow
  have general : ∀ bound node, depth node ≤ bound → forest.parentOf (rep node) = rep node := by
    intro bound
    induction bound with
    | zero =>
      intro node low
      have self : forest.parentOf node = node := by
        by_contra moved
        have := decreases node moved
        omega
      rw [represents.fixed node self]
      exact self
    | succ bound ih =>
      intro node low
      by_cases self : forest.parentOf node = node
      · rw [represents.fixed node self]
        exact self
      · rw [← represents.along node]
        apply ih
        have := decreases node self
        omega
  exact general (depth node) node le_rfl

theorem rep_rep (node : Nat) : rep (rep node) = rep node :=
  represents.fixed _ (represents.parentOf_rep node)

theorem rep_lt {node : Nat} (inside : node < forest.size) : rep node < forest.size := by
  by_contra outside
  obtain ⟨depth, decreases, _⟩ := represents.shallow
  have general : ∀ bound node, depth node ≤ bound → node < forest.size → rep node < forest.size := by
    intro bound
    induction bound with
    | zero =>
      intro node low inside
      have self : forest.parentOf node = node := by
        by_contra moved
        have := decreases node moved
        omega
      rwa [represents.fixed node self]
    | succ bound ih =>
      intro node low inside
      by_cases self : forest.parentOf node = node
      · rwa [represents.fixed node self]
      · rw [← represents.along node]
        apply ih _ _ (represents.inside node inside)
        have := decreases node self
        omega
  exact outside (general (depth node) node le_rfl inside)

/-- Hanging a number that is not a root below its root changes no root. -/
theorem shorten {node : Nat} (moved : forest.parentOf node ≠ node) :
    (forest.link node (rep node)).Represents rep := by
  have within : node < forest.size := by
    by_contra outside
    exact moved (parentOf_of_le (Nat.le_of_not_lt outside))
  have differs : rep node ≠ node := by
    intro same
    apply moved
    have := represents.parentOf_rep node
    rwa [same] at this
  have linked : (forest.link node (rep node)).parentOf node = rep node := parentOf_link_self within
  obtain ⟨depth, decreases, atRoot, bounded⟩ := represents.shallow
  constructor
  · intro other inside
    rw [size_link] at inside ⊢
    by_cases here : other = node
    · subst here
      rw [linked]
      exact represents.rep_lt within
    · rw [parentOf_link_of_ne here]
      exact represents.inside other inside
  · intro other
    by_cases here : other = node
    · subst here
      rw [linked, represents.rep_rep]
    · rw [parentOf_link_of_ne here, represents.along]
  · intro other self
    by_cases here : other = node
    · subst here
      rw [linked] at self
      exact self
    · rw [parentOf_link_of_ne here] at self
      exact represents.fixed other self
  · refine ⟨depth, ?_, ?_, ?_⟩
    · intro other moves
      by_cases here : other = node
      · subst here
        rw [linked, atRoot _ (represents.parentOf_rep other)]
        have := decreases other moved
        omega
      · rw [parentOf_link_of_ne here] at moves ⊢
        exact decreases other moves
    · intro other self
      by_cases here : other = node
      · subst here
        rw [linked] at self
        exact absurd self differs
      · rw [parentOf_link_of_ne here] at self
        exact atRoot other self
    · intro other
      have sameRoots : (forest.link node (rep node)).roots = forest.roots := by
        ext candidate
        simp only [roots, size_link, Finset.mem_filter, Finset.mem_range, and_congr_right_iff]
        intro _
        by_cases here : candidate = node
        · subst here
          rw [linked]
          exact ⟨fun self => absurd self differs, fun self => absurd self moved⟩
        · rw [parentOf_link_of_ne here]
      rw [sameRoots, size_link]
      exact bounded other

omit represents in
theorem compress_spec (fuel : Nat) : ∀ {forest : UnionFind} (_ : forest.Represents rep)
    {node root : Nat}, rep node = root → (compress root fuel node forest).Represents rep ∧
      (compress root fuel node forest).size = forest.size := by
  induction fuel with
  | zero =>
    intro forest represents node root _
    exact ⟨represents, rfl⟩
  | succ fuel ih =>
    intro forest represents node root isRoot
    rw [compress]
    split
    · exact ⟨represents, rfl⟩
    · rename_i higher
      have moved : forest.parentOf node ≠ node := by
        intro self
        apply higher
        rw [self, ← isRoot, represents.fixed node self]
      subst isRoot
      obtain ⟨kept, sized⟩ := ih (represents.shorten moved) (represents.along node)
      exact ⟨kept, sized.trans (size_link _ _)⟩

/-- Finding answers the root and changes no root. -/
theorem find_spec (node : Nat) : (forest.find node).1 = rep node ∧
    (forest.find node).2.Represents rep ∧ (forest.find node).2.size = forest.size := by
  obtain ⟨kept, sized⟩ := compress_spec forest.size represents (represents.root_eq node).symm
  exact ⟨represents.root_eq node, kept, sized⟩

/-- Hanging one root below another merges their classes. -/
theorem join {left right : Nat} (inside : left < forest.size) (inside' : right < forest.size)
    (differs : rep left ≠ rep right) :
    (forest.link (rep left) (rep right)).Represents (merge rep left right) := by
  have within := represents.rep_lt inside
  have linked : (forest.link (rep left) (rep right)).parentOf (rep left) = rep right :=
    parentOf_link_self within
  have leftRoot := represents.parentOf_rep left
  have rightRoot := represents.parentOf_rep right
  obtain ⟨depth, decreases, atRoot, bounded⟩ := represents.shallow
  have mergedRight : merge rep left right (rep right) = rep right := by
    rw [merge, represents.rep_rep]
    simp
  have mergedLeft : merge rep left right (rep left) = rep right := by
    rw [merge, represents.rep_rep]
    simp
  have depthRight : depth (rep right) = 0 := atRoot _ rightRoot
  constructor
  · intro other low
    rw [size_link] at low ⊢
    by_cases here : other = rep left
    · rw [here, linked]
      exact represents.rep_lt inside'
    · rw [parentOf_link_of_ne here]
      exact represents.inside other low
  · intro other
    by_cases here : other = rep left
    · rw [here, linked, mergedRight, mergedLeft]
    · rw [parentOf_link_of_ne here, merge, merge, represents.along]
  · intro other self
    by_cases here : other = rep left
    · rw [here, linked] at self
      exact absurd self.symm differs
    · rw [parentOf_link_of_ne here] at self
      rw [merge, represents.fixed other self, if_neg here]
  · refine ⟨fun node => if rep node = rep left then depth node + 1 else depth node, ?_, ?_, ?_⟩
    · intro other moves
      dsimp only
      by_cases here : other = rep left
      · rw [here, linked, represents.rep_rep, represents.rep_rep, if_neg differs.symm, if_pos rfl,
          depthRight]
        exact Nat.succ_pos _
      · rw [parentOf_link_of_ne here] at moves ⊢
        rw [represents.along]
        have := decreases other moves
        split <;> omega
    · intro other self
      dsimp only
      by_cases here : other = rep left
      · rw [here, linked] at self
        exact absurd self.symm differs
      · rw [parentOf_link_of_ne here] at self
        rw [represents.fixed other self, if_neg here]
        exact atRoot other self
    · intro other
      have fewer : (forest.link (rep left) (rep right)).roots = forest.roots.erase (rep left) := by
        ext candidate
        simp only [roots, size_link, Finset.mem_filter, Finset.mem_range, Finset.mem_erase]
        by_cases here : candidate = rep left
        · rw [here, linked]
          simp [differs.symm]
        · rw [parentOf_link_of_ne here]
          simp [here]
      have member : rep left ∈ forest.roots := by
        simp only [roots, Finset.mem_filter, Finset.mem_range]
        exact ⟨within, leftRoot⟩
      have positive : 0 < forest.roots.card := Finset.card_pos.mpr ⟨_, member⟩
      have := bounded other
      rw [fewer, Finset.card_erase_of_mem member, size_link]
      dsimp only
      split <;> omega

/-- Joining two numbers merges their classes. -/
theorem union_spec {left right : Nat} (inside : left < forest.size)
    (inside' : right < forest.size) :
    (forest.union left right).Represents (merge rep left right) ∧
      (forest.union left right).size = forest.size := by
  obtain ⟨leftRoot, afterLeft, leftSize⟩ := represents.find_spec left
  obtain ⟨rightRoot, afterRight, rightSize⟩ := afterLeft.find_spec right
  have sized := rightSize.trans leftSize
  unfold union
  dsimp only
  rw [leftRoot, rightRoot]
  split
  · rename_i same
    refine ⟨?_, sized⟩
    have unchanged : merge rep left right = rep := by
      funext node
      rw [merge]
      split
      · rename_i joined
        rw [joined, same]
      · rfl
    rw [unchanged]
    exact afterRight
  · rename_i differs
    refine ⟨?_, (size_link _ _).trans sized⟩
    exact afterRight.join (by rwa [sized]) (by rwa [sized]) differs

end Represents

theorem merge_joins (left right : Nat) : merge rep left right left = merge rep left right right := by
  simp [merge]

/-- Numbers of one class have one label. -/
def Respects {α : Type} (rep : Nat → Nat) (label : Nat → α) : Prop :=
  ∀ node other, rep node = rep other → label node = label other

/-- Merging keeps together what was together. -/
theorem respects_merge (left right : Nat) : Respects rep (merge rep left right) := by
  intro node other together
  rw [merge, merge, together]

/-- A label that is the same on each class and on two numbers is the same on the classes
after these two are merged. -/
theorem Respects.merge {α : Type} {label : Nat → α} {left right : Nat}
    (respects : Respects rep label) (same : label left = label right) :
    Respects (merge rep left right) label := by
  intro node other together
  unfold UnionFind.merge at together
  split at together <;> split at together
  · rename_i first second
    exact respects _ _ (first.trans second.symm)
  · rename_i first _
    exact ((respects _ _ first).trans same).trans (respects _ _ together)
  · rename_i _ second
    exact (respects _ _ together).trans (same.symm.trans (respects _ _ second).symm)
  · exact respects _ _ together

theorem Respects.trans {α : Type} {label : Nat → α} {rep' : Nat → Nat}
    (first : Respects rep rep') (second : Respects rep' label) : Respects rep label :=
  fun node other together => second node other (first node other together)

/-- What joining the numbers of a list does to the classes. -/
theorem Represents.unionAll {ids : List Nat} : ∀ {forest : UnionFind} {rep : Nat → Nat},
    forest.Represents rep → (∀ id ∈ ids, id < forest.size) →
      (forest.unionAll ids).size = forest.size ∧ ∃ rep', (forest.unionAll ids).Represents rep' ∧
        Respects rep rep' ∧ (∀ id ∈ ids, ∀ other ∈ ids, rep' id = rep' other) ∧
        ∀ {α : Type} (label : Nat → α), Respects rep label →
          (∀ id ∈ ids, ∀ other ∈ ids, label id = label other) → Respects rep' label := by
  induction ids with
  | nil =>
    intro forest rep represents _
    refine ⟨rfl, rep, represents, fun _ _ together => together, ?_, fun _ kept _ => kept⟩
    intro id member
    cases member
  | cons first rest ih =>
    intro forest rep represents inside
    cases rest with
    | nil =>
      refine ⟨rfl, rep, represents, fun _ _ together => together, ?_, fun _ kept _ => kept⟩
      intro id member other member'
      rw [mem_singleton.mp member, mem_singleton.mp member']
    | cons second rest =>
      obtain ⟨joined, sized⟩ := represents.union_spec (inside first mem_cons_self)
        (inside second (mem_cons_of_mem _ mem_cons_self))
      have inside' : ∀ id ∈ second :: rest, id < (forest.union first second).size := by
        intro id member
        rw [sized]
        exact inside id (mem_cons_of_mem _ member)
      obtain ⟨sized', rep', represents', coarser, together, labels⟩ := ih joined inside'
      have coarser' := (respects_merge first second).trans coarser
      have first_second : rep' first = rep' second := coarser _ _ (merge_joins first second)
      refine ⟨sized'.trans sized, rep', represents', coarser', ?_, ?_⟩
      · have toSecond : ∀ id ∈ first :: second :: rest, rep' id = rep' second := by
          intro id member
          rcases mem_cons.mp member with rfl | later
          · exact first_second
          · exact together id later second mem_cons_self
        intro id member other member'
        rw [toSecond id member, toSecond other member']
      · intro α label respects same
        apply labels label
        · exact respects.merge (same first mem_cons_self second (mem_cons_of_mem _ mem_cons_self))
        · intro id member other member'
          exact same id (mem_cons_of_mem _ member) other (mem_cons_of_mem _ member')

/-- What joining the numbers of each of several lists does to the classes. -/
theorem Represents.unionGroups {groups : List (List Nat)} :
    ∀ {forest : UnionFind} {rep : Nat → Nat}, forest.Represents rep →
      (∀ ids ∈ groups, ∀ id ∈ ids, id < forest.size) →
        ∃ rep', (groups.foldl (fun forest ids => forest.unionAll ids) forest).Represents rep' ∧
          Respects rep rep' ∧ (∀ ids ∈ groups, ∀ id ∈ ids, ∀ other ∈ ids, rep' id = rep' other) ∧
          ∀ {α : Type} (label : Nat → α), Respects rep label →
            (∀ ids ∈ groups, ∀ id ∈ ids, ∀ other ∈ ids, label id = label other) →
              Respects rep' label := by
  induction groups with
  | nil =>
    intro forest rep represents _
    refine ⟨rep, represents, fun _ _ together => together, ?_, fun _ kept _ => kept⟩
    intro ids member
    cases member
  | cons ids groups ih =>
    intro forest rep represents inside
    obtain ⟨sized, middle, represents', coarser, together, labels⟩ :=
      represents.unionAll (inside ids mem_cons_self)
    have inside' : ∀ others ∈ groups, ∀ id ∈ others, id < (forest.unionAll ids).size := by
      intro others member id member'
      rw [sized]
      exact inside others (mem_cons_of_mem _ member) id member'
    obtain ⟨rep', represents'', coarser', together', labels'⟩ := ih represents' inside'
    refine ⟨rep', represents'', coarser.trans coarser', ?_, ?_⟩
    · intro others member id isOne other isOther
      rcases mem_cons.mp member with rfl | later
      · exact coarser' _ _ (together id isOne other isOther)
      · exact together' others later id isOne other isOther
    · intro α label respects same
      apply labels' label
      · exact labels label respects (same ids mem_cons_self)
      · intro others member
        exact same others (mem_cons_of_mem _ member)

end UnionFind

end HermesDecomp
