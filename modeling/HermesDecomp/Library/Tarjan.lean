import Mathlib.Algebra.Ring.Nat
import Mathlib.Data.List.Nodup
import Mathlib.Algebra.Order.BigOperators.Group.List
import Mathlib.Algebra.Order.Group.Nat

/-!
# Strongly connected components

The components of a graph by one depth-first walk with an explicit stack of work. Every
node is numbered when it is entered and keeps the lowest number it is known to lead back
to. A node left with its own number closes a component, which is what lies above it on
the stack of nodes not yet in one.

The invariant says of each node on the stack where it leads: all of it to nodes above an
open node, some of it back, and nowhere below what the open nodes know of.
-/

namespace HermesDecomp

open List

namespace Tarjan

variable {α : Type}

/-- The state of the walk. The work lists the open nodes, innermost first, each with the
edges still to follow. -/
structure State (α : Type) where
  index : α → Option Nat
  low : α → Nat
  stack : List α
  component : α → Option Nat
  groups : List (List α)
  next : Nat
  work : List (α × List α)

/-- Nothing entered yet. -/
def start : State α := ⟨fun _ => none, fun _ => 0, [], fun _ => none, [], 0, []⟩

/-- One node leads to another. -/
def Leads (edges : α → List α) : α → α → Prop :=
  Relation.ReflTransGen fun node target => target ∈ edges node

namespace State

/-- The number of a node, for nodes that have one. -/
def pos (state : State α) (node : α) : Nat := (state.index node).getD 0

/-- The node was entered. -/
def Entered (state : State α) (node : α) : Prop := (state.index node).isSome

/-- The node is open. -/
def Open (state : State α) (node : α) : Prop := ∃ rest, (node, rest) ∈ state.work

end State

section Walk

variable [DecidableEq α]

/-- Take from a stack down to a node, that node included. -/
def popThrough (node : α) : List α → List α × List α
  | [] => ([], [])
  | top :: rest =>
      if top = node then ([top], rest)
      else ((top :: (popThrough node rest).1), (popThrough node rest).2)

namespace State

/-- Number a node and open it. -/
def enter (edges : α → List α) (node : α) (state : State α) : State α :=
  { state with
    index := Function.update state.index node (some state.next)
    low := Function.update state.low node state.next
    next := state.next + 1
    stack := node :: state.stack
    work := (node, edges node) :: state.work }

/-- Close the component of a node. -/
def close (node : α) (state : State α) : State α :=
  let popped := popThrough node state.stack
  { state with
    stack := popped.2
    component := fun other =>
      if other ∈ popped.1 then some state.groups.length else state.component other
    groups := state.groups ++ [popped.1] }

/-- Tell the node a finished one was reached from how low that leads. -/
def passUp (node : α) (state : State α) : State α :=
  match state.work with
  | [] => state
  | (parent, _) :: _ =>
      { state with
        low := Function.update state.low parent (min (state.low parent) (state.low node)) }

/-- Leave a node all of whose edges were followed. -/
def leave (node : α) (state : State α) : State α :=
  let told := state.passUp node
  if told.index node = some (told.low node) then told.close node else told

/-- Follow one edge, or leave the node on top. -/
def step (edges : α → List α) (state : State α) : State α :=
  match state.work with
  | [] => state
  | (node, target :: rest) :: work =>
      let advanced := { state with work := (node, rest) :: work }
      match state.index target with
      | none => advanced.enter edges target
      | some number =>
          if target ∈ state.stack then
            { advanced with
              low := Function.update state.low node (min (state.low node) number) }
          else advanced
  | (node, []) :: work => { state with work := work }.leave node

/-- Walk until there is no work left. -/
def run (edges : α → List α) : Nat → State α → State α
  | 0, state => state
  | fuel + 1, state =>
      match state.work with
      | [] => state
      | _ => run edges fuel (state.step edges)

/-- Walk from a node that was not entered yet. -/
def visit (edges : α → List α) (fuel : Nat) (state : State α) (root : α) : State α :=
  if (state.index root).isSome then state else (state.enter edges root).run edges fuel

end State

/-- The steps of the walk from all of some nodes. -/
def budget (edges : α → List α) (domain : List α) : Nat :=
  (domain.map fun node => (edges node).length + 1).sum

/-- The components of the graph the nodes lead to. -/
def components (edges : α → List α) (domain nodes : List α) : State α :=
  nodes.foldl (State.visit edges (budget edges domain)) start

/-- What is popped ends with the node, and what is left lay below it. -/
theorem popThrough_spec {node : α} {stack : List α} (member : node ∈ stack) :
    ∃ above, (popThrough node stack).1 = above ++ [node] ∧
      stack = above ++ node :: (popThrough node stack).2 := by
  induction stack with
  | nil => cases member
  | cons top rest ih =>
    unfold popThrough
    split
    · rename_i same
      subst same
      exact ⟨[], rfl, rfl⟩
    · rename_i different
      obtain rfl | later := mem_cons.mp member
      · exact absurd rfl different
      · obtain ⟨above, popped, whole⟩ := ih later
        refine ⟨top :: above, ?_, ?_⟩
        · rw [popped]
          rfl
        · rw [cons_append, ← whole]

end Walk

/-- An edge the walk has followed: any of a finished node, and those before the rest of an
open one. -/
def Followed (edges : α → List α) (state : State α) (node target : α) : Prop :=
  target ∈ edges node ∧ ∀ rest, (node, rest) ∈ state.work →
    ∃ before, edges node = before ++ rest ∧ target ∈ before

/-- The open node a node on the stack was entered under last. -/
def Nearest (state : State α) (node openNode : α) : Prop :=
  state.Open openNode ∧ state.pos openNode ≤ state.pos node ∧
    ∀ other, state.Open other → state.pos other ≤ state.pos node →
      state.pos other ≤ state.pos openNode

/-- What the state says of the graph. The pending edges are followed and not yet
accounted for. -/
structure Invariant (edges : α → List α) (pending : α → α → Prop) (state : State α) :
    Prop where
  bounded : ∀ node, state.Entered node → state.pos node < state.next
  injective : ∀ node node', state.Entered node → state.Entered node' →
    state.pos node = state.pos node' → node = node'
  sorted : state.stack.Pairwise fun above below => state.pos below < state.pos above
  workSorted : state.work.Pairwise fun above below => state.pos below.1 < state.pos above.1
  entered : ∀ node, state.Entered node ↔ node ∈ state.stack ∨ (state.component node).isSome
  apart : ∀ node ∈ state.stack, state.component node = none
  openOnStack : ∀ node, state.Open node → node ∈ state.stack
  suffix : ∀ node rest, (node, rest) ∈ state.work → ∃ before, edges node = before ++ rest
  covered : ∀ node ∈ state.stack, ∃ openNode, state.Open openNode ∧
    state.pos openNode ≤ state.pos node
  followed : ∀ node target, state.Entered node → Followed edges state node target →
    ¬ pending node target → state.Entered target
  lowered : ∀ node ∈ state.stack, ∀ openNode, Nearest state node openNode →
    ∀ target ∈ state.stack, Followed edges state node target → ¬ pending node target →
      state.low openNode ≤ state.pos target
  below : ∀ node, state.Open node → ∀ above ∈ state.stack, state.pos node ≤ state.pos above →
    Leads edges node above
  lowest : ∀ node, state.Open node → state.low node ≤ state.pos node ∧
    ∃ target ∈ state.stack, state.pos target = state.low node ∧ Leads edges node target
  back : ∀ node ∈ state.stack, ¬ state.Open node →
    ∃ target ∈ state.stack, state.pos target < state.pos node ∧ Leads edges node target
  closed : ∀ node number, state.component node = some number → ∀ target ∈ edges node,
    ∃ number', state.component target = some number' ∧ number' ≤ number
  together : ∀ node node' number, state.component node = some number →
    state.component node' = some number → Leads edges node node'
  grouped : ∀ number group, state.groups[number]? = some group →
    ∀ node, node ∈ group ↔ state.component node = some number
  numbered : ∀ node number, state.component node = some number → number < state.groups.length

/-- The invariant between the steps: every followed edge is accounted for. -/
abbrev Settled (edges : α → List α) (state : State α) : Prop :=
  Invariant edges (fun _ _ => False) state

section Invariants

variable {edges : α → List α} {pending : α → α → Prop} {state : State α}

/-- What is on the stack was entered. -/
theorem Invariant.enteredOfMem (invariant : Invariant edges pending state) {node : α}
    (onStack : node ∈ state.stack) : state.Entered node :=
  (invariant.entered node).mpr (.inl onStack)

variable {rest : List α} {work : List (α × List α)}

/-- The innermost open node is listed once, and has the highest number of the open ones. -/
theorem Invariant.top (invariant : Invariant edges pending state) {node : α}
    (working : state.work = (node, rest) :: work) :
    (∀ rest', (node, rest') ∈ state.work → rest' = rest) ∧
      (∀ other rest', (other, rest') ∈ work → state.pos other < state.pos node) ∧
        ∀ other, state.Open other → state.pos other ≤ state.pos node := by
  have sorted := invariant.workSorted
  rw [working] at sorted
  obtain ⟨first, _⟩ := pairwise_cons.mp sorted
  have below : ∀ other rest', (other, rest') ∈ work → state.pos other < state.pos node :=
    fun other rest' member => first (other, rest') member
  refine ⟨?_, below, ?_⟩
  · intro rest' member
    rw [working] at member
    obtain same | later := mem_cons.mp member
    · exact (Prod.mk.inj same).2
    · exact absurd (below node rest' later) (lt_irrefl _)
  · rintro other ⟨rest', member⟩
    rw [working] at member
    obtain same | later := mem_cons.mp member
    · exact le_of_eq (congrArg state.pos (Prod.mk.inj same).1)
    · exact le_of_lt (below other rest' later)

/-- The state with the first edge left of the innermost open node followed. -/
def State.advanced (state : State α) (node : α) (rest : List α) (work : List (α × List α)) :
    State α :=
  { state with work := (node, rest) :: work }

variable {node target : α}

theorem open_advanced (working : state.work = (node, target :: rest) :: work) (other : α) :
    (state.advanced node rest work).Open other ↔ state.Open other := by
  unfold State.Open State.advanced
  rw [working]
  constructor
  · rintro ⟨rest', member⟩
    obtain same | later := mem_cons.mp member
    · cases same
      exact ⟨_, mem_cons_self⟩
    · exact ⟨rest', mem_cons_of_mem _ later⟩
  · rintro ⟨rest', member⟩
    obtain same | later := mem_cons.mp member
    · cases same
      exact ⟨_, mem_cons_self⟩
    · exact ⟨rest', mem_cons_of_mem _ later⟩

theorem nearest_advanced (working : state.work = (node, target :: rest) :: work)
    {other openNode : α} (nearest : Nearest (state.advanced node rest work) other openNode) :
    Nearest state other openNode := by
  obtain ⟨isOpen, below, greatest⟩ := nearest
  refine ⟨(open_advanced working openNode).mp isOpen, below, ?_⟩
  intro other' isOpen'
  exact greatest other' ((open_advanced working other').mpr isOpen')

/-- The one edge more that is followed is the pending one. -/
theorem Invariant.followed_advanced (invariant : Invariant edges pending state)
    (working : state.work = (node, target :: rest) :: work) {source goal : α}
    (followed : Followed edges (state.advanced node rest work) source goal)
    (notPending : ¬ (source = node ∧ goal = target)) : Followed edges state source goal:= by
  obtain ⟨once, _, _⟩ := invariant.top working
  obtain ⟨before, split⟩ := invariant.suffix node (target :: rest)
    (by rw [working]; exact mem_cons_self)
  obtain ⟨edge, seen⟩ := followed
  refine ⟨edge, ?_⟩
  intro rest' member
  by_cases here : source = node
  · subst here
    rw [once rest' member]
    obtain ⟨before', split', inside⟩ := seen rest mem_cons_self
    have same : before ++ [target] = before' := by
      apply append_cancel_right
      rw [append_assoc, singleton_append, ← split, ← split']
    rw [← same] at inside
    obtain earlier | last := mem_append.mp inside
    · exact ⟨before, split, earlier⟩
    · exact absurd ⟨rfl, mem_singleton.mp last⟩ notPending
  · refine seen rest' ?_
    rw [working] at member
    obtain same | later := mem_cons.mp member
    · exact absurd (Prod.mk.inj same).1 here
    · exact mem_cons_of_mem _ later

/-- The first edge left of the innermost open node is followed: it is pending. -/
theorem Invariant.advance (invariant : Settled edges state)
    (working : state.work = (node, target :: rest) :: work) :
    Invariant edges (fun source goal => source = node ∧ goal = target)
      (state.advanced node rest work) := by
  have openIff := open_advanced working
  have sorted := invariant.workSorted
  rw [working] at sorted
  obtain ⟨first, sortedRest⟩ := pairwise_cons.mp sorted
  constructor
  · exact invariant.bounded
  · exact invariant.injective
  · exact invariant.sorted
  · exact pairwise_cons.mpr ⟨first, sortedRest⟩
  · exact invariant.entered
  · exact invariant.apart
  · exact fun other isOpen => invariant.openOnStack other ((openIff other).mp isOpen)
  · intro other rest' member
    obtain same | later := mem_cons.mp member
    · obtain ⟨rfl, rfl⟩ := Prod.mk.inj same
      obtain ⟨before, split⟩ := invariant.suffix other (target :: rest')
        (by rw [working]; exact mem_cons_self)
      exact ⟨before ++ [target], by rw [split, append_assoc, singleton_append]⟩
    · exact invariant.suffix other rest' (by rw [working]; exact mem_cons_of_mem _ later)
  · intro other onStack
    obtain ⟨openNode, isOpen, below⟩ := invariant.covered other onStack
    exact ⟨openNode, (openIff openNode).mpr isOpen, below⟩
  · intro source goal entered followed notPending
    exact invariant.followed source goal entered
      (invariant.followed_advanced working followed notPending) not_false
  · intro source onStack openNode nearest goal goalOnStack followed notPending
    exact invariant.lowered source onStack openNode (nearest_advanced working nearest) goal
      goalOnStack (invariant.followed_advanced working followed notPending) not_false
  · exact fun other isOpen => invariant.below other ((openIff other).mp isOpen)
  · exact fun other isOpen => invariant.lowest other ((openIff other).mp isOpen)
  · exact fun other onStack notOpen => invariant.back other onStack (notOpen ∘ (openIff other).mpr)
  · exact invariant.closed
  · exact invariant.together
  · exact invariant.grouped
  · exact invariant.numbered

/-- A pending edge to a node that was entered and is in a component already tells
nothing. -/
theorem Invariant.settleOutside (invariant : Invariant edges pending state)
    (outside : ∀ source goal, pending source goal → state.Entered goal ∧ goal ∉ state.stack) :
    Settled edges state := by
  refine { invariant with followed := ?_, lowered := ?_ }
  · intro source goal entered followed _
    by_cases isPending : pending source goal
    · exact (outside source goal isPending).1
    · exact invariant.followed source goal entered followed isPending
  · intro source onStack openNode nearest goal goalOnStack followed _
    refine invariant.lowered source onStack openNode nearest goal goalOnStack followed ?_
    intro isPending
    exact (outside source goal isPending).2 goalOnStack

end Invariants

section Steps

variable [DecidableEq α] {edges : α → List α} {pending : α → α → Prop} {state : State α}

/-- A pending edge of an open node to a node on the stack is accounted for by what the
open node knows. -/
theorem Invariant.lower {node target : α}
    (invariant : Invariant edges (fun source goal => source = node ∧ goal = target) state)
    (isOpen : state.Open node) (onStack : target ∈ state.stack) (leads : Leads edges node target) :
    Settled edges
      { state with
        low := Function.update state.low node (min (state.low node) (state.pos target)) } := by
  have lessLow : ∀ other, Function.update state.low node
      (min (state.low node) (state.pos target)) other ≤ state.low other := by
    intro other
    by_cases here : other = node
    · subst here
      rw [Function.update_self]
      exact min_le_left _ _
    · exact le_of_eq (Function.update_of_ne here _ _)
  refine { invariant with followed := ?_, lowered := ?_, lowest := ?_ }
  · intro source goal entered followed _
    by_cases isPending : source = node ∧ goal = target
    · rw [isPending.2]
      exact invariant.enteredOfMem onStack
    · exact invariant.followed source goal entered followed isPending
  · intro source sourceOnStack openNode nearest goal goalOnStack followed _
    by_cases isPending : source = node ∧ goal = target
    · obtain ⟨rfl, rfl⟩ := isPending
      have same : openNode = source := by
        refine invariant.injective openNode source
          (invariant.enteredOfMem (invariant.openOnStack _ nearest.1))
          (invariant.enteredOfMem sourceOnStack) (le_antisymm nearest.2.1 ?_)
        exact nearest.2.2 source isOpen (le_refl _)
      subst same
      change Function.update state.low openNode _ openNode ≤ state.pos goal
      rw [Function.update_self]
      exact min_le_right _ _
    · exact le_trans (lessLow openNode)
        (invariant.lowered source sourceOnStack openNode nearest goal goalOnStack followed
          isPending)
  · intro other otherOpen
    obtain ⟨bound, goal, goalOnStack, posGoal, leadsGoal⟩ := invariant.lowest other otherOpen
    refine ⟨le_trans (lessLow other) bound, ?_⟩
    change ∃ goal ∈ state.stack, state.pos goal = Function.update state.low node _ other ∧ _
    by_cases here : other = node
    · subst here
      rw [Function.update_self]
      obtain first | second := le_total (state.low other) (state.pos target)
      · rw [min_eq_left first]
        exact ⟨goal, goalOnStack, posGoal, leadsGoal⟩
      · rw [min_eq_right second]
        exact ⟨target, onStack, rfl, leads⟩
    · rw [Function.update_of_ne here]
      exact ⟨goal, goalOnStack, posGoal, leadsGoal⟩

theorem pos_enter_self (node : α) : (state.enter edges node).pos node = state.next := by
  change (Function.update state.index node (some state.next) node).getD 0 = state.next
  rw [Function.update_self]
  rfl

theorem pos_enter_of_ne {node other : α} (different : other ≠ node) :
    (state.enter edges node).pos other = state.pos other := by
  change (Function.update state.index node (some state.next) other).getD 0 = state.pos other
  rw [Function.update_of_ne different]
  rfl

theorem entered_enter (node other : α) :
    (state.enter edges node).Entered other ↔ other = node ∨ state.Entered other := by
  unfold State.Entered State.enter
  by_cases here : other = node
  · subst here
    simp
  · simp [here]

theorem open_enter (node other : α) :
    (state.enter edges node).Open other ↔ other = node ∨ state.Open other := by
  unfold State.Open State.enter
  constructor
  · rintro ⟨rest, member⟩
    obtain same | later := mem_cons.mp member
    · exact .inl (Prod.mk.inj same).1
    · exact .inr ⟨rest, later⟩
  · rintro (rfl | ⟨rest, member⟩)
    · exact ⟨_, mem_cons_self⟩
    · exact ⟨rest, mem_cons_of_mem _ member⟩

/-- No edge of a node just entered was followed. -/
theorem not_followed_enter_self {node goal : α} :
    ¬ Followed edges (state.enter edges node) node goal := by
  rintro ⟨_, seen⟩
  obtain ⟨before, split, inside⟩ := seen (edges node) mem_cons_self
  rw [append_left_eq_self.mp split.symm] at inside
  cases inside

theorem followed_of_enter {node source goal : α}
    (followed : Followed edges (state.enter edges node) source goal) :
    Followed edges state source goal :=
  ⟨followed.1, fun rest member => followed.2 rest (mem_cons_of_mem _ member)⟩

/-- A node that was not entered is: every open node leads to it. -/
theorem Invariant.enter (invariant : Invariant edges pending state) {target : α}
    (fresh : ¬ state.Entered target) (only : ∀ source goal, pending source goal → goal = target)
    (leads : ∀ other, state.Open other → Leads edges other target) :
    Settled edges (state.enter edges target) := by
  have notOnStack : target ∉ state.stack := fresh ∘ invariant.enteredOfMem
  have notOpen : ¬ state.Open target := notOnStack ∘ invariant.openOnStack target
  have old : ∀ node, state.Entered node →
      (state.enter edges target).pos node = state.pos node ∧ state.pos node < state.next := by
    intro node entered
    refine ⟨pos_enter_of_ne ?_, invariant.bounded node entered⟩
    rintro rfl
    exact fresh entered
  have oldOnStack : ∀ node ∈ state.stack, (state.enter edges target).pos node = state.pos node ∧
      state.pos node < state.next := fun node onStack => old node (invariant.enteredOfMem onStack)
  have oldOpen : ∀ node, state.Open node → (state.enter edges target).pos node = state.pos node ∧
      state.pos node < state.next := fun node isOpen =>
    oldOnStack node (invariant.openOnStack node isOpen)
  have nearestOld : ∀ node ∈ state.stack, ∀ openNode,
      Nearest (state.enter edges target) node openNode → Nearest state node openNode := by
    rintro node onStack openNode ⟨isOpen, below, greatest⟩
    obtain rfl | stillOpen := (open_enter target openNode).mp isOpen
    · rw [pos_enter_self, (oldOnStack node onStack).1] at below
      exact absurd (oldOnStack node onStack).2 (not_lt.mpr below)
    · rw [(oldOpen openNode stillOpen).1, (oldOnStack node onStack).1] at below
      refine ⟨stillOpen, below, ?_⟩
      intro other otherOpen bound
      have greater := greatest other ((open_enter target other).mpr (.inr otherOpen))
      rw [(oldOpen other otherOpen).1, (oldOnStack node onStack).1, (oldOpen openNode stillOpen).1]
        at greater
      exact greater bound
  constructor
  · intro node entered
    change (state.enter edges target).pos node < state.next + 1
    obtain rfl | earlier := (entered_enter target node).mp entered
    · rw [pos_enter_self]
      exact Nat.lt_succ_self _
    · rw [(old node earlier).1]
      exact Nat.lt_succ_of_lt (old node earlier).2
  · intro node node' entered entered' same
    obtain rfl | earlier := (entered_enter target node).mp entered
    · obtain rfl | earlier' := (entered_enter node node').mp entered'
      · rfl
      · rw [pos_enter_self, (old node' earlier').1] at same
        exact absurd (same ▸ (old node' earlier').2) (lt_irrefl _)
    · obtain rfl | earlier' := (entered_enter target node').mp entered'
      · rw [pos_enter_self, (old node earlier).1] at same
        exact absurd (same ▸ (old node earlier).2) (lt_irrefl _)
      · rw [(old node earlier).1, (old node' earlier').1] at same
        exact invariant.injective node node' earlier earlier' same
  · refine pairwise_cons.mpr ⟨?_, ?_⟩
    · intro node onStack
      rw [pos_enter_self, (oldOnStack node onStack).1]
      exact (oldOnStack node onStack).2
    · refine invariant.sorted.imp_of_mem ?_
      intro above below aboveOn belowOn less
      rw [(oldOnStack above aboveOn).1, (oldOnStack below belowOn).1]
      exact less
  · refine pairwise_cons.mpr ⟨?_, ?_⟩
    · rintro ⟨node, rest⟩ member
      rw [pos_enter_self, (oldOpen node ⟨rest, member⟩).1]
      exact (oldOpen node ⟨rest, member⟩).2
    · refine invariant.workSorted.imp_of_mem ?_
      intro above below aboveOn belowOn less
      rw [(oldOpen above.1 ⟨above.2, aboveOn⟩).1, (oldOpen below.1 ⟨below.2, belowOn⟩).1]
      exact less
  · intro node
    rw [entered_enter, invariant.entered node]
    change _ ↔ node ∈ target :: state.stack ∨ (state.component node).isSome
    rw [mem_cons, or_assoc]
  · intro node onStack
    obtain rfl | earlier := mem_cons.mp onStack
    · change state.component node = none
      rw [← Option.not_isSome_iff_eq_none]
      exact fun assigned => fresh ((invariant.entered node).mpr (.inr assigned))
    · exact invariant.apart node earlier
  · intro node isOpen
    obtain rfl | stillOpen := (open_enter target node).mp isOpen
    · exact mem_cons_self
    · exact mem_cons_of_mem _ (invariant.openOnStack node stillOpen)
  · intro node rest member
    obtain same | earlier := mem_cons.mp member
    · cases same
      exact ⟨[], rfl⟩
    · exact invariant.suffix node rest earlier
  · intro node onStack
    obtain rfl | earlier := mem_cons.mp onStack
    · exact ⟨node, (open_enter node node).mpr (.inl rfl), le_refl _⟩
    · obtain ⟨openNode, isOpen, below⟩ := invariant.covered node earlier
      refine ⟨openNode, (open_enter target openNode).mpr (.inr isOpen), ?_⟩
      rw [(oldOpen openNode isOpen).1, (oldOnStack node earlier).1]
      exact below
  · intro source goal entered followed _
    by_cases here : source = target
    · subst here
      exact absurd followed not_followed_enter_self
    · have earlier := ((entered_enter target source).mp entered).resolve_left here
      have before := followed_of_enter followed
      rw [entered_enter]
      by_cases isPending : pending source goal
      · exact .inl (only source goal isPending)
      · exact .inr (invariant.followed source goal earlier before isPending)
  · intro source onStack openNode nearest goal goalOnStack followed _
    obtain rfl | earlier := mem_cons.mp onStack
    · exact absurd followed not_followed_enter_self
    · have before := followed_of_enter followed
      have nearestBefore := nearestOld source earlier openNode nearest
      have openNe : openNode ≠ target := by
        rintro rfl
        exact notOpen nearestBefore.1
      change Function.update state.low target state.next openNode ≤ _
      rw [Function.update_of_ne openNe]
      obtain rfl | goalEarlier := mem_cons.mp goalOnStack
      · rw [pos_enter_self]
        exact le_of_lt (lt_of_le_of_lt (invariant.lowest openNode nearestBefore.1).1
          (oldOpen openNode nearestBefore.1).2)
      · rw [(oldOnStack goal goalEarlier).1]
        refine invariant.lowered source earlier openNode nearestBefore goal goalEarlier before ?_
        intro isPending
        rw [only source goal isPending] at goalEarlier
        exact notOnStack goalEarlier
  · intro node isOpen above onStack bound
    obtain rfl | stillOpen := (open_enter target node).mp isOpen
    · obtain rfl | earlier := mem_cons.mp onStack
      · exact .refl
      · rw [pos_enter_self, (oldOnStack above earlier).1] at bound
        exact absurd (oldOnStack above earlier).2 (not_lt.mpr bound)
    · obtain rfl | earlier := mem_cons.mp onStack
      · exact leads node stillOpen
      · rw [(oldOpen node stillOpen).1, (oldOnStack above earlier).1] at bound
        exact invariant.below node stillOpen above earlier bound
  · intro node isOpen
    obtain rfl | stillOpen := (open_enter target node).mp isOpen
    · change Function.update state.low node state.next node ≤ _ ∧ ∃ goal ∈ _, _ =
        Function.update state.low node state.next node ∧ _
      rw [Function.update_self, pos_enter_self]
      exact ⟨le_refl _, node, mem_cons_self, pos_enter_self node, .refl⟩
    · obtain ⟨bound, goal, goalOnStack, posGoal, leadsGoal⟩ := invariant.lowest node stillOpen
      have nodeNe : node ≠ target := by
        rintro rfl
        exact notOpen stillOpen
      change Function.update state.low target state.next node ≤ _ ∧ ∃ goal ∈ _, _ =
        Function.update state.low target state.next node ∧ _
      rw [Function.update_of_ne nodeNe, (oldOpen node stillOpen).1]
      exact ⟨bound, goal, mem_cons_of_mem _ goalOnStack,
        (oldOnStack goal goalOnStack).1.trans posGoal, leadsGoal⟩
  · intro node onStack notOpenNow
    obtain rfl | earlier := mem_cons.mp onStack
    · exact absurd ((open_enter node node).mpr (.inl rfl)) notOpenNow
    · have notOpenBefore : ¬ state.Open node := fun isOpen =>
        notOpenNow ((open_enter target node).mpr (.inr isOpen))
      obtain ⟨goal, goalOnStack, less, leadsGoal⟩ := invariant.back node earlier notOpenBefore
      refine ⟨goal, mem_cons_of_mem _ goalOnStack, ?_, leadsGoal⟩
      rw [(oldOnStack goal goalOnStack).1, (oldOnStack node earlier).1]
      exact less
  · exact invariant.closed
  · exact invariant.together
  · exact invariant.grouped
  · exact invariant.numbered

end Steps

section Leaving

variable {edges : α → List α} {pending : α → α → Prop} {state : State α} {node : α}
  {work : List (α × List α)} {low : α → Nat}

/-- What is found in a list with one element more. -/
theorem getElem?_append_singleton {β : Type} {items : List β} {last item : β} {position : Nat}
    (found : (items ++ [last])[position]? = some item) :
    (position < items.length ∧ items[position]? = some item) ∨
      position = items.length ∧ item = last := by
  obtain inside | outside := lt_or_ge position items.length
  · rw [List.getElem?_append_left inside] at found
    exact .inl ⟨inside, found⟩
  · rw [List.getElem?_append_right outside] at found
    obtain ⟨bound, same⟩ := List.getElem?_eq_some_iff.mp found
    rw [length_singleton] at bound
    refine .inr ⟨le_antisymm (Nat.le_of_sub_eq_zero (Nat.lt_one_iff.mp bound)) outside, ?_⟩
    rw [← same, getElem_singleton]

/-- How low the open nodes lead once the innermost is left: its parent is told. -/
structure ToldUp (state : State α) (node : α) (work : List (α × List α)) (low : α → Nat) :
    Prop where
  less : ∀ other, low other ≤ state.low other
  parent : ∀ other rest rest', work = (other, rest) :: rest' → low other ≤ state.low node
  cases : ∀ other, low other = state.low other ∨
    low other = state.low node ∧ ∃ rest, (other, rest) ∈ work

/-- What is open once the innermost open node is left. -/
theorem Invariant.open_left (invariant : Settled edges state)
    (working : state.work = (node, []) :: work) (other : α) :
    State.Open { state with work := work, low := low } other ↔
      state.Open other ∧ other ≠ node := by
  obtain ⟨_, below, _⟩ := invariant.top working
  unfold State.Open
  rw [working]
  constructor
  · rintro ⟨rest, member⟩
    refine ⟨⟨rest, mem_cons_of_mem _ member⟩, ?_⟩
    rintro rfl
    exact lt_irrefl _ (below other rest member)
  · rintro ⟨⟨rest, member⟩, different⟩
    obtain same | later := mem_cons.mp member
    · exact absurd (Prod.mk.inj same).1 different
    · exact ⟨rest, later⟩

/-- The innermost open node is open. -/
theorem Invariant.open_top (working : state.work = (node, []) :: work) : state.Open node :=
  ⟨[], by rw [working]; exact mem_cons_self⟩

section

variable (invariant : Settled edges state) (working : state.work = (node, []) :: work)

include invariant working

/-- Once a node is left no more edges are followed than before. -/
theorem Invariant.followed_left {source goal : α}
    (followed : Followed edges { state with work := work, low := low } source goal) :
    Followed edges state source goal := by
  obtain ⟨once, _, _⟩ := invariant.top working
  refine ⟨followed.1, ?_⟩
  intro rest member
  by_cases here : source = node
  · subst here
    rw [once rest member]
    exact ⟨edges source, (append_nil _).symm, followed.1⟩
  · rw [working] at member
    obtain same | later := mem_cons.mp member
    · exact absurd (Prod.mk.inj same).1 here
    · exact followed.2 rest later

/-- What was nearest to a node, or its parent where the node left was. -/
theorem Invariant.nearest_left {source openNode : α}
    (nearest : Nearest { state with work := work, low := low } source openNode) :
    Nearest state source openNode ∨
      Nearest state source node ∧ ∃ rest rest', work = (openNode, rest) :: rest' := by
  obtain ⟨_, below, highest⟩ := invariant.top working
  obtain ⟨isOpen, bound, greatest⟩ := nearest
  obtain ⟨openBefore, different⟩ := (invariant.open_left working openNode).mp isOpen
  by_cases under : state.pos node ≤ state.pos source
  · right
    refine ⟨⟨Invariant.open_top working, under, fun other otherOpen _ => highest other otherOpen⟩,
      ?_⟩
    cases work with
    | nil =>
      obtain ⟨rest, member⟩ := isOpen
      cases member
    | cons parent rest' =>
      obtain ⟨parent, rest⟩ := parent
      have sorted := invariant.workSorted
      rw [working] at sorted
      obtain ⟨higher, _⟩ := pairwise_cons.mp (pairwise_cons.mp sorted).2
      have parentOpen : State.Open { state with work := (parent, rest) :: rest', low := low }
          parent := ⟨rest, mem_cons_self⟩
      have parentBelow := below parent rest mem_cons_self
      have openAbove := greatest parent parentOpen (le_trans (le_of_lt parentBelow) under)
      obtain ⟨openRest, member⟩ := isOpen
      obtain same | later := mem_cons.mp member
      · obtain ⟨rfl, rfl⟩ := Prod.mk.inj same
        exact ⟨openRest, rest', rfl⟩
      · exact absurd (higher (openNode, openRest) later) (not_lt.mpr openAbove)
  · left
    refine ⟨openBefore, bound, ?_⟩
    intro other otherOpen otherBound
    by_cases here : other = node
    · subst here
      exact absurd otherBound under
    · exact greatest other ((invariant.open_left working other).mpr ⟨otherOpen, here⟩) otherBound

/-- What the nodes on the stack know is enough once the innermost is left. -/
theorem Invariant.lowered_left (told : ToldUp state node work low) {source : α}
    (onStack : source ∈ state.stack) {openNode : α}
    (nearest : Nearest { state with work := work, low := low } source openNode) {goal : α}
    (goalOnStack : goal ∈ state.stack)
    (followed : Followed edges { state with work := work, low := low } source goal) :
    low openNode ≤ state.pos goal := by
  have before := invariant.followed_left working followed
  obtain same | ⟨nearestNode, rest, rest', parent⟩ := invariant.nearest_left working nearest
  · exact le_trans (told.less openNode)
      (invariant.lowered source onStack openNode same goal goalOnStack before not_false)
  · exact le_trans (told.parent openNode rest rest' parent)
      (invariant.lowered source onStack node nearestNode goal goalOnStack before not_false)

/-- How low an open node leads once the innermost is left. -/
theorem Invariant.lowest_left (told : ToldUp state node work low) {other : α}
    (isOpen : state.Open other) :
    low other ≤ state.pos other ∧
      ∃ target ∈ state.stack, state.pos target = low other ∧ Leads edges other target := by
  obtain ⟨bound, target, onStack, posTarget, leads⟩ := invariant.lowest other isOpen
  refine ⟨le_trans (told.less other) bound, ?_⟩
  obtain same | ⟨same, rest, member⟩ := told.cases other
  · rw [same]
    exact ⟨target, onStack, posTarget, leads⟩
  · obtain ⟨_, below, _⟩ := invariant.top working
    obtain ⟨_, target', onStack', posTarget', leads'⟩ :=
      invariant.lowest node (Invariant.open_top working)
    rw [same]
    refine ⟨target', onStack', posTarget', ?_⟩
    exact (invariant.below other isOpen node
      (invariant.openOnStack node (Invariant.open_top working))
      (le_of_lt (below other rest member))).trans leads'

/-- A node that leads lower than itself is left on the stack. -/
theorem Invariant.leaveOpen (told : ToldUp state node work low)
    (lower : state.low node ≠ state.pos node) :
    Settled edges { state with work := work, low := low } := by
  have openIff : ∀ other, State.Open { state with work := work, low := low } other ↔
      state.Open other ∧ other ≠ node := invariant.open_left working
  have nodeOpen := Invariant.open_top working
  obtain ⟨bound, target, onStack, posTarget, leads⟩ := invariant.lowest node nodeOpen
  have below : state.pos target < state.pos node := by
    rw [posTarget]
    exact lt_of_le_of_ne bound lower
  have sorted := invariant.workSorted
  rw [working] at sorted
  refine { invariant with
    workSorted := (pairwise_cons.mp sorted).2
    openOnStack := ?_, suffix := ?_, covered := ?_, followed := ?_, lowered := ?_, below := ?_,
    lowest := ?_, back := ?_ }
  · exact fun other isOpen => invariant.openOnStack other ((openIff other).mp isOpen).1
  · intro other rest member
    exact invariant.suffix other rest (by rw [working]; exact mem_cons_of_mem _ member)
  · intro other otherOnStack
    obtain ⟨openNode, isOpen, under⟩ := invariant.covered other otherOnStack
    by_cases here : openNode = node
    · subst here
      obtain ⟨openNode', isOpen', under'⟩ := invariant.covered target onStack
      have different : openNode' ≠ openNode := by
        rintro rfl
        exact absurd below (not_lt.mpr under')
      exact ⟨openNode', (openIff openNode').mpr ⟨isOpen', different⟩,
        le_trans under' (le_trans (le_of_lt below) under)⟩
    · exact ⟨openNode, (openIff openNode).mpr ⟨isOpen, here⟩, under⟩
  · intro source goal entered followed _
    exact invariant.followed source goal entered (invariant.followed_left working followed)
      not_false
  · exact fun source sourceOnStack openNode nearest goal goalOnStack followed _ =>
      invariant.lowered_left working told sourceOnStack nearest goalOnStack followed
  · exact fun other isOpen => invariant.below other ((openIff other).mp isOpen).1
  · exact fun other isOpen => invariant.lowest_left working told ((openIff other).mp isOpen).1
  · intro other otherOnStack notOpen
    by_cases here : other = node
    · subst here
      exact ⟨target, onStack, below, leads⟩
    · exact invariant.back other otherOnStack fun isOpen =>
        notOpen ((openIff other).mpr ⟨isOpen, here⟩)

end

variable {other target : α}

section

variable (invariant : Settled edges state) (working : state.work = (node, []) :: work)

include invariant working

/-- The edges of what lies above a finished node were all followed. -/
theorem Invariant.followed_above (onStack : other ∈ state.stack)
    (above : state.pos node ≤ state.pos other) (edge : target ∈ edges other) :
    Followed edges state other target:= by
  obtain ⟨once, _, highest⟩ := invariant.top working
  refine ⟨edge, ?_⟩
  intro rest member
  have same : other = node := by
    refine invariant.injective other node (invariant.enteredOfMem onStack)
      (invariant.enteredOfMem (invariant.openOnStack node (Invariant.open_top working))) ?_
    exact le_antisymm (highest other ⟨rest, member⟩) above
  subst same
  rw [once rest member]
  exact ⟨edges other, (append_nil _).symm, edge⟩

section

variable (own : state.low node = state.pos node) (onStack : other ∈ state.stack)
  (above : state.pos node ≤ state.pos other)

include own onStack above

/-- The edges of what lies above a node that leads no lower than itself stay above it, or go
to a component already closed. -/
theorem Invariant.edge_above (edge : target ∈ edges other) :
    (target ∈ state.stack ∧ state.pos node ≤ state.pos target) ∨
      (state.component target).isSome := by
  have followed := invariant.followed_above working onStack above edge
  have entered := invariant.followed other target (invariant.enteredOfMem onStack) followed
    not_false
  obtain targetOnStack | assigned := (invariant.entered target).mp entered
  · left
    refine ⟨targetOnStack, ?_⟩
    rw [← own]
    refine invariant.lowered other onStack node ?_ target targetOnStack followed not_false
    obtain ⟨_, _, highest⟩ := invariant.top working
    exact ⟨Invariant.open_top working, above, fun other' isOpen _ => highest other' isOpen⟩
  · exact .inr assigned

/-- What such a node leads to stays above it, or is in a component already closed. -/
theorem Invariant.leads_above (leads : Leads edges other target) :
    (target ∈ state.stack ∧ state.pos node ≤ state.pos target) ∨
      (state.component target).isSome := by
  induction leads with
  | refl => exact .inl ⟨onStack, above⟩
  | tail _ edge ih =>
    obtain ⟨midOnStack, midAbove⟩ | assigned := ih
    · exact invariant.edge_above working own midOnStack midAbove edge
    · obtain ⟨number, found⟩ := Option.isSome_iff_exists.mp assigned
      obtain ⟨number', found', _⟩ := invariant.closed _ number found _ edge
      exact .inr (Option.isSome_iff_exists.mpr ⟨number', found'⟩)

end

/-- All of what lies above such a node leads back to it. -/
theorem Invariant.leads_back (own : state.low node = state.pos node) {other : α}
    (onStack : other ∈ state.stack) (above : state.pos node ≤ state.pos other) :
    Leads edges other node := by
  induction position : state.pos other using Nat.strongRecOn generalizing other with
  | _ _ ih =>
    obtain ⟨_, _, highest⟩ := invariant.top working
    have nodeOnStack := invariant.openOnStack node (Invariant.open_top working)
    by_cases here : other = node
    · rw [here]
      exact .refl
    · have notOpen : ¬ state.Open other := fun isOpen =>
        here (invariant.injective other node (invariant.enteredOfMem onStack)
          (invariant.enteredOfMem nodeOnStack) (le_antisymm (highest other isOpen) above))
      obtain ⟨target, targetOnStack, less, leads⟩ := invariant.back other onStack notOpen
      obtain ⟨_, targetAbove⟩ | assigned := invariant.leads_above working own onStack above leads
      · exact leads.trans (ih _ (position ▸ less) targetOnStack targetAbove rfl)
      · rw [invariant.apart target targetOnStack] at assigned
        cases assigned

end

section Popping

variable [DecidableEq α]

/-- What passing up tells. -/
theorem passUp_eq (node : α) (work : List (α × List α)) :
    ∃ low, State.passUp node { state with work := work } = { state with work := work, low := low } ∧
      ToldUp state node work low := by
  cases work with
  | nil =>
    refine ⟨state.low, rfl, fun other => le_refl _, ?_, fun other => .inl rfl⟩
    intro other rest rest' impossible
    cases impossible
  | cons first rest =>
    obtain ⟨parent, edgesLeft⟩ := first
    refine ⟨_, rfl, ?_, ?_, ?_⟩
    · intro other
      change Function.update state.low parent (min (state.low parent) (state.low node)) other ≤ _
      by_cases here : other = parent
      · subst here
        rw [Function.update_self]
        exact min_le_left _ _
      · exact le_of_eq (Function.update_of_ne here _ _)
    · intro other rest' rest'' same
      obtain ⟨rfl, _⟩ := Prod.mk.inj (List.cons.inj same).1
      change Function.update state.low parent (min (state.low parent) (state.low node)) parent ≤ _
      rw [Function.update_self]
      exact min_le_right _ _
    · intro other
      change Function.update state.low parent (min (state.low parent) (state.low node)) other = _ ∨
        Function.update state.low parent (min (state.low parent) (state.low node)) other = _ ∧ _
      by_cases here : other = parent
      · subst here
        rw [Function.update_self]
        obtain first | second := le_total (state.low other) (state.low node)
        · exact .inl (min_eq_left first)
        · exact .inr ⟨min_eq_right second, edgesLeft, mem_cons_self⟩
      · exact .inl (Function.update_of_ne here _ _)

/-- What is popped is what lies from the node up, and what is left lay below it. -/
theorem Invariant.mem_popThrough (invariant : Invariant edges pending state)
    (onStack : node ∈ state.stack) (other : α) :
    (other ∈ (popThrough node state.stack).1 ↔
      other ∈ state.stack ∧ state.pos node ≤ state.pos other) ∧
      (other ∈ (popThrough node state.stack).2 ↔
        other ∈ state.stack ∧ state.pos other < state.pos node) := by
  obtain ⟨above, popped, whole⟩ := popThrough_spec onStack
  have sorted := invariant.sorted
  rw [whole] at sorted
  obtain ⟨_, sortedBelow, across⟩ := pairwise_append.mp sorted
  have lower : ∀ other ∈ (popThrough node state.stack).2, state.pos other < state.pos node :=
    (pairwise_cons.mp sortedBelow).1
  have higher : ∀ other ∈ (popThrough node state.stack).1,
      state.pos node ≤ state.pos other := by
    intro other member
    rw [popped] at member
    obtain inside | last := mem_append.mp member
    · exact le_of_lt (across other inside node mem_cons_self)
    · exact le_of_eq (congrArg state.pos (mem_singleton.mp last).symm)
  have either : other ∈ state.stack ↔ other ∈ (popThrough node state.stack).1 ∨
      other ∈ (popThrough node state.stack).2 := by
    rw [popped]
    conv_lhs => rw [whole]
    rw [mem_append, mem_append, mem_cons, mem_cons, or_assoc]
    simp
  constructor
  · constructor
    · exact fun member => ⟨either.mpr (.inl member), higher other member⟩
    · rintro ⟨member, bound⟩
      exact (either.mp member).resolve_right fun left =>
        absurd (lower other left) (not_lt.mpr bound)
  · constructor
    · exact fun member => ⟨either.mpr (.inr member), lower other member⟩
    · rintro ⟨member, bound⟩
      exact (either.mp member).resolve_left fun taken =>
        absurd bound (not_lt.mpr (higher other taken))

/-- A node that leads no lower than itself closes a component. -/
theorem Invariant.leaveClosed (invariant : Settled edges state)
    (working : state.work = (node, []) :: work) (told : ToldUp state node work low)
    (own : state.low node = state.pos node) :
    Settled edges (State.close node { state with work := work, low := low }) := by
  have openIff : ∀ other, State.Open { state with work := work, low := low } other ↔
      state.Open other ∧ other ≠ node := invariant.open_left working
  have nodeOpen := Invariant.open_top working
  have nodeOnStack := invariant.openOnStack node nodeOpen
  have taken := fun other => (invariant.mem_popThrough nodeOnStack other).1
  have left := fun other => (invariant.mem_popThrough nodeOnStack other).2
  obtain ⟨_, workBelow, _⟩ := invariant.top working
  have openBelow : ∀ other, State.Open { state with work := work, low := low } other →
      state.pos other < state.pos node := fun other ⟨rest, member⟩ => workBelow other rest member
  have sorted := invariant.workSorted
  rw [working] at sorted
  have assignedTaken : ∀ other, other ∈ (popThrough node state.stack).1 →
      (State.close node { state with work := work, low := low }).component other =
        some state.groups.length := fun other member => if_pos member
  have assignedElse : ∀ other, other ∉ (popThrough node state.stack).1 →
      (State.close node { state with work := work, low := low }).component other =
        state.component other := fun other member => if_neg member
  have notTaken : ∀ other, (state.component other).isSome →
      other ∉ (popThrough node state.stack).1 := by
    intro other assigned member
    rw [invariant.apart other ((taken other).mp member).1] at assigned
    cases assigned
  have assignedOld : ∀ other number, state.component other = some number →
      (State.close node { state with work := work, low := low }).component other =
        some number := by
    intro other number found
    rw [assignedElse other (notTaken other (Option.isSome_iff_exists.mpr ⟨number, found⟩)), found]
  constructor
  · exact invariant.bounded
  · exact invariant.injective
  · obtain ⟨above, _, whole⟩ := popThrough_spec nodeOnStack
    have stackSorted := invariant.sorted
    rw [whole] at stackSorted
    exact (pairwise_cons.mp (pairwise_append.mp stackSorted).2.1).2
  · exact (pairwise_cons.mp sorted).2
  · intro other
    rw [show State.Entered (State.close node { state with work := work, low := low }) other ↔
      state.Entered other from Iff.rfl, invariant.entered other]
    by_cases member : other ∈ (popThrough node state.stack).1
    · rw [assignedTaken other member]
      exact ⟨fun _ => .inr rfl, fun _ => .inl ((taken other).mp member).1⟩
    · rw [assignedElse other member]
      refine or_congr_left ⟨?_, fun stillOn => ((left other).mp stillOn).1⟩
      intro onStack
      refine (left other).mpr ⟨onStack, Nat.lt_of_not_le fun above => ?_⟩
      exact member ((taken other).mpr ⟨onStack, above⟩)
  · intro other stillOn
    obtain ⟨onStack, under⟩ := (left other).mp stillOn
    rw [assignedElse other fun member => absurd under (not_lt.mpr ((taken other).mp member).2)]
    exact invariant.apart other onStack
  · intro other isOpen
    exact (left other).mpr
      ⟨invariant.openOnStack other ((openIff other).mp isOpen).1, openBelow other isOpen⟩
  · intro other rest member
    exact invariant.suffix other rest (by rw [working]; exact mem_cons_of_mem _ member)
  · intro other stillOn
    obtain ⟨onStack, under⟩ := (left other).mp stillOn
    obtain ⟨openNode, isOpen, bound⟩ := invariant.covered other onStack
    refine ⟨openNode, (openIff openNode).mpr ⟨isOpen, ?_⟩, bound⟩
    rintro rfl
    exact absurd under (not_lt.mpr bound)
  · intro source goal entered followed _
    exact invariant.followed source goal entered
      (@followed_left α edges state node work low invariant working source goal followed) not_false
  · exact fun source stillOn openNode nearest goal goalStillOn followed _ =>
      invariant.lowered_left working told ((left source).mp stillOn).1 nearest
        ((left goal).mp goalStillOn).1 followed
  · exact fun other isOpen above stillOn =>
      invariant.below other ((openIff other).mp isOpen).1 above ((left above).mp stillOn).1
  · intro other isOpen
    obtain ⟨bound, target, onStack, posTarget, leads⟩ :=
      invariant.lowest_left working told ((openIff other).mp isOpen).1
    refine ⟨bound, target, (left target).mpr ⟨onStack, ?_⟩, posTarget, leads⟩
    rw [posTarget]
    exact lt_of_le_of_lt bound (openBelow other isOpen)
  · intro other stillOn notOpen
    obtain ⟨onStack, under⟩ := (left other).mp stillOn
    have notOpenBefore : ¬ state.Open other := by
      intro isOpen
      refine notOpen ((openIff other).mpr ⟨isOpen, ?_⟩)
      rintro rfl
      exact lt_irrefl _ under
    obtain ⟨target, targetOnStack, less, leads⟩ := invariant.back other onStack notOpenBefore
    exact ⟨target, (left target).mpr ⟨targetOnStack, lt_trans less under⟩, less, leads⟩
  · intro other number found target edge
    by_cases member : other ∈ (popThrough node state.stack).1
    · rw [assignedTaken other member] at found
      obtain ⟨onStack, above⟩ := (taken other).mp member
      obtain targetAbove | assigned := invariant.edge_above working own onStack above edge
      · exact ⟨state.groups.length, assignedTaken target ((taken target).mpr targetAbove),
          le_of_eq (Option.some.inj found)⟩
      · obtain ⟨number', found'⟩ := Option.isSome_iff_exists.mp assigned
        refine ⟨number', assignedOld target number' found', ?_⟩
        rw [← Option.some.inj found]
        exact le_of_lt (invariant.numbered target number' found')
    · rw [assignedElse other member] at found
      obtain ⟨number', found', bound⟩ := invariant.closed other number found target edge
      exact ⟨number', assignedOld target number' found', bound⟩
  · intro other other' number found found'
    by_cases member : other ∈ (popThrough node state.stack).1 <;>
      by_cases member' : other' ∈ (popThrough node state.stack).1
    · obtain ⟨onStack, above⟩ := (taken other).mp member
      obtain ⟨onStack', above'⟩ := (taken other').mp member'
      exact (invariant.leads_back working own onStack above).trans
        (invariant.below node nodeOpen other' onStack' above')
    · rw [assignedTaken other member] at found
      rw [assignedElse other' member'] at found'
      have less := invariant.numbered other' number found'
      rw [← Option.some.inj found] at less
      exact absurd less (lt_irrefl _)
    · rw [assignedElse other member] at found
      rw [assignedTaken other' member'] at found'
      have less := invariant.numbered other number found
      rw [← Option.some.inj found'] at less
      exact absurd less (lt_irrefl _)
    · rw [assignedElse other member] at found
      rw [assignedElse other' member'] at found'
      exact invariant.together other other' number found found'
  · intro number group found other
    change (state.groups ++ [(popThrough node state.stack).1])[number]? = some group at found
    by_cases member : other ∈ (popThrough node state.stack).1
    · rw [assignedTaken other member]
      obtain old | ⟨same, sameGroup⟩ := getElem?_append_singleton found
      · refine iff_of_false ?_ ?_
        · intro inside
          rw [invariant.grouped number group old.2] at inside
          exact notTaken other (Option.isSome_iff_exists.mpr ⟨number, inside⟩) member
        · intro sameNumber
          rw [← Option.some.inj sameNumber] at old
          exact absurd old.1 (lt_irrefl _)
      · rw [sameGroup, same]
        exact iff_of_true member rfl
    · rw [assignedElse other member]
      obtain old | ⟨same, sameGroup⟩ := getElem?_append_singleton found
      · exact invariant.grouped number group old.2 other
      · rw [sameGroup]
        refine iff_of_false member ?_
        intro assigned
        have less := invariant.numbered other number assigned
        rw [same] at less
        exact absurd less (lt_irrefl _)
  · intro other number found
    change number < (state.groups ++ [(popThrough node state.stack).1]).length
    rw [length_append, length_singleton]
    by_cases member : other ∈ (popThrough node state.stack).1
    · rw [assignedTaken other member] at found
      rw [← Option.some.inj found]
      exact Nat.lt_succ_self _
    · rw [assignedElse other member] at found
      exact Nat.lt_succ_of_lt (invariant.numbered other number found)

end Popping

end Leaving

/-- The first edge left of the innermost open node is one of the node's edges. -/
theorem Invariant.first_edge {edges : α → List α} {state : State α}
    (invariant : Settled edges state) {node target : α} {rest : List α} {work : List (α × List α)}
    (working : state.work = (node, target :: rest) :: work) : target ∈ edges node := by
  obtain ⟨before, split⟩ := invariant.suffix node (target :: rest)
    (by rw [working]; exact mem_cons_self)
  rw [split]
  exact mem_append_right _ mem_cons_self

section Runs

variable [DecidableEq α] {edges : α → List α} {state : State α}

/-- Leaving a node keeps what was entered and the work there is. -/
theorem leave_frame (node : α) (state : State α) :
    (state.leave node).index = state.index ∧ (state.leave node).work = state.work := by
  have told : (state.passUp node).index = state.index ∧
      (state.passUp node).work = state.work := by
    unfold State.passUp
    split
    · exact ⟨rfl, rfl⟩
    · exact ⟨rfl, rfl⟩
  unfold State.leave
  dsimp only
  split
  · exact told
  · exact told

/-- A node is left closed or on the stack. -/
theorem Invariant.leave (invariant : Settled edges state) {node : α}
    {work : List (α × List α)} (working : state.work = (node, []) :: work) :
    Settled edges (State.leave node { state with work := work }) := by
  obtain ⟨low, told, isTold⟩ := @passUp_eq α state _ node work
  have nodeOpen := Invariant.open_top working
  have entered := invariant.enteredOfMem (invariant.openOnStack node nodeOpen)
  obtain ⟨number, found⟩ := Option.isSome_iff_exists.mp entered
  have posNode : state.pos node = number := congrArg (Option.getD · 0) found
  have sameLow : low node = state.low node := by
    obtain same | ⟨same, _⟩ := isTold.cases node
    · exact same
    · exact same
  unfold State.leave
  rw [told]
  by_cases own : state.low node = state.pos node
  · rw [if_pos]
    · exact invariant.leaveClosed working isTold own
    · change state.index node = some (low node)
      rw [found, sameLow, own, posNode]
  · rw [if_neg]
    · exact invariant.leaveOpen working isTold own
    · change ¬ state.index node = some (low node)
      rw [found, sameLow]
      intro same
      exact own (Option.some.inj same.symm ▸ posNode.symm)

/-- A step keeps every followed edge accounted for. -/
theorem Invariant.step (invariant : Settled edges state) : Settled edges (state.step edges) := by
  unfold State.step
  split
  · exact invariant
  · rename_i node target rest work working
    have advanced := invariant.advance working
    have edge := invariant.first_edge working
    have nodeOpen : state.Open node := ⟨target :: rest, by rw [working]; exact mem_cons_self⟩
    obtain ⟨_, _, highest⟩ := invariant.top working
    have nodeOnStack := invariant.openOnStack node nodeOpen
    dsimp only
    split
    · rename_i fresh
      refine advanced.enter ?_ (fun source goal isPending => isPending.2) ?_
      · intro entered
        rw [State.Entered, State.advanced, fresh] at entered
        cases entered
      · intro other isOpen
        have otherOpen := (open_advanced working other).mp isOpen
        exact (invariant.below other otherOpen node nodeOnStack (highest other otherOpen)).tail edge
    · rename_i number found
      have posTarget : state.pos target = number := congrArg (Option.getD · 0) found
      split
      · rename_i onStack
        rw [← posTarget]
        exact advanced.lower ((open_advanced working node).mpr nodeOpen) onStack (.single edge)
      · rename_i notOnStack
        refine advanced.settleOutside ?_
        rintro source goal ⟨_, rfl⟩
        exact ⟨Option.isSome_iff_exists.mpr ⟨number, found⟩, notOnStack⟩
  · rename_i node work working
    exact invariant.leave working

theorem Invariant.run (invariant : Settled edges state) (fuel : Nat) :
    Settled edges (state.run edges fuel) := by
  induction fuel generalizing state with
  | zero => exact invariant
  | succ fuel ih =>
    unfold State.run
    split
    · exact invariant
    · exact ih invariant.step

/-- The steps a state has before it: the edges of what was not entered and those left of what
is open. -/
def State.remaining (edges : α → List α) (domain : List α) (state : State α) : Nat :=
  (domain.map fun node =>
    if (state.index node).isSome then 0 else (edges node).length + 1).sum +
    (state.work.map fun entry => entry.2.length + 1).sum

/-- Entering a node moves its edges from one sum to the other. -/
theorem remaining_enter {domain : List α} {node : α} (inside : node ∈ domain)
    (fresh : state.index node = none) :
    (state.enter edges node).remaining edges domain ≤ state.remaining edges domain := by
  have unentered : ∀ rest : List α,
      (rest.map fun other => if ((state.enter edges node).index other).isSome then 0
        else (edges other).length + 1).sum ≤
        (rest.map fun other => if (state.index other).isSome then 0
          else (edges other).length + 1).sum ∧
      (node ∈ rest → (rest.map fun other => if ((state.enter edges node).index other).isSome
        then 0 else (edges other).length + 1).sum + ((edges node).length + 1) ≤
        (rest.map fun other => if (state.index other).isSome then 0
          else (edges other).length + 1).sum) := by
    intro rest
    induction rest with
    | nil => exact ⟨Nat.le_refl _, fun member => nomatch member⟩
    | cons first rest ih =>
      obtain ⟨less, lessMore⟩ := ih
      rw [map_cons, map_cons, sum_cons, sum_cons]
      by_cases here : first = node
      · subst here
        have nowEntered : ((state.enter edges first).index first).isSome = true := by
          change (Function.update state.index first _ first).isSome = true
          rw [Function.update_self]
          rfl
        rw [if_pos nowEntered, fresh, zero_add]
        change _ ≤ ((edges first).length + 1) + _ ∧ (_ → _ ≤ ((edges first).length + 1) + _)
        exact ⟨Nat.le_trans less (Nat.le_add_left _ _), fun _ => by
          rw [Nat.add_comm]
          exact Nat.add_le_add_left less _⟩
      · have same : (state.enter edges node).index first = state.index first :=
          Function.update_of_ne here _ _
        rw [same]
        refine ⟨Nat.add_le_add_left less _, ?_⟩
        intro member
        rw [Nat.add_assoc]
        exact Nat.add_le_add_left (lessMore ((mem_cons.mp member).resolve_left (Ne.symm here))) _
  have moved := (unentered domain).2 inside
  unfold State.remaining
  change _ + (((edges node).length + 1) + (state.work.map _).sum) ≤ _
  rw [← Nat.add_assoc]
  exact Nat.add_le_add_right moved _

/-- The open nodes are among those of a domain the edges do not leave. -/
structure Within (edges : α → List α) (domain : List α) (state : State α) : Prop where
  closed : ∀ node ∈ domain, ∀ target ∈ edges node, target ∈ domain
  inside : ∀ node, state.Open node → node ∈ domain

variable {domain : List α}

/-- A step stays in the domain, keeps what was entered, and takes one off what remains. -/
theorem Invariant.step_remaining (invariant : Settled edges state)
    (within : Within edges domain state) (working : state.work ≠ []) :
    Within edges domain (state.step edges) ∧
      (∀ node, state.Entered node → (state.step edges).Entered node) ∧
        (state.step edges).remaining edges domain < state.remaining edges domain := by
  unfold State.step
  split
  · rename_i finished
    exact absurd finished working
  · rename_i node target rest work split
    have nodeInside := within.inside node
      ⟨target :: rest, by rw [split]; exact mem_cons_self⟩
    have targetInside := within.closed node nodeInside target (invariant.first_edge split)
    have advancedWithin : Within edges domain (state.advanced node rest work) :=
      ⟨within.closed, fun other isOpen =>
        within.inside other ((open_advanced split other).mp isOpen)⟩
    have fewer : (state.advanced node rest work).remaining edges domain <
        state.remaining edges domain := by
      unfold State.remaining
      rw [split]
      exact Nat.add_lt_add_left (Nat.add_lt_add_right (Nat.lt_succ_self _) _) _
    dsimp only
    split
    · rename_i fresh
      refine ⟨⟨within.closed, ?_⟩, ?_, ?_⟩
      · intro other isOpen
        obtain rfl | earlier := (open_enter target other).mp isOpen
        · exact targetInside
        · exact advancedWithin.inside other earlier
      · exact fun other entered => (entered_enter target other).mpr (.inr entered)
      · exact lt_of_le_of_lt
          (@remaining_enter α _ edges (state.advanced node rest work) domain target targetInside
            fresh) fewer
    · split
      · exact ⟨⟨within.closed, advancedWithin.inside⟩, fun _ entered => entered, fewer⟩
      · exact ⟨advancedWithin, fun _ entered => entered, fewer⟩
  · rename_i node work split
    obtain ⟨sameIndex, sameWork⟩ := leave_frame node { state with work := work }
    refine ⟨⟨within.closed, ?_⟩, ?_, ?_⟩
    · rintro other ⟨rest, member⟩
      rw [sameWork] at member
      exact within.inside other ⟨rest, by rw [split]; exact mem_cons_of_mem _ member⟩
    · intro other entered
      rw [State.Entered, sameIndex]
      exact entered
    · unfold State.remaining
      rw [sameIndex, sameWork, split]
      exact Nat.add_lt_add_left (Nat.lt_add_of_pos_left (Nat.succ_pos _)) _

/-- A run with enough fuel ends with no work left. -/
theorem Invariant.run_remaining (invariant : Settled edges state)
    (within : Within edges domain state) {fuel : Nat} (enough : state.remaining edges domain ≤ fuel) :
    (state.run edges fuel).work = [] ∧
      ∀ node, state.Entered node → (state.run edges fuel).Entered node := by
  induction fuel generalizing state with
  | zero =>
    refine ⟨?_, fun _ entered => entered⟩
    change state.work = []
    have none := Nat.eq_zero_of_le_zero enough
    cases working : state.work with
    | nil => rfl
    | cons first rest =>
      unfold State.remaining at none
      rw [working, map_cons, sum_cons] at none
      exact absurd (Nat.eq_zero_of_add_eq_zero_left none)
        (ne_of_gt (Nat.add_pos_left (Nat.succ_pos _) _))
  | succ fuel ih =>
    unfold State.run
    split
    · rename_i finished
      exact ⟨finished, fun _ entered => entered⟩
    · rename_i working
      obtain ⟨stepWithin, keeps, fewer⟩ := invariant.step_remaining within working
      obtain ⟨finished, keepsRun⟩ := ih invariant.step stepWithin
        (Nat.le_of_lt_succ (lt_of_lt_of_le fewer enough))
      exact ⟨finished, fun node entered => keepsRun node (keeps node entered)⟩

/-- With nothing on the stack or open, a visit enters the node and ends so again. -/
theorem Invariant.visit (invariant : Settled edges state) (idle : state.work = [])
    (closed : ∀ node ∈ domain, ∀ target ∈ edges node, target ∈ domain) {root : α}
    (inside : root ∈ domain) :
    Settled edges (state.visit edges (budget edges domain) root) ∧
      (state.visit edges (budget edges domain) root).work = [] ∧
        (state.visit edges (budget edges domain) root).Entered root ∧
          ∀ node, state.Entered node →
            (state.visit edges (budget edges domain) root).Entered node := by
  have noneOpen : ∀ other, ¬ state.Open other := by
    rintro other ⟨rest, member⟩
    rw [idle] at member
    cases member
  unfold State.visit
  split
  · rename_i entered
    exact ⟨invariant, idle, entered, fun _ entered => entered⟩
  · rename_i fresh
    have entering : Settled edges (state.enter edges root) :=
      invariant.enter fresh (fun _ _ impossible => impossible.elim)
        (fun other isOpen => absurd isOpen (noneOpen other))
    have within : Within edges domain (state.enter edges root) := by
      refine ⟨closed, ?_⟩
      intro other isOpen
      obtain rfl | earlier := (open_enter root other).mp isOpen
      · exact inside
      · exact absurd earlier (noneOpen other)
    have enough : (state.enter edges root).remaining edges domain ≤ budget edges domain := by
      refine le_trans (remaining_enter inside (Option.not_isSome_iff_eq_none.mp fresh)) ?_
      unfold State.remaining budget
      rw [idle, map_nil, sum_nil, add_zero]
      refine sum_le_sum ?_
      intro node _
      split
      · exact Nat.zero_le _
      · exact le_refl _
    obtain ⟨finished, keeps⟩ := entering.run_remaining within enough
    exact ⟨entering.run _, finished, keeps root ((entered_enter root root).mpr (.inl rfl)),
      fun node entered => keeps node ((entered_enter root node).mpr (.inr entered))⟩

end Runs

section Components

variable {edges : α → List α} {state : State α}

variable {number : Nat}

variable [DecidableEq α]

end Components

end Tarjan

end HermesDecomp
