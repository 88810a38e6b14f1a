import HermesDecomp.Library.DepthFirst

/-!
# The order of the modules

Modules are printed with their dependencies first. The walk keeps its own stack: a module taken
from it is marked and put back below its dependencies, and printed when it comes up again.
-/

namespace HermesDecomp.ModuleOrder

open DepthFirst List

/-- The dependencies of a module, as the registry has them. -/
abbrev Registry := Nat → Option (List Nat)

variable (registry : Registry) (present : List Nat)

/-- The dependencies still to visit, in the order of their ids. -/
def pendingDeps (walk : Walk Nat) (id : Nat) : List Nat :=
  match registry id with
  | none => []
  | some dependencies =>
      (dependencies.filter fun dep => dep ∈ present ∧ dep ∉ walk.visited).mergeSort

/-- Work off the stack. An entry is a module and whether it is to be printed. -/
def emitFrom : (fuel : Nat) → List (Nat × Bool) → Walk Nat → Option (Walk Nat)
  | 0, _, _ => none
  | _ + 1, [], walk => some walk
  | fuel + 1, (id, true) :: stack, walk =>
      emitFrom fuel stack { walk with order := walk.order ++ [id] }
  | fuel + 1, (id, false) :: stack, walk =>
      if id ∈ walk.visited then emitFrom fuel stack walk
      else
        let marked := { walk with visited := id :: walk.visited }
        let deps := pendingDeps registry present marked id
        emitFrom fuel (deps.map (·, false) ++ (id, true) :: stack) marked

/-- Start a walk at every module, in the order of their ids. -/
def topologicalModuleOrder (fuel : Nat) : Option (List Nat) := do
  let roots := present.mergeSort
  let walk ← roots.foldlM (fun walk root =>
    if root ∈ walk.visited then some walk
    else emitFrom registry present fuel [(root, false)] walk) ⟨[], []⟩
  pure (walk.order ++ roots.filter (· ∉ walk.visited))

/-- The listed modules a module depends on. -/
def listedDeps (id : Nat) : List Nat := ((registry id).getD []).filter (· ∈ present)

/-- A module reaches another through dependencies that are listed. -/
def Reaches : Nat → Nat → Prop :=
  Relation.ReflTransGen fun source target => target ∈ listedDeps registry present source

/-- Each dependency comes before the module that has it, or reaches it. -/
def Ordered (order : List Nat) : Prop :=
  ∀ front id back, order = front ++ id :: back → ∀ dep ∈ listedDeps registry present id,
    dep ∈ front ∨ Reaches registry present dep id

variable {registry present}

/-- What holds between the steps of a walk. -/
structure Sound (registry : Registry) (present : List Nat) (walk : Walk Nat) : Prop where
  nodup : walk.order.Nodup
  marked : ∀ id ∈ walk.order, id ∈ walk.visited
  listed : ∀ id ∈ walk.visited, id ∈ present
  ordered : Ordered registry present walk.order

/-- The modules that wait on the stack reach what is visited next. -/
def Waits (registry : Registry) (present : List Nat) (walk : Walk Nat) (next : Nat) : Prop :=
  ∀ id ∈ walk.visited, id ∉ walk.order → Reaches registry present id next

theorem mem_pendingDeps {walk : Walk Nat} {id dep : Nat} :
    dep ∈ pendingDeps registry present walk id ↔
      dep ∈ listedDeps registry present id ∧ dep ∉ walk.visited := by
  cases found : registry id <;> simp [pendingDeps, listedDeps, found, and_assoc]

theorem Ordered.concat {order : List Nat} {last : Nat} (ordered : Ordered registry present order)
    (behind : ∀ dep ∈ listedDeps registry present last,
      dep ∈ order ∨ Reaches registry present dep last) :
    Ordered registry present (order ++ [last]) := by
  intro front id back split
  rcases eq_nil_or_concat back with rfl | ⟨back, final, rfl⟩
  · obtain ⟨rfl, same⟩ := append_inj' split rfl
    obtain rfl := singleton_inj.mp same
    exact behind
  · rw [concat_eq_append, ← cons_append, ← append_assoc] at split
    obtain ⟨same, -⟩ := append_inj' split rfl
    exact ordered front id back same

/-- What waits behind a part of the walk waited before it. -/
theorem Waits.after {before after : Walk Nat} {roots : List Nat} {next : Nat}
    (waits : Waits registry present before next)
    (covers : Covers (listedDeps registry present) roots before after) :
    Waits registry present after next := by
  intro id marked open'
  rw [covers.listed, not_or, not_and_not_right] at open'
  exact waits id (open'.2 marked) open'.1

/-- Working off a run of modules on the stack covers them. -/
theorem emitFrom_covers {bound : Nat} {deps : List Nat} {before : Walk Nat}
    (inside : ∀ dep ∈ deps, dep ∈ present)
    (enough : (unvisited present.toFinset before).card < bound)
    (sound : Sound registry present before)
    (waits : ∀ dep ∈ deps, Waits registry present before dep) :
    ∃ steps after, (∀ fuel stack, emitFrom registry present (steps + fuel)
        (deps.map (·, false) ++ stack) before = emitFrom registry present fuel stack after) ∧
      Covers (listedDeps registry present) deps before after ∧ Sound registry present after := by
  induction bound generalizing deps before with
  | zero => omega
  | succ bound ih =>
    have one : ∀ (dep : Nat) (before : Walk Nat), dep ∈ present →
        (unvisited present.toFinset before).card < bound + 1 → Sound registry present before →
        Waits registry present before dep → ∃ steps after,
          (∀ fuel stack, emitFrom registry present (steps + fuel) ((dep, false) :: stack) before =
            emitFrom registry present fuel stack after) ∧
          Covers (listedDeps registry present) [dep] before after ∧
          Sound registry present after := by
      intro dep before inside enough sound waits
      by_cases marked : dep ∈ before.visited
      · refine ⟨1, before, fun fuel stack => ?_, covers_marked marked, sound⟩
        rw [Nat.add_comm, emitFrom, if_pos marked]
      · obtain ⟨start, isStart⟩ : ∃ start, start = { before with visited := dep :: before.visited } :=
          ⟨_, rfl⟩
        have fewer := unvisited_card_lt (mem_toFinset.mpr inside) marked
        have waiting : Waits registry present start dep := by
          subst isStart
          intro id here unlisted
          rcases mem_cons.mp here with rfl | old
          · exact .refl
          · exact waits id old unlisted
        obtain ⟨steps, after, run, covers, sound'⟩ := @ih (pendingDeps registry present start dep)
          start (fun other member => by
            have listed := (mem_pendingDeps.mp member).1
            simp only [listedDeps, mem_filter, decide_eq_true_eq] at listed
            exact listed.2)
          (by rw [isStart]; omega)
          (by
            subst isStart
            refine ⟨sound.nodup, fun id old => mem_cons_of_mem dep (sound.marked id old), ?_,
              sound.ordered⟩
            simpa [inside] using sound.listed)
          (fun other member id here unlisted =>
            (waiting id here unlisted).tail (mem_pendingDeps.mp member).1)
        have whole : Covers (listedDeps registry present) (listedDeps registry present dep) start
            after := { covers with
          reached := fun other follows => by
            by_cases early : other ∈ start.visited
            · exact covers.kept other early
            · exact covers.reached other (mem_pendingDeps.mpr ⟨follows, early⟩) }
        refine ⟨steps + 2, { after with order := after.order ++ [dep] }, fun fuel stack => ?_,
          (isStart ▸ whole).leave marked, ?_⟩
        · rw [Nat.add_right_comm, emitFrom, if_neg marked, ← isStart, Nat.add_assoc, run, emitFrom]
        · have here : dep ∈ after.visited := covers.kept dep (by simp [isStart])
          have away : dep ∉ after.order := by
            rw [covers.listed, isStart]
            simpa using mt (sound.marked dep) marked
          refine ⟨?_, ?_, sound'.listed, ?_⟩
          · exact concat_eq_append ▸ sound'.nodup.concat away
          · simpa [here, or_imp, forall_and] using sound'.marked
          · refine sound'.ordered.concat fun other follows => ?_
            by_cases early : other ∈ after.order
            · exact .inl early
            · exact .inr (waiting.after covers other (whole.reached other follows) early)
    induction deps generalizing before with
    | nil =>
      exact ⟨0, before, fun fuel stack => by rw [Nat.zero_add]; rfl, covers_nil before, sound⟩
    | cons dep deps restHypothesis =>
      obtain ⟨steps, middle, first, covers, sound'⟩ :=
        one dep before (inside dep mem_cons_self) enough sound (waits dep mem_cons_self)
      obtain ⟨others, after, rest, covers', sound''⟩ := restHypothesis
        (fun other member => inside other (mem_cons_of_mem dep member))
        ((unvisited_card_le covers.kept).trans_lt enough) sound'
        (fun other member => (waits other (mem_cons_of_mem dep member)).after covers)
      refine ⟨steps + others, after, fun fuel stack => ?_, covers.cons covers', sound''⟩
      rw [Nat.add_assoc, map_cons, cons_append, first, rest]

/-- The walks from all roots list what is listed, each module once, and in order. -/
theorem topologicalModuleOrder_sorts (registry : Registry) (present : List Nat) :
    ∃ enough order, (∀ fuel, enough ≤ fuel →
        topologicalModuleOrder registry present fuel = some order) ∧
      order.Nodup ∧ (∀ id, id ∈ order ↔ id ∈ present) ∧ Ordered registry present order := by
  have walks : ∀ (roots : List Nat) (before : Walk Nat), (∀ root ∈ roots, root ∈ present) →
      Sound registry present before → (∀ id ∈ before.visited, id ∈ before.order) →
      ∃ enough after, (∀ fuel, enough ≤ fuel → roots.foldlM (fun walk root =>
          if root ∈ walk.visited then some walk
          else emitFrom registry present fuel [(root, false)] walk) before = some after) ∧
        Sound registry present after ∧ (∀ id ∈ after.visited, id ∈ after.order) ∧
        (∀ id ∈ before.visited, id ∈ after.visited) ∧ ∀ root ∈ roots, root ∈ after.visited := by
    intro roots
    induction roots with
    | nil => exact fun before _ sound closed => ⟨0, before, fun _ _ => rfl, sound, closed, by simp⟩
    | cons root roots ih =>
      intro before inside sound closed
      obtain ⟨steps, middle, ran, covers, sound'⟩ : ∃ steps middle, (∀ fuel, steps ≤ fuel →
          (if root ∈ before.visited then some before
            else emitFrom registry present fuel [(root, false)] before) = some middle) ∧
          Covers (listedDeps registry present) [root] before middle ∧
          Sound registry present middle := by
        by_cases marked : root ∈ before.visited
        · exact ⟨0, before, fun _ _ => if_pos marked, covers_marked marked, sound⟩
        · obtain ⟨steps, middle, run, covers, sound'⟩ := @emitFrom_covers registry present _ [root]
            before (by simpa using inside root mem_cons_self) (Nat.lt_succ_self _) sound
            fun _ _ id marked unlisted => absurd (closed id marked) unlisted
          refine ⟨steps + 1, middle, fun fuel more => ?_, covers, sound'⟩
          obtain ⟨fuel, rfl⟩ := Nat.exists_eq_add_of_le more
          rw [if_neg marked, Nat.add_assoc, Nat.add_comm 1]
          exact run (fuel + 1) []
      have closed' : ∀ id ∈ middle.visited, id ∈ middle.order := by
        intro id marked
        rw [covers.listed]
        by_cases early : id ∈ before.visited
        · exact .inl (closed id early)
        · exact .inr ⟨marked, early⟩
      obtain ⟨enough, after, rest, sound'', closed'', kept, reached⟩ := ih middle
        (fun other member => inside other (mem_cons_of_mem root member)) sound' closed'
      refine ⟨max steps enough, after, fun fuel more => ?_, sound'', closed'',
        fun id old => kept id (covers.kept id old), ?_⟩
      · rw [foldlM_cons, ran fuel (by omega)]
        exact rest fuel (by omega)
      · simpa using ⟨kept root (covers.reached root (by simp)), reached⟩
  obtain ⟨enough, walk, ran, sound, closed, -, reached⟩ := walks present.mergeSort ⟨[], []⟩
    (by simp) ⟨.nil, by simp, by simp, by simp [Ordered]⟩ (by simp)
  refine ⟨enough, walk.order, fun fuel more => ?_, sound.nodup, fun id => ⟨?_, ?_⟩, sound.ordered⟩
  · simp only [topologicalModuleOrder, ran fuel more]
    simpa using reached
  · exact fun member => sound.listed id (sound.marked id member)
  · exact fun member => closed id (reached id (by simpa using member))

end HermesDecomp.ModuleOrder
