import HermesDecomp.Ir.Explore
import HermesDecomp.Transforms.Copies
import HermesDecomp.Transforms.PhasedAgreement

/-!
# What copy propagation keeps

A read that the pass replaces finds the same value as long as no path leads from a write
of the copied register to the read without going through the copy again. The pass
compares sets of definitions, which does not tell this: a register may be written again
after the copy, by a definition that reaches the copy as well, on the way round a loop.
-/

namespace HermesDecomp.Ir

open Action Cfg ReachingDefs List

namespace Cfg

variable (graph : Cfg)

/-- The move completes the statement at a point. -/
def Completes (statement point next : Point) : Prop :=
  point = statement ∧ next = ⟨point.block, point.index + 1⟩

end Cfg

namespace Propagate

/-- A path leads to a point from a write of a register, and does not complete the copy
on the way. -/
inductive Outdated (graph : Cfg) (copy : Copy) : Point → Prop where
  | written {point next : Point} (reachable : graph.Reachable point) (move : Move graph point next)
      (writes : copy.source ∈ graph.otherWritesAt point ∨ ¬ graph.Keeps copy.source point next)
      (apart : ¬ Completes copy.point point next) : Outdated graph copy next
  | kept {point next : Point} (outdated : Outdated graph copy point) (move : Move graph point next)
      (apart : ¬ Completes copy.point point next) : Outdated graph copy next

instance (statement point next : Point) : Decidable (Completes statement point next) :=
  inferInstanceAs (Decidable (_ ∧ _))

/-- The points a copy can be outdated at lie in every list that has where the writes of
its source lead to and is closed under the moves that do not complete the copy. -/
theorem mem_of_outdated {graph : Cfg} {copy : Copy} {point : Point} (reachable : List Point)
    {points : List Point} (outdated : Outdated graph copy point)
    (entry : ⟨graph.entry, 0⟩ ∈ reachable)
    (moves : ∀ point ∈ reachable, ∀ next ∈ graph.moves point, next ∈ reachable)
    (writes : ∀ point ∈ reachable, ∀ next ∈ graph.moves point,
      (copy.source ∈ graph.otherWritesAt point ∨ ¬ graph.Keeps copy.source point next) →
        ¬ Completes copy.point point next → next ∈ points)
    (closed : ∀ point ∈ points, ∀ next ∈ graph.moves point,
      ¬ Completes copy.point point next → next ∈ points) : point ∈ points := by
  induction outdated with
  | written reached move written apart =>
    exact writes _ (mem_of_reachable entry moves reached) _ (mem_moves move) written apart
  | kept _ move apart ih => exact closed _ ih _ (mem_moves move) apart

/-- The definitions of the copied register that are carried to a point are those that
are carried to the copy. -/
def SameSource (graph : Cfg) (copy : Copy) (point : Point) : Prop :=
  ∀ site : DefSite, graph.Reachable site.point → site.register = copy.source →
    (Carried graph site copy.point ↔ Carried graph site point)

/-- Wherever the comparison of definitions lets a copy replace a read, the copied
register still has the value it had at the copy. -/
structure Copyable (graph : Cfg) : Prop where
  /-- No write of the source leads to the read without the copy in between. -/
  fresh : ∀ {copy : Copy} {point : Point}, copy ∈ copies graph →
    copy.target ∈ graph.reachedAt point → SameSource graph copy point → ¬ Outdated graph copy point
  /-- Nothing but the copy writes what the read may find in the target. -/
  single : ∀ {copy : Copy} {point write : Point}, copy ∈ copies graph →
    copy.target ∈ graph.reachedAt point → SameSource graph copy point →
      ¬ Holds graph copy.target (.other write) point
  /-- Where the read stands, neither register is written before everything is read. -/
  inner : ∀ {copy : Copy} {point : Point}, copy ∈ copies graph → graph.Reachable point →
    copy.target ∈ graph.reachedAt point → SameSource graph copy point →
      copy.target ∉ graph.innerWritesAt point ∧ copy.source ∉ graph.innerWritesAt point
  /-- A whole-number key of a statement a copy applies to lies in the range of an index. -/
  fits : ∀ {copy : Copy} {point : Point}, copy ∈ copies graph → graph.Reachable point →
    SameSource graph copy point → ∀ key ∈ graph.keysAt point, FitsKey key

/-- The read of a register at a point was replaced by another register. -/
def Replaced (graph : Cfg) (point : Point) (register source : Nat) : Prop :=
  register ∈ graph.reachedAt point ∧
    activeMap graph (analyze graph) point register = some (.register source)

/-- The two graphs run alike: on every engine that takes numeric keys for indices, and on
every schedule, they are in the same state, and each replaced read finds the value of
the original read. -/
def CopiesKept (graph : Cfg) : Prop :=
  ∀ (host : Host), host.Lawful → ∀ (fuel : Nat) (schedule : List (Option (Interrupt host)))
    (world : host.World),
    let state := graph.run fuel schedule world
    let state' := (propagateCopies graph).run fuel schedule world
    state' = state ∧ ∀ point register source, state.1 = .running point →
      Replaced graph point register source → state'.2.read source = state.2.read register

variable {graph : Cfg} {host : Host}

theorem Statement.copy?_eq_some {point : Point} {statement : Statement} {copy : Copy}
    (made : statement.copy? point = some copy) :
    statement = .assignReg copy.target (.register copy.source) ∧ copy.point = point := by
  unfold Statement.copy? at made
  split at made
  · obtain ⟨⟩ := made
    exact ⟨rfl, rfl⟩
  · exact absurd made.symm (Option.some_ne_none _)

/-- A copy stands at its point, copies another register, and its target has no other
definition. -/
theorem copy_spec {copy : Copy} (member : copy ∈ copies graph) :
    graph.statementAt copy.point = some (.assignReg copy.target (.register copy.source)) ∧
      copy.target ≠ copy.source ∧
      ∀ point, graph.definedAt point = some copy.target → point = copy.point := by
  simp only [copies, mem_flatMap, mem_filter, mem_filterMap, decide_eq_true_eq]
    at member
  obtain ⟨block, _, ⟨⟨statement, index⟩, listed, made⟩, differs, once⟩ := member
  rw [mem_zipIdx_iff_getElem?] at listed
  dsimp only at listed made
  obtain ⟨rfl, same⟩ := Statement.copy?_eq_some made
  have here : graph.statementAt copy.point =
      some (.assignReg copy.target (.register copy.source)) := by
    rw [same]
    exact listed
  refine ⟨here, differs, ?_⟩
  intro point defines
  have atCopy : graph.definedAt copy.point = some copy.target := by
    rw [definedAt, here]
    rfl
  exact eq_of_defCount once defines atCopy

/-- A copy applies only where the definitions of its source are those at the copy. -/
theorem sameSource_of_active {copy : Copy} {point : Point}
    (inside : point.index ≤ (graph.statements point.block).length)
    (member : copy ∈ active graph (analyze graph) point) :
    copy ∈ copies graph ∧ SameSource graph copy point := by
  simp only [active, mem_filter, decide_eq_true_eq] at member
  obtain ⟨listed, sets⟩ := member
  refine ⟨listed, ?_⟩
  have inside' : copy.point.index ≤ (graph.statements copy.point.block).length := by
    have here := (copy_spec listed).1
    exact le_of_lt (List.getElem?_eq_some_iff.mp here).1
  intro site reachable same
  have sites : site ∈ reachingOf graph (analyze graph) point copy.source ↔
      site ∈ reachingOf graph (analyze graph) copy.point copy.source := by rw [sets]
  simp only [reachingOf, Finset.mem_filter, same, and_true] at sites
  constructor
  · intro carried
    exact carried_of_mem inside (sites.mpr (mem_of_carried carried reachable).2.2)
  · intro carried
    exact carried_of_mem inside' (sites.mp (mem_of_carried carried reachable).2.2)

/-- What replaces a read is the source of a copy that applies. -/
theorem activeMap_eq_some {facts : ReachingDefs} {point : Point} {register : Nat}
    {expression : Expression} (found : activeMap graph facts point register = some expression) :
    ∃ copy ∈ active graph facts point, copy.target = register ∧
      expression = .register copy.source := by
  obtain ⟨copy, selected, rfl⟩ := Option.map_eq_some_iff.mp found
  have matched := List.find?_some selected
  rw [decide_eq_true_eq] at matched
  exact ⟨copy, mem_of_find?_eq_some selected, matched, rfl⟩

/-- Where nothing wrote the source of a copy since, the source holds what the copy gave
its target. -/
def Fresh (graph : Cfg) (point : Point) (machine : Machine host) : Prop :=
  ∀ copy ∈ copies graph, ∀ value,
    machine.registers copy.target = some ⟨value, .definition copy.point⟩ →
      ¬ Outdated graph copy point → machine.read copy.source = value

theorem Fresh.step {fuel : Nat} {interrupt : Option (Interrupt host)} {point next : Point}
    {machine machine' : Machine host} (traced : graph.Traced point machine)
    (fresh : Fresh graph point machine)
    (stepped : graph.step fuel interrupt (.running point, machine) = (.running next, machine')) :
    Fresh graph next machine' := by
  rcases step_spec traced.inside stepped with ⟨rfl, rfl⟩ | ⟨move, touched⟩
  · exact fresh
  · intro copy listed value found current
    obtain ⟨here, differs, only⟩ := copy_spec listed
    by_cases completes : Completes copy.point point next
    · obtain ⟨rfl, rfl⟩ := completes
      obtain ⟨content, middle, ran, rfl⟩ := step_assigned here stepped
      obtain ⟨⟩ := ran
      rw [Machine.write_self] at found
      have isValue := congrArg Cell.value (Option.some.inj found)
      dsimp only at isValue
      subst isValue
      apply Machine.read_congr
      rw [Machine.write_of_ne differs.symm]
    · have earlier : ¬ Outdated graph copy point :=
        fun outdated => current (.kept outdated move completes)
      have sameTarget : machine.registers copy.target = some ⟨value, .definition copy.point⟩ := by
        cases touched copy.target with
        | kept _ same => rw [← same, found]
        | other _ _ content holds =>
          rw [found] at holds
          exact absurd (congrArg Cell.writer (Option.some.inj holds)) (by simp)
        | defined isNext defines content holds =>
          exact absurd ⟨only point defines, isNext⟩ completes
      have sameSource : machine'.registers copy.source = machine.registers copy.source := by
        cases touched copy.source with
        | kept _ same => exact same
        | other _ writes => exact absurd (.written traced.reachable move (.inl writes) completes) current
        | defined isNext defines =>
          have ends : ¬ graph.Keeps copy.source point next := fun keeps => keeps isNext defines
          exact absurd (.written traced.reachable move (.inr ends) completes) current
      rw [Machine.read_congr sameSource]
      exact fresh copy listed value sameTarget earlier

/-- Where a copy replaces a read, its target and its source hold the same value. -/
theorem Fresh.read_eq (defined : ReadsDefined graph) (copyable : Copyable graph) {point : Point}
    {machine : Machine host} (traced : graph.Traced point machine)
    (fresh : Fresh graph point machine) {copy : Copy} (listed : copy ∈ copies graph)
    (same : SameSource graph copy point) (reached : copy.target ∈ graph.reachedAt point)
    (read : copy.target ∈ graph.readsAt point) :
    machine.read copy.source = machine.read copy.target := by
  have notOther : ∀ write, ¬ Holds graph copy.target (.other write) point :=
    fun _ => copyable.single listed reached same
  cases found : machine.registers copy.target with
  | none =>
    rcases traced.unset copy.target found with unset | ⟨write, holds⟩
    · exact absurd unset (defined point copy.target read)
    · exact absurd holds (notOther write)
  | some cell =>
    have holds := traced.holds copy.target cell found
    rcases cell with ⟨value, definition | write⟩
    · have isCopy : definition = copy.point :=
        (copy_spec listed).2.2 definition (holds.writer.1 _ rfl).2
      subst isCopy
      have current := fresh copy listed value found (copyable.fresh listed reached same)
      rw [current, Machine.read, found]
    · exact absurd holds (notOther write)

/-- Two equal machines in which every replaced read finds its value. -/
def Copied (graph : Cfg) (point : Point) (machine machine' : Machine host) : Prop :=
  machine = machine' ∧ ∀ copy ∈ active graph (analyze graph) point,
    copy.target ∈ graph.reachedAt point → machine.read copy.source = machine.read copy.target

theorem compatible_copied (point : Point) :
    Compatible (Copied graph point : Machine host → Machine host → Prop) where
  world := by
    rintro machine _ ⟨rfl, _⟩
    rfl
  update := by
    rintro machine _ ⟨rfl, same⟩ world
    exact ⟨rfl, same⟩

/-- Replacing registers by registers makes no key a whole number. -/
theorem fitsKey_substitute {facts : ReachingDefs} {point : Point} {key : Expression}
    (fits : FitsKey key) : FitsKey (key.substitute (activeMap graph facts point)) := by
  cases key with
  | value value =>
    cases value with
    | binding place =>
      cases place with
      | register register =>
        rw [Expression.substitute]
        cases found : activeMap graph facts point register with
        | none => trivial
        | some expression =>
          obtain ⟨copy, _, _, rfl⟩ := activeMap_eq_some found
          trivial
      | _ => trivial
    | constant => exact fits
    | _ => trivial
  | _ => trivial

theorem substitutes_copied (copyable : Copyable graph) {point : Point}
    (reachable : graph.Reachable point)
    (inside : point.index ≤ (graph.statements point.block).length)
    (applies : active graph (analyze graph) point ≠ []) {reads writes copied : List Nat}
    {keys : List Expression} (areWritten : writes ⊆ graph.innerWritesAt point)
    (areReached : copied ⊆ graph.reachedAt point) (areKeys : keys ⊆ graph.keysAt point) :
    Substitutes (Copied graph point : Machine host → Machine host → Prop)
      (activeMap graph (analyze graph) point) reads writes copied keys where
  toCompatible := compatible_copied point
  read := by
    rintro register _ machine _ ⟨rfl, _⟩
    rfl
  write := by
    rintro register member value machine _ ⟨rfl, same⟩
    refine ⟨rfl, ?_⟩
    intro copy listed reached
    obtain ⟨isCopy, sameSource⟩ := sameSource_of_active inside listed
    obtain ⟨notTarget, notSource⟩ := copyable.inner isCopy reachable reached sameSource
    have target : copy.target ≠ register := by
      rintro rfl
      exact notTarget (areWritten member)
    have source : copy.source ≠ register := by
      rintro rfl
      exact notSource (areWritten member)
    have keptTarget : (machine.write register value).read copy.target = machine.read copy.target :=
      Machine.read_congr (Machine.write_of_ne target value machine)
    have keptSource : (machine.write register value).read copy.source = machine.read copy.source :=
      Machine.read_congr (Machine.write_of_ne source value machine)
    rw [keptTarget, keptSource]
    exact same copy listed reached
  copy := by
    intro register member expression found
    obtain ⟨copy, listed, rfl, rfl⟩ := activeMap_eq_some found
    rintro machine _ ⟨rfl, same⟩
    have equal := same copy listed (areReached member)
    exact ⟨congrArg Outcome.ok equal.symm, rfl, same⟩
  fits := by
    intro key member
    obtain ⟨copy, listed⟩ := exists_mem_of_ne_nil _ applies
    obtain ⟨isCopy, sameSource⟩ := sameSource_of_active inside listed
    exact fitsKey_substitute (copyable.fits isCopy reachable sameSource key (areKeys member))

theorem Copied.of_fresh (defined : ReadsDefined graph) (copyable : Copyable graph) {point : Point}
    {machine : Machine host} (traced : graph.Traced point machine)
    (fresh : Fresh graph point machine) (writer : Writer) :
    Copied graph point { machine with writer } { machine with writer } := by
  refine ⟨rfl, ?_⟩
  intro copy listed reached
  obtain ⟨isCopy, sameSource⟩ := sameSource_of_active traced.inside listed
  have read := graph.reachedAt_subset point reached
  exact fresh.read_eq defined copyable traced isCopy sameSource reached read

variable (graph) in
/-- The graph after the substitution of copies. -/
def copiedGraph : Cfg :=
  { graph with
    blocks := graph.blocks.zipIdx.map fun item => copyBlock graph (analyze graph) item.2 item.1 }

theorem get_copiedGraph (id : BlockId) :
    (copiedGraph graph).get id = (graph.get id).map (copyBlock graph (analyze graph) id) := by
  rw [Cfg.get, Cfg.get, copiedGraph, List.getElem?_map, List.getElem?_zipIdx]
  cases graph.blocks[id]? <;> simp

/-- What stands at a point does with copies substituted what it did. -/
theorem perform_copiedGraph (defined : ReadsDefined graph) (copyable : Copyable graph)
    (lawful : host.Lawful) (fuel : Nat) {point : Point} {machine : Machine host}
    (traced : graph.Traced point machine) (fresh : Fresh graph point machine) :
    (copiedGraph graph).perform fuel point machine = graph.perform fuel point machine := by
  have start := Copied.of_fresh defined copyable traced fresh (.other point)
  have identical : ∀ machine machine' : Machine host, Copied graph point machine machine' →
      machine = machine' := fun _ _ copied => copied.1
  simp only [Cfg.perform, get_copiedGraph]
  cases found : graph.get point.block with
  | none => rfl
  | some block =>
    have here := statementAt_of_get found
    have sameLength : graph.statements point.block = block.statements := by rw [statements, found]
    dsimp only [Option.map_some, copyBlock]
    rw [List.getElem?_map, List.getElem?_zipIdx]
    cases present : block.statements[point.index]? with
    | some statement =>
      rw [present] at here
      simp only [Option.map_some, zero_add]
      have samePoint : copyStatement graph (analyze graph) ⟨point.block, point.index⟩ statement =
          copyStatement graph (analyze graph) point statement := rfl
      rw [samePoint, copyStatement]
      split
      · rfl
      · rename_i applies
        rw [List.isEmpty_iff] at applies
        have substitutes : Substitutes (Copied graph point : Machine host → Machine host → Prop)
            (activeMap graph (analyze graph) point) statement.reads statement.innerWrites
            (statement.reached copiedSpots) (statement.reached keySpots) :=
          substitutes_copied copyable traced.reachable traced.inside applies
            (by rw [innerWritesAt, here]; exact List.Subset.refl _)
            (by rw [reachedAt, here]; exact List.Subset.refl _)
            (by rw [keysAt, here]; exact List.Subset.refl _)
        rw [statement.executeAt_substitute lawful fuel point identical substitutes start]
        rfl
    | none =>
      rw [present] at here
      simp only [Option.map_none]
      have isLast := index_eq_length traced.inside here
      have sameTerminator : graph.terminator point.block = block.terminator := by
        rw [terminator, found]
      have samePoint : (⟨point.block, block.statements.length⟩ : Point) = point := by
        rw [← sameLength, ← isLast]
      rw [samePoint]
      split
      · rfl
      · rename_i applies
        rw [List.isEmpty_iff] at applies
        have substitutes : Substitutes (Copied graph point : Machine host → Machine host → Prop)
            (activeMap graph (analyze graph) point) block.terminator.reads block.terminator.writes
            (block.terminator.reached copiedSpots) (block.terminator.reached keySpots) :=
          substitutes_copied copyable traced.reachable traced.inside applies
            (by rw [innerWritesAt, here, sameTerminator]; exact List.Subset.refl _)
            (by rw [reachedAt, here, sameTerminator]; exact List.Subset.refl _)
            (by rw [keysAt, here, sameTerminator]; exact List.Subset.refl _)
        obtain ⟨same, finish⟩ := block.terminator.agree_substitute lawful substitutes _ _ start
        have equal : Terminator.execute
            (block.terminator.substitute (activeMap graph (analyze graph) point))
              { machine with writer := .other point } =
            Terminator.execute block.terminator { machine with writer := .other point } :=
          Prod.ext same.symm (identical _ _ finish).symm
        rw [bind_apply, bind_apply]
        dsimp only [setWriter]
        rw [equal]
        rfl

theorem run_copiedGraph (defined : ReadsDefined graph) (copyable : Copyable graph)
    (lawful : host.Lawful) (fuel : Nat) (schedule : List (Option (Interrupt host)))
    (world : host.World) :
    (copiedGraph graph).run fuel schedule world = graph.run fuel schedule world ∧
      ∀ point, (graph.run fuel schedule world).1 = .running point →
        graph.Traced point (graph.run fuel schedule world).2 ∧
          Fresh graph point (graph.run fuel schedule world).2 := by
  let related : Status host × Machine host → Status host × Machine host → Prop :=
    fun state state' => state' = state ∧ ∀ point, state.1 = .running point →
      graph.Traced point state.2 ∧ Fresh graph point state.2
  have simulated : related (graph.run fuel schedule world)
      ((copiedGraph graph).run fuel schedule world) := by
    apply run_simulation
    · refine ⟨rfl, ?_⟩
      rintro point ⟨⟩
      refine ⟨traced_start world, ?_⟩
      intro copy _ value found
      exact absurd found.symm (Option.some_ne_none _)
    · rintro interrupt ⟨status, machine⟩ _ ⟨rfl, holds⟩
      cases status with
      | running point =>
        obtain ⟨traced, fresh⟩ := holds point rfl
        refine ⟨?_, ?_⟩
        · cases interrupt with
          | some exception => rfl
          | none => exact perform_copiedGraph defined copyable lawful fuel traced fresh
        · intro next running
          have stepped : graph.step fuel interrupt (.running point, machine) =
              (.running next, (graph.step fuel interrupt (.running point, machine)).2) :=
            Prod.ext running rfl
          exact ⟨traced.step stepped, fresh.step traced stepped⟩
      | finished exit => exact ⟨rfl, fun _ running => nomatch running⟩
      | stopped => exact ⟨rfl, fun _ running => nomatch running⟩
  exact simulated

/-- **Copy propagation keeps the values of the reads it replaces.** For every graph whose
reads are all preceded by a definition, and in which nothing writes the source of a copy
between the copy and a read the comparison of definitions lets it replace, each run goes
through the same states, and each replaced read finds what the original read finds. -/
theorem propagateCopies_copiesKept (graph : Cfg) (defined : ReadsDefined graph)
    (copyable : Copyable graph) : CopiesKept graph := by
  intro host lawful fuel schedule world
  rw [propagateCopies]
  dsimp only
  split
  · rename_i noCopies
    refine ⟨rfl, ?_⟩
    rintro point register source _ ⟨_, replaced⟩
    obtain ⟨copy, listed, _⟩ := activeMap_eq_some replaced
    have isCopy := mem_of_mem_filter listed
    rw [isEmpty_iff.mp noCopies] at isCopy
    cases isCopy
  · obtain ⟨same, holds⟩ := run_copiedGraph defined copyable lawful fuel schedule world
    change (copiedGraph graph).run fuel schedule world = _ ∧ ∀ _ _ _, _ → _ →
      ((copiedGraph graph).run fuel schedule world).2.read _ = _
    refine ⟨same, ?_⟩
    rintro point register source running ⟨reached, replaced⟩
    obtain ⟨traced, fresh⟩ := holds point running
    obtain ⟨copy, listed, rfl, isSource⟩ := activeMap_eq_some replaced
    obtain rfl : source = copy.source := by
      injection isSource with isValue
      injection isValue with isBinding
      injection isBinding
    rw [same]
    exact (Copied.of_fresh defined copyable traced fresh
      (graph.run fuel schedule world).2.writer).2 copy listed reached

/-- A loop whose counter is saved in one block and increased in another. -/
def savedCounter : Cfg where
  entry := 0
  blocks := [ ⟨[.assignReg 5 (.value (.constant (.integer 0)))], .jump 1⟩,
    ⟨[.assignReg 0 (.register 5)], .jump 2⟩,
    ⟨[.assignReg 5 (.binary .add (.register 0) (.value (.constant (.integer 1))))],
      .branch (.binary .lt (.register 5) (.value (.constant (.integer 10)))) 1 3⟩,
    ⟨[], .returnTerm (some (.register 5))⟩]
  exceptionHandlers := []

theorem savedCounter_otherWrites (point : Point) : savedCounter.otherWritesAt point = [] := by
  rcases point with ⟨_ | _ | _ | _ | block, _ | _ | index⟩ <;> rfl

theorem savedCounter_keys (point : Point) : savedCounter.keysAt point = [] := by
  rcases point with ⟨_ | _ | _ | _ | block, _ | _ | index⟩ <;> rfl

theorem savedCounter_copyable : Copyable savedCounter := by
  have only : copies savedCounter = [⟨0, 5, ⟨1, 0⟩⟩] := by decide +kernel
  have notWritten : ∀ {register : Nat} {point : Point},
      register ∉ savedCounter.otherWritesAt point := by
    intro register point
    rw [savedCounter_otherWrites]
    exact not_mem_nil
  constructor
  · intro copy point listed reached _ outdated
    rw [only, mem_singleton] at listed
    subst listed
    have there : point ∈ ([⟨0, 1⟩, ⟨1, 0⟩, ⟨2, 1⟩, ⟨3, 0⟩] : List Point) := by
      apply mem_of_outdated (savedCounter.found 8) outdated
      · decide +kernel
      · decide +kernel
      · decide +kernel
      · decide +kernel
    have unreached : ∀ point ∈ ([⟨0, 1⟩, ⟨1, 0⟩, ⟨2, 1⟩, ⟨3, 0⟩] : List Point),
        0 ∉ savedCounter.reachedAt point := by decide +kernel
    exact unreached point there reached
  · intro copy point write _ _ _ holds
    exact notWritten (holds.writer.2 write rfl).2
  · intro copy point _ _ _ _
    exact ⟨fun member => notWritten (savedCounter.innerWritesAt_subset point member),
      fun member => notWritten (savedCounter.innerWritesAt_subset point member)⟩
  · intro copy point _ _ _ key member
    rw [savedCounter_keys] at member
    cases member

theorem savedCounter_copiesKept : CopiesKept savedCounter :=
  propagateCopies_copiesKept savedCounter
    (readsDefined_of_explored 8 (by decide +kernel) (by decide +kernel) (by decide +kernel))
    savedCounter_copyable

/-- A loop that copies a register and then, in one of its branches, defines the register
again before the copy is read. -/
def redefined : Cfg where
  entry := 0
  blocks := [ ⟨[.assignReg 1 (.value (.constant (.integer 1)))], .jump 1⟩,
    ⟨[.assignReg 0 (.register 1)], .branch (.value (.constant (.bool true))) 2 3⟩,
    ⟨[.assignReg 1 (.value (.constant (.integer 2)))], .jump 3⟩,
    ⟨[.expr (.call (.value .global) [.register 0])],
      .branch (.value (.constant (.bool false))) 1 4⟩,
    ⟨[], .returnTerm none⟩]
  exceptionHandlers := []

/-- Both definitions of the copied register reach the copy, round the loop, and both reach the read
behind the branch. -/
theorem not_propagateCopies_copiesKept :
    ¬ ∀ graph : Cfg, ReadsDefined graph → CopiesKept graph := by
  intro all
  have defined : ReadsDefined redefined :=
    readsDefined_of_explored 8 (by decide +kernel) (by decide +kernel) (by decide +kernel)
  have kept := (all redefined defined Tracing.host Tracing.lawful 0
    [none, none, none, none, none, none] Tracing.blank).2 ⟨3, 0⟩ 0 1 rfl
  have replaced : Replaced redefined ⟨3, 0⟩ 0 1 := by
    refine ⟨by decide +kernel, ?_⟩
    have isCopy : active redefined (analyze redefined) ⟨3, 0⟩ = [⟨0, 1, ⟨1, 0⟩⟩] := by
      decide +kernel
    rw [activeMap, isCopy]
    rfl
  have original : Tracing.valueOf (redefined.run 0 [none, none, none, none, none, none]
      Tracing.blank).2 0 = .integer 1 := by decide +kernel
  have copied : Tracing.valueOf ((propagateCopies redefined).run 0
      [none, none, none, none, none, none] Tracing.blank).2 1 = .integer 2 := by decide +kernel
  have different : (Constant.integer 2) ≠ Constant.integer 1 := by decide
  exact different (copied.symm.trans ((kept replaced).trans original))

end Propagate

end HermesDecomp.Ir
