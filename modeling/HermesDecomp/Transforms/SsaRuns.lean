import HermesDecomp.Ir.Steps
import HermesDecomp.Transforms.SsaClasses

/-!
# Runs of a graph and of its split form

On one schedule, a graph and its split form go through the same points with the same
world, and every read finds the same content, written by the same definition, as long
as every read may find only what the pass looks for.
-/

namespace HermesDecomp.Ir

namespace Ssa

open ReachingDefs Cfg

/-- Every read may find only what the pass looks for. -/
structure Splittable (graph : Cfg) : Prop where
  /-- A definition whose value a read may find is carried to it between the starts and
  the ends of blocks. -/
  carried : ∀ {definition : Point} {register : Nat} {point : Point},
    Holds graph register (.definition definition) point → register ∈ graph.valueReadsAt point →
      Carried graph ⟨definition.block, definition.index, register⟩ point
  /-- No definition is carried to a read that may find what something else wrote. -/
  apart : ∀ {write : Point} {register : Nat} {point : Point},
    Holds graph register (.other write) point → register ∈ graph.valueReadsAt point →
      ∀ site : DefSite, site.register = register → ¬ Carried graph site point
  /-- No definition is carried to a read that may come after another write at the same
  point. -/
  inner : ∀ {register : Nat} {point : Point}, graph.Reachable point →
    register ∈ graph.innerWritesAt point → register ∈ graph.valueReadsAt point →
      ∀ site : DefSite, site.register = register → ¬ Carried graph site point
  /-- A test of a switch does not find what a definition wrote. -/
  tests : ∀ {definition : Point} {register : Nat} {point : Point}, graph.Reachable point →
    register ∈ graph.testReadsAt point → ¬ Holds graph register (.definition definition) point
  /-- A register that keeps its number is not the number of a live range. -/
  spare : ∀ {register : Nat} {point : Point}, graph.Reachable point →
    (register ∈ graph.otherWritesAt point ∨ register ∈ graph.testReadsAt point ∨
      (register ∈ graph.valueReadsAt point ∧ ∀ site : DefSite, site.register = register →
        graph.Reachable site.point → ¬ Carried graph site point)) → Spare graph register

variable {graph : Cfg} {order : SiteOrder} {host : Host}

variable (graph order) in
/-- What the reads at a point are renamed to. -/
def renamed (point : Point) : Nat → Nat :=
  readMap graph order (analyze graph) (liveRanges graph order (analyze graph)) point

theorem renamed_of_nil {point : Point} {register : Nat}
    (none : currentAt graph order (analyze graph) point register = []) :
    renamed graph order point register = register := by
  simp [renamed, readMap, none]

theorem terminator_of_not_mem {block : BlockId} (outside : block ∉ graph.blockIds) :
    graph.terminator block = .none := by
  rw [Cfg.mem_blockIds] at outside
  have missing : graph.get block = none := List.getElem?_eq_none (Nat.le_of_not_lt outside)
  simp [terminator, missing]

section

variable {point : Point} {register : Nat}
  (inside : point.index ≤ (graph.statements point.block).length)

include inside

/-- The definitions gone over at a read meet there. -/
theorem currentAt_mem_meetings (read : register ∈ graph.valueReadsAt point) (facts : ReachingDefs) :
    currentAt graph order facts point register ∈ meetings graph order facts := by
  have known : point.block ∈ graph.blockIds := by
    by_contra outside
    have noTerminator := terminator_of_not_mem outside
    have noStatement : graph.statementAt point = none := by
      rw [Cfg.mem_blockIds] at outside
      have missing : graph.get point.block = none :=
        List.getElem?_eq_none (Nat.le_of_not_lt outside)
      simp [statementAt, statements, missing]
    simp [valueReadsAt, noStatement, noTerminator, Terminator.valueReads] at read
  rw [meetings, List.mem_flatMap]
  refine ⟨point.block, known, ?_⟩
  rw [valueReadsAt] at read
  rw [List.mem_append]
  cases present : graph.statementAt point with
  | some statement =>
    rw [present] at read
    left
    rw [List.mem_flatMap]
    refine ⟨(statement, point.index), ?_, List.mem_map_of_mem read⟩
    rw [List.mem_zipIdx_iff_getElem?]
    exact present
  | none =>
    rw [present] at read
    right
    have isLast := index_eq_length inside present
    rw [← isLast]
    exact List.mem_map_of_mem read

/-- A read resolves to the number of every definition the analysis finds there. -/
theorem renamed_of_mem {site : DefSite} (read : register ∈ graph.valueReadsAt point)
    (member : site ∈ currentAt graph order (analyze graph) point register) :
    site ∈ definitions graph ∧ renamed graph order point register = version graph order site := by
  have known : ∀ site ∈ currentAt graph order (analyze graph) point register,
      site ∈ definitions graph := by
    intro site member
    exact mem_definitions.mpr (carried_of_mem inside (mem_currentAt.mp member).1).defines
  refine ⟨known site member, ?_⟩
  cases listed : currentAt graph order (analyze graph) point register with
  | nil =>
    rw [listed] at member
    cases member
  | cons first rest =>
    have isFirst : first ∈ currentAt graph order (analyze graph) point register := by
      rw [listed]
      exact List.mem_cons_self
    have resolved : renamed graph order point register = version graph order first := by
      rw [renamed, readMap, listed, List.head?_cons, Option.bind_some,
        versionOf_of_mem (known first isFirst), Option.getD_some]
    rw [resolved]
    exact version_of_meeting (currentAt_mem_meetings inside read _) isFirst member
      (known first isFirst) (known site member)

/-- Where no definition is carried, a read keeps its register. -/
theorem renamed_of_apart
    (apart : ∀ site : DefSite, site.register = register → ¬ Carried graph site point) :
    renamed graph order point register = register := by
  apply renamed_of_nil
  rw [List.eq_nil_iff_forall_not_mem]
  intro site member
  obtain ⟨found, same⟩ := mem_currentAt.mp member
  exact apart site same (carried_of_mem inside found)

/-- A renamed read is either unchanged or in the range of the live ranges. -/
theorem renamed_eq_or (read : register ∈ graph.valueReadsAt point) :
    renamed graph order point register = register ∨
      ¬ Spare graph (renamed graph order point register) := by
  cases listed : currentAt graph order (analyze graph) point register with
  | nil => exact .inl (renamed_of_nil listed)
  | cons first rest =>
    right
    have isFirst : first ∈ currentAt graph order (analyze graph) point register := by
      rw [listed]
      exact List.mem_cons_self
    obtain ⟨member, resolved⟩ := renamed_of_mem inside read isFirst
    rw [resolved]
    exact version_not_spare member

end

/-- Where the second machine keeps what a register of the first one holds. -/
inductive Matches (graph : Cfg) (order : SiteOrder) (registers : Nat → Option (Cell host.Val))
    (register : Nat) : Option (Cell host.Val) → Prop where
  | unwritten
      (versions : ∀ site ∈ definitions graph, site.register = register →
        registers (version graph order site) = none)
      (own : Spare graph register → registers register = none) :
      Matches graph order registers register none
  | defined (site : DefSite) (member : site ∈ definitions graph) (same : site.register = register)
      (value : host.Val)
      (found : registers (version graph order site) = some ⟨value, .definition site.point⟩) :
      Matches graph order registers register (some ⟨value, .definition site.point⟩)
  | other (point : Point) (value : host.Val) (spare : Spare graph register)
      (found : registers register = some ⟨value, .other point⟩) :
      Matches graph order registers register (some ⟨value, .other point⟩)

/-- The second machine keeps what the first one holds, each value in its place. -/
structure Versions (graph : Cfg) (order : SiteOrder) (machine machine' : Machine host) : Prop where
  world : machine.world = machine'.world
  places : ∀ register, Matches graph order machine'.registers register (machine.registers register)

theorem compatible_versions :
    Compatible (Versions graph order : Machine host → Machine host → Prop) where
  world versions := versions.world
  update versions _ := ⟨rfl, versions.places⟩

/-- A write to a register that keeps its number keeps the values in place. -/
theorem Versions.write_other {machine machine' : Machine host} {point : Point}
    (versions : Versions graph order machine machine') (writer : machine.writer = .other point)
    (writer' : machine'.writer = .other point) {register : Nat} (spare : Spare graph register)
    (value : host.Val) :
    Versions graph order (machine.write register value) (machine'.write register value) := by
  refine ⟨versions.world, ?_⟩
  intro other
  have away : ∀ site ∈ definitions graph, version graph order site ≠ register := by
    rintro site member rfl
    exact version_not_spare member spare
  by_cases here : other = register
  · subst here
    rw [Machine.write_self, writer]
    apply Matches.other point value spare
    rw [Machine.write_self, writer']
  · rw [Machine.write_of_ne here]
    have place := versions.places other
    cases found : machine.registers other with
    | none =>
      rw [found] at place
      cases place with
      | unwritten unset own =>
        apply Matches.unwritten
        · intro site member same
          rw [Machine.write_of_ne (away site member)]
          exact unset site member same
        · intro spare
          rw [Machine.write_of_ne here]
          exact own spare
    | some cell =>
      rw [found] at place
      cases place with
      | defined site member same content holds =>
        apply Matches.defined site member same content
        rw [Machine.write_of_ne (away site member)]
        exact holds
      | other place content own holds =>
        apply Matches.other place content own
        rw [Machine.write_of_ne here]
        exact holds

/-- A definition writes the register it was given where the original writes its own. -/
theorem Versions.write_definition {machine machine' : Machine host}
    (versions : Versions graph order machine machine')
    {site : DefSite} (member : site ∈ definitions graph) (value : host.Val) :
    Versions graph order
      ({ machine with writer := .definition site.point }.write site.register value)
      ({ machine' with writer := .definition site.point }.write (version graph order site) value) := by
  refine ⟨versions.world, ?_⟩
  intro other
  by_cases here : other = site.register
  · subst here
    rw [Machine.write_self]
    apply Matches.defined site member rfl value
    rw [Machine.write_self]
  · rw [Machine.write_of_ne here]
    have away : ∀ site' ∈ definitions graph, site'.register = other →
        version graph order site' ≠ version graph order site := by
      intro site' member' same equal
      exact here (same.symm.trans (register_of_version member' member equal))
    have notVersion : Spare graph other → other ≠ version graph order site := by
      rintro spare rfl
      exact version_not_spare member spare
    have place := versions.places other
    cases found : machine.registers other with
    | none =>
      rw [found] at place
      cases place with
      | unwritten unset own =>
        apply Matches.unwritten
        · intro site' member' same
          rw [Machine.write_of_ne (away site' member' same)]
          exact unset site' member' same
        · intro spare
          rw [Machine.write_of_ne (notVersion spare)]
          exact own spare
    | some cell =>
      rw [found] at place
      cases place with
      | defined site' member' same content holds =>
        apply Matches.defined site' member' same content
        rw [Machine.write_of_ne (away site' member' same)]
        exact holds
      | other place content own holds =>
        apply Matches.other place content own
        rw [Machine.write_of_ne (notVersion own)]
        exact holds

/-- What a register of the first machine holds, a read of it finds in the second one. -/
theorem Versions.found {machine machine' : Machine host} {point : Point}
    (splittable : Splittable graph) (traced : graph.Traced point machine)
    (versions : Versions graph order machine machine') {register : Nat}
    (read : register ∈ graph.valueReadsAt point) :
    machine.registers register = machine'.registers (renamed graph order point register) := by
  have place := versions.places register
  cases found : machine.registers register with
  | none =>
    rw [found] at place
    cases place with
    | unwritten unset own =>
      cases listed : currentAt graph order (analyze graph) point register with
      | nil =>
        rw [renamed_of_nil listed]
        apply (own _).symm
        apply splittable.spare traced.reachable
        refine .inr (.inr ⟨read, ?_⟩)
        intro site same reachable carried
        have member : site ∈ currentAt graph order (analyze graph) point register :=
          mem_currentAt.mpr ⟨(mem_of_carried carried reachable).2.2, same⟩
        rw [listed] at member
        cases member
      | cons first rest =>
        have member : first ∈ currentAt graph order (analyze graph) point register := by
          rw [listed]
          exact List.mem_cons_self
        obtain ⟨known, resolved⟩ := renamed_of_mem traced.inside read member
        rw [resolved]
        exact (unset first known (mem_currentAt.mp member).2).symm
  | some cell =>
    rw [found] at place
    have holds := traced.holds register cell found
    cases place with
    | defined site member same value kept =>
      subst same
      have carried := splittable.carried holds read
      have reachable : graph.Reachable site.point := by exact (holds.writer.1 _ rfl).1
      have listed : site ∈ currentAt graph order (analyze graph) point site.register :=
        mem_currentAt.mpr ⟨(mem_of_carried carried reachable).2.2, rfl⟩
      rw [(renamed_of_mem traced.inside read listed).2]
      exact kept.symm
    | other write value spare kept =>
      rw [renamed_of_apart traced.inside (splittable.apart holds read)]
      exact kept.symm

end Ssa

end HermesDecomp.Ir

namespace HermesDecomp.Ir

open Action

/-- The two graphs run alike: on every host and schedule they are at the same point with
the same world, and each register read there holds the same value, written by the same
statement. -/
def ReadsKept (graph graph' : Cfg) : Prop :=
  ∀ (host : Host) (fuel : Nat) (schedule : List (Option (Interrupt host))) (world : host.World),
    let state := graph.run fuel schedule world
    let state' := graph'.run fuel schedule world
    state.1 = state'.1 ∧ state.2.world = state'.2.world ∧
      ∀ point, state.1 = .running point →
        List.Forall₂ (fun register register' =>
          state.2.registers register = state'.2.registers register')
          (graph.readsAt point) (graph'.readsAt point)

theorem Statement.definition?_rewriteReads (map : Nat → Nat) (statement : Statement) :
    (statement.rewriteReads map).definition? = statement.definition? := by
  cases statement with
  | assign target value =>
    cases target with
    | binding place => cases place <;> rfl
    | _ => rfl
  | _ => rfl

namespace Ssa

open ReachingDefs Cfg

variable {graph : Cfg} {order : SiteOrder} {host : Host}

/-- Two machines in the course of what stands at a point: the values are in place, and
every read finds its value. -/
structure Inside (graph : Cfg) (order : SiteOrder) (point : Point)
    (machine machine' : Machine host) : Prop where
  writer : machine.writer = .other point
  writer' : machine'.writer = .other point
  versions : Versions graph order machine machine'
  reads : ∀ register ∈ graph.valueReadsAt point,
    machine.registers register = machine'.registers (renamed graph order point register)
  tests : ∀ register ∈ graph.testReadsAt point,
    machine.registers register = machine'.registers register

theorem compatible_inside (point : Point) :
    Compatible (Inside graph order point : Machine host → Machine host → Prop) where
  world inside := inside.versions.world
  update inside world := ⟨inside.writer, inside.writer',
    compatible_versions.update inside.versions world, inside.reads, inside.tests⟩

section

variable (splittable : Splittable graph) {point : Point} (reachable : graph.Reachable point)
  (within : point.index ≤ (graph.statements point.block).length)

include splittable reachable within

/-- A write inside a statement leaves every read what it finds. -/
theorem Inside.write {machine machine' : Machine host}
    (inside : Inside graph order point machine machine') {register : Nat}
    (member : register ∈ graph.innerWritesAt point) (value : host.Val) :
    Inside graph order point (machine.write register value) (machine'.write register value) := by
  have spare : Spare graph register :=
    splittable.spare reachable (.inl (innerWritesAt_subset graph point member))
  refine ⟨inside.writer, inside.writer',
    inside.versions.write_other inside.writer inside.writer' spare value, ?_, ?_⟩
  · intro other read
    by_cases here : other = register
    · subst here
      rw [renamed_of_apart within (splittable.inner reachable member read), Machine.write_self,
        Machine.write_self, inside.writer, inside.writer']
    · have away : renamed graph order point other ≠ register := by
        rcases renamed_eq_or within read with same | notSpare
        · rw [same]
          exact here
        · rintro rfl
          exact notSpare spare
      rw [Machine.write_of_ne here, Machine.write_of_ne away]
      exact inside.reads other read
  · intro other read
    by_cases here : other = register
    · subst here
      rw [Machine.write_self, Machine.write_self, inside.writer, inside.writer']
    · rw [Machine.write_of_ne here, Machine.write_of_ne here]
      exact inside.tests other read

theorem renames_inside {reads writes : List Nat} (areRead : reads ⊆ graph.valueReadsAt point)
    (areWritten : writes ⊆ graph.innerWritesAt point) :
    Renames (Inside graph order point : Machine host → Machine host → Prop)
      (renamed graph order point) reads writes where
  toCompatible := compatible_inside point
  read register member _ _ inside := Machine.read_congr (inside.reads register (areRead member))
  write _ member value _ _ inside :=
    inside.write splittable reachable within (areWritten member) value

theorem renames_inside_tests {reads writes : List Nat} (areRead : reads ⊆ graph.testReadsAt point)
    (areWritten : writes ⊆ graph.innerWritesAt point) :
    Renames (Inside graph order point : Machine host → Machine host → Prop) id reads writes where
  toCompatible := compatible_inside point
  read register member _ _ inside := Machine.read_congr (inside.tests register (areRead member))
  write _ member value _ _ inside :=
    inside.write splittable reachable within (areWritten member) value

end

section

variable (splittable : Splittable graph) {point : Point} {machine machine' : Machine host}

include splittable

/-- Where the values are in place before a statement, they are as it starts. -/
theorem Versions.inside (traced : graph.Traced point machine)
    (versions : Versions graph order machine machine') :
    Inside graph order point { machine with writer := .other point }
      { machine' with writer := .other point } := by
  refine ⟨rfl, rfl, ⟨versions.world, versions.places⟩, ?_, ?_⟩
  · intro register read
    exact versions.found splittable traced read
  · intro register read
    have place := versions.places register
    cases found : machine.registers register with
    | none =>
      rw [found] at place
      cases place with
      | unwritten unset own =>
        exact (own (splittable.spare traced.reachable (.inr (.inl read)))).symm
    | some cell =>
      have holds := traced.holds register cell found
      rw [found] at place
      cases place with
      | defined site member same value kept =>
        exact absurd holds (splittable.tests traced.reachable read)
      | other write value spare kept => exact kept.symm

/-- A statement and its renamed form end in the same way and leave the values in
place. -/
theorem agree_renameStatement {statement : Statement}
    (found : graph.statementAt point = some statement) (fuel : Nat)
    (traced : graph.Traced point machine) (versions : Versions graph order machine machine') :
    let renamed := renameStatement graph order (analyze graph)
      (liveRanges graph order (analyze graph)) point statement
    (statement.executeAt fuel point machine).1 = (renamed.executeAt fuel point machine').1 ∧
      Versions graph order (statement.executeAt fuel point machine).2
        (renamed.executeAt fuel point machine').2 := by
  intro renamed
  have start := versions.inside splittable traced
  have areRead : graph.valueReadsAt point = statement.reads := by rw [valueReadsAt, found]
  have areWritten : graph.innerWritesAt point = statement.innerWrites := by
    rw [innerWritesAt, found]
  cases made : statement.definition? with
  | some register =>
    obtain ⟨value, rfl⟩ := Statement.eq_assignReg made
    have member : (⟨point.block, point.index, register⟩ : DefSite) ∈ definitions graph := by
      rw [mem_definitions]
      simp only [DefSite.point, definedAt, found, Option.bind_some]
      exact made
    have isRenamed : renamed = .assignReg (version graph order ⟨point.block, point.index, register⟩)
        (value.rewriteReads (Ssa.renamed graph order point)) := by
      simp only [renamed, renameStatement, made, versionOf_of_mem member]
      rfl
    have onValue : RenamesFor (Inside graph order point : Machine host → Machine host → Prop)
        (Ssa.renamed graph order point) fun visitor => value.visit visitor :=
      renames_inside splittable traced.reachable traced.inside
        (by rw [areRead]; exact List.Subset.refl _) (by rw [areWritten]; exact List.Subset.refl _)
    have agree := value.agree_rewriteReads onValue _ _ start
    rw [isRenamed]
    rcases ran : value.evaluate { machine with writer := .other point } with
      ⟨content | exit | _, middle⟩
    all_goals
      rcases ran' : (value.rewriteReads (Ssa.renamed graph order point)).evaluate
        { machine' with writer := .other point } with ⟨outcome', middle'⟩
      rw [ran, ran'] at agree
      obtain ⟨same, inside⟩ := agree
      dsimp only at same inside
      subst same
    · rw [Statement.executeAt_ok ran, Statement.executeAt_ok ran']
      exact ⟨rfl, inside.versions.write_definition member content⟩
    · rw [Statement.executeAt_err ran, Statement.executeAt_err ran']
      exact ⟨rfl, inside.versions⟩
    · rw [Statement.executeAt_panic ran, Statement.executeAt_panic ran']
      exact ⟨rfl, inside.versions⟩
  | none =>
    have isRenamed : renamed = statement.rewriteReads (Ssa.renamed graph order point) := by
      simp only [renamed, renameStatement, made]
      rfl
    have made' : renamed.definition? = none := by
      rw [isRenamed, Statement.definition?_rewriteReads, made]
    rw [Statement.executeAt_of_none made, Statement.executeAt_of_none made', isRenamed]
    by_cases isDelete : ∃ target result, statement = .delete target result
    · obtain ⟨target, result, rfl⟩ := isDelete
      have onTarget : RenamesFor (Inside graph order point : Machine host → Machine host → Prop)
          (Ssa.renamed graph order point) fun visitor => target.visit visitor :=
        renames_inside splittable traced.reachable traced.inside
          (by rw [areRead]; exact List.subset_append_left _ _)
          (by rw [areWritten]; exact List.Subset.refl _)
      have written : ∀ register, result = some register → Spare graph register := by
        rintro register rfl
        apply splittable.spare traced.reachable
        left
        rw [otherWritesAt, found]
        apply List.mem_append_right
        simp [writeVisitor, Binding.register?]
      refine agree_bind_into (fun _ _ inside => inside.versions) (agree_delete target onTarget)
        ?_ start
      intro value middle middle' inside
      cases result with
      | none => exact ⟨rfl, inside.versions⟩
      | some register =>
        exact ⟨rfl, inside.versions.write_other inside.writer inside.writer'
          (written register rfl) value⟩
    · have notDelete : ∀ target result, statement ≠ .delete target result :=
        fun target result same => isDelete ⟨target, result, same⟩
      have whole : RenamesFor (Inside graph order point : Machine host → Machine host → Prop)
          (Ssa.renamed graph order point) fun visitor => statement.visit visitor :=
        renames_inside splittable traced.reachable traced.inside
          (by rw [areRead]; exact List.Subset.refl _)
          (by
            rw [areWritten, Statement.innerWrites_of_none made notDelete]
            exact List.Subset.refl _)
      obtain ⟨same, inside⟩ := statement.agree_rewriteReads fuel none whole _ _ start
      exact ⟨same, inside.versions⟩

/-- A terminator and its renamed form end in the same way and leave the values in
place. -/
theorem agree_renameTerminator (absent : graph.statementAt point = none)
    (traced : graph.Traced point machine) (versions : Versions graph order machine machine') :
    let terminator := graph.terminator point.block
    let renamed := terminator.rewriteReads (renamed graph order point)
    (Terminator.execute terminator { machine with writer := .other point }).1 =
        (Terminator.execute renamed { machine' with writer := .other point }).1 ∧
      Versions graph order (Terminator.execute terminator { machine with writer := .other point }).2
        (Terminator.execute renamed { machine' with writer := .other point }).2 := by
  intro terminator renamed
  have areWritten : terminator.writes ⊆ graph.innerWritesAt point := by
    rw [innerWritesAt, absent]
    exact List.Subset.refl _
  have onValue : Renames (Inside graph order point : Machine host → Machine host → Prop)
      (Ssa.renamed graph order point) terminator.valueReads terminator.writes :=
    renames_inside splittable traced.reachable traced.inside
      (by rw [valueReadsAt, absent]; exact List.Subset.refl _) areWritten
  have onTests : Renames (Inside graph order point : Machine host → Machine host → Prop)
      id terminator.testReads terminator.writes :=
    renames_inside_tests splittable traced.reachable traced.inside
      (by rw [testReadsAt, absent]; exact List.Subset.refl _) areWritten
  obtain ⟨same, inside⟩ := terminator.agree_rewriteReads onValue onTests _ _
    (versions.inside splittable traced)
  exact ⟨same, inside.versions⟩

end

variable (graph order) in
/-- The graph after the second walk. -/
def renamedGraph : Cfg :=
  { graph with
    blocks := graph.blocks.zipIdx.map fun item => renameBlock graph order (analyze graph)
      (liveRanges graph order (analyze graph)) item.2 item.1 }

theorem get_renamedGraph (id : BlockId) :
    (renamedGraph graph order).get id = (graph.get id).map
      (renameBlock graph order (analyze graph) (liveRanges graph order (analyze graph)) id) := by
  rw [Cfg.get, Cfg.get, renamedGraph, List.getElem?_map, List.getElem?_zipIdx]
  cases graph.blocks[id]? <;> simp

/-- The states of the two runs: the same place, the same world, and the values of the
second in place for the first. -/
structure Simulates (graph : Cfg) (order : SiteOrder)
    (state state' : Status host × Machine host) : Prop where
  status : state.1 = state'.1
  versions : Versions graph order state.2 state'.2
  traced : ∀ point, state.1 = .running point → graph.Traced point state.2

theorem agree_performed (splittable : Splittable graph) (fuel : Nat) {point : Point}
    {machine machine' : Machine host} (traced : graph.Traced point machine)
    (versions : Versions graph order machine machine') :
    (graph.perform fuel point machine).1 =
        ((renamedGraph graph order).perform fuel point machine').1 ∧
      Versions graph order (graph.perform fuel point machine).2
        ((renamedGraph graph order).perform fuel point machine').2 := by
  simp only [Cfg.perform, get_renamedGraph]
  cases found : graph.get point.block with
  | none => exact ⟨rfl, versions⟩
  | some block =>
    have here := statementAt_of_get found
    have sameLength : graph.statements point.block = block.statements := by rw [statements, found]
    dsimp only [Option.map_some, renameBlock]
    rw [List.getElem?_map, List.getElem?_zipIdx]
    cases present : block.statements[point.index]? with
    | some statement =>
      rw [present] at here
      simp only [Option.map_some, zero_add]
      obtain ⟨same, finish⟩ := agree_renameStatement splittable here fuel traced versions
      exact agree_proceed compatible_versions rfl _ _ same finish
    | none =>
      rw [present] at here
      simp only [Option.map_none]
      have isLast := index_eq_length traced.inside here
      have sameTerminator : graph.terminator point.block = block.terminator := by
        rw [terminator, found]
      obtain ⟨same, finish⟩ := agree_renameTerminator splittable here traced versions
      rw [sameTerminator] at same finish
      have samePoint : (⟨point.block, block.statements.length⟩ : Point) = point := by
        rw [← sameLength, ← isLast]
      rw [samePoint]
      exact agree_proceed compatible_versions rfl _ _ same finish

theorem Simulates.step (splittable : Splittable graph) (fuel : Nat)
    (interrupt : Option (Interrupt host)) (state state' : Status host × Machine host)
    (simulates : Simulates graph order state state') :
    Simulates graph order (graph.step fuel interrupt state)
      ((renamedGraph graph order).step fuel interrupt state') := by
  rcases state with ⟨status, machine⟩
  rcases state' with ⟨status', machine'⟩
  obtain ⟨same, versions, traced⟩ := simulates
  dsimp only at same versions traced
  subst same
  cases status with
  | running point =>
    have here := traced point rfl
    have handlers : graph.exceptionHandlers = (renamedGraph graph order).exceptionHandlers := rfl
    obtain ⟨sameStatus, finish⟩ := agree_step compatible_versions handlers versions
      (agree_performed splittable fuel here versions) interrupt
    refine ⟨sameStatus, finish, ?_⟩
    intro next isRunning
    exact here.step (Prod.ext isRunning rfl)
  | finished | stopped => exact ⟨rfl, versions, fun _ isRunning => nomatch isRunning⟩

theorem simulates_run (splittable : Splittable graph) (fuel : Nat)
    (schedule : List (Option (Interrupt host))) (world : host.World) :
    Simulates graph order (graph.run fuel schedule world)
      ((renamedGraph graph order).run fuel schedule world) := by
  apply run_simulation
  · refine ⟨rfl, ⟨rfl, ?_⟩, ?_⟩
    · intro register
      exact .unwritten (fun _ _ _ => rfl) fun _ => rfl
    · rintro point ⟨⟩
      exact traced_start world
  · exact Simulates.step splittable fuel

end Ssa

end HermesDecomp.Ir
