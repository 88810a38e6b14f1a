import HermesDecomp.Ir.Explore
import HermesDecomp.Transforms.Standing

/-!
# What propagation keeps

A read that the pass replaces finds the same value as long as what stands for the
register still has the value it had when the register was assigned. Only plain
assignments end a copy. So another write of the register or of the copied one, an
operation between the copy of a variable and its use, and a property that is read again
all can make the replaced read differ.
-/

namespace HermesDecomp.Ir

open Action Cfg

/-- Reading a variable or an environment slot changes nothing. -/
structure Host.StillReads (host : Host) : Prop where
  named : ∀ name world, (host.readVariable name world).2 = world
  slot : ∀ level slot world, (host.readClosureVar level slot world).2 = world

/-- A read of a variable or of an environment slot. -/
def Value.isPlace : Value → Bool
  | .binding (.variable _) | .binding (.closureVar ..) => true
  | _ => false

namespace Propagate

/-- The statement at a point performs no operation. -/
def QuietAt (graph : Cfg) (point : Point) : Prop :=
  ∀ statement, graph.statementAt point = some statement → statement.isQuiet = true

/-- What stands at a point leaves a register and the value that stands for it alone. -/
structure Spares (graph : Cfg) (point : Point) (register : Nat) (value : Value) : Prop where
  target : register ∉ graph.otherWritesAt point
  source : ∀ source, value = .binding (.register source) → source ∉ graph.otherWritesAt point
  quiet : value.isPlace = true → QuietAt graph point

/-- Since the last plain assignment of a register in the block, every statement left the
register and the value that stands for it alone. -/
def SparedSince (graph : Cfg) (block : BlockId) : Nat → Nat → Value → Prop
  | 0, _, _ => True
  | index + 1, register, value =>
      graph.definedAt ⟨block, index⟩ = some register ∨
        (SparedSince graph block index register value ∧ Spares graph ⟨block, index⟩ register value)

/-- What stands for a register that is read still has its value there. -/
structure Steady (graph : Cfg) : Prop where
  /-- A register with one value is written by its definition only. -/
  single : ∀ {point write : Point} {register : Nat} {value : Expression},
    register ∈ graph.reachedAt point →
      resolveInvariantRegister graph 17 register = some value →
        ¬ Holds graph register (.other write) point
  /-- Nothing changes a copied register or the copied value between the copy and the
  read. -/
  spared : ∀ {point : Point} {register : Nat} {value : Value}, graph.Reachable point →
    register ∈ graph.reachedAt point → resolveInvariantRegister graph 17 register = none →
      LocalCopy graph point.block point.index register (.value value) →
        SparedSince graph point.block point.index register value
  /-- The statement of the read writes neither before everything is read. -/
  inner : ∀ {point : Point} {register : Nat} {value : Value}, graph.Reachable point →
    register ∈ graph.reachedAt point → Stands graph point register (.value value) →
      register ∉ graph.innerWritesAt point ∧
        ∀ source, value = .binding (.register source) → source ∉ graph.innerWritesAt point
  /-- A variable is read before the first operation of the statement. -/
  early : ∀ {point : Point} {register : Nat} {value : Value}, graph.Reachable point →
    (false, register) ∈ graph.phasedAt point → Stands graph point register (.value value) →
      value.isPlace = false
  /-- No property of an object stands for a register that is read. -/
  plain : ∀ {point : Point} {register : Nat} {expression : Expression}, graph.Reachable point →
    register ∈ graph.reachedAt point → Stands graph point register expression →
      ∃ value, expression = .value value
  /-- A whole-number key lies in the range of an index. -/
  fits : ∀ {point : Point} {key : Expression}, graph.Reachable point →
    key ∈ graph.keysAt point → FitsKey key ∧ ∀ register, key = .register register →
      ∀ expression, Stands graph point register expression → FitsKey expression

/-- The propagated graph runs as the original does: on every engine whose numeric keys
name the same property as the index, and whose reads of variables change nothing, and on
every schedule, each statement starts and ends in the same state. -/
def PropagationKept (graph : Cfg) : Prop :=
  ∀ (maxIterations : Nat) (host : Host), host.Lawful → host.StillReads → ∀ (fuel : Nat)
    (schedule : List (Option (Interrupt host))) (world : host.World),
      (propagate maxIterations graph).run fuel schedule world = graph.run fuel schedule world

variable {graph : Cfg} {host : Host}

/-- An expression has the value of a register and nothing else happens in finding it. -/
def Stood (value : Value) (register : Nat) (machine : Machine host) : Prop :=
  (Expression.value value).evaluate machine = (.ok (machine.read register), machine)

theorem perform_still {operation : Action host.World host.Val host.Val}
    (still : ∀ world, (operation world).2 = world) (machine : Machine host) :
    (perform operation machine).2 = machine := by
  have same := still machine.world
  unfold perform
  rcases ran : operation machine.world with ⟨_ | _ | _, world⟩ <;>
    (rw [ran] at same; dsimp only at same; subst same; rfl)

/-- Reading a place other than a register changes nothing. -/
theorem readBinding_still (still : host.StillReads) {place : Binding}
    (notRegister : place.register? = none) (machine : Machine host) :
    (readBinding place machine).2 = machine := by
  cases place with
  | register register => exact absurd notRegister (Option.some_ne_none _)
  | «variable» name => exact perform_still (still.named name) machine
  | closureVar level slot => exact perform_still (still.slot level slot) machine

variable {machine machine' : Machine host}

theorem perform_congr (operation : Action host.World host.Val host.Val)
    (same : machine'.world = machine.world) :
    (perform operation machine').1 = (perform operation machine).1 := by
  unfold perform
  rw [same]
  rcases operation machine.world with ⟨_ | _ | _, world⟩ <;> rfl

variable {content : host.Val}

/-- A value is found again where the register it reads was kept, and the world when it
reads a variable. -/
theorem evaluate_again (still : host.StillReads) {value : Value}
    (found : (Expression.value value).evaluate machine = (.ok content, machine))
    (registers : ∀ register, value = .binding (.register register) →
      machine'.read register = machine.read register)
    (world : value.isPlace = true → machine'.world = machine.world) :
    (Expression.value value).evaluate machine' = (.ok content, machine') := by
  have ofPlace : ∀ operation : Action host.World host.Val host.Val,
      (∀ world, (operation world).2 = world) → machine'.world = machine.world →
      perform operation machine = (.ok content, machine) →
      perform operation machine' = (.ok content, machine') := by
    intro operation isStill same found
    have first := perform_congr operation same
    rw [found] at first
    exact Prod.ext first (perform_still isStill machine')
  cases value with
  | binding place =>
    cases place with
    | register register =>
      have isContent : machine.read register = content := Outcome.ok.inj (congrArg Prod.fst found)
      change (Outcome.ok (machine'.read register), machine') = _
      rw [registers register rfl, isContent]
    | «variable» name => exact ofPlace _ (still.named name) (world rfl) found
    | closureVar level slot => exact ofPlace _ (still.slot level slot) (world rfl) found
  | constant | this | global | parameter | arguments | newTarget | super =>
    have isContent := Outcome.ok.inj (congrArg Prod.fst found)
    subst isContent
    rfl

/-- A fixed value does not depend on the machine. -/
theorem evaluate_fixed {value : Value} (fixed : value.isFixed = true) (machine machine' : Machine host) :
    ((Expression.value value).evaluate machine').1 = ((Expression.value value).evaluate machine).1 ∧
      ((Expression.value value).evaluate machine').2 = machine' := by
  cases value with
  | parameter | global | constant => exact ⟨rfl, rfl⟩
  | binding | this | arguments | newTarget | super => exact nomatch fixed

/-- Code that leaves the world as it is. -/
def Still {α : Type} (code : Exec host α) : Prop :=
  ∀ machine, (code machine).2.world = machine.world

section Still

variable {α β : Type}

theorem still_pure (value : α) : Still (pure value : Exec host α) := fun _ => rfl

theorem still_bind {first : Exec host α} {next : α → Exec host β} (stillFirst : Still first)
    (stillNext : ∀ value, Still (next value)) : Still (first >>= next) := by
  intro machine
  rw [bind_apply]
  have kept := stillFirst machine
  rcases ran : first machine with ⟨value | exit | _, middle⟩
  · rw [ran] at kept
    exact (stillNext value middle).trans kept
  · rw [ran] at kept
    exact kept
  · rw [ran] at kept
    exact kept

theorem still_ite {condition : Prop} [Decidable condition] {yes no : Exec host α}
    (whenTrue : Still yes) (whenFalse : Still no) : Still (if condition then yes else no) := by
  split
  · exact whenTrue
  · exact whenFalse

end Still

/-- An expression without operations leaves the world as it is. -/
theorem Expression.still (reads : host.StillReads) : ∀ expression : Expression,
    expression.isQuiet = true → Still (expression.evaluate : Exec host host.Val)
  | .value value, _ => by
    cases value with
    | binding place =>
      cases place with
      | register register => exact fun _ => rfl
      | «variable» name =>
        exact fun machine => congrArg Machine.world (perform_still (reads.named name) machine)
      | closureVar level slot =>
        exact fun machine => congrArg Machine.world (perform_still (reads.slot level slot) machine)
    | constant | this | global | parameter | arguments | newTarget | super => exact fun _ => rfl
  | .binary op left right, quiet => by
    simp only [Expression.isQuiet, Bool.and_eq_true] at quiet
    obtain ⟨quietly, quietLeft, quietRight⟩ := quiet
    have stillRight := Expression.still reads right quietRight
    apply still_bind (Expression.still reads left quietLeft)
    intro value
    cases op
    case and | logicalAnd => exact still_ite stillRight (still_pure value)
    case or | logicalOr => exact still_ite (still_pure value) stillRight
    case nullishCoalesce => exact still_ite stillRight (still_pure value)
    all_goals exact nomatch quietly
  | .conditional condition thenExpr elseExpr, quiet => by
    simp only [Expression.isQuiet, Bool.and_eq_true] at quiet
    obtain ⟨quietCondition, quietThen, quietElse⟩ := quiet
    apply still_bind (Expression.still reads condition quietCondition)
    intro value
    exact still_ite (Expression.still reads thenExpr quietThen)
      (Expression.still reads elseExpr quietElse)
  | .assignment (.binding (.register register)) content, quiet => by
    apply still_bind (Expression.still reads content quiet)
    intro value
    exact fun _ => rfl
  | .assignment (.binding (.variable _)) _, quiet
  | .assignment (.binding (.closureVar ..)) _, quiet | .assignment (.member ..) _, quiet
  | .assignment (.index ..) _, quiet | .assignment (.destructuringArray _) _, quiet
  | .assignment (.destructuringArrayRest ..) _, quiet
  | .assignment (.destructuringObject _) _, quiet
  | .assignment (.destructuringObjectRest ..) _, quiet | .assignment (.rest _) _, quiet
  | .unary .., quiet | .member .., quiet | .call .., quiet | .new .., quiet | .array _, quiet
  | .object _, quiet | .function .., quiet | .spread _, quiet | .templateLiteral .., quiet
  | .regExp .., quiet | .yield .., quiet | .await _, quiet | .jsxElement .., quiet
  | .unknown .., quiet => nomatch quiet

/-- A statement without operations leaves the world as it is. -/
theorem Statement.still (reads : host.StillReads) {statement : Statement}
    (quiet : statement.isQuiet = true) (fuel : Nat) (point : Point) :
    Still (statement.executeAt fuel point : Exec host PUnit) := by
  have writes : ∀ writer, Still (setWriter writer : Exec host PUnit) := fun _ _ => rfl
  unfold Statement.isQuiet at quiet
  split at quiet
  · rename_i expression
    apply still_bind (writes _)
    intro _
    exact still_bind (Expression.still reads expression quiet) still_pure
  · rename_i register value
    apply still_bind (writes _)
    intro _
    apply still_bind (Expression.still reads value quiet)
    intro content
    exact still_bind (writes _) fun _ _ => rfl
  · exact still_bind (writes _) still_pure
  · cases quiet

/-- The last plain assignment of a register is one. -/
theorem valueOf_eq_some {register : Nat} {value : Expression}
    (found : valueOf graph register = some value) :
    ∃ point, graph.statementAt point = some (.assignReg register value) := by
  obtain ⟨site, last, assigned⟩ := Option.bind_eq_some_iff.mp found
  have isSame := List.find?_some last
  have same := of_decide_eq_true isSame
  have listed := List.mem_reverse.mp (List.mem_of_find?_eq_some last)
  have defines := Ssa.mem_definitions.mp listed
  split at assigned
  · rename_i register' _ present
    obtain ⟨⟩ := assigned
    rw [definedAt, present] at defines
    obtain rfl : register' = register := (Option.some.inj defines).trans same
    exact ⟨site.point, present⟩
  · exact absurd assigned.symm (Option.some_ne_none _)

/-- A register with one value is assigned at one point, that value or a register that
has it. -/
theorem resolve_cases {depth register : Nat} {expression : Expression}
    (resolved : resolveInvariantRegister graph (depth + 1) register = some expression) :
    ∃ point assigned, graph.statementAt point = some (.assignReg register assigned) ∧
      (∀ other, graph.definedAt other = some register → other = point) ∧
      ((assigned = expression ∧ ∃ value, expression = .value value ∧ value.isFixed = true) ∨
        ∃ source, assigned = .register source ∧
          resolveInvariantRegister graph depth source = some expression) := by
  rw [resolveInvariantRegister] at resolved
  split at resolved
  · exact absurd resolved.symm (Option.some_ne_none _)
  · rename_i notTwice
    have once := not_not.mp notTwice
    have only : ∀ {point assigned}, graph.statementAt point = some (.assignReg register assigned) →
        ∀ other, graph.definedAt other = some register → other = point := by
      intro point assigned present other defines
      have here : graph.definedAt point = some register := by
        rw [definedAt, present]
        rfl
      exact eq_of_defCount once defines here
    split at resolved
    · rename_i found
      obtain ⟨⟩ := resolved
      obtain ⟨point, present⟩ := valueOf_eq_some found
      exact ⟨point, _, present, only present, .inl ⟨rfl, _, rfl, rfl⟩⟩
    · rename_i found
      obtain ⟨⟩ := resolved
      obtain ⟨point, present⟩ := valueOf_eq_some found
      exact ⟨point, _, present, only present, .inl ⟨rfl, _, rfl, rfl⟩⟩
    · rename_i found
      obtain ⟨⟩ := resolved
      obtain ⟨point, present⟩ := valueOf_eq_some found
      exact ⟨point, _, present, only present, .inl ⟨rfl, _, rfl, rfl⟩⟩
    · rename_i source found
      obtain ⟨point, present⟩ := valueOf_eq_some found
      exact ⟨point, _, present, only present, .inr ⟨source, rfl, resolved⟩⟩
    · exact absurd resolved.symm (Option.some_ne_none _)

/-- A shorter chain is followed as well. -/
theorem resolve_succ {depth register : Nat} {expression : Expression}
    (resolved : resolveInvariantRegister graph depth register = some expression) :
    resolveInvariantRegister graph (depth + 1) register = some expression := by
  induction depth generalizing register with
  | zero => exact absurd resolved.symm (Option.some_ne_none _)
  | succ depth ih =>
    rw [resolveInvariantRegister] at resolved ⊢
    split at resolved
    · exact absurd resolved.symm (Option.some_ne_none _)
    · rename_i notTwice
      rw [if_neg notTwice]
      split at resolved
      · exact resolved
      · exact resolved
      · exact resolved
      · exact ih resolved
      · exact absurd resolved.symm (Option.some_ne_none _)

/-- Along a run, a register with one value holds it once it is defined, and a copied
register holds what stands for it as long as nothing wrote either. -/
structure Held (graph : Cfg) (point : Point) (machine : Machine host) : Prop where
  one : ∀ {register : Nat} {value : Value} {made : Point} {content : host.Val},
    resolveInvariantRegister graph 17 register = some (.value value) →
      machine.registers register = some ⟨content, .definition made⟩ →
        ((Expression.value value).evaluate machine).1 = .ok content
  copied : ∀ {register : Nat} {value : Value},
    LocalCopy graph point.block point.index register (.value value) →
      SparedSince graph point.block point.index register value → Stood value register machine

/-- Where a replaced read happens, what stands for the register has its value. -/
theorem Held.stood (defined : ReadsDefined graph) (steady : Steady graph) {point : Point}
    {machine : Machine host} (traced : graph.Traced point machine) (held : Held graph point machine)
    {register : Nat} {value : Value} (reached : register ∈ graph.reachedAt point)
    (stands : Stands graph point register (.value value)) : Stood value register machine := by
  cases resolved : resolveInvariantRegister graph 17 register with
  | none =>
    have copy : LocalCopy graph point.block point.index register (.value value) := by
      rw [Stands, Prefers, resolved] at stands
      exact stands
    exact held.copied copy (steady.spared traced.reachable reached resolved copy)
  | some expression =>
    have same : Expression.value value = expression := by
      rw [Stands, Prefers, resolved] at stands
      exact stands
    subst same
    obtain ⟨fixedValue, same, fixed⟩ := isFixed_of_resolve resolved
    obtain rfl : value = fixedValue := Expression.value.inj same
    have isRead : register ∈ graph.readsAt point := graph.reachedAt_subset point reached
    cases found : machine.registers register with
    | none =>
      rcases traced.unset register found with unset | ⟨write, holds⟩
      · exact absurd unset (defined point register isRead)
      · exact absurd holds (steady.single reached resolved)
    | some cell =>
      rcases cell with ⟨content, made | write⟩
      · have isContent : machine.read register = content := by
          rw [Machine.read, found]
        have evaluated := held.one resolved found
        rw [Stood, isContent]
        exact Prod.ext evaluated (evaluate_fixed fixed machine machine).2
      · exact absurd (traced.holds register _ found) (steady.single reached resolved)

/-- A value evaluates without changing the machine. -/
theorem evaluate_value_snd (reads : host.StillReads) (value : Value) (machine : Machine host) :
    ((Expression.value value).evaluate machine).2 = machine := by
  cases value with
  | binding place =>
    cases place with
    | register register => rfl
    | «variable» name => exact perform_still (reads.named name) machine
    | closureVar level slot => exact perform_still (reads.slot level slot) machine
  | constant | this | global | parameter | arguments | newTarget | super => rfl

/-- A register that was just assigned a value holds it. -/
theorem stood_write (reads : host.StillReads) {value : Value} {machine : Machine host}
    (found : (Expression.value value).evaluate machine = (.ok content, machine)) (register : Nat)
    (writer : Writer) : Stood value register ({ machine with writer }.write register content) := by
  have holds : ({ machine with writer }.write register content).read register = content := by
    rw [Machine.read, Machine.write_self]
  rw [Stood, holds]
  apply evaluate_again reads found
  · rintro source rfl
    by_cases same : source = register
    · subst same
      rw [holds]
      exact (Outcome.ok.inj (congrArg Prod.fst found)).symm
    · exact Machine.read_congr (Machine.write_of_ne same content _)
  · exact fun _ => rfl

variable {block : BlockId}

/-- What a statement leaves alone still stands after it. -/
theorem Stood.kept (reads : host.StillReads) {fuel : Nat} {interrupt : Option (Interrupt host)}
    {index : Nat} {statement : Statement}
    (present : graph.statementAt ⟨block, index⟩ = some statement)
    (stepped : graph.step fuel interrupt (.running ⟨block, index⟩, machine) =
      (.running ⟨block, index + 1⟩, machine'))
    (touched : ∀ register, graph.Touched ⟨block, index⟩ ⟨block, index + 1⟩ machine machine' register)
    {register : Nat} {value : Value} (stood : Stood value register machine)
    (spares : Spares graph ⟨block, index⟩ register value)
    (notTarget : graph.definedAt ⟨block, index⟩ ≠ some register)
    (notSource : ∀ source, value = .binding (.register source) →
      graph.definedAt ⟨block, index⟩ ≠ some source) : Stood value register machine':= by
  have same : ∀ register, register ∉ graph.otherWritesAt ⟨block, index⟩ →
      graph.definedAt ⟨block, index⟩ ≠ some register →
      machine'.read register = machine.read register := by
    intro register unwritten undefined
    cases touched register with
    | kept _ kept => exact Machine.read_congr kept
    | other _ writes => exact absurd writes unwritten
    | defined _ defines => exact absurd defines undefined
  rw [Stood, same register spares.target notTarget]
  apply evaluate_again reads stood
  · intro source isSource
    exact same source (spares.source source isSource) (notSource source isSource)
  · intro isPlace
    have still := Statement.still reads (spares.quiet isPlace statement present) fuel
      ⟨block, index⟩ machine
    rw [step_completed present stepped] at still
    exact still

/-- An assigned expression evaluates to the value of what it becomes. -/
theorem evaluate_becomes (reads : host.StillReads) (defined : ReadsDefined graph)
    (steady : Steady graph) {index register : Nat} {assigned : Expression} {value : Value}
    {machine middle : Machine host} (traced : graph.Traced ⟨block, index⟩ machine)
    (held : Held graph ⟨block, index⟩ machine)
    (present : graph.statementAt ⟨block, index⟩ = some (.assignReg register assigned))
    (becomes : Becomes (Prefers graph (LocalCopy graph block index)) assigned (.value value))
    (ran : assigned.evaluate { machine with writer := .other ⟨block, index⟩ } =
      (.ok content, middle)) :
    (Expression.value value).evaluate middle = (.ok content, middle) ∧
      middle = { machine with writer := .other ⟨block, index⟩ } := by
  have ofValue : ∀ value : Value, assigned = .value value →
      middle = { machine with writer := .other ⟨block, index⟩ } := by
    rintro value rfl
    have kept := evaluate_value_snd reads value { machine with writer := .other ⟨block, index⟩ }
    rw [ran] at kept
    exact kept
  cases becomes with
  | plain _ _ =>
    obtain rfl := ofValue value rfl
    exact ⟨ran, rfl⟩
  | alone _ =>
    obtain rfl := ofValue _ rfl
    exact ⟨ran, rfl⟩
  | @copied source _ stands =>
    obtain rfl := ofValue _ rfl
    refine ⟨?_, rfl⟩
    have reached : source ∈ graph.reachedAt ⟨block, index⟩ := by
      rw [reachedAt, present]
      exact List.mem_singleton_self source
    have stood := held.stood defined steady traced reached stands
    have isContent : machine.read source = content := Outcome.ok.inj (congrArg Prod.fst ran)
    rw [Stood, isContent] at stood
    exact evaluate_again reads stood (fun _ _ => rfl) fun _ => rfl

theorem Held.step (reads : host.StillReads) (defined : ReadsDefined graph) (steady : Steady graph)
    {fuel : Nat} {interrupt : Option (Interrupt host)} {point next : Point}
    {machine machine' : Machine host} (traced : graph.Traced point machine)
    (held : Held graph point machine)
    (stepped : graph.step fuel interrupt (.running point, machine) = (.running next, machine')) :
    Held graph next machine' := by
  rcases step_spec traced.inside stepped with ⟨rfl, rfl⟩ | ⟨move, touched⟩
  · exact held
  · constructor
    · intro register value made content resolved found
      obtain ⟨fixedValue, same, fixed⟩ := isFixed_of_resolve resolved
      obtain rfl : value = fixedValue := Expression.value.inj same
      rw [(evaluate_fixed fixed machine machine').1]
      cases touched register with
      | kept _ kept =>
        rw [kept] at found
        exact held.one resolved found
      | other _ _ _ other =>
        rw [found] at other
        cases other
      | defined isNext defines written holds =>
        subst isNext
        obtain ⟨assignment, assigned, present, only, kind⟩ := resolve_cases resolved
        obtain rfl := only point defines
        obtain ⟨result, middle, ran, rfl⟩ := step_assigned present stepped
        rw [Machine.write_self] at found
        obtain rfl : result = content := congrArg Cell.value (Option.some.inj found)
        rcases kind with ⟨rfl, _⟩ | ⟨source, rfl, resolvedSource⟩
        · have evaluated := (evaluate_fixed fixed machine { machine with writer := .other point }).1
          rw [← evaluated, ran]
        · have reached : source ∈ graph.reachedAt point := by
            rw [reachedAt, present]
            exact List.mem_singleton_self source
          have stands : Stands graph point source (.value value) := by
            rw [Stands, Prefers, resolve_succ resolvedSource]
          have stood := held.stood defined steady traced reached stands
          rw [stood]
          exact congrArg Prod.fst ran
    · intro register value copy spared
      cases move with
      | follow | raise => exact copy.elim
      | @next block index inside =>
        obtain ⟨statement, present⟩ : ∃ statement, graph.statementAt ⟨block, index⟩ = some statement :=
          ⟨_, List.getElem?_eq_getElem inside⟩
        have since : graph.definedAt ⟨block, index⟩ ≠ some register →
            SparedSince graph block index register value ∧
              Spares graph ⟨block, index⟩ register value :=
          spared.resolve_left
        cases defines : statement.definition? with
        | none =>
          have undefined : graph.definedAt ⟨block, index⟩ = none := by
            rw [definedAt, present]
            exact defines
          have copied := (localCopy_of_none present defines register _).mp copy
          have ofNone : ∀ register, graph.definedAt ⟨block, index⟩ ≠ some register := by
            intro register same
            rw [undefined] at same
            cases same
          obtain ⟨sparedBefore, spares⟩ := since (ofNone register)
          exact (held.copied copied sparedBefore).kept reads present stepped touched spares
            (ofNone register) fun source _ => ofNone source
        | some target =>
          obtain ⟨assigned, rfl⟩ := Statement.eq_assignReg defines
          have definesTarget : graph.definedAt ⟨block, index⟩ = some target := by
            rw [definedAt, present]
            rfl
          have becomes := (localCopy_assign present register _).mp copy
          by_cases here : register = target
          · subst here
            rw [if_pos rfl] at becomes
            obtain ⟨content, middle, ran, rfl⟩ := step_assigned present stepped
            obtain ⟨found, rfl⟩ := evaluate_becomes reads defined steady traced held present becomes ran
            exact stood_write reads found register _
          · rw [if_neg here] at becomes
            obtain ⟨copied, apart⟩ := becomes
            have notTarget : graph.definedAt ⟨block, index⟩ ≠ some register := by
              rw [definesTarget]
              exact fun same => here (Option.some.inj same).symm
            obtain ⟨sparedBefore, spares⟩ := since notTarget
            apply (held.copied copied sparedBefore).kept reads present stepped touched spares notTarget
            rintro source rfl same
            rw [definesTarget] at same
            cases same
            exact apart rfl

/-- Equal machines in which what stands for the registers read at a point has their
values, what a variable stands for only before an operation. -/
def Standing (graph : Cfg) (point : Point) (early : Bool) (machine machine' : Machine host) : Prop :=
  machine = machine' ∧ ∀ register value, register ∈ graph.reachedAt point →
    Stands graph point register (.value value) → (value.isPlace = true → early = true) →
      Stood value register machine

theorem fitsKey_copiesAt (steady : Steady graph) {point : Point} (reachable : graph.Reachable point)
    {key : Expression} (member : key ∈ graph.keysAt point) :
    FitsKey (key.substitute (copiesAt graph point)) := by
  obtain ⟨fits, copied⟩ := steady.fits reachable member
  cases key with
  | value value =>
    cases value with
    | binding place =>
      cases place with
      | register register =>
        change FitsKey ((copiesAt graph point register).getD (.register register))
        cases found : copiesAt graph point register with
        | none => trivial
        | some expression =>
          exact copied register rfl expression ((copiesAt_eq_some point register expression).mp found)
      | _ => trivial
    | constant => exact fits
    | _ => trivial
  | _ => trivial

theorem phased_standing (reads : host.StillReads) (steady : Steady graph) {point : Point}
    (reachable : graph.Reachable point) :
    Phased (Standing graph point : Bool → Machine host → Machine host → Prop)
      (copiesAt graph point) (graph.readsAt point) (graph.innerWritesAt point)
      (graph.phasedAt point) (graph.keysAt point) where
  compatible := {
    world := by
      rintro machine _ ⟨rfl, _⟩
      rfl
    update := by
      rintro machine _ ⟨rfl, stood⟩ world
      refine ⟨rfl, ?_⟩
      intro register value reached stands notPlace
      exact evaluate_again reads (stood register value reached stands notPlace) (fun _ _ => rfl)
        fun isPlace => absurd (notPlace isPlace) Bool.false_ne_true }
  weakens := by
    rintro machine _ ⟨rfl, stood⟩
    exact ⟨rfl, fun register value reached stands _ => stood register value reached stands fun _ => rfl⟩
  place := by
    rintro place notRegister machine _ ⟨rfl, stood⟩
    rw [readBinding_still reads notRegister machine]
    exact ⟨rfl, rfl, stood⟩
  read := by
    rintro register _ machine _ ⟨rfl, _⟩
    rfl
  write := by
    rintro written member early content machine _ ⟨rfl, stood⟩
    refine ⟨rfl, ?_⟩
    intro register value reached stands inPhase
    obtain ⟨notTarget, notSource⟩ := steady.inner reachable reached stands
    have apart : ∀ {register}, register ∉ graph.innerWritesAt point →
        (machine.write written content).read register = machine.read register := by
      intro register free
      have different : register ≠ written := by
        rintro rfl
        exact free member
      exact Machine.read_congr (Machine.write_of_ne different content machine)
    rw [Stood, apart notTarget]
    exact evaluate_again reads (stood register value reached stands inPhase)
      (fun source isSource => apart (notSource source isSource)) fun _ => rfl
  copy := by
    rintro ⟨early, register⟩ member expression found machine _ ⟨rfl, stood⟩
    have stands := (copiesAt_eq_some point register expression).mp found
    have reached : register ∈ graph.reachedAt point := by
      rw [← graph.map_phasedAt]
      exact List.mem_map_of_mem member
    obtain ⟨value, rfl⟩ := steady.plain reachable reached stands
    have inPhase : value.isPlace = true → early = true := by
      intro isPlace
      cases early with
      | true => rfl
      | false =>
        rw [steady.early reachable member stands] at isPlace
        exact isPlace
    have holds := stood register value reached stands inPhase
    rw [Stood] at holds
    dsimp only
    rw [holds]
    exact ⟨rfl, rfl, stood⟩
  fits _ := fitsKey_copiesAt steady reachable

theorem substituted_propagate (maxIterations : Nat) (graph : Cfg) :
    graph.Substituted (propagate maxIterations graph) (copiesAt graph) where
  entry := by rw [propagate_eq, substituteInvariant_eq]; rfl
  handlers := by rw [propagate_eq, substituteInvariant_eq]; rfl
  missing := by
    intro id absent
    rw [get_propagate, absent]
    rfl
  blocks := by
    intro id block found
    refine ⟨_, by rw [get_propagate, found]; rfl, getElem?_propagateBlock found,
      terminator_propagateBlock found⟩

/-- What stands at a point does after the propagation what it did. -/
theorem perform_propagate (maxIterations : Nat) (lawful : host.Lawful) (reads : host.StillReads)
    (defined : ReadsDefined graph) (steady : Steady graph) (fuel : Nat) {point : Point}
    {machine : Machine host} (traced : graph.Traced point machine)
    (held : Held graph point machine) :
    (propagate maxIterations graph).perform fuel point machine =
      graph.perform fuel point machine := by
  have start : Standing graph point true { machine with writer := .other point }
      { machine with writer := .other point } := by
    refine ⟨rfl, ?_⟩
    intro register value reached stands _
    exact evaluate_again reads (held.stood defined steady traced reached stands) (fun _ _ => rfl)
      fun _ => rfl
  exact perform_substituted (substituted_propagate maxIterations graph) lawful fuel traced.inside
    (fun standing => standing.1) (phased_standing reads steady traced.reachable) start

/-- **Propagation keeps the values of the reads it replaces.** For every graph whose reads
are all preceded by a definition, and in which what stands for a register still has its
value wherever the register is read, each run goes through the same states. -/
theorem propagate_propagationKept (graph : Cfg) (defined : ReadsDefined graph)
    (steady : Steady graph) : PropagationKept graph := by
  intro maxIterations host lawful reads fuel schedule world
  let related : Status host × Machine host → Status host × Machine host → Prop :=
    fun state state' => state' = state ∧ ∀ point, state.1 = .running point →
      graph.Traced point state.2 ∧ Held graph point state.2
  have substituted := substituted_propagate maxIterations graph
  have simulated : related (graph.run fuel schedule world)
      ((propagate maxIterations graph).run fuel schedule world) := by
    apply run_simulation
    · constructor
      · rw [Cfg.start, Cfg.start, substituted.entry]
      · rintro point ⟨⟩
        refine ⟨traced_start world, ?_, ?_⟩
        · intro register value made content _ found
          cases found
        · intro register value copy
          exact copy.elim
    · rintro interrupt ⟨status, machine⟩ _ ⟨rfl, holds⟩
      cases status with
      | running point =>
        obtain ⟨traced, held⟩ := holds point rfl
        refine ⟨?_, ?_⟩
        · cases interrupt with
          | some exception => simp only [step, substituted.handlers]
          | none =>
            exact perform_propagate maxIterations lawful reads defined steady fuel traced held
        · intro next running
          have stepped : graph.step fuel interrupt (.running point, machine) =
              (.running next, (graph.step fuel interrupt (.running point, machine)).2) :=
            Prod.ext running rfl
          exact ⟨traced.step stepped, held.step reads defined steady traced stepped⟩
      | finished exit => exact ⟨rfl, fun _ running => by cases running⟩
      | stopped => exact ⟨rfl, fun _ running => by cases running⟩
  exact simulated.1

instance (graph : Cfg) (point : Point) : Decidable (QuietAt graph point) :=
  decidable_of_iff ((graph.statementAt point).all Statement.isQuiet = true) (by
    unfold QuietAt
    cases graph.statementAt point <;> simp)

/-- What stands for a register that is read still has its value, where nothing but plain
assignments writes registers. -/
def StandsStill (graph : Cfg) (point : Point) (register : Nat) : Prop :=
  match copiesAt graph point register with
  | some (.value value) => value.isPlace = true → (false, register) ∉ graph.phasedAt point ∧
      ∀ index < point.index,
        (∀ later < point.index, index ≤ later → graph.definedAt ⟨point.block, later⟩ ≠ some register) →
          QuietAt graph ⟨point.block, index⟩
  | some _ => False
  | none => True

instance (graph : Cfg) (point : Point) (register : Nat) :
    Decidable (StandsStill graph point register) := by
  unfold StandsStill
  split <;> infer_instance

theorem sparedSince_of_quiet (free : ∀ point, graph.otherWritesAt point = []) {register : Nat}
    {value : Value} : ∀ {index : Nat},
    (value.isPlace = true → ∀ earlier < index,
      (∀ later < index, earlier ≤ later → graph.definedAt ⟨block, later⟩ ≠ some register) →
        QuietAt graph ⟨block, earlier⟩) →
      SparedSince graph block index register value
  | 0, _ => trivial
  | index + 1, quiet => by
    have unwritten : ∀ register, register ∉ graph.otherWritesAt ⟨block, index⟩ := by
      intro register
      rw [free]
      exact List.not_mem_nil
    by_cases defines : graph.definedAt ⟨block, index⟩ = some register
    · exact .inl defines
    · refine .inr ⟨sparedSince_of_quiet free ?_, unwritten register, fun _ _ => unwritten _, ?_⟩
      · intro isPlace earlier low undefined
        apply quiet isPlace earlier (Nat.lt_succ_of_lt low)
        intro later bound after
        rcases Nat.lt_succ_iff_lt_or_eq.mp bound with below | rfl
        · exact undefined later below after
        · exact defines
      · intro isPlace
        apply quiet isPlace index (Nat.lt_succ_self index)
        intro later bound after
        obtain rfl := le_antisymm (Nat.lt_succ_iff.mp bound) after
        exact defines

/-- A graph without other writes and computed keys is steady where everything stands
still. -/
theorem steady_of_standsStill {points : List Point} (free : ∀ point, graph.otherWritesAt point = [])
    (keyless : ∀ point, graph.keysAt point = []) (entry : ⟨graph.entry, 0⟩ ∈ points)
    (closed : ∀ point ∈ points, ∀ next ∈ graph.moves point, next ∈ points)
    (still : ∀ point ∈ points, ∀ register ∈ graph.reachedAt point, StandsStill graph point register) :
    Steady graph := by
  have unwritten : ∀ {point register}, register ∉ graph.innerWritesAt point := by
    intro point register member
    have written := graph.innerWritesAt_subset point member
    rw [free] at written
    exact List.not_mem_nil written
  have stands : ∀ {point register expression}, graph.Reachable point →
      register ∈ graph.reachedAt point → Stands graph point register expression →
      ∃ value, expression = .value value ∧ (value.isPlace = true →
        (false, register) ∉ graph.phasedAt point ∧ ∀ index < point.index,
          (∀ later < point.index, index ≤ later →
            graph.definedAt ⟨point.block, later⟩ ≠ some register) →
              QuietAt graph ⟨point.block, index⟩) := by
    intro point register expression reachable reached stands
    have holds := still point (mem_of_reachable entry closed reachable) register reached
    rw [StandsStill, (copiesAt_eq_some point register expression).mpr stands] at holds
    cases expression with
    | value value => exact ⟨value, rfl, holds⟩
    | _ => exact holds.elim
  constructor
  · intro point write register value reached resolved holds
    have written := (holds.writer.2 write rfl).2
    rw [free] at written
    exact List.not_mem_nil written
  · intro point register value reachable reached unresolved copy
    have stood : Stands graph point register (.value value) := by
      rw [Stands, Prefers, unresolved]
      exact copy
    obtain ⟨_, ⟨⟩, quiet⟩ := stands reachable reached stood
    exact sparedSince_of_quiet free fun isPlace => (quiet isPlace).2
  · exact fun _ _ _ => ⟨unwritten, fun _ _ => unwritten⟩
  · intro point register value reachable member stood
    have reached : register ∈ graph.reachedAt point := by
      rw [← graph.map_phasedAt]
      exact List.mem_map_of_mem member
    obtain ⟨_, ⟨⟩, early⟩ := stands reachable reached stood
    exact Bool.eq_false_iff.mpr fun isPlace => (early isPlace).1 member
  · intro point register expression reachable reached stood
    obtain ⟨value, same, _⟩ := stands reachable reached stood
    exact ⟨value, same⟩
  · intro point key _ member
    rw [keyless] at member
    cases member

/-- A loop that adds a parameter, read through a chain of registers, to an environment
slot. -/
def slotSum : Cfg where
  entry := 0
  blocks := [
    ⟨[.assignReg 0 (.value (.parameter 0)), .assignReg 2 (.value (.binding (.closureVar 0 3))),
      .assignReg 1 (.register 0),
      .assignReg 3 (.binary .add (.register 2) (.register 1))], .jump 1⟩,
    ⟨[.assignReg 5 (.register 3),
      .assignReg 3 (.binary .sub (.register 5) (.value (.constant (.integer 1))))],
      .branch (.binary .lt (.register 1) (.register 3)) 1 2⟩,
    ⟨[], .returnTerm (some (.register 3))⟩]
  exceptionHandlers := []

theorem slotSum_otherWrites (point : Point) : slotSum.otherWritesAt point = [] := by
  rcases point with ⟨_ | _ | _ | block, _ | _ | _ | _ | index⟩ <;> rfl

theorem slotSum_keys (point : Point) : slotSum.keysAt point = [] := by
  rcases point with ⟨_ | _ | _ | block, _ | _ | _ | _ | index⟩ <;> rfl

theorem slotSum_propagationKept : PropagationKept slotSum :=
  propagate_propagationKept slotSum
    (readsDefined_of_explored 10 (by decide +kernel) (by decide +kernel) (by decide +kernel))
    (steady_of_standsStill slotSum_otherWrites slotSum_keys
      (show ⟨slotSum.entry, 0⟩ ∈ slotSum.found 10 by decide +kernel) (by decide +kernel)
      (by decide +kernel))

/-- A variable is copied into a register and assigned before the register is read. -/
def overtaken : Cfg where
  entry := 0
  blocks := [
    ⟨[.assignReg 0 (.value (.binding (.variable ⟨"x", none⟩))),
      .assign (.binding (.variable ⟨"x", none⟩)) (.value (.constant (.integer 2)))],
      .returnTerm (some (.register 0))⟩]
  exceptionHandlers := []

/-- The value a run of the recording engine returned. -/
def returnedBy (state : Status Tracing.host × Machine Tracing.host) : Option Constant :=
  match state.1 with
  | .finished (.returns value) => value
  | _ => none

theorem tracing_stillReads : Tracing.host.StillReads := ⟨fun _ _ => rfl, fun _ _ _ => rfl⟩

/-- The register holds what the variable was, the replaced read finds what it is now. -/
theorem not_propagate_propagationKept :
    ¬ ∀ graph : Cfg, ReadsDefined graph → PropagationKept graph := by
  intro all
  have defined : ReadsDefined overtaken :=
    readsDefined_of_explored 4 (by decide +kernel) (by decide +kernel) (by decide +kernel)
  have kept := all overtaken defined 10 Tracing.host Tracing.lawful tracing_stillReads 0
    [none, none, none] Tracing.blank
  have original : returnedBy (overtaken.run 0 [none, none, none] Tracing.blank) =
      some .undefined := by decide +kernel
  have propagated : returnedBy ((propagate 10 overtaken).run 0 [none, none, none] Tracing.blank) =
      some (.integer 2) := by decide +kernel
  rw [kept, original] at propagated
  exact nomatch propagated

end Propagate

end HermesDecomp.Ir
