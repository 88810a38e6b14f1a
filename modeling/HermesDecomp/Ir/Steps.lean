import HermesDecomp.Ir.RenamedReads
import HermesDecomp.Ir.Renaming

/-!
# What a step of a run can do

A step of a run moves along the graph, and a register holds afterwards what it held
before, unless the statement or terminator at the point writes it. From this follows,
for whole runs, which write the content of a register can stem from: one that a path
leads from on which the register is not defined again.
-/

namespace HermesDecomp.Ir

open Action List

variable {host : Host} {related : Machine host → Machine host → Prop} {map : Nat → Nat}

theorem Expression.agree_self (expression : Expression)
    (renames : RenamesFor related id expression.visit) :
    Agree related expression.evaluate expression.evaluate := by
  have agree := expression.agree_rewriteReads renames
  rwa [expression.rewriteReads_id] at agree

theorem AssignTarget.agree_self (target : AssignTarget)
    (renames : RenamesFor related id target.visit)
    {value value' : Exec host host.Val} (agree : Agree related value value') :
    Agree related (target.store value) (target.store value') := by
  have stored := target.agree_rewriteReads renames agree
  rwa [target.rewriteReads_id] at stored

theorem Statement.agree_self (fuel : Nat) (statement : Statement) (label : Option String)
    (renames : RenamesFor related id statement.visit) :
    Agree related (statement.execute fuel label) (statement.execute fuel label) := by
  have agree := statement.agree_rewriteReads fuel label renames
  rwa [statement.rewriteReads_id] at agree

theorem Renames.mono {reads reads' writes writes' : List Nat}
    (renames : Renames related map reads writes) (fewerReads : reads' ⊆ reads)
    (fewerWrites : writes' ⊆ writes) : Renames related map reads' writes' :=
  ⟨renames.toCompatible, fun register member => renames.read register (fewerReads member),
    fun register member => renames.write register (fewerWrites member)⟩

theorem agree_selectCase (value : host.Val) (default : BlockId) :
    ∀ cases : List (Expression × BlockId),
      Renames related id (cases.flatMap fun test => test.1.reads)
        (cases.flatMap fun test => test.1.writes) →
      Agree related (selectCase value default cases) (selectCase value default cases)
  | [], _ => agree_pure _
  | (test, target) :: rest, renames => by
    have onTest : RenamesFor related id fun visitor => test.visit visitor :=
      renames.mono (subset_append_left _ _) (subset_append_left _ _)
    have onRest := renames.mono (subset_append_right _ _) (subset_append_right _ _)
    apply agree_bind (test.agree_self onTest)
    intro candidate
    exact agree_ite (agree_pure _) (agree_selectCase value default rest onRest)

/-- A terminator with renamed reads agrees with the original one, where the tests of a
switch find their values at the registers they name. -/
theorem Terminator.agree_rewriteReads (terminator : Terminator)
    (onValue : Renames related map terminator.valueReads terminator.writes)
    (onTests : Renames related id terminator.testReads terminator.writes) :
    Agree related (Terminator.execute terminator) (Terminator.execute (terminator.rewriteReads map)) := by
  cases terminator with
  | jump target => exact agree_pure _
  | branch condition trueTarget falseTarget =>
    exact agree_choiceOf (condition.agree_rewriteReads onValue) (agree_pure _) (agree_pure _)
  | returnTerm value =>
    cases value with
    | none => exact agree_fail _
    | some value => exact agree_bind (value.agree_rewriteReads onValue) fun _ => agree_fail _
  | throwTerm value => exact agree_bind (value.agree_rewriteReads onValue) fun _ => agree_fail _
  | switch value cases default =>
    have onDiscriminant : RenamesFor related map fun visitor => value.visit visitor :=
      onValue.mono (List.Subset.refl _) (subset_append_left _ _)
    have onCases := onTests.mono (List.Subset.refl _) (subset_append_right _ _)
    apply agree_bind (value.agree_rewriteReads onDiscriminant)
    intro discriminant
    exact agree_selectCase discriminant default cases onCases
  | none => exact agree_fail _

/-- A chain of cases answers one of its targets. -/
theorem returns_selectCase (value : host.Val) (default : BlockId) :
    ∀ cases : List (Expression × BlockId),
      Returns (selectCase value default cases : Exec host BlockId)
        fun target => target ∈ cases.map Prod.snd ++ [default]
  | [] => returns_pure (mem_singleton_self _)
  | (test, first) :: rest => by
    apply returns_bind
    intro candidate
    apply returns_ite
    · exact returns_pure mem_cons_self
    · intro machine target selected
      exact mem_cons_of_mem _ (returns_selectCase value default rest machine target selected)

/-- The block a terminator continues with is a successor. -/
theorem Terminator.returns_execute (terminator : Terminator) :
    Returns (Terminator.execute terminator : Exec host BlockId)
      fun target => target ∈ terminator.successors := by
  cases terminator with
  | jump destination => exact returns_pure (mem_singleton_self _)
  | branch condition trueTarget falseTarget =>
    apply returns_bind
    intro value
    apply returns_ite
    · exact returns_pure mem_cons_self
    · exact returns_pure (mem_cons_of_mem _ (mem_singleton_self _))
  | returnTerm value =>
    cases value with
    | none => exact returns_fail _ _
    | some value => exact returns_bind fun _ => returns_fail _ _
  | throwTerm value => exact returns_bind fun _ => returns_fail _ _
  | switch value cases default =>
    exact returns_bind fun discriminant => returns_selectCase discriminant default cases
  | none => exact returns_fail _ _

/-- Only the given registers differ from the start, and those that differ were written
by the writer of the start. -/
structure Framed (start : Machine host) (writes : List Nat) (machine : Machine host) : Prop where
  writer : machine.writer = start.writer
  registers : ∀ register, machine.registers register = start.registers register ∨
    (register ∈ writes ∧ ∃ value, machine.registers register = some ⟨value, start.writer⟩)

/-- A frame is kept by the writes it allows and by everything outside the registers. -/
theorem renames_framed (start : Machine host) (reads writes : List Nat) :
    Renames (fun machine machine' => machine = machine' ∧ Framed start writes machine) id
      reads writes where
  world := by
    rintro machine _ ⟨rfl, _⟩
    rfl
  update := by
    rintro machine _ ⟨rfl, framed⟩ world
    exact ⟨rfl, framed.writer, framed.registers⟩
  read := by
    rintro register _ machine _ ⟨rfl, _⟩
    rfl
  write := by
    rintro register member value machine _ ⟨rfl, framed⟩
    refine ⟨rfl, framed.writer, ?_⟩
    intro other
    by_cases here : other = register
    · subst here
      right
      exact ⟨member, value, by rw [Machine.write_self, framed.writer]⟩
    · rw [Machine.write_of_ne here]
      exact framed.registers other

theorem Framed.refl (start : Machine host) (writes : List Nat) : Framed start writes start :=
  ⟨rfl, fun _ => .inl rfl⟩

theorem Expression.framed (expression : Expression) (start : Machine host) :
    Framed start expression.writes (expression.evaluate start).2 :=
  (expression.agree_rewriteReads (renames_framed start _ _) start start
    ⟨rfl, Framed.refl start _⟩).2.2

theorem Statement.framed (fuel : Nat) (statement : Statement) (label : Option String)
    (start : Machine host) : Framed start statement.writes (statement.execute fuel label start).2 :=
  (statement.agree_rewriteReads fuel label (renames_framed start _ _) start start
    ⟨rfl, Framed.refl start _⟩).2.2

theorem Terminator.framed (terminator : Terminator) (start : Machine host) :
    Framed start terminator.writes (Terminator.execute terminator start).2 :=
  (terminator.agree_rewriteReads (renames_framed start _ _) (renames_framed start _ _) start start
    ⟨rfl, Framed.refl start _⟩).2.2

/-- The registers a statement may write before it has read everything it reads. The
result of a `delete` is written last. -/
def Statement.innerWrites : Statement → List Nat
  | assignReg _ value => value.writes
  | delete target _ => target.writes
  | statement => statement.writes

theorem Statement.innerWrites_subset (statement : Statement) :
    statement.innerWrites ⊆ statement.otherWrites := by
  unfold Statement.innerWrites
  split
  · exact List.Subset.refl _
  · exact subset_append_left _ _
  · rename_i notAssign _
    unfold Statement.otherWrites
    split
    · exact absurd rfl (notAssign _ _)
    · exact List.Subset.refl _

variable {statement : Statement}

theorem Statement.innerWrites_of_none (plain : statement.definition? = none)
    (notDelete : ∀ target result, statement ≠ .delete target result) :
    statement.innerWrites = statement.writes := by
  unfold Statement.innerWrites
  split
  · exact absurd plain (Option.some_ne_none _)
  · exact absurd rfl (notDelete _ _)
  · rfl

variable {register : Nat}

/-- A statement with a definition is a plain register assignment. -/
theorem Statement.eq_assignReg (defines : statement.definition? = some register) :
    ∃ value, statement = .assignReg register value := by
  unfold Statement.definition? at defines
  split at defines
  · obtain ⟨⟩ := defines
    exact ⟨_, rfl⟩
  · exact absurd defines.symm (Option.some_ne_none _)

theorem Statement.otherWrites_of_none (plain : statement.definition? = none)
    : statement.otherWrites = statement.writes:= by
  unfold Statement.otherWrites
  split
  · exact absurd plain (Option.some_ne_none _)
  · rfl

theorem Statement.executeAt_of_none (plain : statement.definition? = none) (fuel : Nat)
    (point : Point) :
    (statement.executeAt fuel point : Exec host PUnit) =
      (do setWriter (.other point); statement.execute fuel none) := by
  unfold Statement.executeAt
  split
  · exact absurd plain (Option.some_ne_none _)
  · rfl

theorem Statement.executeAt_assignReg (register : Nat) (value : Expression) (fuel : Nat)
    (point : Point) (machine : Machine host) :
    (Statement.assignReg register value).executeAt fuel point machine =
      (do let content ← value.evaluate
          setWriter (.definition point)
          writeRegister register content : Exec host PUnit)
        { machine with writer := .other point } := rfl

variable {value : Expression} {fuel : Nat} {point : Point} {machine middle : Machine host}

/-- A plain assignment that runs to its end writes its register, by the definition. -/
theorem Statement.executeAt_ok {content : host.Val}
    (ran : value.evaluate { machine with writer := .other point } = (.ok content, middle)) :
    (Statement.assignReg register value).executeAt fuel point machine =
      (.ok ⟨⟩, { middle with writer := .definition point }.write register content) := by
  rw [Statement.executeAt_assignReg, bind_apply, ran]
  rfl

theorem Statement.executeAt_err {exit : Exit host}
    (ran : value.evaluate { machine with writer := .other point } = (.err exit, middle)) :
    (Statement.assignReg register value).executeAt fuel point machine = (.err exit, middle) := by
  rw [Statement.executeAt_assignReg, bind_apply, ran]

theorem Statement.executeAt_panic
    (ran : value.evaluate { machine with writer := .other point } = (.panic, middle)) :
    (Statement.assignReg register value).executeAt fuel point machine = (.panic, middle) := by
  rw [Statement.executeAt_assignReg, bind_apply, ran]

namespace Cfg

variable (graph : Cfg)

/-- The registers the statement or terminator at a point reads. -/
def readsAt (point : Point) : List Nat :=
  match graph.statementAt point with
  | some statement => statement.reads
  | none => (graph.terminator point.block).reads

/-- The registers the statement or terminator at a point may write otherwise than by
being a plain assignment. -/
def otherWritesAt (point : Point) : List Nat :=
  match graph.statementAt point with
  | some statement => statement.otherWrites
  | none => (graph.terminator point.block).writes

/-- The registers read at a point, the tests of a switch left out. -/
def valueReadsAt (point : Point) : List Nat :=
  match graph.statementAt point with
  | some statement => statement.reads
  | none => (graph.terminator point.block).valueReads

/-- The registers read by the tests of a switch at a point. -/
def testReadsAt (point : Point) : List Nat :=
  match graph.statementAt point with
  | some _ => []
  | none => (graph.terminator point.block).testReads

/-- The registers that may be written at a point before everything is read there. -/
def innerWritesAt (point : Point) : List Nat :=
  match graph.statementAt point with
  | some statement => statement.innerWrites
  | none => (graph.terminator point.block).writes

theorem innerWritesAt_subset (point : Point) :
    graph.innerWritesAt point ⊆ graph.otherWritesAt point := by
  unfold innerWritesAt otherWritesAt
  cases graph.statementAt point with
  | some statement => exact statement.innerWrites_subset
  | none => exact List.Subset.refl _

/-- The move does not complete the definition of a register. -/
def Keeps (register : Nat) (point next : Point) : Prop :=
  next = ⟨point.block, point.index + 1⟩ → graph.definedAt point ≠ some register

/-- What became of a register in a move. -/
inductive Touched (point next : Point) (machine machine' : Machine host) (register : Nat) : Prop where
  | kept (keeps : graph.Keeps register point next)
      (same : machine'.registers register = machine.registers register)
  | other (keeps : graph.Keeps register point next) (writes : register ∈ graph.otherWritesAt point)
      (value : host.Val) (found : machine'.registers register = some ⟨value, .other point⟩)
  | defined (isNext : next = ⟨point.block, point.index + 1⟩)
      (defines : graph.definedAt point = some register) (value : host.Val)
      (found : machine'.registers register = some ⟨value, .definition point⟩)

variable {graph}

variable {point : Point}

theorem statementAt_of_get {block : BasicBlock} (found : graph.get point.block = some block) :
    graph.statementAt point = block.statements[point.index]? := by
  rw [statementAt, statements, found]

/-- A point without a statement that is not behind its block is at the end of it. -/
theorem index_eq_length (inside : point.index ≤ (graph.statements point.block).length)
    (absent : graph.statementAt point = none) :
    point.index = (graph.statements point.block).length :=
  le_antisymm inside (List.getElem?_eq_none_iff.mp absent)

theorem not_next_of_start (point : Point) (block : BlockId) :
    (⟨block, 0⟩ : Point) ≠ ⟨point.block, point.index + 1⟩ := by
  intro same
  exact absurd (congrArg Point.index same).symm (Nat.succ_ne_zero _)

theorem keeps_of_start (register : Nat) (point : Point) (block : BlockId) :
    graph.Keeps register point ⟨block, 0⟩ :=
  fun same => absurd same (not_next_of_start point block)

/-- Executing the statement at a point, up to where it ends or fails, writes the
registers as the graph says. -/
theorem executeAt_touches (fuel : Nat) {statement : Statement}
    (found : graph.statementAt point = some statement) (machine : Machine host) (next : Point)
    (completed : next = ⟨point.block, point.index + 1⟩ ↔
      (statement.executeAt fuel point machine).1 = .ok ⟨⟩) (register : Nat) :
    graph.Touched point next machine (statement.executeAt fuel point machine).2 register := by
  have writes : graph.otherWritesAt point = statement.otherWrites := by rw [otherWritesAt, found]
  have defines : graph.definedAt point = statement.definition? := by
    rw [definedAt, found]
    rfl
  have plain : ∀ ended : Machine host, Framed { machine with writer := .other point }
      statement.otherWrites ended → graph.Keeps register point next →
      graph.Touched point next machine ended register := by
    intro ended framed keeps
    rcases framed.registers register with same | ⟨member, value, holds⟩
    · exact .kept keeps same
    · exact .other keeps (by rw [writes]; exact member) value holds
  cases made : statement.definition? with
  | some target =>
    obtain ⟨value, rfl⟩ := Statement.eq_assignReg made
    have framed := value.framed { machine with writer := .other point }
    rcases ran : value.evaluate { machine with writer := .other point } with
      ⟨content | exit | _, middle⟩
    · rw [Statement.executeAt_ok ran] at completed ⊢
      rw [ran] at framed
      have isNext := completed.mpr rfl
      by_cases here : register = target
      · subst here
        exact .defined isNext (by rw [defines]; rfl) content (Machine.write_self ..)
      · have keeps : graph.Keeps register point next := by
          intro _ same
          rw [defines] at same
          exact here (Option.some.inj same).symm
        have away := Machine.write_of_ne here content { middle with writer := .definition point }
        cases plain middle framed keeps with
        | kept keeps same => exact .kept keeps (away.trans same)
        | other keeps writes value holds => exact .other keeps writes value (away.trans holds)
        | defined _ defined' =>
          rw [defines] at defined'
          exact absurd (Option.some.inj defined').symm here
    · rw [Statement.executeAt_err ran] at completed ⊢
      rw [ran] at framed
      exact plain middle framed fun isNext => absurd (completed.mp isNext) (by simp)
    · rw [Statement.executeAt_panic ran] at completed ⊢
      rw [ran] at framed
      exact plain middle framed fun isNext => absurd (completed.mp isNext) (by simp)
  | none =>
    rw [Statement.executeAt_of_none made, bind_apply]
    have framed := statement.framed fuel none { machine with writer := .other point }
    rw [← Statement.otherWrites_of_none made] at framed
    apply plain _ framed
    intro _ same
    rw [defines, made] at same
    exact absurd same.symm (Option.some_ne_none _)

/-- A terminator writes the registers the graph says it may write. -/
theorem terminator_touches (absent : graph.statementAt point = none) (machine : Machine host)
    (next : BlockId) (register : Nat) :
    graph.Touched point ⟨next, 0⟩ machine
      (Terminator.execute (graph.terminator point.block) { machine with writer := .other point }).2
      register := by
  have framed := (graph.terminator point.block).framed { machine with writer := .other point }
  have keeps : graph.Keeps register point ⟨next, 0⟩ := keeps_of_start register point next
  rcases framed.registers register with same | ⟨member, value, holds⟩
  · exact .kept keeps same
  · exact .other keeps (by rw [otherWritesAt, absent]; exact member) value holds

variable {register : Nat}

theorem Touched.of_registers {point next : Point} {machine machine' machine'' : Machine host}
    (touched : graph.Touched point next machine machine' register)
    (same : machine''.registers = machine'.registers) :
    graph.Touched point next machine machine'' register := by
  cases touched with
  | kept keeps kept => exact .kept keeps (by rw [same, kept])
  | other keeps writes value holds => exact .other keeps writes value (by rw [same, holds])
  | defined isNext defines value holds => exact .defined isNext defines value (by rw [same, holds])

variable {machine machine' : Machine host}

/-- An exit that does not end the run leads to a handler of the block. -/
theorem dispatch_running {block : BlockId} {exit : Exit host} {next : Point}
    (went : graph.dispatch block machine exit = (.running next, machine')) :
    ∃ handler ∈ graph.exceptionHandlers, block ∈ handler.tryBlocks ∧
      next = ⟨handler.catchBlock, 0⟩ ∧ machine'.registers = machine.registers := by
  unfold dispatch at went
  split at went
  · split at went
    · rename_i handler selected
      obtain ⟨⟩ := went
      have protects := List.find?_some selected
      exact ⟨handler, mem_of_find?_eq_some selected, contains_iff_mem.mp protects, rfl, rfl⟩
    · exact absurd (congrArg Prod.fst went) (by simp)
  · exact absurd (congrArg Prod.fst went) (by simp)

variable {fuel : Nat} {interrupt : Option (Interrupt host)}

/-- A step that goes on stays where it is, and then changes nothing, or it moves along
the graph and changes the registers as the graph says. -/
theorem step_spec {point next : Point}
    (inside : point.index ≤ (graph.statements point.block).length)
    (stepped : graph.step fuel interrupt (.running point, machine) = (.running next, machine')) :
    (next = point ∧ machine' = machine) ∨ (Move graph point next ∧
      ∀ register, graph.Touched point next machine machine' register) := by
  cases interrupt with
  | some exception =>
    simp only [step] at stepped
    split at stepped
    · rename_i handler found
      split at stepped
      · rename_i protects
        obtain ⟨⟩ := stepped
        right
        refine ⟨Move.raise (mem_of_getElem? found) protects inside, ?_⟩
        intro register
        exact .kept (keeps_of_start register point _) rfl
      · obtain ⟨⟩ := stepped
        exact .inl ⟨rfl, rfl⟩
    · obtain ⟨⟩ := stepped
      exact .inl ⟨rfl, rfl⟩
  | none =>
    right
    simp only [step, perform] at stepped
    split at stepped
    · exact absurd (congrArg Prod.fst stepped) (by simp)
    · rename_i block found
      have here := statementAt_of_get found
      split at stepped
      · rename_i statement present
        rw [present] at here
        have touches := executeAt_touches fuel here machine
        rcases ran : statement.executeAt fuel point machine with ⟨_ | exit | _, middle⟩
        · rw [ran] at stepped touches
          obtain ⟨⟩ := stepped
          have low : point.index < (graph.statements point.block).length :=
            (List.getElem?_eq_some_iff.mp here).1
          exact ⟨Move.next low, touches _ ⟨fun _ => rfl, fun _ => rfl⟩⟩
        · rw [ran] at stepped touches
          obtain ⟨handler, listed, protects, rfl, same⟩ := dispatch_running stepped
          refine ⟨Move.raise listed protects inside, ?_⟩
          intro register
          apply Touched.of_registers _ same
          apply touches
          constructor
          · intro isNext
            exact absurd isNext (not_next_of_start point _)
          · intro impossible
            cases impossible
        · rw [ran] at stepped
          exact absurd (congrArg Prod.fst stepped) (by simp [proceed])
      · rename_i absent
        rw [absent] at here
        have isLast := index_eq_length inside here
        have sameTerminator : graph.terminator point.block = block.terminator := by
          rw [terminator, found]
        have touches := terminator_touches here machine
        rw [sameTerminator] at touches
        rw [bind_apply] at stepped
        simp only [setWriter] at stepped
        rcases ran : Terminator.execute block.terminator { machine with writer := .other point } with
          ⟨target | exit | _, middle⟩
        · rw [ran] at stepped touches
          obtain ⟨⟩ := stepped
          have follows : target ∈ graph.successors point.block := by
            rw [successors, sameTerminator]
            exact block.terminator.returns_execute _ target (congrArg Prod.fst ran)
          refine ⟨?_, touches target⟩
          have moved : Move graph ⟨point.block, (graph.statements point.block).length⟩ ⟨target, 0⟩ :=
            Move.follow follows
          rwa [← isLast] at moved
        · rw [ran] at stepped touches
          obtain ⟨handler, listed, protects, rfl, same⟩ := dispatch_running stepped
          refine ⟨Move.raise listed protects inside, ?_⟩
          intro register
          exact (touches handler.catchBlock register).of_registers same
        · rw [ran] at stepped
          exact absurd (congrArg Prod.fst stepped) (by simp [proceed])

theorem ne_next (point : Point) : point ≠ ⟨point.block, point.index + 1⟩ := by
  intro same
  exact absurd (congrArg Point.index same) (ne_of_lt (Nat.lt_succ_self _))

/-- A step past a statement executed it to its end. -/
theorem step_completed {statement : Statement} (found : graph.statementAt point = some statement)
    (stepped : graph.step fuel interrupt (.running point, machine) =
      (.running ⟨point.block, point.index + 1⟩, machine')) :
    statement.executeAt fuel point machine = (.ok ⟨⟩, machine') := by
  cases interrupt with
  | some exception =>
    simp only [step] at stepped
    split at stepped
    · split at stepped
      · have same : (⟨_, 0⟩ : Point) = ⟨point.block, point.index + 1⟩ :=
          Status.running.inj (congrArg Prod.fst stepped)
        exact absurd same (not_next_of_start point _)
      · exact absurd (Status.running.inj (congrArg Prod.fst stepped)) (ne_next point)
    · exact absurd (Status.running.inj (congrArg Prod.fst stepped)) (ne_next point)
  | none =>
    simp only [step, perform] at stepped
    split at stepped
    · exact absurd (congrArg Prod.fst stepped) (by simp)
    · rename_i block isBlock
      rw [← statementAt_of_get isBlock, found] at stepped
      dsimp only at stepped
      rcases ran : statement.executeAt fuel point machine with ⟨_ | exit | _, middle⟩
      · rw [ran] at stepped
        exact congrArg (Prod.mk _) (congrArg Prod.snd stepped)
      · rw [ran] at stepped
        obtain ⟨handler, _, _, same, _⟩ := dispatch_running stepped
        exact absurd same.symm (not_next_of_start point _)
      · rw [ran] at stepped
        exact absurd (congrArg Prod.fst stepped) (by simp [proceed])

/-- A step past a plain assignment evaluates it and writes its register. -/
theorem step_assigned {value : Expression}
    (found : graph.statementAt point = some (.assignReg register value))
    (stepped : graph.step fuel interrupt (.running point, machine) =
      (.running ⟨point.block, point.index + 1⟩, machine')) :
    ∃ content middle, value.evaluate { machine with writer := .other point } =
        (.ok content, middle) ∧
      machine' = { middle with writer := .definition point }.write register content := by
  have completed := step_completed found stepped
  rcases ran : value.evaluate { machine with writer := .other point } with
    ⟨content | exit | _, middle⟩
  · rw [Statement.executeAt_ok ran] at completed
    exact ⟨content, middle, rfl, (congrArg Prod.snd completed).symm⟩
  · rw [Statement.executeAt_err ran] at completed
    exact nomatch congrArg Prod.fst completed
  · rw [Statement.executeAt_panic ran] at completed
    exact nomatch congrArg Prod.fst completed

/-- Two graphs with the same handlers go on in the same way after parts that ended in
the same way. -/
theorem agree_proceed {graph' : Cfg} {α : Type} (compatible : Compatible related)
    (handlers : graph.exceptionHandlers = graph'.exceptionHandlers) (block : BlockId)
    (next : α → Point) {ended ended' : Outcome (Exit host) α × Machine host}
    (same : ended.1 = ended'.1) (finish : related ended.2 ended'.2) :
    (graph.proceed block next ended).1 = (graph'.proceed block next ended').1 ∧
      related (graph.proceed block next ended).2 (graph'.proceed block next ended').2 := by
  rcases ended with ⟨outcome, machine⟩
  rcases ended' with ⟨outcome', machine'⟩
  dsimp only at same finish
  subst same
  cases outcome with
  | ok | panic => exact ⟨rfl, finish⟩
  | err exit =>
    simp only [proceed]
    cases exit with
    | throws value =>
      simp only [dispatch, handlers]
      split
      · refine ⟨rfl, ?_⟩
        dsimp only [enter]
        rw [compatible.world finish]
        exact compatible.update finish _
      · exact ⟨rfl, finish⟩
    | returns value => exact ⟨rfl, finish⟩
    | breaks label => exact ⟨rfl, finish⟩
    | continues label => exact ⟨rfl, finish⟩
    | jumps target => exact ⟨rfl, finish⟩

/-- Two graphs with the same handlers take a step in the same way where they perform
what stands at the point in the same way. -/
theorem agree_step {graph' : Cfg} (compatible : Compatible related)
    (handlers : graph.exceptionHandlers = graph'.exceptionHandlers)
    (start : related machine machine')
    (performed : (graph.perform fuel point machine).1 = (graph'.perform fuel point machine').1 ∧
      related (graph.perform fuel point machine).2 (graph'.perform fuel point machine').2)
    (interrupt : Option (Interrupt host)) :
    (graph.step fuel interrupt (.running point, machine)).1 =
        (graph'.step fuel interrupt (.running point, machine')).1 ∧
      related (graph.step fuel interrupt (.running point, machine)).2
        (graph'.step fuel interrupt (.running point, machine')).2 := by
  cases interrupt with
  | none => exact performed
  | some exception =>
    simp only [step, handlers]
    split
    · split
      · refine ⟨rfl, ?_⟩
        dsimp only [enter]
        rw [compatible.world start]
        exact compatible.update start _
      · exact ⟨rfl, start⟩
    · exact ⟨rfl, start⟩

/-- The content a writer gave a register may still be there at a point: a path leads
there from a reachable write, and no move on it completes a definition of the
register. -/
inductive Holds (graph : Cfg) (register : Nat) : Writer → Point → Prop where
  | defined {point : Point} (reachable : graph.Reachable point)
      (defines : graph.definedAt point = some register) :
      Holds graph register (.definition point) ⟨point.block, point.index + 1⟩
  | written {point next : Point} (reachable : graph.Reachable point)
      (writes : register ∈ graph.otherWritesAt point) (move : Move graph point next)
      (keeps : graph.Keeps register point next) : Holds graph register (.other point) next
  | kept {writer : Writer} {point next : Point} (holds : Holds graph register writer point)
      (move : Move graph point next) (keeps : graph.Keeps register point next) :
      Holds graph register writer next

/-- A path leads to a point, and nothing on it may write the register. -/
inductive Unset (graph : Cfg) (register : Nat) : Point → Prop where
  | entry : Unset graph register ⟨graph.entry, 0⟩
  | move {point next : Point} (unset : Unset graph register point) (move : Move graph point next)
      (keeps : graph.Keeps register point next) (unwritten : register ∉ graph.otherWritesAt point) :
      Unset graph register next

/-- Every read is preceded by a definition on every path. -/
def ReadsDefined (graph : Cfg) : Prop :=
  ∀ point, ∀ register ∈ graph.readsAt point, ¬ Unset graph register point

/-- A writer whose content holds somewhere is a reachable write of the register. -/
theorem Holds.writer {writer : Writer} (holds : Holds graph register writer point) :
    (∀ made, writer = .definition made →
      graph.Reachable made ∧ graph.definedAt made = some register) ∧
    (∀ made, writer = .other made → graph.Reachable made ∧ register ∈ graph.otherWritesAt made) := by
  induction holds with
  | defined reachable defines =>
    refine ⟨?_, fun made same => Writer.noConfusion same⟩
    rintro made ⟨⟩
    exact ⟨reachable, defines⟩
  | written reachable writes _ _ =>
    refine ⟨fun made same => Writer.noConfusion same, ?_⟩
    rintro made ⟨⟩
    exact ⟨reachable, writes⟩
  | kept _ _ _ ih => exact ih

/-- A move along a graph ends inside a block or at its end. -/
theorem index_le_of_move {point next : Point} (move : Move graph point next) :
    next.index ≤ (graph.statements next.block).length := by
  cases move with
  | next inside => exact inside
  | follow | raise => exact Nat.zero_le _

/-- Where a run is, it can be by the paths of the graph, and what its registers hold
stems from writes the paths allow. -/
structure Traced (graph : Cfg) (point : Point) (machine : Machine host) : Prop where
  reachable : graph.Reachable point
  inside : point.index ≤ (graph.statements point.block).length
  holds : ∀ register cell, machine.registers register = some cell →
    Holds graph register cell.writer point
  unset : ∀ register, machine.registers register = none →
    Unset graph register point ∨ ∃ write, Holds graph register (.other write) point

theorem Traced.step {fuel : Nat} {interrupt : Option (Interrupt host)} {point next : Point}
    {machine machine' : Machine host} (traced : graph.Traced point machine)
    (stepped : graph.step fuel interrupt (.running point, machine) = (.running next, machine')) :
    graph.Traced next machine' := by
  rcases step_spec traced.inside stepped with ⟨rfl, rfl⟩ | ⟨move, touched⟩
  · exact traced
  · refine ⟨traced.reachable.tail move, index_le_of_move move, ?_, ?_⟩
    · intro register cell found
      cases touched register with
      | kept keeps same =>
        rw [same] at found
        exact .kept (traced.holds register cell found) move keeps
      | other keeps writes value holds =>
        obtain rfl : _ = cell := Option.some.inj (holds.symm.trans found)
        exact .written traced.reachable writes move keeps
      | defined isNext defines value holds =>
        obtain rfl : _ = cell := Option.some.inj (holds.symm.trans found)
        subst isNext
        exact .defined traced.reachable defines
    · intro register missing
      cases touched register with
      | kept keeps same =>
        rw [same] at missing
        rcases traced.unset register missing with unset | ⟨write, holds⟩
        · by_cases writes : register ∈ graph.otherWritesAt point
          · exact .inr ⟨point, .written traced.reachable writes move keeps⟩
          · exact .inl (.move unset move keeps writes)
        · exact .inr ⟨write, .kept holds move keeps⟩
      | other _ _ value holds =>
        rw [missing] at holds
        exact absurd holds.symm (Option.some_ne_none _)
      | defined _ _ value holds =>
        rw [missing] at holds
        exact absurd holds.symm (Option.some_ne_none _)

theorem traced_start (world : host.World) :
    graph.Traced ⟨graph.entry, 0⟩ (⟨fun _ => none, world, .other ⟨graph.entry, 0⟩⟩ : Machine host) :=
  ⟨.refl, Nat.zero_le _,
    fun _ _ found => absurd found.symm (Option.some_ne_none _), fun _ _ => .inl .entry⟩

end Cfg

end HermesDecomp.Ir
