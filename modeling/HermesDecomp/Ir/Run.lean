import HermesDecomp.Ir.Graph

/-!
# Runs of a graph

A run executes the statements of a block, then its terminator, then goes on in the
block the terminator chose. A thrown value goes to the handler of the block, or ends
the function. Beyond what the statements throw themselves, an exception may leave a
protected block at any point: a run follows a schedule that says where this happens,
so that every way of going through the graph is the run of some schedule.
-/

namespace HermesDecomp.Ir

open Action

variable {host : Host} {α β γ : Type} {related : Machine host → Machine host → Prop}

/-- A relation of machines that share a world and stay related whatever happens to it. -/
structure Compatible (related : Machine host → Machine host → Prop) : Prop where
  world : ∀ {machine machine'}, related machine machine' → machine.world = machine'.world
  update : ∀ {machine machine'}, related machine machine' → ∀ world,
    related { machine with world } { machine' with world }

section Combinators

variable (compatible : Compatible related)

include compatible

theorem agree_perform (operation : Action host.World host.Val α) :
    Agree related (perform operation) (perform operation) := by
  intro machine machine' start
  unfold perform
  rw [← compatible.world start]
  rcases operation machine.world with ⟨_ | _ | _, world⟩
  · exact ⟨rfl, compatible.update start world⟩
  · exact ⟨rfl, compatible.update start world⟩
  · exact ⟨rfl, compatible.update start world⟩

theorem agree_andPerform {part part' : Exec host α} (agree : Agree related part part')
    (operation : α → Action host.World host.Val β) :
    Agree related (andPerform part operation) (andPerform part' operation) :=
  agree_bind agree fun _ => agree_perform compatible _

theorem agree_thenPerform {first first' : Exec host α} {second second' : Exec host β}
    (agreeFirst : Agree related first first') (agreeSecond : Agree related second second')
    (operation : α → β → Action host.World host.Val γ) :
    Agree related (thenPerform first second operation) (thenPerform first' second' operation) :=
  agree_bind agreeFirst fun _ => agree_bind agreeSecond fun _ => agree_perform compatible _

theorem agree_binaryOf (op : BinaryOp) {left left' right right' : Exec host host.Val}
    (agreeLeft : Agree related left left') (agreeRight : Agree related right right') :
    Agree related (binaryOf op left right) (binaryOf op left' right') := by
  apply agree_bind agreeLeft
  intro value
  have plain : Agree related (do let other ← right; perform (host.binary op value other))
      (do let other ← right'; perform (host.binary op value other)) :=
    agree_bind agreeRight fun _ => agree_perform compatible _
  cases op
  case and | logicalAnd => exact agree_ite agreeRight (agree_pure value)
  case or | logicalOr => exact agree_ite (agree_pure value) agreeRight
  case nullishCoalesce => exact agree_ite agreeRight (agree_pure value)
  all_goals exact plain

theorem agree_memberOf (optional : Bool) {object object' : Exec host host.Val}
    {key key' : Exec host host.Key} (agreeObject : Agree related object object')
    (agreeKey : Agree related key key') :
    Agree related (memberOf optional object key) (memberOf optional object' key') := by
  apply agree_bind agreeObject
  intro value
  apply agree_ite (agree_pure _)
  exact agree_bind agreeKey fun _ => agree_perform compatible _

theorem agree_nextElement (iterator : host.Val) :
    Agree related (nextElement iterator) (nextElement iterator) :=
  agree_bind (agree_perform compatible _) fun _ => agree_pure _

theorem agree_inScope {body body' : Exec host α} (agree : Agree related body body') :
    Agree related (inScope body) (inScope body') := by
  intro machine machine' start
  have opened := compatible.update start (host.openScope machine.world)
  obtain ⟨same, finish⟩ := agree _ _ opened
  rw [inScope, inScope, ← compatible.world start]
  refine ⟨same, ?_⟩
  dsimp only
  rw [← compatible.world finish]
  exact compatible.update finish _

end Combinators

variable {condition condition' : Exec host host.Val}

theorem agree_choiceOf {whenTrue whenTrue' whenFalse whenFalse' : Exec host α}
    (agreeCondition : Agree related condition condition')
    (agreeTrue : Agree related whenTrue whenTrue') (agreeFalse : Agree related whenFalse whenFalse') :
    Agree related (choiceOf condition whenTrue whenFalse)
      (choiceOf condition' whenTrue' whenFalse') :=
  agree_bind agreeCondition fun _ => agree_ite agreeTrue agreeFalse

theorem agree_withDefault {fallback fallback' value value' : Exec host host.Val}
    (agreeFallback : Agree related fallback fallback') (agreeValue : Agree related value value') :
    Agree related (withDefault fallback value) (withDefault fallback' value') :=
  agree_bind agreeValue fun _ => agree_ite agreeFallback (agree_pure _)

theorem agree_onExit {body body' : Exec host α} {handler handler' : Exit host → Exec host α}
    (agree : Agree related body body')
    (agreeHandler : ∀ exit, Agree related (handler exit) (handler' exit)) :
    Agree related (onExit body handler) (onExit body' handler') := by
  intro machine machine' start
  obtain ⟨same, finish⟩ := agree machine machine' start
  unfold onExit
  rcases ran : body machine with ⟨outcome, middle⟩
  rcases ran' : body' machine' with ⟨outcome', middle'⟩
  rw [ran, ran'] at same finish
  dsimp only at same finish
  subst same
  cases outcome with
  | ok | panic => exact ⟨rfl, finish⟩
  | err exit => exact agreeHandler exit middle middle' finish

variable {body body' : Exec host PUnit}

theorem agree_catchContinue (label : Option String) (agree : Agree related body body') :
    Agree related (catchContinue label body) (catchContinue label body') := by
  apply agree_onExit agree
  intro exit
  cases exit with
  | continues jump => exact agree_ite (agree_pure _) (agree_fail _)
  | throws | returns | breaks | jumps => exact agree_fail _

theorem agree_catchBreak (label : Option String) {loop loop' : Exec host PUnit}
    (agree : Agree related loop loop') :
    Agree related (catchBreak label loop) (catchBreak label loop') := by
  apply agree_onExit agree
  intro exit
  cases exit with
  | breaks jump => exact agree_ite (agree_pure _) (agree_fail _)
  | throws | returns | continues | jumps => exact agree_fail _

theorem agree_iterate {iteration iteration' : Exec host Bool}
    (agree : Agree related iteration iteration') (fuel : Nat) :
    Agree related (iterate iteration fuel) (iterate iteration' fuel) := by
  induction fuel with
  | zero => exact agree_lift _
  | succ fuel ih => exact agree_bind agree fun _ => agree_ite ih (agree_pure _)

section

variable (compatible : Compatible related) (label : Option String)

include compatible

theorem agree_testFirst {body body' update update' : Exec host PUnit}
    (agreeCondition : Agree related condition condition') (agreeBody : Agree related body body')
    (agreeUpdate : Agree related update update') :
    Agree related (testFirst label condition body update)
      (testFirst label condition' body' update') := by
  apply agree_bind agreeCondition
  intro value
  apply agree_ite _ (agree_pure _)
  apply agree_bind (agree_catchContinue label (agree_inScope compatible agreeBody))
  intro _
  exact agree_bind agreeUpdate fun _ => agree_pure _

theorem agree_testLast (agreeBody : Agree related body body')
    (agreeCondition : Agree related condition condition') :
    Agree related (testLast label body condition) (testLast label body' condition') :=
  agree_bind (agree_catchContinue label (agree_inScope compatible agreeBody)) fun _ =>
    agree_bind agreeCondition fun _ => agree_pure _

theorem agree_forEach (iterator : host.Val) (name : String)
    (agreeName : ∀ value, Agree related (bindName name value) (bindName name value))
    (agreeBody : Agree related body body') :
    Agree related (forEach label iterator name body) (forEach label iterator name body') := by
  apply agree_bind (agree_perform compatible _)
  intro element
  cases element with
  | none => exact agree_pure _
  | some value =>
    apply agree_bind _ fun _ => agree_pure _
    apply agree_catchContinue
    apply agree_inScope compatible
    exact agree_bind (agreeName value) fun _ => agreeBody

end

theorem agree_closing (compatible : Compatible related) (iterator : host.Val)
    {loop loop' : Exec host PUnit} (agree : Agree related loop loop') :
    Agree related (closing iterator loop) (closing iterator loop') := by
  apply agree_onExit agree
  intro exit
  exact agree_bind (agree_perform compatible _) fun _ => agree_fail _

theorem agree_handling {handler handler' : host.Val → Exec host PUnit}
    (agree : Agree related body body')
    (agreeHandler : ∀ value, Agree related (handler value) (handler' value)) :
    Agree related (handling body handler) (handling body' handler') := by
  apply agree_onExit agree
  intro exit
  cases exit with
  | throws value => exact agreeHandler value
  | returns | breaks | continues | jumps => exact agree_fail _

theorem agree_finallyDo {body body' final final' : Exec host PUnit}
    (agree : Agree related body body') (agreeFinal : Agree related final final') :
    Agree related (finallyDo body final) (finallyDo body' final') := by
  apply agree_bind _ fun _ => agreeFinal
  apply agree_onExit agree
  intro exit
  exact agree_bind agreeFinal fun _ => agree_fail _

end HermesDecomp.Ir

namespace HermesDecomp.Ir

open Action

variable {host : Host} {α : Type}

/-- Where a run is: before a statement or terminator, at the end of the function, or in
an operation that does not return. -/
inductive Status (host : Host) where
  | running (point : Point)
  | finished (exit : Exit host)
  | stopped

/-- An exception that leaves the current block for a handler of the table. -/
structure Interrupt (host : Host) where
  handler : Nat
  value : host.Val

/-- Say what writes the registers from now on. -/
def setWriter (writer : Writer) : Exec host PUnit := fun machine => (.ok ⟨⟩, { machine with writer })

/-- Execute the statement at a point. The register a plain assignment defines is
written by the definition. -/
def Statement.executeAt (fuel : Nat) (point : Point) : Statement → Exec host PUnit
  | assignReg register value => do
      setWriter (.other point)
      let content ← value.evaluate
      setWriter (.definition point)
      writeRegister register content
  | statement => do
      setWriter (.other point)
      statement.execute fuel none

/-- The target of the first test that equals the value. -/
def selectCase (value : host.Val) (default : BlockId) :
    List (Expression × BlockId) → Exec host BlockId
  | [] => pure default
  | (test, target) :: rest => do
      let candidate ← test.evaluate
      if host.strictEqual value candidate then pure target
      else selectCase value default rest

/-- The block a terminator continues with. -/
def Terminator.execute : Terminator → Exec host BlockId
  | jump target => pure target
  | branch condition trueTarget falseTarget =>
      choiceOf condition.evaluate (pure trueTarget) (pure falseTarget)
  | returnTerm .none => fail (.returns .none)
  | returnTerm (some value) => do
      let result ← value.evaluate
      fail (.returns (some result))
  | throwTerm value => do
      let thrown ← value.evaluate
      fail (.throws thrown)
  | switch value cases default => do
      let discriminant ← value.evaluate
      selectCase discriminant default cases
  | none => fail (.returns .none)

namespace Cfg

variable (graph : Cfg)

/-- Enter a handler with a thrown value. -/
def enter (handler : CfgExceptionHandler) (value : host.Val) (machine : Machine host) :
    Status host × Machine host :=
  (.running ⟨handler.catchBlock, 0⟩, { machine with world := host.caught value machine.world })

/-- Go on after an exit: a thrown value goes to the first handler that protects the
block, any other exit ends the function. -/
def dispatch (block : BlockId) (machine : Machine host) : Exit host → Status host × Machine host
  | .throws value =>
      match graph.exceptionHandlers.find? fun handler => handler.tryBlocks.contains block with
      | some handler => enter handler value machine
      | none => (.finished (.throws value), machine)
  | exit => (.finished exit, machine)

/-- What the part of a block at a point did, and where the run goes on. -/
def proceed (block : BlockId) (next : α → Point) (ended : Outcome (Exit host) α × Machine host) :
    Status host × Machine host :=
  match ended with
  | (.ok value, machine) => (.running (next value), machine)
  | (.err exit, machine) => graph.dispatch block machine exit
  | (.panic, machine) => (.stopped, machine)

/-- Execute the statement or the terminator at a point. -/
def perform (fuel : Nat) (point : Point) (machine : Machine host) : Status host × Machine host :=
  match graph.get point.block with
  | none => (.stopped, machine)
  | some block =>
      match block.statements[point.index]? with
      | some statement =>
          graph.proceed point.block (fun _ => ⟨point.block, point.index + 1⟩)
            (statement.executeAt fuel point machine)
      | none =>
          graph.proceed point.block (fun target => ⟨target, 0⟩)
            ((do setWriter (.other point); block.terminator.execute : Exec host BlockId) machine)

/-- One step of a run, interrupted or not. An interrupt that names no handler of the
block does nothing. -/
def step (fuel : Nat) (interrupt : Option (Interrupt host)) :
    Status host × Machine host → Status host × Machine host
  | (.running point, machine) =>
      match interrupt with
      | none => graph.perform fuel point machine
      | some exception =>
          match graph.exceptionHandlers[exception.handler]? with
          | some handler =>
              if point.block ∈ handler.tryBlocks then enter handler exception.value machine
              else (.running point, machine)
          | none => (.running point, machine)
  | ended => ended

/-- The start of a run: no register is written. -/
def start (world : host.World) : Status host × Machine host :=
  (.running ⟨graph.entry, 0⟩, ⟨fun _ => none, world, .other ⟨graph.entry, 0⟩⟩)

/-- The run of a schedule. -/
def run (fuel : Nat) (schedule : List (Option (Interrupt host))) (world : host.World) :
    Status host × Machine host :=
  schedule.foldl (fun state interrupt => graph.step fuel interrupt state) (graph.start world)

variable {graph}

theorem run_append_singleton (fuel : Nat) (schedule : List (Option (Interrupt host)))
    (interrupt : Option (Interrupt host)) (world : host.World) :
    graph.run fuel (schedule ++ [interrupt]) world =
      graph.step fuel interrupt (graph.run fuel schedule world) := by
  simp [run]

/-- Two runs on one schedule stay related when the starts are and every step keeps
related states related. -/
theorem run_simulation {graph' : Cfg} {fuel : Nat} {world : host.World}
    {related : Status host × Machine host → Status host × Machine host → Prop}
    (initial : related (graph.start world) (graph'.start world))
    (step : ∀ interrupt state state', related state state' →
      related (graph.step fuel interrupt state) (graph'.step fuel interrupt state'))
    (schedule : List (Option (Interrupt host))) :
    related (graph.run fuel schedule world) (graph'.run fuel schedule world) := by
  induction schedule using List.reverseRecOn with
  | nil => exact initial
  | append_singleton schedule interrupt ih =>
    rw [run_append_singleton, run_append_singleton]
    exact step interrupt _ _ ih

end Cfg

end HermesDecomp.Ir
