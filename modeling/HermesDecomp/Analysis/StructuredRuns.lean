import HermesDecomp.Ir.Execution

/-!
# Paths through structured statements

A path of a body starts with some definitions in force and visits statements, each with the
definitions in force when it is reached. What the statements define is a parameter.

A path is regular when every jump or exception that is caught leaves with definitions that the
part it leaves can also end with (an exception also with those it started with), and when no
other exit enters a final part.
-/

namespace HermesDecomp.Dataflow

open Ir

/-!
The engine walks the statements and rebuilds the joins that control flow implies: the arms of a
branch meet behind it, the body of a loop is walked until the fact at its head settles, and a path
that leaves contributes nothing to what follows. A statement is named by its place: the positions
that lead to it, innermost first.
-/

/-- What an analysis knows. Joining answers whether anything changed. -/
class Fact (F : Type) where
  join : F → F → F × Bool

/-- How single statements and bound names change what is known. -/
structure Analysis (F : Type) where
  transfer : Statement → F → F
  declare : String → F → F := fun _ fact => fact

/-- What is known, and whether the path that knows it goes on. -/
structure State (F : Type) where
  fact : F
  live : Bool

/-- Where a statement stands in a body. -/
abbrev Place := List Nat

/-- The fact reported on entry to a statement. -/
structure Report (F : Type) where
  place : Place
  statement : Statement
  fact : F

/-- How often the body of a loop is walked before its fact is accepted. -/
def maxLoopIterations : Nat := 16

variable {F : Type} [Fact F]

/-- Merge another path into one. A dead path carries nothing. -/
def State.join (self other : State F) : State F × Bool :=
  match self.live, other.live with
  | _, false => (self, false)
  | false, true => (⟨other.fact, true⟩, true)
  | true, true => (⟨(Fact.join self.fact other.fact).1, true⟩, (Fact.join self.fact other.fact).2)

/-- Walk a loop from its head, and join what comes out into it, until it settles. -/
def settleLoop (walk : State F → State F) : Nat → State F → State F
  | 0, head => head
  | rounds + 1, head =>
      let joined := head.join (walk head)
      if joined.2 then settleLoop walk rounds joined.1 else joined.1

/-- Walk a statement. On a dead path the fact is put back. -/
def guarded (walk : State F → State F × List (Report F)) (state : State F) :
    State F × List (Report F) :=
  if state.live then walk state else (⟨state.fact, false⟩, (walk state).2)

/-- The exits of a switch after one more case. -/
def withExit (exits : Option (State F)) (state : State F) : State F :=
  match exits with
  | some found => (found.join state).1
  | none => state

variable (analysis : Analysis F)

/-- The state on entry to a catch clause. -/
def withParam (param : Option String) (state : State F) : State F :=
  match param with
  | some name => { state with fact := analysis.declare name state.fact }
  | none => state

mutual

/-- Walk a statement, with the reports of the statements inside it. -/
def runStmt (place : Place) : Statement → State F → State F × List (Report F)
  | .ifStmt _ thenBody elseBody, state =>
      let thenRun := runBody (0 :: place) 0 thenBody state
      let elseRun := runBody (1 :: place) 0 elseBody state
      ((thenRun.1.join elseRun.1).1, thenRun.2 ++ elseRun.2)
  | .block inner, state => runBody (0 :: place) 0 inner state
  | .whileStmt _ body, state =>
      let settled := settleLoop (fun head => (runBody (0 :: place) 0 body head).1)
        maxLoopIterations state
      (settled, (runBody (0 :: place) 0 body settled).2)
  | .doWhile body _, state =>
      let settled := settleLoop (fun head => (runBody (0 :: place) 0 body head).1)
        maxLoopIterations state
      let walked := runBody (0 :: place) 0 body settled
      ({ walked.1 with live := walked.1.live || state.live }, walked.2)
  | .forStmt init _ update body, state =>
      let start := runInit (1 :: place) init state
      let settled := settleLoop (fun head =>
        (guarded (runUpdate (2 :: place) update) (runBody (0 :: place) 0 body head).1).1)
        maxLoopIterations start.1
      let walked := runBody (0 :: place) 0 body settled
      (settled, start.2 ++ walked.2 ++
        if walked.1.live then (runInit (2 :: place) update walked.1).2 else [])
  | .forOf name _ body, state =>
      let settled := settleLoop (fun head => (runBody (0 :: place) 0 body head).1)
        maxLoopIterations { state with fact := analysis.declare name state.fact }
      (settled, (runBody (0 :: place) 0 body settled).2)
  | .forIn name _ body, state =>
      let settled := settleLoop (fun head => (runBody (0 :: place) 0 body head).1)
        maxLoopIterations { state with fact := analysis.declare name state.fact }
      (settled, (runBody (0 :: place) 0 body settled).2)
  | .switch _ cases default, state =>
      let entered := runCases place state cases 0 ⟨state.fact, false⟩ none
      let last := runDefault (cases.length :: place) default state entered.1 entered.2.1
      (last.1, entered.2.2 ++ last.2)
  | .tryCatch tryBody catchParam catchBody finallyBody, state =>
      let tried := runBody (0 :: place) 0 tryBody state
      let handled := runBody (1 :: place) 0 catchBody
        (withParam analysis catchParam (state.join tried.1).1)
      let ended := runBody (2 :: place) 0 finallyBody (tried.1.join handled.1).1
      (ended.1, tried.2 ++ handled.2 ++ ended.2)
  | .returnStmt value, state => (⟨analysis.transfer (.returnStmt value) state.fact, false⟩, [])
  | .throwStmt value, state => (⟨analysis.transfer (.throwStmt value) state.fact, false⟩, [])
  | .breakStmt _, state => ({ state with live := false }, [])
  | .continueStmt _, state => ({ state with live := false }, [])
  | statement, state => ({ state with fact := analysis.transfer statement state.fact }, [])

/-- Walk the statements of a body, and report each. -/
def runBody (place : Place) (index : Nat) : List Statement → State F → State F × List (Report F)
  | [], state => (state, [])
  | first :: rest, state =>
      let step := guarded (runStmt (index :: place) first) state
      let others := runBody place (index + 1) rest step.1
      (others.1, ⟨index :: place, first, state.fact⟩ :: (step.2 ++ others.2))

/-- Report the first part of a loop and walk it. -/
def runInit (place : Place) : Option Statement → State F → State F × List (Report F)
  | none, state => (state, [])
  | some statement, state =>
      let step := runStmt place statement state
      (step.1, ⟨place, statement, state.fact⟩ :: step.2)

/-- Walk the update of a loop. -/
def runUpdate (place : Place) : Option Statement → State F → State F × List (Report F)
  | none, state => (state, [])
  | some statement, state => runStmt place statement state

/-- Walk the cases of a switch, each entered from before the switch or from the case above
it: the state of the last case, the exits so far, and the reports. -/
def runCases (place : Place) (before : State F) :
    List (Expression × List Statement) → Nat → State F → Option (State F) →
      State F × Option (State F) × List (Report F)
  | [], _, above, exits => (above, exits, [])
  | (_, body) :: rest, index, above, exits =>
      let walked := runBody (index :: place) 0 body (before.join above).1
      let others := runCases place before rest (index + 1) walked.1 (some (withExit exits walked.1))
      (others.1, others.2.1, walked.2 ++ others.2.2)

/-- Walk the default of a switch. Without one nothing may match. -/
def runDefault (place : Place) :
    Option (List Statement) → State F → State F → Option (State F) → State F × List (Report F)
  | none, before, _, exits => (withExit exits before, [])
  | some body, before, above, exits =>
      let walked := runBody place 0 body (before.join above).1
      (withExit exits walked.1, walked.2)

end

/-- The facts on entry to the statements of a body. -/
def solveObserved (body : List Statement) (entry : F) : List (Report F) :=
  (runBody analysis [] 0 body ⟨entry, true⟩).2

/-- Another walk changes nothing at the head of a loop. -/
def Stable (walk : State F → State F) (head : State F) : Prop := (head.join (walk head)).2 = false

mutual

/-- No loop of a statement is cut off before its fact settles, when the statement is entered
from a state. -/
def Settles (place : Place) : Statement → State F → Prop
  | .ifStmt _ thenBody elseBody, state =>
      SettlesBody (0 :: place) 0 thenBody state ∧ SettlesBody (1 :: place) 0 elseBody state
  | .block inner, state => SettlesBody (0 :: place) 0 inner state
  | .whileStmt _ body, state =>
      let walk := fun head => (runBody analysis (0 :: place) 0 body head).1
      Stable walk (settleLoop walk maxLoopIterations state) ∧
        SettlesBody (0 :: place) 0 body (settleLoop walk maxLoopIterations state)
  | .doWhile body _, state =>
      let walk := fun head => (runBody analysis (0 :: place) 0 body head).1
      Stable walk (settleLoop walk maxLoopIterations state) ∧
        SettlesBody (0 :: place) 0 body (settleLoop walk maxLoopIterations state)
  | .forStmt init _ update body, state =>
      let start := (runInit analysis (1 :: place) init state).1
      let walk := fun head => (guarded (runUpdate analysis (2 :: place) update)
        (runBody analysis (0 :: place) 0 body head).1).1
      SettlesOption (1 :: place) init state ∧
        Stable walk (settleLoop walk maxLoopIterations start) ∧
          SettlesBody (0 :: place) 0 body (settleLoop walk maxLoopIterations start) ∧
            SettlesOption (2 :: place) update
              (runBody analysis (0 :: place) 0 body (settleLoop walk maxLoopIterations start)).1
  | .forOf name _ body, state =>
      let walk := fun head => (runBody analysis (0 :: place) 0 body head).1
      let head := settleLoop walk maxLoopIterations
        { state with fact := analysis.declare name state.fact }
      Stable walk head ∧ SettlesBody (0 :: place) 0 body head
  | .forIn name _ body, state =>
      let walk := fun head => (runBody analysis (0 :: place) 0 body head).1
      let head := settleLoop walk maxLoopIterations
        { state with fact := analysis.declare name state.fact }
      Stable walk head ∧ SettlesBody (0 :: place) 0 body head
  | .switch _ cases default, state =>
      SettlesCases place state cases 0 ⟨state.fact, false⟩ ∧
        SettlesDefault (cases.length :: place) default state
          (runCases analysis place state cases 0 ⟨state.fact, false⟩ none).1
  | .tryCatch tryBody catchParam catchBody finallyBody, state =>
      let tried := (runBody analysis (0 :: place) 0 tryBody state).1
      let caught := withParam analysis catchParam (state.join tried).1
      let handled := (runBody analysis (1 :: place) 0 catchBody caught).1
      SettlesBody (0 :: place) 0 tryBody state ∧ SettlesBody (1 :: place) 0 catchBody caught ∧
        SettlesBody (2 :: place) 0 finallyBody (tried.join handled).1
  | _, _ => True

def SettlesBody (place : Place) (index : Nat) : List Statement → State F → Prop
  | [], _ => True
  | first :: rest, state =>
      (state.live = true → Settles (index :: place) first state) ∧
        SettlesBody place (index + 1) rest
          (guarded (runStmt analysis (index :: place) first) state).1

def SettlesOption (place : Place) : Option Statement → State F → Prop
  | none, _ => True
  | some statement, state => state.live = true → Settles place statement state

def SettlesCases (place : Place) (before : State F) :
    List (Expression × List Statement) → Nat → State F → Prop
  | [], _, _ => True
  | (_, body) :: rest, index, above =>
      SettlesBody (index :: place) 0 body (before.join above).1 ∧
        SettlesCases place before rest (index + 1)
          (runBody analysis (index :: place) 0 body (before.join above).1).1

def SettlesDefault (place : Place) : Option (List Statement) → State F → State F → Prop
  | none, _, _ => True
  | some body, before, above => SettlesBody place 0 body (before.join above).1

end

end HermesDecomp.Dataflow

namespace HermesDecomp.Dataflow

open Ir

/-- How a path through a statement ends. -/
inductive Exit where
  | normal
  | stopped
  | throws
  | returns
  | breaks (label : Option String)
  | continues (label : Option String)
  | jumps
deriving DecidableEq

/-- The paths from given definitions: the statements visited, the exit, the definitions at the
end. -/
abbrev Behaviour (σ : Type) := σ → List (Place × σ) → Exit → σ → Prop

variable {σ : Type}

/-- End at once. -/
inductive Ends (exit : Exit) (change : σ → σ) : Behaviour σ where
  | mk (start : σ) : Ends exit change start [] exit (change start)

/-- One part after the other. -/
inductive Seq (first second : Behaviour σ) : Behaviour σ where
  | through {start middle final : σ} {visited visited' : List (Place × σ)} {exit : Exit}
      (ran : first start visited .normal middle) (continued : second middle visited' exit final) :
      Seq first second start (visited ++ visited') exit final
  | leave {start final : σ} {visited : List (Place × σ)} {exit : Exit}
      (ran : first start visited exit final) (abnormal : exit ≠ .normal) :
      Seq first second start visited exit final

/-- One of two parts. -/
inductive Either (left right : Behaviour σ) : Behaviour σ where
  | left {start final : σ} {visited : List (Place × σ)} {exit : Exit}
      (ran : left start visited exit final) : Either left right start visited exit final
  | right {start final : σ} {visited : List (Place × σ)} {exit : Exit}
      (ran : right start visited exit final) : Either left right start visited exit final

/-- A statement is reached. It may throw then, before it does anything. -/
inductive Reached (place : Place) (inner : Behaviour σ) : Behaviour σ where
  | stop (start : σ) : Reached place inner start [(place, start)] .stopped start
  | throw (start : σ) : Reached place inner start [(place, start)] .throws start
  | run {start final : σ} {visited : List (Place × σ)} {exit : Exit}
      (ran : inner start visited exit final) :
      Reached place inner start ((place, start) :: visited) exit final

/-- Any number of iterations. The head may throw. -/
inductive Repeats (iteration : Behaviour σ) : Behaviour σ where
  | stop (start : σ) : Repeats iteration start [] .normal start
  | throw (start : σ) : Repeats iteration start [] .throws start
  | again {start middle final : σ} {visited visited' : List (Place × σ)} {exit : Exit}
      (ran : iteration start visited .normal middle)
      (continued : Repeats iteration middle visited' exit final) :
      Repeats iteration start (visited ++ visited') exit final
  | leave {start final : σ} {visited : List (Place × σ)} {exit : Exit}
      (ran : iteration start visited exit final) (abnormal : exit ≠ .normal) :
      Repeats iteration start visited exit final

/-- A part whose jumps of some kind end here. -/
inductive Catching (regular : Bool) (caught : Exit → Prop) (inner : Behaviour σ) : Behaviour σ where
  | through {start final : σ} {visited : List (Place × σ)} {exit : Exit}
      (ran : inner start visited exit final) (passes : ¬ caught exit) :
      Catching regular caught inner start visited exit final
  | caught {start final : σ} {visited : List (Place × σ)} {exit : Exit}
      (ran : inner start visited exit final) (ends : caught exit)
      (kept : regular = true → ∃ visited', inner start visited' .normal final) :
      Catching regular caught inner start visited .normal final

/-- A part whose exceptions are handled. -/
inductive Handling (regular : Bool) (body handler : Behaviour σ) : Behaviour σ where
  | through {start final : σ} {visited : List (Place × σ)} {exit : Exit}
      (ran : body start visited exit final) (passes : exit ≠ .throws) :
      Handling regular body handler start visited exit final
  | caught {start middle final : σ} {visited visited' : List (Place × σ)} {exit : Exit}
      (ran : body start visited .throws middle)
      (kept : regular = true → middle = start ∨ ∃ visited', body start visited' .normal middle)
      (handled : handler middle visited' exit final) :
      Handling regular body handler start (visited ++ visited') exit final

/-- The exit of a part with a final part: that of the final part, unless it ends normally. -/
def Exit.unless (exit final : Exit) : Exit := if final = .normal then exit else final

/-- A part and a final part that runs however the first one ends. -/
inductive Finally (regular : Bool) (quiet : Prop) (body last : Behaviour σ) : Behaviour σ where
  | stopped {start final : σ} {visited : List (Place × σ)}
      (ran : body start visited .stopped final) :
      Finally regular quiet body last start visited .stopped final
  | ended {start middle final : σ} {visited visited' : List (Place × σ)} {exit exit' : Exit}
      (ran : body start visited exit middle) (unstopped : exit ≠ .stopped)
      (kept : regular = true → quiet ∨ ∃ visited', body start visited' .normal middle)
      (continued : last middle visited' exit' final) :
      Finally regular quiet body last start (visited ++ visited') (exit.unless exit') final

/-- The breaks that end a loop or switch. -/
def Breaks (label : Option String) (exit : Exit) : Prop :=
  ∃ jump, exit = .breaks jump ∧ Names jump label

/-- The continues that end an iteration of a loop. -/
def Continues (label : Option String) (exit : Exit) : Prop :=
  ∃ jump, exit = .continues jump ∧ Names jump label

section Paths

variable (regular : Bool) (effect : Place → Statement → σ → σ) (bound : String → σ → σ)

/-- A loop around an iteration. -/
def looping (label : Option String) (iteration : Behaviour σ) : Behaviour σ :=
  Catching regular (Breaks label) (Repeats iteration)

/-- The definitions on entry to a catch clause. -/
def boundParam (param : Option String) (definitions : σ) : σ :=
  match param with
  | some name => bound name definitions
  | none => definitions

mutual

/-- The paths through a statement at a place, the loop among it having the given label. -/
def paths (label : Option String) (place : Place) : Statement → Behaviour σ
  | .ifStmt _ thenBody elseBody => Reached place
      (Either (pathsBody none (0 :: place) 0 thenBody) (pathsBody none (1 :: place) 0 elseBody))
  | .block inner => Reached place (pathsBody none (0 :: place) 0 inner)
  | .whileStmt _ body => Reached place (looping regular label
      (Catching regular (Continues label) (pathsBody none (0 :: place) 0 body)))
  | .doWhile body _ => Reached place (Catching regular (Breaks label)
      (Seq (Catching regular (Continues label) (pathsBody none (0 :: place) 0 body))
        (Repeats (Catching regular (Continues label) (pathsBody none (0 :: place) 0 body)))))
  | .forStmt init _ update body => Reached place
      (Seq (pathsOption (1 :: place) init) (looping regular label
        (Seq (Catching regular (Continues label) (pathsBody none (0 :: place) 0 body))
          (pathsOption (2 :: place) update))))
  | .forOf name _ body => Reached place (looping regular label
      (Seq (Ends .normal (bound name))
        (Catching regular (Continues label) (pathsBody none (0 :: place) 0 body))))
  | .forIn name _ body => Reached place (looping regular label
      (Seq (Ends .normal (bound name))
        (Catching regular (Continues label) (pathsBody none (0 :: place) 0 body))))
  | .switch _ cases default => Reached place (Catching regular (Breaks none)
      (pathsEntering place (pathsDefault (cases.length :: place) default) 0 cases))
  | .tryCatch tryBody catchParam catchBody finallyBody => Reached place
      (Finally regular (finallyBody = [])
        (if catchBody.isEmpty ∧ catchParam.isNone then pathsBody none (0 :: place) 0 tryBody
          else Handling regular (pathsBody none (0 :: place) 0 tryBody)
            (Seq (Ends .normal (boundParam bound catchParam))
              (pathsBody none (1 :: place) 0 catchBody)))
        (pathsBody none (2 :: place) 0 finallyBody))
  | .returnStmt value => Reached place (Ends .returns (effect place (.returnStmt value)))
  | .throwStmt value => Reached place (Ends .throws (effect place (.throwStmt value)))
  | .breakStmt jump => Reached place (Ends (.breaks jump) id)
  | .continueStmt jump => Reached place (Ends (.continues jump) id)
  | .goto _ => Reached place (Ends .jumps id)
  | .condGoto _ _ _ => Reached place (Ends .jumps id)
  | statement => Reached place (Ends .normal (effect place statement))

/-- The paths through a body, `pending` being the label for its next loop. -/
def pathsBody (pending : Option String) (place : Place) (index : Nat) : List Statement → Behaviour σ
  | [] => Ends .normal id
  | first :: rest =>
      Seq (paths pending (index :: place) first)
        (pathsBody (first.labelAfter pending) place (index + 1) rest)

/-- The paths through a statement that may be absent. -/
def pathsOption (place : Place) : Option Statement → Behaviour σ
  | none => Ends .normal id
  | some statement => paths none place statement

/-- The paths into the cases of a switch: into one of them, or into the default. -/
def pathsEntering (place : Place) (default : Behaviour σ) (index : Nat) :
    List (Expression × List Statement) → Behaviour σ
  | [] => default
  | (_, body) :: rest => Either
      (Seq (pathsBody none (index :: place) 0 body)
        (Either (Ends .normal id) (pathsFalling place default (index + 1) rest)))
      (pathsEntering place default (index + 1) rest)

/-- The paths on from the end of a case into the next one. -/
def pathsFalling (place : Place) (default : Behaviour σ) (index : Nat) :
    List (Expression × List Statement) → Behaviour σ
  | [] => default
  | (_, body) :: rest =>
      Seq (pathsBody none (index :: place) 0 body)
        (Either (Ends .normal id) (pathsFalling place default (index + 1) rest))

/-- The paths through the default of a switch. -/
def pathsDefault (place : Place) : Option (List Statement) → Behaviour σ
  | none => Ends .normal id
  | some body => pathsBody none place 0 body

end

end Paths

end HermesDecomp.Dataflow
