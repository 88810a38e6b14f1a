import HermesDecomp.Transforms.ConditionalsMeaning

/-!
# What branches as returns keep

A return of nothing hands `undefined` to the caller, as a return of that value does. Settling an
execution writes the one exit as the other. Every combinator of the semantics is settled by
settling its parts, so a pass that keeps the settled meaning of every list in a body keeps that
of the whole.
-/

namespace HermesDecomp.Ir

open Action

variable {host : Host} {α β : Type}

/-- An exit as the caller of the function sees it. -/
def Exit.settled : Exit host → Exit host
  | .returns none => .returns (some (host.constant .undefined))
  | exit => exit

/-- Code with settled exits. -/
def settled (body : Exec host α) : Exec host α := onExit body fun exit => Action.fail exit.settled

@[simp] theorem settled_pure (value : α) : settled (pure value : Exec host α) = pure value := rfl

@[simp] theorem settled_fail (exit : Exit host) :
    settled (Action.fail exit : Exec host α) = Action.fail exit.settled := rfl

@[simp] theorem settled_writeRegister (register : Nat) (value : host.Val) :
    settled (writeRegister register value) = writeRegister register value := rfl

@[simp] theorem settled_perform (operation : Action host.World host.Val α) :
    settled (perform operation) = perform operation := by
  funext machine
  rw [settled, onExit, perform]
  rcases operation machine.world with ⟨_ | _ | _, world⟩ <;> rfl

/-- An exit may be settled before it is handled when its handler settles it as well. -/
theorem settled_onExit (body : Exec host α) {handler handler' : Exit host → Exec host α}
    (same : ∀ exit : Exit host, settled (handler exit) = handler' exit.settled) :
    settled (onExit body handler) = onExit (settled body) handler' := by
  funext machine
  rw [settled, onExit, onExit, onExit, settled, onExit]
  rcases body machine with ⟨value | exit | _, middle⟩
  · rfl
  · exact congrFun (same exit) middle
  · rfl

@[simp] theorem settled_bind (part : Exec host α) (next : α → Exec host β) :
    settled (part >>= next) = settled part >>= fun value => settled (next value) := by
  funext machine
  rw [settled, onExit, bind_apply, bind_apply, settled, onExit]
  rcases part machine with ⟨_ | _ | _, middle⟩ <;> rfl

@[simp] theorem settled_ite (condition : Prop) [Decidable condition] (yes no : Exec host α) :
    settled (if condition then yes else no) = if condition then settled yes else settled no :=
  apply_ite settled condition yes no

@[simp] theorem settled_inScope (body : Exec host α) :
    settled (inScope body) = inScope (settled body) := by
  funext machine
  rw [settled, onExit, inScope, inScope, settled, onExit]
  rcases body { machine with world := host.openScope machine.world } with ⟨_ | _ | _, middle⟩ <;>
    rfl

@[simp] theorem settled_choiceOf (condition : Exec host host.Val) (whenTrue whenFalse : Exec host α) :
    settled (choiceOf condition whenTrue whenFalse) =
      choiceOf (settled condition) (settled whenTrue) (settled whenFalse) := by
  simp [choiceOf, settled_bind, settled_ite]

@[simp] theorem settled_bindName (name : String) (value : host.Val) :
    settled (bindName name value) = bindName name value := by
  unfold bindName
  split
  · exact settled_writeRegister _ value
  · exact settled_perform _

@[simp] theorem settled_catchContinue (label : Option String) (body : Exec host PUnit) :
    settled (catchContinue label body) = catchContinue label (settled body) := by
  apply settled_onExit
  intro exit
  cases exit with
  | continues jump => exact settled_ite _ _ _
  | returns value => cases value <;> rfl
  | throws | breaks | jumps => rfl

@[simp] theorem settled_catchBreak (label : Option String) (loop : Exec host PUnit) :
    settled (catchBreak label loop) = catchBreak label (settled loop) := by
  apply settled_onExit
  intro exit
  cases exit with
  | breaks jump => exact settled_ite _ _ _
  | returns value => cases value <;> rfl
  | throws | continues | jumps => rfl

@[simp] theorem settled_iterate (iteration : Exec host Bool) (fuel : Nat) :
    settled (iterate iteration fuel) = iterate (settled iteration) fuel := by
  induction fuel with
  | zero => rfl
  | succ fuel ih => simp [iterate, settled_bind, settled_ite, settled_pure, ih]

@[simp] theorem settled_testFirst (label : Option String) (condition : Exec host host.Val)
    (body update : Exec host PUnit) :
    settled (testFirst label condition body update) =
      testFirst label (settled condition) (settled body) (settled update) := by
  simp only [testFirst, settled_bind, settled_ite, settled_catchContinue, settled_inScope,
    settled_pure]

@[simp] theorem settled_testLast (label : Option String) (body : Exec host PUnit)
    (condition : Exec host host.Val) :
    settled (testLast label body condition) = testLast label (settled body) (settled condition) := by
  simp only [testLast, settled_bind, settled_catchContinue, settled_inScope, settled_pure]

@[simp] theorem settled_forEach (label : Option String) (iterator : host.Val) (name : String)
    (body : Exec host PUnit) :
    settled (forEach label iterator name body) = forEach label iterator name (settled body) := by
  rw [forEach, settled_bind, settled_perform, forEach]
  refine congrArg (perform (host.advance iterator) >>= ·) (funext fun element => ?_)
  cases element with
  | none => rfl
  | some value =>
    simp only [settled_bind, settled_catchContinue, settled_inScope, settled_bindName, settled_pure]

@[simp] theorem settled_closing (iterator : host.Val) (loop : Exec host PUnit) :
    settled (closing iterator loop) = closing iterator (settled loop) := by
  apply settled_onExit
  intro exit
  rw [settled_bind, settled_perform]
  rfl

@[simp] theorem settled_handling (body : Exec host PUnit) (handler : host.Val → Exec host PUnit) :
    settled (handling body handler) =
      handling (settled body) fun value => settled (handler value) := by
  apply settled_onExit
  intro exit
  cases exit with
  | returns value => cases value <;> rfl
  | throws | breaks | continues | jumps => rfl

@[simp] theorem settled_finallyDo (body final : Exec host PUnit) :
    settled (finallyDo body final) = finallyDo (settled body) (settled final) := by
  rw [finallyDo, settled_bind, finallyDo]
  congr 1
  apply settled_onExit
  intro exit
  rw [settled_bind]
  rfl

/-- What follows a return does not run. -/
theorem execute_returnStmt_bind (fuel : Nat) (label : Option String) (value : Option Expression)
    (next : PUnit → Exec host PUnit) :
    ((Statement.returnStmt value).execute fuel label >>= next : Exec host PUnit) =
      (Statement.returnStmt value).execute fuel label := by
  cases value with
  | none => rfl
  | some value =>
    rw [Statement.execute, bind_assoc]
    rfl

/-- A missing value as the value a caller gets for it. -/
def returned (value : Option Expression) : Expression := value.getD (.value (.constant .undefined))

/-- A return of nothing is settled as the return of `undefined`. -/
theorem settled_returnStmt (fuel : Nat) (label : Option String) (value : Option Expression) :
    settled ((Statement.returnStmt value).execute fuel label : Exec host PUnit) =
      settled ((Statement.returnStmt (some (returned value))).execute fuel label) := by
  cases value <;> rfl

/-- A branch that turns into a return, as the return it turns into. -/
theorem ternaryReturn_eq_some {condition thenValue : Expression} {elseValue : Option Expression}
    {ternary : Statement} (found : ternaryReturn condition thenValue elseValue = some ternary) :
    ternary = .returnStmt (some (.conditional condition thenValue (returned elseValue))) := by
  cases elseValue with
  | none | some =>
    rw [ternaryReturn] at found
    split at found
    · exact (Option.some.inj found).symm
    · cases found

theorem tryIfElseReturn_eq_some {statement ternary : Statement}
    (found : tryIfElseReturn statement = some ternary) :
    ∃ condition thenValue elseValue,
      statement = .ifStmt condition [.returnStmt (some thenValue)] [.returnStmt elseValue] ∧
      ternary = .returnStmt (some (.conditional condition thenValue (returned elseValue))) := by
  unfold tryIfElseReturn at found
  split at found
  · exact ⟨_, _, _, rfl, ternaryReturn_eq_some found⟩
  · cases found

theorem tryIfReturnFallthrough_eq_some {statement next ternary : Statement}
    (found : tryIfReturnFallthrough statement next = some ternary) :
    ∃ condition thenValue elseValue,
      statement = .ifStmt condition [.returnStmt (some thenValue)] [] ∧
      next = .returnStmt elseValue ∧
      ternary = .returnStmt (some (.conditional condition thenValue (returned elseValue))) := by
  unfold tryIfReturnFallthrough at found
  split at found
  · exact ⟨_, _, _, rfl, rfl, ternaryReturn_eq_some found⟩
  · cases found

/-- The return of a conditional returns in either arm. -/
theorem execute_returnStmt_conditional (fuel : Nat) (label : Option String)
    (condition thenValue elseValue : Expression) :
    ((Statement.returnStmt (some (.conditional condition thenValue elseValue))).execute fuel label :
        Exec host PUnit) =
      choiceOf condition.evaluate ((Statement.returnStmt (some thenValue)).execute fuel label)
        ((Statement.returnStmt (some elseValue)).execute fuel label) := by
  rw [Statement.execute, Expression.evaluate, choiceOf_bind]
  rfl

/-- An arm that only returns. -/
theorem inScope_returnStmt (branching : host.Branching) (fuel : Nat) (value : Option Expression) :
    (inScope (executeAll fuel none [.returnStmt value]) : Exec host PUnit) =
      (Statement.returnStmt value).execute fuel none := by
  cases value with
  | none =>
    rw [executeAll_singleton]
    exact inScope_fail branching _
  | some value => exact inScope_return branching fuel value

theorem execute_ifStmt (fuel : Nat) (label : Option String) (condition : Expression)
    (thenBody elseBody : List Statement) :
    ((Statement.ifStmt condition thenBody elseBody).execute fuel label : Exec host PUnit) =
      choiceOf condition.evaluate (inScope (executeAll fuel none thenBody))
        (inScope (executeAll fuel none elseBody)) := by
  rw [Statement.execute]

/-- A branch that returns in both arms. -/
theorem settled_ifElseReturn (branching : host.Branching) (fuel : Nat) (label : Option String)
    (condition thenValue : Expression) (elseValue : Option Expression) :
    settled ((Statement.returnStmt (some (.conditional condition thenValue
        (returned elseValue)))).execute fuel label : Exec host PUnit) =
      settled ((Statement.ifStmt condition [.returnStmt (some thenValue)]
        [.returnStmt elseValue]).execute fuel label) := by
  rw [execute_returnStmt_conditional, execute_ifStmt, inScope_returnStmt branching,
    inScope_returnStmt branching, settled_choiceOf, settled_choiceOf,
    settled_returnStmt fuel none elseValue]
  rfl

/-- A branch that returns, with a return behind it. -/
theorem settled_ifReturnFallthrough (branching : host.Branching) (fuel : Nat)
    (label label' : Option String) (condition thenValue : Expression)
    (elseValue : Option Expression) :
    settled ((Statement.returnStmt (some (.conditional condition thenValue
        (returned elseValue)))).execute fuel label : Exec host PUnit) =
      settled ((Statement.ifStmt condition [.returnStmt (some thenValue)] []).execute fuel label >>=
        fun _ => (Statement.returnStmt elseValue).execute fuel label') := by
  have nothing : (inScope (executeAll fuel none []) : Exec host PUnit) = pure ⟨⟩ :=
    inScope_pure branching _
  rw [execute_returnStmt_conditional, execute_ifStmt, inScope_returnStmt branching, nothing,
    choiceOf_bind, execute_returnStmt_bind, settled_choiceOf, settled_choiceOf, pure_bind,
    settled_returnStmt fuel label' elseValue]
  rfl

theorem settled_executeAll_cons (fuel : Nat) (pending : Option String) (first : Statement)
    (rest : List Statement) :
    settled (executeAll fuel pending (first :: rest) : Exec host PUnit) =
      settled (first.execute fuel pending) >>= fun _ =>
        settled (executeAll fuel (first.labelAfter pending) rest) := by
  rw [executeAll, settled_bind]

/-- Nothing behind a return runs. -/
theorem executeAll_returnStmt_cons (fuel : Nat) (pending : Option String)
    (value : Option Expression) (rest : List Statement) :
    (executeAll fuel pending (.returnStmt value :: rest) : Exec host PUnit) =
      (Statement.returnStmt value).execute fuel pending := by
  rw [executeAll, execute_returnStmt_bind]

theorem labelAfter_processNested (pending : Option String) (statement : Statement) :
    (processNested statement).labelAfter pending = statement.labelAfter pending := by
  cases statement <;> rfl

theorem isEmpty_optimizeTernaryReturns (statements : List Statement) :
    (optimizeTernaryReturns statements).isEmpty = statements.isEmpty := by
  match statements with
  | [] => rfl
  | [first] =>
    rw [optimizeTernaryReturns]
    split <;> rfl
  | first :: second :: rest =>
    rw [optimizeTernaryReturns]
    split
    · rfl
    · split <;> rfl

section

variable (branching : host.Branching) (fuel : Nat)

include branching

set_option linter.unusedSectionVars false in
mutual

/-- The pass keeps the settled meaning of every list of statements. -/
theorem settled_optimized :
    ∀ (statements : List Statement) (pending : Option String),
      settled (executeAll fuel pending (optimizeTernaryReturns statements) : Exec host PUnit) =
        settled (executeAll fuel pending statements)
  | [], _ => rfl
  | [first], pending => by
    rw [optimizeTernaryReturns]
    split
    case h_1 ternary found =>
      obtain ⟨condition, thenValue, elseValue, rfl, rfl⟩ := tryIfElseReturn_eq_some found
      rw [executeAll_singleton, executeAll_singleton]
      exact settled_ifElseReturn branching fuel pending condition thenValue elseValue
    case h_2 =>
      rw [executeAll_singleton, executeAll_singleton]
      exact settled_processNested first pending
  | first :: second :: rest, pending => by
    have onTail := settled_optimized (second :: rest)
    rw [optimizeTernaryReturns]
    split
    case h_1 ternary found =>
      obtain ⟨condition, thenValue, elseValue, rfl, rfl⟩ := tryIfElseReturn_eq_some found
      rw [settled_executeAll_cons, settled_ifElseReturn branching, onTail,
        settled_executeAll_cons fuel pending _ (second :: rest)]
      rfl
    case h_2 =>
      split
      case h_1 ternary found =>
        obtain ⟨condition, thenValue, elseValue, rfl, rfl, rfl⟩ :=
          tryIfReturnFallthrough_eq_some found
        rw [executeAll_returnStmt_cons, settled_ifReturnFallthrough branching fuel pending pending,
          executeAll, executeAll_returnStmt_cons]
        rfl
      case h_2 =>
        rw [settled_executeAll_cons, settled_processNested first pending, onTail,
          labelAfter_processNested, settled_executeAll_cons fuel pending _ (second :: rest)]

theorem settled_processNested :
    ∀ (statement : Statement) (label : Option String),
      settled ((processNested statement).execute fuel label : Exec host PUnit) =
        settled (statement.execute fuel label)
  | .ifStmt condition thenBody elseBody, label => by
    simp [processNested, Statement.execute, settled_choiceOf, settled_inScope,
      settled_optimized thenBody none, settled_optimized elseBody none]
  | .whileStmt condition body, label => by
    simp [processNested, Statement.execute, settled_catchBreak, settled_iterate, settled_testFirst,
      settled_optimized body none]
  | .doWhile body condition, label => by
    simp [processNested, Statement.execute, settled_catchBreak, settled_iterate, settled_testLast,
      settled_optimized body none]
  | .forStmt init condition update body, label => by
    simp [processNested, Statement.execute, settled_inScope, settled_bind, settled_catchBreak,
      settled_iterate, settled_testFirst, settled_optimized body none]
  | .forIn name object body, label => by
    simp [processNested, Statement.execute, settled_bind, settled_catchBreak, settled_iterate,
      settled_forEach, settled_optimized body none]
  | .forOf name iterable body, label => by
    simp [processNested, Statement.execute, settled_bind, settled_catchBreak, settled_closing,
      settled_iterate, settled_forEach, settled_optimized body none]
  | .tryCatch tryBody catchParam catchBody finallyBody, label => by
    simp [processNested, Statement.execute, settled_finallyDo, settled_ite, settled_handling,
      settled_inScope, settled_bind, isEmpty_optimizeTernaryReturns, settled_optimized tryBody none,
      settled_optimized catchBody none, settled_optimized finallyBody none]
  | .switch discriminant cases default, label => by
    rw [processNested, Statement.execute, settled_bind, Statement.execute, settled_bind]
    refine congrArg (settled _ >>= ·) (funext fun value => ?_)
    rw [settled_catchBreak, settled_inScope, settled_catchBreak, settled_inScope]
    have onDefault := settled_processDefault default
    rw [settled_processCases value onDefault cases]
  | .block body, label => by
    simp [processNested, Statement.execute, settled_inScope, settled_optimized body none]
  | .expr _, _ | .letStmt .., _ | .assign .., _ | .delete .., _ | .returnStmt _, _
  | .throwStmt _, _ | .debugger, _ | .comment _, _ | .breakStmt _, _ | .continueStmt _, _
  | .goto _, _ | .condGoto .., _ | .classStmt .., _ => rfl

theorem settled_processCases (value : host.Val) {otherwise otherwise' : Exec host PUnit}
    (same : settled otherwise = settled otherwise') :
    ∀ cases, settled (executeCases fuel value otherwise (processCases cases)) =
        settled (executeCases fuel value otherwise' cases)
  | [] => same
  | (test, body) :: rest => by
    simp [processCases, executeCases, settled_bind, settled_ite, settled_optimized body none,
      settled_processCases value same rest]

theorem settled_processDefault :
    ∀ default, settled (executeDefault fuel (processDefault default) : Exec host PUnit) =
        settled (executeDefault fuel default)
  | none => rfl
  | some body => settled_optimized body none

end

end

/-- Turning branches into assignments keeps the meaning of a list of statements if every branch
that becomes one assigns to one target whose parts may come before its condition. Inverting
branches, and turning them into returns, always does. -/
theorem conditionals_kept (branching : host.Branching) (fuel : Nat) (pending : Option String)
    (statements : List Statement) :
    (CollapseAll statements →
      (executeAll fuel pending (detectTernaries statements) : Exec host PUnit) =
        executeAll fuel pending statements) ∧
    (executeAll fuel pending (invertEmptyIfs statements) : Exec host PUnit) =
      executeAll fuel pending statements ∧
    settled (executeAll fuel pending (optimizeTernaryReturns statements) : Exec host PUnit) =
      settled (executeAll fuel pending statements) :=
  ⟨executeAll_detectTernaries branching fuel statements pending,
    executeAll_invertEmptyIfs branching fuel statements pending,
    settled_optimized branching fuel statements pending⟩

theorem tracing_branching : Tracing.host.Branching where
  scope _ := rfl
  negation _ := rfl
  truthy_bool _ := rfl

/-- A branch that gives one register one of two values. -/
def choosing : List Statement :=
  [.ifStmt (.value (.binding (.register 0)))
    [.assign (.binding (.register 1)) (.value (.constant (.integer 1)))]
    [.assign (.binding (.register 1)) (.value (.constant (.integer 2)))]]

theorem choosing_collapses : CollapseAll choosing := by
  refine ⟨⟨?_, ⟨trivial, trivial⟩, ⟨trivial, trivial⟩⟩, trivial⟩
  intro target value target' value' isThen isElse _
  simp only [List.cons.injEq, Statement.assign.injEq, and_true] at isThen isElse
  obtain ⟨rfl, _⟩ := isThen
  obtain ⟨rfl, _⟩ := isElse
  exact ⟨rfl, trivial⟩

theorem choosing_kept :
    (executeAll 0 none (detectTernaries choosing) : Exec Tracing.host PUnit) =
      executeAll 0 none choosing :=
  (conditionals_kept tracing_branching 0 none choosing).1 choosing_collapses

/-- A call of a named function. -/
def called (name : String) : Expression :=
  .call (.value (.binding (.variable ⟨name, none⟩))) [.value (.constant .undefined)]

/-- A branch on a call that assigns to a property of what another call answers. -/
def assigning : List Statement :=
  [.ifStmt (called "g") [.assign (.member (called "f") "x") (.value (.constant (.integer 1)))]
    [.assign (.member (called "f") "x") (.value (.constant (.integer 2)))]]

/-- What the engine recorded when it ran a list from a world in which every variable holds its
name. -/
def recorded (statements : List Statement) : List (String × List Constant) :=
  ((executeAll 0 none statements : Exec Tracing.host PUnit)
    ⟨fun _ => none, { Tracing.blank with names := .string }, .other ⟨0, 0⟩⟩).2.world.log

/-- The call of the condition comes second, and what it answers is another number. -/
theorem conditionals_reorder :
    ¬ (∀ host : Host, host.Branching → ∀ (fuel : Nat) (pending : Option String)
      (statements : List Statement),
      (executeAll fuel pending (detectTernaries statements) : Exec host PUnit) =
        executeAll fuel pending statements) := by
  intro all
  have kept : recorded (detectTernaries assigning) = recorded assigning := by
    unfold recorded
    rw [all Tracing.host tracing_branching 0 none assigning]
  have original : recorded assigning =
      [("call", [.string "g", .undefined]), ("call", [.string "f", .undefined]),
        ("set", [.string "x", .integer 2])] := by decide +kernel
  have collapsed : recorded (detectTernaries assigning) =
      [("call", [.string "f", .undefined]), ("call", [.string "g", .undefined]),
        ("set", [.string "x", .integer 1])] := by decide +kernel
  rw [original, collapsed] at kept
  exact absurd kept (by decide)

end HermesDecomp.Ir
