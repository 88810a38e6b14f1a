import HermesDecomp.Ir.Steps

/-!
# What branches as conditional expressions keep

An arm of a branch runs in a scope of its own, and a conditional expression does not. For an
engine where an empty scope makes no difference and a negation is what JavaScript says it is,
the passes over empty arms and returns keep the meaning of every list of statements. An
assignment in both arms runs its condition before its target, while the one assignment it turns
into runs the object and key of a member first. The meaning is kept where these are the same
target and may change places with the condition.
-/

namespace HermesDecomp.Ir

/-- The assignment a list of statements is. -/
def getSingleAssignment : List Statement → Option (AssignTarget × Expression)
  | [.assign target value] => some (target, value)
  | _ => none

/-- The assignment that a branch whose arms assign to equal targets turns into. -/
def ternaryAssignment (condition : Expression) (thenBody elseBody : List Statement) :
    Option Statement :=
  match getSingleAssignment thenBody, getSingleAssignment elseBody with
  | some (target, value), some (target', value') =>
      if target == target' then some (.assign target (.conditional condition value value'))
      else none
  | _, _ => none

mutual

/-- Turn a branch into an assignment, or those inside it, inside a loop or inside a block. -/
def detectTernary : Statement → Statement
  | .ifStmt condition thenBody elseBody =>
      match ternaryAssignment condition thenBody elseBody with
      | some assignment => assignment
      | none => .ifStmt condition (detectTernaries thenBody) (detectTernaries elseBody)
  | .whileStmt condition body => .whileStmt condition (detectTernaries body)
  | .block body => .block (detectTernaries body)
  | statement => statement

def detectTernaries : List Statement → List Statement
  | [] => []
  | first :: rest => detectTernary first :: detectTernaries rest

end

/-- The negation of a condition. A negated one loses its negation. -/
def negateCondition : Expression → Expression
  | .unary .not operand => operand
  | condition => .unary .not condition

/-- A branch, inverted when its first arm is empty and its second is not. -/
def invertedIf (condition : Expression) (thenBody elseBody : List Statement) : Statement :=
  if thenBody.isEmpty && !elseBody.isEmpty then .ifStmt (negateCondition condition) elseBody []
  else .ifStmt condition thenBody elseBody

mutual

/-- Invert the branches with an empty first arm, those inside a branch, a loop or a block too. -/
def invertEmptyIf : Statement → Statement
  | .ifStmt condition thenBody elseBody =>
      invertedIf condition (invertEmptyIfs thenBody) (invertEmptyIfs elseBody)
  | .whileStmt condition body => .whileStmt condition (invertEmptyIfs body)
  | .block body => .block (invertEmptyIfs body)
  | statement => statement

def invertEmptyIfs : List Statement → List Statement
  | [] => []
  | first :: rest => invertEmptyIf first :: invertEmptyIfs rest

end

mutual

/-- A score for how hard an expression is to read. -/
def complexity : Expression → Nat
  | .value _ => 1
  | .member object _ _ => 1 + complexity object
  | .call callee arguments => 2 + complexity callee + complexityAll arguments
  | .new callee arguments => 2 + complexity callee + complexityAll arguments
  | .binary _ left right => 1 + complexity left + complexity right
  | .unary _ operand => 1 + complexity operand
  | .conditional condition thenExpr elseExpr =>
      2 + complexity condition + complexity thenExpr + complexity elseExpr
  | .array elements => 1 + complexityElements elements
  | .object properties => 1 + complexityProperties properties
  | _ => 2

def complexityAll : List Expression → Nat
  | [] => 0
  | first :: rest => complexity first + complexityAll rest

def complexityElements : List (Option Expression) → Nat
  | [] => 0
  | none :: rest => complexityElements rest
  | some first :: rest => complexity first + complexityElements rest

def complexityProperties : List ObjectProperty → Nat
  | [] => 0
  | .mk _ value :: rest => complexity value + complexityProperties rest

end

/-- An expression is simple enough for a conditional. -/
def isReasonableComplexity (expression : Expression) : Bool := complexity expression ≤ 5

/-- The return of one of two values, when all parts are simple enough. A missing second value
is `undefined`, and always simple enough. -/
def ternaryReturn (condition thenValue : Expression) : Option Expression → Option Statement
  | some elseValue =>
      if isReasonableComplexity condition && isReasonableComplexity thenValue &&
          isReasonableComplexity elseValue then
        some (.returnStmt (some (.conditional condition thenValue elseValue)))
      else none
  | none =>
      if isReasonableComplexity condition && isReasonableComplexity thenValue then
        some (.returnStmt (some (.conditional condition thenValue (.value (.constant .undefined)))))
      else none

/-- A branch that returns in both arms, as one return. -/
def tryIfElseReturn : Statement → Option Statement
  | .ifStmt condition [.returnStmt (some thenValue)] [.returnStmt elseValue] =>
      ternaryReturn condition thenValue elseValue
  | _ => none

/-- A branch that returns, and a return behind it, as one return. -/
def tryIfReturnFallthrough : Statement → Statement → Option Statement
  | .ifStmt condition [.returnStmt (some thenValue)] [], .returnStmt elseValue =>
      ternaryReturn condition thenValue elseValue
  | _, _ => none

mutual

/-- Make one return of every branch that returns either way, in all nested bodies. -/
def optimizeTernaryReturns : List Statement → List Statement
  | [] => []
  | [first] =>
      match tryIfElseReturn first with
      | some ternary => [ternary]
      | none => [processNested first]
  | first :: second :: rest =>
      match tryIfElseReturn first with
      | some ternary => ternary :: optimizeTernaryReturns (second :: rest)
      | none =>
          match tryIfReturnFallthrough first second with
          | some ternary => ternary :: optimizeTernaryReturns rest
          | none => processNested first :: optimizeTernaryReturns (second :: rest)

/-- The pass over the bodies of a statement. -/
def processNested : Statement → Statement
  | .ifStmt condition thenBody elseBody =>
      .ifStmt condition (optimizeTernaryReturns thenBody) (optimizeTernaryReturns elseBody)
  | .whileStmt condition body => .whileStmt condition (optimizeTernaryReturns body)
  | .doWhile body condition => .doWhile (optimizeTernaryReturns body) condition
  | .forStmt init condition update body =>
      .forStmt init condition update (optimizeTernaryReturns body)
  | .forIn name object body => .forIn name object (optimizeTernaryReturns body)
  | .forOf name iterable body => .forOf name iterable (optimizeTernaryReturns body)
  | .tryCatch tryBody catchParam catchBody finallyBody =>
      .tryCatch (optimizeTernaryReturns tryBody) catchParam (optimizeTernaryReturns catchBody)
        (optimizeTernaryReturns finallyBody)
  | .switch discriminant cases default =>
      .switch discriminant (processCases cases) (processDefault default)
  | .block body => .block (optimizeTernaryReturns body)
  | statement => statement

def processCases : List (Expression × List Statement) → List (Expression × List Statement)
  | [] => []
  | (test, body) :: rest => (test, optimizeTernaryReturns body) :: processCases rest

def processDefault : Option (List Statement) → Option (List Statement)
  | none => none
  | some body => some (optimizeTernaryReturns body)

end

open Action

variable {host : Host} {α β : Type}

/-- What the passes rely on: an expression does not notice a scope around it, and a negation
answers the opposite of its operand and does nothing else. -/
structure Host.Branching (host : Host) : Prop where
  scope : ∀ expression : Expression,
    inScope (expression.evaluate : Exec host host.Val) = expression.evaluate
  negation : ∀ value, host.unary .not value = pure (host.constant (.bool (!host.truthy value)))
  truthy_bool : ∀ flag, host.truthy (host.constant (.bool flag)) = flag

/-- What ends the same way in every world may stand outside the scope. -/
theorem inScope_bind_pure (part : Exec host α) (change : α → β) :
    inScope (part >>= fun value => pure (change value)) =
      inScope part >>= fun value => pure (change value) := by
  funext machine
  rw [bind_apply, inScope, inScope, bind_apply]
  rcases part { machine with world := host.openScope machine.world } with ⟨_ | _ | _, middle⟩ <;>
    rfl

theorem inScope_bind_fail (part : Exec host α) (exit : α → Exit host) :
    inScope (part >>= fun value => (fail (exit value) : Exec host β)) =
      inScope part >>= fun value => fail (exit value) := by
  funext machine
  rw [bind_apply, inScope, inScope, bind_apply]
  rcases part { machine with world := host.openScope machine.world } with ⟨_ | _ | _, middle⟩ <;>
    rfl

/-- A list of one statement. -/
theorem executeAll_singleton (fuel : Nat) (pending : Option String) (statement : Statement) :
    (executeAll fuel pending [statement] : Exec host PUnit) = statement.execute fuel pending := by
  rw [executeAll]
  exact bind_pure _

section

variable (branching : host.Branching)

include branching

/-- The assignment an arm consists of. -/
theorem inScope_assign (fuel : Nat) (target : AssignTarget) (value : Expression) :
    (inScope (executeAll fuel none [.assign target value]) : Exec host PUnit) =
      target.store value.evaluate >>= fun _ => pure ⟨⟩ := by
  rw [executeAll_singleton, Statement.execute, inScope_bind_pure]
  exact congrArg (fun code : Exec host host.Val => code >>= fun _ => pure PUnit.unit)
    (branching.scope (.assignment target value))

/-- The return an arm consists of. -/
theorem inScope_return (fuel : Nat) (value : Expression) :
    (inScope (executeAll fuel none [.returnStmt (some value)]) : Exec host PUnit) =
      value.evaluate >>= fun result => fail (.returns (some result)) := by
  rw [executeAll_singleton, Statement.execute, inScope_bind_fail, branching.scope]

theorem closeScope_openScope (world : host.World) :
    host.closeScope (host.openScope world) = world := by
  have same := congrFun (branching.scope (.value .this)) ⟨fun _ => none, world, .other ⟨0, 0⟩⟩
  exact congrArg (fun result => result.2.world) same

/-- A scope around nothing. -/
theorem inScope_pure (value : α) : inScope (pure value : Exec host α) = pure value := by
  funext machine
  change (Outcome.ok value, { machine with
    world := host.closeScope (host.openScope machine.world) }) = _
  rw [closeScope_openScope branching]
  rfl

theorem inScope_fail (exit : Exit host) : inScope (fail exit : Exec host α) = fail exit := by
  funext machine
  change (Outcome.err exit, { machine with
    world := host.closeScope (host.openScope machine.world) }) = _
  rw [closeScope_openScope branching]
  rfl

end

/-- What follows both arms follows the choice. -/
theorem choiceOf_bind (condition : Exec host host.Val) (whenTrue whenFalse : Exec host α)
    (next : α → Exec host β) :
    choiceOf condition whenTrue whenFalse >>= next =
      choiceOf condition (whenTrue >>= next) (whenFalse >>= next) := by
  rw [choiceOf, choiceOf, bind_assoc]
  congr 1
  funext value
  split <;> rfl

/-- Two parts may change places when what follows gets the same values. -/
def Swap (first : Exec host α) (second : Exec host β) : Prop :=
  ∀ (γ : Type) (next : α → β → Exec host γ),
    (first >>= fun value => second >>= fun other => next value other) =
      second >>= fun other => first >>= fun value => next value other

theorem Swap.symm {first : Exec host α} {second : Exec host β} (swap : Swap first second) :
    Swap second first := fun γ next => (swap γ fun value other => next other value).symm

/-- A part that only looks at what another one keeps may change places with it. -/
theorem swap_of_kept {first : Exec host α} {second : Exec host β} {value : Machine host → α}
    (looks : ∀ machine, first machine = (.ok (value machine), machine))
    (keeps : ∀ machine, value (second machine).2 = value machine) : Swap first second := by
  intro γ next
  funext machine
  have kept := keeps machine
  rw [bind_apply, looks, bind_apply]
  dsimp only
  rw [bind_apply]
  rcases ran : second machine with ⟨_ | _ | _, middle⟩
  · rw [ran] at kept
    dsimp only at kept ⊢
    rw [bind_apply, looks, kept]
  · rfl
  · rfl

/-- An expression that does nothing and whose value another expression does not change: a
register the other one does not write, or a value that is fixed. -/
def Expression.Steady (other : Expression) : Expression → Prop
  | .value (.binding (.register number)) => number ∉ other.writes
  | .value (.binding _) => False
  | .value _ => True
  | _ => False

/-- Two expressions of which one is steady for the other. -/
def Expression.Movable (first second : Expression) : Prop :=
  second.Steady first ∨ first.Steady second

theorem Expression.Steady.swap {other : Expression} : ∀ {steady : Expression},
    other.Steady steady → Swap (steady.evaluate : Exec host host.Val) other.evaluate
  | .value (.binding (.register number)), unwritten => by
    refine @swap_of_kept _ _ _ _ _ (fun machine => machine.read number) (fun _ => rfl) ?_
    intro machine
    refine Machine.read_congr ?_
    exact ((other.framed machine).registers number).resolve_right fun written => unwritten written.1
  | .value (.constant _), _ | .value .this, _ | .value .global, _ | .value (.parameter _), _
  | .value .arguments, _ | .value .newTarget, _ | .value .super, _ =>
    swap_of_kept (fun _ => rfl) fun _ => rfl

theorem Expression.Movable.swap {first second : Expression} (movable : first.Movable second) :
    Swap (first.evaluate : Exec host host.Val) second.evaluate :=
  movable.elim (fun isSteady => isSteady.swap) fun isSteady => Swap.symm isSteady.swap

/-- A target whose parts may be computed before a condition: a place, a pattern, whose parts
come after the value anyway, or a member whose object and key may change places with it. -/
def AssignTarget.Movable (condition : Expression) : AssignTarget → Prop
  | .member object _ => condition.Movable object
  | .index object key => condition.Movable object ∧ condition.Movable key
  | .rest target => target.Movable condition
  | _ => True

/-- A part that comes first may come before a choice it may change places with. -/
theorem Swap.choiceOf {condition : Exec host host.Val} {first : Exec host α}
    (swap : Swap condition first) (whenTrue whenFalse : α → Exec host β) :
    (first >>= fun value => choiceOf condition (whenTrue value) (whenFalse value)) =
      Ir.choiceOf condition (first >>= whenTrue) (first >>= whenFalse) := by
  have moved := swap β fun flag value => if host.truthy flag then whenTrue value else whenFalse value
  refine moved.symm.trans (congrArg (condition >>= ·) (funext fun flag => ?_))
  split <;> rfl

/-- Storing after a choice of values is choosing what to store. -/
theorem AssignTarget.Movable.store_choiceOf {condition : Expression}
    (whenTrue whenFalse : Exec host host.Val) : ∀ {target : AssignTarget},
    target.Movable condition →
      target.store (choiceOf condition.evaluate whenTrue whenFalse) =
        choiceOf condition.evaluate (target.store whenTrue) (target.store whenFalse)
  | .binding _, _ | .destructuringArray _, _ | .destructuringArrayRest _ _, _
  | .destructuringObject _, _ | .destructuringObjectRest _ _, _ => by
    simp only [AssignTarget.store]
    exact choiceOf_bind _ _ _ _
  | .member object property, movable => by
    simp only [AssignTarget.store, choiceOf_bind]
    exact Swap.choiceOf (Expression.Movable.swap movable) _ _
  | .index object key, ⟨onObject, onKey⟩ => by
    simp only [AssignTarget.store, choiceOf_bind]
    rw [← Swap.choiceOf (Expression.Movable.swap onObject)]
    refine congrArg (object.evaluate >>= ·) (funext fun holder => ?_)
    exact Swap.choiceOf (Expression.Movable.swap onKey) _ _
  | .rest target, movable => @store_choiceOf condition whenTrue whenFalse target movable

mutual

/-- Every branch of a statement that turns into an assignment assigns to one target in both
arms, and one whose parts may be computed before its condition. -/
def Statement.Collapses : Statement → Prop
  | .ifStmt condition thenBody elseBody =>
      (∀ target value target' value', thenBody = [.assign target value] →
        elseBody = [.assign target' value'] → (target == target') = true →
          target' = target ∧ target.Movable condition) ∧
        CollapseAll thenBody ∧ CollapseAll elseBody
  | .whileStmt _ body => CollapseAll body
  | .block body => CollapseAll body
  | _ => True

def CollapseAll : List Statement → Prop
  | [] => True
  | first :: rest => first.Collapses ∧ CollapseAll rest

end

/-- A list is a single assignment. -/
theorem getSingleAssignment_eq_some {statements : List Statement} {target : AssignTarget}
    {value : Expression} :
    getSingleAssignment statements = some (target, value) ↔ statements = [.assign target value] := by
  constructor
  · intro found
    unfold getSingleAssignment at found
    split at found
    · obtain ⟨rfl, rfl⟩ := Prod.mk.inj (Option.some.inj found)
      rfl
    · cases found
  · rintro rfl
    rfl

/-- What a branch that turns into an assignment looks like. -/
theorem ternaryAssignment_eq_some {condition : Expression} {thenBody elseBody : List Statement}
    {assignment : Statement}
    (found : ternaryAssignment condition thenBody elseBody = some assignment) :
    ∃ target value target' value', thenBody = [.assign target value] ∧
      elseBody = [.assign target' value'] ∧ (target == target') = true ∧
      assignment = .assign target (.conditional condition value value') := by
  unfold ternaryAssignment at found
  split at found
  case h_1 target value target' value' isThen isElse =>
    split at found
    case isTrue same =>
      exact ⟨target, value, target', value', getSingleAssignment_eq_some.mp isThen,
        getSingleAssignment_eq_some.mp isElse, same, (Option.some.inj found).symm⟩
    case isFalse => exact nomatch found
  case h_2 => exact nomatch found

/-- An assignment that a branch turns into does what the branch does. -/
theorem execute_ternaryAssignment (branching : host.Branching) (fuel : Nat)
    (label : Option String) {condition : Expression} {target : AssignTarget}
    (movable : target.Movable condition) (value value' : Expression) :
    ((Statement.assign target (.conditional condition value value')).execute fuel label :
        Exec host PUnit) =
      (Statement.ifStmt condition [.assign target value] [.assign target value']).execute fuel
        label := by
  rw [Statement.execute, Statement.execute, inScope_assign branching, inScope_assign branching,
    ← choiceOf_bind, ← movable.store_choiceOf]
  rfl

/-- A label is passed on or taken by a statement as before. -/
theorem labelAfter_detectTernary (pending : Option String) (statement : Statement) :
    (detectTernary statement).labelAfter pending = statement.labelAfter pending := by
  cases statement with
  | ifStmt condition thenBody elseBody =>
    rw [detectTernary]
    split
    case h_1 assignment found =>
      obtain ⟨_, _, _, _, _, _, _, rfl⟩ := ternaryAssignment_eq_some found
      rfl
    case h_2 => rfl
  | expr | letStmt | assign | delete | returnStmt | throwStmt | debugger | comment | breakStmt
  | continueStmt | goto | condGoto | whileStmt | doWhile | forStmt | switch | forOf | forIn
  | tryCatch | block | classStmt => rfl

mutual

/-- A statement keeps its meaning when its branches turn into assignments. -/
theorem Statement.Collapses.execute (branching : host.Branching) (fuel : Nat) :
    ∀ (statement : Statement) (label : Option String), statement.Collapses →
      ((detectTernary statement).execute fuel label : Exec host PUnit) =
        statement.execute fuel label
  | .ifStmt condition thenBody elseBody, label, ⟨atHere, onThen, onElse⟩ => by
    rw [detectTernary]
    split
    case h_1 assignment found =>
      obtain ⟨target, value, target', value', rfl, rfl, same, rfl⟩ :=
        ternaryAssignment_eq_some found
      obtain ⟨rfl, movable⟩ := atHere target value target' value' rfl rfl same
      exact execute_ternaryAssignment branching fuel label movable value value'
    case h_2 =>
      rw [Statement.execute, Statement.execute,
        executeAll_detectTernaries branching fuel thenBody none onThen,
        executeAll_detectTernaries branching fuel elseBody none onElse]
  | .whileStmt condition body, label, onBody | .block body, label, onBody => by
    rw [detectTernary, Statement.execute, Statement.execute,
      executeAll_detectTernaries branching fuel body none onBody]
  | .expr _, _, _ | .letStmt .., _, _ | .assign .., _, _ | .delete .., _, _ | .returnStmt _, _, _
  | .throwStmt _, _, _ | .debugger, _, _ | .comment _, _, _ | .breakStmt _, _, _
  | .continueStmt _, _, _ | .goto _, _, _ | .condGoto .., _, _ | .doWhile .., _, _
  | .forStmt .., _, _ | .switch .., _, _ | .forOf .., _, _ | .forIn .., _, _ | .tryCatch .., _, _
  | .classStmt .., _, _ => rfl

theorem executeAll_detectTernaries (branching : host.Branching) (fuel : Nat) :
    ∀ (statements : List Statement) (pending : Option String), CollapseAll statements →
      (executeAll fuel pending (detectTernaries statements) : Exec host PUnit) =
        executeAll fuel pending statements
  | [], _, _ => rfl
  | first :: rest, pending, ⟨onFirst, onRest⟩ => by
    rw [detectTernaries, executeAll, executeAll, labelAfter_detectTernary,
      Statement.Collapses.execute branching fuel first pending onFirst,
      executeAll_detectTernaries branching fuel rest _ onRest]

end

/-- A choice on a negation takes the other arm. -/
theorem choiceOf_not (branching : host.Branching) (operand : Expression)
    (whenTrue whenFalse : Exec host α) :
    choiceOf (Expression.unary .not operand).evaluate whenTrue whenFalse =
      choiceOf operand.evaluate whenFalse whenTrue := by
  rw [choiceOf, choiceOf, Expression.evaluate, andPerform, bind_assoc]
  refine congrArg (operand.evaluate >>= ·) (funext fun value => ?_)
  rw [branching.negation]
  change (if host.truthy (host.constant (.bool (!host.truthy value))) = true then whenTrue
    else whenFalse) = _
  rw [branching.truthy_bool]
  cases host.truthy value <;> rfl

theorem choiceOf_negateCondition (branching : host.Branching) (condition : Expression)
    (whenTrue whenFalse : Exec host α) :
    choiceOf (negateCondition condition).evaluate whenTrue whenFalse =
      choiceOf condition.evaluate whenFalse whenTrue := by
  unfold negateCondition
  split
  case h_1 operand => rw [choiceOf_not branching]
  case h_2 => exact choiceOf_not branching condition whenTrue whenFalse

/-- An inverted branch does what the branch does. -/
theorem execute_invertedIf (branching : host.Branching) (fuel : Nat) (label : Option String)
    (condition : Expression) (thenBody elseBody : List Statement) :
    ((invertedIf condition thenBody elseBody).execute fuel label : Exec host PUnit) =
      (Statement.ifStmt condition thenBody elseBody).execute fuel label := by
  unfold invertedIf
  split
  case isTrue empty =>
    obtain rfl : thenBody = [] := by simpa using (Bool.and_eq_true_iff.mp empty).1
    rw [Statement.execute, Statement.execute, choiceOf_negateCondition branching]
  case isFalse => rfl

theorem labelAfter_invertEmptyIf (pending : Option String) (statement : Statement) :
    (invertEmptyIf statement).labelAfter pending = statement.labelAfter pending := by
  cases statement with
  | ifStmt condition thenBody elseBody =>
    rw [invertEmptyIf, invertedIf]
    split <;> rfl
  | expr | letStmt | assign | delete | returnStmt | throwStmt | debugger | comment | breakStmt
  | continueStmt | goto | condGoto | whileStmt | doWhile | forStmt | switch | forOf | forIn
  | tryCatch | block | classStmt => rfl

mutual

/-- Inverting the branches of a statement keeps its meaning. -/
theorem Statement.execute_invertEmptyIf (branching : host.Branching) (fuel : Nat) :
    ∀ (statement : Statement) (label : Option String),
      ((invertEmptyIf statement).execute fuel label : Exec host PUnit) =
        statement.execute fuel label
  | .ifStmt condition thenBody elseBody, label => by
    rw [invertEmptyIf, execute_invertedIf branching, Statement.execute, Statement.execute,
      executeAll_invertEmptyIfs branching fuel thenBody none,
      executeAll_invertEmptyIfs branching fuel elseBody none]
  | .whileStmt condition body, label | .block body, label => by
    rw [invertEmptyIf, Statement.execute, Statement.execute,
      executeAll_invertEmptyIfs branching fuel body none]
  | .expr _, _ | .letStmt .., _ | .assign .., _ | .delete .., _ | .returnStmt _, _
  | .throwStmt _, _ | .debugger, _ | .comment _, _ | .breakStmt _, _ | .continueStmt _, _
  | .goto _, _ | .condGoto .., _ | .doWhile .., _ | .forStmt .., _ | .switch .., _ | .forOf .., _
  | .forIn .., _ | .tryCatch .., _ | .classStmt .., _ => rfl

theorem executeAll_invertEmptyIfs (branching : host.Branching) (fuel : Nat) :
    ∀ (statements : List Statement) (pending : Option String),
      (executeAll fuel pending (invertEmptyIfs statements) : Exec host PUnit) =
        executeAll fuel pending statements
  | [], _ => rfl
  | first :: rest, pending => by
    rw [invertEmptyIfs, executeAll, executeAll, labelAfter_invertEmptyIf,
      Statement.execute_invertEmptyIf branching fuel first pending,
      executeAll_invertEmptyIfs branching fuel rest _]

end

end HermesDecomp.Ir
