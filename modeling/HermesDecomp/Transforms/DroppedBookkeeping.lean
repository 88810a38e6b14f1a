import HermesDecomp.Ir.Creations
import HermesDecomp.Ir.NestedBodies
import HermesDecomp.Ir.Registers

/-!
# Bookkeeping that is dropped

Three passes drop statements at the end of a body: stores to bookkeeping variables that are not
read, bare calls with the key of a call that stays, and copies of places that are never assigned.
Reads and calls are counted over what the walk of a body reaches.
-/

namespace HermesDecomp.Ir

/-- A part of a statement: an expression it evaluates, a target it stores to, a variable it
declares. -/
inductive Part where
  | expression (expression : Expression)
  | target (target : AssignTarget)
  | declared (name : Var)

section Parts

variable (entersClasses : Bool)

mutual

/-- The parts of a statement and of the statements inside it, those in the bodies of classes on
request. -/
def Statement.parts : Statement → List Part
  | .expr expression => [.expression expression]
  | .letStmt name value _ => [.declared name, .expression value]
  | .assign target value => [.target target, .expression value]
  | .delete target _ => [.expression target]
  | .returnStmt value => value.toList.map .expression
  | .throwStmt value => [.expression value]
  | .debugger | .comment _ | .breakStmt _ | .continueStmt _ | .goto _ => []
  | .condGoto condition _ _ => [.expression condition]
  | .ifStmt condition thenBody elseBody =>
      .expression condition :: (partsOfStatements thenBody ++ partsOfStatements elseBody)
  | .whileStmt condition body => .expression condition :: partsOfStatements body
  | .doWhile body condition => partsOfStatements body ++ [.expression condition]
  | .forStmt init condition update body =>
      partsOfStatement init ++ (condition.toList.map .expression ++
        (partsOfStatement update ++ partsOfStatements body))
  | .switch discriminant cases default =>
      .expression discriminant :: (partsOfCases cases ++ partsOfDefault default)
  | .forOf _ iterable body => .expression iterable :: partsOfStatements body
  | .forIn _ object body => .expression object :: partsOfStatements body
  | .tryCatch tryBody _ catchBody finallyBody =>
      partsOfStatements tryBody ++ (partsOfStatements catchBody ++ partsOfStatements finallyBody)
  | .block body => partsOfStatements body
  | .classStmt _ superClass constructor methods =>
      superClass.toList.map .expression ++
        if entersClasses then partsOfStatement constructor ++ partsOfMethods methods else []

def partsOfStatements : List Statement → List Part
  | [] => []
  | first :: rest => first.parts ++ partsOfStatements rest

def partsOfStatement : Option Statement → List Part
  | none => []
  | some statement => statement.parts

def partsOfDefault : Option (List Statement) → List Part
  | none => []
  | some body => partsOfStatements body

def partsOfCases : List (Expression × List Statement) → List Part
  | [] => []
  | (test, body) :: rest => .expression test :: (partsOfStatements body ++ partsOfCases rest)

def partsOfMethods : List ClassMethod → List Part
  | [] => []
  | .mk _ value body _ _ _ :: rest =>
      .expression value :: (partsOfDefault body ++ partsOfMethods rest)

end

end Parts

/-- Collects the places read. -/
def placesRead : Visitor Binding := ⟨fun place => [place], fun _ => []⟩

def Part.placesRead : Part → List Binding
  | expression part => part.visit Ir.placesRead
  | target part => part.visit Ir.placesRead
  | declared _ => []

mutual

/-- The calls in an expression, of constructors too. -/
def Expression.calls : Expression → List Expression
  | .value _ | .function .. | .regExp .. | .unknown .. => []
  | .binary _ left right => left.calls ++ right.calls
  | .unary _ operand | .spread operand | .await operand | .yield operand _ => operand.calls
  | .conditional condition thenExpr elseExpr =>
      condition.calls ++ (thenExpr.calls ++ elseExpr.calls)
  | .member object property _ => object.calls ++ property.calls
  | .call callee arguments => .call callee arguments :: (callee.calls ++ callsOfAll arguments)
  | .new callee arguments => .new callee arguments :: (callee.calls ++ callsOfAll arguments)
  | .array elements => callsOfElements elements
  | .object properties => callsOfProperties properties
  | .assignment target value => target.calls ++ value.calls
  | .templateLiteral _ expressions => callsOfAll expressions
  | .jsxElement _ attributes children => callsOfAttributes attributes ++ callsOfAll children

def callsOfAll : List Expression → List Expression
  | [] => []
  | first :: rest => first.calls ++ callsOfAll rest

def callsOfElements : List (Option Expression) → List Expression
  | [] => []
  | none :: rest => callsOfElements rest
  | some first :: rest => first.calls ++ callsOfElements rest

def callsOfAttributes : List (String × Expression) → List Expression
  | [] => []
  | (_, first) :: rest => first.calls ++ callsOfAttributes rest

def PropertyKey.calls : PropertyKey → List Expression
  | .computed key => key.calls
  | .ident _ | .string _ | .index _ => []

def callsOfProperties : List ObjectProperty → List Expression
  | [] => []
  | .mk key value :: rest => key.calls ++ (value.calls ++ callsOfProperties rest)

def AssignTarget.calls : AssignTarget → List Expression
  | .binding _ => []
  | .member object _ => object.calls
  | .index object key => object.calls ++ key.calls
  | .destructuringArray elements => callsOfItems elements
  | .destructuringArrayRest elements rest => callsOfItems elements ++ rest.calls
  | .destructuringObject properties => callsOfFields properties
  | .destructuringObjectRest properties rest => callsOfFields properties ++ rest.calls
  | .rest target => target.calls

def callsOfItems : List (Option (AssignTarget × Option Expression)) → List Expression
  | [] => []
  | none :: rest => callsOfItems rest
  | some (target, none) :: rest => target.calls ++ callsOfItems rest
  | some (target, some fallback) :: rest => target.calls ++ (fallback.calls ++ callsOfItems rest)

def callsOfFields : List (String × AssignTarget × Option Expression) → List Expression
  | [] => []
  | (_, target, none) :: rest => target.calls ++ callsOfFields rest
  | (_, target, some fallback) :: rest => target.calls ++ (fallback.calls ++ callsOfFields rest)

end

def Part.calls : Part → List Expression
  | expression part => part.calls
  | target part => part.calls
  | declared _ => []

/-- The calls a walk over a statement reaches. -/
def Statement.calls (statement : Statement) : List Expression :=
  (statement.parts false).flatMap Part.calls

/-- The places a walk over a body reads. -/
def readsOfBody (entersClasses : Bool) (body : List Statement) : List Binding :=
  (partsOfStatements entersClasses body).flatMap Part.placesRead

/-- A variable with the value a statement gives it. -/
def Statement.variableStore? : Statement → Option (Var × Expression)
  | .letStmt name value _ => some (name, value)
  | .assign (.binding (.variable name)) value => some (name, value)
  | _ => none

/-- How often a walk over a body reads a variable. -/
def readCount (body : List Statement) (place : Binding) : Nat :=
  (readsOfBody false body).countP (· == place)

/-- Drop the doomed statements of one list. -/
def dropDoomed (doomed : Statement → Bool) (statements : List Statement) : List Statement :=
  statements.filter fun statement => !doomed statement

mutual

/-- The statements without a body in a statement, as deep as a nested pass looks. -/
def Statement.leaves : Statement → List Statement
  | .ifStmt _ thenBody elseBody => leavesOfAll thenBody ++ leavesOfAll elseBody
  | .whileStmt _ body | .doWhile body _ | .forStmt _ _ _ body => leavesOfAll body
  | .forIn _ _ body | .forOf _ _ body | .block body => leavesOfAll body
  | .tryCatch tryBody _ catchBody finallyBody =>
      leavesOfAll tryBody ++ (leavesOfAll catchBody ++ leavesOfAll finallyBody)
  | .switch _ cases default => leavesOfCases cases ++ leavesOfDefault default
  | statement => [statement]

def leavesOfAll : List Statement → List Statement
  | [] => []
  | first :: rest => first.leaves ++ leavesOfAll rest

def leavesOfCases : List (Expression × List Statement) → List Statement
  | [] => []
  | (_, body) :: rest => leavesOfAll body ++ leavesOfCases rest

def leavesOfDefault : Option (List Statement) → List Statement
  | none => []
  | some body => leavesOfAll body

end

/-- The place a statement stores to. -/
def Statement.storedPlace? : Statement → Option Binding
  | .letStmt name _ _ => some (.variable name)
  | .assign (.binding place) _ => some place
  | _ => none

section Strip

variable {doomed : Statement → Bool}

theorem dropDoomed_cons (first : Statement) (rest : List Statement) :
    dropDoomed doomed (first :: rest) = dropDoomed doomed [first] ++ dropDoomed doomed rest :=
  List.filter_append [first] rest

theorem leavesOfAll_append (statements rest : List Statement) :
    leavesOfAll (statements ++ rest) = leavesOfAll statements ++ leavesOfAll rest := by
  induction statements with
  | nil => rfl
  | cons first others ih => simp [leavesOfAll, ih]

/-- A statement that no pass enters goes or stays. -/
theorem leaves_dropDoomed {statement : Statement} (isLeaf : statement.leaves = [statement]) :
    leavesOfAll (dropDoomed doomed [statement]) =
      statement.leaves.filter fun leaf => !doomed leaf := by
  rw [isLeaf]
  cases goes : doomed statement <;> simp [dropDoomed, goes, leavesOfAll, isLeaf]

/-- Only stores are doomed. -/
def DoomsStores (doomed : Statement → Bool) : Prop :=
  ∀ statement, doomed statement = true → statement.storedPlace?.isSome = true

/-- A statement that is no store stays. -/
theorem DoomsStores.kept (stores : DoomsStores doomed) {statement : Statement}
    (other : statement.storedPlace? = none) : doomed statement = false := by
  rw [Bool.eq_false_iff]
  intro goes
  simpa [other] using stores statement goes

theorem dropDoomed_kept (stores : DoomsStores doomed) {statement : Statement}
    (other : statement.storedPlace? = none) :
    leavesOfAll (dropDoomed doomed [statement]) = statement.leaves := by
  simp [dropDoomed, stores.kept other, leavesOfAll]

section

variable (stores : DoomsStores doomed)

include stores

set_option linter.unusedSectionVars false in
mutual

/-- Stripping the bodies of a statement drops the doomed leaves. -/
theorem Statement.leaves_strip : ∀ statement : Statement,
    leavesOfAll (dropDoomed doomed [statement.mapNestedBodies (dropDoomed doomed)]) =
      statement.leaves.filter fun leaf => !doomed leaf
  | .ifStmt condition thenBody elseBody => by
    rw [Statement.mapNestedBodies, dropDoomed_kept stores rfl]
    simp [Statement.leaves, leavesOfAll_strip thenBody, leavesOfAll_strip elseBody]
  | .whileStmt condition body | .doWhile body condition | .forStmt init condition update body
  | .forIn name object body | .forOf name iterable body | .block body => by
    rw [Statement.mapNestedBodies, dropDoomed_kept stores rfl]
    exact leavesOfAll_strip body
  | .tryCatch tryBody catchParam catchBody finallyBody => by
    rw [Statement.mapNestedBodies, dropDoomed_kept stores rfl]
    simp [Statement.leaves, leavesOfAll_strip tryBody, leavesOfAll_strip catchBody,
      leavesOfAll_strip finallyBody]
  | .switch discriminant cases default => by
    rw [Statement.mapNestedBodies, dropDoomed_kept stores rfl]
    simp [Statement.leaves, leavesOfCases_strip cases, leavesOfDefault_strip default]
  | .expr .. | .letStmt .. | .assign .. | .delete .. | .returnStmt .. | .throwStmt ..
  | .debugger | .comment .. | .breakStmt .. | .continueStmt .. | .goto .. | .condGoto ..
  | .classStmt .. => leaves_dropDoomed rfl

theorem leavesOfAll_strip : ∀ statements,
    leavesOfAll (dropDoomed doomed (mapNestedAll (dropDoomed doomed) statements)) =
      (leavesOfAll statements).filter fun leaf => !doomed leaf
  | [] => rfl
  | first :: rest => by
    rw [mapNestedAll, dropDoomed_cons, leavesOfAll_append, first.leaves_strip,
      leavesOfAll_strip rest, leavesOfAll, List.filter_append]

theorem leavesOfCases_strip :
    ∀ cases, leavesOfCases (mapNestedCases (dropDoomed doomed) cases) =
      (leavesOfCases cases).filter fun leaf => !doomed leaf
  | [] => rfl
  | (test, body) :: rest => by
    rw [mapNestedCases, leavesOfCases, leavesOfAll_strip body, leavesOfCases_strip rest,
      leavesOfCases, List.filter_append]

theorem leavesOfDefault_strip :
    ∀ default, leavesOfDefault (mapNestedDefault (dropDoomed doomed) default) =
      (leavesOfDefault default).filter fun leaf => !doomed leaf
  | none => rfl
  | some body => leavesOfAll_strip body

end

end

end Strip

/-- Nothing reads a place: no statement of a body, no class in it and no function it creates.
What a function reads of the places around it is given by its number. -/
def Unread (captured : FunctionId → List Binding) (body : List Statement) (place : Binding) : Prop :=
  ∀ read ∈ readsOfBody true body ++
    (creationsOfStatements body).flatMap fun creation => captured creation.id, ¬ read == place

section

variable {isRequire : Expression → Prop} {captured : FunctionId → List Binding}
  {body : List Statement}

section

variable {statement : Statement} {name : Var} {value : Expression}
  (stores : statement.variableStore? = some (name, value))

include stores

end

end

end HermesDecomp.Ir
