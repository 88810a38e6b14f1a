import HermesDecomp.Transforms.Propagate

/-!
# Dead stores

A store to a register or a variable is dead when a later statement of the same list stores there
again, only plain statements stand in between, and none of them is seen to read the place. A dead
store of a copy or a scalar is dropped, one of a value with effects keeps the value alone, and
one of a value that holds data stays.
-/

namespace HermesDecomp.Ir

/-- A place whose stores are followed. -/
inductive Key where
  | reg (number : Nat)
  | var (name : String)
deriving DecidableEq

def targetKey : AssignTarget → Option Key
  | .binding (.register number) => some (.reg number)
  | .binding (.variable name) => some (.var name.name)
  | _ => none

/-- A statement without control flow of its own. -/
def isStraightLine : Statement → Bool
  | .assign .. | .expr _ | .letStmt .. => true
  | _ => false

/-- Whether a statement stores to a place as a whole. -/
def overwrites (key : Key) : Statement → Bool
  | .assign (.binding (.register number)) _ => key == .reg number
  | .assign (.binding (.variable name)) _ => key == .var name.name
  | .letStmt name _ _ => key == .var name.name
  | _ => false

/-- Whether the object or key of a target uses a register. -/
def targetUsesRegister (register : Nat) : AssignTarget → Bool
  | .member object _ => object.usesRegister register
  | .index object key => object.usesRegister register || key.usesRegister register
  | _ => false

mutual

/-- Whether a statement uses a register. The value of a declaration is not looked into, and of
a branch or loop only the condition is. -/
def stmtUsesRegister (register : Nat) : Statement → Bool
  | .assign target value => targetUsesRegister register target || value.usesRegister register
  | .expr expression => expression.usesRegister register
  | .returnStmt (some value) => value.usesRegister register
  | .throwStmt value => value.usesRegister register
  | .ifStmt condition _ _ => condition.usesRegister register
  | .whileStmt condition _ => condition.usesRegister register
  | .block statements => stmtsUseRegister register statements
  | _ => false

def stmtsUseRegister (register : Nat) : List Statement → Bool
  | [] => false
  | first :: rest => stmtUsesRegister register first || stmtsUseRegister register rest

end

/-- The name of a variable. -/
def Binding.variable? : Binding → Option String
  | .variable name => some name.name
  | .register _ | .closureVar _ _ => none

/-- Whether a statement reads a variable anywhere in its expressions. -/
def stmtUsesVariable (name : String) (statement : Statement) : Bool :=
  decide (name ∈ statement.visit ⟨fun place => place.variable?.toList, fun _ => []⟩)

def usesKey (statement : Statement) : Key → Bool
  | .reg register => stmtUsesRegister register statement
  | .var name => stmtUsesVariable name statement

/-- Whether a place is stored to again before a statement is seen to read it, with only plain
statements up to there. -/
def overwrittenBeforeRead (key : Key) : List Statement → Bool
  | [] => false
  | first :: rest =>
      if !isStraightLine first then false
      else if usesKey first key then false
      else if overwrites key first then true
      else overwrittenBeforeRead key rest

/-- A copy of another place or a scalar constant. -/
def isTrivialValue : Expression → Bool
  | .value (.binding (.variable _)) => true
  | .value (.binding (.register _)) => true
  | .value (.parameter _) => true
  | .value .this => true
  | .value (.constant (.string _)) => false
  | .value (.constant (.bigInt _)) => false
  | .value (.constant _) => true
  | .member object _ _ => isTrivialValue object
  | _ => false

/-- A literal that holds data. -/
def isLiteralData : Expression → Bool
  | .object _ | .array _ => true
  | .value (.constant (.string _)) => true
  | .value (.constant (.bigInt _)) => true
  | _ => false

mutual

/-- Whether evaluating an expression is taken to have an effect. -/
def hasSideEffects : Expression → Bool
  | .binary _ left right => hasSideEffects left || hasSideEffects right
  | .unary _ operand => hasSideEffects operand
  | .member object property _ => hasSideEffects object || keyHasSideEffects property
  | .array elements => elementsHaveSideEffects elements
  | .object properties => propertiesHaveSideEffects properties
  | .conditional condition thenExpr elseExpr =>
      hasSideEffects condition || hasSideEffects thenExpr || hasSideEffects elseExpr
  | .templateLiteral _ expressions => anyHasSideEffects expressions
  | .call .. | .new .. | .assignment .. | .yield .. | .await _ | .unknown .. => true
  | _ => false

def anyHasSideEffects : List Expression → Bool
  | [] => false
  | first :: rest => hasSideEffects first || anyHasSideEffects rest

def elementsHaveSideEffects : List (Option Expression) → Bool
  | [] => false
  | none :: rest => elementsHaveSideEffects rest
  | some first :: rest => hasSideEffects first || elementsHaveSideEffects rest

def keyHasSideEffects : PropertyKey → Bool
  | .computed key => hasSideEffects key
  | _ => false

def propertiesHaveSideEffects : List ObjectProperty → Bool
  | [] => false
  | .mk key value :: rest =>
      hasSideEffects value || keyHasSideEffects key || propertiesHaveSideEffects rest

end

/-- What a dead store of a value leaves, if it does not stay. -/
def leftOf (value : Expression) : Option (List Statement) :=
  if isTrivialValue value then some []
  else if isLiteralData value || !hasSideEffects value then none
  else some [.expr value]

/-- What a statement leaves if it is a dead store that does not stay, given what follows. -/
def removedStore (rest : List Statement) : Statement → Option (List Statement)
  | .assign target value =>
      match targetKey target with
      | some key => if overwrittenBeforeRead key rest then leftOf value else none
      | none => none
  | _ => none

mutual

/-- Remove the dead stores of a list and of all nested bodies. -/
def removeDeadAssignments : List Statement → List Statement
  | [] => []
  | first :: rest =>
      match removedStore rest first with
      | some left => left ++ removeDeadAssignments rest
      | none => removeInside first :: removeDeadAssignments rest

/-- Remove the dead stores in the bodies of a statement. -/
def removeInside : Statement → Statement
  | .ifStmt condition thenBody elseBody =>
      .ifStmt condition (removeDeadAssignments thenBody) (removeDeadAssignments elseBody)
  | .whileStmt condition body => .whileStmt condition (removeDeadAssignments body)
  | .doWhile body condition => .doWhile (removeDeadAssignments body) condition
  | .forStmt init condition update body =>
      .forStmt init condition update (removeDeadAssignments body)
  | .forIn name object body => .forIn name object (removeDeadAssignments body)
  | .forOf name iterable body => .forOf name iterable (removeDeadAssignments body)
  | .tryCatch tryBody catchParam catchBody finallyBody =>
      .tryCatch (removeDeadAssignments tryBody) catchParam (removeDeadAssignments catchBody)
        (removeDeadAssignments finallyBody)
  | .switch discriminant cases default =>
      .switch discriminant (removeInCases cases) (removeInDefault default)
  | .block body => .block (removeDeadAssignments body)
  | statement => statement

def removeInCases : List (Expression × List Statement) → List (Expression × List Statement)
  | [] => []
  | (test, body) :: rest => (test, removeDeadAssignments body) :: removeInCases rest

def removeInDefault : Option (List Statement) → Option (List Statement)
  | none => none
  | some body => some (removeDeadAssignments body)

end

end HermesDecomp.Ir
