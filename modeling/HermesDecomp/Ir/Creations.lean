import HermesDecomp.Ir.Syntax

/-!
# The functions a body creates

A body refers to another function by a function expression, which creates a closure of it where it
is evaluated and is rendered with the whole text of that function. The functions in the body of a
class are marked: the passes over closures leave a class as it stands.
-/

namespace HermesDecomp.Ir

/-- One function expression: the function, how it is written, whether it is called on the
spot, and whether it stands in a class. -/
structure Creation where
  id : FunctionId
  name : Option String
  isArrow : Bool
  isAsync : Bool
  isGenerator : Bool
  iife : Bool
  inClass : Bool
deriving DecidableEq, Repr

/-- The function is called where it is created. -/
def Creation.called (creation : Creation) : Creation := { creation with iife := true }

/-- The function stands in a class. -/
def Creation.classed (creation : Creation) : Creation := { creation with inClass := true }

/-- The expression is a function. -/
def Expression.isFunction : Expression → Bool
  | .function .. => true
  | _ => false

section Creations

mutual

/-- The functions an expression creates, in the order it is walked. -/
def Expression.creations : Expression → List Creation
  | .value _ => []
  | .binary _ left right => left.creations ++ right.creations
  | .unary _ operand => operand.creations
  | .conditional condition thenExpr elseExpr =>
      condition.creations ++ (thenExpr.creations ++ elseExpr.creations)
  | .member object property _ => object.creations ++ property.creations
  | .call callee arguments =>
      (if callee.isFunction then callee.creations.map Creation.called else callee.creations) ++
        creationsOfAll arguments
  | .new callee arguments => callee.creations ++ creationsOfAll arguments
  | .array elements => creationsOfElements elements
  | .object properties => creationsOfProperties properties
  | .function id name isArrow isAsync isGenerator =>
      [⟨id, name, isArrow, isAsync, isGenerator, false, false⟩]
  | .assignment target value => target.creations ++ value.creations
  | .spread operand => operand.creations
  | .templateLiteral _ expressions => creationsOfAll expressions
  | .regExp .. => []
  | .yield value _ => value.creations
  | .await operand => operand.creations
  | .jsxElement _ attributes children => creationsOfAttributes attributes ++ creationsOfAll children
  | .unknown .. => []

def creationsOfAll : List Expression → List Creation
  | [] => []
  | first :: rest => first.creations ++ creationsOfAll rest

def creationsOfElements : List (Option Expression) → List Creation
  | [] => []
  | none :: rest => creationsOfElements rest
  | some first :: rest => first.creations ++ creationsOfElements rest

def creationsOfAttributes : List (String × Expression) → List Creation
  | [] => []
  | (_, first) :: rest => first.creations ++ creationsOfAttributes rest

def PropertyKey.creations : PropertyKey → List Creation
  | .computed key => key.creations
  | .ident _ => []
  | .string _ => []
  | .index _ => []

def creationsOfProperties : List ObjectProperty → List Creation
  | [] => []
  | .mk key value :: rest => key.creations ++ (value.creations ++ creationsOfProperties rest)

def AssignTarget.creations : AssignTarget → List Creation
  | .binding _ => []
  | .member object _ => object.creations
  | .index object key => object.creations ++ key.creations
  | .destructuringArray elements => creationsOfItems elements
  | .destructuringArrayRest elements rest => creationsOfItems elements ++ rest.creations
  | .destructuringObject properties => creationsOfFields properties
  | .destructuringObjectRest properties rest => creationsOfFields properties ++ rest.creations
  | .rest target => target.creations

def creationsOfItems : List (Option (AssignTarget × Option Expression)) → List Creation
  | [] => []
  | none :: rest => creationsOfItems rest
  | some (target, none) :: rest => target.creations ++ creationsOfItems rest
  | some (target, some fallback) :: rest =>
      target.creations ++ (fallback.creations ++ creationsOfItems rest)

def creationsOfFields : List (String × AssignTarget × Option Expression) → List Creation
  | [] => []
  | (_, target, none) :: rest => target.creations ++ creationsOfFields rest
  | (_, target, some fallback) :: rest =>
      target.creations ++ (fallback.creations ++ creationsOfFields rest)

end

/-- The functions an expression that may be absent creates. -/
def creationsOfOption : Option Expression → List Creation
  | none => []
  | some expression => expression.creations

mutual

/-- The functions a statement creates, in the order it is walked. Those of a class are
marked. -/
def Statement.creations : Statement → List Creation
  | .expr expression => expression.creations
  | .letStmt _ value _ => value.creations
  | .assign target value => target.creations ++ value.creations
  | .delete target _ => target.creations
  | .returnStmt value => creationsOfOption value
  | .throwStmt value => value.creations
  | .debugger => []
  | .comment _ => []
  | .breakStmt _ => []
  | .continueStmt _ => []
  | .goto _ => []
  | .condGoto condition _ _ => condition.creations
  | .ifStmt condition thenBody elseBody =>
      condition.creations ++ (creationsOfStatements thenBody ++ creationsOfStatements elseBody)
  | .whileStmt condition body => condition.creations ++ creationsOfStatements body
  | .doWhile body condition => creationsOfStatements body ++ condition.creations
  | .forStmt init condition update body =>
      creationsOfStatement init ++ (creationsOfOption condition ++ (creationsOfStatement update ++
        creationsOfStatements body))
  | .switch discriminant cases default =>
      discriminant.creations ++ (creationsOfCases cases ++ creationsOfDefault default)
  | .forOf _ iterable body => iterable.creations ++ creationsOfStatements body
  | .forIn _ object body => object.creations ++ creationsOfStatements body
  | .tryCatch tryBody _ catchBody finallyBody =>
      creationsOfStatements tryBody ++ (creationsOfStatements catchBody ++
        creationsOfStatements finallyBody)
  | .block body => creationsOfStatements body
  | .classStmt _ superClass constructor methods =>
      (creationsOfOption superClass ++ (creationsOfStatement constructor ++
        creationsOfMethods methods)).map Creation.classed

def creationsOfStatements : List Statement → List Creation
  | [] => []
  | first :: rest => first.creations ++ creationsOfStatements rest

def creationsOfStatement : Option Statement → List Creation
  | none => []
  | some statement => statement.creations

def creationsOfDefault : Option (List Statement) → List Creation
  | none => []
  | some body => creationsOfStatements body

def creationsOfCases : List (Expression × List Statement) → List Creation
  | [] => []
  | (test, body) :: rest => test.creations ++ (creationsOfStatements body ++ creationsOfCases rest)

def creationsOfMethods : List ClassMethod → List Creation
  | [] => []
  | .mk _ value body _ _ _ :: rest =>
      value.creations ++ (creationsOfDefault body ++ creationsOfMethods rest)

end

end Creations

section Naming

variable (names : FunctionId → Option String)

/-- A function given a name is read from it. -/
def namedFunction (id : FunctionId) (name : Option String) (isArrow isAsync isGenerator : Bool) :
    Expression :=
  match names id with
  | some given => .value (.binding (.variable ⟨given, none⟩))
  | none => .function id name isArrow isAsync isGenerator

mutual

/-- An expression with the named functions replaced. -/
def Expression.nameFunctions : Expression → Expression
  | .value value => .value value
  | .binary op left right => .binary op left.nameFunctions right.nameFunctions
  | .unary op operand => .unary op operand.nameFunctions
  | .conditional condition thenExpr elseExpr =>
      .conditional condition.nameFunctions thenExpr.nameFunctions elseExpr.nameFunctions
  | .member object property optional => .member object.nameFunctions property.nameFunctions optional
  | .call callee arguments => .call callee.nameFunctions (nameFunctionsOfAll arguments)
  | .new callee arguments => .new callee.nameFunctions (nameFunctionsOfAll arguments)
  | .array elements => .array (nameFunctionsOfElements elements)
  | .object properties => .object (nameFunctionsOfProperties properties)
  | .function id name isArrow isAsync isGenerator =>
      namedFunction names id name isArrow isAsync isGenerator
  | .assignment target value => .assignment target.nameFunctions value.nameFunctions
  | .spread operand => .spread operand.nameFunctions
  | .templateLiteral quasis expressions => .templateLiteral quasis (nameFunctionsOfAll expressions)
  | .regExp pattern flags => .regExp pattern flags
  | .yield value delegate => .yield value.nameFunctions delegate
  | .await operand => .await operand.nameFunctions
  | .jsxElement tag attributes children =>
      .jsxElement tag (nameFunctionsOfAttributes attributes) (nameFunctionsOfAll children)
  | .unknown opcode operands => .unknown opcode operands

def nameFunctionsOfAll : List Expression → List Expression
  | [] => []
  | first :: rest => first.nameFunctions :: nameFunctionsOfAll rest

def nameFunctionsOfElements : List (Option Expression) → List (Option Expression)
  | [] => []
  | none :: rest => none :: nameFunctionsOfElements rest
  | some first :: rest => some first.nameFunctions :: nameFunctionsOfElements rest

def nameFunctionsOfAttributes : List (String × Expression) → List (String × Expression)
  | [] => []
  | (name, first) :: rest => (name, first.nameFunctions) :: nameFunctionsOfAttributes rest

def PropertyKey.nameFunctions : PropertyKey → PropertyKey
  | .computed key => .computed key.nameFunctions
  | .ident name => .ident name
  | .string text => .string text
  | .index position => .index position

def nameFunctionsOfProperties : List ObjectProperty → List ObjectProperty
  | [] => []
  | .mk key value :: rest =>
      .mk key.nameFunctions value.nameFunctions :: nameFunctionsOfProperties rest

def AssignTarget.nameFunctions : AssignTarget → AssignTarget
  | .binding place => .binding place
  | .member object property => .member object.nameFunctions property
  | .index object key => .index object.nameFunctions key.nameFunctions
  | .destructuringArray elements => .destructuringArray (nameFunctionsOfItems elements)
  | .destructuringArrayRest elements rest =>
      .destructuringArrayRest (nameFunctionsOfItems elements) rest.nameFunctions
  | .destructuringObject properties => .destructuringObject (nameFunctionsOfFields properties)
  | .destructuringObjectRest properties rest =>
      .destructuringObjectRest (nameFunctionsOfFields properties) rest.nameFunctions
  | .rest target => .rest target.nameFunctions

def nameFunctionsOfItems : List (Option (AssignTarget × Option Expression)) →
    List (Option (AssignTarget × Option Expression))
  | [] => []
  | none :: rest => none :: nameFunctionsOfItems rest
  | some (target, none) :: rest => some (target.nameFunctions, none) :: nameFunctionsOfItems rest
  | some (target, some fallback) :: rest =>
      some (target.nameFunctions, some fallback.nameFunctions) :: nameFunctionsOfItems rest

def nameFunctionsOfFields : List (String × AssignTarget × Option Expression) →
    List (String × AssignTarget × Option Expression)
  | [] => []
  | (key, target, none) :: rest => (key, target.nameFunctions, none) :: nameFunctionsOfFields rest
  | (key, target, some fallback) :: rest =>
      (key, target.nameFunctions, some fallback.nameFunctions) :: nameFunctionsOfFields rest

end

mutual

/-- A statement with the named functions replaced. A class stays as it is. -/
def Statement.nameFunctions : Statement → Statement
  | .expr expression => .expr (expression.nameFunctions names)
  | .letStmt name value kind => .letStmt name (value.nameFunctions names) kind
  | .assign target value => .assign (target.nameFunctions names) (value.nameFunctions names)
  | .delete target result => .delete (target.nameFunctions names) result
  | .returnStmt value => .returnStmt (value.map (·.nameFunctions names))
  | .throwStmt value => .throwStmt (value.nameFunctions names)
  | .debugger => .debugger
  | .comment text => .comment text
  | .breakStmt label => .breakStmt label
  | .continueStmt label => .continueStmt label
  | .goto target => .goto target
  | .condGoto condition target fallthrough =>
      .condGoto (condition.nameFunctions names) target fallthrough
  | .ifStmt condition thenBody elseBody =>
      .ifStmt (condition.nameFunctions names) (nameFunctionsOfStatements thenBody)
        (nameFunctionsOfStatements elseBody)
  | .whileStmt condition body =>
      .whileStmt (condition.nameFunctions names) (nameFunctionsOfStatements body)
  | .doWhile body condition =>
      .doWhile (nameFunctionsOfStatements body) (condition.nameFunctions names)
  | .forStmt init condition update body =>
      .forStmt (nameFunctionsOfStatement init) (condition.map (·.nameFunctions names))
        (nameFunctionsOfStatement update) (nameFunctionsOfStatements body)
  | .switch discriminant cases default =>
      .switch (discriminant.nameFunctions names) (nameFunctionsOfCases cases)
        (nameFunctionsOfDefault default)
  | .forOf name iterable body =>
      .forOf name (iterable.nameFunctions names) (nameFunctionsOfStatements body)
  | .forIn name object body =>
      .forIn name (object.nameFunctions names) (nameFunctionsOfStatements body)
  | .tryCatch tryBody catchParam catchBody finallyBody =>
      .tryCatch (nameFunctionsOfStatements tryBody) catchParam (nameFunctionsOfStatements catchBody)
        (nameFunctionsOfStatements finallyBody)
  | .block body => .block (nameFunctionsOfStatements body)
  | .classStmt name superClass constructor methods => .classStmt name superClass constructor methods

def nameFunctionsOfStatements : List Statement → List Statement
  | [] => []
  | first :: rest => first.nameFunctions :: nameFunctionsOfStatements rest

def nameFunctionsOfStatement : Option Statement → Option Statement
  | none => none
  | some statement => some statement.nameFunctions

def nameFunctionsOfDefault : Option (List Statement) → Option (List Statement)
  | none => none
  | some body => some (nameFunctionsOfStatements body)

def nameFunctionsOfCases : List (Expression × List Statement) → List (Expression × List Statement)
  | [] => []
  | (test, body) :: rest =>
      (test.nameFunctions names, nameFunctionsOfStatements body) :: nameFunctionsOfCases rest

end

end Naming

section Left

variable {names : FunctionId → Option String}

/-- A creation that stays: its function is given no name, or it stands in a class. -/
def Creation.unnamed (names : FunctionId → Option String) (creation : Creation) : Bool :=
  creation.inClass || (names creation.id).isNone

/-- Only a function is replaced, and by what is no function. -/
theorem isFunction_nameFunctions {expression : Expression} (other : expression.isFunction = false) :
    (expression.nameFunctions names).isFunction = false := by
  cases expression
  case function => cases other
  all_goals rfl

/-- The function at the head of a call is created without a name or not at all. -/
theorem creations_namedFunction (id : FunctionId) (name : Option String)
    (isArrow isAsync isGenerator : Bool) :
    (namedFunction names id name isArrow isAsync isGenerator).creations =
      (Expression.function id name isArrow isAsync isGenerator).creations.filter
        (Creation.unnamed names) := by
  unfold namedFunction Expression.creations Creation.unnamed
  cases given : names id with
  | none => simp only [given, Bool.false_or, List.filter_cons, Option.isNone_none, if_true,
      List.filter_nil]
  | some text => simp only [given, Bool.false_or, List.filter_cons, Option.isNone_some,
      Bool.false_eq_true, if_false, List.filter_nil]

/-- Called on the spot a function is named or not all the same. -/
theorem filter_called (creations : List Creation) :
    (creations.map Creation.called).filter (Creation.unnamed names) =
      (creations.filter (Creation.unnamed names)).map Creation.called := by
  rw [List.filter_map]
  rfl

/-- What stands in a class stays. -/
theorem filter_classed (creations : List Creation) :
    (creations.map Creation.classed).filter (Creation.unnamed names) =
      creations.map Creation.classed := by
  rw [List.filter_eq_self]
  intro creation member
  obtain ⟨inside, _, rfl⟩ := List.mem_map.mp member
  rfl

/-- The creations of the head of a call, once those of the head on its own are known. -/
theorem creations_callee {callee : Expression}
    (known : (callee.nameFunctions names).creations =
      callee.creations.filter (Creation.unnamed names)) :
    (if (callee.nameFunctions names).isFunction then
        (callee.nameFunctions names).creations.map Creation.called
      else (callee.nameFunctions names).creations) =
      (if callee.isFunction then callee.creations.map Creation.called
        else callee.creations).filter (Creation.unnamed names) := by
  cases function : callee.isFunction with
  | false => rw [isFunction_nameFunctions function, known]; rfl
  | true =>
    rw [if_pos rfl, filter_called, ← known]
    split
    · rfl
    · rename_i replaced
      cases callee
      case function id name isArrow isAsync isGenerator =>
        change (namedFunction names id name isArrow isAsync isGenerator).creations =
          (namedFunction names id name isArrow isAsync isGenerator).creations.map Creation.called
        change ¬ (namedFunction names id name isArrow isAsync isGenerator).isFunction = true
          at replaced
        unfold namedFunction at replaced ⊢
        split
        · rfl
        · rename_i given
          rw [given] at replaced
          exact absurd rfl replaced
      all_goals cases function

attribute [local simp] Expression.nameFunctions Expression.creations nameFunctionsOfAll
  creationsOfAll nameFunctionsOfElements creationsOfElements nameFunctionsOfAttributes
  creationsOfAttributes PropertyKey.nameFunctions PropertyKey.creations nameFunctionsOfProperties
  creationsOfProperties AssignTarget.nameFunctions AssignTarget.creations nameFunctionsOfItems
  creationsOfItems nameFunctionsOfFields creationsOfFields Statement.nameFunctions
  Statement.creations nameFunctionsOfStatements creationsOfStatements nameFunctionsOfStatement
  creationsOfStatement nameFunctionsOfDefault creationsOfDefault nameFunctionsOfCases
  creationsOfCases List.filter_append

mutual

/-- What an expression creates once the named functions are replaced: the others. -/
theorem Expression.creations_named : ∀ expression : Expression,
    (expression.nameFunctions names).creations =
      expression.creations.filter (Creation.unnamed names)
  | .value _ | .regExp .. | .unknown .. => rfl
  | .function id name isArrow isAsync isGenerator =>
    creations_namedFunction id name isArrow isAsync isGenerator
  | .binary op left right => by simp [left.creations_named, right.creations_named]
  | .unary op operand | .spread operand | .await operand => by simp [operand.creations_named]
  | .conditional condition thenExpr elseExpr => by
    simp [condition.creations_named, thenExpr.creations_named, elseExpr.creations_named]
  | .member object property optional => by simp [object.creations_named, property.creations_named]
  | .call callee arguments => by
    simp [creations_callee callee.creations_named, creations_namedOfAll arguments]
  | .new callee arguments => by simp [callee.creations_named, creations_namedOfAll arguments]
  | .array elements => by simp [creations_namedOfElements elements]
  | .object properties => by simp [creations_namedOfProperties properties]
  | .assignment target value => by simp [target.creations_named, value.creations_named]
  | .templateLiteral quasis expressions => by simp [creations_namedOfAll expressions]
  | .yield value delegate => by simp [value.creations_named]
  | .jsxElement tag attributes children => by
    simp [creations_namedOfAttributes attributes, creations_namedOfAll children]

theorem creations_namedOfAll : ∀ expressions,
    creationsOfAll (nameFunctionsOfAll names expressions) =
      (creationsOfAll expressions).filter (Creation.unnamed names)
  | [] => rfl
  | first :: rest => by simp [first.creations_named, creations_namedOfAll rest]

theorem creations_namedOfElements : ∀ elements,
    creationsOfElements (nameFunctionsOfElements names elements) =
      (creationsOfElements elements).filter (Creation.unnamed names)
  | [] => rfl
  | none :: rest => by simp [creations_namedOfElements rest]
  | some first :: rest => by simp [first.creations_named, creations_namedOfElements rest]

theorem creations_namedOfAttributes : ∀ attributes,
    creationsOfAttributes (nameFunctionsOfAttributes names attributes) =
      (creationsOfAttributes attributes).filter (Creation.unnamed names)
  | [] => rfl
  | (name, first) :: rest => by simp [first.creations_named, creations_namedOfAttributes rest]

theorem PropertyKey.creations_named : ∀ key : PropertyKey,
    (key.nameFunctions names).creations = key.creations.filter (Creation.unnamed names)
  | .computed key => by simp [key.creations_named]
  | .ident _ | .string _ | .index _ => rfl

theorem creations_namedOfProperties : ∀ properties,
    creationsOfProperties (nameFunctionsOfProperties names properties) =
      (creationsOfProperties properties).filter (Creation.unnamed names)
  | [] => rfl
  | .mk key value :: rest => by
    simp [key.creations_named, value.creations_named, creations_namedOfProperties rest]

theorem AssignTarget.creations_named : ∀ target : AssignTarget,
    (target.nameFunctions names).creations = target.creations.filter (Creation.unnamed names)
  | .binding _ => rfl
  | .member object property => by simp [object.creations_named]
  | .index object key => by simp [object.creations_named, key.creations_named]
  | .destructuringArray elements => by simp [creations_namedOfItems elements]
  | .destructuringArrayRest elements rest => by
    simp [creations_namedOfItems elements, rest.creations_named]
  | .destructuringObject properties => by simp [creations_namedOfFields properties]
  | .destructuringObjectRest properties rest => by
    simp [creations_namedOfFields properties, rest.creations_named]
  | .rest target => by simp [target.creations_named]

theorem creations_namedOfItems :
    ∀ items, creationsOfItems (nameFunctionsOfItems names items) =
        (creationsOfItems items).filter (Creation.unnamed names)
  | [] => rfl
  | none :: rest => by simp [creations_namedOfItems rest]
  | some (target, none) :: rest => by simp [target.creations_named, creations_namedOfItems rest]
  | some (target, some fallback) :: rest => by
    simp [target.creations_named, fallback.creations_named, creations_namedOfItems rest]

theorem creations_namedOfFields :
    ∀ fields, creationsOfFields (nameFunctionsOfFields names fields) =
        (creationsOfFields fields).filter (Creation.unnamed names)
  | [] => rfl
  | (key, target, none) :: rest => by simp [target.creations_named, creations_namedOfFields rest]
  | (key, target, some fallback) :: rest => by
    simp [target.creations_named, fallback.creations_named, creations_namedOfFields rest]

end

theorem creationsOfOption_map (expression : Option Expression) :
    creationsOfOption (expression.map (·.nameFunctions names)) =
      (creationsOfOption expression).filter (Creation.unnamed names) := by
  cases expression with
  | none => rfl
  | some expression => exact expression.creations_named

mutual

/-- What a statement creates once the named functions are replaced: the others, and those in
its classes. -/
theorem Statement.creations_named : ∀ statement : Statement,
    (statement.nameFunctions names).creations = statement.creations.filter (Creation.unnamed names)
  | .debugger | .comment _ | .breakStmt _ | .continueStmt _ | .goto _ => rfl
  | .expr expression => by simp [expression.creations_named]
  | .letStmt name value kind | .throwStmt value => by simp [value.creations_named]
  | .assign target value => by simp [target.creations_named, value.creations_named]
  | .delete target result => by simp [target.creations_named]
  | .returnStmt value => by simp [creationsOfOption_map]
  | .condGoto condition target fallthrough => by simp [condition.creations_named]
  | .ifStmt condition thenBody elseBody => by
    simp [condition.creations_named, creations_namedOfStatements thenBody,
      creations_namedOfStatements elseBody]
  | .whileStmt condition body | .doWhile body condition => by
    simp [condition.creations_named, creations_namedOfStatements body]
  | .forStmt init condition update body => by
    simp [creations_namedOfStatement init, creationsOfOption_map,
      creations_namedOfStatement update, creations_namedOfStatements body]
  | .switch discriminant cases default => by
    simp [discriminant.creations_named, creations_namedOfCases cases,
      creations_namedOfDefault default]
  | .forOf name iterable body => by
    simp [iterable.creations_named, creations_namedOfStatements body]
  | .forIn name object body => by simp [object.creations_named, creations_namedOfStatements body]
  | .tryCatch tryBody catchParam catchBody finallyBody => by
    simp [creations_namedOfStatements tryBody, creations_namedOfStatements catchBody,
      creations_namedOfStatements finallyBody]
  | .block body => by simp [creations_namedOfStatements body]
  | .classStmt name superClass constructor methods => by simp [filter_classed]

theorem creations_namedOfStatements : ∀ statements,
    creationsOfStatements (nameFunctionsOfStatements names statements) =
      (creationsOfStatements statements).filter (Creation.unnamed names)
  | [] => rfl
  | first :: rest => by simp [first.creations_named, creations_namedOfStatements rest]

theorem creations_namedOfStatement : ∀ statement,
    creationsOfStatement (nameFunctionsOfStatement names statement) =
      (creationsOfStatement statement).filter (Creation.unnamed names)
  | none => rfl
  | some statement => by simp [statement.creations_named]

theorem creations_namedOfDefault : ∀ default,
    creationsOfDefault (nameFunctionsOfDefault names default) =
      (creationsOfDefault default).filter (Creation.unnamed names)
  | none => rfl
  | some body => by simp [creations_namedOfStatements body]

theorem creations_namedOfCases : ∀ cases,
    creationsOfCases (nameFunctionsOfCases names cases) =
      (creationsOfCases cases).filter (Creation.unnamed names)
  | [] => rfl
  | (test, body) :: rest => by
    simp [test.creations_named, creations_namedOfStatements body, creations_namedOfCases rest]

end

end Left

end HermesDecomp.Ir
