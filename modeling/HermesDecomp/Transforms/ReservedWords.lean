import Mathlib.Data.Set.Function
import HermesDecomp.Ir.Names

/-!
# Reserved words as names

A variable that has a reserved word for its name is given the word behind an
underscore. The walk is written out by hand and stops at the kinds of expressions and
statements it does not list: what it reaches of each kind is collected next to it, so
that the pass can be compared with one that spells every name anew.
-/

namespace HermesDecomp.Ir

open List

/-- The words no variable can be called. -/
def jsReserved : List String :=
  ["break", "case", "catch", "class", "const", "continue", "debugger", "default", "delete", "do",
    "else", "enum", "export", "extends", "finally", "for", "function", "if", "import", "in",
    "instanceof", "let", "new", "return", "super", "switch", "this", "throw", "try", "typeof",
    "var", "void", "while", "with", "yield", "await",
    "true", "false", "null", "undefined",
    "implements", "interface", "package", "private", "protected", "public", "static"]

def isReserved (name : String) : Bool := jsReserved.contains name

/-- The new name of a variable the walk reaches. -/
def unreserved (name : String) : String := if isReserved name then "_" ++ name else name

def Var.renameReserved (name : Var) : Var :=
  if isReserved name.name then { name with name := "_" ++ name.name } else name

mutual

/-- Rename the reserved words of an expression. -/
def Expression.renameReserved : Expression → Expression
  | .value (.binding (.variable name)) => .value (.binding (.variable name.renameReserved))
  | .value value => .value value
  | .binary op left right => .binary op left.renameReserved right.renameReserved
  | .unary op operand => .unary op operand.renameReserved
  | .call callee arguments => .call callee.renameReserved (renameReservedAll arguments)
  | .new callee arguments => .new callee.renameReserved (renameReservedAll arguments)
  | .member object property optional => .member object.renameReserved property optional
  | .conditional condition thenExpr elseExpr =>
      .conditional condition.renameReserved thenExpr.renameReserved elseExpr.renameReserved
  | .array elements => .array (renameReservedElements elements)
  | .object properties => .object (renameReservedProperties properties)
  | .assignment target value => .assignment target.renameReservedInside value.renameReserved
  | .spread operand => .spread operand.renameReserved
  | .templateLiteral quasis expressions => .templateLiteral quasis (renameReservedAll expressions)
  | .yield value delegate => .yield value.renameReserved delegate
  | .await operand => .await operand.renameReserved
  | .function id name isArrow isAsync isGenerator => .function id name isArrow isAsync isGenerator
  | .regExp pattern flags => .regExp pattern flags
  | .jsxElement tag attributes children => .jsxElement tag attributes children
  | .unknown opcode operands => .unknown opcode operands

def renameReservedAll : List Expression → List Expression
  | [] => []
  | first :: rest => first.renameReserved :: renameReservedAll rest

def renameReservedElements : List (Option Expression) → List (Option Expression)
  | [] => []
  | none :: rest => none :: renameReservedElements rest
  | some first :: rest => some first.renameReserved :: renameReservedElements rest

def renameReservedProperties : List ObjectProperty → List ObjectProperty
  | [] => []
  | .mk key value :: rest => .mk key value.renameReserved :: renameReservedProperties rest

/-- Rename inside the expressions a target of an assignment expression holds. -/
def AssignTarget.renameReservedInside : AssignTarget → AssignTarget
  | .binding place => .binding place
  | .member object property => .member object.renameReserved property
  | .index object key => .index object.renameReserved key.renameReserved
  | .destructuringArray elements => .destructuringArray (renameReservedItems elements)
  | .destructuringArrayRest elements rest =>
      .destructuringArrayRest (renameReservedItems elements) rest.renameReservedInside
  | .destructuringObject properties => .destructuringObject (renameReservedFields properties)
  | .destructuringObjectRest properties rest =>
      .destructuringObjectRest (renameReservedFields properties) rest.renameReservedInside
  | .rest target => .rest target.renameReservedInside

def renameReservedItems : List (Option (AssignTarget × Option Expression)) →
    List (Option (AssignTarget × Option Expression))
  | [] => []
  | none :: rest => none :: renameReservedItems rest
  | some (target, none) :: rest =>
      some (target.renameReservedInside, none) :: renameReservedItems rest
  | some (target, some fallback) :: rest =>
      some (target.renameReservedInside, some fallback.renameReserved) :: renameReservedItems rest

def renameReservedFields : List (String × AssignTarget × Option Expression) →
    List (String × AssignTarget × Option Expression)
  | [] => []
  | (key, target, none) :: rest =>
      (key, target.renameReservedInside, none) :: renameReservedFields rest
  | (key, target, some fallback) :: rest =>
      (key, target.renameReservedInside, some fallback.renameReserved) :: renameReservedFields rest

end

/-- Rename the target of an assignment statement. -/
def AssignTarget.renameReserved : AssignTarget → AssignTarget
  | .binding (.variable name) => .binding (.variable name.renameReserved)
  | .member object property => .member object.renameReserved property
  | .index object key => .index object.renameReserved key.renameReserved
  | target => target

mutual

/-- Rename the reserved words of a statement. -/
def Statement.renameReserved : Statement → Statement
  | .assign target value => .assign target.renameReserved value.renameReserved
  | .letStmt name value kind => .letStmt name.renameReserved value.renameReserved kind
  | .expr expression => .expr expression.renameReserved
  | .returnStmt (some value) => .returnStmt (some value.renameReserved)
  | .throwStmt value => .throwStmt value.renameReserved
  | .ifStmt condition thenBody elseBody =>
      .ifStmt condition.renameReserved (renameReservedWords thenBody) (renameReservedWords elseBody)
  | .whileStmt condition body => .whileStmt condition.renameReserved (renameReservedWords body)
  | .forStmt init condition update body =>
      .forStmt (renameReservedStatement init) (condition.map (·.renameReserved))
        (renameReservedStatement update) (renameReservedWords body)
  | .forIn name object body => .forIn name object.renameReserved (renameReservedWords body)
  | .forOf name iterable body => .forOf name iterable.renameReserved (renameReservedWords body)
  | .block body => .block (renameReservedWords body)
  | .tryCatch tryBody catchParam catchBody finallyBody =>
      .tryCatch (renameReservedWords tryBody) catchParam (renameReservedWords catchBody)
        (renameReservedWords finallyBody)
  | .switch discriminant cases default =>
      .switch discriminant.renameReserved (renameReservedCases cases)
        (renameReservedDefault default)
  | .returnStmt none => .returnStmt none
  | .delete target result => .delete target result
  | .debugger => .debugger
  | .comment text => .comment text
  | .breakStmt label => .breakStmt label
  | .continueStmt label => .continueStmt label
  | .goto target => .goto target
  | .condGoto condition target fallthrough => .condGoto condition target fallthrough
  | .doWhile body condition => .doWhile body condition
  | .classStmt name superClass constructor methods => .classStmt name superClass constructor methods

/-- Rename the reserved words of a list of statements. -/
def renameReservedWords : List Statement → List Statement
  | [] => []
  | first :: rest => first.renameReserved :: renameReservedWords rest

def renameReservedStatement : Option Statement → Option Statement
  | none => none
  | some statement => some statement.renameReserved

def renameReservedDefault : Option (List Statement) → Option (List Statement)
  | none => none
  | some body => some (renameReservedWords body)

def renameReservedCases : List (Expression × List Statement) → List (Expression × List Statement)
  | [] => []
  | (test, body) :: rest =>
      (test.renameReserved, renameReservedWords body) :: renameReservedCases rest

end

/-- Where a name stands that the walk comes to, or one it passes by. -/
inductive Sight where
  | reached (name : String)
  | passed (name : String)
deriving DecidableEq, Repr

/-- The name that stands there. -/
def Sight.name : Sight → String
  | reached name | passed name => name

/-- The name the walk leaves there. -/
def Sight.left : Sight → String
  | reached name => unreserved name
  | passed name => name

/-- The names of a part the walk does not enter. -/
def passedBy (names : List String) : List Sight := names.map .passed

mutual

/-- The names of an expression, each with whether the walk comes to it. -/
def Expression.sights : Expression → List Sight
  | .value (.binding place) => place.names.map .reached
  | .value _ => []
  | .binary _ left right => left.sights ++ right.sights
  | .unary _ operand => operand.sights
  | .conditional condition thenExpr elseExpr =>
      condition.sights ++ (thenExpr.sights ++ elseExpr.sights)
  | .member object property _ => object.sights ++ passedBy property.names
  | .call callee arguments => callee.sights ++ sightsOfAll arguments
  | .new callee arguments => callee.sights ++ sightsOfAll arguments
  | .array elements => sightsOfElements elements
  | .object properties => sightsOfProperties properties
  | .function .. => []
  | .assignment target value => target.sightsInside ++ value.sights
  | .spread operand => operand.sights
  | .templateLiteral _ expressions => sightsOfAll expressions
  | .regExp .. => []
  | .yield value _ => value.sights
  | .await operand => operand.sights
  | .jsxElement tag attributes children =>
      passedBy (tagNames tag ++ (namesOfAttributes attributes ++ namesOfAll children))
  | .unknown .. => []

def sightsOfAll : List Expression → List Sight
  | [] => []
  | first :: rest => first.sights ++ sightsOfAll rest

def sightsOfElements : List (Option Expression) → List Sight
  | [] => []
  | none :: rest => sightsOfElements rest
  | some first :: rest => first.sights ++ sightsOfElements rest

def sightsOfProperties : List ObjectProperty → List Sight
  | [] => []
  | .mk key value :: rest => passedBy key.names ++ (value.sights ++ sightsOfProperties rest)

/-- The names of a target of an assignment expression: those it writes are passed by. -/
def AssignTarget.sightsInside : AssignTarget → List Sight
  | .binding place => passedBy place.names
  | .member object _ => object.sights
  | .index object key => object.sights ++ key.sights
  | .destructuringArray elements => sightsOfItems elements
  | .destructuringArrayRest elements rest => sightsOfItems elements ++ rest.sightsInside
  | .destructuringObject properties => sightsOfFields properties
  | .destructuringObjectRest properties rest => sightsOfFields properties ++ rest.sightsInside
  | .rest target => target.sightsInside

def sightsOfItems : List (Option (AssignTarget × Option Expression)) → List Sight
  | [] => []
  | none :: rest => sightsOfItems rest
  | some (target, none) :: rest => target.sightsInside ++ sightsOfItems rest
  | some (target, some fallback) :: rest =>
      target.sightsInside ++ (fallback.sights ++ sightsOfItems rest)

def sightsOfFields : List (String × AssignTarget × Option Expression) → List Sight
  | [] => []
  | (_, target, none) :: rest => target.sightsInside ++ sightsOfFields rest
  | (_, target, some fallback) :: rest =>
      target.sightsInside ++ (fallback.sights ++ sightsOfFields rest)

end

/-- The names of the target of an assignment statement: patterns are passed by. -/
def AssignTarget.sights : AssignTarget → List Sight
  | .binding place => place.names.map .reached
  | .member object _ => object.sights
  | .index object key => object.sights ++ key.sights
  | target => passedBy target.names

/-- The names of an expression that may be absent. -/
def sightsOfOption : Option Expression → List Sight
  | none => []
  | some expression => expression.sights

mutual

/-- The names of a statement, each with whether the walk comes to it. -/
def Statement.sights : Statement → List Sight
  | .expr expression => expression.sights
  | .letStmt name value _ => .reached name.name :: value.sights
  | .assign target value => target.sights ++ value.sights
  | .delete target _ => passedBy target.names
  | .returnStmt value => sightsOfOption value
  | .throwStmt value => value.sights
  | .debugger => []
  | .comment _ => []
  | .breakStmt _ => []
  | .continueStmt _ => []
  | .goto _ => []
  | .condGoto condition _ _ => passedBy condition.names
  | .ifStmt condition thenBody elseBody =>
      condition.sights ++ (sightsOfStatements thenBody ++ sightsOfStatements elseBody)
  | .whileStmt condition body => condition.sights ++ sightsOfStatements body
  | .doWhile body condition => passedBy (namesOfStatements body ++ condition.names)
  | .forStmt init condition update body =>
      sightsOfStatement init ++ (sightsOfOption condition ++ (sightsOfStatement update ++
        sightsOfStatements body))
  | .switch discriminant cases default =>
      discriminant.sights ++ (sightsOfCases cases ++ sightsOfDefault default)
  | .forOf name iterable body => .passed name :: (iterable.sights ++ sightsOfStatements body)
  | .forIn name object body => .passed name :: (object.sights ++ sightsOfStatements body)
  | .tryCatch tryBody catchParam catchBody finallyBody =>
      sightsOfStatements tryBody ++ (passedBy catchParam.toList ++
        (sightsOfStatements catchBody ++ sightsOfStatements finallyBody))
  | .block body => sightsOfStatements body
  | .classStmt name superClass constructor methods =>
      passedBy (name :: (namesOfOption superClass ++ (namesOfStatement constructor ++
        namesOfMethods methods)))

def sightsOfStatements : List Statement → List Sight
  | [] => []
  | first :: rest => first.sights ++ sightsOfStatements rest

def sightsOfStatement : Option Statement → List Sight
  | none => []
  | some statement => statement.sights

def sightsOfDefault : Option (List Statement) → List Sight
  | none => []
  | some body => sightsOfStatements body

def sightsOfCases : List (Expression × List Statement) → List Sight
  | [] => []
  | (test, body) :: rest => test.sights ++ (sightsOfStatements body ++ sightsOfCases rest)

end

attribute [local simp] Expression.sights sightsOfAll sightsOfElements sightsOfProperties
  AssignTarget.sightsInside sightsOfItems sightsOfFields AssignTarget.sights sightsOfOption
  Statement.sights sightsOfStatements sightsOfStatement sightsOfDefault sightsOfCases Sight.name
  Sight.left Expression.names namesOfAll namesOfElements namesOfProperties AssignTarget.names
  namesOfItems namesOfFields namesOfOption Statement.names namesOfStatements namesOfStatement
  namesOfDefault namesOfCases

theorem names_passedBy (names : List String) : (passedBy names).map Sight.name = names := by
  simp [passedBy, map_map, Function.comp_def, Sight.name, map_id']

theorem names_reached (names : List String) : (names.map Sight.reached).map Sight.name = names := by
  simp [map_map, Function.comp_def, Sight.name, map_id']

mutual

theorem Expression.names_sights : ∀ expression : Expression,
    expression.sights.map Sight.name = expression.names
  | .value value => by
    cases value with
    | binding place => simp only [Expression.sights, Expression.names, names_reached]
    | constant | this | global | parameter | arguments | newTarget | super => rfl
  | .binary op left right => by simp [left.names_sights, right.names_sights]
  | .unary op operand | .spread operand | .await operand => by simp [operand.names_sights]
  | .conditional condition thenExpr elseExpr => by
    simp [condition.names_sights, thenExpr.names_sights, elseExpr.names_sights]
  | .member object property optional => by simp [object.names_sights, names_passedBy]
  | .call callee arguments | .new callee arguments => by
    simp [callee.names_sights, names_sightsOfAll arguments]
  | .array elements => by simp [names_sightsOfElements elements]
  | .object properties => by simp [names_sightsOfProperties properties]
  | .assignment target value => by simp [target.names_sightsInside, value.names_sights]
  | .templateLiteral quasis expressions => by simp [names_sightsOfAll expressions]
  | .yield value delegate => by simp [value.names_sights]
  | .jsxElement tag attributes children => by simp [names_passedBy]
  | .function .. | .regExp .. | .unknown .. => rfl

theorem names_sightsOfAll : ∀ expressions,
    (sightsOfAll expressions).map Sight.name = namesOfAll expressions
  | [] => rfl
  | first :: rest => by simp [first.names_sights, names_sightsOfAll rest]

theorem names_sightsOfElements : ∀ elements,
    (sightsOfElements elements).map Sight.name = namesOfElements elements
  | [] => rfl
  | none :: rest => by simp [names_sightsOfElements rest]
  | some first :: rest => by simp [first.names_sights, names_sightsOfElements rest]

theorem names_sightsOfProperties : ∀ properties,
    (sightsOfProperties properties).map Sight.name = namesOfProperties properties
  | [] => rfl
  | .mk key value :: rest => by
    simp [names_passedBy, value.names_sights, names_sightsOfProperties rest]

theorem AssignTarget.names_sightsInside : ∀ target : AssignTarget,
    target.sightsInside.map Sight.name = target.names
  | .binding place => by simp [names_passedBy]
  | .member object property => by simp [object.names_sights]
  | .index object key => by simp [object.names_sights, key.names_sights]
  | .destructuringArray elements => by simp [names_sightsOfItems elements]
  | .destructuringArrayRest elements rest => by
    simp [names_sightsOfItems elements, rest.names_sightsInside]
  | .destructuringObject properties => by simp [names_sightsOfFields properties]
  | .destructuringObjectRest properties rest => by
    simp [names_sightsOfFields properties, rest.names_sightsInside]
  | .rest target => by simp [target.names_sightsInside]

theorem names_sightsOfItems : ∀ items, (sightsOfItems items).map Sight.name = namesOfItems items
  | [] => rfl
  | none :: rest => by simp [names_sightsOfItems rest]
  | some (target, none) :: rest => by simp [target.names_sightsInside, names_sightsOfItems rest]
  | some (target, some fallback) :: rest => by
    simp [target.names_sightsInside, fallback.names_sights, names_sightsOfItems rest]

theorem names_sightsOfFields : ∀ fields,
    (sightsOfFields fields).map Sight.name = namesOfFields fields
  | [] => rfl
  | (key, target, none) :: rest => by simp [target.names_sightsInside, names_sightsOfFields rest]
  | (key, target, some fallback) :: rest => by
    simp [target.names_sightsInside, fallback.names_sights, names_sightsOfFields rest]

end

theorem AssignTarget.names_sights (target : AssignTarget) :
    target.sights.map Sight.name = target.names := by
  cases target with
  | binding place => exact names_reached place.names
  | member object property => exact object.names_sights
  | index object key => simp [object.names_sights, key.names_sights]
  | destructuringArray | destructuringArrayRest | destructuringObject
  | destructuringObjectRest | rest => exact names_passedBy _

theorem names_sightsOfOption (expression : Option Expression) :
    (sightsOfOption expression).map Sight.name = namesOfOption expression := by
  cases expression with
  | none => rfl
  | some expression => exact expression.names_sights

mutual

theorem Statement.names_sights : ∀ statement : Statement,
    statement.sights.map Sight.name = statement.names
  | .expr expression => by simp [expression.names_sights]
  | .letStmt name value kind | .throwStmt value => by simp [value.names_sights]
  | .assign target value => by
    simp only [Statement.sights, Statement.names, map_append, target.names_sights,
      value.names_sights]
  | .delete target result => by simp [names_passedBy]
  | .returnStmt value => by simp only [Statement.sights, Statement.names, names_sightsOfOption]
  | .debugger | .comment _ | .breakStmt _ | .continueStmt _ | .goto _ => rfl
  | .condGoto condition target fallthrough => by simp [names_passedBy]
  | .ifStmt condition thenBody elseBody => by
    simp [condition.names_sights, names_sightsOfStatements thenBody,
      names_sightsOfStatements elseBody]
  | .whileStmt condition body => by simp [condition.names_sights, names_sightsOfStatements body]
  | .doWhile body condition => by simp [names_passedBy]
  | .forStmt init condition update body => by
    simp only [Statement.sights, Statement.names, map_append, names_sightsOfStatement init,
      names_sightsOfOption, names_sightsOfStatement update, names_sightsOfStatements body]
  | .switch discriminant cases default => by
    simp [discriminant.names_sights, names_sightsOfCases cases, names_sightsOfDefault default]
  | .forOf name iterable body => by simp [iterable.names_sights, names_sightsOfStatements body]
  | .forIn name object body => by simp [object.names_sights, names_sightsOfStatements body]
  | .tryCatch tryBody catchParam catchBody finallyBody => by
    simp [names_passedBy, names_sightsOfStatements tryBody, names_sightsOfStatements catchBody,
      names_sightsOfStatements finallyBody]
  | .block body => by simp [names_sightsOfStatements body]
  | .classStmt name superClass constructor methods => by simp [names_passedBy]

theorem names_sightsOfStatements : ∀ statements,
    (sightsOfStatements statements).map Sight.name = namesOfStatements statements
  | [] => rfl
  | first :: rest => by simp [first.names_sights, names_sightsOfStatements rest]

theorem names_sightsOfStatement : ∀ statement,
    (sightsOfStatement statement).map Sight.name = namesOfStatement statement
  | none => rfl
  | some statement => by simp [statement.names_sights]

theorem names_sightsOfDefault : ∀ default,
    (sightsOfDefault default).map Sight.name = namesOfDefault default
  | none => rfl
  | some body => by simp [names_sightsOfStatements body]

theorem names_sightsOfCases : ∀ cases, (sightsOfCases cases).map Sight.name = namesOfCases cases
  | [] => rfl
  | (test, body) :: rest => by
    simp [test.names_sights, names_sightsOfStatements body, names_sightsOfCases rest]

end

section Against

variable {spell : String → String}

/-- The spelling leaves every name in sight as the walk does. -/
def Follows (spell : String → String) (sights : List Sight) : Prop :=
  ∀ sight ∈ sights, spell sight.name = sight.left

@[simp] theorem follows_nil : Follows spell [] := by
  intro sight member
  cases member

@[simp] theorem follows_cons (sight : Sight) (sights : List Sight) :
    Follows spell (sight :: sights) ↔ spell sight.name = sight.left ∧ Follows spell sights :=
  forall_mem_cons

@[simp] theorem follows_append (sights sights' : List Sight) :
    Follows spell (sights ++ sights') ↔ Follows spell sights ∧ Follows spell sights' :=
  forall_mem_append

/-- What the walk passes by keeps its names. -/
theorem follows_passedBy (names : List String) :
    Follows spell (passedBy names) ↔ ∀ name ∈ names, spell name = name := by
  simp [Follows, passedBy]

theorem Var.respell_renames_iff (name : Var) :
    name.respell spell = name.renameReserved ↔ spell name.name = unreserved name.name := by
  unfold Var.respell Var.renameReserved unreserved
  split
  · simp
  · constructor
    · intro same
      exact congrArg Var.name same
    · intro same
      rw [same]

attribute [local simp] Expression.respell Expression.renameReserved respellAll renameReservedAll
  respellElements renameReservedElements respellProperties renameReservedProperties
  AssignTarget.respell AssignTarget.renameReservedInside respellItems renameReservedItems
  respellFields renameReservedFields AssignTarget.renameReserved Binding.respell Binding.names
  Statement.respell Statement.renameReserved respellStatements renameReservedWords
  respellStatement renameReservedStatement respellDefault renameReservedDefault respellCases
  renameReservedCases follows_passedBy

theorem Binding.follows_reached (name : Var) :
    Follows spell ((Binding.variable name).names.map .reached) ↔
      name.respell spell = name.renameReserved := by
  simp [name.respell_renames_iff]

mutual

/-- The walk does to an expression what a spelling anew does exactly when that leaves
every name in sight as the walk does. -/
theorem Expression.respell_renames_iff : ∀ expression : Expression,
    expression.respell spell = expression.renameReserved ↔ Follows spell expression.sights
  | .value value => by
    cases value with
    | binding place =>
      cases place with
      | «variable» name =>
        simp only [Expression.respell, Expression.renameReserved, Expression.sights,
          Binding.respell, Expression.value.injEq, Value.binding.injEq, Binding.variable.injEq,
          Binding.follows_reached]
      | register | closureVar => simp
    | constant | this | global | parameter | arguments | newTarget | super => simp
  | .binary op left right => by simp [left.respell_renames_iff, right.respell_renames_iff]
  | .unary op operand | .spread operand | .await operand => by simp [operand.respell_renames_iff]
  | .conditional condition thenExpr elseExpr => by
    simp [condition.respell_renames_iff, thenExpr.respell_renames_iff, elseExpr.respell_renames_iff]
  | .member object property optional => by
    simp [object.respell_renames_iff, property.respell_eq_self_iff]
  | .call callee arguments | .new callee arguments => by
    simp [callee.respell_renames_iff, respellAll_renames_iff arguments]
  | .array elements => by simp [respellElements_renames_iff elements]
  | .object properties => by simp [respellProperties_renames_iff properties]
  | .assignment target value => by
    simp [target.respell_renamesInside_iff, value.respell_renames_iff]
  | .templateLiteral quasis expressions => by simp [respellAll_renames_iff expressions]
  | .yield value delegate => by simp [value.respell_renames_iff]
  | .jsxElement tag attributes children => by
    simp only [Expression.respell, Expression.renameReserved, Expression.sights,
      Expression.jsxElement.injEq, follows_passedBy, forall_mem_append,
      respellTag_eq_self_iff, respellAttributes_eq_self_iff, respellAll_eq_self_iff]
  | .function .. | .regExp .. | .unknown .. => by simp

theorem respellAll_renames_iff : ∀ expressions,
    respellAll spell expressions = renameReservedAll expressions ↔
      Follows spell (sightsOfAll expressions)
  | [] => by simp
  | first :: rest => by simp [first.respell_renames_iff, respellAll_renames_iff rest]

theorem respellElements_renames_iff : ∀ elements,
    respellElements spell elements = renameReservedElements elements ↔
      Follows spell (sightsOfElements elements)
  | [] => by simp
  | none :: rest => by simp [respellElements_renames_iff rest]
  | some first :: rest => by simp [first.respell_renames_iff, respellElements_renames_iff rest]

theorem respellProperties_renames_iff : ∀ properties,
    respellProperties spell properties = renameReservedProperties properties ↔
      Follows spell (sightsOfProperties properties)
  | [] => by simp
  | .mk key value :: rest => by
    simp [key.respell_eq_self_iff, value.respell_renames_iff,
      respellProperties_renames_iff rest, and_assoc]

theorem AssignTarget.respell_renamesInside_iff : ∀ target : AssignTarget,
    target.respell spell = target.renameReservedInside ↔ Follows spell target.sightsInside
  | .binding place => by
    simp only [AssignTarget.respell, AssignTarget.renameReservedInside, AssignTarget.sightsInside,
      AssignTarget.binding.injEq, follows_passedBy, place.respell_eq_self_iff]
  | .member object property => by simp [object.respell_renames_iff]
  | .index object key => by simp [object.respell_renames_iff, key.respell_renames_iff]
  | .destructuringArray elements => by simp [respellItems_renames_iff elements]
  | .destructuringArrayRest elements rest => by
    simp [respellItems_renames_iff elements, rest.respell_renamesInside_iff]
  | .destructuringObject properties => by simp [respellFields_renames_iff properties]
  | .destructuringObjectRest properties rest => by
    simp [respellFields_renames_iff properties, rest.respell_renamesInside_iff]
  | .rest target => by simp [target.respell_renamesInside_iff]

theorem respellItems_renames_iff : ∀ items,
      respellItems spell items = renameReservedItems items ↔ Follows spell (sightsOfItems items)
  | [] => by simp
  | none :: rest => by simp [respellItems_renames_iff rest]
  | some (target, none) :: rest => by
    simp [target.respell_renamesInside_iff, respellItems_renames_iff rest]
  | some (target, some fallback) :: rest => by
    simp [target.respell_renamesInside_iff, fallback.respell_renames_iff,
      respellItems_renames_iff rest, and_assoc]

theorem respellFields_renames_iff :
    ∀ fields, respellFields spell fields = renameReservedFields fields ↔
        Follows spell (sightsOfFields fields)
  | [] => by simp
  | (key, target, none) :: rest => by
    simp [target.respell_renamesInside_iff, respellFields_renames_iff rest]
  | (key, target, some fallback) :: rest => by
    simp [target.respell_renamesInside_iff, fallback.respell_renames_iff,
      respellFields_renames_iff rest, and_assoc]

end

theorem AssignTarget.respell_renames_iff (target : AssignTarget) :
    target.respell spell = target.renameReserved ↔ Follows spell target.sights := by
  cases target with
  | binding place =>
    cases place with
    | «variable» name =>
      simp only [AssignTarget.respell, AssignTarget.renameReserved, AssignTarget.sights,
        Binding.respell, AssignTarget.binding.injEq, Binding.variable.injEq,
        Binding.follows_reached]
    | register | closureVar => simp
  | member object property => simp [object.respell_renames_iff]
  | index object key => simp [object.respell_renames_iff, key.respell_renames_iff]
  | destructuringArray | destructuringArrayRest | destructuringObject
  | destructuringObjectRest | rest =>
    simp only [AssignTarget.renameReserved, AssignTarget.sights, follows_passedBy,
      AssignTarget.respell_eq_self_iff]

theorem map_respell_eq_map_renameReserved_iff (expression : Option Expression) :
    expression.map (·.respell spell) = expression.map (·.renameReserved) ↔
      Follows spell (sightsOfOption expression) := by
  cases expression with
  | none => simp
  | some expression => simp [expression.respell_renames_iff]

mutual

/-- The walk does to a statement what a spelling anew does exactly when that leaves
every name in sight as the walk does. -/
theorem Statement.respell_renames_iff : ∀ statement : Statement,
    statement.respell spell = statement.renameReserved ↔ Follows spell statement.sights
  | .expr expression => by simp [expression.respell_renames_iff]
  | .letStmt name value kind => by simp [name.respell_renames_iff, value.respell_renames_iff]
  | .assign target value => by
    simp only [Statement.respell, Statement.renameReserved, Statement.sights,
      Statement.assign.injEq, follows_append, target.respell_renames_iff, value.respell_renames_iff]
  | .delete target result => by simp [target.respell_eq_self_iff]
  | .debugger | .comment .. | .breakStmt .. | .continueStmt .. | .goto .. => by simp
  | .returnStmt none => by simp
  | .returnStmt (some value) | .throwStmt value => by simp [value.respell_renames_iff]
  | .condGoto condition target fallthrough => by simp [condition.respell_eq_self_iff]
  | .ifStmt condition thenBody elseBody => by
    simp [condition.respell_renames_iff, respellStatements_renames_iff thenBody,
      respellStatements_renames_iff elseBody]
  | .whileStmt condition body => by
    simp [condition.respell_renames_iff, respellStatements_renames_iff body]
  | .doWhile body condition => by
    simp only [Statement.respell, Statement.renameReserved, Statement.sights,
      Statement.doWhile.injEq, follows_passedBy, forall_mem_append,
      respellStatements_eq_self_iff, condition.respell_eq_self_iff]
  | .forStmt init condition update body => by
    simp [respellStatement_renames_iff init, map_respell_eq_map_renameReserved_iff,
      respellStatement_renames_iff update, respellStatements_renames_iff body]
  | .switch discriminant cases default => by
    simp [discriminant.respell_renames_iff, respellCases_renames_iff cases,
      respellDefault_renames_iff default]
  | .forOf name iterable body => by
    simp [iterable.respell_renames_iff, respellStatements_renames_iff body]
  | .forIn name object body => by
    simp [object.respell_renames_iff, respellStatements_renames_iff body]
  | .tryCatch tryBody catchParam catchBody finallyBody => by
    simp [map_spell_eq_self_iff, respellStatements_renames_iff tryBody,
      respellStatements_renames_iff catchBody, respellStatements_renames_iff finallyBody]
  | .block body => by simp [respellStatements_renames_iff body]
  | .classStmt name superClass constructor methods => by
    simp only [Statement.respell, Statement.renameReserved, Statement.sights,
      Statement.classStmt.injEq, follows_passedBy, forall_mem_cons, forall_mem_append,
      map_respell_eq_self_iff, respellStatement_eq_self_iff, respellMethods_eq_self_iff]

/-- The walk does to a list of statements what a spelling anew does exactly when that
leaves every name in sight as the walk does. -/
theorem respellStatements_renames_iff : ∀ statements,
    respellStatements spell statements = renameReservedWords statements ↔
      Follows spell (sightsOfStatements statements)
  | [] => by simp
  | first :: rest => by simp [first.respell_renames_iff, respellStatements_renames_iff rest]

theorem respellStatement_renames_iff : ∀ statement,
    respellStatement spell statement = renameReservedStatement statement ↔
      Follows spell (sightsOfStatement statement)
  | none => by simp
  | some statement => by simp [statement.respell_renames_iff]

theorem respellDefault_renames_iff : ∀ default,
    respellDefault spell default = renameReservedDefault default ↔
      Follows spell (sightsOfDefault default)
  | none => by simp
  | some body => by simp [respellStatements_renames_iff body]

theorem respellCases_renames_iff : ∀ cases,
    respellCases spell cases = renameReservedCases cases ↔ Follows spell (sightsOfCases cases)
  | [] => by simp
  | (test, body) :: rest => by
    simp [test.respell_renames_iff, respellStatements_renames_iff body,
      respellCases_renames_iff rest, and_assoc]

end

end Against

/-- Every occurrence of a variable carries the same new name, nothing else changes, and
variables with different names still have different ones. -/
def RenamedConsistently (statements renamed : List Statement) : Prop :=
  ∃ spell : String → String, respellStatements spell statements = renamed ∧
    Set.InjOn spell {name | name ∈ namesOfStatements statements}

/-- A reserved word the walk reaches stands nowhere it passes by, and no variable is
called that word behind an underscore. -/
def ReservedApart (statements : List Statement) : Prop :=
  ∀ word, isReserved word = true → .reached word ∈ sightsOfStatements statements →
    .passed word ∉ sightsOfStatements statements ∧ "_" ++ word ∉ namesOfStatements statements

/-- No reserved word begins with an underscore. -/
theorem isReserved_underscore (name : String) : isReserved ("_" ++ name) = false := by
  have fronts : ∀ word ∈ jsReserved, word.toList.head? ≠ some '_' := by decide
  rw [isReserved, contains_eq_mem, decide_eq_false_iff_not]
  intro member
  apply fronts _ member
  rw [String.toList_append]
  rfl

theorem underscore_ne (name : String) : "_" ++ name ≠ name := by
  intro same
  have lengths := congrArg (fun text => text.toList.length) same
  simp [String.toList_append] at lengths

theorem unreserved_underscore (name : String) : unreserved ("_" ++ name) = "_" ++ name := by
  rw [unreserved, if_neg (by rw [isReserved_underscore]; exact Bool.false_ne_true)]

/-- A name has a sight. -/
theorem exists_sight {statements : List Statement} {name : String}
    (member : name ∈ namesOfStatements statements) :
    .reached name ∈ sightsOfStatements statements ∨
      .passed name ∈ sightsOfStatements statements := by
  rw [← names_sightsOfStatements statements] at member
  obtain ⟨sight, inSight, named⟩ := mem_map.mp member
  cases sight with
  | reached other =>
    subst named
    exact .inl inSight
  | passed other =>
    subst named
    exact .inr inSight

theorem mem_names_of_reached {statements : List Statement} {name : String}
    (reached : .reached name ∈ sightsOfStatements statements) :
    name ∈ namesOfStatements statements := by
  rw [← names_sightsOfStatements statements]
  exact mem_map.mpr ⟨_, reached, rfl⟩

/-- The spelling the walk amounts to where it is one. -/
def walkSpelling (statements : List Statement) (name : String) : String :=
  if .reached name ∈ sightsOfStatements statements then unreserved name else name

theorem walkSpelling_follows {statements : List Statement} (apart : ReservedApart statements) :
    Follows (walkSpelling statements) (sightsOfStatements statements) := by
  intro sight member
  cases sight with
  | reached name => exact if_pos member
  | passed name =>
    change walkSpelling statements name = name
    unfold walkSpelling
    by_cases reached : .reached name ∈ sightsOfStatements statements
    · rw [if_pos reached, unreserved, if_neg]
      intro reserved
      exact (apart name reserved reached).1 member
    · exact if_neg reached

/-- What the spelling changes is a reserved word the walk reaches. -/
theorem walkSpelling_cases (statements : List Statement) (name : String) :
    walkSpelling statements name = name ∨
      isReserved name = true ∧ .reached name ∈ sightsOfStatements statements ∧
        walkSpelling statements name = "_" ++ name := by
  unfold walkSpelling unreserved
  split
  · split
    · exact .inr ⟨by assumption, by assumption, rfl⟩
    · exact .inl rfl
  · exact .inl rfl

theorem walkSpelling_injOn {statements : List Statement} (apart : ReservedApart statements) :
    Set.InjOn (walkSpelling statements) {name | name ∈ namesOfStatements statements} := by
  intro name member name' member' same
  obtain kept | ⟨reserved, reached, changed⟩ := walkSpelling_cases statements name
  · obtain kept' | ⟨reserved', reached', changed'⟩ := walkSpelling_cases statements name'
    · rw [kept, kept'] at same
      exact same
    · rw [kept, changed'] at same
      exact absurd (same ▸ member) (apart name' reserved' reached').2
  · obtain kept' | ⟨reserved', reached', changed'⟩ := walkSpelling_cases statements name'
    · rw [changed, kept'] at same
      exact absurd (same ▸ member') (apart name reserved reached).2
    · rw [changed, changed'] at same
      exact (String.append_right_inj "_").mp same

/-- The pass renames every variable to one name of its own exactly when the reserved
words it reaches stand apart from what it passes by and from the new names. -/
theorem renameReservedWords_consistently_iff (statements : List Statement) :
    RenamedConsistently statements (renameReservedWords statements) ↔
      ReservedApart statements := by
  constructor
  · rintro ⟨spell, same, injective⟩
    have follows := (respellStatements_renames_iff statements).mp same
    intro word reserved reached
    have changed : spell word = "_" ++ word := (follows _ reached).trans (if_pos reserved)
    constructor
    · intro passed
      exact underscore_ne word (changed.symm.trans (follows _ passed))
    · intro taken
      have kept : spell ("_" ++ word) = "_" ++ word := by
        obtain reached' | passed' := exists_sight taken
        · exact (follows _ reached').trans (unreserved_underscore word)
        · exact follows _ passed'
      exact underscore_ne word
        (injective taken (mem_names_of_reached reached) (kept.trans changed.symm))
  · intro apart
    exact ⟨walkSpelling statements,
      (respellStatements_renames_iff statements).mpr (walkSpelling_follows apart),
      walkSpelling_injOn apart⟩

/-- Two variables, `new` and `_new`, end up under one name. -/
def newAndUnderscoreNew : List Statement :=
  [.letStmt ⟨"new", none⟩ (.value (.constant (.integer 1))) .let,
    .letStmt ⟨"_new", none⟩ (.value (.constant (.integer 2))) .let]

theorem not_renamedConsistently_newAndUnderscoreNew :
    ¬ RenamedConsistently newAndUnderscoreNew (renameReservedWords newAndUnderscoreNew) := by
  rintro ⟨spell, same, injective⟩
  have follows := (respellStatements_renames_iff newAndUnderscoreNew).mp same
  have first : spell "new" = "_new" := follows (.reached "new") (by decide)
  have second : spell "_new" = "_new" := follows (.reached "_new") (by decide)
  have merged : "new" = "_new" := by
    refine injective ?_ ?_ (first.trans second.symm)
    · exact mem_names_of_reached (show Sight.reached "new" ∈ _ by decide)
    · exact mem_names_of_reached (show Sight.reached "_new" ∈ _ by decide)
  exact absurd merged (by decide)

end HermesDecomp.Ir
