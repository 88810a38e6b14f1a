import HermesDecomp.Ir.Syntax

/-!
# Rewriting every call of a body

The mutable visitor with a hook at the calls: the parts of a call are visited first, then the call
itself is replaced. Of a class only the superclass is visited, its bodies belong to other
functions.
-/

namespace HermesDecomp.Ir

section Rewriting

variable (rewrite : Expression → List Expression → Expression)

mutual

/-- Rewrite the calls of an expression, the inner ones first. -/
def Expression.rewriteCalls : Expression → Expression
  | .value value => .value value
  | .binary op left right => .binary op left.rewriteCalls right.rewriteCalls
  | .unary op operand => .unary op operand.rewriteCalls
  | .conditional condition thenExpr elseExpr =>
      .conditional condition.rewriteCalls thenExpr.rewriteCalls elseExpr.rewriteCalls
  | .member object property optional => .member object.rewriteCalls property.rewriteCalls optional
  | .call callee arguments => rewrite callee.rewriteCalls (rewriteCallsAll arguments)
  | .new callee arguments => .new callee.rewriteCalls (rewriteCallsAll arguments)
  | .array elements => .array (rewriteCallsElements elements)
  | .object properties => .object (rewriteCallsProperties properties)
  | .function id name isArrow isAsync isGenerator => .function id name isArrow isAsync isGenerator
  | .assignment target value => .assignment target.rewriteCalls value.rewriteCalls
  | .spread operand => .spread operand.rewriteCalls
  | .templateLiteral quasis expressions => .templateLiteral quasis (rewriteCallsAll expressions)
  | .regExp pattern flags => .regExp pattern flags
  | .yield value delegate => .yield value.rewriteCalls delegate
  | .await operand => .await operand.rewriteCalls
  | .jsxElement tag attributes children =>
      .jsxElement tag (rewriteCallsAttributes attributes) (rewriteCallsAll children)
  | .unknown opcode operands => .unknown opcode operands

def rewriteCallsAll : List Expression → List Expression
  | [] => []
  | first :: rest => first.rewriteCalls :: rewriteCallsAll rest

def rewriteCallsElements : List (Option Expression) → List (Option Expression)
  | [] => []
  | none :: rest => none :: rewriteCallsElements rest
  | some first :: rest => some first.rewriteCalls :: rewriteCallsElements rest

def rewriteCallsAttributes : List (String × Expression) → List (String × Expression)
  | [] => []
  | (name, first) :: rest => (name, first.rewriteCalls) :: rewriteCallsAttributes rest

def PropertyKey.rewriteCalls : PropertyKey → PropertyKey
  | .computed key => .computed key.rewriteCalls
  | .ident name => .ident name
  | .string text => .string text
  | .index position => .index position

def rewriteCallsProperties : List ObjectProperty → List ObjectProperty
  | [] => []
  | .mk key value :: rest => .mk key.rewriteCalls value.rewriteCalls :: rewriteCallsProperties rest

def AssignTarget.rewriteCalls : AssignTarget → AssignTarget
  | .binding binding => .binding binding
  | .member object property => .member object.rewriteCalls property
  | .index object key => .index object.rewriteCalls key.rewriteCalls
  | .destructuringArray elements => .destructuringArray (rewriteCallsItems elements)
  | .destructuringArrayRest elements rest =>
      .destructuringArrayRest (rewriteCallsItems elements) rest.rewriteCalls
  | .destructuringObject properties => .destructuringObject (rewriteCallsFields properties)
  | .destructuringObjectRest properties rest =>
      .destructuringObjectRest (rewriteCallsFields properties) rest.rewriteCalls
  | .rest target => .rest target.rewriteCalls

def rewriteCallsItems : List (Option (AssignTarget × Option Expression)) →
    List (Option (AssignTarget × Option Expression))
  | [] => []
  | none :: rest => none :: rewriteCallsItems rest
  | some (target, none) :: rest => some (target.rewriteCalls, none) :: rewriteCallsItems rest
  | some (target, some fallback) :: rest =>
      some (target.rewriteCalls, some fallback.rewriteCalls) :: rewriteCallsItems rest

def rewriteCallsFields : List (String × AssignTarget × Option Expression) →
    List (String × AssignTarget × Option Expression)
  | [] => []
  | (key, target, none) :: rest => (key, target.rewriteCalls, none) :: rewriteCallsFields rest
  | (key, target, some fallback) :: rest =>
      (key, target.rewriteCalls, some fallback.rewriteCalls) :: rewriteCallsFields rest

end

mutual

/-- Rewrite the calls of a statement. -/
def Statement.rewriteCalls : Statement → Statement
  | .expr expression => .expr (expression.rewriteCalls rewrite)
  | .letStmt name value kind => .letStmt name (value.rewriteCalls rewrite) kind
  | .assign target value => .assign (target.rewriteCalls rewrite) (value.rewriteCalls rewrite)
  | .delete target result => .delete (target.rewriteCalls rewrite) result
  | .returnStmt value => .returnStmt (value.map (·.rewriteCalls rewrite))
  | .throwStmt value => .throwStmt (value.rewriteCalls rewrite)
  | .debugger => .debugger
  | .comment text => .comment text
  | .breakStmt label => .breakStmt label
  | .continueStmt label => .continueStmt label
  | .goto target => .goto target
  | .condGoto condition target fallthrough =>
      .condGoto (condition.rewriteCalls rewrite) target fallthrough
  | .ifStmt condition thenBody elseBody =>
      .ifStmt (condition.rewriteCalls rewrite) (rewriteCallsStatements thenBody)
        (rewriteCallsStatements elseBody)
  | .whileStmt condition body =>
      .whileStmt (condition.rewriteCalls rewrite) (rewriteCallsStatements body)
  | .doWhile body condition =>
      .doWhile (rewriteCallsStatements body) (condition.rewriteCalls rewrite)
  | .forStmt init condition update body =>
      .forStmt (rewriteCallsStatement init) (condition.map (·.rewriteCalls rewrite))
        (rewriteCallsStatement update) (rewriteCallsStatements body)
  | .switch discriminant cases default =>
      .switch (discriminant.rewriteCalls rewrite) (rewriteCallsCases cases)
        (rewriteCallsDefault default)
  | .forOf name iterable body =>
      .forOf name (iterable.rewriteCalls rewrite) (rewriteCallsStatements body)
  | .forIn name object body =>
      .forIn name (object.rewriteCalls rewrite) (rewriteCallsStatements body)
  | .tryCatch tryBody catchParam catchBody finallyBody =>
      .tryCatch (rewriteCallsStatements tryBody) catchParam (rewriteCallsStatements catchBody)
        (rewriteCallsStatements finallyBody)
  | .block body => .block (rewriteCallsStatements body)
  | .classStmt name superClass constructor methods =>
      .classStmt name (superClass.map (·.rewriteCalls rewrite)) constructor methods

def rewriteCallsStatements : List Statement → List Statement
  | [] => []
  | first :: rest => first.rewriteCalls :: rewriteCallsStatements rest

def rewriteCallsStatement : Option Statement → Option Statement
  | none => none
  | some statement => some statement.rewriteCalls

def rewriteCallsDefault : Option (List Statement) → Option (List Statement)
  | none => none
  | some body => some (rewriteCallsStatements body)

def rewriteCallsCases : List (Expression × List Statement) → List (Expression × List Statement)
  | [] => []
  | (test, body) :: rest =>
      (test.rewriteCalls rewrite, rewriteCallsStatements body) :: rewriteCallsCases rest

end

end Rewriting

/-- No call stands in an expression. -/
def Expression.CallFree (expression : Expression) : Prop :=
  ∀ rewrite, expression.rewriteCalls rewrite = expression

/-- No call stands in a property key. -/
def PropertyKey.CallFree (key : PropertyKey) : Prop := ∀ rewrite, key.rewriteCalls rewrite = key

/-- No call stands in a target. -/
def AssignTarget.CallFree (target : AssignTarget) : Prop :=
  ∀ rewrite, target.rewriteCalls rewrite = target

attribute [local simp] Expression.rewriteCalls rewriteCallsAll rewriteCallsElements
  rewriteCallsAttributes PropertyKey.rewriteCalls rewriteCallsProperties AssignTarget.rewriteCalls
  rewriteCallsItems rewriteCallsFields Statement.rewriteCalls rewriteCallsStatements
  rewriteCallsStatement rewriteCallsDefault rewriteCallsCases

mutual

/-- Where each call is rewritten to itself, an expression is too. -/
theorem Expression.rewriteCalls_call : ∀ expression : Expression,
    expression.rewriteCalls .call = expression
  | .value .. | .function .. | .regExp .. | .unknown .. => by simp
  | .binary op left right => by simp [left.rewriteCalls_call, right.rewriteCalls_call]
  | .unary op operand | .spread operand | .await operand => by simp [operand.rewriteCalls_call]
  | .conditional condition thenExpr elseExpr => by
    simp [condition.rewriteCalls_call, thenExpr.rewriteCalls_call, elseExpr.rewriteCalls_call]
  | .member object property optional => by
    simp [object.rewriteCalls_call, property.rewriteCalls_call]
  | .call callee arguments | .new callee arguments => by
    simp [callee.rewriteCalls_call, rewriteCallsAll_call arguments]
  | .array elements => by simp [rewriteCallsElements_call elements]
  | .object properties => by simp [rewriteCallsProperties_call properties]
  | .assignment target value => by simp [target.rewriteCalls_call, value.rewriteCalls_call]
  | .templateLiteral quasis expressions => by simp [rewriteCallsAll_call expressions]
  | .yield value delegate => by simp [value.rewriteCalls_call]
  | .jsxElement tag attributes children => by
    simp [rewriteCallsAttributes_call attributes, rewriteCallsAll_call children]

theorem rewriteCallsAll_call : ∀ expressions, rewriteCallsAll .call expressions = expressions
  | [] => by simp
  | first :: rest => by simp [first.rewriteCalls_call, rewriteCallsAll_call rest]

theorem rewriteCallsElements_call : ∀ elements, rewriteCallsElements .call elements = elements
  | [] => by simp
  | none :: rest => by simp [rewriteCallsElements_call rest]
  | some first :: rest => by simp [first.rewriteCalls_call, rewriteCallsElements_call rest]

theorem rewriteCallsAttributes_call : ∀ attributes,
    rewriteCallsAttributes .call attributes = attributes
  | [] => by simp
  | (name, first) :: rest => by simp [first.rewriteCalls_call, rewriteCallsAttributes_call rest]

theorem PropertyKey.rewriteCalls_call : ∀ key : PropertyKey, key.rewriteCalls .call = key
  | .computed key => by simp [key.rewriteCalls_call]
  | .ident .. | .string .. | .index .. => by simp

theorem rewriteCallsProperties_call : ∀ properties,
    rewriteCallsProperties .call properties = properties
  | [] => by simp
  | .mk key value :: rest => by
    simp [key.rewriteCalls_call, value.rewriteCalls_call, rewriteCallsProperties_call rest]

theorem AssignTarget.rewriteCalls_call : ∀ target : AssignTarget, target.rewriteCalls .call = target
  | .binding binding => by simp
  | .member object property => by simp [object.rewriteCalls_call]
  | .index object key => by simp [object.rewriteCalls_call, key.rewriteCalls_call]
  | .destructuringArray elements => by simp [rewriteCallsItems_call elements]
  | .destructuringArrayRest elements rest => by
    simp [rewriteCallsItems_call elements, rest.rewriteCalls_call]
  | .destructuringObject properties => by simp [rewriteCallsFields_call properties]
  | .destructuringObjectRest properties rest => by
    simp [rewriteCallsFields_call properties, rest.rewriteCalls_call]
  | .rest target => by simp [target.rewriteCalls_call]

theorem rewriteCallsItems_call : ∀ items, rewriteCallsItems .call items = items
  | [] => by simp
  | none :: rest => by simp [rewriteCallsItems_call rest]
  | some (target, none) :: rest => by simp [target.rewriteCalls_call, rewriteCallsItems_call rest]
  | some (target, some fallback) :: rest => by
    simp [target.rewriteCalls_call, fallback.rewriteCalls_call, rewriteCallsItems_call rest]

theorem rewriteCallsFields_call : ∀ fields, rewriteCallsFields .call fields = fields
  | [] => by simp
  | (key, target, none) :: rest => by simp [target.rewriteCalls_call, rewriteCallsFields_call rest]
  | (key, target, some fallback) :: rest => by
    simp [target.rewriteCalls_call, fallback.rewriteCalls_call, rewriteCallsFields_call rest]

end

theorem map_rewriteCalls_call (expression : Option Expression) :
    expression.map (·.rewriteCalls .call) = expression := by
  cases expression with
  | none => rfl
  | some part => exact congrArg some part.rewriteCalls_call

mutual

/-- Where each call is rewritten to itself, a statement is too. -/
theorem Statement.rewriteCalls_call : ∀ statement : Statement,
    statement.rewriteCalls .call = statement
  | .expr expression => by simp [expression.rewriteCalls_call]
  | .letStmt name value kind | .throwStmt value => by simp [value.rewriteCalls_call]
  | .assign target value => by simp [target.rewriteCalls_call, value.rewriteCalls_call]
  | .delete target result => by simp [target.rewriteCalls_call]
  | .returnStmt value => by simp [map_rewriteCalls_call value]
  | .debugger | .comment .. | .breakStmt .. | .continueStmt .. | .goto .. => by simp
  | .condGoto condition target fallthrough => by simp [condition.rewriteCalls_call]
  | .ifStmt condition thenBody elseBody => by
    simp [condition.rewriteCalls_call, rewriteCallsStatements_call thenBody,
      rewriteCallsStatements_call elseBody]
  | .whileStmt condition body => by
    simp [condition.rewriteCalls_call, rewriteCallsStatements_call body]
  | .doWhile body condition => by
    simp [rewriteCallsStatements_call body, condition.rewriteCalls_call]
  | .forStmt init condition update body => by
    simp [rewriteCallsStatement_call init, map_rewriteCalls_call condition,
      rewriteCallsStatement_call update, rewriteCallsStatements_call body]
  | .switch discriminant cases default => by
    simp [discriminant.rewriteCalls_call, rewriteCallsCases_call cases,
      rewriteCallsDefault_call default]
  | .forOf name iterable body => by
    simp [iterable.rewriteCalls_call, rewriteCallsStatements_call body]
  | .forIn name base body => by simp [base.rewriteCalls_call, rewriteCallsStatements_call body]
  | .tryCatch tryBody catchParam catchBody finallyBody => by
    simp [rewriteCallsStatements_call tryBody, rewriteCallsStatements_call catchBody,
      rewriteCallsStatements_call finallyBody]
  | .block body => by simp [rewriteCallsStatements_call body]
  | .classStmt name superClass constructor methods => by simp [map_rewriteCalls_call superClass]

theorem rewriteCallsStatements_call : ∀ statements,
    rewriteCallsStatements .call statements = statements
  | [] => by simp
  | first :: rest => by simp [first.rewriteCalls_call, rewriteCallsStatements_call rest]

theorem rewriteCallsStatement_call : ∀ statement, rewriteCallsStatement .call statement = statement
  | none => by simp
  | some statement => by simp [statement.rewriteCalls_call]

theorem rewriteCallsDefault_call : ∀ default, rewriteCallsDefault .call default = default
  | none => by simp
  | some body => by simp [rewriteCallsStatements_call body]

theorem rewriteCallsCases_call : ∀ cases, rewriteCallsCases .call cases = cases
  | [] => by simp
  | (test, body) :: rest => by
    simp [test.rewriteCalls_call, rewriteCallsStatements_call body, rewriteCallsCases_call rest]

end

end HermesDecomp.Ir
