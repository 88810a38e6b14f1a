import HermesDecomp.Ir.Syntax

/-!
# How a body mentions a variable

A name is declared, written or read. A class is mentioned by what it declares, its own name and
the parameters of its methods, and by the class it extends.
-/

namespace HermesDecomp.Ir

/-- One mention of a variable. -/
inductive Mention where
  | declared (name : String)
  | written (name : String)
  | read (name : String)
deriving DecidableEq, Repr

namespace Mention

/-- The name a mention binds: declared or written. -/
def bound? : Mention → Option String
  | declared name => some name
  | written name => some name
  | read _ => none

/-- The name a mention refers to: written or read. -/
def referred? : Mention → Option String
  | declared _ => none
  | written name => some name
  | read name => some name

end Mention

/-- The reads of a place. -/
def Binding.reads : Binding → List Mention
  | .variable name => [.read name.name]
  | .register _ => []
  | .closureVar .. => []

/-- The writes to a place. -/
def Binding.writes : Binding → List Mention
  | .variable name => [.written name.name]
  | .register _ => []
  | .closureVar .. => []

mutual

/-- The mentions of an expression. -/
def Expression.mentions : Expression → List Mention
  | .value (.binding place) => place.reads
  | .value _ => []
  | .binary _ left right => left.mentions ++ right.mentions
  | .unary _ operand => operand.mentions
  | .conditional condition thenExpr elseExpr =>
      condition.mentions ++ (thenExpr.mentions ++ elseExpr.mentions)
  | .member object property _ => object.mentions ++ property.mentions
  | .call callee arguments => callee.mentions ++ mentionsOfAll arguments
  | .new callee arguments => callee.mentions ++ mentionsOfAll arguments
  | .array elements => mentionsOfElements elements
  | .object properties => mentionsOfProperties properties
  | .function .. => []
  | .assignment target value => target.mentions ++ value.mentions
  | .spread operand => operand.mentions
  | .templateLiteral _ expressions => mentionsOfAll expressions
  | .regExp .. => []
  | .yield value _ => value.mentions
  | .await operand => operand.mentions
  | .jsxElement _ attributes children => mentionsOfAttributes attributes ++ mentionsOfAll children
  | .unknown .. => []

def mentionsOfAll : List Expression → List Mention
  | [] => []
  | first :: rest => first.mentions ++ mentionsOfAll rest

def mentionsOfElements : List (Option Expression) → List Mention
  | [] => []
  | none :: rest => mentionsOfElements rest
  | some first :: rest => first.mentions ++ mentionsOfElements rest

def mentionsOfAttributes : List (String × Expression) → List Mention
  | [] => []
  | (_, first) :: rest => first.mentions ++ mentionsOfAttributes rest

def PropertyKey.mentions : PropertyKey → List Mention
  | .computed key => key.mentions
  | .ident _ => []
  | .string _ => []
  | .index _ => []

def mentionsOfProperties : List ObjectProperty → List Mention
  | [] => []
  | .mk key value :: rest => key.mentions ++ (value.mentions ++ mentionsOfProperties rest)

def AssignTarget.mentions : AssignTarget → List Mention
  | .binding place => place.writes
  | .member object _ => object.mentions
  | .index object key => object.mentions ++ key.mentions
  | .destructuringArray elements => mentionsOfItems elements
  | .destructuringArrayRest elements rest => mentionsOfItems elements ++ rest.mentions
  | .destructuringObject properties => mentionsOfFields properties
  | .destructuringObjectRest properties rest => mentionsOfFields properties ++ rest.mentions
  | .rest target => target.mentions

def mentionsOfItems : List (Option (AssignTarget × Option Expression)) → List Mention
  | [] => []
  | none :: rest => mentionsOfItems rest
  | some (target, none) :: rest => target.mentions ++ mentionsOfItems rest
  | some (target, some fallback) :: rest =>
      target.mentions ++ (fallback.mentions ++ mentionsOfItems rest)

def mentionsOfFields : List (String × AssignTarget × Option Expression) → List Mention
  | [] => []
  | (_, target, none) :: rest => target.mentions ++ mentionsOfFields rest
  | (_, target, some fallback) :: rest =>
      target.mentions ++ (fallback.mentions ++ mentionsOfFields rest)

end

/-- The mentions of an expression that may be absent. -/
def mentionsOfOption : Option Expression → List Mention
  | none => []
  | some expression => expression.mentions

/-- The parameters of a method are declared. -/
def ClassMethod.mentions : ClassMethod → List Mention
  | .mk _ _ _ _ _ params => params.map .declared

mutual

/-- The mentions of a statement. -/
def Statement.mentions : Statement → List Mention
  | .expr expression => expression.mentions
  | .letStmt name value _ => .declared name.name :: value.mentions
  | .assign target value => target.mentions ++ value.mentions
  | .delete target _ => target.mentions
  | .returnStmt value => mentionsOfOption value
  | .throwStmt value => value.mentions
  | .debugger => []
  | .comment _ => []
  | .breakStmt _ => []
  | .continueStmt _ => []
  | .goto _ => []
  | .condGoto condition _ _ => condition.mentions
  | .ifStmt condition thenBody elseBody =>
      condition.mentions ++ (mentionsOfStatements thenBody ++ mentionsOfStatements elseBody)
  | .whileStmt condition body => condition.mentions ++ mentionsOfStatements body
  | .doWhile body condition => mentionsOfStatements body ++ condition.mentions
  | .forStmt init condition update body =>
      mentionsOfStatement init ++ (mentionsOfOption condition ++ (mentionsOfStatement update ++
        mentionsOfStatements body))
  | .switch discriminant cases default =>
      discriminant.mentions ++ (mentionsOfCases cases ++ mentionsOfDefault default)
  | .forOf name iterable body => .declared name :: (iterable.mentions ++ mentionsOfStatements body)
  | .forIn name object body => .declared name :: (object.mentions ++ mentionsOfStatements body)
  | .tryCatch tryBody catchParam catchBody finallyBody =>
      mentionsOfStatements tryBody ++ (catchParam.toList.map .declared ++
        (mentionsOfStatements catchBody ++ mentionsOfStatements finallyBody))
  | .block body => mentionsOfStatements body
  | .classStmt name superClass _ methods =>
      .declared name :: (mentionsOfOption superClass ++ methods.flatMap ClassMethod.mentions)

def mentionsOfStatements : List Statement → List Mention
  | [] => []
  | first :: rest => first.mentions ++ mentionsOfStatements rest

def mentionsOfStatement : Option Statement → List Mention
  | none => []
  | some statement => statement.mentions

def mentionsOfDefault : Option (List Statement) → List Mention
  | none => []
  | some body => mentionsOfStatements body

def mentionsOfCases : List (Expression × List Statement) → List Mention
  | [] => []
  | (test, body) :: rest => test.mentions ++ (mentionsOfStatements body ++ mentionsOfCases rest)

end

/-- The names a body binds itself. -/
def boundNames (body : List Statement) : List String :=
  (mentionsOfStatements body).filterMap Mention.bound?

/-- The names a body writes or reads. -/
def referredNames (body : List Statement) : List String :=
  (mentionsOfStatements body).filterMap Mention.referred?

/-- A way a body binds a variable. -/
inductive Store where
  | plain (name : String) (value : Expression)
  | other (name : String)

/-- The names an expression binds. -/
def Expression.stores (expression : Expression) : List Store :=
  (expression.mentions.filterMap Mention.bound?).map .other

/-- What an assignment stores to, beside what its value does. -/
def AssignTarget.stores (value : Expression) : AssignTarget → List Store
  | .binding (.variable name) => [.plain name.name value]
  | target => (target.mentions.filterMap Mention.bound?).map .other

def storesOfOption : Option Expression → List Store
  | none => []
  | some expression => expression.stores

/-- The name a handler binds. Without a parameter only a handler that does something has one. -/
def storesOfCatch (catchParam : Option String) (catchBody : List Statement) : List Store :=
  if catchBody.isEmpty ∧ catchParam.isNone then [] else [.other (catchParam.getD "e")]

mutual

/-- The stores of a statement. -/
def Statement.stores : Statement → List Store
  | .expr expression => expression.stores
  | .letStmt name value _ => .plain name.name value :: value.stores
  | .assign target value => target.stores value ++ value.stores
  | .delete target _ => target.stores
  | .returnStmt value => storesOfOption value
  | .throwStmt value => value.stores
  | .debugger => []
  | .comment _ => []
  | .breakStmt _ => []
  | .continueStmt _ => []
  | .goto _ => []
  | .condGoto condition _ _ => condition.stores
  | .ifStmt condition thenBody elseBody =>
      condition.stores ++ (storesOfAll thenBody ++ storesOfAll elseBody)
  | .whileStmt condition body => condition.stores ++ storesOfAll body
  | .doWhile body condition => storesOfAll body ++ condition.stores
  | .forStmt init condition update body =>
      storesOfStatement init ++ (storesOfOption condition ++ (storesOfStatement update ++
        storesOfAll body))
  | .switch discriminant cases default =>
      discriminant.stores ++ (storesOfCases cases ++ storesOfDefault default)
  | .forOf name iterable body => .other name :: (iterable.stores ++ storesOfAll body)
  | .forIn name object body => .other name :: (object.stores ++ storesOfAll body)
  | .tryCatch tryBody catchParam catchBody finallyBody =>
      storesOfAll tryBody ++ (storesOfCatch catchParam catchBody ++
        (storesOfAll catchBody ++ storesOfAll finallyBody))
  | .block body => storesOfAll body
  | .classStmt name superClass _ _ => .other name :: storesOfOption superClass

def storesOfAll : List Statement → List Store
  | [] => []
  | first :: rest => first.stores ++ storesOfAll rest

def storesOfStatement : Option Statement → List Store
  | none => []
  | some statement => statement.stores

def storesOfDefault : Option (List Statement) → List Store
  | none => []
  | some body => storesOfAll body

def storesOfCases : List (Expression × List Statement) → List Store
  | [] => []
  | (test, body) :: rest => test.stores ++ (storesOfAll body ++ storesOfCases rest)

end

end HermesDecomp.Ir
