import HermesDecomp.Ir.Execution

/-!
# The registers of a statement

Which registers an expression or a statement reads, which it may write besides what a
plain register assignment writes, and the renaming of its reads. The reads are those
the visitors of the source reach; a class statement reads what its base class reads.
-/

namespace HermesDecomp.Ir

/-- What a walk over a statement collects at the places it reads and at those it
writes. -/
structure Visitor (β : Type) where
  onRead : Binding → List β
  onWrite : Binding → List β

section Visiting

variable {β : Type} (visitor : Visitor β)

mutual

/-- Visit the places of an expression. -/
def Expression.visit : Expression → List β
  | .value (.binding place) => visitor.onRead place
  | .value _ => []
  | .binary _ left right => left.visit ++ right.visit
  | .unary _ operand => operand.visit
  | .conditional condition thenExpr elseExpr =>
      condition.visit ++ (thenExpr.visit ++ elseExpr.visit)
  | .member object property _ => object.visit ++ property.visit
  | .call callee arguments => callee.visit ++ visitAll arguments
  | .new callee arguments => callee.visit ++ visitAll arguments
  | .array elements => visitElements elements
  | .object properties => visitProperties properties
  | .function .. => []
  | .assignment target value => target.visit ++ value.visit
  | .spread operand => operand.visit
  | .templateLiteral _ expressions => visitAll expressions
  | .regExp .. => []
  | .yield value _ => value.visit
  | .await operand => operand.visit
  | .jsxElement _ attributes children => visitAttributes attributes ++ visitAll children
  | .unknown .. => []

def visitAll : List Expression → List β
  | [] => []
  | first :: rest => first.visit ++ visitAll rest

def visitElements : List (Option Expression) → List β
  | [] => []
  | none :: rest => visitElements rest
  | some first :: rest => first.visit ++ visitElements rest

def visitAttributes : List (String × Expression) → List β
  | [] => []
  | (_, first) :: rest => first.visit ++ visitAttributes rest

def PropertyKey.visit : PropertyKey → List β
  | .computed key => key.visit
  | .ident _ | .string _ | .index _ => []

def visitProperties : List ObjectProperty → List β
  | [] => []
  | .mk key value :: rest => key.visit ++ (value.visit ++ visitProperties rest)

/-- Visit the places of a target. A binding is written and not read. -/
def AssignTarget.visit : AssignTarget → List β
  | .binding place => visitor.onWrite place
  | .member object _ => object.visit
  | .index object key => object.visit ++ key.visit
  | .destructuringArray elements => visitItems elements
  | .destructuringArrayRest elements rest => visitItems elements ++ rest.visit
  | .destructuringObject properties => visitFields properties
  | .destructuringObjectRest properties rest => visitFields properties ++ rest.visit
  | .rest target => target.visit

def visitItems : List (Option (AssignTarget × Option Expression)) → List β
  | [] => []
  | none :: rest => visitItems rest
  | some (target, none) :: rest => target.visit ++ visitItems rest
  | some (target, some fallback) :: rest => target.visit ++ (fallback.visit ++ visitItems rest)

def visitFields : List (String × AssignTarget × Option Expression) → List β
  | [] => []
  | (_, target, none) :: rest => target.visit ++ visitFields rest
  | (_, target, some fallback) :: rest => target.visit ++ (fallback.visit ++ visitFields rest)

end

/-- Visit an expression that may be absent. -/
def visitOption : Option Expression → List β
  | none => []
  | some expression => expression.visit visitor

/-- The place a name binds, where it is a register. -/
def visitName (name : String) : List β :=
  match registerNamed? name with
  | some register => visitor.onWrite (.register register)
  | none => []

mutual

/-- Visit the places of a statement, the names it binds among them. -/
def Statement.visit : Statement → List β
  | .expr expression => expression.visit visitor
  | .letStmt _ value _ => value.visit visitor
  | .assign target value => target.visit visitor ++ value.visit visitor
  | .delete target result =>
      target.visit visitor ++
        (result.toList.flatMap fun register => visitor.onWrite (.register register))
  | .returnStmt value => visitOption visitor value
  | .throwStmt value => value.visit visitor
  | .debugger => []
  | .comment _ => []
  | .breakStmt _ => []
  | .continueStmt _ => []
  | .goto _ => []
  | .condGoto condition _ _ => condition.visit visitor
  | .ifStmt condition thenBody elseBody =>
      condition.visit visitor ++ (visitStatements thenBody ++ visitStatements elseBody)
  | .whileStmt condition body => condition.visit visitor ++ visitStatements body
  | .doWhile body condition => visitStatements body ++ condition.visit visitor
  | .forStmt init condition update body =>
      visitStatement init ++ (visitOption visitor condition ++ (visitStatement update ++
        visitStatements body))
  | .switch discriminant cases default =>
      discriminant.visit visitor ++ (visitCases cases ++ visitDefault default)
  | .forOf name iterable body =>
      visitName visitor name ++ (iterable.visit visitor ++ visitStatements body)
  | .forIn name object body =>
      visitName visitor name ++ (object.visit visitor ++ visitStatements body)
  | .tryCatch tryBody catchParam catchBody finallyBody =>
      visitName visitor (catchParam.getD "e") ++ (visitStatements tryBody ++
        (visitStatements catchBody ++ visitStatements finallyBody))
  | .block body => visitStatements body
  | .classStmt _ superClass _ _ => visitOption visitor superClass

def visitStatements : List Statement → List β
  | [] => []
  | first :: rest => first.visit ++ visitStatements rest

def visitStatement : Option Statement → List β
  | none => []
  | some statement => statement.visit

def visitDefault : Option (List Statement) → List β
  | none => []
  | some body => visitStatements body

def visitCases : List (Expression × List Statement) → List β
  | [] => []
  | (test, body) :: rest => test.visit visitor ++ (visitStatements body ++ visitCases rest)

end

end Visiting

/-- The register a place is. -/
def Binding.register? : Binding → Option Nat
  | .register number => some number
  | .variable _ | .closureVar _ _ => none

/-- Collects the registers read. -/
def readVisitor : Visitor Nat := ⟨fun place => place.register?.toList, fun _ => []⟩

/-- Collects the registers that may be written. -/
def writeVisitor : Visitor Nat := ⟨fun _ => [], fun place => place.register?.toList⟩

/-- The registers an expression reads, from left to right. -/
def Expression.reads (expression : Expression) : List Nat := expression.visit readVisitor

/-- The registers an expression may write: those its assignments store to. -/
def Expression.writes (expression : Expression) : List Nat := expression.visit writeVisitor

/-- The registers a statement reads. -/
def Statement.reads (statement : Statement) : List Nat := statement.visit readVisitor

/-- The registers a statement may write. -/
def Statement.writes (statement : Statement) : List Nat := statement.visit writeVisitor

/-- The registers a statement may write other than by being a plain assignment to a
register. -/
def Statement.otherWrites : Statement → List Nat
  | assignReg _ value => value.writes
  | statement => statement.writes

/-- The registers a terminator reads besides those in the tests of a switch. -/
def Terminator.valueReads : Terminator → List Nat
  | branch condition _ _ => condition.reads
  | returnTerm value => visitOption readVisitor value
  | throwTerm value => value.reads
  | switch value _ _ => value.reads
  | jump _ | none => []

/-- The registers the tests of a switch read. -/
def Terminator.testReads : Terminator → List Nat
  | switch _ cases _ => cases.flatMap fun test => test.1.reads
  | branch .. | returnTerm _ | throwTerm _ | jump _ | none => []

/-- The registers a terminator reads. -/
def Terminator.reads (terminator : Terminator) : List Nat :=
  terminator.valueReads ++ terminator.testReads

/-- The registers a terminator may write. -/
def Terminator.writes : Terminator → List Nat
  | branch condition _ _ => condition.writes
  | returnTerm value => visitOption writeVisitor value
  | throwTerm value => value.writes
  | switch value cases _ => value.writes ++ cases.flatMap fun test => test.1.writes
  | jump _ | none => []

section Renaming

variable (map : Nat → Nat)

mutual

/-- Rename the registers an expression reads. -/
def Expression.rewriteReads : Expression → Expression
  | .value (.binding (.register register)) => .register (map register)
  | .value value => .value value
  | .binary op left right => .binary op left.rewriteReads right.rewriteReads
  | .unary op operand => .unary op operand.rewriteReads
  | .conditional condition thenExpr elseExpr =>
      .conditional condition.rewriteReads thenExpr.rewriteReads elseExpr.rewriteReads
  | .member object property optional => .member object.rewriteReads property.rewriteReads optional
  | .call callee arguments => .call callee.rewriteReads (rewriteAll arguments)
  | .new callee arguments => .new callee.rewriteReads (rewriteAll arguments)
  | .array elements => .array (rewriteElements elements)
  | .object properties => .object (rewriteProperties properties)
  | .function id name isArrow isAsync isGenerator => .function id name isArrow isAsync isGenerator
  | .assignment target value => .assignment target.rewriteReads value.rewriteReads
  | .spread operand => .spread operand.rewriteReads
  | .templateLiteral quasis expressions => .templateLiteral quasis (rewriteAll expressions)
  | .regExp pattern flags => .regExp pattern flags
  | .yield value delegate => .yield value.rewriteReads delegate
  | .await operand => .await operand.rewriteReads
  | .jsxElement tag attributes children =>
      .jsxElement tag (rewriteAttributes attributes) (rewriteAll children)
  | .unknown opcode operands => .unknown opcode operands

def rewriteAll : List Expression → List Expression
  | [] => []
  | first :: rest => first.rewriteReads :: rewriteAll rest

def rewriteElements : List (Option Expression) → List (Option Expression)
  | [] => []
  | none :: rest => none :: rewriteElements rest
  | some first :: rest => some first.rewriteReads :: rewriteElements rest

def rewriteAttributes : List (String × Expression) → List (String × Expression)
  | [] => []
  | (name, first) :: rest => (name, first.rewriteReads) :: rewriteAttributes rest

def PropertyKey.rewriteReads : PropertyKey → PropertyKey
  | .computed key => .computed key.rewriteReads
  | .ident name => .ident name
  | .string text => .string text
  | .index position => .index position

def rewriteProperties : List ObjectProperty → List ObjectProperty
  | [] => []
  | .mk key value :: rest => .mk key.rewriteReads value.rewriteReads :: rewriteProperties rest

/-- Rename the registers a target reads. The binding it writes stays. -/
def AssignTarget.rewriteReads : AssignTarget → AssignTarget
  | .binding binding => .binding binding
  | .member object property => .member object.rewriteReads property
  | .index object key => .index object.rewriteReads key.rewriteReads
  | .destructuringArray elements => .destructuringArray (rewriteItems elements)
  | .destructuringArrayRest elements rest =>
      .destructuringArrayRest (rewriteItems elements) rest.rewriteReads
  | .destructuringObject properties => .destructuringObject (rewriteFields properties)
  | .destructuringObjectRest properties rest =>
      .destructuringObjectRest (rewriteFields properties) rest.rewriteReads
  | .rest target => .rest target.rewriteReads

def rewriteItems : List (Option (AssignTarget × Option Expression)) →
    List (Option (AssignTarget × Option Expression))
  | [] => []
  | none :: rest => none :: rewriteItems rest
  | some (target, none) :: rest => some (target.rewriteReads, none) :: rewriteItems rest
  | some (target, some fallback) :: rest =>
      some (target.rewriteReads, some fallback.rewriteReads) :: rewriteItems rest

def rewriteFields : List (String × AssignTarget × Option Expression) →
    List (String × AssignTarget × Option Expression)
  | [] => []
  | (key, target, none) :: rest => (key, target.rewriteReads, none) :: rewriteFields rest
  | (key, target, some fallback) :: rest =>
      (key, target.rewriteReads, some fallback.rewriteReads) :: rewriteFields rest

end

mutual

/-- Rename the registers a statement reads. -/
def Statement.rewriteReads : Statement → Statement
  | .expr expression => .expr (expression.rewriteReads map)
  | .letStmt name value kind => .letStmt name (value.rewriteReads map) kind
  | .assign target value => .assign (target.rewriteReads map) (value.rewriteReads map)
  | .delete target result => .delete (target.rewriteReads map) result
  | .returnStmt value => .returnStmt (value.map (·.rewriteReads map))
  | .throwStmt value => .throwStmt (value.rewriteReads map)
  | .debugger => .debugger
  | .comment text => .comment text
  | .breakStmt label => .breakStmt label
  | .continueStmt label => .continueStmt label
  | .goto target => .goto target
  | .condGoto condition target fallthrough =>
      .condGoto (condition.rewriteReads map) target fallthrough
  | .ifStmt condition thenBody elseBody =>
      .ifStmt (condition.rewriteReads map) (rewriteStatements thenBody) (rewriteStatements elseBody)
  | .whileStmt condition body => .whileStmt (condition.rewriteReads map) (rewriteStatements body)
  | .doWhile body condition => .doWhile (rewriteStatements body) (condition.rewriteReads map)
  | .forStmt init condition update body =>
      .forStmt (rewriteStatement init) (condition.map (·.rewriteReads map))
        (rewriteStatement update) (rewriteStatements body)
  | .switch discriminant cases default =>
      .switch (discriminant.rewriteReads map) (rewriteCases cases) (rewriteDefault default)
  | .forOf name iterable body => .forOf name (iterable.rewriteReads map) (rewriteStatements body)
  | .forIn name object body => .forIn name (object.rewriteReads map) (rewriteStatements body)
  | .tryCatch tryBody catchParam catchBody finallyBody =>
      .tryCatch (rewriteStatements tryBody) catchParam (rewriteStatements catchBody)
        (rewriteStatements finallyBody)
  | .block body => .block (rewriteStatements body)
  | .classStmt name superClass constructor methods =>
      .classStmt name (superClass.map (·.rewriteReads map)) constructor methods

def rewriteStatements : List Statement → List Statement
  | [] => []
  | first :: rest => first.rewriteReads :: rewriteStatements rest

def rewriteStatement : Option Statement → Option Statement
  | none => none
  | some statement => some statement.rewriteReads

def rewriteDefault : Option (List Statement) → Option (List Statement)
  | none => none
  | some body => some (rewriteStatements body)

def rewriteCases : List (Expression × List Statement) → List (Expression × List Statement)
  | [] => []
  | (test, body) :: rest => (test.rewriteReads map, rewriteStatements body) :: rewriteCases rest

end

/-- Rename the reads of a terminator. The tests of a switch are left as they are. -/
def Terminator.rewriteReads : Terminator → Terminator
  | returnTerm value => .returnTerm (value.map (·.rewriteReads map))
  | throwTerm value => .throwTerm (value.rewriteReads map)
  | branch condition trueTarget falseTarget =>
      .branch (condition.rewriteReads map) trueTarget falseTarget
  | switch value cases default => .switch (value.rewriteReads map) cases default
  | jump target => .jump target
  | none => .none

end Renaming

end HermesDecomp.Ir
