import HermesDecomp.Ir.Registers

/-!
# What renaming does to the reads

Renaming the reads of code maps the registers it reads and leaves those it may write.
-/

namespace HermesDecomp.Ir

variable (map : Nat → Nat)

theorem reads_value (value : Value) : ((Expression.value value).rewriteReads map).visit readVisitor =
    ((Expression.value value).visit readVisitor).map map := by
  cases value with
  | binding place =>
    cases place with
    | register register => rfl
    | «variable» name => rfl
    | closureVar level slot => rfl
  | constant | this | global | parameter | arguments | newTarget | super => rfl

attribute [local simp] Expression.rewriteReads Expression.visit rewriteAll visitAll
  rewriteElements visitElements rewriteAttributes visitAttributes PropertyKey.rewriteReads
  PropertyKey.visit rewriteProperties visitProperties AssignTarget.rewriteReads AssignTarget.visit
  rewriteItems visitItems rewriteFields visitFields Statement.rewriteReads Statement.visit
  rewriteStatements visitStatements rewriteStatement visitStatement rewriteDefault visitDefault
  rewriteCases visitCases

mutual

theorem Expression.reads_rewriteReads : ∀ expression : Expression,
    (expression.rewriteReads map).visit readVisitor = (expression.visit readVisitor).map map
  | .value value => reads_value map value
  | .binary _ left right => by simp [left.reads_rewriteReads, right.reads_rewriteReads]
  | .unary _ operand | .spread operand | .await operand => operand.reads_rewriteReads
  | .conditional condition thenExpr elseExpr => by
    simp [condition.reads_rewriteReads, thenExpr.reads_rewriteReads, elseExpr.reads_rewriteReads]
  | .member object property _ => by simp [object.reads_rewriteReads, property.reads_rewriteReads]
  | .call callee arguments | .new callee arguments => by
    simp [callee.reads_rewriteReads, reads_rewriteAll arguments]
  | .array elements => reads_rewriteElements elements
  | .object properties => reads_rewriteProperties properties
  | .function .. | .regExp .. | .unknown .. => rfl
  | .assignment target value => by simp [target.reads_rewriteReads, value.reads_rewriteReads]
  | .templateLiteral _ expressions => reads_rewriteAll expressions
  | .yield value _ => value.reads_rewriteReads
  | .jsxElement _ attributes children => by
    simp [reads_rewriteAttributes attributes, reads_rewriteAll children]

theorem reads_rewriteAll : ∀ expressions,
    visitAll readVisitor (rewriteAll map expressions) = (visitAll readVisitor expressions).map map
  | [] => rfl
  | first :: rest => by simp [first.reads_rewriteReads, reads_rewriteAll rest]

theorem reads_rewriteElements : ∀ elements,
    visitElements readVisitor (rewriteElements map elements) =
      (visitElements readVisitor elements).map map
  | [] => rfl
  | none :: rest => reads_rewriteElements rest
  | some first :: rest => by simp [first.reads_rewriteReads, reads_rewriteElements rest]

theorem reads_rewriteAttributes : ∀ attributes,
    visitAttributes readVisitor (rewriteAttributes map attributes) =
      (visitAttributes readVisitor attributes).map map
  | [] => rfl
  | (_, first) :: rest => by simp [first.reads_rewriteReads, reads_rewriteAttributes rest]

theorem PropertyKey.reads_rewriteReads : ∀ key : PropertyKey,
    (key.rewriteReads map).visit readVisitor = (key.visit readVisitor).map map
  | .ident .. | .string .. | .index .. => rfl
  | .computed key => key.reads_rewriteReads

theorem reads_rewriteProperties : ∀ properties,
    visitProperties readVisitor (rewriteProperties map properties) =
      (visitProperties readVisitor properties).map map
  | [] => rfl
  | .mk key value :: rest => by
    simp [key.reads_rewriteReads, value.reads_rewriteReads, reads_rewriteProperties rest]

theorem AssignTarget.reads_rewriteReads : ∀ target : AssignTarget,
    (target.rewriteReads map).visit readVisitor = (target.visit readVisitor).map map
  | .binding _ => rfl
  | .member object _ => object.reads_rewriteReads
  | .index object key => by simp [object.reads_rewriteReads, key.reads_rewriteReads]
  | .destructuringArray elements => reads_rewriteItems elements
  | .destructuringArrayRest elements rest => by
    simp [reads_rewriteItems elements, rest.reads_rewriteReads]
  | .destructuringObject properties => reads_rewriteFields properties
  | .destructuringObjectRest properties rest => by
    simp [reads_rewriteFields properties, rest.reads_rewriteReads]
  | .rest target => target.reads_rewriteReads

theorem reads_rewriteItems : ∀ items,
    visitItems readVisitor (rewriteItems map items) = (visitItems readVisitor items).map map
  | [] => rfl
  | none :: rest => reads_rewriteItems rest
  | some (target, none) :: rest => by simp [target.reads_rewriteReads, reads_rewriteItems rest]
  | some (target, some fallback) :: rest => by
    simp [target.reads_rewriteReads, fallback.reads_rewriteReads, reads_rewriteItems rest]

theorem reads_rewriteFields : ∀ fields,
    visitFields readVisitor (rewriteFields map fields) = (visitFields readVisitor fields).map map
  | [] => rfl
  | (_, target, none) :: rest => by simp [target.reads_rewriteReads, reads_rewriteFields rest]
  | (_, target, some fallback) :: rest => by
    simp [target.reads_rewriteReads, fallback.reads_rewriteReads, reads_rewriteFields rest]

end

theorem reads_rewriteOption (value : Option Expression) :
    visitOption readVisitor (value.map (·.rewriteReads map)) =
      (visitOption readVisitor value).map map := by
  cases value with
  | none => rfl
  | some value => exact value.reads_rewriteReads map

theorem reads_name (name : String) : visitName readVisitor name = [] := by
  unfold visitName
  cases registerNamed? name <;> rfl

mutual

theorem Statement.reads_rewriteReads : ∀ statement : Statement,
    (statement.rewriteReads map).visit readVisitor = (statement.visit readVisitor).map map
  | .expr expression => expression.reads_rewriteReads map
  | .letStmt _ value _ | .throwStmt value => value.reads_rewriteReads map
  | .assign target value => by simp [target.reads_rewriteReads, value.reads_rewriteReads]
  | .delete target result => by
    have noRead : result.toList.flatMap (fun register => readVisitor.onWrite (.register register)) =
        [] := List.flatMap_eq_nil_iff.mpr fun _ _ => rfl
    simp [noRead, target.reads_rewriteReads]
  | .returnStmt value => reads_rewriteOption map value
  | .debugger | .comment .. | .breakStmt .. | .continueStmt .. | .goto .. => rfl
  | .condGoto condition _ _ => condition.reads_rewriteReads map
  | .ifStmt condition thenBody elseBody => by
    simp [condition.reads_rewriteReads, reads_rewriteStatements thenBody,
      reads_rewriteStatements elseBody]
  | .whileStmt condition body | .doWhile body condition => by
    simp [condition.reads_rewriteReads, reads_rewriteStatements body]
  | .forStmt init condition update body => by
    simp [reads_rewriteStatement init, reads_rewriteOption map condition,
      reads_rewriteStatement update, reads_rewriteStatements body]
  | .switch discriminant cases default => by
    simp [discriminant.reads_rewriteReads, reads_rewriteCases cases, reads_rewriteDefault default]
  | .forOf name iterable body => by
    simp [reads_name, iterable.reads_rewriteReads, reads_rewriteStatements body]
  | .forIn name object body => by
    simp [reads_name, object.reads_rewriteReads, reads_rewriteStatements body]
  | .tryCatch tryBody catchParam catchBody finallyBody => by
    simp [reads_name, reads_rewriteStatements tryBody, reads_rewriteStatements catchBody,
      reads_rewriteStatements finallyBody]
  | .block body => reads_rewriteStatements body
  | .classStmt _ superClass _ _ => reads_rewriteOption map superClass

theorem reads_rewriteStatements : ∀ statements,
    visitStatements readVisitor (rewriteStatements map statements) =
      (visitStatements readVisitor statements).map map
  | [] => rfl
  | first :: rest => by simp [first.reads_rewriteReads, reads_rewriteStatements rest]

theorem reads_rewriteStatement : ∀ statement,
    visitStatement readVisitor (rewriteStatement map statement) =
      (visitStatement readVisitor statement).map map
  | none => rfl
  | some statement => statement.reads_rewriteReads

theorem reads_rewriteDefault : ∀ default, visitDefault readVisitor (rewriteDefault map default) =
      (visitDefault readVisitor default).map map
  | none => rfl
  | some body => reads_rewriteStatements body

theorem reads_rewriteCases : ∀ cases,
    visitCases readVisitor (rewriteCases map cases) = (visitCases readVisitor cases).map map
  | [] => rfl
  | (test, body) :: rest => by
    simp [test.reads_rewriteReads, reads_rewriteStatements body, reads_rewriteCases rest]

end

mutual

/-- Renaming every register to itself changes nothing. -/
theorem Expression.rewriteReads_id : ∀ expression : Expression,
    expression.rewriteReads id = expression
  | .value value => by
    cases value with
    | binding place => cases place <;> rfl
    | constant | this | global | parameter | arguments | newTarget | super => rfl
  | .binary op left right => by simp [left.rewriteReads_id, right.rewriteReads_id]
  | .unary op operand => by simp [operand.rewriteReads_id]
  | .conditional condition thenExpr elseExpr => by
    simp [condition.rewriteReads_id, thenExpr.rewriteReads_id, elseExpr.rewriteReads_id]
  | .member object property _ => by simp [object.rewriteReads_id, property.rewriteReads_id]
  | .call callee arguments | .new callee arguments => by
    simp [callee.rewriteReads_id, rewriteAll_id arguments]
  | .array elements => congrArg Expression.array (rewriteElements_id elements)
  | .object properties => congrArg Expression.object (rewriteProperties_id properties)
  | .function .. | .regExp .. | .unknown .. => rfl
  | .assignment target value => by simp [target.rewriteReads_id, value.rewriteReads_id]
  | .spread operand => congrArg Expression.spread operand.rewriteReads_id
  | .templateLiteral quasis expressions =>
    congrArg (Expression.templateLiteral quasis) (rewriteAll_id expressions)
  | .yield value delegate => by simp [value.rewriteReads_id]
  | .await operand => congrArg Expression.await operand.rewriteReads_id
  | .jsxElement tag attributes children => by
    simp [rewriteAttributes_id attributes, rewriteAll_id children]

theorem rewriteAll_id : ∀ expressions, rewriteAll id expressions = expressions
  | [] => rfl
  | first :: rest => by simp [first.rewriteReads_id, rewriteAll_id rest]

theorem rewriteElements_id : ∀ elements, rewriteElements id elements = elements
  | [] => rfl
  | none :: rest => congrArg (none :: ·) (rewriteElements_id rest)
  | some first :: rest => by simp [first.rewriteReads_id, rewriteElements_id rest]

theorem rewriteAttributes_id : ∀ attributes, rewriteAttributes id attributes = attributes
  | [] => rfl
  | (_, first) :: rest => by simp [first.rewriteReads_id, rewriteAttributes_id rest]

theorem PropertyKey.rewriteReads_id : ∀ key : PropertyKey, key.rewriteReads id = key
  | .ident .. | .string .. | .index .. => rfl
  | .computed key => congrArg PropertyKey.computed key.rewriteReads_id

theorem rewriteProperties_id : ∀ properties, rewriteProperties id properties = properties
  | [] => rfl
  | .mk key value :: rest => by
    simp [key.rewriteReads_id, value.rewriteReads_id, rewriteProperties_id rest]

theorem AssignTarget.rewriteReads_id : ∀ target : AssignTarget, target.rewriteReads id = target
  | .binding _ => rfl
  | .member object _ => by simp [object.rewriteReads_id]
  | .index object key => by simp [object.rewriteReads_id, key.rewriteReads_id]
  | .destructuringArray elements =>
    congrArg AssignTarget.destructuringArray (rewriteItems_id elements)
  | .destructuringArrayRest elements rest => by
    simp [rewriteItems_id elements, rest.rewriteReads_id]
  | .destructuringObject properties =>
    congrArg AssignTarget.destructuringObject (rewriteFields_id properties)
  | .destructuringObjectRest properties rest => by
    simp [rewriteFields_id properties, rest.rewriteReads_id]
  | .rest target => congrArg AssignTarget.rest target.rewriteReads_id

theorem rewriteItems_id : ∀ items, rewriteItems id items = items
  | [] => rfl
  | none :: rest => congrArg (none :: ·) (rewriteItems_id rest)
  | some (target, none) :: rest => by simp [target.rewriteReads_id, rewriteItems_id rest]
  | some (target, some fallback) :: rest => by
    simp [target.rewriteReads_id, fallback.rewriteReads_id, rewriteItems_id rest]

theorem rewriteFields_id : ∀ fields, rewriteFields id fields = fields
  | [] => rfl
  | (_, target, none) :: rest => by simp [target.rewriteReads_id, rewriteFields_id rest]
  | (_, target, some fallback) :: rest => by
    simp [target.rewriteReads_id, fallback.rewriteReads_id, rewriteFields_id rest]

end

theorem rewriteOption_id (value : Option Expression) : value.map (·.rewriteReads id) = value := by
  cases value with
  | none => rfl
  | some value => exact congrArg some value.rewriteReads_id

mutual

theorem Statement.rewriteReads_id : ∀ statement : Statement, statement.rewriteReads id = statement
  | .expr expression => congrArg Statement.expr expression.rewriteReads_id
  | .letStmt name value kind => by rw [Statement.rewriteReads, value.rewriteReads_id]
  | .assign target value => by
    rw [Statement.rewriteReads, target.rewriteReads_id, value.rewriteReads_id]
  | .delete target result => by rw [Statement.rewriteReads, target.rewriteReads_id]
  | .returnStmt .. | .classStmt .. => by rw [Statement.rewriteReads, rewriteOption_id]
  | .throwStmt value => congrArg Statement.throwStmt value.rewriteReads_id
  | .debugger | .comment .. | .breakStmt .. | .continueStmt .. | .goto .. => rfl
  | .condGoto condition _ _ => by rw [Statement.rewriteReads, condition.rewriteReads_id]
  | .ifStmt condition thenBody elseBody => by
    rw [Statement.rewriteReads, condition.rewriteReads_id, rewriteStatements_id thenBody,
      rewriteStatements_id elseBody]
  | .whileStmt condition body | .doWhile body condition => by
    rw [Statement.rewriteReads, condition.rewriteReads_id, rewriteStatements_id body]
  | .forStmt init condition update body => by
    rw [Statement.rewriteReads, rewriteStatement_id init, rewriteOption_id,
      rewriteStatement_id update, rewriteStatements_id body]
  | .switch discriminant cases default => by
    rw [Statement.rewriteReads, discriminant.rewriteReads_id, rewriteCases_id cases,
      rewriteDefault_id default]
  | .forOf _ iterable body => by
    rw [Statement.rewriteReads, iterable.rewriteReads_id, rewriteStatements_id body]
  | .forIn _ object body => by
    rw [Statement.rewriteReads, object.rewriteReads_id, rewriteStatements_id body]
  | .tryCatch tryBody _ catchBody finallyBody => by
    rw [Statement.rewriteReads, rewriteStatements_id tryBody, rewriteStatements_id catchBody,
      rewriteStatements_id finallyBody]
  | .block body => congrArg Statement.block (rewriteStatements_id body)

theorem rewriteStatements_id : ∀ statements, rewriteStatements id statements = statements
  | [] => rfl
  | first :: rest => by rw [rewriteStatements, first.rewriteReads_id, rewriteStatements_id rest]

theorem rewriteStatement_id : ∀ statement, rewriteStatement id statement = statement
  | none => rfl
  | some statement => congrArg some statement.rewriteReads_id

theorem rewriteDefault_id : ∀ default, rewriteDefault id default = default
  | none => rfl
  | some body => congrArg some (rewriteStatements_id body)

theorem rewriteCases_id : ∀ cases, rewriteCases id cases = cases
  | [] => rfl
  | (test, body) :: rest => by
    rw [rewriteCases, test.rewriteReads_id, rewriteStatements_id body, rewriteCases_id rest]

end

end HermesDecomp.Ir
