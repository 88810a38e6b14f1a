import HermesDecomp.Ir.Host

/-!
# The meaning of statements

A loop runs a bounded number of times: the number is a parameter of the execution,
and a loop that is not done by then does not return, as a loop that never ends does
not. The label of a loop is the `labelN:` comment before it. A case of a switch does
not run into the next one, and a `break` inside a case ends the switch.
-/

namespace HermesDecomp.Ir

/-!
Expressions are evaluated from left to right. The logical operators, conditionals and optional
members evaluate only the parts that JavaScript evaluates.
-/

variable {host : Host} {α : Type}

/-- Run a host operation on the world. What it throws, the program throws. -/
def perform (operation : Action host.World host.Val α) : Exec host α := fun machine =>
  match operation machine.world with
  | (.ok value, world) => (.ok value, { machine with world })
  | (.err thrown, world) => (.err (.throws thrown), { machine with world })
  | (.panic, world) => (.panic, { machine with world })

/-- Read a register. -/
def readRegister (register : Nat) : Exec host host.Val := fun machine =>
  (.ok (machine.read register), machine)

/-- Write a register. -/
def writeRegister (register : Nat) (value : host.Val) : Exec host PUnit := fun machine =>
  (.ok ⟨⟩, machine.write register value)

/-- Read a place. -/
def readBinding : Binding → Exec host host.Val
  | .register register => readRegister register
  | .variable name => perform (host.readVariable name)
  | .closureVar level slot => perform (host.readClosureVar level slot)

/-- Write a place. -/
def writeBinding : Binding → host.Val → Exec host PUnit
  | .register register, value => writeRegister register value
  | .variable name, value => perform (host.setVariable name value)
  | .closureVar level slot, value => perform (host.setClosureVar level slot value)

/-- The meaning of a value. Only a binding depends on the machine. -/
def evaluateValue : Value → Exec host host.Val
  | .binding binding => readBinding binding
  | .constant constant => pure (host.constant constant)
  | .this => pure host.this
  | .global => pure host.global
  | .parameter index => pure (host.parameter index)
  | .arguments => pure host.arguments
  | .newTarget => pure host.newTarget
  | .super => pure host.super

/-- A binary operator. The logical operators evaluate their right operand only when
the left one does not decide. -/
def binaryOf (op : BinaryOp) (left right : Exec host host.Val) : Exec host host.Val := do
  let value ← left
  match op with
  | .and | .logicalAnd => if host.truthy value then right else pure value
  | .or | .logicalOr => if host.truthy value then pure value else right
  | .nullishCoalesce => if host.nullish value then right else pure value
  | _ => do
    let other ← right
    perform (host.binary op value other)

/-- A conditional runs one of its arms. -/
def choiceOf (condition : Exec host host.Val) (whenTrue whenFalse : Exec host α) : Exec host α := do
  let value ← condition
  if host.truthy value then whenTrue else whenFalse

/-- A property read. -/
def memberOf (optional : Bool) (object : Exec host host.Val) (key : Exec host host.Key) :
    Exec host host.Val := do
  let value ← object
  if optional && host.nullish value then pure (host.constant .undefined)
  else do
    let property ← key
    perform (host.getMember value property)

/-- The first of two parts, then the second, then an operation on both values. -/
def thenPerform {β γ : Type} (first : Exec host α) (second : Exec host β)
    (operation : α → β → Action host.World host.Val γ) : Exec host γ := do
  let value ← first
  let other ← second
  perform (operation value other)

/-- A part and then an operation on its value. -/
def andPerform {β : Type} (part : Exec host α) (operation : α → Action host.World host.Val β) :
    Exec host β := do
  let value ← part
  perform (operation value)

/-- A value, or the default where the value is undefined. -/
def withDefault (fallback value : Exec host host.Val) : Exec host host.Val := do
  let found ← value
  if host.isUndefined found then fallback else pure found

/-- The next element of an iterator, `undefined` after the last one. -/
def nextElement (iterator : host.Val) : Exec host host.Val := do
  let element ← perform (host.advance iterator)
  pure (element.getD (host.constant .undefined))

mutual

/-- The meaning of an expression. -/
def Expression.evaluate : Expression → Exec host host.Val
  | .value value => evaluateValue value
  | .binary op left right => binaryOf op left.evaluate right.evaluate
  | .unary op operand => andPerform operand.evaluate (host.unary op)
  | .conditional condition thenExpr elseExpr =>
      choiceOf condition.evaluate thenExpr.evaluate elseExpr.evaluate
  | .member object property optional => memberOf optional object.evaluate property.evaluate
  | .call callee arguments => thenPerform callee.evaluate (evaluateAll arguments) host.call
  | .new callee arguments => thenPerform callee.evaluate (evaluateAll arguments) host.construct
  | .array elements => andPerform (evaluateElements elements) host.newArray
  | .object properties => do
      let object ← perform host.newObject
      defineAll object properties
      pure object
  | .function id name isArrow isAsync isGenerator =>
      perform (host.function id name isArrow isAsync isGenerator)
  | .assignment target value => target.store value.evaluate
  | .spread operand => andPerform operand.evaluate host.spread
  | .templateLiteral quasis expressions =>
      andPerform (evaluateTexts expressions) (host.template quasis)
  | .regExp pattern flags => perform (host.regExp pattern flags)
  | .yield value delegate => andPerform value.evaluate (host.yield delegate)
  | .await operand => andPerform operand.evaluate host.await
  | .jsxElement tag attributes children =>
      thenPerform (evaluateAttributes attributes) (evaluateAll children) (host.jsx tag)
  | .unknown opcode operands => perform (host.unknown opcode operands)

/-- The values of a list of expressions. -/
def evaluateAll : List Expression → Exec host (List host.Val)
  | [] => pure []
  | first :: rest => do
      let value ← first.evaluate
      let values ← evaluateAll rest
      pure (value :: values)

/-- The values of array elements. -/
def evaluateElements : List (Option Expression) → Exec host (List (Option host.Val))
  | [] => pure []
  | none :: rest => do
      let values ← evaluateElements rest
      pure (none :: values)
  | some first :: rest => do
      let value ← first.evaluate
      let values ← evaluateElements rest
      pure (some value :: values)

/-- The values of attributes. -/
def evaluateAttributes : List (String × Expression) → Exec host (List (String × host.Val))
  | [] => pure []
  | (name, first) :: rest => do
      let value ← first.evaluate
      let values ← evaluateAttributes rest
      pure ((name, value) :: values)

/-- The values of the expressions of a template, each converted to text in turn. -/
def evaluateTexts : List Expression → Exec host (List host.Val)
  | [] => pure []
  | first :: rest => do
      let value ← first.evaluate
      let text ← perform (host.toText value)
      let texts ← evaluateTexts rest
      pure (text :: texts)

/-- The property a key names. -/
def PropertyKey.evaluate : PropertyKey → Exec host host.Key
  | .ident name => pure (host.name name)
  | .computed key => andPerform key.evaluate host.toKey
  | .string text => pure (host.name text)
  | .index position => pure (host.index position)

/-- Give an object its properties. -/
def defineAll (object : host.Val) : List ObjectProperty → Exec host PUnit
  | [] => pure ⟨⟩
  | .mk key value :: rest => do
      let property ← key.evaluate
      let content ← value.evaluate
      perform (host.define object property content)
      defineAll object rest

/-- Compute a value and store it in a target. The object and key of a target come
before the value. -/
def AssignTarget.store : AssignTarget → Exec host host.Val → Exec host host.Val
  | .binding binding, value => do
      let content ← value
      writeBinding binding content
      pure content
  | .member object property, value => do
      let holder ← object.evaluate
      let content ← value
      perform (host.setMember holder (host.name property) content)
      pure content
  | .index object key, value => do
      let holder ← object.evaluate
      let position ← key.evaluate
      let content ← value
      let property ← perform (host.toKey position)
      perform (host.setMember holder property content)
      pure content
  | .destructuringArray elements, value => do
      let content ← value
      let iterator ← perform (host.iterate content)
      storeItems iterator elements
      perform (host.close iterator)
      pure content
  | .destructuringArrayRest elements rest, value => do
      let content ← value
      let iterator ← perform (host.iterate content)
      storeItems iterator elements
      let _ ← rest.store (perform (host.collect iterator))
      pure content
  | .destructuringObject properties, value => do
      let content ← value
      perform (host.requireObject content)
      storeFields content properties
      pure content
  | .destructuringObjectRest properties rest, value => do
      let content ← value
      perform (host.requireObject content)
      storeFields content properties
      let _ ← rest.store (perform (host.restOf content (properties.map Prod.fst)))
      pure content
  | .rest target, value => target.store value

/-- Store the next elements of an iterator in the items of an array pattern. -/
def storeItems (iterator : host.Val) :
    List (Option (AssignTarget × Option Expression)) → Exec host PUnit
  | [] => pure ⟨⟩
  | none :: rest => do
      let _ ← nextElement iterator
      storeItems iterator rest
  | some (target, none) :: rest => do
      let _ ← target.store (nextElement iterator)
      storeItems iterator rest
  | some (target, some fallback) :: rest => do
      let _ ← target.store (withDefault fallback.evaluate (nextElement iterator))
      storeItems iterator rest

/-- Store the properties of an object in the fields of an object pattern. -/
def storeFields (object : host.Val) :
    List (String × AssignTarget × Option Expression) → Exec host PUnit
  | [] => pure ⟨⟩
  | (key, target, none) :: rest => do
      let _ ← target.store (perform (host.getMember object (host.name key)))
      storeFields object rest
  | (key, target, some fallback) :: rest => do
      let _ ← target.store
        (withDefault fallback.evaluate (perform (host.getMember object (host.name key))))
      storeFields object rest

end

end HermesDecomp.Ir

namespace HermesDecomp.Ir

variable {host : Host} {α : Type}

/-- The label a comment before a loop gives it. -/
def loopLabel? (text : String) : Option String :=
  let name := (text.toList.dropLast)
  if text.toList.getLast? = some ':' ∧ "label".toList.isPrefixOf name ∧
      name.drop 5 ≠ [] ∧ (name.drop 5).all Char.isDigit then
    some (String.ofList name)
  else none

/-- The register a name spells, for the names of loop variables and catch parameters. -/
def registerNamed? (name : String) : Option Nat :=
  match name.toList with
  | 'r' :: digits =>
      if digits ≠ [] ∧ digits.all Char.isDigit then (String.ofList digits).toNat? else none
  | _ => none

/-- Bind the name of a loop variable or a catch parameter. -/
def bindName (name : String) (value : host.Val) : Exec host PUnit :=
  match registerNamed? name with
  | some register => writeRegister register value
  | none => perform (host.declare .let ⟨name, none⟩ value)

/-- Run a part in a scope of its own, however it ends. -/
def inScope (body : Exec host α) : Exec host α := fun machine =>
  let (outcome, final) := body { machine with world := host.openScope machine.world }
  (outcome, { final with world := host.closeScope final.world })

/-- Run a part, and when it exits hand the exit to `handler`. -/
def onExit (body : Exec host α) (handler : Exit host → Exec host α) : Exec host α :=
  fun machine =>
    match body machine with
    | (.err exit, middle) => handler exit middle
    | ended => ended

/-- Whether a `break` or `continue` names a loop. -/
def Names (jump label : Option String) : Prop := jump = none ∨ jump = label

instance (jump label : Option String) : Decidable (Names jump label) := by
  unfold Names
  infer_instance

/-- A `continue` of this loop ends the body. -/
def catchContinue (label : Option String) (body : Exec host PUnit) : Exec host PUnit :=
  onExit body fun exit =>
    match exit with
    | .continues jump => if Names jump label then pure ⟨⟩ else Action.fail exit
    | _ => Action.fail exit

/-- A `break` of this loop ends the loop. -/
def catchBreak (label : Option String) (loop : Exec host PUnit) : Exec host PUnit :=
  onExit loop fun exit =>
    match exit with
    | .breaks jump => if Names jump label then pure ⟨⟩ else Action.fail exit
    | _ => Action.fail exit

/-- Run an iteration until it answers `false`, at most so many times. -/
def iterate (iteration : Exec host Bool) : Nat → Exec host PUnit
  | 0 => Action.lift .panic
  | fuel + 1 => do
      let again ← iteration
      if again then iterate iteration fuel else pure ⟨⟩

/-- An iteration of a loop that tests first. -/
def testFirst (label : Option String) (condition : Exec host host.Val)
    (body update : Exec host PUnit) : Exec host Bool := do
  let value ← condition
  if host.truthy value then do
    catchContinue label (inScope body)
    update
    pure true
  else pure false

/-- An iteration of a loop that tests last. -/
def testLast (label : Option String) (body : Exec host PUnit) (condition : Exec host host.Val) :
    Exec host Bool := do
  catchContinue label (inScope body)
  let value ← condition
  pure (host.truthy value)

/-- An iteration of a loop over an iterator. -/
def forEach (label : Option String) (iterator : host.Val) (name : String)
    (body : Exec host PUnit) : Exec host Bool := do
  let element ← perform (host.advance iterator)
  match element with
  | none => pure false
  | some value => do
      catchContinue label (inScope (do bindName name value; body))
      pure true

/-- Close an iterator when the loop over it exits. -/
def closing (iterator : host.Val) (loop : Exec host PUnit) : Exec host PUnit :=
  onExit loop fun exit => do
    perform (host.close iterator)
    Action.fail exit

/-- Run the handler of a thrown value. Other exits pass through. -/
def handling (body : Exec host PUnit) (handler : host.Val → Exec host PUnit) : Exec host PUnit :=
  onExit body fun exit =>
    match exit with
    | .throws value => handler value
    | _ => Action.fail exit

/-- Run the final part however the body ends. -/
def finallyDo (body final : Exec host PUnit) : Exec host PUnit := do
  onExit body fun exit => do
    final
    Action.fail exit
  final

/-- The label for the next loop of a list after a statement. -/
def Statement.labelAfter (pending : Option String) : Statement → Option String
  | comment text => (loopLabel? text).or pending
  | whileStmt .. | doWhile .. | forStmt .. | forOf .. | forIn .. => none
  | _ => pending

/-- The meaning of a `delete`. -/
def Expression.delete : Expression → Exec host host.Val
  | .member base property _ => do
      let holder ← base.evaluate
      let key ← property.evaluate
      perform (host.deleteMember holder key)
  | target => andPerform target.evaluate host.deleteValue

/-- A condition that may be absent, which then holds. -/
def evaluateOption : Option Expression → Exec host host.Val
  | none => pure (host.constant (.bool true))
  | some expression => expression.evaluate

mutual

/-- The meaning of a statement, the loop among it having the given label. -/
def Statement.execute (fuel : Nat) (label : Option String) : Statement → Exec host PUnit
  | .expr expression => do
      let _ ← expression.evaluate
      pure ⟨⟩
  | .letStmt name value kind => andPerform value.evaluate (host.declare kind name)
  | .assign target value => do
      let _ ← target.store value.evaluate
      pure ⟨⟩
  | .delete target result => do
      let value ← target.delete
      match result with
      | some register => writeRegister register value
      | none => pure ⟨⟩
  | .returnStmt none => Action.fail (.returns none)
  | .returnStmt (some value) => do
      let result ← value.evaluate
      Action.fail (.returns (some result))
  | .throwStmt value => do
      let thrown ← value.evaluate
      Action.fail (.throws thrown)
  | .debugger => perform host.debugger
  | .comment _ => pure ⟨⟩
  | .breakStmt jump => Action.fail (.breaks jump)
  | .continueStmt jump => Action.fail (.continues jump)
  | .goto target => Action.fail (.jumps target)
  | .condGoto condition target fallthrough =>
      choiceOf condition.evaluate (Action.fail (.jumps target)) (Action.fail (.jumps fallthrough))
  | .ifStmt condition thenBody elseBody =>
      choiceOf condition.evaluate (inScope (executeAll fuel none thenBody))
        (inScope (executeAll fuel none elseBody))
  | .whileStmt condition body =>
      catchBreak label (iterate
        (testFirst label condition.evaluate (executeAll fuel none body) (pure ⟨⟩)) fuel)
  | .doWhile body condition =>
      catchBreak label (iterate
        (testLast label (executeAll fuel none body) condition.evaluate) fuel)
  | .forStmt init condition update body => inScope do
      executeOption fuel init
      catchBreak label (iterate (testFirst label (evaluateOption condition)
        (executeAll fuel none body) (executeOption fuel update)) fuel)
  | .switch discriminant cases default => do
      let value ← discriminant.evaluate
      catchBreak none (inScope (executeCases fuel value (executeDefault fuel default) cases))
  | .forOf name iterable body => do
      let source ← iterable.evaluate
      let iterator ← perform (host.iterate source)
      catchBreak label (closing iterator (iterate
        (forEach label iterator name (executeAll fuel none body)) fuel))
  | .forIn name object body => do
      let source ← object.evaluate
      let iterator ← perform (host.enumerate source)
      catchBreak label (iterate (forEach label iterator name (executeAll fuel none body)) fuel)
  | .tryCatch tryBody catchParam catchBody finallyBody =>
      finallyDo
        (if catchBody.isEmpty ∧ catchParam.isNone then inScope (executeAll fuel none tryBody)
          else handling (inScope (executeAll fuel none tryBody)) fun thrown => inScope do
            bindName (catchParam.getD "e") thrown
            executeAll fuel none catchBody)
        (inScope (executeAll fuel none finallyBody))
  | .block body => inScope (executeAll fuel none body)
  | .classStmt name none constructor methods =>
      perform (host.defineClass name none constructor methods)
  | .classStmt name (some superClass) constructor methods => do
      let base ← superClass.evaluate
      perform (host.defineClass name (some base) constructor methods)

/-- The meaning of a list of statements, `pending` being the label for its next loop. -/
def executeAll (fuel : Nat) (pending : Option String) : List Statement → Exec host PUnit
  | [] => pure ⟨⟩
  | first :: rest => do
      first.execute fuel pending
      executeAll fuel (first.labelAfter pending) rest

/-- A statement that may be absent. -/
def executeOption (fuel : Nat) : Option Statement → Exec host PUnit
  | none => pure ⟨⟩
  | some statement => statement.execute fuel none

/-- The default of a switch. -/
def executeDefault (fuel : Nat) : Option (List Statement) → Exec host PUnit
  | none => pure ⟨⟩
  | some body => executeAll fuel none body

/-- The first case that equals the value. -/
def executeCases (fuel : Nat) (value : host.Val) (otherwise : Exec host PUnit) :
    List (Expression × List Statement) → Exec host PUnit
  | [] => otherwise
  | (test, body) :: rest => do
      let candidate ← test.evaluate
      if host.strictEqual value candidate then executeAll fuel none body
      else executeCases fuel value otherwise rest

end

end HermesDecomp.Ir
