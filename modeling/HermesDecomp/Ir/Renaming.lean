import HermesDecomp.Ir.Run

/-!
# Renaming reads keeps the meaning

Under a relation of machines that lets each renamed read find the value of the original
one, and that the writes of the code keep, code with renamed reads agrees with the
original. The reads and writes asked about are those of the code itself, so the
premises of a whole are those of its parts.
-/

namespace HermesDecomp.Ir

open Action

variable {host : Host} {related : Machine host → Machine host → Prop} {map : Nat → Nat}

/-- A relation under which each of the reads finds its value at the renamed register,
kept by each of the writes. -/
structure Renames (related : Machine host → Machine host → Prop) (map : Nat → Nat)
    (reads writes : List Nat) : Prop extends Compatible related where
  read : ∀ register ∈ reads, ∀ {machine machine'}, related machine machine' →
    machine.read register = machine'.read (map register)
  write : ∀ register ∈ writes, ∀ value {machine machine'}, related machine machine' →
    related (machine.write register value) (machine'.write register value)

theorem Renames.append {reads reads' writes writes' : List Nat}
    (renames : Renames related map (reads ++ reads') (writes ++ writes')) :
    Renames related map reads writes ∧ Renames related map reads' writes' := by
  constructor
  · exact ⟨renames.toCompatible,
      fun register member => renames.read register (List.mem_append_left _ member),
      fun register member => renames.write register (List.mem_append_left _ member)⟩
  · exact ⟨renames.toCompatible,
      fun register member => renames.read register (List.mem_append_right _ member),
      fun register member => renames.write register (List.mem_append_right _ member)⟩

/-- What is asked of a part, by the walk that collects its places. -/
abbrev RenamesFor (related : Machine host → Machine host → Prop) (map : Nat → Nat)
    (visit : Visitor Nat → List Nat) : Prop :=
  Renames related map (visit readVisitor) (visit writeVisitor)

theorem agree_evaluateValue (value : Value)
    (renames : RenamesFor related map fun visitor => (Expression.value value).visit visitor) :
    Agree related (Expression.value value).evaluate
      ((Expression.value value).rewriteReads map).evaluate := by
  cases value with
  | binding place =>
    cases place with
    | register register =>
      intro machine machine' start
      have found := renames.read register (by simp [Expression.visit, readVisitor,
        Binding.register?]) start
      exact ⟨congrArg Outcome.ok found, start⟩
    | «variable» name => exact agree_perform renames.toCompatible _
    | closureVar level slot => exact agree_perform renames.toCompatible _
  | constant | this | global | parameter | arguments | newTarget | super => exact agree_pure _

theorem agree_writeRegister {register : Nat} {reads writes : List Nat}
    (renames : Renames related map reads writes) (member : register ∈ writes) (value : host.Val) :
    Agree related (writeRegister register value) (writeRegister register value) := by
  intro machine machine' start
  exact ⟨rfl, renames.write register member value start⟩

theorem agree_writeBinding (place : Binding) {reads : List Nat}
    (renames : Renames related map reads (writeVisitor.onWrite place)) (value : host.Val) :
    Agree related (writeBinding place value) (writeBinding place value) := by
  cases place with
  | register register =>
    exact agree_writeRegister renames (by simp [writeVisitor, Binding.register?]) value
  | «variable» | closureVar => exact agree_perform renames.toCompatible _

/-- Renaming the reads of a pattern keeps its keys. -/
theorem rewriteFields_keys (fields : List (String × AssignTarget × Option Expression)) :
    (rewriteFields map fields).map Prod.fst = fields.map Prod.fst := by
  induction fields with
  | nil => rfl
  | cons field rest ih =>
    obtain ⟨key, _, _ | _⟩ := field <;> exact congrArg (key :: ·) ih

mutual

theorem Expression.agree_rewriteReads : ∀ expression : Expression,
    RenamesFor related map expression.visit →
      Agree related expression.evaluate (expression.rewriteReads map).evaluate
  | .value value, renames => agree_evaluateValue value renames
  | .binary op left right, renames => by
    obtain ⟨onLeft, onRight⟩ := renames.append
    exact agree_binaryOf renames.toCompatible op (left.agree_rewriteReads onLeft)
      (right.agree_rewriteReads onRight)
  | .unary op operand, renames | .spread operand, renames | .await operand, renames =>
    agree_andPerform renames.toCompatible (operand.agree_rewriteReads renames) _
  | .conditional condition thenExpr elseExpr, renames => by
    obtain ⟨onCondition, onArms⟩ := renames.append
    obtain ⟨onThen, onElse⟩ := onArms.append
    exact agree_choiceOf (condition.agree_rewriteReads onCondition)
      (thenExpr.agree_rewriteReads onThen) (elseExpr.agree_rewriteReads onElse)
  | .member object property optional, renames => by
    obtain ⟨onObject, onProperty⟩ := renames.append
    exact agree_memberOf renames.toCompatible optional (object.agree_rewriteReads onObject)
      (property.agree_rewriteReads onProperty)
  | .call callee arguments, renames | .new callee arguments, renames => by
    obtain ⟨onCallee, onArguments⟩ := renames.append
    exact agree_thenPerform renames.toCompatible (callee.agree_rewriteReads onCallee)
      (agree_rewriteAll arguments onArguments) _
  | .array elements, renames =>
    agree_andPerform renames.toCompatible (agree_rewriteElements elements renames) _
  | .object properties, renames => by
    apply agree_bind (agree_perform renames.toCompatible _)
    intro object
    exact agree_bind (agree_rewriteProperties object properties renames) fun _ => agree_pure _
  | .function id name isArrow isAsync isGenerator, renames | .regExp pattern flags, renames
  | .unknown opcode operands, renames => agree_perform renames.toCompatible _
  | .assignment target value, renames => by
    obtain ⟨onTarget, onValue⟩ := renames.append
    exact target.agree_rewriteReads onTarget (value.agree_rewriteReads onValue)
  | .templateLiteral quasis expressions, renames =>
    agree_andPerform renames.toCompatible (agree_rewriteTexts expressions renames) _
  | .yield value delegate, renames =>
    agree_andPerform renames.toCompatible (value.agree_rewriteReads renames) _
  | .jsxElement tag attributes children, renames => by
    obtain ⟨onAttributes, onChildren⟩ := renames.append
    exact agree_thenPerform renames.toCompatible (agree_rewriteAttributes attributes onAttributes)
      (agree_rewriteAll children onChildren) _

theorem agree_rewriteAll : ∀ expressions,
    RenamesFor related map (fun visitor => visitAll visitor expressions) →
      Agree related (evaluateAll expressions) (evaluateAll (rewriteAll map expressions))
  | [], _ => agree_pure _
  | first :: rest, renames => by
    obtain ⟨onFirst, onRest⟩ := renames.append
    apply agree_bind (first.agree_rewriteReads onFirst)
    intro value
    exact agree_bind (agree_rewriteAll rest onRest) fun _ => agree_pure _

theorem agree_rewriteElements : ∀ elements,
    RenamesFor related map (fun visitor => visitElements visitor elements) →
      Agree related (evaluateElements elements) (evaluateElements (rewriteElements map elements))
  | [], _ => agree_pure _
  | none :: rest, renames => agree_bind (agree_rewriteElements rest renames) fun _ => agree_pure _
  | some first :: rest, renames => by
    obtain ⟨onFirst, onRest⟩ := renames.append
    apply agree_bind (first.agree_rewriteReads onFirst)
    intro value
    exact agree_bind (agree_rewriteElements rest onRest) fun _ => agree_pure _

theorem agree_rewriteAttributes : ∀ attributes,
    RenamesFor related map (fun visitor => visitAttributes visitor attributes) →
      Agree related (evaluateAttributes attributes)
        (evaluateAttributes (rewriteAttributes map attributes))
  | [], _ => agree_pure _
  | (name, first) :: rest, renames => by
    obtain ⟨onFirst, onRest⟩ := renames.append
    apply agree_bind (first.agree_rewriteReads onFirst)
    intro value
    exact agree_bind (agree_rewriteAttributes rest onRest) fun _ => agree_pure _

theorem agree_rewriteTexts : ∀ expressions,
    RenamesFor related map (fun visitor => visitAll visitor expressions) →
      Agree related (evaluateTexts expressions) (evaluateTexts (rewriteAll map expressions))
  | [], _ => agree_pure _
  | first :: rest, renames => by
    obtain ⟨onFirst, onRest⟩ := renames.append
    apply agree_bind (first.agree_rewriteReads onFirst)
    intro value
    apply agree_bind (agree_perform renames.toCompatible _)
    intro text
    exact agree_bind (agree_rewriteTexts rest onRest) fun _ => agree_pure _

theorem PropertyKey.agree_rewriteReads : ∀ key : PropertyKey,
    RenamesFor related map key.visit → Agree related key.evaluate (key.rewriteReads map).evaluate
  | .ident _, _ | .string _, _ | .index _, _ => agree_pure _
  | .computed key, renames =>
    agree_andPerform renames.toCompatible (key.agree_rewriteReads renames) _

theorem agree_rewriteProperties (object : host.Val) : ∀ properties,
    RenamesFor related map (fun visitor => visitProperties visitor properties) →
      Agree related (defineAll object properties) (defineAll object (rewriteProperties map properties))
  | [], _ => agree_pure _
  | .mk key value :: rest, renames => by
    obtain ⟨onKey, onTail⟩ := renames.append
    obtain ⟨onValue, onRest⟩ := onTail.append
    apply agree_bind (key.agree_rewriteReads onKey)
    intro property
    apply agree_bind (value.agree_rewriteReads onValue)
    intro content
    apply agree_bind (agree_perform renames.toCompatible _)
    intro _
    exact agree_rewriteProperties object rest onRest

theorem AssignTarget.agree_rewriteReads : ∀ target : AssignTarget,
    RenamesFor related map target.visit →
      ∀ {value value' : Exec host host.Val}, Agree related value value' →
        Agree related (target.store value) ((target.rewriteReads map).store value')
  | .binding place, renames, _, _, agree => by
    apply agree_bind agree
    intro content
    exact agree_bind (agree_writeBinding place renames content) fun _ => agree_pure _
  | .member object property, renames, _, _, agree => by
    apply agree_bind (object.agree_rewriteReads renames)
    intro holder
    apply agree_bind agree
    intro content
    exact agree_bind (agree_perform renames.toCompatible _) fun _ => agree_pure _
  | .index object key, renames, _, _, agree => by
    obtain ⟨onObject, onKey⟩ := renames.append
    apply agree_bind (object.agree_rewriteReads onObject)
    intro holder
    apply agree_bind (key.agree_rewriteReads onKey)
    intro position
    apply agree_bind agree
    intro content
    apply agree_bind (agree_perform renames.toCompatible _)
    intro property
    exact agree_bind (agree_perform renames.toCompatible _) fun _ => agree_pure _
  | .destructuringArray elements, renames, _, _, agree => by
    apply agree_bind agree
    intro content
    apply agree_bind (agree_perform renames.toCompatible _)
    intro iterator
    apply agree_bind (agree_rewriteItems iterator elements renames)
    intro _
    exact agree_bind (agree_perform renames.toCompatible _) fun _ => agree_pure _
  | .destructuringArrayRest elements rest, renames, _, _, agree => by
    obtain ⟨onElements, onRest⟩ := renames.append
    apply agree_bind agree
    intro content
    apply agree_bind (agree_perform renames.toCompatible _)
    intro iterator
    apply agree_bind (agree_rewriteItems iterator elements onElements)
    intro _
    exact agree_bind (rest.agree_rewriteReads onRest (agree_perform renames.toCompatible _))
      fun _ => agree_pure _
  | .destructuringObject properties, renames, _, _, agree => by
    apply agree_bind agree
    intro content
    apply agree_bind (agree_perform renames.toCompatible _)
    intro _
    exact agree_bind (agree_rewriteFields content properties renames) fun _ => agree_pure _
  | .destructuringObjectRest properties rest, renames, _, _, agree => by
    obtain ⟨onProperties, onRest⟩ := renames.append
    apply agree_bind agree
    intro content
    apply agree_bind (agree_perform renames.toCompatible _)
    intro _
    apply agree_bind (agree_rewriteFields content properties onProperties)
    intro _
    rw [rewriteFields_keys]
    exact agree_bind (rest.agree_rewriteReads onRest (agree_perform renames.toCompatible _))
      fun _ => agree_pure _
  | .rest target, renames, _, _, agree => target.agree_rewriteReads renames agree

theorem agree_rewriteItems (iterator : host.Val) :
    ∀ items, RenamesFor related map (fun visitor => visitItems visitor items) →
        Agree related (storeItems iterator items) (storeItems iterator (rewriteItems map items))
  | [], _ => agree_pure _
  | none :: rest, renames => by
    apply agree_bind (agree_nextElement renames.toCompatible _)
    intro _
    exact agree_rewriteItems iterator rest renames
  | some (target, none) :: rest, renames => by
    obtain ⟨onTarget, onRest⟩ := renames.append
    apply agree_bind (target.agree_rewriteReads onTarget (agree_nextElement renames.toCompatible _))
    intro _
    exact agree_rewriteItems iterator rest onRest
  | some (target, some fallback) :: rest, renames => by
    obtain ⟨onTarget, onTail⟩ := renames.append
    obtain ⟨onFallback, onRest⟩ := onTail.append
    apply agree_bind (target.agree_rewriteReads onTarget (agree_withDefault
      (fallback.agree_rewriteReads onFallback) (agree_nextElement renames.toCompatible _)))
    intro _
    exact agree_rewriteItems iterator rest onRest

theorem agree_rewriteFields (object : host.Val) :
    ∀ fields, RenamesFor related map (fun visitor => visitFields visitor fields) →
        Agree related (storeFields object fields) (storeFields object (rewriteFields map fields))
  | [], _ => agree_pure _
  | (key, target, none) :: rest, renames => by
    obtain ⟨onTarget, onRest⟩ := renames.append
    apply agree_bind (target.agree_rewriteReads onTarget (agree_perform renames.toCompatible _))
    intro _
    exact agree_rewriteFields object rest onRest
  | (key, target, some fallback) :: rest, renames => by
    obtain ⟨onTarget, onTail⟩ := renames.append
    obtain ⟨onFallback, onRest⟩ := onTail.append
    apply agree_bind (target.agree_rewriteReads onTarget (agree_withDefault
      (fallback.agree_rewriteReads onFallback) (agree_perform renames.toCompatible _)))
    intro _
    exact agree_rewriteFields object rest onRest

end

theorem agree_rewriteOption : ∀ expression : Option Expression,
    RenamesFor related map (fun visitor => visitOption visitor expression) →
      Agree related (evaluateOption expression)
        (evaluateOption (expression.map (·.rewriteReads map)))
  | none, _ => agree_pure _
  | some expression, renames => expression.agree_rewriteReads renames

theorem agree_bindName (name : String) {reads : List Nat}
    (renames : Renames related map reads (visitName writeVisitor name)) (value : host.Val) :
    Agree related (bindName name value) (bindName name value) := by
  unfold bindName
  unfold visitName at renames
  cases named : registerNamed? name with
  | none => exact agree_perform renames.toCompatible _
  | some register =>
    rw [named] at renames
    exact agree_writeRegister renames (by simp [writeVisitor, Binding.register?]) value

theorem agree_delete (target : Expression) (renames : RenamesFor related map target.visit) :
    Agree related target.delete (target.rewriteReads map).delete := by
  cases target with
  | member object property optional =>
    obtain ⟨onObject, onProperty⟩ := renames.append
    apply agree_bind (object.agree_rewriteReads onObject)
    intro holder
    apply agree_bind (property.agree_rewriteReads onProperty)
    intro key
    exact agree_perform renames.toCompatible _
  | value value =>
    have agree := (Expression.value value).agree_rewriteReads renames
    rcases value with ⟨_ | _ | _⟩ | _ | _ | _ | _ | _ | _ | _ <;>
      exact agree_andPerform renames.toCompatible agree _
  | _ => exact agree_andPerform renames.toCompatible (Expression.agree_rewriteReads _ renames) _

/-- A statement gives the same label to the next loop after its reads are renamed. -/
theorem labelAfter_rewriteReads (statement : Statement) (pending : Option String) :
    (statement.rewriteReads map).labelAfter pending = statement.labelAfter pending := by
  cases statement <;> rfl

theorem isEmpty_rewriteStatements (statements : List Statement) :
    (rewriteStatements map statements).isEmpty = statements.isEmpty := by
  cases statements <;> rfl

section

variable (fuel : Nat)

mutual

theorem Statement.agree_rewriteReads : ∀ (statement : Statement)
    (label : Option String), RenamesFor related map statement.visit →
      Agree related (statement.execute fuel label) ((statement.rewriteReads map).execute fuel label)
  | .expr expression, _, renames =>
    agree_bind (expression.agree_rewriteReads renames) fun _ => agree_pure _
  | .letStmt name value kind, _, renames =>
    agree_andPerform renames.toCompatible (value.agree_rewriteReads renames) _
  | .assign target value, _, renames => by
    obtain ⟨onTarget, onValue⟩ := renames.append
    exact agree_bind (target.agree_rewriteReads onTarget (value.agree_rewriteReads onValue))
      fun _ => agree_pure _
  | .delete target result, _, renames => by
    obtain ⟨onTarget, onResult⟩ := renames.append
    apply agree_bind (agree_delete target onTarget)
    intro value
    cases result with
    | none => exact agree_pure _
    | some register =>
      exact agree_writeRegister onResult (by simp [writeVisitor, Binding.register?]) value
  | .returnStmt none, _, _ | .breakStmt _, _, _ | .continueStmt _, _, _ | .goto _, _, _ => agree_fail _
  | .returnStmt (some value), _, renames | .throwStmt value, _, renames =>
    agree_bind (value.agree_rewriteReads renames) fun _ => agree_fail _
  | .debugger, _, renames | .classStmt _ none _ _, _, renames => agree_perform renames.toCompatible _
  | .comment _, _, _ => agree_pure _
  | .condGoto condition _ _, _, renames =>
    agree_choiceOf (condition.agree_rewriteReads renames) (agree_fail _) (agree_fail _)
  | .ifStmt condition thenBody elseBody, _, renames => by
    obtain ⟨onCondition, onArms⟩ := renames.append
    obtain ⟨onThen, onElse⟩ := onArms.append
    exact agree_choiceOf (condition.agree_rewriteReads onCondition)
      (agree_inScope renames.toCompatible (agree_rewriteStatements thenBody none onThen))
      (agree_inScope renames.toCompatible (agree_rewriteStatements elseBody none onElse))
  | .whileStmt condition body, label, renames => by
    obtain ⟨onCondition, onBody⟩ := renames.append
    apply agree_catchBreak
    apply agree_iterate
    exact agree_testFirst renames.toCompatible label (condition.agree_rewriteReads onCondition)
      (agree_rewriteStatements body none onBody) (agree_pure _)
  | .doWhile body condition, label, renames => by
    obtain ⟨onBody, onCondition⟩ := renames.append
    apply agree_catchBreak
    apply agree_iterate
    exact agree_testLast renames.toCompatible label (agree_rewriteStatements body none onBody)
      (condition.agree_rewriteReads onCondition)
  | .forStmt init condition update body, label, renames => by
    obtain ⟨onInit, onTail⟩ := renames.append
    obtain ⟨onCondition, onTail⟩ := onTail.append
    obtain ⟨onUpdate, onBody⟩ := onTail.append
    apply agree_inScope renames.toCompatible
    apply agree_bind (agree_rewriteStatement init onInit)
    intro _
    apply agree_catchBreak
    apply agree_iterate
    exact agree_testFirst renames.toCompatible label (agree_rewriteOption condition onCondition)
      (agree_rewriteStatements body none onBody) (agree_rewriteStatement update onUpdate)
  | .switch discriminant cases default, _, renames => by
    obtain ⟨onDiscriminant, onTail⟩ := renames.append
    obtain ⟨onCases, onDefault⟩ := onTail.append
    apply agree_bind (discriminant.agree_rewriteReads onDiscriminant)
    intro value
    apply agree_catchBreak
    apply agree_inScope renames.toCompatible
    exact agree_rewriteCases value cases onCases (agree_rewriteDefault default onDefault)
  | .forOf name iterable body, label, renames => by
    obtain ⟨onName, onTail⟩ := renames.append
    obtain ⟨onIterable, onBody⟩ := onTail.append
    apply agree_bind (iterable.agree_rewriteReads onIterable)
    intro source
    apply agree_bind (agree_perform renames.toCompatible _)
    intro iterator
    apply agree_catchBreak
    apply agree_closing renames.toCompatible
    apply agree_iterate
    exact agree_forEach renames.toCompatible label iterator name (agree_bindName name onName)
      (agree_rewriteStatements body none onBody)
  | .forIn name object body, label, renames => by
    obtain ⟨onName, onTail⟩ := renames.append
    obtain ⟨onObject, onBody⟩ := onTail.append
    apply agree_bind (object.agree_rewriteReads onObject)
    intro source
    apply agree_bind (agree_perform renames.toCompatible _)
    intro iterator
    apply agree_catchBreak
    apply agree_iterate
    exact agree_forEach renames.toCompatible label iterator name (agree_bindName name onName)
      (agree_rewriteStatements body none onBody)
  | .tryCatch tryBody catchParam catchBody finallyBody, _, renames => by
    obtain ⟨onName, onTail⟩ := renames.append
    obtain ⟨onTry, onTail⟩ := onTail.append
    obtain ⟨onCatch, onFinally⟩ := onTail.append
    have agreeTry := agree_inScope renames.toCompatible (agree_rewriteStatements tryBody none onTry)
    apply agree_finallyDo
    · rw [isEmpty_rewriteStatements]
      apply agree_ite agreeTry
      apply agree_handling agreeTry
      intro thrown
      apply agree_inScope renames.toCompatible
      apply agree_bind (agree_bindName _ onName thrown)
      intro _
      exact agree_rewriteStatements catchBody none onCatch
    · exact agree_inScope renames.toCompatible (agree_rewriteStatements finallyBody none onFinally)
  | .block body, _, renames =>
    agree_inScope renames.toCompatible (agree_rewriteStatements body none renames)
  | .classStmt _ (some superClass) _ _, _, renames => by
    apply agree_bind (superClass.agree_rewriteReads renames)
    intro base
    exact agree_perform renames.toCompatible _

theorem agree_rewriteStatements : ∀ (statements : List Statement)
    (pending : Option String), RenamesFor related map (fun visitor => visitStatements visitor statements) →
      Agree related (executeAll fuel pending statements)
        (executeAll fuel pending (rewriteStatements map statements))
  | [], _, _ => agree_pure _
  | first :: rest, pending, renames => by
    obtain ⟨onFirst, onRest⟩ := renames.append
    apply agree_bind (first.agree_rewriteReads pending onFirst)
    intro _
    rw [labelAfter_rewriteReads]
    exact agree_rewriteStatements rest _ onRest

theorem agree_rewriteStatement : ∀ statement,
    RenamesFor related map (fun visitor => visitStatement visitor statement) →
      Agree related (executeOption fuel statement)
        (executeOption fuel (rewriteStatement map statement))
  | none, _ => agree_pure _
  | some statement, renames => statement.agree_rewriteReads none renames

theorem agree_rewriteDefault : ∀ default,
    RenamesFor related map (fun visitor => visitDefault visitor default) →
      Agree related (executeDefault fuel default) (executeDefault fuel (rewriteDefault map default))
  | none, _ => agree_pure _
  | some body, renames => agree_rewriteStatements body none renames

theorem agree_rewriteCases (value : host.Val) :
    ∀ cases, RenamesFor related map (fun visitor => visitCases visitor cases) →
        ∀ {otherwise otherwise' : Exec host PUnit}, Agree related otherwise otherwise' →
          Agree related (executeCases fuel value otherwise cases)
            (executeCases fuel value otherwise' (rewriteCases map cases))
  | [], _, _, _, agree => agree
  | (test, body) :: rest, renames, _, _, agree => by
    obtain ⟨onTest, onTail⟩ := renames.append
    obtain ⟨onBody, onRest⟩ := onTail.append
    apply agree_bind (test.agree_rewriteReads onTest)
    intro candidate
    exact agree_ite (agree_rewriteStatements body none onBody)
      (agree_rewriteCases value rest onRest agree)

end

end

end HermesDecomp.Ir
