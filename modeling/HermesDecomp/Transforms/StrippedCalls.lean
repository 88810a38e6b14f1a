import HermesDecomp.Transforms.MethodReads

/-!
# What a stripped call passes

Where the hand-written walk can reach every call, it rewrites each of them once, as the visitor
would. The strip keeps the function and the arguments, and leaves the function the receiver that
its own spelling gives: the object of a member, and none otherwise.
-/

namespace HermesDecomp.Ir

mutual

/-- Every call of an expression stands where the strip goes. -/
def Expression.Reached : Expression → Prop
  | .call callee arguments => callee.Reached ∧ ReachedAll arguments
  | .binary _ left right => left.Reached ∧ right.Reached
  | .unary _ operand => operand.Reached
  | .new callee arguments => callee.Reached ∧ ReachedAll arguments
  | .member base property _ => base.Reached ∧ property.CallFree
  | .conditional condition thenExpr elseExpr =>
      condition.Reached ∧ thenExpr.Reached ∧ elseExpr.Reached
  | .array elements => ReachedElements elements
  | .object properties => ReachedProperties properties
  | .assignment target value => target.Reached ∧ value.Reached
  | .spread operand => operand.Reached
  | .templateLiteral _ expressions => ReachedAll expressions
  | .yield value _ => value.Reached
  | .await operand => operand.Reached
  | .jsxElement tag attributes children => (Expression.jsxElement tag attributes children).CallFree
  | .value _ | .function .. | .regExp .. | .unknown .. => True

def ReachedAll : List Expression → Prop
  | [] => True
  | first :: rest => first.Reached ∧ ReachedAll rest

def ReachedElements : List (Option Expression) → Prop
  | [] => True
  | none :: rest => ReachedElements rest
  | some first :: rest => first.Reached ∧ ReachedElements rest

def ReachedProperties : List ObjectProperty → Prop
  | [] => True
  | .mk key value :: rest => key.CallFree ∧ value.Reached ∧ ReachedProperties rest

/-- The target of an assignment expression. -/
def AssignTarget.Reached : AssignTarget → Prop
  | .binding _ => True
  | .member base _ => base.Reached
  | .index base key => base.Reached ∧ key.Reached
  | .destructuringArray elements => ReachedItems elements
  | .destructuringArrayRest elements rest => ReachedItems elements ∧ rest.Reached
  | .destructuringObject properties => ReachedFields properties
  | .destructuringObjectRest properties rest => ReachedFields properties ∧ rest.Reached
  | .rest target => target.Reached

def ReachedItems : List (Option (AssignTarget × Option Expression)) → Prop
  | [] => True
  | none :: rest => ReachedItems rest
  | some (target, none) :: rest => target.Reached ∧ ReachedItems rest
  | some (target, some fallback) :: rest => target.Reached ∧ fallback.Reached ∧ ReachedItems rest

def ReachedFields : List (String × AssignTarget × Option Expression) → Prop
  | [] => True
  | (_, target, none) :: rest => target.Reached ∧ ReachedFields rest
  | (_, target, some fallback) :: rest => target.Reached ∧ fallback.Reached ∧ ReachedFields rest

end

/-- The target of an assignment statement. -/
def AssignTarget.Stored : AssignTarget → Prop
  | .member base _ => base.Reached
  | .index base key => base.Reached ∧ key.Reached
  | target => target.CallFree

mutual

/-- Every call of a statement stands where the strip goes. The bodies of a class are
stripped when the class is built. -/
def Statement.Reached : Statement → Prop
  | .assign target value => target.Stored ∧ value.Reached
  | .letStmt _ value _ => value.Reached
  | .expr expression => expression.Reached
  | .returnStmt value => ∀ expression ∈ value, expression.Reached
  | .throwStmt value => value.Reached
  | .ifStmt condition thenBody elseBody =>
      condition.Reached ∧ ReachedList thenBody ∧ ReachedList elseBody
  | .whileStmt condition body => condition.Reached ∧ ReachedList body
  | .doWhile body condition => ReachedList body ∧ condition.Reached
  | .forStmt init condition update body =>
      ReachedOption init ∧ (∀ expression ∈ condition, expression.Reached) ∧
        ReachedOption update ∧ ReachedList body
  | .forIn _ base body => base.Reached ∧ ReachedList body
  | .forOf _ iterable body => iterable.Reached ∧ ReachedList body
  | .block body => ReachedList body
  | .tryCatch tryBody _ catchBody finallyBody =>
      ReachedList tryBody ∧ ReachedList catchBody ∧ ReachedList finallyBody
  | .switch discriminant cases default =>
      discriminant.Reached ∧ ReachedCases cases ∧ ReachedDefault default
  | .delete target _ => target.CallFree
  | .condGoto condition _ _ => condition.CallFree
  | .classStmt _ superClass _ _ => ∀ expression ∈ superClass, expression.CallFree
  | .debugger | .comment _ | .breakStmt _ | .continueStmt _ | .goto _ => True

def ReachedList : List Statement → Prop
  | [] => True
  | first :: rest => first.Reached ∧ ReachedList rest

def ReachedOption : Option Statement → Prop
  | none => True
  | some statement => statement.Reached

def ReachedDefault : Option (List Statement) → Prop
  | none => True
  | some body => ReachedList body

def ReachedCases : List (Expression × List Statement) → Prop
  | [] => True
  | (test, body) :: rest => test.Reached ∧ ReachedList body ∧ ReachedCases rest

end

section Walk

variable (methods : List (Binding × Expression))

/-- Naming the receiver of a call leaves the walk with the parts it had. -/
theorem stripThis_keepCall {callee : Expression} {arguments : List Expression}
    (calleeWalk : callee.stripThis = callee.rewriteCalls stripCall)
    (argumentsWalk : stripThisAll arguments = rewriteCallsAll stripCall arguments) :
    (keepCall methods callee arguments).stripThis =
      (keepCall methods callee arguments).rewriteCalls stripCall := by
  have plain : (Expression.call callee arguments).stripThis =
      (Expression.call callee arguments).rewriteCalls stripCall := by
    simp [Expression.stripThis, Expression.rewriteCalls, calleeWalk, argumentsWalk]
  unfold keepCall
  split
  · split
    · simp only [throughCall, Expression.stripThis, Expression.rewriteCalls,
        PropertyKey.rewriteCalls, stripThisAll, rewriteCallsAll] at argumentsWalk ⊢
      rw [argumentsWalk]
    · exact plain
  · exact plain

attribute [local simp] Expression.rewriteCalls Expression.stripThis rewriteCallsAll stripThisAll
  rewriteCallsElements stripThisElements rewriteCallsProperties stripThisProperties
  AssignTarget.rewriteCalls AssignTarget.stripExpressions rewriteCallsItems stripThisItems
  rewriteCallsFields stripThisFields AssignTarget.stripThis Statement.rewriteCalls
  Statement.stripThis rewriteCallsStatements stripList rewriteCallsStatement stripOption
  rewriteCallsDefault stripDefault rewriteCallsCases stripCases

mutual

/-- The strip of an expression with named receivers rewrites each call once. -/
theorem Expression.stripThis_eq : ∀ expression : Expression, expression.Reached →
    (expression.rewriteCalls (keepCall methods)).stripThis =
      (expression.rewriteCalls (keepCall methods)).rewriteCalls stripCall
  | .call callee arguments, reached => by
    rw [Expression.rewriteCalls]
    exact stripThis_keepCall methods (callee.stripThis_eq reached.1)
      (stripThisAll_eq arguments reached.2)
  | .binary op left right, reached => by
    simp [left.stripThis_eq reached.1, right.stripThis_eq reached.2]
  | .unary op operand, reached | .spread operand, reached | .await operand, reached => by
    simp [operand.stripThis_eq reached]
  | .new callee arguments, reached => by
    simp [callee.stripThis_eq reached.1, stripThisAll_eq arguments reached.2]
  | .member base property optional, reached => by
    simp [base.stripThis_eq reached.1, reached.2 (keepCall methods), reached.2 stripCall]
  | .conditional condition thenExpr elseExpr, reached => by
    simp [condition.stripThis_eq reached.1, thenExpr.stripThis_eq reached.2.1,
      elseExpr.stripThis_eq reached.2.2]
  | .array elements, reached => by simp [stripThisElements_eq elements reached]
  | .object properties, reached => by simp [stripThisProperties_eq properties reached]
  | .assignment target value, reached => by
    simp [target.stripExpressions_eq reached.1, value.stripThis_eq reached.2]
  | .templateLiteral quasis expressions, reached => by simp [stripThisAll_eq expressions reached]
  | .yield value delegate, reached => by simp [value.stripThis_eq reached]
  | .jsxElement tag attributes children, free => by
    rw [free (keepCall methods), free stripCall, Expression.stripThis]
  | .value value, _ | .function id name isArrow isAsync isGenerator, _
  | .regExp pattern flags, _ | .unknown opcode operands, _ => by simp

theorem stripThisAll_eq : ∀ expressions, ReachedAll expressions →
    stripThisAll (rewriteCallsAll (keepCall methods) expressions) =
      rewriteCallsAll stripCall (rewriteCallsAll (keepCall methods) expressions)
  | [], _ => by simp
  | first :: rest, reached => by simp [first.stripThis_eq reached.1, stripThisAll_eq rest reached.2]

theorem stripThisElements_eq : ∀ elements, ReachedElements elements →
    stripThisElements (rewriteCallsElements (keepCall methods) elements) =
      rewriteCallsElements stripCall (rewriteCallsElements (keepCall methods) elements)
  | [], _ => by simp
  | none :: rest, reached => by simp [stripThisElements_eq rest reached]
  | some first :: rest, reached => by
    simp [first.stripThis_eq reached.1, stripThisElements_eq rest reached.2]

theorem stripThisProperties_eq : ∀ properties, ReachedProperties properties →
    stripThisProperties (rewriteCallsProperties (keepCall methods) properties) =
      rewriteCallsProperties stripCall (rewriteCallsProperties (keepCall methods) properties)
  | [], _ => by simp
  | .mk key value :: rest, reached => by
    simp [reached.1 (keepCall methods), reached.1 stripCall, value.stripThis_eq reached.2.1,
      stripThisProperties_eq rest reached.2.2]

theorem AssignTarget.stripExpressions_eq : ∀ target : AssignTarget, target.Reached →
    (target.rewriteCalls (keepCall methods)).stripExpressions =
      (target.rewriteCalls (keepCall methods)).rewriteCalls stripCall
  | .binding binding, _ => by simp
  | .member base property, reached => by simp [base.stripThis_eq reached]
  | .index base key, reached => by simp [base.stripThis_eq reached.1, key.stripThis_eq reached.2]
  | .destructuringArray elements, reached => by simp [stripThisItems_eq elements reached]
  | .destructuringArrayRest elements rest, reached => by
    simp [stripThisItems_eq elements reached.1, rest.stripExpressions_eq reached.2]
  | .destructuringObject properties, reached => by simp [stripThisFields_eq properties reached]
  | .destructuringObjectRest properties rest, reached => by
    simp [stripThisFields_eq properties reached.1, rest.stripExpressions_eq reached.2]
  | .rest target, reached => by simp [target.stripExpressions_eq reached]

theorem stripThisItems_eq : ∀ items, ReachedItems items →
    stripThisItems (rewriteCallsItems (keepCall methods) items) =
      rewriteCallsItems stripCall (rewriteCallsItems (keepCall methods) items)
  | [], _ => by simp
  | none :: rest, reached => by simp [stripThisItems_eq rest reached]
  | some (target, none) :: rest, reached => by
    simp [target.stripExpressions_eq reached.1, stripThisItems_eq rest reached.2]
  | some (target, some fallback) :: rest, reached => by
    simp [target.stripExpressions_eq reached.1, fallback.stripThis_eq reached.2.1,
      stripThisItems_eq rest reached.2.2]

theorem stripThisFields_eq : ∀ fields, ReachedFields fields →
    stripThisFields (rewriteCallsFields (keepCall methods) fields) =
      rewriteCallsFields stripCall (rewriteCallsFields (keepCall methods) fields)
  | [], _ => by simp
  | (key, target, none) :: rest, reached => by
    simp [target.stripExpressions_eq reached.1, stripThisFields_eq rest reached.2]
  | (key, target, some fallback) :: rest, reached => by
    simp [target.stripExpressions_eq reached.1, fallback.stripThis_eq reached.2.1,
      stripThisFields_eq rest reached.2.2]

end

/-- The strip of an expression that may be absent. -/
theorem map_stripThis_eq (expression : Option Expression)
    (reached : ∀ part ∈ expression, part.Reached) :
    (expression.map (·.rewriteCalls (keepCall methods))).map (·.stripThis) =
      (expression.map (·.rewriteCalls (keepCall methods))).map (·.rewriteCalls stripCall) := by
  cases expression with
  | none => rfl
  | some part => exact congrArg some (part.stripThis_eq methods (reached part rfl))

/-- The strip of the target of an assignment statement. -/
theorem AssignTarget.stripThis_eq (target : AssignTarget) (stored : target.Stored) :
    (target.rewriteCalls (keepCall methods)).stripThis =
      (target.rewriteCalls (keepCall methods)).rewriteCalls stripCall := by
  cases target with
  | member base property => simp [base.stripThis_eq methods stored]
  | index base key => simp [base.stripThis_eq methods stored.1, key.stripThis_eq methods stored.2]
  | binding place => simp
  | destructuringArray | destructuringArrayRest | destructuringObject
  | destructuringObjectRest | rest =>
    rw [stored (keepCall methods), stored stripCall]
    rfl

mutual

/-- The strip of a statement with named receivers rewrites each call once. -/
theorem Statement.stripThis_eq : ∀ statement : Statement, statement.Reached →
    (statement.rewriteCalls (keepCall methods)).stripThis =
      (statement.rewriteCalls (keepCall methods)).rewriteCalls stripCall
  | .assign target value, reached => by
    simp only [Statement.rewriteCalls, Statement.stripThis, target.stripThis_eq methods reached.1,
      value.stripThis_eq methods reached.2]
  | .letStmt name value kind, reached | .throwStmt value, reached => by
    simp [value.stripThis_eq methods reached]
  | .expr expression, reached => by simp [expression.stripThis_eq methods reached]
  | .returnStmt value, reached => by simp [map_stripThis_eq methods value reached]
  | .ifStmt condition thenBody elseBody, reached => by
    simp [condition.stripThis_eq methods reached.1, stripList_eq thenBody reached.2.1,
      stripList_eq elseBody reached.2.2]
  | .whileStmt condition body, reached => by
    simp [condition.stripThis_eq methods reached.1, stripList_eq body reached.2]
  | .doWhile body condition, reached => by
    simp [stripList_eq body reached.1, condition.stripThis_eq methods reached.2]
  | .forStmt init condition update body, reached => by
    simp [stripOption_eq init reached.1, map_stripThis_eq methods condition reached.2.1,
      stripOption_eq update reached.2.2.1, stripList_eq body reached.2.2.2]
  | .forIn name base body, reached => by
    simp [base.stripThis_eq methods reached.1, stripList_eq body reached.2]
  | .forOf name iterable body, reached => by
    simp [iterable.stripThis_eq methods reached.1, stripList_eq body reached.2]
  | .block body, reached => by simp [stripList_eq body reached]
  | .tryCatch tryBody catchParam catchBody finallyBody, reached => by
    simp [stripList_eq tryBody reached.1, stripList_eq catchBody reached.2.1,
      stripList_eq finallyBody reached.2.2]
  | .switch discriminant cases default, reached => by
    simp [discriminant.stripThis_eq methods reached.1, stripCases_eq cases reached.2.1,
      stripDefault_eq default reached.2.2]
  | .delete target result, free | .condGoto condition target fallthrough, free => by
    simp [free (keepCall methods), free stripCall]
  | .classStmt name none constructor methods', _ | .debugger, _ | .comment text, _
  | .breakStmt label, _ | .continueStmt label, _ | .goto target, _ => by simp
  | .classStmt name (some superClass) constructor methods', free => by
    simp [free superClass rfl (keepCall methods), free superClass rfl stripCall]

theorem stripList_eq : ∀ statements, ReachedList statements →
    stripList (rewriteCallsStatements (keepCall methods) statements) =
      rewriteCallsStatements stripCall (rewriteCallsStatements (keepCall methods) statements)
  | [], _ => by simp
  | first :: rest, reached => by simp [first.stripThis_eq reached.1, stripList_eq rest reached.2]

theorem stripOption_eq : ∀ statement, ReachedOption statement →
    stripOption (rewriteCallsStatement (keepCall methods) statement) =
      rewriteCallsStatement stripCall (rewriteCallsStatement (keepCall methods) statement)
  | none, _ => by simp
  | some statement, reached => by simp [statement.stripThis_eq reached]

theorem stripDefault_eq : ∀ default, ReachedDefault default →
    stripDefault (rewriteCallsDefault (keepCall methods) default) =
      rewriteCallsDefault stripCall (rewriteCallsDefault (keepCall methods) default)
  | none, _ => by simp
  | some body, reached => by simp [stripList_eq body reached]

theorem stripCases_eq : ∀ cases, ReachedCases cases →
    stripCases (rewriteCallsCases (keepCall methods) cases) =
      rewriteCallsCases stripCall (rewriteCallsCases (keepCall methods) cases)
  | [], _ => by simp
  | (test, body) :: rest, reached => by
    simp [test.stripThis_eq methods reached.1, stripList_eq body reached.2.1,
      stripCases_eq rest reached.2.2]

end

end Walk

/-- What a call passes: the function called, its receiver, none for `undefined`, and the
arguments. -/
structure Passing where
  function : Expression
  receiver : Option Expression
  arguments : List Expression

/-- A lowered call has its receiver before its arguments. -/
def loweredPassing (callee receiver : Expression) (rest : List Expression) : Passing :=
  ⟨callee, some receiver, rest⟩

/-- A printed call passes the object of a member, and no receiver to another callee. -/
def printedPassing (callee : Expression) (arguments : List Expression) : Passing :=
  ⟨callee, callee.memberObject?, arguments⟩

/-- The call of `call` on a function calls that function, with its first argument as the
receiver. -/
def Passing.direct (passing : Passing) : Passing :=
  match passing with
  | ⟨.member function (.ident "call") _, some self, receiver :: rest⟩ =>
      if function.same self then ⟨function, some receiver, rest⟩ else passing
  | _ => passing

/-- A call through a name passes what it says. -/
theorem direct_binding (place : Binding) (receiver : Expression) (rest : List Expression) :
    (loweredPassing (.value (.binding place)) receiver rest).direct =
      loweredPassing (.value (.binding place)) receiver rest := rfl

/-- A name is the same as itself. -/
theorem same_binding (place : Binding) :
    (Expression.value (.binding place)).same (.value (.binding place)) = true := by
  obtain register | name | ⟨level, slot⟩ := place
  · exact beq_self_eq_true register
  · exact beq_self_eq_true name.name
  · simp [Expression.same, BEq.beq, instBEqValue.beq, instBEqBinding.beq]

/-- A rewriting of lowered calls after which each call passes what it passed. -/
def KeepsPassing (rewrite : Expression → List Expression → Expression) : Prop :=
  (∀ callee, rewrite callee [] = .call callee []) ∧
    ∀ callee receiver rest, ∃ callee' receiver' rest',
      rewrite callee (receiver :: rest) = .call callee' (receiver' :: rest') ∧
        (loweredPassing callee' receiver' rest').direct =
          (loweredPassing callee receiver rest).direct

/-- A rewriting of lowered calls to printed ones. A call without a receiver keeps all
its arguments. Any other keeps its function and its arguments, and its receiver becomes
what the spelling of the function gives. -/
def PrintsPassing (rewrite : Expression → List Expression → Expression) : Prop :=
  (∀ callee, rewrite callee [] = .call callee []) ∧
    (∀ callee first rest, keepsFirst callee first rest = true →
      rewrite callee (first :: rest) = .call callee (first :: rest)) ∧
    ∀ callee receiver rest, keepsFirst callee receiver rest = false →
      ∃ callee' arguments', rewrite callee (receiver :: rest) = .call callee' arguments' ∧
        printedPassing callee' arguments' =
          { loweredPassing callee receiver rest with receiver := callee.memberObject? }

theorem keepCall_keepsPassing (methods : List (Binding × Expression)) :
    KeepsPassing (keepCall methods) := by
  constructor
  · intro callee
    unfold keepCall
    split
    · contradiction
    · rfl
  · intro callee receiver rest
    unfold keepCall
    split
    · rename_i place first rest' equal
      cases equal
      split
      · refine ⟨_, _, _, rfl, ?_⟩
        rw [direct_binding]
        exact if_pos (same_binding place)
      · exact ⟨_, _, _, rfl, rfl⟩
    · exact ⟨_, _, _, rfl, rfl⟩

/-- Every receiver goes. -/
theorem shouldStrip_eq (callee first : Expression) : shouldStrip callee first = true := by
  unfold shouldStrip
  split
  · split
    · rfl
    · exact ite_self true
  · rfl

theorem stripCall_printsPassing : PrintsPassing stripCall := by
  refine ⟨fun callee => rfl, ?_, ?_⟩
  · intro callee first rest keeps
    simp only [keepsFirst, Bool.or_eq_true] at keeps
    simp only [stripCall]
    obtain ((concat | create) | slice) | spread := keeps
    · rw [if_pos concat]
    · rw [if_pos create, ite_self]
    · rw [if_pos slice, ite_self, ite_self]
    · rw [if_pos spread, ite_self, ite_self, ite_self]
  · intro callee receiver rest strips
    simp only [keepsFirst, Bool.or_eq_false_iff] at strips
    obtain ⟨⟨⟨concat, create⟩, slice⟩, spread⟩ := strips
    refine ⟨callee, rest, ?_, rfl⟩
    simp [stripCall, concat, create, slice, spread, shouldStrip_eq]

/-- A call through a place that was read off its receiver keeps that receiver: it becomes
a call through `call`, and the strip takes only the function off again. -/
theorem strip_methodCall {methods : List (Binding × Expression)} {place : Binding}
    {receiver : Expression} (rest : List Expression)
    (method : (methodObject? methods place).any (·.same receiver) = true) :
    keepCall methods (.value (.binding place)) (receiver :: rest) =
        .call (throughCall (.value (.binding place)))
          (.value (.binding place) :: receiver :: rest) ∧
      stripCall (throughCall (.value (.binding place)))
          (.value (.binding place) :: receiver :: rest) =
        .call (throughCall (.value (.binding place))) (receiver :: rest) ∧
      (printedPassing (throughCall (.value (.binding place))) (receiver :: rest)).direct =
        loweredPassing (.value (.binding place)) receiver rest := by
  refine ⟨if_pos method, rfl, if_pos (same_binding place)⟩

/-- The pass names receivers in every call, whether it finds methods or not. -/
theorem keepMethodReceivers_eq (statements : List Statement) :
    keepMethodReceivers statements =
      rewriteCallsStatements (keepCall (noteDefsAll [] statements).methods) statements := by
  unfold keepMethodReceivers
  generalize (noteDefsAll [] statements).methods = methods
  cases methods with
  | cons entry rest => rfl
  | nil =>
    have plain : keepCall [] = Expression.call := by
      funext callee arguments
      unfold keepCall
      split
      · rfl
      · rfl
    rw [plain, rewriteCallsStatements_call]
    rfl

/-- Where every call stands in a place the walk reaches, the pass rewrites each call once:
first the receivers of methods are named, which changes nothing of what a call passes,
then each call is printed without its receiver. A call through a place whose only
assignment reads a member of the receiver still passes it. -/
theorem stripHermesThis_passes (statements : List Statement) (reached : ReachedList statements) :
    ∃ keep print : Expression → List Expression → Expression,
      stripHermesThis statements =
          rewriteCallsStatements print (rewriteCallsStatements keep statements) ∧
        KeepsPassing keep ∧ PrintsPassing print ∧
        ∀ place stored value object receiver rest,
          (assignmentsAll statements).filter (·.1 == place) = [(stored, value)] →
          value.memberObject? = some object → object.same receiver = true →
          ∃ callee arguments callee' arguments',
            keep (.value (.binding place)) (receiver :: rest) = .call callee arguments ∧
              print callee arguments = .call callee' arguments' ∧
              (printedPassing callee' arguments').direct =
                loweredPassing (.value (.binding place)) receiver rest := by
  refine ⟨keepCall (noteDefsAll [] statements).methods, stripCall, ?_,
    keepCall_keepsPassing _, stripCall_printsPassing, ?_⟩
  · rw [stripHermesThis, keepMethodReceivers_eq]
    exact stripList_eq _ statements reached
  · intro place stored value object receiver rest once member same
    have method : (methodObject? (noteDefsAll [] statements).methods place).any
        (·.same receiver) = true := by
      rw [methodObject?_of_once once member]
      exact same
    obtain ⟨kept, stripped, passes⟩ := strip_methodCall rest method
    exact ⟨_, _, _, _, kept, stripped, passes⟩

/-- The read of a variable. -/
def readOf (name : String) : Expression := .value (.binding (.variable ⟨name, none⟩))

/-- `push = items.push; push(items, x)`, lowered. -/
def pushApart : List Statement :=
  [.assign (.binding (.variable ⟨"push", none⟩)) (.member (readOf "items") (.ident "push") false),
    .expr (.call (readOf "push") [readOf "items", readOf "x"])]

theorem stripHermesThis_passes_pushApart :
    ∃ keep print : Expression → List Expression → Expression,
      stripHermesThis pushApart =
          rewriteCallsStatements print (rewriteCallsStatements keep pushApart) ∧
        KeepsPassing keep ∧ PrintsPassing print ∧
        ∃ callee arguments callee' arguments',
          keep (readOf "push") [readOf "items", readOf "x"] = .call callee arguments ∧
            print callee arguments = .call callee' arguments' ∧
            (printedPassing callee' arguments').direct =
              loweredPassing (readOf "push") (readOf "items") [readOf "x"] := by
  have reached : ReachedList pushApart :=
    ⟨⟨fun _ => rfl, trivial, fun _ => rfl⟩, ⟨trivial, trivial, trivial, trivial⟩, trivial⟩
  obtain ⟨keep, print, equal, keeps, prints, passes⟩ := stripHermesThis_passes pushApart reached
  exact ⟨keep, print, equal, keeps, prints, passes _ _ _ _ (readOf "items") [readOf "x"] rfl rfl
    (by decide)⟩

/-- A method borrowed from another object: the printed call passes the object it was read
off, and not the receiver it had. -/
theorem borrowed_receiver_lost :
    stripHermesThis [.expr (.call (.member (readOf "a") (.ident "m") false)
        [readOf "b", readOf "x"])] =
      [.expr (.call (.member (readOf "a") (.ident "m") false) [readOf "x"])] ∧
    (printedPassing (.member (readOf "a") (.ident "m") false) [readOf "x"]).receiver =
      some (readOf "a") ∧
    (loweredPassing (.member (readOf "a") (.ident "m") false) (readOf "b")
      [readOf "x"]).receiver = some (readOf "b") ∧
    readOf "a" ≠ readOf "b" := by
  refine ⟨rfl, rfl, rfl, ?_⟩
  simp [readOf]

end HermesDecomp.Ir
