import HermesDecomp.Transforms.LogicRules

/-!
# What simplifying logic keeps

An expression keeps its value and its effects when each rewrite on the way is right for the
operands it meets. The negation of an expression is its boolean negation exactly where it drops
another negation around booleans and turns orderings around for ordered operands.
-/

namespace HermesDecomp.Ir.Logic

open Action

variable {host : Host} (comparison : Comparison host)

mutual

/-- Every rewrite on the way is right for the operands it meets. -/
def Sound : Expression → Prop
  | .unary .not operand => Sound operand ∧ NotSound comparison (simplifyExpr operand)
  | .binary op left right =>
      Sound left ∧ Sound right ∧ BinarySound comparison op (simplifyExpr left) (simplifyExpr right)
  | .conditional condition thenExpr elseExpr =>
      Sound condition ∧ Sound thenExpr ∧ Sound elseExpr ∧
        ConditionalSound comparison (simplifyExpr condition) (simplifyExpr thenExpr)
          (simplifyExpr elseExpr)
  | .call callee arguments => Sound callee ∧ SoundAll arguments
  | .new callee arguments => Sound callee ∧ SoundAll arguments
  | .member object _ _ => Sound object
  | .array elements => SoundElements elements
  | .object properties => SoundProperties properties
  | .assignment target value => SoundTarget target ∧ Sound value
  | .spread operand => Sound operand
  | .await operand => Sound operand
  | .yield value _ => Sound value
  | _ => True

def SoundAll : List Expression → Prop
  | [] => True
  | first :: rest => Sound first ∧ SoundAll rest

def SoundElements : List (Option Expression) → Prop
  | [] => True
  | none :: rest => SoundElements rest
  | some first :: rest => Sound first ∧ SoundElements rest

def SoundProperties : List ObjectProperty → Prop
  | [] => True
  | .mk _ value :: rest => Sound value ∧ SoundProperties rest

def SoundTarget : AssignTarget → Prop
  | .binding _ => True
  | .member object _ => Sound object
  | .index object key => Sound object ∧ Sound key
  | .destructuringArray elements => SoundItems elements
  | .destructuringArrayRest elements rest => SoundItems elements ∧ SoundTarget rest
  | .destructuringObject properties => SoundFields properties
  | .destructuringObjectRest properties rest => SoundFields properties ∧ SoundTarget rest
  | .rest target => SoundTarget target

def SoundItems : List (Option (AssignTarget × Option Expression)) → Prop
  | [] => True
  | none :: rest => SoundItems rest
  | some (target, none) :: rest => SoundTarget target ∧ SoundItems rest
  | some (target, some fallback) :: rest => SoundTarget target ∧ Sound fallback ∧ SoundItems rest

def SoundFields : List (String × AssignTarget × Option Expression) → Prop
  | [] => True
  | (_, target, none) :: rest => SoundTarget target ∧ SoundFields rest
  | (_, target, some fallback) :: rest => SoundTarget target ∧ Sound fallback ∧ SoundFields rest

end

/-- The keys an object pattern names, which its rest leaves out, stay. -/
theorem map_fst_simplifyFields (fields : List (String × AssignTarget × Option Expression)) :
    (simplifyFields fields).map Prod.fst = fields.map Prod.fst := by
  induction fields with
  | nil => rfl
  | cons field rest ih =>
    obtain ⟨key, _, _ | _⟩ := field <;> exact congrArg (key :: ·) ih

mutual

/-- An expression whose rewrites are all right keeps its meaning. -/
theorem evaluate_simplifyExpr : ∀ {expression : Expression}, Sound comparison expression →
    ((simplifyExpr expression).evaluate : Exec host host.Val) = expression.evaluate
  | .unary .not operand, ⟨onOperand, here⟩ => by
    rw [simplifyExpr, evaluate_simplifyUnaryNot comparison here, evaluate_simplifyExpr onOperand,
      ← evaluate_not comparison.branching]
  | .binary op left right, ⟨onLeft, onRight, here⟩ => by
    rw [simplifyExpr, evaluate_simplifyBinary comparison here, evaluate_simplifyExpr onLeft,
      evaluate_simplifyExpr onRight]
    rfl
  | .conditional condition thenExpr elseExpr, ⟨onCondition, onThen, onElse, here⟩ => by
    rw [simplifyExpr, evaluate_simplifyConditional comparison here,
      evaluate_simplifyExpr onCondition, evaluate_simplifyExpr onThen, evaluate_simplifyExpr onElse]
    rfl
  | .call callee arguments, ⟨onCallee, onArguments⟩
  | .new callee arguments, ⟨onCallee, onArguments⟩ => by
    rw [simplifyExpr, Expression.evaluate, evaluate_simplifyExpr onCallee,
      evaluateAll_simplifyAll onArguments]
    rfl
  | .member object property optional, onObject => by
    rw [simplifyExpr, Expression.evaluate, @evaluate_simplifyExpr object onObject]
    rfl
  | .array elements, onElements => by
    rw [simplifyExpr, Expression.evaluate, evaluateElements_simplifyElements onElements]
    rfl
  | .object properties, onProperties => by
    simp [simplifyExpr, Expression.evaluate,
      fun object => defineAll_simplifyProperties object onProperties]
  | .assignment target value, ⟨onTarget, onValue⟩ => by
    rw [simplifyExpr, Expression.evaluate, evaluate_simplifyExpr onValue,
      store_simplifyTarget onTarget]
    rfl
  | .spread operand, onOperand | .await operand, onOperand => by
    rw [simplifyExpr, Expression.evaluate, @evaluate_simplifyExpr operand onOperand]
    rfl
  | .yield value delegate, onValue => by
    rw [simplifyExpr, Expression.evaluate, @evaluate_simplifyExpr value onValue]
    rfl
  | .unary .neg _, _ | .unary .plus _, _ | .unary .bitNot _, _ | .unary .typeOf _, _
  | .unary .void _, _ | .value _, _ | .function .., _ | .templateLiteral .., _ | .regExp .., _
  | .jsxElement .., _ | .unknown .., _ => rfl

theorem evaluateAll_simplifyAll : ∀ {expressions : List Expression},
    SoundAll comparison expressions →
      (evaluateAll (simplifyAll expressions) : Exec host (List host.Val)) = evaluateAll expressions
  | [], _ => rfl
  | first :: rest, ⟨onFirst, onRest⟩ => by
    rw [simplifyAll, evaluateAll, evaluateAll, evaluate_simplifyExpr onFirst,
      evaluateAll_simplifyAll onRest]

theorem evaluateElements_simplifyElements : ∀ {elements : List (Option Expression)},
    SoundElements comparison elements →
      (evaluateElements (simplifyElements elements) : Exec host (List (Option host.Val))) =
        evaluateElements elements
  | [], _ => rfl
  | none :: rest, onRest => by
    rw [simplifyElements, evaluateElements, evaluateElements,
      @evaluateElements_simplifyElements rest onRest]
  | some first :: rest, ⟨onFirst, onRest⟩ => by
    rw [simplifyElements, evaluateElements, evaluateElements, evaluate_simplifyExpr onFirst,
      evaluateElements_simplifyElements onRest]

theorem defineAll_simplifyProperties (object : host.Val) : ∀ {properties : List ObjectProperty},
    SoundProperties comparison properties →
      (defineAll object (simplifyProperties properties) : Exec host PUnit) =
        defineAll object properties
  | [], _ => rfl
  | .mk key value :: rest, ⟨onValue, onRest⟩ => by
    rw [simplifyProperties, defineAll, defineAll, evaluate_simplifyExpr onValue,
      defineAll_simplifyProperties object onRest]

theorem store_simplifyTarget : ∀ {target : AssignTarget} {value : Exec host host.Val},
    SoundTarget comparison target → (simplifyTarget target).store value = target.store value
  | .binding _, _, _ => rfl
  | .member object property, value, onObject => by
    rw [simplifyTarget, AssignTarget.store, @evaluate_simplifyExpr object onObject]
    rfl
  | .index object key, value, ⟨onObject, onKey⟩ => by
    rw [simplifyTarget, AssignTarget.store, evaluate_simplifyExpr onObject,
      evaluate_simplifyExpr onKey]
    rfl
  | .destructuringArray elements, value, onElements => by
    simp [simplifyTarget, AssignTarget.store,
      fun iterator => @storeItems_simplifyItems iterator elements onElements]
  | .destructuringArrayRest elements rest, value, ⟨onElements, onRest⟩ => by
    simp [simplifyTarget, AssignTarget.store,
      fun iterator => storeItems_simplifyItems iterator onElements,
      fun value => @store_simplifyTarget rest value onRest]
  | .destructuringObject properties, value, onProperties => by
    simp [simplifyTarget, AssignTarget.store,
      fun object => @storeFields_simplifyFields object properties onProperties]
  | .destructuringObjectRest properties rest, value, ⟨onProperties, onRest⟩ => by
    simp [simplifyTarget, AssignTarget.store, map_fst_simplifyFields,
      fun object => storeFields_simplifyFields object onProperties,
      fun value => @store_simplifyTarget rest value onRest]
  | .rest target, value, onTarget => @store_simplifyTarget target value onTarget

theorem storeItems_simplifyItems (iterator : host.Val) :
    ∀ {items : List (Option (AssignTarget × Option Expression))}, SoundItems comparison items →
      (storeItems iterator (simplifyItems items) : Exec host PUnit) = storeItems iterator items
  | [], _ => rfl
  | none :: rest, onRest => by
    rw [simplifyItems, storeItems, storeItems, @storeItems_simplifyItems iterator rest onRest]
  | some (target, none) :: rest, ⟨onTarget, onRest⟩ => by
    rw [simplifyItems, storeItems, storeItems, store_simplifyTarget onTarget,
      storeItems_simplifyItems iterator onRest]
  | some (target, some fallback) :: rest, ⟨onTarget, onFallback, onRest⟩ => by
    rw [simplifyItems, storeItems, storeItems, store_simplifyTarget onTarget,
      evaluate_simplifyExpr onFallback, storeItems_simplifyItems iterator onRest]

theorem storeFields_simplifyFields (object : host.Val) :
    ∀ {fields : List (String × AssignTarget × Option Expression)}, SoundFields comparison fields →
      (storeFields object (simplifyFields fields) : Exec host PUnit) = storeFields object fields
  | [], _ => rfl
  | (key, target, none) :: rest, ⟨onTarget, onRest⟩ => by
    rw [simplifyFields, storeFields, storeFields, store_simplifyTarget onTarget,
      storeFields_simplifyFields object onRest]
  | (key, target, some fallback) :: rest, ⟨onTarget, onFallback, onRest⟩ => by
    rw [simplifyFields, storeFields, storeFields, store_simplifyTarget onTarget,
      evaluate_simplifyExpr onFallback, storeFields_simplifyFields object onRest]

end

/-- Simplifying the logic of an expression keeps what it evaluates to and does when each rewrite
meets operands it is right for, and negating an expression gives its boolean negation exactly when
it drops another negation around booleans and turns orderings around for ordered operands. -/
theorem logic_kept (expression : Expression) :
    (Sound comparison expression →
      ((simplifyExpr expression).evaluate : Exec host host.Val) = expression.evaluate) ∧
    (((negateExpr expression).evaluate : Exec host host.Val) = negationOf expression.evaluate ↔
      NegationSound comparison (fun _ => True) expression) :=
  ⟨evaluate_simplifyExpr comparison, negation_iff comparison expression⟩

/-- A condition that is not `undefined` and compares two integers, as a negated disjunction. -/
def guarded : Expression :=
  .conditional
    (.unary .not (.binary .or (.binary .strictEq (.register 0) (.value (.constant .undefined)))
      (.unary .not (.binary .lt (.value (.constant (.integer 1))) (.value (.constant (.integer 2)))))))
    (.register 1) (.register 2)

theorem guarded_kept :
    ((simplifyExpr guarded).evaluate : Exec Comparing.host Comparing.host.Val) = guarded.evaluate ∧
      ((negateExpr guarded).evaluate : Exec Comparing.host Comparing.host.Val) =
        negationOf guarded.evaluate := by
  have onLess : Returns ((Expression.binary .lt (.value (.constant (.integer 1)))
      (.value (.constant (.integer 2)))).evaluate : Exec Comparing.host Comparing.host.Val)
      fun value => True → value = Comparing.host.constant (.bool (Comparing.host.truthy value)) := by
    intro machine value ran _
    cases ran
    rfl
  refine ⟨(logic_kept Comparing.comparison guarded).1 ⟨⟨⟨⟨trivial, trivial, ?_⟩,
    ⟨⟨trivial, trivial, trivial⟩, trivial⟩, ?_⟩, ?_⟩, trivial, trivial, trivial⟩,
    (logic_kept Comparing.comparison guarded).2.mpr trivial⟩
  · exact fun _ equal => absurd equal (by decide)
  · exact fun equal => absurd equal (by decide)
  · exact ⟨fun ordering => absurd ordering (by decide), onLess⟩

/-- A call whose result decides between equal arms. -/
def idle : Expression :=
  .conditional (.call (.register 0) []) (.value (.constant (.integer 7)))
    (.value (.constant (.integer 7)))

/-- An ordering of `undefined`. -/
def unordered : Expression :=
  .binary .lt (.value (.constant .undefined)) (.value (.constant (.integer 1)))

/-- The call of an idle condition is gone, and an ordering of `undefined` and its negation both
answer `false`. -/
theorem logic_changes :
    ¬ (∀ expression : Expression,
      ((simplifyExpr expression).evaluate : Exec Comparing.host Comparing.host.Val) =
        expression.evaluate) ∧
    ¬ (∀ expression : Expression,
      ((negateExpr expression).evaluate : Exec Comparing.host Comparing.host.Val) =
        negationOf expression.evaluate) := by
  constructor
  · intro all
    have logs := congrArg (fun code : Exec Comparing.host Comparing.host.Val =>
      (code ⟨fun _ => none, Tracing.blank, .other ⟨0, 0⟩⟩).2.world.log) (all idle)
    cases logs
  · intro all
    have answers := congrArg (fun code : Exec Comparing.host Comparing.host.Val =>
      (code ⟨fun _ => none, Tracing.blank, .other ⟨0, 0⟩⟩).1.toOption) (all unordered)
    exact absurd (Constant.bool.inj (Option.some.inj answers)) (by decide)

end HermesDecomp.Ir.Logic
