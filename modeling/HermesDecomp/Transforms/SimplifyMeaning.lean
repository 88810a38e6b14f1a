import HermesDecomp.Ir.Calculating
import HermesDecomp.Transforms.SimplifyRules

/-!
# What simplified expressions keep

The walk meets every operator with its operands simplified already. Where each rewrite is right
for the operands it meets, the walk succeeds and keeps the meaning of the whole, key, target and
default expressions included.
-/

namespace HermesDecomp.Ir

open Action

variable {host : Host}

/-- Expressions with the same meanings have the same values. -/
theorem evaluateAll_congr : ∀ {expressions expressions' : List Expression},
    expressions.map (@Expression.evaluate host) = expressions'.map Expression.evaluate →
      (evaluateAll expressions : Exec host (List host.Val)) = evaluateAll expressions'
  | [], [], _ => rfl
  | first :: rest, first' :: rest', same => by
    obtain ⟨onFirst, onRest⟩ := List.cons.inj same
    rw [evaluateAll, evaluateAll, onFirst, evaluateAll_congr onRest]

theorem evaluateTexts_congr : ∀ {expressions expressions' : List Expression},
    expressions.map (@Expression.evaluate host) = expressions'.map Expression.evaluate →
      (evaluateTexts expressions : Exec host (List host.Val)) = evaluateTexts expressions'
  | [], [], _ => rfl
  | first :: rest, first' :: rest', same => by
    obtain ⟨onFirst, onRest⟩ := List.cons.inj same
    rw [evaluateTexts, evaluateTexts, onFirst, evaluateTexts_congr onRest]

namespace Arithmetic

variable (arithmetic : Arithmetic host)

mutual

/-- An expression whose rewrites are all right is simplified, and keeps its meaning. -/
theorem keeps_simplifyExpr : ∀ {expression : Expression}, arithmetic.Sound expression →
    Keeps (simplifyExpr expression) (fun result => (result.evaluate : Exec host host.Val))
      expression.evaluate
  | .binary op left right, ⟨onLeft, onRight, here⟩ => by
    refine (keeps_simplifyExpr onLeft).bind fun left' ranLeft sameLeft => ?_
    refine (keeps_simplifyExpr onRight).bind fun right' ranRight sameRight => keeps_pure ?_
    rw [arithmetic.evaluate_simplifyBinary (here left' right' ranLeft ranRight), sameLeft, sameRight]
    rfl
  | .unary op operand, ⟨onOperand, here⟩ => by
    refine (keeps_simplifyExpr onOperand).bind fun operand' ran same => ?_
    have kept := arithmetic.keeps_simplifyUnary (here operand' ran)
    rw [same] at kept
    exact kept
  | .conditional condition thenExpr elseExpr, ⟨onCondition, onThen, onElse⟩ => by
    refine (keeps_simplifyExpr onCondition).bind fun condition' _ sameCondition => ?_
    refine (keeps_simplifyExpr onThen).bind fun then' _ sameThen => ?_
    refine (keeps_simplifyExpr onElse).bind fun else' _ sameElse => keeps_pure ?_
    rw [arithmetic.evaluate_simplifyConditional, sameCondition, sameThen, sameElse]
    rfl
  | .member object property optional, ⟨onObject, onKey⟩ => by
    refine (keeps_simplifyExpr onObject).bind fun object' _ sameObject => ?_
    refine (keeps_simplifyKey onKey).bind fun property' _ sameKey => keeps_pure ?_
    rw [Expression.evaluate, sameObject, sameKey]
    rfl
  | .call callee arguments, ⟨onCallee, onArguments⟩
  | .new callee arguments, ⟨onCallee, onArguments⟩ => by
    refine (keeps_simplifyExpr onCallee).bind fun callee' _ sameCallee => ?_
    refine (keeps_simplifyAll onArguments).bind fun arguments' _ sameArguments => keeps_pure ?_
    rw [Expression.evaluate, sameCallee, evaluateAll_congr sameArguments]
    rfl
  | .array elements, onElements => by
    refine (keeps_simplifyElements onElements).bind fun elements' _ same => keeps_pure ?_
    rw [Expression.evaluate, same]
    rfl
  | .object properties, onProperties => by
    refine (keeps_simplifyProperties onProperties).bind fun properties' _ same => keeps_pure ?_
    simp [Expression.evaluate, congrFun same]
  | .assignment target value, ⟨onTarget, onValue⟩ => by
    refine (keeps_simplifyTarget onTarget).bind fun target' _ sameTarget => ?_
    refine (keeps_simplifyExpr onValue).bind fun value' _ sameValue => keeps_pure ?_
    rw [Expression.evaluate, sameValue]
    exact congrFun sameTarget value.evaluate
  | .spread operand, onOperand | .await operand, onOperand => by
    refine (@keeps_simplifyExpr operand onOperand).bind fun operand' _ same => keeps_pure ?_
    rw [Expression.evaluate, same]
    rfl
  | .templateLiteral quasis expressions, onExpressions => by
    refine (keeps_simplifyAll onExpressions).bind fun expressions' _ same => keeps_pure ?_
    rw [Expression.evaluate, evaluateTexts_congr same]
    rfl
  | .yield value delegate, onValue => by
    refine (@keeps_simplifyExpr value onValue).bind fun value' _ same => keeps_pure ?_
    rw [Expression.evaluate, same]
    rfl
  | .jsxElement tag attributes children, ⟨onAttributes, onChildren⟩ => by
    refine (keeps_simplifyAttributes onAttributes).bind fun attributes' _ sameAttributes => ?_
    refine (keeps_simplifyAll onChildren).bind fun children' _ sameChildren => keeps_pure ?_
    rw [Expression.evaluate, sameAttributes, evaluateAll_congr sameChildren]
    rfl
  | .value _, _ | .function .., _ | .regExp .., _ | .unknown .., _ => keeps_pure rfl

theorem keeps_simplifyAll : ∀ {expressions : List Expression}, arithmetic.SoundAll expressions →
    Keeps (simplifyAll expressions)
      (List.map (fun expression => (expression.evaluate : Exec host host.Val)))
      (expressions.map Expression.evaluate)
  | [], _ => keeps_pure rfl
  | first :: rest, ⟨onFirst, onRest⟩ => by
    refine (keeps_simplifyExpr onFirst).bind fun first' _ sameFirst => ?_
    refine (keeps_simplifyAll onRest).bind fun rest' _ sameRest => keeps_pure ?_
    exact congrArg₂ List.cons sameFirst sameRest

theorem keeps_simplifyElements : ∀ {elements : List (Option Expression)},
    arithmetic.SoundElements elements →
    Keeps (simplifyElements elements)
      (fun result => (evaluateElements result : Exec host (List (Option host.Val))))
      (evaluateElements elements)
  | [], _ => keeps_pure rfl
  | none :: rest, onRest => by
    refine (@keeps_simplifyElements rest onRest).bind fun rest' _ same => keeps_pure ?_
    rw [evaluateElements, same]
    rfl
  | some first :: rest, ⟨onFirst, onRest⟩ => by
    refine (keeps_simplifyExpr onFirst).bind fun first' _ sameFirst => ?_
    refine (keeps_simplifyElements onRest).bind fun rest' _ sameRest => keeps_pure ?_
    rw [evaluateElements, sameFirst, sameRest]
    rfl

theorem keeps_simplifyAttributes : ∀ {attributes : List (String × Expression)},
    arithmetic.SoundAttributes attributes →
    Keeps (simplifyAttributes attributes)
      (fun result => (evaluateAttributes result : Exec host (List (String × host.Val))))
      (evaluateAttributes attributes)
  | [], _ => keeps_pure rfl
  | (name, first) :: rest, ⟨onFirst, onRest⟩ => by
    refine (keeps_simplifyExpr onFirst).bind fun first' _ sameFirst => ?_
    refine (keeps_simplifyAttributes onRest).bind fun rest' _ sameRest => keeps_pure ?_
    rw [evaluateAttributes, sameFirst, sameRest]
    rfl

theorem keeps_simplifyKey : ∀ {key : PropertyKey}, arithmetic.SoundKey key →
    Keeps (simplifyKey key) (fun result => (result.evaluate : Exec host host.Key)) key.evaluate
  | .computed key, onKey => by
    refine (keeps_simplifyExpr onKey).bind fun key' _ same => keeps_pure ?_
    rw [PropertyKey.evaluate, same]
    rfl
  | .ident _, _ | .string _, _ | .index _, _ => keeps_pure rfl

theorem keeps_simplifyProperties : ∀ {properties : List ObjectProperty},
    arithmetic.SoundProperties properties →
    Keeps (simplifyProperties properties)
      (fun result object => (defineAll object result : Exec host PUnit))
      (fun object => defineAll object properties)
  | [], _ => keeps_pure rfl
  | .mk key value :: rest, ⟨onKey, onValue, onRest⟩ => by
    refine (keeps_simplifyKey onKey).bind fun key' _ sameKey => ?_
    refine (keeps_simplifyExpr onValue).bind fun value' _ sameValue => ?_
    refine (keeps_simplifyProperties onRest).bind fun rest' _ sameRest => keeps_pure ?_
    funext object
    rw [defineAll, sameKey, sameValue, congrFun sameRest object]
    rfl

theorem keeps_simplifyTarget : ∀ {target : AssignTarget}, arithmetic.SoundTarget target →
    Keeps (simplifyTarget target)
      (fun result (value : Exec host host.Val) => result.store value) target.store
  | .binding _, _ => keeps_pure rfl
  | .member object property, onObject => by
    refine (keeps_simplifyExpr onObject).bind fun object' _ same => keeps_pure ?_
    funext value
    rw [AssignTarget.store, same]
    rfl
  | .index object key, ⟨onObject, onKey⟩ => by
    refine (keeps_simplifyExpr onObject).bind fun object' _ sameObject => ?_
    refine (keeps_simplifyExpr onKey).bind fun key' _ sameKey => keeps_pure ?_
    funext value
    rw [AssignTarget.store, sameObject, sameKey]
    rfl
  | .destructuringArray elements, onElements => by
    refine (keeps_simplifyItems onElements).bind fun elements' _ same => keeps_pure ?_
    funext value
    simp [AssignTarget.store, congrFun same]
  | .destructuringArrayRest elements rest, ⟨onElements, onRest⟩ => by
    refine (keeps_simplifyItems onElements).bind fun elements' _ sameItems => ?_
    refine (keeps_simplifyTarget onRest).bind fun rest' _ sameRest => keeps_pure ?_
    funext value
    simp [AssignTarget.store, congrFun sameItems, congrFun sameRest]
  | .destructuringObject properties, onFields => by
    refine (keeps_simplifyFields onFields).bind fun properties' _ same => keeps_pure ?_
    obtain ⟨sameFields, _⟩ := Prod.mk.inj same
    funext value
    simp [AssignTarget.store, congrFun sameFields]
  | .destructuringObjectRest properties rest, ⟨onFields, onRest⟩ => by
    refine (keeps_simplifyFields onFields).bind fun properties' _ same => ?_
    refine (keeps_simplifyTarget onRest).bind fun rest' _ sameRest => keeps_pure ?_
    obtain ⟨sameFields, sameKeys⟩ := Prod.mk.inj same
    funext value
    simp [AssignTarget.store, congrFun sameFields, congrFun sameRest, sameKeys]
  | .rest target, onTarget => by
    refine (@keeps_simplifyTarget target onTarget).bind fun target' _ same => keeps_pure ?_
    exact same

theorem keeps_simplifyItems : ∀ {items : List (Option (AssignTarget × Option Expression))},
    arithmetic.SoundItems items →
    Keeps (simplifyItems items)
      (fun result iterator => (storeItems iterator result : Exec host PUnit))
      (fun iterator => storeItems iterator items)
  | [], _ => keeps_pure rfl
  | none :: rest, onRest => by
    refine (@keeps_simplifyItems rest onRest).bind fun rest' _ same => keeps_pure ?_
    funext iterator
    rw [storeItems, congrFun same iterator]
    rfl
  | some (target, none) :: rest, ⟨onTarget, onRest⟩ => by
    refine (keeps_simplifyTarget onTarget).bind fun target' _ sameTarget => ?_
    refine (keeps_simplifyItems onRest).bind fun rest' _ sameRest => keeps_pure ?_
    funext iterator
    rw [storeItems, congrFun sameTarget, congrFun sameRest iterator]
    rfl
  | some (target, some fallback) :: rest, ⟨onTarget, onFallback, onRest⟩ => by
    refine (keeps_simplifyTarget onTarget).bind fun target' _ sameTarget => ?_
    refine (keeps_simplifyExpr onFallback).bind fun fallback' _ sameFallback => ?_
    refine (keeps_simplifyItems onRest).bind fun rest' _ sameRest => keeps_pure ?_
    funext iterator
    rw [storeItems, congrFun sameTarget, sameFallback, congrFun sameRest iterator]
    rfl

theorem keeps_simplifyFields : ∀ {fields : List (String × AssignTarget × Option Expression)},
    arithmetic.SoundFields fields →
    Keeps (simplifyFields fields)
      (fun result => ((fun object => (storeFields object result : Exec host PUnit)),
        result.map Prod.fst))
      ((fun object => storeFields object fields), fields.map Prod.fst)
  | [], _ => keeps_pure rfl
  | (key, target, none) :: rest, ⟨onTarget, onRest⟩ => by
    refine (keeps_simplifyTarget onTarget).bind fun target' _ sameTarget => ?_
    refine (keeps_simplifyFields onRest).bind fun rest' _ same => keeps_pure ?_
    obtain ⟨sameRest, sameKeys⟩ := Prod.mk.inj same
    refine Prod.ext (funext fun object => ?_) (congrArg (key :: ·) sameKeys)
    dsimp only
    rw [storeFields, congrFun sameTarget, congrFun sameRest object]
    rfl
  | (key, target, some fallback) :: rest, ⟨onTarget, onFallback, onRest⟩ => by
    refine (keeps_simplifyTarget onTarget).bind fun target' _ sameTarget => ?_
    refine (keeps_simplifyExpr onFallback).bind fun fallback' _ sameFallback => ?_
    refine (keeps_simplifyFields onRest).bind fun rest' _ same => keeps_pure ?_
    obtain ⟨sameRest, sameKeys⟩ := Prod.mk.inj same
    refine Prod.ext (funext fun object => ?_) (congrArg (key :: ·) sameKeys)
    dsimp only
    rw [storeFields, congrFun sameTarget, sameFallback, congrFun sameRest object]
    rfl

end

end Arithmetic

namespace Calculating

/-- A zero as a value of the engine. -/
theorem constant_of_isZero {zero : Constant} (isZero : zero.isZero = true) :
    (zero.isNegative = false ∧ constant zero = .integer 0) ∨
      (zero.isNegative = true ∧ constant zero = .number Float64.negativeZero) := by
  cases zero with
  | integer value =>
    obtain rfl : value = 0 := by simpa [Constant.isZero] using isZero
    exact Or.inl ⟨rfl, rfl⟩
  | number double =>
    rcases Float64.eq_of_isZero (Float64.isZero_of_beq_zero isZero) with
      ⟨positive, rfl⟩ | ⟨negative, rfl⟩
    · exact Or.inl ⟨positive, by decide +kernel⟩
    · exact Or.inr ⟨negative, by decide +kernel⟩
  | undefined | null | bool | string | bigInt => cases isZero

theorem constant_of_isOne {one : Constant} (isOne : one.isOne = true) :
    constant one = .integer 1 := by
  cases one with
  | integer value =>
    obtain rfl : value = 1 := by simpa [Constant.isOne] using isOne
    rfl
  | number double =>
    obtain rfl := Float64.eq_of_beq_one isOne
    decide +kernel
  | undefined | null | bool | string | bigInt => cases isOne

/-- A value that is a number. -/
def IsNumber : Constant → Prop
  | .integer _ | .number _ => True
  | _ => False

/-- A finite number with a sign. -/
def IsFinite (negative : Bool) : Constant → Prop
  | .integer value => decide (value < 0) = negative
  | .number double => double.finite = true ∧ double.negative = negative
  | _ => False

attribute [local simp] calculate integers doubles mixedLeft mixedRight

theorem binary_of_calculate {op : BinaryOp} {left right result : Constant}
    (calculated : calculate op left right = some result) : binary op left right = pure result := by
  rw [binary, calculated]

theorem integers_of_result {op : BinaryOp} {l r result : Int}
    (answered : IntegerResult op l r result) : integers op l r = some result := by
  cases answered with
  | mul signed => exact if_pos signed
  | div nonzero whole signed =>
    obtain rfl := whole
    rw [integers, if_pos ⟨nonzero, ⟨_, Int.mul_comm _ _⟩, signed⟩, Int.mul_ediv_cancel _ nonzero]
  | mod nonzero signed => exact if_pos ⟨nonzero, signed⟩
  | add | sub | bitAnd | bitOr | bitXor | shl | shr => rfl

theorem calculate_add_comm (left right : Constant) :
    calculate .add left right = calculate .add right left := by
  match left, right with
  | .integer l, .integer r => simp [Int.add_comm l r]
  | .number l, .number r =>
    simp only [calculate, doubles]
    split_ifs with isLeft isRight <;> simp_all
  | .integer _, .number _ | .number _, .integer _ => rfl
  | .integer _, .undefined | .integer _, .null | .integer _, .bool _ | .integer _, .string _
  | .integer _, .bigInt _ | .number _, .undefined | .number _, .null | .number _, .bool _
  | .number _, .string _ | .number _, .bigInt _ => rfl
  | .undefined, right | .null, right | .bool _, right | .string _, right | .bigInt _, right =>
    cases right <;> rfl

theorem calculate_mul_comm (left right : Constant) :
    calculate .mul left right = calculate .mul right left := by
  match left, right with
  | .integer l, .integer r => simp [Int.mul_comm l r, and_comm]
  | .number l, .number r => simp [and_comm, and_left_comm, or_comm]
  | .integer _, .number _ | .number _, .integer _ => rfl
  | .integer _, .undefined | .integer _, .null | .integer _, .bool _ | .integer _, .string _
  | .integer _, .bigInt _ | .number _, .undefined | .number _, .null | .number _, .bool _
  | .number _, .string _ | .number _, .bigInt _ => rfl
  | .undefined, right | .null, right | .bool _, right | .string _, right | .bigInt _, right =>
    cases right <;> rfl

variable {value zero : Constant}

section

variable (isZero : zero.isZero = true) (isNumber : IsNumber value)
  (unsigned : zero.isNegative = true ∨ ¬ value = .number Float64.negativeZero)

include isZero isNumber unsigned

theorem calculate_add_zero : calculate .add value (constant zero) = some value := by
  rcases constant_of_isZero isZero with ⟨positive, isConstant⟩ | ⟨negative, isConstant⟩
  · rw [isConstant]
    cases value with
    | integer value => simp
    | number double => simp_all
    | undefined | null | bool | string | bigInt => exact isNumber.elim
  · rw [isConstant]
    cases value with
    | integer value => simp
    | number double => by_cases both : double = Float64.negativeZero <;> simp [both]
    | undefined | null | bool | string | bigInt => exact isNumber.elim

theorem calculate_zero_add : calculate .add (constant zero) value = some value := by
  rw [calculate_add_comm]
  exact calculate_add_zero isZero isNumber unsigned

end

theorem calculate_sub_zero (isZero : zero.isZero = true) (isNumber : IsNumber value)
    (unsigned : zero.isNegative = false ∨ ¬ value = .number Float64.negativeZero) :
    calculate .sub value (constant zero) = some value := by
  rcases constant_of_isZero isZero with ⟨positive, isConstant⟩ | ⟨negative, isConstant⟩
  · rw [isConstant]
    cases value with
    | integer value => simp
    | number double => simp
    | undefined | null | bool | string | bigInt => exact isNumber.elim
  · rw [isConstant]
    cases value with
    | integer value => simp
    | number double => simp_all
    | undefined | null | bool | string | bigInt => exact isNumber.elim

theorem calculate_mul_one {value : Constant} (isNumber : IsNumber value) :
    calculate .mul value (.integer 1) = some value := by
  cases value with
  | integer value => simp +contextual
  | number double => simp
  | undefined | null | bool | string | bigInt => exact isNumber.elim

theorem calculate_one_mul {value : Constant} (isNumber : IsNumber value) :
    calculate .mul (.integer 1) value = some value := by
  rw [calculate_mul_comm]
  exact calculate_mul_one isNumber

theorem calculate_div_one {value : Constant} (isNumber : IsNumber value) :
    calculate .div value (.integer 1) = some value := by
  cases value with
  | integer | number => simp
  | undefined | null | bool | string | bigInt => exact isNumber.elim

theorem calculate_mul_zero (isZero : zero.isZero = true) (isFinite : IsFinite zero.isNegative value) :
    calculate .mul value (constant zero) = some (.integer 0) := by
  rcases constant_of_isZero isZero with ⟨positive, isConstant⟩ | ⟨negative, isConstant⟩
  · rw [isConstant]
    rw [positive] at isFinite
    cases value with
    | integer value =>
      have least : 0 ≤ value := by simpa [IsFinite] using isFinite
      simp [least]
    | number double =>
      have different : double ≠ Float64.negativeZero := by
        rintro rfl
        exact absurd isFinite.2 (by decide)
      simp [different, isFinite.1, isFinite.2]
    | undefined | null | bool | string | bigInt => exact isFinite.elim
  · rw [isConstant]
    rw [negative] at isFinite
    have finite : Float64.negativeZero.finite = true := by decide
    have signed : Float64.negativeZero.negative = true := by decide
    cases value with
    | integer value =>
      have below : value < 0 := by simpa [IsFinite] using isFinite
      have different : value ≠ 1 := by omega
      simp [below, different]
    | number double => simp [isFinite.1, isFinite.2, finite, signed]
    | undefined | null | bool | string | bigInt => exact isFinite.elim

theorem calculate_zero_mul (isZero : zero.isZero = true) (isFinite : IsFinite zero.isNegative value) :
    calculate .mul (constant zero) value = some (.integer 0) := by
  rw [calculate_mul_comm]
  exact calculate_mul_zero isZero isFinite

/-- What the engine answers is what JavaScript says of numbers. -/
def arithmetic : Arithmetic Calculating.host where
  number := IsNumber
  negativeZero := fun value : Constant => value = .number Float64.negativeZero
  finite := IsFinite
  branching := ⟨fun _ => rfl, fun _ => rfl, fun _ => rfl⟩
  integer _ _ _ answered :=
    binary_of_calculate (congrArg (Option.map Constant.integer) (integers_of_result answered))
  negate := by
    intro value _ _ nonzero
    change unary .neg (.integer value) = _
    unfold unary
    split
    case h_1 same => exact absurd (Constant.integer.inj same) nonzero
    case h_2 => rfl
  add_zero zero isNumber unsigned := binary_of_calculate (calculate_add_zero zero isNumber unsigned)
  zero_add zero isNumber unsigned := binary_of_calculate (calculate_zero_add zero isNumber unsigned)
  sub_zero zero isNumber unsigned := binary_of_calculate (calculate_sub_zero zero isNumber unsigned)
  mul_one := by
    intro value one isOne isNumber
    change binary .mul value (constant one) = _
    rw [constant_of_isOne isOne]
    exact binary_of_calculate (calculate_mul_one isNumber)
  one_mul := by
    intro value one isOne isNumber
    change binary .mul (constant one) value = _
    rw [constant_of_isOne isOne]
    exact binary_of_calculate (calculate_one_mul isNumber)
  div_one := by
    intro value one isOne isNumber
    change binary .div value (constant one) = _
    rw [constant_of_isOne isOne]
    exact binary_of_calculate (calculate_div_one isNumber)
  mul_zero zero isFinite := binary_of_calculate (calculate_mul_zero zero isFinite)
  zero_mul zero isFinite := binary_of_calculate (calculate_zero_mul zero isFinite)

end Calculating

/-- Simplifying an expression overflows nowhere and keeps what it evaluates to and does in every
state of the machine, if every rewrite on the way meets operands it is right for. -/
theorem simplifyExpr_keeps (arithmetic : Arithmetic host) (expression : Expression)
    (sound : arithmetic.Sound expression) :
    ∃ result, simplifyExpr expression = .ok result ∧
      (result.evaluate : Exec host host.Val) = expression.evaluate :=
  arithmetic.keeps_simplifyExpr sound

/-- A register as a boolean. -/
def asBoolean : Expression :=
  .conditional (.register 0) (.value (.constant (.bool true))) (.value (.constant (.bool false)))

/-- Two negations of a boolean, an exact quotient and a product of integers. -/
def simplifiable : Expression :=
  .conditional (.unary .not (.unary .not asBoolean))
    (.binary .div (.value (.constant (.integer 6))) (.value (.constant (.integer 3))))
    (.binary .mul (.value (.constant (.integer 1))) (.value (.constant (.integer 7))))

theorem returns_asBoolean : Returns (asBoolean.evaluate : Exec host host.Val) fun value =>
    ∃ flag, value = host.constant (.bool flag) := by
  apply returns_bind
  intro value
  exact returns_ite (returns_pure ⟨true, rfl⟩) (returns_pure ⟨false, rfl⟩)

theorem simplifiable_sound (arithmetic : Arithmetic host) : arithmetic.Sound simplifiable := by
  refine ⟨⟨⟨⟨trivial, trivial, trivial⟩, ?_⟩, ?_⟩, ⟨trivial, trivial, ?_⟩, ⟨trivial, trivial, ?_⟩⟩
  · intro operand ran
    cases ran
    trivial
  · intro operand ran
    cases ran
    exact returns_asBoolean
  · intro left right ranLeft ranRight
    cases ranLeft
    cases ranRight
    rintro _ _ ⟨rfl⟩ ⟨rfl⟩
    exact ⟨by decide, by decide, by decide, by decide⟩
  · intro left right ranLeft ranRight
    cases ranLeft
    cases ranRight
    rintro _ _ ⟨rfl⟩ ⟨rfl⟩
    exact ⟨by decide, by decide, by unfold Exact; decide⟩

theorem simplifiable_keeps :
    ∃ result, simplifyExpr simplifiable = .ok result ∧
      (result.evaluate : Exec Calculating.host Calculating.host.Val) = simplifiable.evaluate :=
  simplifyExpr_keeps Calculating.arithmetic simplifiable (simplifiable_sound _)

/-- A call multiplied by zero. -/
def discarded : Expression :=
  .binary .mul (.call (.register 0) []) (.value (.constant (.integer 0)))

/-- The smallest integer, negated. -/
def negatedLeast : Expression := .unary .neg (.value (.constant (.integer (-2 ^ 31))))

/-- The call of a product with zero is gone, and the negation of the smallest integer
overflows. -/
theorem simplifyExpr_changes :
    ¬ (∀ host : Host, Nonempty (Arithmetic host) → ∀ expression : Expression,
      (∃ result, simplifyExpr expression = .ok result) →
      ∃ result, simplifyExpr expression = .ok result ∧
        (result.evaluate : Exec host host.Val) = expression.evaluate) ∧
    simplifyExpr negatedLeast = .panic := by
  constructor
  · intro all
    obtain ⟨result, ran, kept⟩ := all Calculating.host ⟨Calculating.arithmetic⟩ discarded ⟨_, rfl⟩
    cases ran
    have logs := congrArg (fun (code : Exec Calculating.host Calculating.host.Val) =>
      (code ⟨fun _ => none, Tracing.blank, .other ⟨0, 0⟩⟩).2.world.log) kept
    cases logs
  · rfl

end HermesDecomp.Ir
