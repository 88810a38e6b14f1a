import HermesDecomp.Transforms.ConditionalsMeaning

/-!
# Simplifying logic

A walk over an expression that rewrites each negation, logical operator, strict comparison and
conditional once its parts are rewritten. A negation moves into the operands of `&&` and `||` and
turns comparisons around, operands that are constants or equal are absorbed, and a conditional
between boolean constants becomes its condition.
-/

namespace HermesDecomp.Ir

mutual

/-- Two expressions are structurally equal. -/
def exprsEqual : Expression → Expression → Bool
  | .value left, .value right => left == right
  | .member object property optional, .member object' property' optional' =>
      optional == optional' && propertyKeysEqual property property' && exprsEqual object object'
  | .call callee arguments, .call callee' arguments' =>
      exprsEqual callee callee' && exprsAllEqual arguments arguments'
  | .binary op left right, .binary op' left' right' =>
      op == op' && exprsEqual left left' && exprsEqual right right'
  | .unary op operand, .unary op' operand' => op == op' && exprsEqual operand operand'
  | .conditional condition thenExpr elseExpr, .conditional condition' thenExpr' elseExpr' =>
      exprsEqual condition condition' && exprsEqual thenExpr thenExpr' &&
        exprsEqual elseExpr elseExpr'
  | .array elements, .array elements' => exprsElementsEqual elements elements'
  | _, _ => false
termination_by structural left => left

/-- Two lists of the same length with structurally equal expressions. -/
def exprsAllEqual : List Expression → List Expression → Bool
  | [], [] => true
  | first :: rest, first' :: rest' => exprsEqual first first' && exprsAllEqual rest rest'
  | _, _ => false
termination_by structural left => left

def exprsElementsEqual : List (Option Expression) → List (Option Expression) → Bool
  | [], [] => true
  | some first :: rest, some first' :: rest' =>
      exprsEqual first first' && exprsElementsEqual rest rest'
  | none :: rest, none :: rest' => exprsElementsEqual rest rest'
  | _, _ => false
termination_by structural left => left

/-- Two keys are structurally equal. Indices are never compared. -/
def propertyKeysEqual : PropertyKey → PropertyKey → Bool
  | .string text, .string text' => text == text'
  | .ident name, .ident name' => name == name'
  | .computed key, .computed key' => exprsEqual key key'
  | _, _ => false
termination_by structural left => left

end

/-- A constant, a register, a variable, `this` or the global object. -/
def isSimpleValue : Expression → Bool
  | .value (.constant _) | .value (.binding (.register _)) | .value (.binding (.variable _))
  | .value .this | .value .global => true
  | _ => false

/-- The constants `null` and `undefined`. -/
def isNullOrUndefined : Expression → Bool
  | .value (.constant .null) | .value (.constant .undefined) => true
  | _ => false

open Action

/-- A value is a boolean. -/
def Host.IsBool (host : Host) (value : host.Val) : Prop :=
  ∃ flag, value = host.constant (.bool flag)

/-- The opposite answer. -/
def Host.opposite (host : Host) (operation : Action host.World host.Val host.Val) :
    Action host.World host.Val host.Val := do
  let value ← operation
  pure (host.constant (.bool (!host.truthy value)))

/-- What an engine answers to comparisons: which values are a NaN, and which operands are not
ordered once they are converted to numbers. -/
structure Comparison (host : Host) where
  isNan : host.Val → Prop
  unordered : host.Val → host.Val → host.World → Prop
  branching : host.Branching
  truthy_nothing : host.truthy (host.constant .undefined) = false ∧
    host.truthy (host.constant .null) = false ∧ host.truthy (host.constant (.integer 0)) = false
  equality : ∀ left right, Returns (host.binary .eq left right) host.IsBool
  strictEquality : ∀ left right, Returns (host.binary .strictEq left right) host.IsBool
  neq : ∀ left right, host.binary .neq left right = host.opposite (host.binary .eq left right)
  strictNeq : ∀ left right,
    host.binary .strictNeq left right = host.opposite (host.binary .strictEq left right)
  strictEq_self : ∀ value, ¬ isNan value →
    host.binary .strictEq value value = pure (host.constant (.bool true))
  strictEq_nan : ∀ value, isNan value →
    host.binary .strictEq value value = pure (host.constant (.bool false))
  less : ∀ left right, Returns (host.binary .lt left right) host.IsBool
  lessEqual : ∀ left right, Returns (host.binary .le left right) host.IsBool
  ge : ∀ left right world, ¬ unordered left right world →
    host.binary .ge left right world = host.opposite (host.binary .lt left right) world
  gt : ∀ left right world, ¬ unordered left right world →
    host.binary .gt left right world = host.opposite (host.binary .le left right) world
  nothing : ∀ left right world, unordered left right world →
    ∃ world', ∀ op, op = .lt ∨ op = .le ∨ op = .gt ∨ op = .ge →
      host.binary op left right world = (.ok (host.constant (.bool false)), world')

namespace Comparing

/-- Strict equality. -/
def strictly : Constant → Constant → Bool
  | .number left, .number right => left == right
  | left, right => decide (left = right)

/-- Loose equality, as far as `null` and `undefined` go. -/
def loosely (left right : Constant) : Bool :=
  Tracing.nullish left && Tracing.nullish right || strictly left right

/-- Whether the left operand is less, where the operands are ordered. -/
def less? : Constant → Constant → Option Bool
  | .integer left, .integer right => some (decide (left < right))
  | .string left, .string right => some (decide (left < right))
  | _, _ => none

/-- The answer to a comparison. -/
def compare : BinaryOp → Constant → Constant → Option Bool
  | .eq, left, right => some (loosely left right)
  | .neq, left, right => some !(loosely left right)
  | .strictEq, left, right => some (strictly left right)
  | .strictNeq, left, right => some !(strictly left right)
  | .lt, left, right => some ((less? left right).getD false)
  | .gt, left, right => some ((less? right left).getD false)
  | .le, left, right => some (((less? right left).map (!·)).getD false)
  | .ge, left, right => some (((less? left right).map (!·)).getD false)
  | _, _, _ => none

def binary (op : BinaryOp) (left right : Constant) : Action Trace Constant Constant :=
  match compare op left right with
  | some answer => pure (.bool answer)
  | none => Tracing.binary op left right

/-- What `typeof` answers. -/
def typeName : Constant → String
  | .undefined => "undefined"
  | .null => "object"
  | .bool _ => "boolean"
  | .integer _ | .number _ => "number"
  | .string _ => "string"
  | .bigInt _ => "bigint"

def unary : UnaryOp → Constant → Action Trace Constant Constant
  | .typeOf, value => pure (.string (typeName value))
  | op, value => Tracing.unary op value

/-- The engine. -/
def host : Host := { Tracing.host with unary, binary, strictEqual := strictly }

theorem branching : host.Branching := ⟨fun _ => rfl, fun _ => rfl, fun _ => rfl⟩

/-- Operands are ordered or not whichever comes first. -/
theorem less?_comm {left right : Constant} : less? right left = none ↔ less? left right = none := by
  cases left <;> cases right <;> simp [less?]

/-- A value that is no NaN equals itself. -/
theorem strictly_self {value : Constant}
    (notNan : ∀ number, value = .number number → number.isNan = false) :
    strictly value value = true := by
  cases value with
  | number number =>
    have real := notNan number rfl
    change (!number.isNan && !number.isNan && (number.bits == number.bits || _)) = true
    simp [real]
  | undefined | null | bool | integer | string | bigInt => simp [strictly]

theorem strictly_nan {number : Float64} (isNan : number.isNan = true) :
    strictly (.number number) (.number number) = false := by
  change (!number.isNan && !number.isNan && _) = false
  simp [isNan]

/-- What the engine answers is what JavaScript says of comparisons. -/
def comparison : Comparison host where
  isNan := fun value : Constant => ∃ number : Float64, value = .number number ∧ number.isNan = true
  unordered left right _ := less? left right = none
  branching := branching
  truthy_nothing := ⟨rfl, rfl, rfl⟩
  equality _ _ := returns_pure ⟨_, rfl⟩
  strictEquality _ _ := returns_pure ⟨_, rfl⟩
  neq _ _ := rfl
  strictNeq _ _ := rfl
  strictEq_self := by
    intro value notNan
    have same : strictly value value = true := strictly_self fun number isNumber =>
      Bool.eq_false_iff.mpr fun isNan => notNan ⟨number, isNumber, isNan⟩
    change (pure (.bool (strictly value value)) : Action Trace Constant Constant) = _
    rw [same]
    rfl
  strictEq_nan := by
    rintro _ ⟨number, rfl, isNan⟩
    change (pure (.bool (strictly _ _)) : Action Trace Constant Constant) = _
    rw [strictly_nan isNan]
    rfl
  less _ _ := returns_pure ⟨_, rfl⟩
  lessEqual _ _ := returns_pure ⟨_, rfl⟩
  ge := by
    intro left right world ordered
    obtain ⟨answer, isLess⟩ := Option.ne_none_iff_exists'.mp ordered
    change (Outcome.ok (Constant.bool (((less? left right).map (!·)).getD false)), world) =
      (Outcome.ok (Constant.bool (!(less? left right).getD false)), world)
    rw [isLess]
    rfl
  gt := by
    intro left right world ordered
    obtain ⟨answer, isLess⟩ := Option.ne_none_iff_exists'.mp fun turned =>
      ordered (less?_comm.mp turned)
    change (Outcome.ok (Constant.bool ((less? right left).getD false)), world) =
      (Outcome.ok (Constant.bool (!((less? right left).map (!·)).getD false)), world)
    rw [isLess]
    cases answer <;> rfl
  nothing := by
    intro left right world unordered
    have turned : less? right left = none := less?_comm.mpr unordered
    refine ⟨world, ?_⟩
    rintro op (rfl | rfl | rfl | rfl)
    · change (Outcome.ok (Constant.bool ((less? left right).getD false)), world) = _
      rw [unordered]
      rfl
    · change (Outcome.ok (Constant.bool (((less? right left).map (!·)).getD false)), world) = _
      rw [turned]
      rfl
    · change (Outcome.ok (Constant.bool ((less? right left).getD false)), world) = _
      rw [turned]
      rfl
    · change (Outcome.ok (Constant.bool (((less? left right).map (!·)).getD false)), world) = _
      rw [unordered]
      rfl

end Comparing

end HermesDecomp.Ir

namespace HermesDecomp.Ir.Logic

/-- The comparison that a negated comparison turns into. -/
def negatedOp : BinaryOp → Option BinaryOp
  | .eq => some .neq
  | .neq => some .eq
  | .strictEq => some .strictNeq
  | .strictNeq => some .strictEq
  | .lt => some .ge
  | .le => some .gt
  | .gt => some .le
  | .ge => some .lt
  | _ => none

/-- The negation of an expression. -/
def negateExpr : Expression → Expression
  | .unary .not operand => operand
  | .binary op left right =>
      match negatedOp op with
      | some negated => .binary negated left right
      | none => .unary .not (.binary op left right)
  | .value (.constant (.bool value)) => .value (.constant (.bool !value))
  | expression => .unary .not expression

def isTruthy : Expression → Bool
  | .value (.constant (.bool true)) => true
  | _ => false

def isFalsy : Expression → Bool
  | .value (.constant (.bool false)) | .value (.constant .null) | .value (.constant .undefined)
  | .value (.constant (.integer 0)) => true
  | _ => false

/-- The operators whose results the pass takes for booleans. -/
def isBooleanOp : BinaryOp → Bool
  | .eq | .neq | .strictEq | .strictNeq | .lt | .le | .gt | .ge | .and | .or | .isIn
  | .instanceOf => true
  | _ => false

def isBooleanExpr : Expression → Bool
  | .value (.constant (.bool _)) => true
  | .unary .not _ => true
  | .binary op _ _ => isBooleanOp op
  | _ => false

/-- A negation of a simplified operand. -/
def simplifyUnaryNot : Expression → Expression
  | .unary .not inner => if isBooleanExpr inner then inner else .unary .not (.unary .not inner)
  | .binary .or left right => .binary .and (negateExpr left) (negateExpr right)
  | .binary .and left right => .binary .or (negateExpr left) (negateExpr right)
  | .value (.constant (.bool value)) => .value (.constant (.bool !value))
  | operand => .unary .not operand

/-- A binary operator on simplified operands. -/
def simplifyBinary (op : BinaryOp) (left right : Expression) : Expression :=
  match op with
  | .or =>
      if isFalsy right then left
      else if isFalsy left then right
      else if isTruthy right || isTruthy left then .value (.constant (.bool true))
      else if exprsEqual left right then left
      else .binary .or left right
  | .and =>
      if isTruthy right then left
      else if isTruthy left then right
      else if isFalsy right || isFalsy left then .value (.constant (.bool false))
      else if exprsEqual left right then left
      else .binary .and left right
  | .strictEq =>
      if isSimpleValue left && exprsEqual left right then .value (.constant (.bool true))
      else .binary .strictEq left right
  | .strictNeq =>
      if isSimpleValue left && exprsEqual left right then .value (.constant (.bool false))
      else .binary .strictNeq left right
  | op => .binary op left right

/-- A conditional of simplified parts. -/
def simplifyConditional (condition thenExpr elseExpr : Expression) : Expression :=
  if isTruthy condition then thenExpr
  else if isFalsy condition then elseExpr
  else if exprsEqual thenExpr elseExpr then thenExpr
  else if isTruthy thenExpr && isFalsy elseExpr && isBooleanExpr condition then condition
  else if isFalsy thenExpr && isTruthy elseExpr then negateExpr condition
  else .conditional condition thenExpr elseExpr

mutual

/-- Simplify the logic of an expression, its parts first. Operands of the other unary operators,
keys, templates and elements of markup are left alone. -/
def simplifyExpr : Expression → Expression
  | .unary .not operand => simplifyUnaryNot (simplifyExpr operand)
  | .binary op left right => simplifyBinary op (simplifyExpr left) (simplifyExpr right)
  | .conditional condition thenExpr elseExpr =>
      simplifyConditional (simplifyExpr condition) (simplifyExpr thenExpr) (simplifyExpr elseExpr)
  | .call callee arguments => .call (simplifyExpr callee) (simplifyAll arguments)
  | .new callee arguments => .new (simplifyExpr callee) (simplifyAll arguments)
  | .member object property optional => .member (simplifyExpr object) property optional
  | .array elements => .array (simplifyElements elements)
  | .object properties => .object (simplifyProperties properties)
  | .assignment target value => .assignment (simplifyTarget target) (simplifyExpr value)
  | .spread operand => .spread (simplifyExpr operand)
  | .await operand => .await (simplifyExpr operand)
  | .yield value delegate => .yield (simplifyExpr value) delegate
  | expression => expression

def simplifyAll : List Expression → List Expression
  | [] => []
  | first :: rest => simplifyExpr first :: simplifyAll rest

def simplifyElements : List (Option Expression) → List (Option Expression)
  | [] => []
  | none :: rest => none :: simplifyElements rest
  | some first :: rest => some (simplifyExpr first) :: simplifyElements rest

def simplifyProperties : List ObjectProperty → List ObjectProperty
  | [] => []
  | .mk key value :: rest => .mk key (simplifyExpr value) :: simplifyProperties rest

/-- The expressions in a target, simplified in place. -/
def simplifyTarget : AssignTarget → AssignTarget
  | .binding binding => .binding binding
  | .member object property => .member (simplifyExpr object) property
  | .index object key => .index (simplifyExpr object) (simplifyExpr key)
  | .destructuringArray elements => .destructuringArray (simplifyItems elements)
  | .destructuringArrayRest elements rest =>
      .destructuringArrayRest (simplifyItems elements) (simplifyTarget rest)
  | .destructuringObject properties => .destructuringObject (simplifyFields properties)
  | .destructuringObjectRest properties rest =>
      .destructuringObjectRest (simplifyFields properties) (simplifyTarget rest)
  | .rest target => .rest (simplifyTarget target)

def simplifyItems : List (Option (AssignTarget × Option Expression)) →
    List (Option (AssignTarget × Option Expression))
  | [] => []
  | none :: rest => none :: simplifyItems rest
  | some (target, none) :: rest => some (simplifyTarget target, none) :: simplifyItems rest
  | some (target, some fallback) :: rest =>
      some (simplifyTarget target, some (simplifyExpr fallback)) :: simplifyItems rest

def simplifyFields : List (String × AssignTarget × Option Expression) →
    List (String × AssignTarget × Option Expression)
  | [] => []
  | (key, target, none) :: rest => (key, simplifyTarget target, none) :: simplifyFields rest
  | (key, target, some fallback) :: rest =>
      (key, simplifyTarget target, some (simplifyExpr fallback)) :: simplifyFields rest

end

end HermesDecomp.Ir.Logic
