import HermesDecomp.Transforms.ConditionalsMeaning

/-!
# Where rewrites of operators are right

The machine's integers stand for doubles, and an operand of unknown type for a number. What an
engine answers to the operators involved is given by what JavaScript says of numbers: an
operator on two integers has an integer result unless it is a fraction or the negative zero, and
zero or one are neutral for numbers only. An expression keeps its meaning where each rewrite
meets operands that JavaScript treats as the rewrite does.
-/

namespace HermesDecomp.Ir

/-- A 32-bit machine integer. -/
def IsWord (value : Int) : Prop := -2 ^ 31 ≤ value ∧ value < 2 ^ 31

instance (value : Int) : Decidable (IsWord value) := by
  unfold IsWord
  infer_instance

namespace Constant

/-- Zero, of either sign. -/
def isZero : Constant → Bool
  | .integer value => value == 0
  | .number double => double == ⟨0⟩
  | _ => false

def isOne : Constant → Bool
  | .integer value => value == 1
  | .number double => double == ⟨0x3FF0000000000000⟩
  | _ => false

/-- Whether a zero is the negative one. -/
def isNegative : Constant → Bool
  | .number double => double.negative
  | _ => false

end Constant

def isZero : Expression → Bool
  | .value (.constant constant) => constant.isZero
  | _ => false

def isOne : Expression → Bool
  | .value (.constant constant) => constant.isOne
  | _ => false

/-- A result of checked 32-bit arithmetic. -/
def checkedWord (value : Int) : Option Int := if IsWord value then some value else none

/-- A binary operator on two machine integers, where the machine has a result. -/
def foldIntBinary (op : BinaryOp) (l r : Int) : Option Int :=
  match op with
  | .add => checkedWord (l + r)
  | .sub => checkedWord (l - r)
  | .mul => checkedWord (l * r)
  | .div => if r ≠ 0 then checkedWord (l.tdiv r) else none
  | .mod => if r ≠ 0 then (checkedWord (l.tdiv r)).map fun _ => l.tmod r else none
  | .bitAnd => some (BitVec.ofInt 32 l &&& BitVec.ofInt 32 r).toInt
  | .bitOr => some (BitVec.ofInt 32 l ||| BitVec.ofInt 32 r).toInt
  | .bitXor => some (BitVec.ofInt 32 l ^^^ BitVec.ofInt 32 r).toInt
  | .shl => some (BitVec.ofInt 32 l <<< ((BitVec.ofInt 32 r).toNat % 32)).toInt
  | .shr => some ((BitVec.ofInt 32 l).sshiftRight ((BitVec.ofInt 32 r).toNat % 32)).toInt
  | _ => none

/-- The fold of an operator on two operands, where both are integer constants. -/
def foldOperands (op : BinaryOp) : Expression → Expression → Option Int
  | .value (.constant (.integer l)), .value (.constant (.integer r)) => foldIntBinary op l r
  | _, _ => none

/-- A binary operator where one operand is neutral or a product is zero. -/
def simplifyIdentity (op : BinaryOp) (left right : Expression) : Expression :=
  match op with
  | .add => if isZero right then left else if isZero left then right else .binary op left right
  | .sub => if isZero right then left else .binary op left right
  | .mul =>
      if isOne right then left
      else if isOne left then right
      else if isZero left || isZero right then .value (.constant (.integer 0))
      else .binary op left right
  | .div => if isOne right then left else .binary op left right
  | _ => .binary op left right

/-- A binary operator on simplified operands. -/
def simplifyBinary (op : BinaryOp) (left right : Expression) : Expression :=
  match foldOperands op left right with
  | some result => .value (.constant (.integer result))
  | none => simplifyIdentity op left right

/-- A unary operator on a simplified operand. The negation of an integer constant overflows
where its result is no machine integer. -/
def simplifyUnary (op : UnaryOp) (operand : Expression) : Outcome Empty Expression :=
  match op, operand with
  | .not, .unary .not inner => pure inner
  | .not, .value (.constant (.bool value)) => pure (.value (.constant (.bool !value)))
  | .neg, .value (.constant (.integer value)) =>
      Outcome.checked (IsWord (-value)) (.value (.constant (.integer (-value))))
  | _, _ => pure (.unary op operand)

/-- A conditional of simplified parts. -/
def simplifyConditional (condition thenExpr elseExpr : Expression) : Expression :=
  match condition with
  | .value (.constant (.bool true)) => thenExpr
  | .value (.constant (.bool false)) => elseExpr
  | _ => .conditional condition thenExpr elseExpr

mutual

/-- Simplify an expression, its parts first. -/
def simplifyExpr : Expression → Outcome Empty Expression
  | .binary op left right => do
      let left ← simplifyExpr left
      let right ← simplifyExpr right
      pure (simplifyBinary op left right)
  | .unary op operand => do
      let operand ← simplifyExpr operand
      simplifyUnary op operand
  | .conditional condition thenExpr elseExpr => do
      let condition ← simplifyExpr condition
      let thenExpr ← simplifyExpr thenExpr
      let elseExpr ← simplifyExpr elseExpr
      pure (simplifyConditional condition thenExpr elseExpr)
  | .member object property optional => do
      let object ← simplifyExpr object
      let property ← simplifyKey property
      pure (.member object property optional)
  | .call callee arguments => do
      let callee ← simplifyExpr callee
      let arguments ← simplifyAll arguments
      pure (.call callee arguments)
  | .new callee arguments => do
      let callee ← simplifyExpr callee
      let arguments ← simplifyAll arguments
      pure (.new callee arguments)
  | .array elements => do
      let elements ← simplifyElements elements
      pure (.array elements)
  | .object properties => do
      let properties ← simplifyProperties properties
      pure (.object properties)
  | .assignment target value => do
      let target ← simplifyTarget target
      let value ← simplifyExpr value
      pure (.assignment target value)
  | .spread operand => do
      let operand ← simplifyExpr operand
      pure (.spread operand)
  | .templateLiteral quasis expressions => do
      let expressions ← simplifyAll expressions
      pure (.templateLiteral quasis expressions)
  | .yield value delegate => do
      let value ← simplifyExpr value
      pure (.yield value delegate)
  | .await operand => do
      let operand ← simplifyExpr operand
      pure (.await operand)
  | .jsxElement tag attributes children => do
      let attributes ← simplifyAttributes attributes
      let children ← simplifyAll children
      pure (.jsxElement tag attributes children)
  | expression => pure expression

def simplifyAll : List Expression → Outcome Empty (List Expression)
  | [] => pure []
  | first :: rest => do
      let first ← simplifyExpr first
      let rest ← simplifyAll rest
      pure (first :: rest)

def simplifyElements : List (Option Expression) → Outcome Empty (List (Option Expression))
  | [] => pure []
  | none :: rest => do
      let rest ← simplifyElements rest
      pure (none :: rest)
  | some first :: rest => do
      let first ← simplifyExpr first
      let rest ← simplifyElements rest
      pure (some first :: rest)

def simplifyAttributes : List (String × Expression) → Outcome Empty (List (String × Expression))
  | [] => pure []
  | (name, first) :: rest => do
      let first ← simplifyExpr first
      let rest ← simplifyAttributes rest
      pure ((name, first) :: rest)

def simplifyKey : PropertyKey → Outcome Empty PropertyKey
  | .computed key => do
      let key ← simplifyExpr key
      pure (.computed key)
  | key => pure key

def simplifyProperties : List ObjectProperty → Outcome Empty (List ObjectProperty)
  | [] => pure []
  | .mk key value :: rest => do
      let key ← simplifyKey key
      let value ← simplifyExpr value
      let rest ← simplifyProperties rest
      pure (.mk key value :: rest)

def simplifyTarget : AssignTarget → Outcome Empty AssignTarget
  | .binding binding => pure (.binding binding)
  | .member object property => do
      let object ← simplifyExpr object
      pure (.member object property)
  | .index object key => do
      let object ← simplifyExpr object
      let key ← simplifyExpr key
      pure (.index object key)
  | .destructuringArray elements => do
      let elements ← simplifyItems elements
      pure (.destructuringArray elements)
  | .destructuringArrayRest elements rest => do
      let elements ← simplifyItems elements
      let rest ← simplifyTarget rest
      pure (.destructuringArrayRest elements rest)
  | .destructuringObject properties => do
      let properties ← simplifyFields properties
      pure (.destructuringObject properties)
  | .destructuringObjectRest properties rest => do
      let properties ← simplifyFields properties
      let rest ← simplifyTarget rest
      pure (.destructuringObjectRest properties rest)
  | .rest target => do
      let target ← simplifyTarget target
      pure (.rest target)

def simplifyItems : List (Option (AssignTarget × Option Expression)) →
    Outcome Empty (List (Option (AssignTarget × Option Expression)))
  | [] => pure []
  | none :: rest => do
      let rest ← simplifyItems rest
      pure (none :: rest)
  | some (target, none) :: rest => do
      let target ← simplifyTarget target
      let rest ← simplifyItems rest
      pure (some (target, none) :: rest)
  | some (target, some fallback) :: rest => do
      let target ← simplifyTarget target
      let fallback ← simplifyExpr fallback
      let rest ← simplifyItems rest
      pure (some (target, some fallback) :: rest)

def simplifyFields : List (String × AssignTarget × Option Expression) →
    Outcome Empty (List (String × AssignTarget × Option Expression))
  | [] => pure []
  | (key, target, none) :: rest => do
      let target ← simplifyTarget target
      let rest ← simplifyFields rest
      pure ((key, target, none) :: rest)
  | (key, target, some fallback) :: rest => do
      let target ← simplifyTarget target
      let fallback ← simplifyExpr fallback
      let rest ← simplifyFields rest
      pure ((key, target, some fallback) :: rest)

end

open Action

variable {host : Host} {α β γ δ : Type}

/-- The result of an operator on two integers, where it is an integer other than the negative
zero. -/
inductive IntegerResult : BinaryOp → Int → Int → Int → Prop
  | add (l r : Int) : IntegerResult .add l r (l + r)
  | sub (l r : Int) : IntegerResult .sub l r (l - r)
  | mul {l r : Int} (signed : l * r = 0 → 0 ≤ l ∧ 0 ≤ r) : IntegerResult .mul l r (l * r)
  | div {l r quotient : Int} (nonzero : r ≠ 0) (whole : quotient * r = l)
      (signed : l = 0 → 0 < r) : IntegerResult .div l r quotient
  | mod {l r : Int} (nonzero : r ≠ 0) (signed : l.tmod r = 0 → 0 ≤ l) :
      IntegerResult .mod l r (l.tmod r)
  | bitAnd (l r : Int) : IntegerResult .bitAnd l r (BitVec.ofInt 32 l &&& BitVec.ofInt 32 r).toInt
  | bitOr (l r : Int) :
      IntegerResult .bitOr l r (BitVec.ofInt 32 l ||| BitVec.ofInt 32 r).toInt
  | bitXor (l r : Int) : IntegerResult .bitXor l r (BitVec.ofInt 32 l ^^^ BitVec.ofInt 32 r).toInt
  | shl (l r : Int) : IntegerResult .shl l r
      (BitVec.ofInt 32 l <<< ((BitVec.ofInt 32 r).toNat % 32)).toInt
  | shr (l r : Int) : IntegerResult .shr l r
      ((BitVec.ofInt 32 l).sshiftRight ((BitVec.ofInt 32 r).toNat % 32)).toInt

/-- What an engine answers to the operators on numbers: which of its values are numbers, which
is the negative zero, and which are finite and have a given sign. -/
structure Arithmetic (host : Host) where
  number : host.Val → Prop
  negativeZero : host.Val → Prop
  finite : Bool → host.Val → Prop
  branching : host.Branching
  integer : ∀ {op l r result}, IsWord l → IsWord r → IsWord result → IntegerResult op l r result →
    host.binary op (host.constant (.integer l)) (host.constant (.integer r)) =
      pure (host.constant (.integer result))
  negate : ∀ {value : Int}, IsWord value → IsWord (-value) → value ≠ 0 →
    host.unary .neg (host.constant (.integer value)) = pure (host.constant (.integer (-value)))
  add_zero : ∀ {value} {zero : Constant}, zero.isZero = true → number value →
    zero.isNegative = true ∨ ¬ negativeZero value →
    host.binary .add value (host.constant zero) = pure value
  zero_add : ∀ {value} {zero : Constant}, zero.isZero = true → number value →
    zero.isNegative = true ∨ ¬ negativeZero value →
    host.binary .add (host.constant zero) value = pure value
  sub_zero : ∀ {value} {zero : Constant}, zero.isZero = true → number value →
    zero.isNegative = false ∨ ¬ negativeZero value →
    host.binary .sub value (host.constant zero) = pure value
  mul_one : ∀ {value} {one : Constant}, one.isOne = true → number value →
    host.binary .mul value (host.constant one) = pure value
  one_mul : ∀ {value} {one : Constant}, one.isOne = true → number value →
    host.binary .mul (host.constant one) value = pure value
  div_one : ∀ {value} {one : Constant}, one.isOne = true → number value →
    host.binary .div value (host.constant one) = pure value
  mul_zero : ∀ {value} {zero : Constant}, zero.isZero = true → finite zero.isNegative value →
    host.binary .mul value (host.constant zero) = pure (host.constant (.integer 0))
  zero_mul : ∀ {value} {zero : Constant}, zero.isZero = true → finite zero.isNegative value →
    host.binary .mul (host.constant zero) value = pure (host.constant (.integer 0))

/-- Whether an expression is the negative zero. -/
def isNegative : Expression → Bool
  | .value (.constant constant) => constant.isNegative
  | _ => false

/-- The machine's result of an operator is JavaScript's: a quotient has no remainder, and a
result of zero is not the negative one. -/
def Exact : BinaryOp → Int → Int → Prop
  | .mul, l, r => l * r = 0 → 0 ≤ l ∧ 0 ≤ r
  | .div, l, r => r ∣ l ∧ (l = 0 → 0 < r)
  | .mod, l, r => l.tmod r = 0 → 0 ≤ l
  | _, _, _ => True

/-- Evaluation does nothing and ends with a value that has a property. -/
def Settles (part : Exec host α) (holds : α → Prop) : Prop :=
  ∀ machine, ∃ value, part machine = (.ok value, machine) ∧ holds value

namespace Arithmetic

variable (arithmetic : Arithmetic host)

/-- A dropped operand is neutral for every value of the other one, and a product with zero is a
positive zero and does nothing else. -/
def IdentitySound (op : BinaryOp) (left right : Expression) : Prop :=
  match op with
  | .add =>
      if isZero right then
        Returns left.evaluate fun value =>
          arithmetic.number value ∧ (isNegative right = true ∨ ¬ arithmetic.negativeZero value)
      else if isZero left then
        Returns right.evaluate fun value =>
          arithmetic.number value ∧ (isNegative left = true ∨ ¬ arithmetic.negativeZero value)
      else True
  | .sub =>
      if isZero right then
        Returns left.evaluate fun value =>
          arithmetic.number value ∧ (isNegative right = false ∨ ¬ arithmetic.negativeZero value)
      else True
  | .mul =>
      if isOne right then Returns left.evaluate arithmetic.number
      else if isOne left then Returns right.evaluate arithmetic.number
      else if isZero left then Settles right.evaluate (arithmetic.finite (isNegative left))
      else if isZero right then Settles left.evaluate (arithmetic.finite (isNegative right))
      else True
  | .div => if isOne right then Returns left.evaluate arithmetic.number else True
  | _ => True

/-- A folded result is JavaScript's, and a rewrite by an identity is right. -/
def BinarySound (op : BinaryOp) (left right : Expression) : Prop :=
  match foldOperands op left right with
  | some _ => ∀ l r, left = .value (.constant (.integer l)) →
      right = .value (.constant (.integer r)) → IsWord l ∧ IsWord r ∧ Exact op l r
  | none => arithmetic.IdentitySound op left right

/-- Two cancelled negations stand around a boolean, and a negated integer constant is neither
zero nor the smallest one. -/
def UnarySound (host : Host) (op : UnaryOp) (operand : Expression) : Prop :=
  match op, operand with
  | .not, .unary .not inner =>
      Returns (inner.evaluate : Exec host host.Val) fun value =>
        ∃ flag, value = host.constant (.bool flag)
  | .neg, .value (.constant (.integer value)) => IsWord value ∧ value ≠ 0 ∧ value ≠ -2 ^ 31
  | _, _ => True

mutual

/-- Every rewrite on the way meets operands it is right for. -/
def Sound : Expression → Prop
  | .binary op left right =>
      Sound left ∧ Sound right ∧ ∀ left' right', simplifyExpr left = .ok left' →
        simplifyExpr right = .ok right' → arithmetic.BinarySound op left' right'
  | .unary op operand =>
      Sound operand ∧ ∀ operand', simplifyExpr operand = .ok operand' → UnarySound host op operand'
  | .conditional condition thenExpr elseExpr => Sound condition ∧ Sound thenExpr ∧ Sound elseExpr
  | .member object property _ => Sound object ∧ SoundKey property
  | .call callee arguments => Sound callee ∧ SoundAll arguments
  | .new callee arguments => Sound callee ∧ SoundAll arguments
  | .array elements => SoundElements elements
  | .object properties => SoundProperties properties
  | .assignment target value => SoundTarget target ∧ Sound value
  | .spread operand => Sound operand
  | .templateLiteral _ expressions => SoundAll expressions
  | .yield value _ => Sound value
  | .await operand => Sound operand
  | .jsxElement _ attributes children => SoundAttributes attributes ∧ SoundAll children
  | _ => True

def SoundAll : List Expression → Prop
  | [] => True
  | first :: rest => Sound first ∧ SoundAll rest

def SoundElements : List (Option Expression) → Prop
  | [] => True
  | none :: rest => SoundElements rest
  | some first :: rest => Sound first ∧ SoundElements rest

def SoundAttributes : List (String × Expression) → Prop
  | [] => True
  | (_, first) :: rest => Sound first ∧ SoundAttributes rest

def SoundKey : PropertyKey → Prop
  | .computed key => Sound key
  | _ => True

def SoundProperties : List ObjectProperty → Prop
  | [] => True
  | .mk key value :: rest => SoundKey key ∧ Sound value ∧ SoundProperties rest

def SoundTarget : AssignTarget → Prop
  | .binding _ => True
  | .member object _ => Sound object
  | .index object key => Sound object ∧ Sound key
  | .destructuringArray elements => SoundItems elements
  | .destructuringArrayRest elements rest => SoundItems elements ∧ SoundTarget rest
  | .destructuringObject properties => SoundFields properties
  | .destructuringObjectRest properties rest => SoundFields properties ∧ SoundTarget rest
  | .rest target => SoundTarget target

def SoundItems : List (Option (AssignTarget × Option Expression)) → Prop
  | [] => True
  | none :: rest => SoundItems rest
  | some (target, none) :: rest => SoundTarget target ∧ SoundItems rest
  | some (target, some fallback) :: rest => SoundTarget target ∧ Sound fallback ∧ SoundItems rest

def SoundFields : List (String × AssignTarget × Option Expression) → Prop
  | [] => True
  | (_, target, none) :: rest => SoundTarget target ∧ SoundFields rest
  | (_, target, some fallback) :: rest => SoundTarget target ∧ Sound fallback ∧ SoundFields rest

end

end Arithmetic

/-- A rewrite succeeds, and its result has the expected meaning. -/
def Keeps (outcome : Outcome Empty α) (meaning : α → β) (expected : β) : Prop :=
  ∃ result, outcome = .ok result ∧ meaning result = expected

theorem keeps_pure {result : α} {meaning : α → β} {expected : β}
    (same : meaning result = expected) : Keeps (pure result) meaning expected :=
  ⟨result, rfl, same⟩

/-- A rewrite of a part and what is made of any result with the meaning of the part. -/
theorem Keeps.bind {outcome : Outcome Empty α} {meaning : α → β} {expected : β}
    {next : α → Outcome Empty γ} {meaning' : γ → δ} {expected' : δ}
    (first : Keeps outcome meaning expected)
    (rest : ∀ result, outcome = .ok result → meaning result = expected →
      Keeps (next result) meaning' expected') : Keeps (outcome >>= next) meaning' expected' := by
  obtain ⟨result, ran, same⟩ := first
  rw [ran]
  exact rest result ran same

theorem checkedWord_eq_some {value result : Int} :
    checkedWord value = some result ↔ IsWord value ∧ value = result := by
  unfold checkedWord
  split <;> simp_all

theorem isWord_toInt (word : BitVec 32) : IsWord word.toInt := by
  have low := BitVec.le_toInt word
  have high := BitVec.toInt_lt (x := word)
  unfold IsWord
  omega

theorem isWord_tmod {l : Int} (word : IsWord l) (r : Int) : IsWord (l.tmod r) := by
  obtain ⟨low, high⟩ := word
  have bounded : (l.tmod r).natAbs ≤ l.natAbs := by
    rw [Int.natAbs_tmod]
    exact Nat.mod_le _ _
  have positive : 0 ≤ l → 0 ≤ l.tmod r := Int.tmod_nonneg r
  have negative : l ≤ 0 → l.tmod r ≤ 0 := by
    intro below
    have flipped := Int.tmod_nonneg r (Int.neg_nonneg_of_nonpos below)
    rw [Int.neg_tmod] at flipped
    omega
  unfold IsWord
  omega

variable {op : BinaryOp}

/-- A fold that is exact has the result that JavaScript has. -/
theorem integerResult_of_fold {l r result : Int} (word : IsWord l)
    (folds : foldIntBinary op l r = some result) (exactly : Exact op l r) :
    IntegerResult op l r result ∧ IsWord result := by
  cases op with
  | add =>
    obtain ⟨fits, rfl⟩ := checkedWord_eq_some.mp folds
    exact ⟨.add l r, fits⟩
  | sub =>
    obtain ⟨fits, rfl⟩ := checkedWord_eq_some.mp folds
    exact ⟨.sub l r, fits⟩
  | mul =>
    obtain ⟨fits, rfl⟩ := checkedWord_eq_some.mp folds
    exact ⟨.mul exactly, fits⟩
  | div =>
    obtain ⟨nonzero, folds⟩ := Option.ite_none_right_eq_some.mp folds
    obtain ⟨fits, rfl⟩ := checkedWord_eq_some.mp folds
    exact ⟨.div nonzero (Int.tdiv_mul_cancel exactly.1) exactly.2, fits⟩
  | mod =>
    obtain ⟨nonzero, folds⟩ := Option.ite_none_right_eq_some.mp folds
    obtain ⟨_, _, rfl⟩ := Option.map_eq_some_iff.mp folds
    exact ⟨.mod nonzero exactly, isWord_tmod word r⟩
  | bitAnd =>
    cases folds
    exact ⟨.bitAnd l r, isWord_toInt _⟩
  | bitOr =>
    cases folds
    exact ⟨.bitOr l r, isWord_toInt _⟩
  | bitXor =>
    cases folds
    exact ⟨.bitXor l r, isWord_toInt _⟩
  | shl =>
    cases folds
    exact ⟨.shl l r, isWord_toInt _⟩
  | shr =>
    cases folds
    exact ⟨.shr l r, isWord_toInt _⟩
  | uShr | eq | strictEq | neq | strictNeq | lt | le | gt | ge | and | or | isIn | instanceOf
  | nullishCoalesce | logicalAnd | logicalOr | exp => cases folds

/-- Only two integer constants fold. -/
theorem foldOperands_eq_some {left right : Expression} {result : Int}
    (found : foldOperands op left right = some result) :
    ∃ l r, left = .value (.constant (.integer l)) ∧ right = .value (.constant (.integer r)) ∧
      foldIntBinary op l r = some result := by
  unfold foldOperands at found
  split at found
  · exact ⟨_, _, rfl, rfl, found⟩
  · cases found

theorem isZero_eq_true {expression : Expression} (zero : isZero expression = true) :
    ∃ constant, expression = .value (.constant constant) ∧ constant.isZero = true := by
  unfold isZero at zero
  split at zero
  · exact ⟨_, rfl, zero⟩
  · cases zero

theorem isOne_eq_true {expression : Expression} (one : isOne expression = true) :
    ∃ constant, expression = .value (.constant constant) ∧ constant.isOne = true := by
  unfold isOne at one
  split at one
  · exact ⟨_, rfl, one⟩
  · cases one

/-- What follows a part may be replaced by what does the same on the values of the part. -/
theorem bind_of_returns {part : Exec host α} {holds : α → Prop} (returned : Returns part holds)
    {next next' : α → Exec host β} (same : ∀ value, holds value → next value = next' value) :
    part >>= next = part >>= next' := by
  funext machine
  have held := returned machine
  rw [bind_apply, bind_apply]
  rcases ran : part machine with ⟨value | _ | _, middle⟩
  · rw [ran] at held
    exact congrFun (same value (held value rfl)) middle
  · rfl
  · rfl

/-- An operator with a neutral constant on the right. -/
theorem neutral_right {left : Expression} {constant : Constant} {holds : host.Val → Prop}
    (returned : Returns left.evaluate holds)
    (neutral : ∀ value, holds value → host.binary op value (host.constant constant) = pure value) :
    left.evaluate =
      thenPerform left.evaluate (pure (host.constant constant)) (host.binary op) := by
  have same : left.evaluate >>= (fun value => (pure value : Exec host host.Val)) =
      left.evaluate >>= fun value => perform (host.binary op value (host.constant constant)) :=
    bind_of_returns returned fun value held => by
      rw [neutral value held]
      rfl
  exact (bind_pure _).symm.trans same

/-- An operator with a neutral constant on the left. -/
theorem neutral_left {right : Expression} {constant : Constant} {holds : host.Val → Prop}
    (returned : Returns right.evaluate holds)
    (neutral : ∀ value, holds value → host.binary op (host.constant constant) value = pure value) :
    right.evaluate =
      thenPerform (pure (host.constant constant)) right.evaluate (host.binary op) := by
  have same : right.evaluate >>= (fun value => (pure value : Exec host host.Val)) =
      right.evaluate >>= fun value => perform (host.binary op (host.constant constant) value) :=
    bind_of_returns returned fun value held => by
      rw [neutral value held]
      rfl
  exact (bind_pure _).symm.trans same

/-- What settles only hands its value on. -/
theorem bind_of_settles {part : Exec host α} {holds : α → Prop} (settles : Settles part holds)
    {next : α → Exec host β} {result : Exec host β}
    (same : ∀ value, holds value → next value = result) : part >>= next = result := by
  funext machine
  obtain ⟨value, ran, held⟩ := settles machine
  rw [bind_apply, ran]
  exact congrFun (same value held) machine

/-- Two negations of a boolean. -/
theorem perform_not_not (branching : host.Branching) (flag : Bool) :
    (perform (host.unary .not (host.constant (.bool flag))) >>= fun other =>
        perform (host.unary .not other) : Exec host host.Val) =
      pure (host.constant (.bool flag)) := by
  rw [branching.negation]
  change perform (host.unary .not (host.constant (.bool (!host.truthy _)))) = _
  rw [branching.negation, branching.truthy_bool, branching.truthy_bool, Bool.not_not]
  rfl

namespace Arithmetic

variable (arithmetic : Arithmetic host)

variable {left right : Expression}

theorem evaluate_simplify_add (sound : arithmetic.IdentitySound .add left right) :
    (simplifyIdentity .add left right).evaluate =
      (binaryOf .add left.evaluate right.evaluate : Exec host host.Val) := by
  unfold IdentitySound at sound
  unfold simplifyIdentity
  by_cases onRight : isZero right = true
  · obtain ⟨constant, rfl, zero⟩ := isZero_eq_true onRight
    simp only [onRight, if_true] at sound ⊢
    exact neutral_right sound fun value held => arithmetic.add_zero zero held.1 held.2
  · by_cases onLeft : isZero left = true
    · obtain ⟨constant, rfl, zero⟩ := isZero_eq_true onLeft
      simp only [onRight, onLeft, if_true] at sound ⊢
      exact neutral_left sound fun value held => arithmetic.zero_add zero held.1 held.2
    · simp only [onRight, onLeft]
      rfl

theorem evaluate_simplify_sub (sound : arithmetic.IdentitySound .sub left right) :
    (simplifyIdentity .sub left right).evaluate =
      (binaryOf .sub left.evaluate right.evaluate : Exec host host.Val) := by
  unfold IdentitySound at sound
  unfold simplifyIdentity
  by_cases onRight : isZero right = true
  · obtain ⟨constant, rfl, zero⟩ := isZero_eq_true onRight
    simp only [onRight, if_true] at sound ⊢
    exact neutral_right sound fun value held => arithmetic.sub_zero zero held.1 held.2
  · simp only [onRight]
    rfl

theorem evaluate_simplify_div (sound : arithmetic.IdentitySound .div left right) :
    (simplifyIdentity .div left right).evaluate =
      (binaryOf .div left.evaluate right.evaluate : Exec host host.Val) := by
  unfold IdentitySound at sound
  unfold simplifyIdentity
  by_cases onRight : isOne right = true
  · obtain ⟨constant, rfl, one⟩ := isOne_eq_true onRight
    simp only [onRight, if_true] at sound ⊢
    exact neutral_right sound fun value held => arithmetic.div_one one held
  · simp only [onRight]
    rfl

theorem evaluate_simplify_mul (sound : arithmetic.IdentitySound .mul left right) :
    (simplifyIdentity .mul left right).evaluate =
      (binaryOf .mul left.evaluate right.evaluate : Exec host host.Val) := by
  unfold IdentitySound at sound
  unfold simplifyIdentity
  by_cases oneRight : isOne right = true
  · obtain ⟨constant, rfl, one⟩ := isOne_eq_true oneRight
    simp only [oneRight, if_true] at sound ⊢
    exact neutral_right sound fun value held => arithmetic.mul_one one held
  · by_cases oneLeft : isOne left = true
    · obtain ⟨constant, rfl, one⟩ := isOne_eq_true oneLeft
      simp only [oneRight, oneLeft, if_true] at sound ⊢
      exact neutral_left sound fun value held => arithmetic.one_mul one held
    · by_cases zeroLeft : isZero left = true
      · obtain ⟨constant, rfl, zero⟩ := isZero_eq_true zeroLeft
        simp only [oneRight, oneLeft, zeroLeft, if_true, Bool.true_or] at sound ⊢
        refine (bind_of_settles sound fun value held => ?_).symm
        rw [arithmetic.zero_mul zero held]
        rfl
      · by_cases zeroRight : isZero right = true
        · obtain ⟨constant, rfl, zero⟩ := isZero_eq_true zeroRight
          simp only [oneRight, oneLeft, zeroLeft, zeroRight, if_true, Bool.or_true] at sound ⊢
          refine (bind_of_settles sound fun value held => ?_).symm
          change perform (host.binary .mul value (host.constant constant)) = _
          rw [arithmetic.mul_zero zero held]
          rfl
        · simp only [oneRight, oneLeft, zeroLeft, zeroRight, Bool.or_self]
          rfl

variable {op : BinaryOp}

/-- A right rewrite by an identity keeps the meaning of the operator. -/
theorem evaluate_simplifyIdentity (sound : arithmetic.IdentitySound op left right) :
    (simplifyIdentity op left right).evaluate =
      (binaryOf op left.evaluate right.evaluate : Exec host host.Val) := by
  cases op with
  | add => exact arithmetic.evaluate_simplify_add sound
  | sub => exact arithmetic.evaluate_simplify_sub sound
  | mul => exact arithmetic.evaluate_simplify_mul sound
  | div => exact arithmetic.evaluate_simplify_div sound
  | mod | bitAnd | bitOr | bitXor | shl | shr | uShr | eq | strictEq | neq | strictNeq | lt | le
  | gt | ge | and | or | isIn | instanceOf | nullishCoalesce | logicalAnd | logicalOr | exp => rfl

/-- An operator that folds runs its operation on both constants. -/
theorem binaryOf_of_fold {l r result : Int} (folds : foldIntBinary op l r = some result)
    (left right : host.Val) :
    (binaryOf op (pure left) (pure right) : Exec host host.Val) =
      perform (host.binary op left right) := by
  cases op with
  | add | sub | mul | div | mod | bitAnd | bitOr | bitXor | shl | shr => rfl
  | uShr | eq | strictEq | neq | strictNeq | lt | le | gt | ge | and | or | isIn | instanceOf
  | nullishCoalesce | logicalAnd | logicalOr | exp => cases folds

/-- A right rewrite of an operator keeps its meaning. -/
theorem evaluate_simplifyBinary (sound : arithmetic.BinarySound op left right) :
    (simplifyBinary op left right).evaluate =
      (binaryOf op left.evaluate right.evaluate : Exec host host.Val) := by
  unfold BinarySound at sound
  unfold simplifyBinary
  cases found : foldOperands op left right with
  | some result =>
    obtain ⟨l, r, rfl, rfl, folds⟩ := foldOperands_eq_some found
    rw [found] at sound
    obtain ⟨onLeft, onRight, exactly⟩ := sound l r rfl rfl
    obtain ⟨answered, fits⟩ := integerResult_of_fold onLeft folds exactly
    have ran := binaryOf_of_fold folds (host.constant (.integer l)) (host.constant (.integer r))
    rw [arithmetic.integer onLeft onRight fits answered] at ran
    exact ran.symm
  | none =>
    rw [found] at sound
    exact arithmetic.evaluate_simplifyIdentity sound

include arithmetic in
/-- A right rewrite of a unary operator succeeds and keeps its meaning. -/
theorem keeps_simplifyUnary {op : UnaryOp} {operand : Expression}
    (sound : UnarySound host op operand) :
    Keeps (simplifyUnary op operand) (@Expression.evaluate host)
      (andPerform operand.evaluate (host.unary op)) := by
  unfold UnarySound at sound
  unfold simplifyUnary
  split at sound
  case h_1 inner =>
    refine keeps_pure ?_
    have same : inner.evaluate >>= (fun value => (pure value : Exec host host.Val)) =
        inner.evaluate >>= fun value =>
          perform (host.unary .not value) >>= fun other => perform (host.unary .not other) :=
      bind_of_returns sound fun value ⟨flag, isFlag⟩ => by
        rw [isFlag]
        exact (perform_not_not arithmetic.branching flag).symm
    rw [bind_pure] at same
    rw [same, Expression.evaluate, andPerform, andPerform, bind_assoc]
  case h_2 value =>
    obtain ⟨word, nonzero, notLeast⟩ := sound
    have fits : IsWord (-value) := by
      unfold IsWord at word ⊢
      omega
    refine ⟨_, Outcome.checked_eq_ok.mpr ⟨fits, rfl⟩, ?_⟩
    have ran : (andPerform (pure (host.constant (.integer value))) (host.unary .neg) :
        Exec host host.Val) = perform (host.unary .neg (host.constant (.integer value))) := rfl
    rw [arithmetic.negate word fits nonzero] at ran
    exact ran.symm
  case h_3 notNegated notInteger =>
    split
    · exact (notNegated _ rfl rfl).elim
    · refine keeps_pure ?_
      change pure _ = perform (host.unary .not (host.constant (.bool _)))
      rw [arithmetic.branching.negation, arithmetic.branching.truthy_bool]
      rfl
    · exact (notInteger _ rfl rfl).elim
    · exact keeps_pure rfl

include arithmetic in
/-- A conditional on a constant runs the arm it names. -/
theorem evaluate_simplifyConditional (condition thenExpr elseExpr : Expression) :
    (simplifyConditional condition thenExpr elseExpr).evaluate =
      (choiceOf condition.evaluate thenExpr.evaluate elseExpr.evaluate : Exec host host.Val) := by
  unfold simplifyConditional
  split
  · change _ = if host.truthy (host.constant (.bool true)) = true then _ else _
    rw [arithmetic.branching.truthy_bool]
    rfl
  · change _ = if host.truthy (host.constant (.bool false)) = true then _ else _
    rw [arithmetic.branching.truthy_bool]
    rfl
  · rfl

end Arithmetic

end HermesDecomp.Ir
