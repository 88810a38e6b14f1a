import HermesDecomp.Builder.Blocks
import HermesDecomp.Transforms.LogicRules

/-!
# What conditional jumps mean

The interpreter decides a conditional jump by a test of registers: their truth, a comparison or
its negation, the type of a value, or whether it is a builtin. The condition a jump is lowered to
says the same, except that it has the opposite ordering where the interpreter negates one, that
it cannot tell `null` from an object, and that it reads a builtin from the global object.
-/

namespace HermesDecomp.Ir

open Action List

/-- The types a mask tells apart. -/
inductive TypeKind where
  | undefined | object | string | symbol | boolean | number | bigint | function | null
deriving DecidableEq, Repr

namespace TypeKind

/-- The bit of a type in a mask. -/
def bit : TypeKind → Nat
  | undefined => 0
  | object => 1
  | string => 2
  | symbol => 3
  | boolean => 4
  | number => 5
  | bigint => 6
  | function => 7
  | null => 8

/-- What `typeof` answers. -/
def text : TypeKind → String
  | undefined => "undefined"
  | object | null => "object"
  | string => "string"
  | symbol => "symbol"
  | boolean => "boolean"
  | number => "number"
  | bigint => "bigint"
  | function => "function"

/-- The bits of the types for which `typeof` answers the same. -/
def bits : TypeKind → List Nat
  | object | null => [1, 8]
  | kind => [kind.bit]

end TypeKind

/-- What decides a conditional jump. -/
inductive JumpTest where
  | truth (negated : Bool) (value : Nat)
  | compare (op : BinaryOp) (negated : Bool) (left right : Nat)
  | isUndefined (value : Nat)
  | typeOf (mask value : Nat)
  | builtin (negated : Bool) (index value : Nat)
deriving DecidableEq, Repr

/-- The comparison an opcode makes, and whether it jumps when the answer is false. -/
def comparedBy : String → Option (BinaryOp × Bool)
  | "JEqual" | "JEqualLong" => some (.eq, false)
  | "JNotEqual" | "JNotEqualLong" => some (.eq, true)
  | "JStrictEqual" | "JStrictEqualLong" => some (.strictEq, false)
  | "JStrictNotEqual" | "JStrictNotEqualLong" => some (.strictEq, true)
  | "JLess" | "JLessLong" | "JLessN" | "JLessNLong" => some (.lt, false)
  | "JNotLess" | "JNotLessLong" | "JNotLessN" | "JNotLessNLong" => some (.lt, true)
  | "JLessEqual" | "JLessEqualLong" | "JLessEqualN" | "JLessEqualNLong" => some (.le, false)
  | "JNotLessEqual" | "JNotLessEqualLong" | "JNotLessEqualN" | "JNotLessEqualNLong" =>
      some (.le, true)
  | "JGreater" | "JGreaterLong" | "JGreaterN" | "JGreaterNLong" => some (.gt, false)
  | "JNotGreater" | "JNotGreaterLong" | "JNotGreaterN" | "JNotGreaterNLong" => some (.gt, true)
  | "JGreaterEqual" | "JGreaterEqualLong" | "JGreaterEqualN" | "JGreaterEqualNLong" =>
      some (.ge, false)
  | "JNotGreaterEqual" | "JNotGreaterEqualLong" | "JNotGreaterEqualN" | "JNotGreaterEqualNLong" =>
      some (.ge, true)
  | _ => none

/-- The test of a conditional jump. -/
def jumpTest (name : String) (operands : List Operand) : Option JumpTest :=
  match name with
  | "JmpTrue" | "JmpTrueLong" => (getReg operands 1).map (.truth false)
  | "JmpFalse" | "JmpFalseLong" => (getReg operands 1).map (.truth true)
  | "JmpUndefined" | "JmpUndefinedLong" => (getReg operands 1).map .isUndefined
  | "JmpTypeOfIs" => do
      let value ← getReg operands 1
      let mask ← getReg operands 2
      some (.typeOf mask value)
  | "JmpBuiltinIs" | "JmpBuiltinIsLong" => do
      let index ← getReg operands 1
      let value ← getReg operands 2
      some (.builtin false index value)
  | "JmpBuiltinIsNot" | "JmpBuiltinIsNotLong" => do
      let index ← getReg operands 1
      let value ← getReg operands 2
      some (.builtin true index value)
  | _ => do
      let (op, negated) ← comparedBy name
      let left ← getReg operands 1
      let right ← getReg operands 2
      some (.compare op negated left right)

/-- An engine with the types of its values and with its builtins. -/
structure Interpreting (host : Host) where
  comparison : Comparison host
  kind : host.Val → TypeKind
  intrinsic : Nat → host.Val
  strict : ∀ left right,
    host.binary .strictEq left right = pure (host.constant (.bool (host.strictEqual left right)))
  undefined : ∀ value, host.strictEqual value (host.constant .undefined) = host.isUndefined value
  typeOf : ∀ value, host.unary .typeOf value = pure (host.constant (.string (kind value).text))
  texts : ∀ left right, host.strictEqual (host.constant (.string left))
    (host.constant (.string right)) = decide (left = right)

section

variable {host : Host} (engine : Interpreting host)

/-- Whether the interpreter takes a jump. -/
def JumpTest.taken : JumpTest → Exec host Bool
  | truth negated value => do
      let found ← readRegister value
      pure (host.truthy found != negated)
  | compare op negated left right => do
      let found ← readRegister left
      let other ← readRegister right
      let answer ← perform (host.binary op found other)
      pure (host.truthy answer != negated)
  | isUndefined value => do
      let found ← readRegister value
      pure (host.isUndefined found)
  | typeOf mask value => do
      let found ← readRegister value
      pure (mask.testBit (engine.kind found).bit)
  | builtin negated index value => do
      let found ← readRegister value
      pure (host.strictEqual found (engine.intrinsic index) != negated)

/-- Whether a condition holds. -/
def Expression.holds (condition : Expression) : Exec host Bool := do
  let value ← condition.evaluate
  pure (host.truthy value)

/-- Where a jump is lowered to what it does: a negated ordering has operands that are ordered, a
mask has the bits of `null` and of objects both or neither where that matters, and what the
builtin is read from equals the value exactly when the builtin does. -/
def JumpTest.Expressible (table : List String) (test : JumpTest) (machine : Machine host) : Prop :=
  match test with
  | compare op negated left right => negated = true → Logic.isOrdering op = true →
      ¬ engine.comparison.unordered (machine.read left) (machine.read right) machine.world
  | typeOf mask value =>
      (engine.kind (machine.read value) = .object → mask.testBit 1 = true → mask.testBit 8 = true) ∧
      (engine.kind (machine.read value) = .null → mask.testBit 8 = true → mask.testBit 1 = true)
  | builtin _ index value => ∃ found after,
      (builtinRefExpr table index).evaluate machine = (.ok found, after) ∧
        host.strictEqual (machine.read value) found =
          host.strictEqual (machine.read value) (engine.intrinsic index)
  | _ => True

end

/-- The condition a test is lowered to. -/
def JumpTest.condition (table : List String) : JumpTest → Expression
  | truth negated value => if negated then .unary .not (.register value) else .register value
  | compare op negated left right =>
      .binary (if negated then (Logic.negatedOp op).getD op else op) (.register left)
        (.register right)
  | isUndefined value => .binary .strictEq (.register value) (.value (.constant .undefined))
  | typeOf mask value => typeofIsCondition (.register value) mask
  | builtin negated index value =>
      .binary (if negated then .strictNeq else .strictEq) (.register value)
        (builtinRefExpr table index)

/-- The operator of a comparison jump is the one it makes, or the opposite one. -/
theorem comparisonOfName_eq : ∀ name ∈ comparisonJumps, comparisonOfName name =
    (comparedBy name).map fun (op, negated) =>
      if negated then (Logic.negatedOp op).getD op else op := by
  decide +kernel

/-- A comparison jump is tested by its comparison. -/
theorem jumpTest_comparison (operands : List Operand) : ∀ name ∈ comparisonJumps,
    jumpTest name operands = (do
      let (op, negated) ← comparedBy name
      let left ← getReg operands 1
      let right ← getReg operands 2
      some (.compare op negated left right)) := by
  simp only [comparisonJumps, forall_mem_cons]
  repeat' apply And.intro
  all_goals first | rfl | simp

variable {name : String} {inst : Instruction} {format : BytecodeFormat} {condition : Expression}
variable {target next : Nat}

theorem handleJmpCond_condition
    (lowered : handleJmpCond name inst format = some (.branch condition target next)) :
    ∃ value, getReg inst.operands 1 = some value ∧
      condition = if "False".toList <:+: name.toList then .unary .not (.register value)
        else .register value := by
  simp only [handleJmpCond, regExpr, Option.bind_eq_bind, Option.bind_eq_some_iff,
    Option.map_eq_some_iff, Option.some.injEq, FlowResult.branch.injEq] at lowered
  obtain ⟨_, _, _, ⟨value, read, rfl⟩, rfl, -⟩ := lowered
  exact ⟨value, read, rfl⟩

theorem handleJmpComparison_condition
    (lowered : handleJmpComparison name inst format = some (.branch condition target next)) :
    ∃ left right op, getReg inst.operands 1 = some left ∧ getReg inst.operands 2 = some right ∧
      comparisonOfName name = some op ∧
      condition = .binary op (.register left) (.register right) := by
  simp only [handleJmpComparison, regExpr, Option.bind_eq_bind, Option.bind_eq_some_iff,
    Option.map_eq_some_iff, Option.some.injEq, FlowResult.branch.injEq] at lowered
  obtain ⟨_, _, _, ⟨left, readLeft, rfl⟩, _, ⟨right, readRight, rfl⟩, op, named, rfl, -⟩ := lowered
  exact ⟨left, right, op, readLeft, readRight, named, rfl⟩

theorem handleJmpTypeofIs_condition
    (lowered : handleJmpTypeofIs inst format = some (.branch condition target next)) :
    ∃ value mask, getReg inst.operands 1 = some value ∧ getReg inst.operands 2 = some mask ∧
      condition = typeofIsCondition (.register value) mask := by
  simp only [handleJmpTypeofIs, regExpr, Option.bind_eq_bind, Option.bind_eq_some_iff,
    Option.map_eq_some_iff, Option.some.injEq, FlowResult.branch.injEq] at lowered
  obtain ⟨_, _, _, ⟨value, read, rfl⟩, mask, ⟨operand, found, isMask⟩, rfl, -⟩ := lowered
  refine ⟨value, mask, read, ?_, rfl⟩
  rw [getReg, found]
  exact isMask

theorem handleJmpBuiltinIs_condition {table : List String}
    (lowered : handleJmpBuiltinIs table name inst format = some (.branch condition target next)) :
    ∃ index value, getReg inst.operands 1 = some index ∧ getReg inst.operands 2 = some value ∧
      condition = .binary (if "Not".toList <:+: name.toList then .strictNeq else .strictEq)
        (.register value) (builtinRefExpr table index) := by
  simp only [handleJmpBuiltinIs, regExpr, Option.bind_eq_bind, Option.bind_eq_some_iff,
    Option.map_eq_some_iff, Option.some.injEq, FlowResult.branch.injEq] at lowered
  obtain ⟨_, _, index, ⟨operand, found, isIndex⟩, _, ⟨value, read, rfl⟩, rfl, -⟩ := lowered
  refine ⟨index, value, ?_, read, rfl⟩
  rw [getReg, found]
  exact isIndex

theorem handleJmpUndefined_condition
    (lowered : handleJmpUndefined inst format = some (.branch condition target next)) :
    ∃ value, getReg inst.operands 1 = some value ∧
      condition = .binary .strictEq (.register value) (.value (.constant .undefined)) := by
  simp only [handleJmpUndefined, regExpr, Option.bind_eq_bind, Option.bind_eq_some_iff,
    Option.map_eq_some_iff, Option.some.injEq, FlowResult.branch.injEq] at lowered
  obtain ⟨_, _, _, ⟨value, read, rfl⟩, rfl, -⟩ := lowered
  exact ⟨value, read, rfl⟩

/-- Every lowered conditional jump has a test, and its condition is the one of the test. -/
theorem tryFlowHandlers_condition {table : List String}
    (lowered : tryFlowHandlers table name inst format = some (.branch condition target next)) :
    ∃ test, jumpTest name inst.operands = some test ∧ condition = test.condition table := by
  unfold tryFlowHandlers at lowered
  split at lowered
  case isTrue listed =>
    obtain ⟨value, read, rfl⟩ := handleJmpCond_condition lowered
    simp only [mem_cons, not_mem_nil, or_false] at listed
    rcases listed with rfl | rfl | rfl | rfl
    · exact ⟨.truth false value, by simp [jumpTest, read], rfl⟩
    · exact ⟨.truth false value, by simp [jumpTest, read], rfl⟩
    · exact ⟨.truth true value, by simp [jumpTest, read], rfl⟩
    · exact ⟨.truth true value, by simp [jumpTest, read], rfl⟩
  split at lowered
  case isTrue listed =>
    obtain ⟨left, right, op, readLeft, readRight, named, rfl⟩ :=
      handleJmpComparison_condition lowered
    rw [comparisonOfName_eq name listed, Option.map_eq_some_iff] at named
    obtain ⟨⟨compared, negated⟩, known, rfl⟩ := named
    refine ⟨.compare compared negated left right, ?_, rfl⟩
    rw [jumpTest_comparison _ name listed, known, readLeft, readRight]
    rfl
  split at lowered
  case isTrue listed =>
    obtain ⟨value, read, rfl⟩ := handleJmpUndefined_condition lowered
    simp only [mem_cons, not_mem_nil, or_false] at listed
    rcases listed with rfl | rfl <;> exact ⟨.isUndefined value, by simp [jumpTest, read], rfl⟩
  split at lowered
  case isTrue named =>
    obtain ⟨value, mask, read, isMask, rfl⟩ := handleJmpTypeofIs_condition lowered
    subst named
    exact ⟨.typeOf mask value, by simp [jumpTest, read, isMask], rfl⟩
  split at lowered
  case isTrue listed =>
    obtain ⟨index, value, isIndex, read, rfl⟩ := handleJmpBuiltinIs_condition lowered
    simp only [mem_cons, not_mem_nil, or_false] at listed
    rcases listed with rfl | rfl | rfl | rfl
    · exact ⟨.builtin false index value, by simp [jumpTest, read, isIndex], rfl⟩
    · exact ⟨.builtin false index value, by simp [jumpTest, read, isIndex], rfl⟩
    · exact ⟨.builtin true index value, by simp [jumpTest, read, isIndex], rfl⟩
    · exact ⟨.builtin true index value, by simp [jumpTest, read, isIndex], rfl⟩
  case isFalse => cases lowered

namespace TypeKind

/-- The mask of the types for which `typeof` answers the same. -/
def mask (kind : TypeKind) : Nat := kind.bits.foldl (fun bits place => bits ||| 2 ^ place) 0

/-- A mask has every bit of a type. -/
def within (kind : TypeKind) (mask : Nat) : Bool := kind.bits.all mask.testBit

theorem testBit_mask (kind : TypeKind) (place : Nat) :
    kind.mask.testBit place = decide (place ∈ kind.bits) := by
  cases kind <;>
    simp only [mask, bits, bit, List.foldl, Nat.zero_or, Nat.testBit_or, Nat.testBit_two_pow,
      mem_cons, not_mem_nil, or_false, Bool.decide_or, @eq_comm _ place]

/-- A mask contains the mask of a type when it has every bit of the type. -/
theorem and_mask_eq_iff (kind : TypeKind) (mask : Nat) :
    mask &&& kind.mask = kind.mask ↔ kind.within mask = true := by
  rw [within, all_eq_true]
  constructor
  · intro same place listed
    have bits := congrArg (Nat.testBit · place) same
    simpa [testBit_mask, listed] using bits
  · intro contained
    apply Nat.eq_of_testBit_eq
    intro place
    rw [Nat.testBit_and, testBit_mask]
    by_cases listed : place ∈ kind.bits
    · simp [listed, contained place listed]
    · simp [listed]

/-- The answers of `typeof` are the same exactly when the bits overlap. -/
theorem text_eq_iff_any (kind other : TypeKind) :
    kind.text = other.text ↔ kind.bits.any (· ∈ other.bits) = true := by
  cases kind <;> cases other <;> decide

/-- The answers of `typeof` are the same exactly when the bits are. -/
theorem text_eq_iff_all (kind other : TypeKind) :
    kind.text = other.text ↔ kind.bits.all (· ∈ other.bits) = true := by
  cases kind <;> cases other <;> decide

theorem bits_lt (kind : TypeKind) : ∀ place ∈ kind.bits, place < 9 := by cases kind <;> decide

end TypeKind

/-- The table has the mask and the answer of every type, and nothing else. -/
theorem mem_typeofIsMasks {entry : Nat × String} :
    entry ∈ typeofIsMasks ↔ ∃ kind : TypeKind, entry = (kind.mask, kind.text) := by
  constructor
  · revert entry
    simp only [typeofIsMasks, forall_mem_cons]
    exact ⟨⟨.undefined, rfl⟩, ⟨.object, rfl⟩, ⟨.string, rfl⟩, ⟨.symbol, rfl⟩, ⟨.boolean, rfl⟩,
      ⟨.number, rfl⟩, ⟨.bigint, rfl⟩, ⟨.function, rfl⟩, by simp⟩
  · rintro ⟨kind, rfl⟩
    cases kind <;> decide

/-- The complement of a mask has the bits that the mask lacks. -/
theorem testBit_complement (mask : Nat) {place : Nat} (small : place < 9) :
    (typeofUniverse &&& ((2 ^ 32 - 1) ^^^ mask)).testBit place = !mask.testBit place := by
  have whole : typeofUniverse = 2 ^ 9 - 1 := by decide
  rw [whole, Nat.testBit_and, Nat.testBit_xor, Nat.testBit_two_pow_sub_one,
    Nat.testBit_two_pow_sub_one]
  simp [small, show place < 32 by omega]

section

variable {host : Host} (engine : Interpreting host)

/-- A condition has a boolean answer and does nothing else. -/
def Answers (machine : Machine host) (condition : Expression) (flag : Bool) : Prop :=
  condition.evaluate machine = (.ok (host.constant (.bool flag)), machine)

theorem evaluate_typeIs (machine : Machine host) (op : BinaryOp) (value : Nat) (type : String)
    (compared : op = .strictEq ∨ op = .strictNeq) :
    (typeIs op (.register value) type).evaluate machine =
      (perform (host.binary op (host.constant (.string (engine.kind (machine.read value)).text))
        (host.constant (.string type))) : Exec host host.Val) machine := by
  have typed : (Expression.unary .typeOf (.register value)).evaluate machine =
      (.ok (host.constant (.string (engine.kind (machine.read value)).text)), machine) := by
    change (perform (host.unary .typeOf (machine.read value)) : Exec host host.Val) machine = _
    rw [engine.typeOf]
    rfl
  rw [typeIs, Expression.evaluate, binaryOf, bind_of_run typed]
  rcases compared with rfl | rfl <;> rfl

theorem answers_typeIs (machine : Machine host) (value : Nat) (type : String) :
    Answers machine (typeIs .strictEq (.register value) type)
      (decide ((engine.kind (machine.read value)).text = type)) := by
  rw [Answers, evaluate_typeIs engine _ _ _ _ (.inl rfl), engine.strict, engine.texts]
  rfl

theorem answers_typeIsNot (machine : Machine host) (value : Nat) (type : String) :
    Answers machine (typeIs .strictNeq (.register value) type)
      (!decide ((engine.kind (machine.read value)).text = type)) := by
  rw [Answers, evaluate_typeIs engine _ _ _ _ (.inr rfl), engine.comparison.strictNeq, Host.opposite,
    engine.strict, engine.texts]
  change (Outcome.ok (host.constant (.bool !host.truthy (host.constant (.bool _)))), machine) = _
  rw [engine.comparison.branching.truthy_bool]

include engine in
theorem answers_or {machine : Machine host} {left right : Expression} {flag other : Bool}
    (first : Answers machine left flag) (second : Answers machine right other) :
    Answers machine (.binary .logicalOr left right) (flag || other) := by
  rw [Answers, Expression.evaluate, binaryOf, bind_of_run first]
  change (if host.truthy _ = true then pure (host.constant (.bool flag)) else right.evaluate :
    Exec host host.Val) machine = _
  rw [engine.comparison.branching.truthy_bool]
  cases flag
  · exact second
  · rfl

/-- A disjunction answers whether one of its types is the type of the operand. -/
theorem answers_foldl (machine : Machine host) (value : Nat) (types : List String) :
    ∀ {condition : Expression} {flag : Bool}, Answers machine condition flag →
      Answers machine
        (types.foldl (fun condition type =>
          .binary .logicalOr condition (typeIs .strictEq (.register value) type)) condition)
        (flag || types.any fun type => (engine.kind (machine.read value)).text = type) := by
  induction types with
  | nil =>
    intro condition flag answered
    simpa using answered
  | cons type rest hypothesis =>
    intro condition flag answered
    have extended := hypothesis (answers_or engine answered (answers_typeIs engine machine value type))
    rwa [Bool.or_assoc] at extended

section

variable (machine : Machine host) (value : Nat) {mask : Nat} {entry : Nat × String}
  (listed : entry ∈ typeofIsMasks)

include listed

/-- The mask of one type. -/
theorem answers_single (same : entry.1 = mask) :
    Answers machine (typeIs .strictEq (.register value) entry.2)
      ((engine.kind (machine.read value)).within mask) := by
  obtain ⟨named, rfl⟩ := mem_typeofIsMasks.mp listed
  have answered := answers_typeIs engine machine value named.text
  generalize engine.kind (machine.read value) = kind at answered ⊢
  have answer : decide (kind.text = named.text) = kind.within mask := by
    rw [Bool.eq_iff_iff, decide_eq_true_iff, kind.text_eq_iff_all, TypeKind.within, ← same]
    simp [TypeKind.testBit_mask]
  exact answer ▸ answered

/-- The mask of all types but one. -/
theorem answers_complement (same : entry.1 = typeofUniverse &&& ((2 ^ 32 - 1) ^^^ mask)) :
    Answers machine (typeIs .strictNeq (.register value) entry.2)
      ((engine.kind (machine.read value)).within mask) := by
  obtain ⟨named, rfl⟩ := mem_typeofIsMasks.mp listed
  have answered := answers_typeIsNot engine machine value named.text
  generalize engine.kind (machine.read value) = kind at answered ⊢
  have lacking : ∀ place ∈ kind.bits, mask.testBit place = !decide (place ∈ named.bits) := by
    intro place listed
    have bits := congrArg (Nat.testBit · place) same
    simp only [TypeKind.testBit_mask, testBit_complement mask (kind.bits_lt place listed)] at bits
    rw [bits, Bool.not_not]
  have answer : (!decide (kind.text = named.text)) = kind.within mask := by
    rw [Bool.eq_iff_iff, Bool.not_eq_true', decide_eq_false_iff_not, kind.text_eq_iff_any,
      TypeKind.within]
    simp +contextual [lacking]
  exact answer ▸ answered

end

/-- The types in a mask. -/
def matchedTypes (mask : Nat) : List String :=
  (typeofIsMasks.filter fun entry => mask &&& entry.1 == entry.1).map Prod.snd

/-- A type is in a mask when the mask has its bits. -/
theorem any_matchedTypes (mask : Nat) (kind : TypeKind) :
    (matchedTypes mask).any (fun type => kind.text = type) = kind.within mask := by
  rw [Bool.eq_iff_iff, any_eq_true]
  simp only [matchedTypes, mem_map, mem_filter, decide_eq_true_eq]
  constructor
  · rintro ⟨_, ⟨entry, ⟨listed, contained⟩, rfl⟩, same⟩
    obtain ⟨named, rfl⟩ := mem_typeofIsMasks.mp listed
    rw [beq_iff_eq, TypeKind.and_mask_eq_iff, TypeKind.within, all_eq_true] at contained
    rw [kind.text_eq_iff_all, all_eq_true] at same
    rw [TypeKind.within, all_eq_true]
    intro place listed
    exact contained place (of_decide_eq_true (same place listed))
  · intro contained
    exact ⟨_, ⟨_, ⟨mem_typeofIsMasks.mpr ⟨kind, rfl⟩,
      beq_iff_eq.mpr ((kind.and_mask_eq_iff mask).mpr contained)⟩, rfl⟩, rfl⟩

/-- No type begins as the marker of a mask without types does. -/
theorem text_ne_marker (kind : TypeKind) (mask : Nat) : kind.text ≠ "type" ++ toString mask := by
  intro same
  have first := congrArg (fun text => text.toList.head?) same
  simp only [String.toList_append] at first
  cases kind <;> simp [TypeKind.text] at first

/-- The condition for a mask answers whether the mask has every bit of the type. -/
theorem answers_typeofIsCondition (machine : Machine host) (value mask : Nat) :
    Answers machine (typeofIsCondition (.register value) mask)
      ((engine.kind (machine.read value)).within mask) := by
  have matching := any_matchedTypes mask (engine.kind (machine.read value))
  rw [typeofIsCondition]
  cases single : typeofIsMasks.find? fun entry => entry.1 == mask with
  | some entry =>
    exact answers_single engine machine value (mem_of_find?_eq_some single)
      (by simpa using List.find?_some single)
  | none =>
    dsimp only
    cases complement : typeofIsMasks.find? fun entry =>
        entry.1 == typeofUniverse &&& ((2 ^ 32 - 1) ^^^ mask) with
    | some entry =>
      exact answers_complement engine machine value (mem_of_find?_eq_some complement)
        (by simpa using List.find?_some complement)
    | none =>
      rw [← matchedTypes]
      cases types : matchedTypes mask with
      | nil =>
        rw [types] at matching
        have answered := answers_typeIs engine machine value ("type" ++ toString mask)
        rw [decide_eq_false (text_ne_marker _ mask)] at answered
        exact matching ▸ answered
      | cons first rest =>
        rw [types, any_cons] at matching
        exact matching ▸ answers_foldl engine machine value rest
          (answers_typeIs engine machine value first)

theorem holds_of_answers (branching : host.Branching) {machine : Machine host}
    {condition : Expression} {flag : Bool} (answered : Answers machine condition flag) :
    condition.holds machine = (.ok flag, machine) := by
  rw [Expression.holds, bind_of_run answered]
  change (Outcome.ok (host.truthy (host.constant (.bool flag))), machine) = _
  rw [branching.truthy_bool]

/-- The opcodes compare by operators that have an opposite. -/
theorem comparedBy_turns {name : String} {op : BinaryOp} {negated : Bool}
    (known : comparedBy name = some (op, negated)) : ∃ turned, Logic.negatedOp op = some turned := by
  unfold comparedBy at known
  split at known <;> cases known <;> exact ⟨_, rfl⟩

theorem jumpTest_turns {name : String} {operands : List Operand} {op : BinaryOp} {negated : Bool}
    {left right : Nat} (tested : jumpTest name operands = some (.compare op negated left right)) :
    ∃ turned, Logic.negatedOp op = some turned := by
  unfold jumpTest at tested
  split at tested
  case h_12 =>
    simp only [Option.bind_eq_bind, Option.bind_eq_some_iff, Option.some.injEq,
      JumpTest.compare.injEq] at tested
    obtain ⟨⟨compared, flag⟩, known, _, _, _, _, rfl, -⟩ := tested
    exact comparedBy_turns known
  all_goals
    simp [Option.bind_eq_some_iff] at tested

variable {op turned : BinaryOp}

/-- A comparison of registers holds when the engine says so. -/
theorem holds_compare (turns : Logic.negatedOp op = some turned) (left right : Nat)
    (machine : Machine host) :
    (Expression.binary op (.register left) (.register right)).holds machine =
      (perform (host.binary op (machine.read left) (machine.read right)) >>= fun answer =>
        pure (host.truthy answer) : Exec host Bool) machine := by
  cases op <;> first | rfl | cases turns

theorem isOrdering_cases {op : BinaryOp} (ordering : Logic.isOrdering op = true) :
    op = .lt ∨ op = .le ∨ op = .gt ∨ op = .ge := by
  cases op <;> simp [Logic.isOrdering] at ordering ⊢

theorem isOrdering_turned (turns : Logic.negatedOp op = some turned)
    (ordering : Logic.isOrdering op = true) : Logic.isOrdering turned = true:= by
  cases op <;> cases turns <;> first | rfl | cases ordering

/-- The opposite comparison holds when the interpreter finds that the comparison does not, exactly
where the operands of an ordering are ordered. -/
theorem holds_turned_iff (turns : Logic.negatedOp op = some turned) (left right : Nat)
    (machine : Machine host) :
    ((Expression.binary turned (.register left) (.register right)).holds machine).1 =
        ((JumpTest.compare op true left right).taken engine machine).1 ↔
      (Logic.isOrdering op = true → ¬ engine.comparison.unordered (machine.read left)
        (machine.read right) machine.world) := by
  have branching := engine.comparison.branching
  have returns : Logic.negatedOp turned = some op := by cases op <;> cases turns <;> rfl
  have taken : (JumpTest.compare op true left right).taken engine machine =
      (perform (host.binary op (machine.read left) (machine.read right)) >>= fun answer =>
        pure (host.truthy answer != true) : Exec host Bool) machine := rfl
  rw [holds_compare returns, taken]
  constructor
  · intro same ordering unordered
    obtain ⟨world, answered⟩ := engine.comparison.nothing _ _ _ unordered
    have first := answered op (isOrdering_cases ordering)
    have second := answered turned (isOrdering_cases (isOrdering_turned turns ordering))
    rw [bind_apply, bind_apply, perform, perform, first, second] at same
    change Outcome.ok (host.truthy (host.constant (.bool false))) =
      Outcome.ok (host.truthy (host.constant (.bool false)) != true) at same
    rw [branching.truthy_bool] at same
    cases same
  · intro ordered
    have opposite := (Logic.opposite_iff engine.comparison turns _ _ machine.world).mpr ordered
    rw [bind_apply, bind_apply, perform, perform, opposite, Host.opposite, bind_apply]
    rcases host.binary op (machine.read left) (machine.read right) machine.world with
      ⟨answer | _ | _, world⟩
    · change Outcome.ok (host.truthy (host.constant (.bool !host.truthy answer))) =
        Outcome.ok (host.truthy answer != true)
      rw [branching.truthy_bool]
      cases host.truthy answer <;> rfl
    · rfl
    · rfl

include engine in
/-- The answer to whether a value is one that was found. -/
theorem binary_builtin (negated : Bool) (value found : host.Val) :
    host.binary (if negated then .strictNeq else .strictEq) value found =
      pure (host.constant (.bool (host.strictEqual value found != negated))) := by
  cases negated
  · simp [engine.strict]
  · funext world
    simp only [if_true, engine.comparison.strictNeq, Host.opposite, engine.strict]
    change (Outcome.ok (host.constant (.bool !host.truthy (host.constant (.bool _)))), world) = _
    rw [engine.comparison.branching.truthy_bool]
    cases host.strictEqual value found <;> rfl

include engine in
/-- A test on a builtin compares with what the builtin is read from. -/
theorem holds_builtin (table : List String) (negated : Bool) (index value : Nat)
    (machine : Machine host) :
    ((JumpTest.builtin negated index value).condition table).holds machine =
      ((builtinRefExpr table index).evaluate >>= fun found =>
        pure (host.strictEqual (machine.read value) found != negated) : Exec host Bool) machine := by
  have evaluated : ((JumpTest.builtin negated index value).condition table).evaluate machine =
      ((builtinRefExpr table index).evaluate >>= fun found =>
        perform (host.binary (if negated then .strictNeq else .strictEq) (machine.read value) found) :
          Exec host host.Val) machine := by
    cases negated <;> rfl
  simp only [binary_builtin engine] at evaluated
  rw [Expression.holds, bind_apply, evaluated, bind_apply, bind_apply]
  rcases (builtinRefExpr table index).evaluate machine with ⟨found | _ | _, after⟩
  · change (Outcome.ok (host.truthy (host.constant (.bool _))), after) = _
    rw [engine.comparison.branching.truthy_bool]
    rfl
  · rfl
  · rfl

/-- A test on a builtin is decided as the interpreter decides it when what the builtin is read
from equals the value exactly when the builtin does. -/
theorem holds_builtin_iff (table : List String) (negated : Bool) (index value : Nat)
    (machine : Machine host) :
    (((JumpTest.builtin negated index value).condition table).holds machine).1 =
        ((JumpTest.builtin negated index value).taken engine machine).1 ↔
      (JumpTest.builtin negated index value).Expressible engine table machine := by
  have taken : ((JumpTest.builtin negated index value).taken engine machine).1 =
    .ok (host.strictEqual (machine.read value) (engine.intrinsic index) != negated) := rfl
  rw [holds_builtin engine, taken, JumpTest.Expressible, bind_apply]
  rcases (builtinRefExpr table index).evaluate machine with ⟨found | _ | _, after⟩
  · simp
  · simp
  · simp

/-- A test on a type is decided as the interpreter decides it when `null` and objects are in the
mask together, as far as the value is one of them. -/
theorem holds_typeOf_iff (table : List String) (mask value : Nat) (machine : Machine host) :
    (((JumpTest.typeOf mask value).condition table).holds machine).1 =
        ((JumpTest.typeOf mask value).taken engine machine).1 ↔
      (JumpTest.typeOf mask value).Expressible engine table machine := by
  have taken : ((JumpTest.typeOf mask value).taken engine machine).1 =
    .ok (mask.testBit (engine.kind (machine.read value)).bit) := rfl
  rw [JumpTest.condition, holds_of_answers engine.comparison.branching
    (answers_typeofIsCondition engine machine value mask), taken, JumpTest.Expressible]
  cases engine.kind (machine.read value) <;>
    simp [TypeKind.within, TypeKind.bits, TypeKind.bit, Bool.and_comm]

/-- The condition of a test holds when the interpreter takes the jump, exactly where the test can
be expressed. -/
theorem JumpTest.holds_condition_iff (table : List String) {test : JumpTest}
    (turns : ∀ op negated left right, test = .compare op negated left right →
      ∃ turned, Logic.negatedOp op = some turned) (machine : Machine host) :
    ((test.condition table).holds machine).1 = (test.taken engine machine).1 ↔
      test.Expressible engine table machine := by
  have branching := engine.comparison.branching
  cases test with
  | truth negated value =>
    cases negated
    case false =>
      have same : ((JumpTest.truth false value).condition table).holds machine =
          (.ok (host.truthy (machine.read value)), machine) := rfl
      have taken : (JumpTest.truth false value).taken engine machine =
          (.ok (host.truthy (machine.read value) != false), machine) := rfl
      simp [same, taken, Expressible]
    case true =>
      have answered : Answers machine (.unary .not (.register value))
          (!host.truthy (machine.read value)) := by
        rw [Answers, Logic.evaluate_not branching]
        rfl
      have taken : (JumpTest.truth true value).taken engine machine =
          (.ok (host.truthy (machine.read value) != true), machine) := rfl
      simp [condition, holds_of_answers branching answered, taken, Expressible]
  | compare op negated left right =>
    obtain ⟨turned, opposed⟩ := turns op negated left right rfl
    cases negated
    case false =>
      have taken : (JumpTest.compare op false left right).taken engine machine =
          (perform (host.binary op (machine.read left) (machine.read right)) >>= fun answer =>
            pure (host.truthy answer != false) : Exec host Bool) machine := rfl
      have same : (Expression.binary op (.register left) (.register right)).holds machine =
          (perform (host.binary op (machine.read left) (machine.read right)) >>= fun answer =>
            pure (host.truthy answer) : Exec host Bool) machine := holds_compare opposed ..
      simp [condition, same, taken, Expressible]
    case true => simp [condition, opposed, holds_turned_iff engine opposed, Expressible]
  | isUndefined value =>
    have answered : Answers machine ((JumpTest.isUndefined value).condition table)
        (host.isUndefined (machine.read value)) := by
      change (perform (host.binary .strictEq (machine.read value) (host.constant .undefined)) :
        Exec host host.Val) machine = _
      rw [engine.strict, engine.undefined]
      rfl
    have taken : (JumpTest.isUndefined value).taken engine machine =
        (.ok (host.isUndefined (machine.read value)), machine) := rfl
    simp [holds_of_answers branching answered, taken, Expressible]
  | typeOf mask value => exact holds_typeOf_iff engine table mask value machine
  | builtin negated index value => exact holds_builtin_iff engine table negated index value machine

/-- Every lowered conditional jump has a test of the interpreter, and the condition of the branch
is truthy exactly when the interpreter takes the jump, in exactly those states in which the test
can be expressed: where a negated ordering is made, the operands are ordered; where a mask has one
of the bits of `null` and of objects, the value is neither or the mask has both; and what a builtin
is read from equals the value exactly when the builtin does. -/
theorem tryFlowHandlers_holds_iff {table : List String} {name : String} {inst : Instruction}
    {format : BytecodeFormat} {condition : Expression} {target next : Nat}
    (lowered : tryFlowHandlers table name inst format = some (.branch condition target next)) :
    ∃ test, jumpTest name inst.operands = some test ∧ ∀ machine : Machine host,
      ((condition.holds machine).1 = (test.taken engine machine).1 ↔
        test.Expressible engine table machine) := by
  obtain ⟨test, tested, rfl⟩ := tryFlowHandlers_condition lowered
  refine ⟨test, tested, fun machine => test.holds_condition_iff engine table ?_ machine⟩
  rintro op negated left right rfl
  exact jumpTest_turns tested

end

/-- The type of a constant. -/
def TypeKind.ofConstant : Constant → TypeKind
  | .undefined => .undefined
  | .null => .null
  | .bool _ => .boolean
  | .integer _ | .number _ => .number
  | .string _ => .string
  | .bigInt _ => .bigint

theorem strictly_undefined (value : Constant) :
    Comparing.strictly value .undefined = (value == .undefined) := by
  cases value <;> rfl

theorem typeName_eq (value : Constant) :
    Comparing.typeName value = (TypeKind.ofConstant value).text := by
  cases value <;> rfl

/-- The recording engine with comparisons has types and, as its builtins, numbers. -/
def Interpreting.recording : Interpreting Comparing.host where
  comparison := Comparing.comparison
  kind := TypeKind.ofConstant
  intrinsic index := Constant.integer index
  strict _ _ := rfl
  undefined := strictly_undefined
  typeOf value := congrArg (fun text => pure (Constant.string text)) (typeName_eq value)
  texts left right := by
    change decide (Constant.string left = .string right) = _
    simp

/-- A table with one jump. -/
def jumpFormat : BytecodeFormat := ⟨96, [⟨0, "JNotLess", [.addr8, .reg8, .reg8], true⟩]⟩

/-- A jump over four bytes when the first register is not less than the second. -/
def notLess : Instruction := ⟨0, 0, [⟨.addr8, .i8 8⟩, ⟨.reg8, .u8 0⟩, ⟨.reg8, .u8 1⟩], 4⟩

theorem notLess_lowered : tryFlowHandlers [] "JNotLess" notLess jumpFormat =
    some (.branch (.binary .ge (.register 0) (.register 1)) 8 4) := by
  rfl

theorem notLess_holds_iff : ∃ test, jumpTest "JNotLess" notLess.operands = some test ∧
    ∀ machine : Machine Comparing.host,
      (((Expression.binary .ge (.register 0) (.register 1)).holds machine).1 =
          (test.taken Interpreting.recording machine).1 ↔
        test.Expressible Interpreting.recording [] machine) :=
  tryFlowHandlers_holds_iff Interpreting.recording notLess_lowered

/-- With `undefined` in the registers the interpreter jumps and the branch does not. -/
theorem notLess_differs : ¬ ∀ {table : List String} {name : String} {inst : Instruction}
    {format : BytecodeFormat} {condition : Expression} {target next : Nat},
    tryFlowHandlers table name inst format = some (.branch condition target next) →
      ∃ test, jumpTest name inst.operands = some test ∧ ∀ machine : Machine Comparing.host,
        (condition.holds machine).1 = (test.taken Interpreting.recording machine).1 := by
  intro all
  obtain ⟨test, tested, same⟩ := all notLess_lowered
  obtain rfl : JumpTest.compare .lt true 0 1 = test := Option.some.inj tested
  have outcomes := congrArg Outcome.toOption
    (same ⟨fun _ => none, Tracing.blank, .other ⟨0, 0⟩⟩)
  exact absurd (Option.some.inj outcomes) (by decide)

end HermesDecomp.Ir
