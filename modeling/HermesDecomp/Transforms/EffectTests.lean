import HermesDecomp.Transforms.DeadStores

/-!
# What the tests for effects and for uses see

Two tests stand before the passes that drop, copy and inline: whether an expression has effects,
and whether it uses a register. Each looks into some forms of expression and not into others.
-/

namespace HermesDecomp.Ir

open List

/-- The key expression of a member. -/
def PropertyKey.parts : PropertyKey → List Expression
  | .computed key => [key]
  | .ident _ | .string _ | .index _ => []

def ObjectProperty.parts : ObjectProperty → List Expression
  | .mk key value => key.parts ++ [value]

mutual

/-- The expressions right inside a target. A place that is written stands for itself. -/
def AssignTarget.parts : AssignTarget → List Expression
  | .binding place => [.value (.binding place)]
  | .member object _ => [object]
  | .index object key => [object, key]
  | .destructuringArray elements => partsOfItems elements
  | .destructuringArrayRest elements rest => partsOfItems elements ++ rest.parts
  | .destructuringObject properties => partsOfFields properties
  | .destructuringObjectRest properties rest => partsOfFields properties ++ rest.parts
  | .rest target => target.parts

def partsOfItems : List (Option (AssignTarget × Option Expression)) → List Expression
  | [] => []
  | none :: rest => partsOfItems rest
  | some (target, fallback) :: rest => target.parts ++ (fallback.toList ++ partsOfItems rest)

def partsOfFields : List (String × AssignTarget × Option Expression) → List Expression
  | [] => []
  | (_, target, fallback) :: rest => target.parts ++ (fallback.toList ++ partsOfFields rest)

end

/-- The expressions right inside an expression. The body of a function is no part of it. -/
def Expression.parts : Expression → List Expression
  | .value _ | .function .. | .regExp .. | .unknown .. => []
  | .binary _ left right => [left, right]
  | .unary _ operand | .spread operand | .await operand | .yield operand _ => [operand]
  | .conditional condition thenExpr elseExpr => [condition, thenExpr, elseExpr]
  | .member whole property _ => whole :: property.parts
  | .call callee arguments | .new callee arguments => callee :: arguments
  | .array elements => elements.filterMap id
  | .object properties => properties.flatMap ObjectProperty.parts
  | .assignment target result => target.parts ++ [result]
  | .templateLiteral _ expressions => expressions
  | .jsxElement _ attributes children => attributes.map Prod.snd ++ children

/-- The test for effects does not look into spreads and elements. An assignment is an effect. -/
def Expression.opensEffects : Expression → Bool
  | .spread _ | .jsxElement .. | .assignment .. => false
  | _ => true

/-- An expression the test for effects looks into is larger than what stands right inside it. -/
theorem sizeOf_lt_of_mem_parts {whole part : Expression} (opened : whole.opensEffects = true)
    (member : part ∈ whole.parts) : sizeOf part < sizeOf whole := by
  cases whole with
  | value | function | regExp | unknown => cases member
  | spread | assignment | jsxElement => cases opened
  | binary | unary | await | yield | conditional =>
    simp only [Expression.parts, List.mem_cons, List.not_mem_nil, or_false] at member
    rcases member with rfl | rfl | rfl <;> simp <;> omega
  | member whole property =>
    rcases List.mem_cons.mp member with rfl | inside
    · simp
      omega
    · cases property <;> simp_all [PropertyKey.parts]
      omega
  | call _ arguments | new _ arguments =>
    rcases List.mem_cons.mp member with rfl | inside
    · simp
      omega
    · have smaller := List.sizeOf_lt_of_mem inside
      simp
      omega
  | templateLiteral _ arguments =>
    have smaller : sizeOf part < sizeOf arguments := List.sizeOf_lt_of_mem member
    simp
    omega
  | array elements =>
    obtain ⟨_, inside, rfl⟩ := List.mem_filterMap.mp member
    have smaller := List.sizeOf_lt_of_mem inside
    simp at smaller ⊢
    omega
  | object properties =>
    obtain ⟨⟨key, value⟩, inside, within⟩ := List.mem_flatMap.mp member
    have smaller := List.sizeOf_lt_of_mem inside
    cases key <;> simp [ObjectProperty.parts, PropertyKey.parts] at within smaller ⊢ <;> grind

/-- A kind of expression stands in an expression, at any depth, behind expressions that are
entered. -/
def Contains (entered marked : Expression → Bool) (whole : Expression) : Prop :=
  ∃ part, Relation.ReflTransGen (fun whole part => entered whole = true ∧ part ∈ whole.parts)
    whole part ∧ marked part = true

/-- A test finds what it marks behind the expressions it looks into. -/
theorem test_iff_contains {test marked entered : Expression → Bool}
    (step : ∀ whole, test whole = (marked whole || (entered whole && whole.parts.any test)))
    (opens : ∀ whole, entered whole = true → whole.opensEffects = true) (whole : Expression) :
    test whole = true ↔ Contains entered marked whole := by
  constructor
  · intro found
    induction size : sizeOf whole using Nat.strong_induction_on generalizing whole with
    | _ size ih =>
      subst size
      rw [step, Bool.or_eq_true, Bool.and_eq_true, any_eq_true] at found
      rcases found with here | ⟨enters, part, member, deeper⟩
      · exact ⟨whole, .refl, here⟩
      · have smaller := sizeOf_lt_of_mem_parts (opens whole enters) member
        obtain ⟨last, inside, mark⟩ := ih _ smaller part deeper rfl
        exact ⟨last, .head ⟨enters, member⟩ inside, mark⟩
  · rintro ⟨part, inside, mark⟩
    induction inside using Relation.ReflTransGen.head_induction_on with
    | refl => simp [step, mark]
    | head first _ ih =>
      rw [step, first.1, Bool.true_and, Bool.or_eq_true, any_eq_true]
      exact .inr ⟨_, first.2, ih⟩

/-- A call, a construction, an assignment, a yield or an await. -/
def Expression.isEffect : Expression → Bool
  | .call .. | .new .. | .assignment .. | .yield .. | .await _ => true
  | _ => false

/-- What the test takes for an effect: an opcode the builder does not know is one too. -/
def Expression.countsAsEffect : Expression → Bool
  | .unknown .. => true
  | expression => expression.isEffect

def Expression.isRegister (register : Nat) : Expression → Bool
  | .value (.binding (.register used)) => used == register
  | _ => false

/-- The test for uses looks into operators, members, calls and literals. -/
def Expression.opensUses : Expression → Bool
  | .assignment .. | .spread _ | .templateLiteral .. | .yield .. | .await _ | .jsxElement .. =>
      false
  | _ => true

theorem anyHasSideEffects_eq (expressions : List Expression) :
    anyHasSideEffects expressions = expressions.any hasSideEffects := by
  induction expressions with
  | nil => rfl
  | cons first rest ih => simp [anyHasSideEffects, ih]

theorem elementsHaveSideEffects_eq (elements : List (Option Expression)) :
    elementsHaveSideEffects elements = (elements.filterMap id).any hasSideEffects := by
  induction elements with
  | nil => rfl
  | cons first rest ih => cases first <;> simp [elementsHaveSideEffects, ih]

theorem keyHasSideEffects_eq (key : PropertyKey) :
    keyHasSideEffects key = key.parts.any hasSideEffects := by
  cases key <;> simp [keyHasSideEffects, PropertyKey.parts]

theorem propertiesHaveSideEffects_eq (properties : List ObjectProperty) :
    propertiesHaveSideEffects properties =
      (properties.flatMap ObjectProperty.parts).any hasSideEffects := by
  induction properties with
  | nil => rfl
  | cons first rest ih =>
    cases first
    simp [propertiesHaveSideEffects, flatMap_cons, ObjectProperty.parts, keyHasSideEffects_eq,
      ih, Bool.or_left_comm, Bool.or_assoc]

theorem hasSideEffects_iff (expression : Expression) : hasSideEffects expression = true ↔
    Contains Expression.opensEffects Expression.countsAsEffect expression := by
  apply test_iff_contains
  · intro whole
    cases whole <;> simp [hasSideEffects, Expression.countsAsEffect, Expression.isEffect,
      Expression.opensEffects, Expression.parts, anyHasSideEffects_eq, elementsHaveSideEffects_eq,
      keyHasSideEffects_eq, propertiesHaveSideEffects_eq, Bool.or_assoc]
  · exact fun _ opened => opened

variable (register : Nat)

theorem anyUsesRegister_eq (expressions : List Expression) :
    anyUsesRegister register expressions = expressions.any (·.usesRegister register) := by
  induction expressions with
  | nil => rfl
  | cons first rest ih => simp [anyUsesRegister, ih]

theorem elementsUseRegister_eq (elements : List (Option Expression)) :
    elementsUseRegister register elements =
      (elements.filterMap id).any (·.usesRegister register) := by
  induction elements with
  | nil => rfl
  | cons first rest ih => cases first <;> simp [elementsUseRegister, ih]

theorem keyUsesRegister_eq (key : PropertyKey) :
    key.usesRegister register = key.parts.any (·.usesRegister register) := by
  cases key <;> simp [PropertyKey.usesRegister, PropertyKey.parts]

theorem propertiesUseRegister_eq (properties : List ObjectProperty) :
    propertiesUseRegister register properties =
      (properties.flatMap ObjectProperty.parts).any (·.usesRegister register) := by
  induction properties with
  | nil => rfl
  | cons first rest ih =>
    cases first
    simp [propertiesUseRegister, flatMap_cons, ObjectProperty.parts, keyUsesRegister_eq, ih,
      Bool.or_left_comm, Bool.or_assoc]

theorem usesRegister_iff_contains (expression : Expression) :
    expression.usesRegister register = true ↔
      Contains Expression.opensUses (Expression.isRegister register) expression := by
  apply @test_iff_contains (·.usesRegister register)
  · intro whole
    rcases whole with ⟨⟨_ | _ | _⟩ | _⟩ | _ <;> simp [Expression.usesRegister,
      Expression.isRegister, Expression.opensUses, Expression.parts, anyUsesRegister_eq,
      elementsUseRegister_eq, keyUsesRegister_eq, propertiesUseRegister_eq, Bool.or_assoc]
  · intro whole opened
    cases whole <;> trivial

/-- The tests are complete on an expression exactly when an effect in it implies one, or an
unknown opcode, outside of spreads and elements, and an occurrence of the register implies one
outside of assignments, spreads, templates, yields, awaits and elements. -/
theorem effectTests_complete_iff (expression : Expression) :
    ((Contains (fun _ => true) Expression.isEffect expression → hasSideEffects expression = true) ∧
      (Contains (fun _ => true) (Expression.isRegister register) expression →
        expression.usesRegister register = true)) ↔
    (Contains (fun _ => true) Expression.isEffect expression →
        Contains Expression.opensEffects Expression.countsAsEffect expression) ∧
      (Contains (fun _ => true) (Expression.isRegister register) expression →
        Contains Expression.opensUses (Expression.isRegister register) expression) := by
  rw [hasSideEffects_iff, usesRegister_iff_contains]

/-- An await of a register behind a spread: neither test sees it. -/
theorem effectTests_not_complete :
    let expression := Expression.spread (.await (.value (.binding (.register 0))))
    (Contains (fun _ => true) Expression.isEffect expression ∧ hasSideEffects expression = false) ∧
      Contains (fun _ => true) (Expression.isRegister 0) expression ∧
        expression.usesRegister 0 = false := by
  refine ⟨⟨⟨_, .single ⟨rfl, .head _⟩, rfl⟩, rfl⟩, ?_, rfl⟩
  exact ⟨_, .tail (.single ⟨rfl, .head _⟩) ⟨rfl, .head _⟩, rfl⟩

end HermesDecomp.Ir
