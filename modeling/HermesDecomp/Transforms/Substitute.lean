import HermesDecomp.Ir.Registers

/-!
# Substitution of copies

The propagation passes replace the reads of registers by the expressions copied into them. The
walk enters the kinds of expressions and statements it knows and leaves the others as they are.
-/

namespace HermesDecomp.Ir

/-- A computed key, as an index when it is a whole number. -/
def indexKey : Expression → PropertyKey
  | .value (.constant (.integer value)) => .index value
  | .value (.constant (.number number)) =>
      match number.integer? with
      | some value => .index (saturate value)
      | none => .computed (.value (.constant (.number number)))
  | key => .computed key

/-- What a substitution puts for a register. -/
def standIn (copies : Nat → Option Expression) (register : Nat) : Expression :=
  (copies register).getD (.register register)

section Substitution

variable (copies : Nat → Option Expression)

mutual

/-- Replace the reads of an expression. -/
def Expression.substitute : Expression → Expression
  | .value (.binding (.register register)) => (copies register).getD (.register register)
  | .value value => .value value
  | .binary op left right => .binary op left.substitute right.substitute
  | .unary op operand => .unary op operand.substitute
  | .call callee arguments => .call callee.substitute (substituteAll arguments)
  | .new callee arguments => .new callee.substitute (substituteAll arguments)
  | .member object property optional => .member object.substitute property.substitute optional
  | .array elements => .array (substituteElements elements)
  | .object properties => .object (substituteProperties properties)
  | .conditional condition thenExpr elseExpr =>
      .conditional condition.substitute thenExpr.substitute elseExpr.substitute
  | .assignment target value => .assignment target.substitute value.substitute
  | .spread operand => .spread operand.substitute
  | .function id name isArrow isAsync isGenerator => .function id name isArrow isAsync isGenerator
  | .templateLiteral quasis expressions => .templateLiteral quasis expressions
  | .regExp pattern flags => .regExp pattern flags
  | .yield value delegate => .yield value delegate
  | .await operand => .await operand
  | .jsxElement tag attributes children => .jsxElement tag attributes children
  | .unknown opcode operands => .unknown opcode operands

def substituteAll : List Expression → List Expression
  | [] => []
  | first :: rest => first.substitute :: substituteAll rest

def substituteElements : List (Option Expression) → List (Option Expression)
  | [] => []
  | none :: rest => none :: substituteElements rest
  | some first :: rest => some first.substitute :: substituteElements rest

def PropertyKey.substitute : PropertyKey → PropertyKey
  | .computed key => indexKey key.substitute
  | .ident name => .ident name
  | .string text => .string text
  | .index position => .index position

def substituteProperties : List ObjectProperty → List ObjectProperty
  | [] => []
  | .mk key value :: rest => .mk key.substitute value.substitute :: substituteProperties rest

def AssignTarget.substitute : AssignTarget → AssignTarget
  | .index object key => .index object.substitute key.substitute
  | .member object property => .member object.substitute property
  | .binding binding => .binding binding
  | .destructuringArray elements => .destructuringArray elements
  | .destructuringArrayRest elements rest => .destructuringArrayRest elements rest
  | .destructuringObject properties => .destructuringObject properties
  | .destructuringObjectRest properties rest => .destructuringObjectRest properties rest
  | .rest target => .rest target

end

/-- Replace the reads of a statement. -/
def Statement.substitute : Statement → Statement
  | .expr expression => .expr (expression.substitute copies)
  | .letStmt name value kind => .letStmt name (value.substitute copies) kind
  | .assign target value => .assign (target.substitute copies) (value.substitute copies)
  | .returnStmt (some value) => .returnStmt (some (value.substitute copies))
  | .throwStmt value => .throwStmt (value.substitute copies)
  | statement => statement

/-- Replace the reads of a terminator. -/
def Terminator.substitute : Terminator → Terminator
  | branch condition trueTarget falseTarget =>
      .branch (condition.substitute copies) trueTarget falseTarget
  | returnTerm (some value) => .returnTerm (some (value.substitute copies))
  | throwTerm value => .throwTerm (value.substitute copies)
  | switch value cases default =>
      .switch (value.substitute copies)
        (cases.map fun test => (test.1.substitute copies, test.2)) default
  | terminator => terminator

end Substitution

/-- What a walk collects at the reads and the computed keys a substitution reaches. -/
structure Spots (β : Type) where
  onRead : Nat → List β
  onKey : Expression → List β

section Spots

variable {β : Type} (spots : Spots β)

mutual

/-- Visit the places of an expression that a substitution reaches. -/
def Expression.reached : Expression → List β
  | .value (.binding (.register register)) => spots.onRead register
  | .value _ => []
  | .binary _ left right => left.reached ++ right.reached
  | .unary _ operand => operand.reached
  | .call callee arguments => callee.reached ++ reachedAll arguments
  | .new callee arguments => callee.reached ++ reachedAll arguments
  | .member object property _ => object.reached ++ property.reached
  | .array elements => reachedElements elements
  | .object properties => reachedProperties properties
  | .conditional condition thenExpr elseExpr =>
      condition.reached ++ (thenExpr.reached ++ elseExpr.reached)
  | .assignment target value => target.reached ++ value.reached
  | .spread operand => operand.reached
  | .function .. | .templateLiteral .. | .regExp .. | .yield .. | .await _ | .jsxElement ..
  | .unknown .. => []

def reachedAll : List Expression → List β
  | [] => []
  | first :: rest => first.reached ++ reachedAll rest

def reachedElements : List (Option Expression) → List β
  | [] => []
  | none :: rest => reachedElements rest
  | some first :: rest => first.reached ++ reachedElements rest

def PropertyKey.reached : PropertyKey → List β
  | .computed key => spots.onKey key ++ key.reached
  | .ident _ | .string _ | .index _ => []

def reachedProperties : List ObjectProperty → List β
  | [] => []
  | .mk key value :: rest => key.reached ++ (value.reached ++ reachedProperties rest)

def AssignTarget.reached : AssignTarget → List β
  | .index object key => object.reached ++ key.reached
  | .member object _ => object.reached
  | .binding _ | .destructuringArray _ | .destructuringArrayRest .. | .destructuringObject _
  | .destructuringObjectRest .. | .rest _ => []

end

/-- Visit the places of a statement that a substitution reaches. -/
def Statement.reached : Statement → List β
  | .expr expression => expression.reached spots
  | .letStmt _ value _ => value.reached spots
  | .assign target value => target.reached spots ++ value.reached spots
  | .returnStmt (some value) => value.reached spots
  | .throwStmt value => value.reached spots
  | _ => []

/-- Visit the places of a terminator that a substitution reaches. -/
def Terminator.reached : Terminator → List β
  | branch condition _ _ => condition.reached spots
  | returnTerm (some value) => value.reached spots
  | throwTerm value => value.reached spots
  | switch value cases _ => value.reached spots ++ cases.flatMap fun test => test.1.reached spots
  | _ => []

end Spots

/-- Collects the registers whose reads a substitution reaches. -/
def copiedSpots : Spots Nat := ⟨fun register => [register], fun _ => []⟩

/-- Collects the computed keys a substitution reaches. -/
def keySpots : Spots Expression := ⟨fun _ => [], fun key => [key]⟩

/-- A whole number that becomes an index lies in the range of an index. -/
def FitsKey : Expression → Prop
  | .value (.constant (.number number)) =>
      ∀ value, number.integer? = some value → saturate value = value
  | _ => True

/-- The second substitution after the first is the third. -/
def Composes (first second both : Nat → Option Expression) : Prop :=
  ∀ register, (standIn first register).substitute second = standIn both register

variable {first second both : Nat → Option Expression}

theorem substitute_indexKey (key : Expression) :
    (indexKey key).substitute second = indexKey (key.substitute second) := by
  unfold indexKey
  split
  · rfl
  · rename_i number
    cases found : number.integer? with
    | some value => simp only [PropertyKey.substitute, Expression.substitute, found]
    | none => simp only [PropertyKey.substitute, Expression.substitute, indexKey, found]
  · rfl

section

variable (composes : Composes first second both)

include composes

set_option linter.unusedSectionVars false in
mutual

theorem Expression.substitute_substitute :
    ∀ expression : Expression,
      (expression.substitute first).substitute second = expression.substitute both
  | .value value => by
    cases value with
    | binding place =>
      cases place with
      | register register => exact composes register
      | «variable» | closureVar => rfl
    | constant | this | global | parameter | arguments | newTarget | super => rfl
  | .binary op left right => by
    simp [Expression.substitute, left.substitute_substitute, right.substitute_substitute]
  | .unary op operand | .spread operand => by
    simp [Expression.substitute, operand.substitute_substitute]
  | .conditional condition thenExpr elseExpr => by
    simp [Expression.substitute, condition.substitute_substitute,
      thenExpr.substitute_substitute, elseExpr.substitute_substitute]
  | .member object property optional => by
    simp [Expression.substitute, object.substitute_substitute, property.substitute_substitute]
  | .call callee arguments | .new callee arguments => by
    simp [Expression.substitute, callee.substitute_substitute,
      substituteAll_substituteAll arguments]
  | .array elements => by
    simp [Expression.substitute, substituteElements_substituteElements elements]
  | .object properties => by
    simp [Expression.substitute, substituteProperties_substituteProperties properties]
  | .assignment target value => by
    simp [Expression.substitute, target.substitute_substitute, value.substitute_substitute]
  | .function .. | .templateLiteral .. | .regExp .. | .yield .. | .await .. | .jsxElement ..
  | .unknown .. => rfl

theorem substituteAll_substituteAll : ∀ expressions,
      substituteAll second (substituteAll first expressions) = substituteAll both expressions
  | [] => rfl
  | head :: rest => by
    simp [substituteAll, head.substitute_substitute, substituteAll_substituteAll rest]

theorem substituteElements_substituteElements :
    ∀ elements, substituteElements second (substituteElements first elements) =
        substituteElements both elements
  | [] => rfl
  | none :: rest => by simp [substituteElements, substituteElements_substituteElements rest]
  | some head :: rest => by
    simp [substituteElements, head.substitute_substitute,
      substituteElements_substituteElements rest]

theorem PropertyKey.substitute_substitute :
    ∀ key : PropertyKey, (key.substitute first).substitute second = key.substitute both
  | .ident .. | .string .. | .index .. => rfl
  | .computed key => by
    simp [PropertyKey.substitute, substitute_indexKey, key.substitute_substitute]

theorem substituteProperties_substituteProperties :
    ∀ properties, substituteProperties second (substituteProperties first properties) =
        substituteProperties both properties
  | [] => rfl
  | .mk key value :: rest => by
    simp [substituteProperties, key.substitute_substitute,
      value.substitute_substitute, substituteProperties_substituteProperties rest]

theorem AssignTarget.substitute_substitute :
    ∀ target : AssignTarget, (target.substitute first).substitute second = target.substitute both
  | .binding .. | .destructuringArray .. | .destructuringArrayRest ..
  | .destructuringObject .. | .destructuringObjectRest .. | .rest .. => rfl
  | .member object _ => by simp [AssignTarget.substitute, object.substitute_substitute]
  | .index object key => by
    simp [AssignTarget.substitute, object.substitute_substitute, key.substitute_substitute]

end

end

theorem Statement.substitute_substitute (composes : Composes first second both)
    (statement : Statement) :
    (statement.substitute first).substitute second = statement.substitute both := by
  cases statement with
  | expr expression => exact congrArg Statement.expr (expression.substitute_substitute composes)
  | letStmt name value kind =>
    exact congrArg (Statement.letStmt name · kind) (value.substitute_substitute composes)
  | assign target value =>
    exact congrArg₂ Statement.assign (target.substitute_substitute composes)
      (value.substitute_substitute composes)
  | returnStmt value =>
    cases value with
    | none => rfl
    | some value =>
      exact congrArg (fun value => Statement.returnStmt (some value))
        (value.substitute_substitute composes)
  | throwStmt value => exact congrArg Statement.throwStmt (value.substitute_substitute composes)
  | _ => rfl

theorem Terminator.substitute_substitute (composes : Composes first second both)
    (terminator : Terminator) :
    (terminator.substitute first).substitute second = terminator.substitute both := by
  cases terminator with
  | branch condition trueTarget falseTarget =>
    exact congrArg (Terminator.branch · trueTarget falseTarget)
      (condition.substitute_substitute composes)
  | returnTerm value =>
    cases value with
    | none => rfl
    | some value =>
      exact congrArg (fun value => Terminator.returnTerm (some value))
        (value.substitute_substitute composes)
  | throwTerm value => exact congrArg Terminator.throwTerm (value.substitute_substitute composes)
  | switch value cases default =>
    simp only [Terminator.substitute, List.map_map, value.substitute_substitute composes]
    have tests : ∀ test : Expression × BlockId,
        ((test.1.substitute first).substitute second, test.2) = (test.1.substitute both, test.2) :=
      fun test => by rw [test.1.substitute_substitute composes]
    exact congrArg (Terminator.switch _ · default) (List.map_congr_left fun test _ => tests test)
  | jump | none => rfl

end HermesDecomp.Ir
