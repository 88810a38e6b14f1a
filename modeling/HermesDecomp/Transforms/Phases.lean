import HermesDecomp.Transforms.Substitute

/-!
# When a read happens

A statement reads some registers before it has performed any operation, and others after one. An
operation may change whatever is outside the registers, so the value of a variable may differ
between the two.
-/

namespace HermesDecomp.Ir

/-- The operators that perform no operation themselves. -/
def BinaryOp.isQuiet : BinaryOp → Bool
  | .and | .or | .logicalAnd | .logicalOr | .nullishCoalesce => true
  | _ => false

/-- The evaluation performs no operation. -/
def Expression.isQuiet : Expression → Bool
  | .value _ => true
  | .binary op left right => op.isQuiet && (left.isQuiet && right.isQuiet)
  | .conditional condition thenExpr elseExpr =>
      condition.isQuiet && (thenExpr.isQuiet && elseExpr.isQuiet)
  | .assignment (.binding (.register _)) content => content.isQuiet
  | _ => false

/-- What a target evaluates before the value to store performs no operation. -/
def AssignTarget.isQuiet : AssignTarget → Bool
  | .member object _ => object.isQuiet
  | .index object key => object.isQuiet && key.isQuiet
  | .rest _ => false
  | _ => true

/-- A statement that performs no operation. -/
def Statement.isQuiet : Statement → Bool
  | .expr expression => expression.isQuiet
  | .assignReg _ value => value.isQuiet
  | .comment _ => true
  | _ => false

mutual

/-- The reads of an expression that a substitution reaches, each with whether no
operation was performed before it. -/
def Expression.phased (early : Bool) : Expression → List (Bool × Nat)
  | .value (.binding (.register register)) => [(early, register)]
  | .value _ => []
  | .binary _ left right => left.phased early ++ right.phased (early && left.isQuiet)
  | .unary _ operand => operand.phased early
  | .call callee arguments => callee.phased early ++ phasedAll (early && callee.isQuiet) arguments
  | .new callee arguments => callee.phased early ++ phasedAll (early && callee.isQuiet) arguments
  | .member object property _ => object.phased early ++ property.phased (early && object.isQuiet)
  | .array elements => phasedElements early elements
  | .object properties => phasedProperties properties
  | .conditional condition thenExpr elseExpr =>
      condition.phased early ++ (thenExpr.phased (early && condition.isQuiet) ++
        elseExpr.phased (early && condition.isQuiet))
  | .assignment target value => target.phased early ++ value.phased (early && target.isQuiet)
  | .spread operand => operand.phased early
  | .function .. | .templateLiteral .. | .regExp .. | .yield .. | .await _ | .jsxElement ..
  | .unknown .. => []

def phasedAll (early : Bool) : List Expression → List (Bool × Nat)
  | [] => []
  | first :: rest => first.phased early ++ phasedAll (early && first.isQuiet) rest

def phasedElements (early : Bool) : List (Option Expression) → List (Bool × Nat)
  | [] => []
  | none :: rest => phasedElements early rest
  | some first :: rest => first.phased early ++ phasedElements (early && first.isQuiet) rest

def PropertyKey.phased (early : Bool) : PropertyKey → List (Bool × Nat)
  | .computed key => key.phased early
  | .ident _ | .string _ | .index _ => []

/-- The properties of an object come after its allocation. -/
def phasedProperties : List ObjectProperty → List (Bool × Nat)
  | [] => []
  | .mk key value :: rest => key.phased false ++ (value.phased false ++ phasedProperties rest)

def AssignTarget.phased (early : Bool) : AssignTarget → List (Bool × Nat)
  | .index object key => object.phased early ++ key.phased (early && object.isQuiet)
  | .member object _ => object.phased early
  | .binding _ | .destructuringArray _ | .destructuringArrayRest .. | .destructuringObject _
  | .destructuringObjectRest .. | .rest _ => []

end

/-- The reads of a statement that a substitution reaches. -/
def Statement.phased : Statement → List (Bool × Nat)
  | .expr expression => expression.phased true
  | .letStmt _ value _ => value.phased true
  | .assign target value => target.phased true ++ value.phased target.isQuiet
  | .returnStmt (some value) => value.phased true
  | .throwStmt value => value.phased true
  | _ => []

/-- The reads of the tests of a switch. -/
def phasedCases (early : Bool) : List (Expression × BlockId) → List (Bool × Nat)
  | [] => []
  | (test, _) :: rest => test.phased early ++ phasedCases (early && test.isQuiet) rest

/-- The reads of a terminator that a substitution reaches. -/
def Terminator.phased : Terminator → List (Bool × Nat)
  | branch condition _ _ => condition.phased true
  | returnTerm (some value) => value.phased true
  | throwTerm value => value.phased true
  | switch value cases _ => value.phased true ++ phasedCases value.isQuiet cases
  | _ => []

theorem append_subset {first first' second second' : List Nat} (left : first ⊆ first')
    (right : second ⊆ second') : first ++ second ⊆ first' ++ second' :=
  List.append_subset.mpr ⟨List.subset_append_of_subset_left _ left,
    List.subset_append_of_subset_right _ right⟩

/-- Two walks with the same reads after two walks with the same reads. -/
theorem map_append_eq {first second : List (Bool × Nat)} {first' second' : List Nat}
    (left : first.map Prod.snd = first') (right : second.map Prod.snd = second') :
    (first ++ second).map Prod.snd = first' ++ second' := by
  rw [List.map_append, left, right]

mutual

/-- The reads with a phase are the reads a substitution reaches. -/
theorem Expression.map_phased : ∀ (early : Bool) (expression : Expression),
    (expression.phased early).map Prod.snd = expression.reached copiedSpots
  | _, .value value => by
    cases value with
    | binding place => cases place <;> rfl
    | constant | this | global | parameter | arguments | newTarget | super => rfl
  | early, .binary _ left right => map_append_eq (left.map_phased early) (right.map_phased _)
  | early, .unary _ operand | early, .spread operand => operand.map_phased early
  | early, .conditional condition thenExpr elseExpr =>
    map_append_eq (condition.map_phased early)
      (map_append_eq (thenExpr.map_phased _) (elseExpr.map_phased _))
  | early, .member object property _ =>
    map_append_eq (object.map_phased early) (property.map_phased _)
  | early, .call callee arguments | early, .new callee arguments =>
    map_append_eq (callee.map_phased early) (map_phasedAll _ arguments)
  | early, .array elements => map_phasedElements early elements
  | _, .object properties => map_phasedProperties properties
  | early, .assignment target value => map_append_eq (target.map_phased early) (value.map_phased _)
  | _, .function .. | _, .templateLiteral .. | _, .regExp .. | _, .yield .. | _, .await _
  | _, .jsxElement .. | _, .unknown .. => rfl

theorem map_phasedAll : ∀ (early : Bool) (expressions : List Expression),
    (phasedAll early expressions).map Prod.snd = reachedAll copiedSpots expressions
  | _, [] => rfl
  | early, first :: rest => map_append_eq (first.map_phased early) (map_phasedAll _ rest)

theorem map_phasedElements : ∀ (early : Bool) (elements : List (Option Expression)),
    (phasedElements early elements).map Prod.snd = reachedElements copiedSpots elements
  | _, [] => rfl
  | early, none :: rest => map_phasedElements early rest
  | early, some first :: rest => map_append_eq (first.map_phased early) (map_phasedElements _ rest)

theorem PropertyKey.map_phased : ∀ (early : Bool) (key : PropertyKey),
    (key.phased early).map Prod.snd = key.reached copiedSpots
  | _, .ident _ | _, .string _ | _, .index _ => rfl
  | early, .computed key => key.map_phased early

theorem map_phasedProperties : ∀ properties,
    (phasedProperties properties).map Prod.snd = reachedProperties copiedSpots properties
  | [] => rfl
  | .mk key value :: rest => map_append_eq (key.map_phased false)
      (map_append_eq (value.map_phased false) (map_phasedProperties rest))

theorem AssignTarget.map_phased : ∀ (early : Bool) (target : AssignTarget),
    (target.phased early).map Prod.snd = target.reached copiedSpots
  | _, .binding _ | _, .destructuringArray _ | _, .destructuringArrayRest ..
  | _, .destructuringObject _ | _, .destructuringObjectRest .. | _, .rest _ => rfl
  | early, .member object _ => object.map_phased early
  | early, .index object key => map_append_eq (object.map_phased early) (key.map_phased _)

end

theorem Statement.map_phased (statement : Statement) :
    statement.phased.map Prod.snd = statement.reached copiedSpots := by
  cases statement with
  | expr expression => exact expression.map_phased true
  | letStmt _ value _ | throwStmt value => exact value.map_phased true
  | assign target value => exact map_append_eq (target.map_phased true) (value.map_phased _)
  | returnStmt value =>
    cases value with
    | none => rfl
    | some value => exact value.map_phased true
  | _ => rfl

theorem map_phasedCases : ∀ (early : Bool) (cases : List (Expression × BlockId)),
    (phasedCases early cases).map Prod.snd = cases.flatMap fun test => test.1.reached copiedSpots
  | _, [] => rfl
  | early, (test, _) :: rest => map_append_eq (test.map_phased early) (map_phasedCases _ rest)

theorem Terminator.map_phased (terminator : Terminator) :
    terminator.phased.map Prod.snd = terminator.reached copiedSpots := by
  cases terminator with
  | branch condition _ _ => exact condition.map_phased true
  | returnTerm value =>
    cases value with
    | none => rfl
    | some value => exact value.map_phased true
  | throwTerm value => exact value.map_phased true
  | switch value cases _ => exact map_append_eq (value.map_phased true) (map_phasedCases _ cases)
  | jump | none => rfl

end HermesDecomp.Ir
