import Mathlib.Algebra.Ring.Nat
import Mathlib.Algebra.Ring.Int.Defs
import Mathlib.Tactic.Common

/-!
# The syntax of the intermediate representation

Expressions, assignment targets, statements and block terminators, as the source declares them. A
name is a binding wherever it stands, so that a read of a place and a write to it mention the same
thing.
-/

namespace HermesDecomp.Ir

/-- The bits of an IEEE 754 double. -/
structure Float64 where
  bits : BitVec 64
deriving DecidableEq, Repr

namespace Float64

/-- The sign bit. -/
def negative (number : Float64) : Bool := number.bits.msb

/-- The biased exponent. -/
def exponent (number : Float64) : Nat := number.bits.toNat / 2 ^ 52 % 2 ^ 11

/-- The fraction bits. -/
def fraction (number : Float64) : Nat := number.bits.toNat % 2 ^ 52

/-- Neither infinite nor a NaN. -/
def finite (number : Float64) : Bool := number.exponent != 2047

def isNan (number : Float64) : Bool := number.exponent == 2047 && number.fraction != 0

def isZero (number : Float64) : Bool := number.exponent == 0 && number.fraction == 0

/-- The significand of a finite number. -/
def significand (number : Float64) : Nat :=
  if number.exponent = 0 then number.fraction else 2 ^ 52 + number.fraction

/-- The power of two a finite number's significand is scaled by, plus 1074. -/
def scale (number : Float64) : Nat := number.exponent - 1

/-- The magnitude of a finite number with no fractional part. -/
def magnitude? (number : Float64) : Option Nat :=
  if number.finite = false then none
  else if 1074 ≤ number.scale then some (number.significand * 2 ^ (number.scale - 1074))
  else if number.significand % 2 ^ (1074 - number.scale) = 0 then
    some (number.significand / 2 ^ (1074 - number.scale))
  else none

/-- The integer a number is, when `fract` of it is zero. -/
def integer? (number : Float64) : Option Int :=
  number.magnitude?.map fun magnitude =>
    if number.negative then -(magnitude : Int) else (magnitude : Int)

/-- Equality of floating-point values: a NaN differs from itself, and the two zeros
are equal. -/
instance : BEq Float64 where
  beq left right :=
    !left.isNan && !right.isNan && (left.bits == right.bits || (left.isZero && right.isZero))

end Float64

/-- `as i64`: an integer outside the range becomes the nearest bound. -/
def saturate (value : Int) : Int := max (-(2 ^ 63)) (min (2 ^ 63 - 1) value)

/-- A basic block of one function. -/
abbrev BlockId := Nat

/-- A function of the file. -/
abbrev FunctionId := Nat

inductive Constant where
  | undefined
  | null
  | bool (value : Bool)
  | number (value : Float64)
  | integer (value : Int)
  | string (text : String)
  | bigInt (digits : String)
deriving DecidableEq, BEq, Repr

/-- The environment slot a variable stands for. -/
structure SlotRef where
  owner : Nat
  slot : Nat
deriving DecidableEq, Repr

/-- A named variable. Two variables are the same when their names are: the slot
only rides along. -/
structure Var where
  name : String
  slot : Option SlotRef
deriving DecidableEq, Repr

instance : BEq Var where
  beq left right := left.name == right.name

/-- The identity of a storage location. -/
inductive Binding where
  | register (register : Nat)
  | variable (name : Var)
  | closureVar (level slot : Nat)
deriving DecidableEq, BEq, Repr

inductive Value where
  | binding (binding : Binding)
  | constant (constant : Constant)
  | this
  | global
  | parameter (index : Nat)
  | arguments
  | newTarget
  | super
deriving DecidableEq, BEq, Repr

inductive BinaryOp where
  | add | sub | mul | div | mod
  | bitAnd | bitOr | bitXor | shl | shr | uShr
  | eq | strictEq | neq | strictNeq | lt | le | gt | ge
  | and | or | isIn | instanceOf | nullishCoalesce | logicalAnd | logicalOr | exp
deriving DecidableEq, Repr

inductive UnaryOp where
  | neg | plus | bitNot | not | typeOf | void
deriving DecidableEq, Repr

mutual

inductive Expression where
  | value (value : Value)
  | binary (op : BinaryOp) (left right : Expression)
  | unary (op : UnaryOp) (operand : Expression)
  | conditional (condition thenExpr elseExpr : Expression)
  | member (object : Expression) (property : PropertyKey) (optional : Bool)
  | call (callee : Expression) (arguments : List Expression)
  | new (callee : Expression) (arguments : List Expression)
  | array (elements : List (Option Expression))
  | object (properties : List ObjectProperty)
  | function (id : FunctionId) (name : Option String) (isArrow isAsync isGenerator : Bool)
  | assignment (target : AssignTarget) (value : Expression)
  | spread (operand : Expression)
  | templateLiteral (quasis : List String) (expressions : List Expression)
  | regExp (pattern flags : String)
  | yield (value : Expression) (delegate : Bool)
  | await (operand : Expression)
  | jsxElement (tag : String) (attributes : List (String × Expression)) (children : List Expression)
  | unknown (opcode : String) (operands : List String)

inductive PropertyKey where
  | ident (name : String)
  | computed (key : Expression)
  | string (text : String)
  | index (position : Int)

inductive ObjectProperty where
  | mk (key : PropertyKey) (value : Expression)

inductive AssignTarget where
  | binding (binding : Binding)
  | member (object : Expression) (property : String)
  | index (object key : Expression)
  | destructuringArray (elements : List (Option (AssignTarget × Option Expression)))
  | destructuringArrayRest (elements : List (Option (AssignTarget × Option Expression)))
      (rest : AssignTarget)
  | destructuringObject (properties : List (String × AssignTarget × Option Expression))
  | destructuringObjectRest (properties : List (String × AssignTarget × Option Expression))
      (rest : AssignTarget)
  | rest (target : AssignTarget)

end

/-! Equality of expressions, as the source derives it: names compare by their
spelling and numbers as floating-point values. -/

mutual

def Expression.same : Expression → Expression → Bool
  | .value left, .value right => left == right
  | .binary op left right, .binary op' left' right' =>
      op == op' && left.same left' && right.same right'
  | .unary op operand, .unary op' operand' => op == op' && operand.same operand'
  | .conditional condition thenExpr elseExpr, .conditional condition' thenExpr' elseExpr' =>
      condition.same condition' && thenExpr.same thenExpr' && elseExpr.same elseExpr'
  | .member object property optional, .member object' property' optional' =>
      object.same object' && property.same property' && optional == optional'
  | .call callee arguments, .call callee' arguments' =>
      callee.same callee' && sameAll arguments arguments'
  | .new callee arguments, .new callee' arguments' =>
      callee.same callee' && sameAll arguments arguments'
  | .array elements, .array elements' => sameElements elements elements'
  | .object properties, .object properties' => sameProperties properties properties'
  | .function id name isArrow isAsync isGenerator,
      .function id' name' isArrow' isAsync' isGenerator' =>
      id == id' && name == name' && isArrow == isArrow' && isAsync == isAsync' &&
        isGenerator == isGenerator'
  | .assignment target value, .assignment target' value' => target.same target' && value.same value'
  | .spread operand, .spread operand' => operand.same operand'
  | .templateLiteral quasis expressions, .templateLiteral quasis' expressions' =>
      quasis == quasis' && sameAll expressions expressions'
  | .regExp pattern flags, .regExp pattern' flags' => pattern == pattern' && flags == flags'
  | .yield value delegate, .yield value' delegate' => value.same value' && delegate == delegate'
  | .await operand, .await operand' => operand.same operand'
  | .jsxElement tag attributes children, .jsxElement tag' attributes' children' =>
      tag == tag' && sameAttributes attributes attributes' && sameAll children children'
  | .unknown opcode operands, .unknown opcode' operands' =>
      opcode == opcode' && operands == operands'
  | _, _ => false
termination_by structural left => left

def sameAll : List Expression → List Expression → Bool
  | [], [] => true
  | first :: rest, first' :: rest' => first.same first' && sameAll rest rest'
  | _, _ => false
termination_by structural left => left

def sameElements : List (Option Expression) → List (Option Expression) → Bool
  | [], [] => true
  | none :: rest, none :: rest' => sameElements rest rest'
  | some first :: rest, some first' :: rest' => first.same first' && sameElements rest rest'
  | _, _ => false
termination_by structural left => left

def sameAttributes : List (String × Expression) → List (String × Expression) → Bool
  | [], [] => true
  | (name, first) :: rest, (name', first') :: rest' =>
      name == name' && first.same first' && sameAttributes rest rest'
  | _, _ => false
termination_by structural left => left

def PropertyKey.same : PropertyKey → PropertyKey → Bool
  | .ident name, .ident name' => name == name'
  | .computed key, .computed key' => key.same key'
  | .string text, .string text' => text == text'
  | .index position, .index position' => position == position'
  | _, _ => false
termination_by structural left => left

def sameProperties : List ObjectProperty → List ObjectProperty → Bool
  | [], [] => true
  | .mk key value :: rest, .mk key' value' :: rest' =>
      key.same key' && value.same value' && sameProperties rest rest'
  | _, _ => false
termination_by structural left => left

def AssignTarget.same : AssignTarget → AssignTarget → Bool
  | .binding binding, .binding binding' => binding == binding'
  | .member object property, .member object' property' =>
      object.same object' && property == property'
  | .index object key, .index object' key' => object.same object' && key.same key'
  | .destructuringArray elements, .destructuringArray elements' => sameItems elements elements'
  | .destructuringArrayRest elements rest, .destructuringArrayRest elements' rest' =>
      sameItems elements elements' && rest.same rest'
  | .destructuringObject properties, .destructuringObject properties' =>
      sameFields properties properties'
  | .destructuringObjectRest properties rest, .destructuringObjectRest properties' rest' =>
      sameFields properties properties' && rest.same rest'
  | .rest target, .rest target' => target.same target'
  | _, _ => false
termination_by structural left => left

def sameItems : List (Option (AssignTarget × Option Expression)) →
    List (Option (AssignTarget × Option Expression)) → Bool
  | [], [] => true
  | none :: rest, none :: rest' => sameItems rest rest'
  | some (target, none) :: rest, some (target', none) :: rest' =>
      target.same target' && sameItems rest rest'
  | some (target, some fallback) :: rest, some (target', some fallback') :: rest' =>
      target.same target' && fallback.same fallback' && sameItems rest rest'
  | _, _ => false
termination_by structural left => left

def sameFields : List (String × AssignTarget × Option Expression) →
    List (String × AssignTarget × Option Expression) → Bool
  | [], [] => true
  | (key, target, none) :: rest, (key', target', none) :: rest' =>
      key == key' && target.same target' && sameFields rest rest'
  | (key, target, some fallback) :: rest, (key', target', some fallback') :: rest' =>
      key == key' && target.same target' && fallback.same fallback' && sameFields rest rest'
  | _, _ => false
termination_by structural left => left

end

instance : BEq Expression := ⟨Expression.same⟩

instance : BEq AssignTarget := ⟨AssignTarget.same⟩

/-- Equality of expressions that may be absent. -/
def sameCondition : Option Expression → Option Expression → Bool
  | none, none => true
  | some condition, some condition' => condition.same condition'
  | _, _ => false

namespace Expression

/-- The read of a register. -/
@[match_pattern] def register (register : Nat) : Expression :=
  .value (.binding (.register register))

end Expression

inductive VarKind where
  | const | let | var
deriving DecidableEq, Repr

inductive MethodKind where
  | constructor | method | getter | setter
deriving DecidableEq, Repr

mutual

inductive Statement where
  | expr (expression : Expression)
  | letStmt (name : Var) (value : Expression) (kind : VarKind)
  | assign (target : AssignTarget) (value : Expression)
  | delete (target : Expression) (result : Option Nat)
  | returnStmt (value : Option Expression)
  | throwStmt (value : Expression)
  | debugger
  | comment (text : String)
  | breakStmt (label : Option String)
  | continueStmt (label : Option String)
  | goto (target : BlockId)
  | condGoto (condition : Expression) (target fallthrough : BlockId)
  | ifStmt (condition : Expression) (thenBody elseBody : List Statement)
  | whileStmt (condition : Expression) (body : List Statement)
  | doWhile (body : List Statement) (condition : Expression)
  | forStmt (init : Option Statement) (condition : Option Expression) (update : Option Statement)
      (body : List Statement)
  | switch (discriminant : Expression) (cases : List (Expression × List Statement))
      (default : Option (List Statement))
  | forOf (name : String) (iterable : Expression) (body : List Statement)
  | forIn (name : String) (object : Expression) (body : List Statement)
  | tryCatch (tryBody : List Statement) (catchParam : Option String)
      (catchBody finallyBody : List Statement)
  | block (body : List Statement)
  | classStmt (name : String) (superClass : Option Expression) (constructor : Option Statement)
      (methods : List ClassMethod)

inductive ClassMethod where
  | mk (key : String) (value : Expression) (body : Option (List Statement)) (isStatic : Bool)
      (kind : MethodKind) (params : List String)

end

/-! Equality of statements. -/

mutual

def Statement.same : Statement → Statement → Bool
  | .expr expression, .expr expression' => expression.same expression'
  | .letStmt name value kind, .letStmt name' value' kind' =>
      name == name' && value.same value' && kind == kind'
  | .assign target value, .assign target' value' => target.same target' && value.same value'
  | .delete target result, .delete target' result' => target.same target' && result == result'
  | .returnStmt none, .returnStmt none => true
  | .returnStmt (some value), .returnStmt (some value') => value.same value'
  | .throwStmt value, .throwStmt value' => value.same value'
  | .debugger, .debugger => true
  | .comment text, .comment text' => text == text'
  | .breakStmt label, .breakStmt label' => label == label'
  | .continueStmt label, .continueStmt label' => label == label'
  | .goto target, .goto target' => target == target'
  | .condGoto condition target fallthrough, .condGoto condition' target' fallthrough' =>
      condition.same condition' && target == target' && fallthrough == fallthrough'
  | .ifStmt condition thenBody elseBody, .ifStmt condition' thenBody' elseBody' =>
      condition.same condition' && sameStatements thenBody thenBody' &&
        sameStatements elseBody elseBody'
  | .whileStmt condition body, .whileStmt condition' body' =>
      condition.same condition' && sameStatements body body'
  | .doWhile body condition, .doWhile body' condition' =>
      sameStatements body body' && condition.same condition'
  | .forStmt init condition update body, .forStmt init' condition' update' body' =>
      sameOption init init' && sameCondition condition condition' && sameOption update update' &&
        sameStatements body body'
  | .switch discriminant cases default, .switch discriminant' cases' default' =>
      discriminant.same discriminant' && sameCases cases cases' && sameBody default default'
  | .forOf name iterable body, .forOf name' iterable' body' =>
      name == name' && iterable.same iterable' && sameStatements body body'
  | .forIn name object body, .forIn name' object' body' =>
      name == name' && object.same object' && sameStatements body body'
  | .tryCatch tryBody catchParam catchBody finallyBody,
      .tryCatch tryBody' catchParam' catchBody' finallyBody' =>
      sameStatements tryBody tryBody' && catchParam == catchParam' &&
        sameStatements catchBody catchBody' && sameStatements finallyBody finallyBody'
  | .block body, .block body' => sameStatements body body'
  | .classStmt name superClass constructor methods,
      .classStmt name' superClass' constructor' methods' =>
      name == name' && sameCondition superClass superClass' &&
        sameOption constructor constructor' && sameMethods methods methods'
  | _, _ => false
termination_by structural left => left

def sameStatements : List Statement → List Statement → Bool
  | [], [] => true
  | first :: rest, first' :: rest' => first.same first' && sameStatements rest rest'
  | _, _ => false
termination_by structural left => left

def sameOption : Option Statement → Option Statement → Bool
  | none, none => true
  | some statement, some statement' => statement.same statement'
  | _, _ => false
termination_by structural left => left

def sameBody : Option (List Statement) → Option (List Statement) → Bool
  | none, none => true
  | some body, some body' => sameStatements body body'
  | _, _ => false
termination_by structural left => left

def sameCases : List (Expression × List Statement) → List (Expression × List Statement) → Bool
  | [], [] => true
  | (test, body) :: rest, (test', body') :: rest' =>
      test.same test' && sameStatements body body' && sameCases rest rest'
  | _, _ => false
termination_by structural left => left

def sameMethods : List ClassMethod → List ClassMethod → Bool
  | [], [] => true
  | .mk key value body isStatic kind params :: rest,
      .mk key' value' body' isStatic' kind' params' :: rest' =>
      key == key' && value.same value' && sameBody body body' && isStatic == isStatic' &&
        kind == kind' && params == params' && sameMethods rest rest'
  | _, _ => false
termination_by structural left => left

end

namespace Statement

/-- The assignment of a value to a register. -/
@[match_pattern] def assignReg (register : Nat) (value : Expression) : Statement :=
  .assign (.binding (.register register)) value

/-- The register a plain register assignment defines. The reaching analysis, the
live-range splitting and the copy passes all call these statements, and no others,
definitions. -/
def definition? : Statement → Option Nat
  | assignReg register _ => some register
  | _ => none

end Statement

/-- How a basic block ends. -/
inductive Terminator where
  | jump (target : BlockId)
  | branch (condition : Expression) (trueTarget falseTarget : BlockId)
  | returnTerm (value : Option Expression)
  | throwTerm (value : Expression)
  | switch (value : Expression) (cases : List (Expression × BlockId)) (default : BlockId)
  | none

def Terminator.same : Terminator → Terminator → Bool
  | jump target, jump target' => target == target'
  | branch condition trueTarget falseTarget, branch condition' trueTarget' falseTarget' =>
      condition.same condition' && trueTarget == trueTarget' && falseTarget == falseTarget'
  | returnTerm value, returnTerm value' => sameCondition value value'
  | throwTerm value, throwTerm value' => value.same value'
  | switch value cases default, switch value' cases' default' =>
      value.same value' && cases.length == cases'.length &&
        (cases.zip cases').all (fun pair => pair.1.1.same pair.2.1 && pair.1.2 == pair.2.2) &&
        default == default'
  | none, none => true
  | _, _ => false

/-- The blocks a terminator can continue with. -/
def Terminator.successors : Terminator → List BlockId
  | jump target => [target]
  | branch _ trueTarget falseTarget => [trueTarget, falseTarget]
  | switch _ cases default => cases.map Prod.snd ++ [default]
  | returnTerm _ | throwTerm _ | none => []

end HermesDecomp.Ir
