import HermesDecomp.Ir.Host

/-!
# A recording engine that calculates

The recording engine with JavaScript's results for the operators on integers, and for the
operators on other numbers where one operand is zero or one. A double that is an integer is held
as one, except for the negative zero. Every other operation is recorded.
-/

namespace HermesDecomp.Ir

namespace Float64

def zero : Float64 := ⟨0⟩

def negativeZero : Float64 := ⟨0x8000000000000000⟩

def one : Float64 := ⟨0x3FF0000000000000⟩

/-- The two zeros. -/
theorem eq_of_isZero {number : Float64} (isZero : number.isZero = true) :
    (number.negative = false ∧ number = zero) ∨ (number.negative = true ∧ number = negativeZero) := by
  obtain ⟨bits⟩ := number
  have small := bits.isLt
  simp only [Float64.isZero, exponent, fraction, Bool.and_eq_true, beq_iff_eq] at isZero
  obtain ⟨noExponent, noFraction⟩ := isZero
  have either : bits.toNat = 0 ∨ bits.toNat = 2 ^ 63 := by omega
  rcases either with isPositive | isNegative
  · obtain rfl : bits = 0 := BitVec.eq_of_toNat_eq isPositive
    exact Or.inl ⟨by decide, rfl⟩
  · obtain rfl : bits = 0x8000000000000000 := BitVec.eq_of_toNat_eq isNegative
    exact Or.inr ⟨by decide, rfl⟩

theorem eq_of_beq_one {number : Float64} (same : (number == one) = true) : number = one := by
  obtain ⟨bits⟩ := number
  have unfolded : (!isNan ⟨bits⟩ && !one.isNan && (bits == one.bits || isZero ⟨bits⟩ && one.isZero)) =
      true := same
  have notZero : one.isZero = false := by decide
  rw [notZero, Bool.and_false, Bool.or_false, Bool.and_eq_true, beq_iff_eq] at unfolded
  rw [unfolded.2]

theorem isZero_of_beq_zero {number : Float64} (same : (number == zero) = true) :
    number.isZero = true := by
  obtain ⟨bits⟩ := number
  have unfolded : (!isNan ⟨bits⟩ && !zero.isNan &&
      (bits == zero.bits || isZero ⟨bits⟩ && zero.isZero)) = true := same
  simp only [Bool.and_eq_true, Bool.or_eq_true, beq_iff_eq] at unfolded
  rcases unfolded.2 with sameBits | ⟨isZero, _⟩
  · rw [sameBits]
    decide
  · exact isZero

end Float64

namespace Calculating

/-- A constant as a value. -/
def constant : Constant → Constant
  | .number number =>
      if number = Float64.negativeZero then .number number
      else
        match number.integer? with
        | some value => .integer value
        | none => .number number
  | other => other

/-- The result of an operator on two integers, where it is an integer other than the negative
zero. -/
def integers (op : BinaryOp) (l r : Int) : Option Int :=
  match op with
  | .add => some (l + r)
  | .sub => some (l - r)
  | .mul => if l * r = 0 → 0 ≤ l ∧ 0 ≤ r then some (l * r) else none
  | .div => if r ≠ 0 ∧ r ∣ l ∧ (l = 0 → 0 < r) then some (l / r) else none
  | .mod => if r ≠ 0 ∧ (l.tmod r = 0 → 0 ≤ l) then some (l.tmod r) else none
  | .bitAnd => some (BitVec.ofInt 32 l &&& BitVec.ofInt 32 r).toInt
  | .bitOr => some (BitVec.ofInt 32 l ||| BitVec.ofInt 32 r).toInt
  | .bitXor => some (BitVec.ofInt 32 l ^^^ BitVec.ofInt 32 r).toInt
  | .shl => some (BitVec.ofInt 32 l <<< ((BitVec.ofInt 32 r).toNat % 32)).toInt
  | .shr => some ((BitVec.ofInt 32 l).sshiftRight ((BitVec.ofInt 32 r).toNat % 32)).toInt
  | _ => none

/-- The result of an operator on an integer and a double that is none. -/
def mixedLeft (op : BinaryOp) (l : Int) (number : Float64) : Option Constant :=
  match op with
  | .add =>
      if number = Float64.negativeZero then some (.integer l)
      else if l = 0 then some (.number number) else none
  | .sub => if number = Float64.negativeZero then some (.integer l) else none
  | .mul =>
      if l = 1 then some (.number number)
      else if number = Float64.negativeZero then if l < 0 then some (.integer 0) else none
      else if l = 0 ∧ number.finite = true ∧ number.negative = false then some (.integer 0)
      else none
  | _ => none

/-- The result of an operator on a double that is no integer, and an integer. -/
def mixedRight (op : BinaryOp) (number : Float64) (r : Int) : Option Constant :=
  match op with
  | .sub => if r = 0 then some (.number number) else none
  | .div => if r = 1 then some (.number number) else none
  | op => mixedLeft op r number

/-- The result of an operator on two doubles that are no integers. -/
def doubles (op : BinaryOp) (left right : Float64) : Option Constant :=
  match op with
  | .add =>
      if left = Float64.negativeZero then some (.number right)
      else if right = Float64.negativeZero then some (.number left) else none
  | .sub =>
      if right = Float64.negativeZero then
        if left = Float64.negativeZero then some (.integer 0) else some (.number left)
      else none
  | .mul =>
      if (left = Float64.negativeZero ∨ right = Float64.negativeZero) ∧ left.finite = true ∧
          right.finite = true ∧ left.negative = true ∧ right.negative = true then
        some (.integer 0)
      else none
  | _ => none

/-- The result of an operator, where the engine calculates it. -/
def calculate (op : BinaryOp) : Constant → Constant → Option Constant
  | .integer l, .integer r => (integers op l r).map .integer
  | .integer l, .number number => mixedLeft op l number
  | .number number, .integer r => mixedRight op number r
  | .number left, .number right => doubles op left right
  | _, _ => none

def binary (op : BinaryOp) (left right : Constant) : Action Trace Constant Constant :=
  match calculate op left right with
  | some result => pure result
  | none => Tracing.binary op left right

def unary : UnaryOp → Constant → Action Trace Constant Constant
  | .neg, .integer 0 => pure (.number Float64.negativeZero)
  | op, value => Tracing.unary op value

/-- The engine. -/
def host : Host := { Tracing.host with constant, unary, binary }

end Calculating

end HermesDecomp.Ir
