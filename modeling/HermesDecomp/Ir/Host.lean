import HermesDecomp.Ir.Syntax
import HermesDecomp.Library.Agreement

/-!
# Hosts

What the statements of the representation do is given relative to a host: its values, everything
outside the registers of the running function, and the operations the program performs on them.
The registers belong to the running function alone; variables, environment slots, objects and
output are part of the host's world, which any operation may read or change.

Statements about a pass are made for every host, so they hold for any JavaScript
engine and any state of its heap. A call carries its receiver as its first argument,
as the bytecode's calls do; the value of a spread stands for the spread elements where
a list of values is expected.
-/

namespace HermesDecomp.Ir

/-- The values, the world and the operations of a JavaScript engine. -/
structure Host where
  Val : Type
  World : Type
  /-- Property keys. -/
  Key : Type
  constant : Constant → Val
  this : Val
  global : Val
  parameter : Nat → Val
  arguments : Val
  newTarget : Val
  super : Val
  truthy : Val → Bool
  nullish : Val → Bool
  isUndefined : Val → Bool
  strictEqual : Val → Val → Bool
  name : String → Key
  index : Int → Key
  toKey : Val → Action World Val Key
  readVariable : Var → Action World Val Val
  readClosureVar : Nat → Nat → Action World Val Val
  setVariable : Var → Val → Action World Val PUnit
  setClosureVar : Nat → Nat → Val → Action World Val PUnit
  declare : VarKind → Var → Val → Action World Val PUnit
  openScope : World → World
  closeScope : World → World
  unary : UnaryOp → Val → Action World Val Val
  binary : BinaryOp → Val → Val → Action World Val Val
  getMember : Val → Key → Action World Val Val
  setMember : Val → Key → Val → Action World Val PUnit
  deleteMember : Val → Key → Action World Val Val
  deleteValue : Val → Action World Val Val
  call : Val → List Val → Action World Val Val
  construct : Val → List Val → Action World Val Val
  spread : Val → Action World Val Val
  newArray : List (Option Val) → Action World Val Val
  newObject : Action World Val Val
  define : Val → Key → Val → Action World Val PUnit
  function : FunctionId → Option String → Bool → Bool → Bool → Action World Val Val
  toText : Val → Action World Val Val
  template : List String → List Val → Action World Val Val
  regExp : String → String → Action World Val Val
  yield : Bool → Val → Action World Val Val
  await : Val → Action World Val Val
  jsx : String → List (String × Val) → List Val → Action World Val Val
  unknown : String → List String → Action World Val Val
  requireObject : Val → Action World Val PUnit
  restOf : Val → List String → Action World Val Val
  iterate : Val → Action World Val Val
  enumerate : Val → Action World Val Val
  advance : Val → Action World Val (Option Val)
  collect : Val → Action World Val Val
  close : Val → Action World Val PUnit
  debugger : Action World Val PUnit
  defineClass : String → Option Val → Option Statement → List ClassMethod → Action World Val PUnit
  /-- The world in which the handler of a thrown value starts. -/
  caught : Val → World → World

namespace Host

/-- Using a numeric constant as a property key names the same property as the index
that number is. -/
structure Lawful (host : Host) : Prop where
  integer_key : ∀ value : Int, host.toKey (host.constant (.integer value)) = pure (host.index value)
  number_key : ∀ (number : Float64) (value : Int), number.integer? = some value →
    host.toKey (host.constant (.number number)) = pure (host.index value)

end Host

/-- A place in a graph: a block and the number of its statements already executed. -/
structure Point where
  block : BlockId
  index : Nat
deriving DecidableEq, Repr

/-- What wrote a register: the plain assignment at a point, or another part of the
statement there. -/
inductive Writer where
  | definition (point : Point)
  | other (point : Point)
deriving DecidableEq, Repr

/-- The contents of a register that was written. -/
structure Cell (Val : Type) where
  value : Val
  writer : Writer

/-- The registers of the running function and the host's world. `writer` is what a
register written now is written by. -/
structure Machine (host : Host) where
  registers : Nat → Option (Cell host.Val)
  world : host.World
  writer : Writer

/-- Why a statement does not run on to the next one. -/
inductive Exit (host : Host) where
  | throws (value : host.Val)
  | returns (value : Option host.Val)
  | breaks (label : Option String)
  | continues (label : Option String)
  | jumps (target : BlockId)

/-- Code of the running function. -/
abbrev Exec (host : Host) (α : Type) := Action (Machine host) (Exit host) α

namespace Machine

variable {host : Host}

/-- The value of a register. A register that was not written holds `undefined`. -/
def read (machine : Machine host) (register : Nat) : host.Val :=
  match machine.registers register with
  | some cell => cell.value
  | none => host.constant .undefined

/-- Write a register. -/
def write (register : Nat) (value : host.Val) (machine : Machine host) : Machine host :=
  { machine with
    registers := Function.update machine.registers register (some ⟨value, machine.writer⟩) }

theorem write_self (register : Nat) (value : host.Val) (machine : Machine host) :
    (machine.write register value).registers register = some ⟨value, machine.writer⟩ :=
  Function.update_self ..

theorem write_of_ne {register other : Nat} (different : other ≠ register) (value : host.Val)
    (machine : Machine host) :
    (machine.write register value).registers other = machine.registers other :=
  Function.update_of_ne different ..

theorem read_congr {left right : Machine host} {register register' : Nat}
    (same : left.registers register = right.registers register') :
    left.read register = right.read register' := by
  unfold read
  rw [same]

end Machine

end HermesDecomp.Ir

namespace HermesDecomp.Ir

/-- The world of the recording engine. -/
structure Trace where
  names : String → Constant
  slots : Nat → Nat → Constant
  properties : String → Constant
  log : List (String × List Constant)

namespace Tracing

/-- A value as the text of a property key. -/
def text : Constant → String
  | .undefined => "undefined"
  | .null => "null"
  | .bool true => "true"
  | .bool false => "false"
  | .integer value => toString value
  | .string text => text
  | .bigInt digits => digits
  | .number value =>
      match value.integer? with
      | some value => toString value
      | none => "number " ++ toString value.bits.toNat

def truthy : Constant → Bool
  | .undefined | .null => false
  | .bool value => value
  | .integer value => value != 0
  | .string text => text != ""
  | .number value => !value.isZero && !value.isNan
  | .bigInt digits => digits != "0"

def nullish : Constant → Bool
  | .undefined | .null => true
  | _ => false

/-- Do something in the world. -/
def act (change : Trace → Trace) : Action Trace Constant PUnit := fun world => (.ok ⟨⟩, change world)

/-- Look something up in the world. -/
def look {α : Type} (value : Trace → α) : Action Trace Constant α :=
  fun world => (.ok (value world), world)

/-- Record an operation and return a value that depends on the world before it. -/
def record (event : String) (arguments : List Constant) (result : Trace → Constant) :
    Action Trace Constant Constant :=
  fun world => (.ok (result world), { world with log := world.log ++ [(event, arguments)] })

/-- How many operations were recorded. -/
def count (world : Trace) : Constant := .integer world.log.length

def binary : BinaryOp → Constant → Constant → Action Trace Constant Constant
  | .add, .integer left, .integer right => pure (.integer (left + right))
  | .sub, .integer left, .integer right => pure (.integer (left - right))
  | .lt, .integer left, .integer right => pure (.bool (left < right))
  | .strictEq, left, right => pure (.bool (left == right))
  | _, left, right => record "binary" [left, right] count

def unary : UnaryOp → Constant → Action Trace Constant Constant
  | .not, value => pure (.bool (!truthy value))
  | .neg, .integer value => pure (.integer (-value))
  | .void, _ => pure .undefined
  | _, value => record "unary" [value] count

/-- The engine. -/
def host : Host where
  Val := Constant
  World := Trace
  Key := String
  constant := id
  this := .undefined
  global := .null
  parameter _ := .undefined
  arguments := .undefined
  newTarget := .undefined
  super := .undefined
  truthy := truthy
  nullish := nullish
  isUndefined value := value == .undefined
  strictEqual left right := left == right
  name := id
  index := toString
  toKey value := pure (text value)
  readVariable name := look fun world => world.names name.name
  readClosureVar level slot := look fun world => world.slots level slot
  setVariable name value := act fun world =>
    { world with names := Function.update world.names name.name value }
  setClosureVar level slot value := act fun world =>
    { world with
        slots := Function.update world.slots level
          (Function.update (world.slots level) slot value) }
  declare _ name value := act fun world =>
    { world with names := Function.update world.names name.name value }
  openScope := id
  closeScope := id
  unary := unary
  binary := binary
  getMember _ key := record "get" [.string key] fun world => world.properties key
  setMember _ key value := act fun world =>
    { world with
        properties := Function.update world.properties key value
        log := world.log ++ [("set", [.string key, value])] }
  deleteMember _ key := record "delete" [.string key] fun _ => .bool true
  deleteValue _ := pure (.bool true)
  call callee arguments := record "call" (callee :: arguments) count
  construct callee arguments := record "new" (callee :: arguments) count
  spread value := pure value
  newArray elements := pure (.integer elements.length)
  newObject := pure .null
  define _ key value := act fun world =>
    { world with properties := Function.update world.properties key value }
  function id _ _ _ _ := pure (.integer id)
  toText value := pure (.string (text value))
  template quasis values := pure (.string (String.join (quasis ++ values.map text)))
  regExp pattern _ := pure (.string pattern)
  yield _ value := record "yield" [value] count
  await value := record "await" [value] count
  jsx tag _ children := record tag children count
  unknown opcode operands := record opcode (operands.map .string) count
  requireObject _ := pure ⟨⟩
  restOf value _ := pure value
  iterate value := record "iterate" [value] fun _ => value
  enumerate value := record "enumerate" [value] fun _ => value
  advance _ := pure none
  collect value := pure value
  close _ := pure ⟨⟩
  debugger := pure ⟨⟩
  defineClass _ _ _ _ := pure ⟨⟩
  caught value world := { world with names := Function.update world.names "e" value }

/-- The value of a register, as a constant. -/
def valueOf (machine : Machine host) (register : Nat) : Constant := machine.read register

theorem lawful : host.Lawful where
  integer_key _ := rfl
  number_key := by
    intro number value isInteger
    change pure (text (.number number)) = _
    rw [text, isInteger]
    rfl

/-- Nothing has happened yet: every name, slot and property holds a default. -/
def blank : Trace where
  names _ := .undefined
  slots _ _ := .undefined
  properties _ := .undefined
  log := []

end Tracing

end HermesDecomp.Ir
