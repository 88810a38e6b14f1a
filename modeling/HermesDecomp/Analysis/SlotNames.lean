import Mathlib.Algebra.Ring.Nat
import HermesDecomp.Library.Fresh
import Std.Data.TreeMap

/-!
# What the slots of an environment are called

A slot is named after what is stored into it, where that says something, and by a
placeholder where it does not. A name decided for a slot goes before the name its value
suggests.
-/

namespace HermesDecomp.Closure

open Std (TreeMap)

/-- What is stored into a slot. -/
inductive ClosureSlotValue where
  | function (id : Nat) (name : Option String)
  | constant (text : String)
  | regExp
  | variable (name : String)
  | unknown
deriving DecidableEq, Repr

/-- Which evidence the name of a slot comes from. -/
inductive NameSource where
  | function | constant | variable | synthesised | placeholder
deriving DecidableEq, Repr

structure SlotName where
  text : String
  source : NameSource
deriving DecidableEq, Repr

/-- The slots of one environment and the names decided for them. -/
structure ClosureInfo where
  slots : TreeMap Nat ClosureSlotValue
  names : TreeMap Nat String

/-- The characters Unicode counts as white space. -/
def isWhiteSpace (character : Char) : Bool :=
  (0x09 ≤ character.val && character.val ≤ 0x0D) || character.val == 0x20 ||
    character.val == 0x85 || character.val == 0xA0 || character.val == 0x1680 ||
    (0x2000 ≤ character.val && character.val ≤ 0x200A) || character.val == 0x2028 ||
    character.val == 0x2029 || character.val == 0x202F || character.val == 0x205F ||
    character.val == 0x3000

/-- Leave out what is to be trimmed at both ends. -/
def trimMatches (drop : Char → Bool) (characters : List Char) : List Char :=
  ((characters.dropWhile drop).reverse.dropWhile drop).reverse

/-- The texts no slot is named after. -/
def genericTexts : List String :=
  ["undefined", "null", "true", "false", "default", "exports", "module", "require", "global",
    "Object", "Array", "Function", "String", "Number", "Boolean", "Symbol", "Error", "Math",
    "JSON", "console", "window", "document", "this"]

/-- The identifier the text of a constant is, if it is one. -/
def nameFromConstantText (text : String) : Option String :=
  let characters := trimMatches (· == '\'') (trimMatches (· == '"')
    (trimMatches isWhiteSpace text.toList))
  let name := String.ofList characters
  match characters with
  | [] => none
  | first :: rest =>
      if 40 < name.utf8ByteSize then none
      else if !(first.isAlpha || first == '_' || first == '$') then none
      else if !rest.all (fun character =>
          character.isAlphanum || character == '_' || character == '$') then none
      else if genericTexts.contains name then none
      else some name

/-- Whether a text begins with a given one and what follows is digits only. -/
def digitsAfter (beginning text : String) : Bool :=
  beginning.toList.isPrefixOf text.toList &&
    (text.toList.drop beginning.toList.length).all Char.isDigit

/-- Whether a text begins with a given one. -/
def beginsWith (beginning text : String) : Bool := beginning.toList.isPrefixOf text.toList

/-- Whether the name of a variable says something. -/
def isMeaningfulClosureName (name : String) : Bool :=
  2 ≤ name.utf8ByteSize && !digitsAfter "r" name && !digitsAfter "arg" name &&
    !beginsWith "tmp" name && !beginsWith "closure_" name && !beginsWith "outer" name

/-- The placeholder of a slot. -/
def closureVarName (slot : Nat) : String := "closure_" ++ toString slot

namespace ClosureInfo

/-- The name a slot's value suggests, ignoring any decided name. -/
def derivedSlotName (info : ClosureInfo) (slot : Nat) : SlotName :=
  let rawSlot := slot % 2 ^ 24
  let unresolved : SlotName := ⟨closureVarName rawSlot, .placeholder⟩
  match info.slots[slot]? with
  | some (.function _ (some name)) => ⟨name, .function⟩
  | some (.function id none) => ⟨"f" ++ toString id, .synthesised⟩
  | some .regExp => ⟨"re" ++ toString rawSlot, .synthesised⟩
  | some (.constant text) =>
      match nameFromConstantText text with
      | some name => ⟨name, .constant⟩
      | none => ⟨"c" ++ toString rawSlot, .synthesised⟩
  | some (.variable name) =>
      if name == "arguments" then ⟨"args", .synthesised⟩
      else if isMeaningfulClosureName name then ⟨name, .variable⟩
      else unresolved
  | some .unknown | none => unresolved

/-- The name of a slot: the decided one if there is one, else the one its value
suggests. -/
def slotName (info : ClosureInfo) (slot : Nat) : SlotName :=
  match info.names[slot]? with
  | some name => ⟨name, (info.derivedSlotName slot).source⟩
  | none => info.derivedSlotName slot

def getSlotName (info : ClosureInfo) (slot : Nat) : String := (info.slotName slot).text

/-- The slots of the environment itself. -/
def ownSlots (info : ClosureInfo) : List Nat := info.slots.keys.filter (· >>> 24 == 0)

/-- No slot is listed twice. -/
theorem ownSlots_nodup (info : ClosureInfo) : info.ownSlots.Nodup := by
  refine List.Nodup.sublist List.filter_sublist ?_
  refine info.slots.ordered_keys.imp ?_
  intro slot slot' before
  rintro rfl
  exact Nat.lt_irrefl slot (Nat.compare_eq_lt.mp before)

end ClosureInfo

end HermesDecomp.Closure
