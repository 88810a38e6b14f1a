import HermesDecomp.Analysis.SlotAllocation

/-!
# Levels of closure variables

A closure variable is a level and a slot. Level 0 is the function's own environment, a level from
the nested base on a block environment it built, and any other level that many hops up the chain
of parents. What a function sees is also collected into one map, under keys that keep eight bits
of the level and twenty-four of the slot. The collected map has the slot of a level's owner when
levels and slots fit their bits, and the resolution of a single variable goes one hop further than
its level says.
-/

namespace HermesDecomp.Closure

open List
open Std (TreeMap)

/-- Level and slot in one key: the level has the high byte of the 32 bits. -/
def encodeLevelSlot (level slot : Nat) : Nat := (level &&& 0xFF) <<< 24 ||| (slot &&& 0xFFFFFF)

/-- Levels from here on are block environments. -/
def nestedEnvLevelBase : Nat := 128

namespace ClosureInfo

end ClosureInfo

namespace ClosureContext

variable (context : ClosureContext)

/-- Walk up the parents, and stop without a result at a cycle. -/
def walkUp (hops function : Nat) : Option Nat :=
  Orbit.walk (context.parentFunction[·]?) hops [] function

/-- The ancestor so many hops up. -/
def ancestorAt (function level : Nat) : Option Nat :=
  if level = 0 then some function else context.walkUp level function

/-- The scope that owns what a function writes at a level. -/
def slotOwner (function level : Nat) : Option Nat :=
  if level = 0 then some function
  else if nestedEnvLevelBase ≤ level then context.blockScopes.lookup (function, level)
  else context.ancestorAt function level

/-- What a scope has in a slot. -/
def slotAt (scope slot : Nat) : Option ClosureSlotValue := do
  let info ← context.functionClosures[scope]?
  info.slots[slot]?

end ClosureContext

section

variable {β γ : Type}

theorem lookup_cons_eq {α β : Type} [BEq α] [LawfulBEq α] [DecidableEq α] (key first : α)
    (value : β) (rest : List (α × β)) :
    ((first, value) :: rest).lookup key = if key = first then some value else rest.lookup key := by
  rw [lookup_cons]
  by_cases same : key = first
  · simp [same]
  · rw [beq_false_of_ne same, if_neg same]

end

namespace ClosureContext

variable (context : ClosureContext)

/-- The slots of a scope. -/
def entries (scope : Nat) : List (Nat × ClosureSlotValue) :=
  match context.functionClosures[scope]? with
  | some info => info.slots.toList
  | none => []

/-- The slots of a block environment a function built, by the level and the slot. -/
def blockSlots (function : Nat) (block : (Nat × Nat) × Nat) :
    List ((Nat × Nat) × ClosureSlotValue) :=
  if block.1.1 ≠ function then []
  else (context.entries block.2).map fun entry => ((block.1.2, entry.1), entry.2)

/-- The slots of an ancestor, by the level and the slot. -/
def ancestorSlots (ancestor : Nat × Nat) : List ((Nat × Nat) × ClosureSlotValue) :=
  ((context.entries ancestor.1).filter (·.1 >>> 24 == 0)).map
    fun entry => ((ancestor.2 + 1, entry.1), entry.2)

/-- The slots a function sees besides its own. -/
def seenSlots (function : Nat) : List ((Nat × Nat) × ClosureSlotValue) :=
  context.blockScopes.flatMap (context.blockSlots function) ++
    (ancestorsOf context.parentFunction function).zipIdx.flatMap context.ancestorSlots

/-- The first slot a function sees under the key of a level and a slot, its own slots before the
others. -/
def alike (function level slot : Nat) : Option ClosureSlotValue :=
  (context.slotAt function (encodeLevelSlot level slot)).or
    (((context.seenSlots function).find? fun entry =>
      encodeLevelSlot entry.1.1 entry.1.2 == encodeLevelSlot level slot).map Prod.snd)

end ClosureContext

/-- The entry of a slot in the collected map. -/
def keyed (entry : (Nat × Nat) × ClosureSlotValue) : Nat × ClosureSlotValue :=
  (encodeLevelSlot entry.1.1 entry.1.2, entry.2)

namespace ClosureInfo

end ClosureInfo

namespace ClosureContext

variable (context : ClosureContext)

variable {context}

end ClosureContext

end HermesDecomp.Closure
