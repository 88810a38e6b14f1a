import HermesDecomp.Ir.Creations
import HermesDecomp.Ir.Mentions
import HermesDecomp.Ir.Names
import HermesDecomp.Library.Fresh
import HermesDecomp.Library.Tarjan
import Std.Data.TreeMap
import Std.Data.TreeSet

/-!
# Declaring repeated closures once

A function created at several places, or only to be called on the spot under its own name, gets
one declaration in the nearest scope its sites share, and a name everywhere else. A function in a
cycle of creations is always declared: it can never be embedded in place.
-/

namespace HermesDecomp.Hoist

open Ir
open Std (TreeMap TreeSet)

/-- Where a function shows up: the function that holds the site, and whether it is called
there. -/
structure Site where
  holder : Nat
  iife : Bool
deriving DecidableEq, Repr

/-- What the pass is given: the bodies, the closure parents, and the factories. -/
structure Program where
  bodies : TreeMap Nat (List Statement)
  parentOf : TreeMap Nat Nat
  factories : TreeMap Nat Nat

/-- The free names of the functions computed so far. -/
abbrev FreeNames := TreeMap Nat (List String)

/-- Where a function is declared, and by what name. -/
structure Declared where
  scopes : List Nat
  name : String
deriving DecidableEq, Repr

/-- The declarations planned so far, and the names they take in each scope. -/
structure Planning where
  planned : TreeMap Nat (List String)
  plan : TreeMap Nat Declared

namespace Program

variable (program : Program)

/-- The sites of all bodies with their holders, in the order they are walked. Those in a
class are passed over. -/
def sites : List (Nat × Creation) :=
  program.bodies.toList.flatMap fun (holder, body) =>
    ((creationsOfStatements body).filter (!·.inClass)).map (holder, ·)

/-- The functions with a site, in order. -/
def created : List Nat := (TreeSet.ofList (program.sites.map (·.2.id))).toList

/-- The sites of a function. -/
def found (fid : Nat) : List Site :=
  (program.sites.filter (·.2.id == fid)).map fun (holder, creation) => ⟨holder, creation.iife⟩

/-- How a function is written at its first site. -/
def shape (fid : Nat) : Option Creation := (program.sites.find? (·.2.id == fid)).map Prod.snd

/-- The functions a holder creates. -/
def edges (holder : Nat) : List Nat :=
  program.created.flatMap fun fid =>
    ((program.found fid).filter (·.holder == holder)).map fun _ => fid

/-- A function creates itself. -/
def selfEdge (fid : Nat) : Bool := (program.found fid).any (·.holder == fid)

/-- The strongly connected components of the creations. -/
def components : Tarjan.State Nat :=
  Tarjan.components program.edges (program.bodies.keys ++ program.created) program.bodies.keys

/-- The component of a function. -/
def component (fid : Nat) : Option Nat := program.components.component fid

/-- The members of the component of a function. -/
def members (fid : Nat) : List Nat :=
  match program.component fid with
  | none => []
  | some number => program.components.groups.getD number []

/-- The component of a function has a cycle. -/
def cyclic (fid : Nat) : Bool :=
  (program.members fid).length > 1 || (program.members fid).any program.selfEdge

/-- The names a function binds itself. -/
def boundOf (fid : Nat) : List String :=
  match program.bodies[fid]? with
  | none => []
  | some body => boundNames body

/-- The names a function refers to. -/
def refsOf (fid : Nat) : List String :=
  match program.bodies[fid]? with
  | none => []
  | some body => referredNames body

/-- The functions nested in a function. -/
def children (parent : Nat) : List Nat :=
  (program.parentOf.toList.filter fun (child, parent') =>
    parent' == parent && program.bodies.contains child && program.bodies.contains parent').map
      Prod.fst

/-- The free names of a function, those of the functions nested in it among them. The levels
left bound how deep they are followed. -/
def freeNames : Nat → FreeNames → Nat → List String × FreeNames
  | 0, memo, fid =>
      match memo[fid]? with
      | some free => (free, memo)
      | none =>
          let free := (program.refsOf fid).filter (· ∉ program.boundOf fid)
          (free, memo.insert fid free)
  | levels + 1, memo, fid =>
      match memo[fid]? with
      | some free => (free, memo)
      | none =>
          let below := (program.children fid).foldl (fun (names, memo) kid =>
            let (more, memo) := freeNames levels memo kid
            (names ++ more, memo)) (program.refsOf fid, memo)
          let free := below.1.filter (· ∉ program.boundOf fid)
          (free, below.2.insert fid free)

/-- The free names of every function that may be declared elsewhere. -/
def freeMemo : FreeNames :=
  program.created.foldl (fun memo fid => (program.freeNames 32 memo fid).2) ∅

/-- A function with its closure parents, as far as the chain goes. -/
def climb : Nat → List Nat → Nat → List Nat
  | 0, chain, _ => chain
  | fuel + 1, chain, current =>
      match program.parentOf[current]? with
      | none => chain
      | some parent =>
          if parent ∈ chain ∨ 64 < chain.length then chain
          else climb fuel (chain ++ [parent]) parent

/-- The innermost function that contains every holder. -/
def commonScope (holders : List Nat) : Option Nat :=
  match holders with
  | [] => none
  | first :: rest =>
      if rest = [] ∧ program.bodies.contains first then some first
      else
        (rest.foldl (fun chain holder =>
          chain.filter (· ∈ program.climb 65 [holder] holder))
          (program.climb 65 [first] first)).find? program.bodies.contains

/-- The holders of a function outside its cycle. -/
def holders (fid : Nat) : List Nat :=
  (TreeSet.ofList (((program.found fid).map (·.holder)).filter fun holder =>
    holder ≠ fid ∧ program.component holder ≠ program.component fid)).toList

/-- The closure parents of a cycle outside it. -/
def parents (fid : Nat) : List Nat :=
  (TreeSet.ofList (((program.members fid).filterMap (program.parentOf[·]?)).filter fun parent =>
    program.bodies.contains parent ∧ program.component parent ≠ program.component fid)).toList

/-- The scopes that would declare a function. -/
def scopes (fid : Nat) : Option (List Nat) :=
  match (program.commonScope (program.holders fid)).filter
      (program.component · ≠ program.component fid) with
  | some scope => some [scope]
  | none =>
      if program.holders fid ≠ [] then some (program.holders fid)
      else
        match program.commonScope (program.parents fid) with
        | some scope => some [scope]
        | none => if program.cyclic fid then some [] else none

/-- A function on the way up to a scope binds one of the names. -/
def bindsOnTheWay (free : List String) (scope : Nat) : Nat → Nat → Bool
  | 0, _ => false
  | hops + 1, current =>
      if current = scope then false
      else if (program.boundOf current).any (· ∈ free) then true
      else
        match program.parentOf[current]? with
        | some parent => bindsOnTheWay free scope hops parent
        | none => false

/-- A declaration in the scopes would leave behind a function that binds a free name. -/
def capturesOnTheWay (fid : Nat) (scopes : List Nat) : Bool :=
  let free := program.freeMemo.getD fid []
  (program.found fid).any fun site =>
    scopes.any fun scope => program.bindsOnTheWay free scope 64 site.holder

/-- A function is created to be called on the spot, and has a name. -/
def namedIife (fid : Nat) : Bool :=
  (program.found fid).any (·.iife) && ((program.shape fid).bind (·.name)).isSome

/-- The scopes that declare a function, for the functions that are declared. -/
def hoisted (fid : Nat) : Option (List Nat) :=
  if program.factories.contains fid then none
  else if (program.found fid).length < 2 && !program.namedIife fid && !program.cyclic fid then none
  else
    match program.scopes fid with
    | none => none
    | some scopes =>
        if !program.cyclic fid && program.capturesOnTheWay fid scopes then none else some scopes

/-- A name none of the given functions already binds. -/
def freeName (base : String) (check : List Nat) (taken : List String) : String :=
  let bound := taken ++ check.flatMap program.boundOf
  if base ∈ bound then Fresh.firstFree bound (fun number => base ++ toString number) 2 else base

/-- The name a function goes by: its own where that can be a name. -/
def baseName (fid : Nat) : String :=
  match (((program.shape fid).bind (·.name)).filter isValidIdentifier).filter
      (!isReservedWord ·) with
  | some name => name
  | none => "f" ++ toString fid

/-- Plan the declaration of one function. -/
def planOne (state : Planning) (fid : Nat) : Planning :=
  match program.hoisted fid with
  | none => state
  | some scopes =>
      let taken := scopes.flatMap fun scope => state.planned.getD scope []
      let name := program.freeName (program.baseName fid)
        (program.holders fid ++ (scopes ++ [fid])) taken
      { planned := scopes.foldl (fun planned scope =>
          planned.insert scope (name :: planned.getD scope [])) state.planned
        plan := state.plan.insert fid ⟨scopes, name⟩ }

/-- The declarations planned. -/
def plan : TreeMap Nat Declared := (program.created.foldl program.planOne ⟨∅, ∅⟩).plan

end Program

end HermesDecomp.Hoist
