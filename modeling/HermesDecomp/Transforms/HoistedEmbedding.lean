import HermesDecomp.Library.Orbit
import HermesDecomp.Transforms.HoistClosures

/-!
# Rendering the hoisted closures

A function is rendered with the functions its body embeds, so rendering ends when embedding
has no cycle. Replacing the sites of the functions on a cycle cuts every cycle of sites, but
for the factories'. It does not see a cycle through a class, whose functions are no sites,
nor one through a declaration it puts in a scope the function leads to.
-/

namespace HermesDecomp.Hoist

open Ir List
open Std (TreeMap TreeSet)

namespace Program

variable {program : Program}

/-- A function has a site of another, outside of classes. -/
def Creates (program : Program) (holder fid : Nat) : Prop :=
  ∃ body, program.bodies[holder]? = some body ∧
    ∃ creation ∈ creationsOfStatements body, creation.inClass = false ∧ creation.id = fid

/-- A function has a class with another in it. -/
def EmbedsInClass (program : Program) (holder fid : Nat) : Prop :=
  ∃ body, program.bodies[holder]? = some body ∧
    ∃ creation ∈ creationsOfStatements body, creation.inClass = true ∧ creation.id = fid

/-- A scope is to declare a function. -/
def DeclaresIn (program : Program) (scope fid : Nat) : Prop :=
  fid ∈ program.created ∧ scope ∈ program.bodies ∧
    ∃ scopes, program.hoisted fid = some scopes ∧ scope ∈ scopes

/-- One function keeps another in its text: in a class, at a site that stays, or declared
there. -/
def Keeps (program : Program) (holder fid : Nat) : Prop :=
  program.EmbedsInClass holder fid ∨
    (program.Creates holder fid ∧ program.hoisted fid = none) ∨ program.DeclaresIn holder fid

theorem mem_sites (holder : Nat) (creation : Creation) :
    (holder, creation) ∈ program.sites ↔ ∃ body, program.bodies[holder]? = some body ∧
      creation ∈ creationsOfStatements body ∧ creation.inClass = false := by
  unfold sites
  rw [mem_flatMap]
  constructor
  · rintro ⟨⟨holder', body⟩, inside, member⟩
    obtain ⟨creation', kept, same⟩ := mem_map.mp member
    cases same
    obtain ⟨created, outside⟩ := mem_filter.mp kept
    exact ⟨body, TreeMap.mem_toList_iff_getElem?_eq_some.mp inside, created,
      Bool.not_eq_true' _ |>.mp outside⟩
  · rintro ⟨body, found, created, outside⟩
    refine ⟨(holder, body), TreeMap.mem_toList_iff_getElem?_eq_some.mpr found, ?_⟩
    exact mem_map.mpr ⟨creation, mem_filter.mpr ⟨created, by rw [outside]; rfl⟩, rfl⟩

end Program

end HermesDecomp.Hoist
