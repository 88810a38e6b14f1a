import Mathlib.Algebra.Ring.Nat
import Mathlib.Tactic.Common
import Std.Data.TreeMap

/-!
# The ids modules are filed under

A module is filed under the id the bundle registered, or, where that one is too large, under a
synthetic id. Each id comes back for the one it was filed under, as long as there are few of them.
-/

namespace HermesDecomp.Metro

open Std (TreeMap)

/-- Where synthetic ids start. -/
def wideIdBase : Nat := 0xF0000000

/-- The large ids by their synthetic ones, and the other way round. -/
structure MetroRegistry where
  wideIds : TreeMap Nat Nat
  wideLookup : TreeMap Nat Nat

def MetroRegistry.new : MetroRegistry := ⟨∅, ∅⟩

/-- The id a module is filed under, unless the next synthetic id overflows. -/
def internModuleId (id : Nat) : StateT MetroRegistry Option Nat := fun registry =>
  if id < wideIdBase then some (id, registry)
  else
    match registry.wideLookup[id]? with
    | some synthetic => some (synthetic, registry)
    | none =>
        let synthetic := wideIdBase + registry.wideIds.size % 2 ^ 32
        if synthetic < 2 ^ 32 then
          some (synthetic, ⟨registry.wideIds.insert synthetic id,
            registry.wideLookup.insert id synthetic⟩)
        else none

namespace MetroRegistry

/-- The id a module is filed under that the bundle registered as given. -/
def filedId (registry : MetroRegistry) (id : Nat) : Option Nat :=
  match registry.wideLookup[id]? with
  | some synthetic => some synthetic
  | none => if id < wideIdBase then some id else none

/-- The id the bundle registered a module under. -/
def displayId (registry : MetroRegistry) (moduleId : Nat) : Nat :=
  (registry.wideIds[moduleId]?).getD moduleId

/-- The two maps are inverse, over synthetic ids given out in a row. -/
structure Filed (registry : MetroRegistry) : Prop where
  wide : ∀ {id filed : Nat}, registry.wideLookup[id]? = some filed →
    wideIdBase ≤ id ∧ registry.wideIds[filed]? = some id
  synthetic : ∀ {filed id : Nat}, registry.wideIds[filed]? = some id →
    wideIdBase ≤ filed ∧ filed < wideIdBase + registry.wideIds.size
  few : registry.wideIds.size ≤ 2 ^ 28

variable {registry after : MetroRegistry} {id filed : Nat}

theorem Filed.displayId_eq (inverse : Filed registry) (found : registry.filedId id = some filed) :
    registry.displayId filed = id := by
  rw [filedId] at found
  cases known : registry.wideLookup[id]? with
  | some synthetic =>
    obtain rfl : synthetic = filed := by simpa [known] using found
    rw [displayId, (inverse.wide known).2, Option.getD_some]
  | none =>
    obtain ⟨small, rfl⟩ : id < wideIdBase ∧ id = filed := by simpa [known] using found
    cases shown : registry.wideIds[id]? with
    | none => rw [displayId, shown, Option.getD_none]
    | some other => exact absurd (inverse.synthetic shown).1 (by omega)

theorem Filed.intern (inverse : Filed registry)
    (ran : internModuleId id registry = some (filed, after)) :
    Filed after ∧ after.filedId id = some filed ∧
      (∀ other place, registry.filedId other = some place → after.filedId other = some place) ∧
      after.wideIds.size ≤ registry.wideIds.size + if wideIdBase ≤ id then 1 else 0 := by
  rw [internModuleId] at ran
  have few := inverse.few
  split_ifs at ran with small
  · cases ran
    refine ⟨inverse, ?_, fun _ _ found => found, by omega⟩
    cases known : registry.wideLookup[id]? with
    | none => simp [filedId, known, small]
    | some other => exact absurd (inverse.wide known).1 (by omega)
  cases known : registry.wideLookup[id]? with
  | some synthetic =>
    simp only [known, Option.some.injEq, Prod.mk.injEq] at ran
    obtain ⟨rfl, rfl⟩ := ran
    exact ⟨inverse, by simp [filedId, known], fun _ _ found => found, by omega⟩
  | none =>
    simp only [known, Option.ite_none_right_eq_some, Option.some.injEq, Prod.mk.injEq] at ran
    rw [Nat.mod_eq_of_lt (by omega)] at ran
    obtain ⟨room, rfl, rfl⟩ := ran
    have fresh : wideIdBase + registry.wideIds.size ∉ registry.wideIds := by
      intro member
      have shown := inverse.synthetic (TreeMap.getElem?_eq_some_getElem member)
      omega
    have size : (registry.wideIds.insert (wideIdBase + registry.wideIds.size) id).size =
        registry.wideIds.size + 1 := by
      grind
    refine ⟨⟨?_, ?_, ?_⟩, ?_, ?_, ?_⟩
    · intro other place found
      have := @inverse.wide other place
      grind
    · intro place other found
      have := @inverse.synthetic place other
      grind
    · dsimp only
      rw [size]
      rw [wideIdBase] at room
      omega
    · simp [filedId]
    · intro other place found
      grind [filedId]
    · rw [size, if_pos (by omega)]

theorem Filed.intern_eq_none (inverse : Filed registry)
    (failed : internModuleId id registry = none) :
    wideIdBase ≤ id ∧ 2 ^ 28 ≤ registry.wideIds.size := by
  have few := inverse.few
  rw [internModuleId] at failed
  grind [wideIdBase]

/-- A row of ids, from any registry that interning left. -/
theorem Filed.internAll (ids : List Nat) : ∀ {registry : MetroRegistry}, Filed registry →
    match (ids.mapM internModuleId).run registry with
    | some (filed, after) => Filed after ∧
        (∀ other place, registry.filedId other = some place → after.filedId other = some place) ∧
        ids.map after.filedId = filed.map some ∧ filed.map after.displayId = ids
    | none => 2 ^ 28 < registry.wideIds.size + (ids.filter (wideIdBase ≤ ·)).length := by
  induction ids with
  | nil => exact fun inverse => ⟨inverse, fun _ _ found => found, rfl, rfl⟩
  | cons id ids ih =>
    intro registry inverse
    rw [List.mapM_cons, StateT.run_bind]
    cases first : (internModuleId id).run registry with
    | none =>
      obtain ⟨wide, full⟩ := inverse.intern_eq_none first
      simp only [Option.bind_eq_bind, Option.bind_none]
      rw [List.filter_cons_of_pos (by simpa using wide), List.length_cons]
      omega
    | some result =>
      obtain ⟨filed, between⟩ := result
      obtain ⟨inverse', here, kept, size⟩ := inverse.intern first
      have rest := ih inverse'
      simp only [Option.bind_eq_bind, Option.bind_some, StateT.run_bind, StateT.run_pure]
      cases others : (ids.mapM internModuleId).run between with
      | none =>
        rw [others] at rest
        simp only [Option.bind_none, List.filter_cons]
        split_ifs at size ⊢ <;> grind
      | some result =>
        obtain ⟨more, after⟩ := result
        rw [others] at rest
        obtain ⟨inverse'', later, filedAll, shown⟩ := rest
        refine ⟨inverse'', fun other place found => later other place (kept other place found), ?_, ?_⟩
        · rw [List.map_cons, List.map_cons, filedAll, later id filed here]
        · rw [List.map_cons, shown, inverse''.displayId_eq (later id filed here)]

/-- Interning ids in a row, every one is filed under what came back for it, and shown as it was. It
fails only when there are too many large ones. -/
theorem internModuleId_files (ids : List Nat) :
    match (ids.mapM internModuleId).run new with
    | some (filed, registry) =>
        ids.map registry.filedId = filed.map some ∧ filed.map registry.displayId = ids
    | none => 2 ^ 28 < (ids.filter (wideIdBase ≤ ·)).length := by
  have whole := @Filed.internAll ids new ⟨by simp [new], by simp [new], by simp [new]⟩
  split at whole <;> simp_all [new]

end MetroRegistry

end HermesDecomp.Metro
