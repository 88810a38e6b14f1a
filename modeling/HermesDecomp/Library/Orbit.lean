import Mathlib.Data.List.Nodup
import Mathlib.Data.List.Perm.Subperm
import Mathlib.Logic.Relation

/-!
# Following a partial function

From a start, a partial function on a finite domain is followed until it stops or returns to where
it has been. Of two points where one leads to the other, the one further out has the shorter way
left, unless they lead to each other.
-/

namespace HermesDecomp

open List

namespace Cycles

variable {α : Type}

/-- A relation without cycles. -/
def Acyclic (step : α → α → Prop) : Prop := ∀ node, ¬ Relation.TransGen step node node

/-- The steps of a relation that are led back over. -/
def Returning (step : α → α → Prop) (node target : α) : Prop :=
  step node target ∧ Relation.ReflTransGen step target node

variable {step : α → α → Prop}

/-- A relation with fewer steps has no more cycles. -/
theorem Acyclic.mono {step step' : α → α → Prop} (acyclic : Acyclic step)
    (fewer : ∀ node target, step' node target → step node target) : Acyclic step' :=
  fun node cycle => acyclic node (Relation.TransGen.mono fewer _ _ cycle)

end Cycles

end HermesDecomp

namespace HermesDecomp

open List

namespace Orbit

variable {α : Type}

/-- One point leads to another. -/
def Leads (next : α → Option α) : α → α → Prop :=
  Relation.ReflTransGen fun point point' => next point = some point'

variable {next : α → Option α}

/-- Of two points the start leads to, one leads to the other. -/
theorem leads_total {start point point' : α} (leads : Leads next start point)
    (leads' : Leads next start point') : Leads next point point' ∨ Leads next point' point := by
  refine Relation.ReflTransGen.total_of_right_unique ?_ leads leads'
  intro first second third toSecond toThird
  exact Option.some.inj (toSecond.symm.trans toThird)

variable [DecidableEq α]

/-- The points passed from a current one on, those passed before left out. -/
def follow (next : α → Option α) : Nat → List α → α → List α
  | 0, _, _ => []
  | fuel + 1, before, current =>
      match next current with
      | none => []
      | some point =>
          if point ∈ current :: before then []
          else point :: follow next fuel (current :: before) point

/-- The point so many steps on, when no point on the way is passed twice. -/
def walk (next : α → Option α) : Nat → List α → α → Option α
  | 0, _, current => some current
  | steps + 1, before, current =>
      match next current with
      | none => none
      | some point =>
          if point ∈ current :: before then none
          else walk next steps (current :: before) point

variable {fuel : Nat} {before : List α}

theorem leads_of_mem_follow {current point : α} (member : point ∈ follow next fuel before current)
    : Leads next current point:= by
  induction fuel generalizing before current with
  | zero => cases member
  | succ fuel ih =>
    unfold follow at member
    split at member
    · cases member
    · rename_i first found
      split at member
      · cases member
      · obtain rfl | later := mem_cons.mp member
        · exact .single found
        · exact .head found (ih later)

/-- No point is passed twice. -/
theorem nodup_follow (fuel : Nat) (before : List α) (current : α) :
    (follow next fuel before current).Nodup ∧
      ∀ point ∈ follow next fuel before current, point ∉ current :: before := by
  induction fuel generalizing before current with
  | zero => exact ⟨nodup_nil, fun point member => nomatch member⟩
  | succ fuel ih =>
    unfold follow
    split
    · exact ⟨nodup_nil, fun point member => nomatch member⟩
    · rename_i first found
      split
      · exact ⟨nodup_nil, fun point member => nomatch member⟩
      · rename_i fresh
        obtain ⟨distinct, apart⟩ := ih (current :: before) first
        constructor
        · refine nodup_cons.mpr ⟨?_, distinct⟩
          intro again
          exact apart first again mem_cons_self
        · intro point member
          obtain rfl | later := mem_cons.mp member
          · exact fresh
          · intro seen
            exact apart point later (mem_cons_of_mem first seen)

section

variable {domain : List α} (inDomain : ∀ point, (next point).isSome → point ∈ domain) {current : α}
  (distinct : (current :: before).Nodup) (enough : domain.length ≤ fuel + before.length)
  (inside : before ⊆ domain)

include inDomain distinct enough inside

/-- With a step for every point of the domain, the walk ends only where the function
stops or leads back. -/
theorem follow_closed :
    ∀ point ∈ current :: follow next fuel before current, ∀ point', next point = some point' →
      point' ∈ current :: before ∨ point' ∈ follow next fuel before current := by
  induction fuel generalizing before current with
  | zero =>
    intro point member point' step
    obtain rfl := mem_singleton.mp member
    have member := inDomain point (by rw [step]; rfl)
    have larger : (point :: before).length ≤ domain.length :=
      (distinct.subperm (cons_subset.mpr ⟨member, inside⟩)).length_le
    rw [length_cons] at larger
    omega
  | succ fuel ih =>
    intro point member point' step
    unfold follow at member ⊢
    split at member
    · rename_i stops
      obtain rfl := mem_singleton.mp member
      rw [step] at stops
      cases stops
    · rename_i first found
      split at member
      · rename_i back
        obtain rfl := mem_singleton.mp member
        rw [found] at step
        cases step
        exact .inl back
      · rename_i fresh
        obtain rfl | later := mem_cons.mp member
        · rw [found] at step
          cases step
          right
          simp only [if_neg fresh, mem_cons_self]
        · have closed := ih (nodup_cons.mpr ⟨fresh, distinct⟩)
            (by rw [length_cons]; omega)
            (cons_subset.mpr ⟨inDomain current (by rw [found]; rfl), inside⟩)
            point later point' step
          simp only [if_neg fresh]
          obtain seen | passed := closed
          · obtain rfl | older := mem_cons.mp seen
            · exact .inr mem_cons_self
            · exact .inl older
          · exact .inr (mem_cons_of_mem first passed)

end

/-- A point is first arrived at after one step and so many more. -/
def Arrives (next : α → Option α) (wanted : α) : Nat → α → Prop
  | 0, current => next current = some wanted
  | steps + 1, current =>
      ∃ point, next current = some point ∧ point ≠ wanted ∧ Arrives next wanted steps point

omit [DecidableEq α] in
theorem Arrives.unique {wanted : α} : ∀ {steps steps' : Nat} {current : α},
    Arrives next wanted steps current → Arrives next wanted steps' current → steps = steps'
  | 0, 0, _, _, _ => rfl
  | 0, steps' + 1, current, arrives, ⟨point, found, different, _⟩
  | steps + 1, 0, current, ⟨point, found, different, _⟩, arrives =>
    absurd (Option.some.inj (found.symm.trans arrives)) different
  | steps + 1, steps' + 1, current, ⟨point, found, _, later⟩, ⟨point', found', _, later'⟩ => by
    obtain rfl := Option.some.inj (found.symm.trans found')
    rw [later.unique later']

omit [DecidableEq α] in
/-- Walking along points that stand for others ends at what stands for the first arrival. -/
theorem walk_of_arrives {β : Type} [DecidableEq β] {next' : β → Option β} {standsFor : α → β → Prop}
    (injective : ∀ point point' id, standsFor point id → standsFor point' id → point = point')
    (follows : ∀ point point' id, standsFor point id → next point = some point' →
      ∃ id', next' id = some id' ∧ standsFor point' id') {wanted : α} :
    ∀ (steps : Nat) (current : α) (id : β) (before : List β),
      Arrives next wanted steps current → standsFor current id →
      (∀ id' ∈ id :: before, ∃ point, standsFor point id' ∧ point ≠ wanted ∧
        ∃ more, Arrives next wanted (steps + more) point) →
      ∃ id', walk next' (steps + 1) before id = some id' ∧ standsFor wanted id'
  | 0, current, id, before, arrives, stands, behind => by
    obtain ⟨id', moved, stands'⟩ := follows current wanted id stands arrives
    refine ⟨id', ?_, stands'⟩
    rw [walk, moved]
    refine if_neg ?_
    intro back
    obtain ⟨point, stood, different, -⟩ := behind id' back
    exact different (injective point wanted id' stood stands')
  | steps + 1, current, id, before, ⟨point, found, different, later⟩, stands, behind => by
    obtain ⟨id', moved, stands'⟩ := follows current point id stands found
    have fresh : id' ∉ id :: before := by
      intro back
      obtain ⟨point', stood, -, more, arrives⟩ := behind id' back
      obtain rfl := injective point' point id' stood stands'
      have same := arrives.unique later
      omega
    rw [walk, moved]
    dsimp only
    rw [if_neg fresh]
    refine walk_of_arrives injective follows steps point id' (id :: before) later stands' ?_
    intro other member
    rcases mem_cons.mp member with rfl | member
    · exact ⟨point, stands', different, 0, later⟩
    · obtain ⟨point', stood, apart, more, arrives⟩ := behind other member
      refine ⟨point', stood, apart, more + 1, ?_⟩
      rwa [Nat.add_right_comm] at arrives

section Whole

variable {domain : List α} (inDomain : ∀ point, (next point).isSome → point ∈ domain)
include inDomain

/-- The points passed are the others the start leads to. -/
theorem mem_follow_iff {fuel : Nat} (enough : domain.length ≤ fuel) (start point : α) :
    point ∈ follow next fuel [] start ↔ point ≠ start ∧ Leads next start point := by
  constructor
  · intro member
    refine ⟨?_, leads_of_mem_follow member⟩
    rintro rfl
    exact (nodup_follow fuel [] point).2 point member mem_cons_self
  · rintro ⟨different, leads⟩
    have passed : point ∈ start :: follow next fuel [] start := by
      clear different
      induction leads with
      | refl => exact mem_cons_self
      | tail _ step ih =>
        have closed := follow_closed inDomain (nodup_singleton start)
          (by rw [length_nil]; omega) (nil_subset domain) _ ih _ step
        obtain atStart | later := closed
        · rw [mem_singleton.mp atStart]
          exact mem_cons_self
        · exact mem_cons_of_mem start later
    exact (mem_cons.mp passed).resolve_left different

/-- Further out, the way left is shorter, unless it leads back. -/
theorem length_follow_lt {fuel : Nat} (enough : domain.length ≤ fuel) {inner outer : α}
    (member : outer ∈ follow next fuel [] inner) (notBack : inner ∉ follow next fuel [] outer) :
    (follow next fuel [] outer).length < (follow next fuel [] inner).length := by
  obtain ⟨different, leads⟩ := (mem_follow_iff inDomain enough inner outer).mp member
  have inside : outer :: follow next fuel [] outer ⊆ follow next fuel [] inner := by
    intro point found
    obtain rfl | later := mem_cons.mp found
    · exact member
    · obtain ⟨_, leads'⟩ := (mem_follow_iff inDomain enough outer point).mp later
      refine (mem_follow_iff inDomain enough inner point).mpr ⟨?_, leads.trans leads'⟩
      rintro rfl
      exact notBack later
  have distinct : (outer :: follow next fuel [] outer).Nodup := by
    refine nodup_cons.mpr ⟨?_, (nodup_follow fuel [] outer).1⟩
    intro again
    exact (nodup_follow fuel [] outer).2 outer again mem_cons_self
  exact (distinct.subperm inside).length_le

end Whole

end Orbit

end HermesDecomp
