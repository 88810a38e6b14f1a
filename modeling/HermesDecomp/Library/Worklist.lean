import Mathlib.Algebra.Order.BigOperators.Group.Finset

/-!
# Worklist search

A search takes nodes off a list of work, skips the barred and the seen ones, and puts the
successors of the others on the list. Where they are put makes it depth-first or breadth-first. It
ends at the first node a test accepts, or when the list is empty; then it has seen what the work
leads to around the barred nodes.
-/

namespace HermesDecomp.Settling

open List

/-!
A dataflow analysis sweeps over the nodes of a graph, updates the facts of each, and
repeats the sweep until one changes nothing. When every update makes a bounded measure
larger, the repetition ends, and the facts it ends with are those no update changes.
-/

variable {σ α : Type} {update : α → σ → Option σ} {invariant : σ → Prop} {measure : σ → Nat}

/-- Update the facts of each node in turn, and say whether any changed. An update that
answers `none` changed nothing. -/
def sweep (update : α → σ → Option σ) (nodes : List α) (start : σ) : σ × Bool :=
  nodes.foldl (fun facts node =>
    match update node facts.1 with
    | some changed => (changed, true)
    | none => facts) (start, false)

/-- Repeat the sweep while it changes something, at most so many times. -/
def settle (update : α → σ → Option σ) (nodes : List α) : Nat → σ → Option σ
  | 0, _ => none
  | fuel + 1, facts =>
      match sweep update nodes facts with
      | (changed, true) => settle update nodes fuel changed
      | (settled, false) => some settled

theorem sweep_concat (nodes : List α) (node : α) (start : σ) :
    sweep update (nodes ++ [node]) start =
      match update node (sweep update nodes start).1 with
      | some changed => (changed, true)
      | none => sweep update nodes start := by
  rw [sweep, foldl_append, foldl_cons, foldl_nil]
  rfl

/-- What holds of the facts and is kept by every update holds after a sweep, which
either changes nothing, all updates being idle, or makes the measure larger. -/
theorem sweep_spec {nodes : List α}
    (keeps : ∀ node ∈ nodes, ∀ facts changed, invariant facts →
      update node facts = some changed → invariant changed ∧ measure facts < measure changed)
    {start : σ} (holds : invariant start) :
    invariant (sweep update nodes start).1 ∧
      ((sweep update nodes start).2 = true → measure start < measure (sweep update nodes start).1) ∧
      ((sweep update nodes start).2 = false → (sweep update nodes start).1 = start ∧
        ∀ node ∈ nodes, update node start = none) := by
  induction nodes using List.reverseRecOn with
  | nil => simpa [sweep] using holds
  | append_singleton nodes node ih =>
    obtain ⟨kept, grew, idle⟩ := ih fun other member => keeps other (mem_append_left _ member)
    rw [sweep_concat]
    cases updated : update node (sweep update nodes start).1 with
    | none =>
      refine ⟨kept, grew, ?_⟩
      intro unchanged
      obtain ⟨same, before⟩ := idle unchanged
      refine ⟨same, ?_⟩
      intro other member
      rcases mem_append.mp member with earlier | last
      · exact before other earlier
      · rw [mem_singleton.mp last, ← same]
        exact updated
    | some changed =>
      obtain ⟨keptNow, more⟩ := keeps node (by simp) _ _ kept updated
      refine ⟨keptNow, ?_, fun impossible => nomatch impossible⟩
      intro _
      rcases flag : (sweep update nodes start).2 with _ | _
      · rwa [(idle flag).1] at more
      · exact lt_trans (grew flag) more

/-- The repetition ends, with facts the invariant holds of and no update changes. -/
theorem settle_spec {nodes : List α}
    (keeps : ∀ node ∈ nodes, ∀ facts changed, invariant facts →
      update node facts = some changed → invariant changed ∧ measure facts < measure changed)
    {bound : Nat} (bounded : ∀ facts, invariant facts → measure facts ≤ bound) {fuel : Nat} :
    ∀ {start : σ}, invariant start → bound < measure start + fuel →
      ∃ settled, settle update nodes fuel start = some settled ∧ invariant settled ∧
        ∀ node ∈ nodes, update node settled = none := by
  induction fuel with
  | zero =>
    intro start holds enough
    exact absurd (bounded start holds) (by omega)
  | succ fuel ih =>
    intro start holds enough
    obtain ⟨kept, grew, idle⟩ := sweep_spec keeps holds
    rw [settle]
    rcases swept : sweep update nodes start with ⟨facts, _ | _⟩
    · rw [swept] at kept idle
      obtain ⟨same, none⟩ := idle rfl
      dsimp only at kept same
      subst same
      exact ⟨facts, rfl, kept, none⟩
    · rw [swept] at kept grew
      have larger := grew rfl
      dsimp only at kept larger
      exact ih kept (by omega)

/-- What every update of a listed node keeps, a settled repetition has kept. -/
theorem settle_keeps {holds : σ → Prop} {nodes : List α}
    (keeps : ∀ node ∈ nodes, ∀ facts changed, holds facts →
      update node facts = some changed → holds changed) {fuel : Nat} :
    ∀ {start settled : σ}, holds start → settle update nodes fuel start = some settled →
      holds settled := by
  have swept : ∀ start, holds start → holds (sweep update nodes start).1 := by
    intro start good
    induction nodes using List.reverseRecOn with
    | nil => exact good
    | append_singleton nodes node ih =>
      have before := ih fun other member => keeps other (mem_append_left _ member)
      rw [sweep_concat]
      cases updated : update node (sweep update nodes start).1 with
      | none => exact before
      | some changed => exact keeps node (by simp) _ _ before updated
  induction fuel with
  | zero => exact fun _ impossible => absurd impossible (by simp [settle])
  | succ fuel ih =>
    intro start settled good ended
    have after := swept start good
    rw [settle] at ended
    generalize sweep update nodes start = result at after ended
    obtain ⟨facts, _ | _⟩ := result
    · cases ended
      exact after
    · exact ih after ended

end HermesDecomp.Settling

namespace HermesDecomp.Worklist

open List

variable {α : Type} [DecidableEq α]

/-- Search from a list of work. The answer is the accepted node and the nodes seen. -/
def search (next : α → List α) (push : List α → List α → List α) (barred stop : α → Bool) :
    Nat → List α → List α → Option (Option α × List α)
  | 0, _, _ => none
  | _ + 1, [], seen => some (none, seen)
  | fuel + 1, node :: rest, seen =>
      if barred node ∨ node ∈ seen then search next push barred stop fuel rest seen
      else if stop node then some (some node, node :: seen)
      else search next push barred stop fuel (push (next node) rest) (node :: seen)

variable {next : α → List α} {push : List α → List α → List α} {barred stop : α → Bool}

/-- What is left to do: the work, and the edges of nodes that are not seen. -/
def pending (next : α → List α) (nodes : Finset α) (work seen : List α) : Nat :=
  work.length + ∑ node ∈ nodes.filter (· ∉ seen), (next node).length

/-- Seeing a node takes its edges from what is left to do. -/
theorem pending_seen {nodes : Finset α} (listed : ∀ node, next node ≠ [] → node ∈ nodes)
    (kept : ∀ added rest, (push added rest).Perm (added ++ rest)) {node : α} {rest seen : List α}
    (fresh : node ∉ seen) :
    pending next nodes (push (next node) rest) (node :: seen) <
      pending next nodes (node :: rest) seen := by
  have split : ∑ other ∈ nodes.filter (· ∉ seen), (next other).length =
      (next node).length + ∑ other ∈ nodes.filter (· ∉ node :: seen), (next other).length := by
    by_cases inside : node ∈ nodes
    · have member : node ∈ nodes.filter (· ∉ seen) := Finset.mem_filter.mpr ⟨inside, fresh⟩
      rw [← Finset.add_sum_erase _ _ member]
      congr 2
      ext other
      simp only [Finset.mem_erase, Finset.mem_filter, mem_cons, not_or]
      tauto
    · have empty : next node = [] := not_not.mp (mt (listed node) inside)
      rw [empty, length_nil, zero_add]
      congr 1
      ext other
      simp only [Finset.mem_filter, mem_cons, not_or]
      constructor
      · rintro ⟨member, unseen⟩
        exact ⟨member, fun same => inside (same ▸ member), unseen⟩
      · rintro ⟨member, _, unseen⟩
        exact ⟨member, unseen⟩
  rw [pending, pending, split, (kept _ _).length_eq, length_append, length_cons]
  omega

/-- What a search that ended did: it kept what was seen; ending with no node, it saw all work
and all successors of what it saw, but for barred nodes, and accepted none; ending with a
node, it accepted that one. -/
structure Ended (next : α → List α) (barred stop : α → Bool) (work seen : List α)
    (result : Option α × List α) : Prop where
  kept : ∀ node ∈ seen, node ∈ result.2
  worked : result.1 = none → ∀ node ∈ work, barred node ∨ node ∈ result.2
  closed : result.1 = none → ∀ node ∈ result.2, node ∉ seen →
    stop node = false ∧ ∀ successor ∈ next node, barred successor ∨ successor ∈ result.2
  accepted : ∀ node, result.1 = some node → stop node = true ∧ barred node = false

/-- With fuel for what is left to do, a search ends. -/
theorem search_ends {nodes : Finset α} (listed : ∀ node, next node ≠ [] → node ∈ nodes)
    (kept : ∀ added rest, (push added rest).Perm (added ++ rest)) {fuel : Nat} :
    ∀ {work seen : List α}, pending next nodes work seen < fuel →
      ∃ result, search next push barred stop fuel work seen = some result ∧
        Ended next barred stop work seen result := by
  induction fuel with
  | zero => exact fun enough => absurd enough (Nat.not_lt_zero _)
  | succ fuel ih =>
    intro work seen enough
    cases work with
    | nil =>
      refine ⟨_, rfl, fun node member => member, ?_, ?_, ?_⟩
      · exact fun _ node member => nomatch member
      · exact fun _ node member fresh => absurd member fresh
      · exact fun node impossible => nomatch impossible
    | cons node rest =>
      rw [search]
      by_cases skipped : barred node ∨ node ∈ seen
      · rw [if_pos skipped]
        have less : pending next nodes rest seen < fuel := by
          unfold pending at enough ⊢
          rw [length_cons] at enough
          omega
        obtain ⟨result, found, ended⟩ := ih less
        refine ⟨result, found, ended.kept, ?_, ended.closed, ended.accepted⟩
        intro none other member
        rcases mem_cons.mp member with rfl | later
        · exact skipped.imp_right (ended.kept other)
        · exact ended.worked none other later
      · rw [if_neg skipped]
        obtain ⟨passes, fresh⟩ := not_or.mp skipped
        by_cases accepts : stop node = true
        · rw [if_pos accepts]
          refine ⟨_, rfl, fun other member => mem_cons_of_mem node member, ?_, ?_, ?_⟩
          · exact fun impossible => nomatch impossible
          · exact fun impossible => nomatch impossible
          · rintro other same
            obtain rfl : node = other := Option.some.inj same
            exact ⟨accepts, Bool.eq_false_iff.mpr passes⟩
        · rw [if_neg accepts]
          have less : pending next nodes (push (next node) rest) (node :: seen) < fuel := by
            have := @pending_seen _ _ _ _ nodes listed kept node rest seen fresh
            omega
          obtain ⟨result, found, ended⟩ := ih less
          have here : node ∈ result.2 := ended.kept node mem_cons_self
          refine ⟨result, found, ?_, ?_, ?_, ended.accepted⟩
          · exact fun other member => ended.kept other (mem_cons_of_mem node member)
          · intro none other member
            rcases mem_cons.mp member with rfl | later
            · exact .inr here
            · refine ended.worked none other ((kept _ _).mem_iff.mpr ?_)
              exact mem_append_right _ later
          · intro none other member unseen
            by_cases same : other = node
            · subst same
              refine ⟨Bool.eq_false_iff.mpr accepts, fun successor follows => ?_⟩
              refine ended.worked none successor ((kept _ _).mem_iff.mpr ?_)
              exact mem_append_left _ follows
            · refine ended.closed none other member ?_
              exact fun listed => (mem_cons.mp listed).elim same unseen

/-- What holds of the work, and goes over to the successors of the nodes a search passes,
holds of what it finds and sees. -/
theorem search_holds {holds : α → Prop}
    (keeps : ∀ node, holds node → barred node = false → stop node = false →
      ∀ successor ∈ next node, holds successor)
    (kept : ∀ added rest, (push added rest).Perm (added ++ rest)) {fuel : Nat} :
    ∀ {work seen : List α} {result : Option α × List α}, (∀ node ∈ work, holds node) →
      search next push barred stop fuel work seen = some result →
      (∀ node, result.1 = some node → holds node) ∧
        ∀ node ∈ result.2, node ∈ seen ∨ (holds node ∧ barred node = false) := by
  induction fuel with
  | zero => exact fun _ impossible => absurd impossible (by simp [search])
  | succ fuel ih =>
    intro work seen result good found
    cases work with
    | nil =>
      cases found
      exact ⟨fun _ impossible => absurd impossible (by simp), fun _ member => .inl member⟩
    | cons node rest =>
      have goodNode := good node mem_cons_self
      have goodRest : ∀ other ∈ rest, holds other :=
        fun other member => good other (mem_cons_of_mem node member)
      rw [search] at found
      by_cases skipped : barred node ∨ node ∈ seen
      · rw [if_pos skipped] at found
        exact ih goodRest found
      · rw [if_neg skipped] at found
        have passes : barred node = false := Bool.eq_false_iff.mpr (not_or.mp skipped).1
        by_cases accepts : stop node = true
        · rw [if_pos accepts] at found
          cases found
          refine ⟨?_, ?_⟩
          · intro other same
            exact Option.some.inj same ▸ goodNode
          · intro other member
            rcases mem_cons.mp member with rfl | later
            · exact .inr ⟨goodNode, passes⟩
            · exact .inl later
        · rw [if_neg accepts] at found
          have next := keeps node goodNode passes (Bool.eq_false_iff.mpr accepts)
          obtain ⟨ofFound, ofSeen⟩ := ih (fun other member => by
            rcases mem_append.mp ((kept _ _).mem_iff.mp member) with added | old
            · exact next other added
            · exact goodRest other old) found
          refine ⟨ofFound, ?_⟩
          intro other member
          rcases ofSeen other member with early | fine
          · rcases mem_cons.mp early with rfl | old
            · exact .inr ⟨goodNode, passes⟩
            · exact .inl old
          · exact .inr fine

end HermesDecomp.Worklist
