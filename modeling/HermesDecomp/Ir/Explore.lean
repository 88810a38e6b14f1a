import HermesDecomp.Ir.Steps

/-!
# Exploring a concrete graph

The moves from a point can be listed. So a list of points that is closed under the moves
of a kind contains every point such moves lead to, and properties of all paths of a
concrete graph are decided on such a list.
-/

namespace HermesDecomp.Ir.Cfg

variable {graph : Cfg} {register : Nat} {point next : Point} {points : List Point}

/-- The points a move leads to. -/
def moves (graph : Cfg) (point : Point) : List Point :=
  let length := (graph.statements point.block).length
  (if point.index < length then [⟨point.block, point.index + 1⟩] else []) ++
    ((if point.index = length then (graph.successors point.block).map (Point.mk · 0) else []) ++
      if point.index ≤ length then
        (graph.exceptionHandlers.filter fun handler => point.block ∈ handler.tryBlocks).map
          fun handler => ⟨handler.catchBlock, 0⟩
      else [])

theorem mem_moves (move : Move graph point next) : next ∈ graph.moves point := by
  cases move with
  | next inside => simp [moves, inside]
  | follow follows => simp [moves, follows]
  | raise listed protects inside =>
    have handles : ∃ handler, (handler ∈ graph.exceptionHandlers ∧ _ ∈ handler.tryBlocks) ∧
        (⟨handler.catchBlock, 0⟩ : Point) = _ := ⟨_, ⟨listed, protects⟩, rfl⟩
    simp only [moves, List.mem_append]
    right
    right
    rw [if_pos inside, List.mem_map]
    simpa [List.mem_filter] using handles

instance (register : Nat) (point next : Point) : Decidable (graph.Keeps register point next) :=
  inferInstanceAs (Decidable (_ → _))

/-- Reachable points lie in every list that has the entry and is closed under moves. -/
theorem mem_of_reachable (entry : ⟨graph.entry, 0⟩ ∈ points)
    (closed : ∀ point ∈ points, ∀ next ∈ graph.moves point, next ∈ points)
    (reachable : graph.Reachable point) : point ∈ points := by
  induction reachable with
  | refl => exact entry
  | tail _ move ih => exact closed _ ih _ (mem_moves move)

/-- The points a register can reach unwritten lie in every list that has the entry and is
closed under the moves that do not write it. -/
theorem mem_of_unset (entry : ⟨graph.entry, 0⟩ ∈ points)
    (closed : ∀ point ∈ points, ∀ next ∈ graph.moves point, graph.Keeps register point next →
      register ∉ graph.otherWritesAt point → next ∈ points)
    (unset : Unset graph register point) : point ∈ points := by
  induction unset with
  | entry => exact entry
  | move _ move keeps unwritten ih => exact closed _ ih _ (mem_moves move) keeps unwritten

theorem reachable_of_unset (unset : Unset graph register point) : graph.Reachable point := by
  induction unset with
  | entry => exact .refl
  | move _ move _ _ ih => exact ih.tail move

/-- Follow the moves a test admits from the points of a list, adding what is new. -/
def explore (graph : Cfg) (admits : Point → Point → Bool) : Nat → List Point → List Point
  | 0, points => points
  | fuel + 1, points =>
      explore graph admits fuel (points.foldl (fun points point =>
        ((graph.moves point).filter (admits point)).foldl (fun points next =>
          if points.contains next then points else points ++ [next]) points) points)

/-- The points of a graph that its entry leads to, as far as `fuel` rounds find them. -/
def found (graph : Cfg) (fuel : Nat) : List Point :=
  graph.explore (fun _ _ => true) fuel [⟨graph.entry, 0⟩]

/-- The points a register can reach unwritten, as far as `fuel` rounds find them. -/
def unwritten (graph : Cfg) (register fuel : Nat) : List Point :=
  graph.explore (fun point next => decide (graph.Keeps register point next) &&
    decide (register ∉ graph.otherWritesAt point)) fuel [⟨graph.entry, 0⟩]

/-- Every read is preceded by a definition on every path, when this holds of the points
that enough rounds find. -/
theorem readsDefined_of_explored (fuel : Nat) (entry : ⟨graph.entry, 0⟩ ∈ graph.found fuel)
    (closed : ∀ point ∈ graph.found fuel, ∀ next ∈ graph.moves point, next ∈ graph.found fuel)
    (defined : ∀ point ∈ graph.found fuel, ∀ register ∈ graph.readsAt point,
      ⟨graph.entry, 0⟩ ∈ graph.unwritten register fuel ∧
      (∀ point ∈ graph.unwritten register fuel, ∀ next ∈ graph.moves point,
        graph.Keeps register point next → register ∉ graph.otherWritesAt point →
          next ∈ graph.unwritten register fuel) ∧
      point ∉ graph.unwritten register fuel) : ReadsDefined graph := by
  intro point register read unset
  have found := mem_of_reachable entry closed (reachable_of_unset unset)
  obtain ⟨entry', closed', absent⟩ := defined point found register read
  exact absent (mem_of_unset entry' closed' unset)

end HermesDecomp.Ir.Cfg
