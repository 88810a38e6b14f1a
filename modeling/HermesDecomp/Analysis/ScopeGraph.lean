import HermesDecomp.Analysis.LevelWalks

/-!
# The scope graph and the planned levels

Each function sees environments as values relative to itself. The scope graph resolves them to
scopes: a function's own environment, or one a function created past its own. Where it has a word,
the parents of functions and of block environments are recorded, and the loads and stores it places
elsewhere than the builder's level reaches are given the level that does reach the scope.
-/

namespace HermesDecomp.Closure

open Std (TreeMap)

/-- What a register holds, as an environment. -/
inductive Env where
  | own
  | closure (levels : Nat)
  | created (site : Nat) (parent : Option Env)
  | up (inner : Env) (levels : Nat)
  | inSlot (inner : Env) (slot : Nat)
  | unknown

/-- The class of an access. -/
def Env.kind : Env → String
  | own => "own"
  | closure _ => "closure"
  | created .. => "created"
  | up .. => "up from a slot"
  | inSlot .. => "slot-held"
  | unknown => "unknown"

/-- A function's own environment, or one it created past its own at an offset. -/
inductive Scope where
  | fn (function : Nat)
  | created (function site : Nat)
deriving DecidableEq, Repr

/-- The scopes the facts give, or too many to follow. -/
inductive Known where
  | set (scopes : List Scope)
  | tooMany

/-- The scopes functions were created with, what created scopes were built on, and the scopes
parked in slots. -/
structure ScopeGraph where
  creations : TreeMap Nat Known
  builtOn : List ((Nat × Nat) × Option Env)
  parked : List ((Scope × Nat) × Known)

/-- The one scope that is known, if it is one. -/
def single : Option Known → Option Scope
  | some (.set [scope]) => some scope
  | _ => none

namespace ScopeGraph

/-- No chain is followed further. -/
def maxHops : Nat := 64

/-- More scopes at once are too many. -/
def maxSet : Nat := 16

/-- How deep a resolution goes into itself. -/
def maxResolveDepth : Nat := 128

variable (graph : ScopeGraph) (inner : Nat → Env → Option Scope)

/-- The scopes a scope's environment can be built on, environments resolved as given. -/
def parents : Scope → Option (List Scope)
  | .fn function =>
      match graph.creations[function]? with
      | some (.set scopes) => some scopes
      | _ => none
  | .created function site =>
      match graph.builtOn.lookup (function, site) with
      | some (some env) => (inner function env).map ([·])
      | _ => none

/-- One level up from every scope, as long as there are not too many. -/
def upOnce (scopes : List Scope) : Option (List Scope) := do
  let next ← scopes.foldlM (fun next scope => do
    let found ← graph.parents inner scope
    pure (next ∪ found)) []
  if next.isEmpty || decide (maxSet < next.length) then none else some next

/-- So many levels up, one after the other. -/
def upLevels : Nat → List Scope → Option (List Scope)
  | 0, scopes => some scopes
  | levels + 1, scopes => (graph.upOnce inner scopes).bind (upLevels levels)

/-- So many levels up; one answer only if every way up agrees. -/
def upAll (scopes : List Scope) (levels : Nat) : Option Scope :=
  if maxHops < levels then none
  else
    match graph.upLevels inner levels scopes with
    | some [scope] => some scope
    | _ => none

/-- The scope so many levels up a function's chain. -/
def chain (function levels : Nat) : Option Scope :=
  if levels = 0 then some (.fn function) else graph.upAll inner [.fn function] levels

/-- The scope an environment is, as a function sees it. -/
def resolveWithin : Nat → Nat → Env → Option Scope
  | 0, _, _ => none
  | depth + 1, function, env =>
      match env with
      | .own => some (.fn function)
      | .closure levels => graph.chain (resolveWithin depth) function levels
      | .created site _ => some (.created function site)
      | .up base levels => do
          let scope ← resolveWithin depth function base
          graph.upAll (resolveWithin depth) [scope] levels
      | .inSlot base slot => do
          let scope ← resolveWithin depth function base
          single (graph.parked.lookup (scope, slot))
      | .unknown => none

def resolve : Nat → Env → Option Scope := graph.resolveWithin maxResolveDepth

/-- The scope a function was created with. -/
def creation (function : Nat) : Option Scope := single graph.creations[function]?

/-- The one scope a scope is built on. -/
def parent (scope : Scope) : Option Scope := graph.upAll graph.resolve [scope] 1

def functionsCreated : List Nat := graph.creations.keys

/-- Facts that disagree or are too many. -/
def conflicting : Known → Bool
  | .set scopes => decide (1 < scopes.length)
  | .tooMany => true

/-- How many functions and how many slots have conflicting facts. -/
def conflicts : Nat × Nat :=
  (graph.creations.values.countP conflicting, (graph.parked.map Prod.snd).countP conflicting)

/-- A way up of so many links, each to a scope the last one can be built on. -/
inductive Climbs : Nat → Scope → Scope → Prop where
  | here (scope : Scope) : Climbs 0 scope scope
  | up {levels : Nat} {start middle stop : Scope} {found : List Scope}
      (known : graph.parents inner start = some found) (link : middle ∈ found)
      (rest : Climbs levels middle stop) : Climbs (levels + 1) start stop

variable {graph inner}

theorem mem_of_upOnce {scopes next : List Scope} (ran : graph.upOnce inner scopes = some next)
    (scope : Scope) : scope ∈ next ↔
      ∃ start ∈ scopes, ∃ found, graph.parents inner start = some found ∧ scope ∈ found := by
  have general : ∀ (scopes before after : List Scope), scopes.foldlM (fun next scope => do
      let found ← graph.parents inner scope
      pure (next ∪ found)) before = some after → (scope ∈ after ↔ scope ∈ before ∨
        ∃ start ∈ scopes, ∃ found, graph.parents inner start = some found ∧ scope ∈ found) := by
    intro scopes
    induction scopes with
    | nil => simp_all
    | cons first scopes ih =>
      intro before after ran
      simp only [List.foldlM_cons, Option.bind_eq_bind, Option.bind_eq_some_iff] at ran
      obtain ⟨_, ⟨found, known, same⟩, ran⟩ := ran
      grind [ih _ _ ran]
  simp only [upOnce, Option.bind_eq_bind, Option.bind_eq_some_iff] at ran
  obtain ⟨after, ran, same⟩ := ran
  obtain rfl : after = next := by grind
  simpa using general _ _ _ ran

theorem mem_of_upLevels {levels : Nat} : ∀ {scopes found : List Scope},
    graph.upLevels inner levels scopes = some found → ∀ stop,
      stop ∈ found ↔ ∃ start ∈ scopes, Climbs graph inner levels start stop := by
  induction levels with
  | zero =>
    intro scopes found ran stop
    cases ran
    grind [Climbs]
  | succ levels ih =>
    intro scopes found ran stop
    obtain ⟨next, once, ran⟩ := Option.bind_eq_some_iff.mp ran
    grind [mem_of_upOnce, Climbs]

/-- A chain has an answer only when every way up, so many links from the function, ends there. -/
theorem chain_agrees (function levels : Nat) : graph.chain inner function levels = none ∨
    ∃ scope, graph.chain inner function levels = some scope ∧
      ∀ stop, Climbs graph inner levels (.fn function) stop ↔ stop = scope := by
  rw [chain, upAll]
  split_ifs with own
  · exact .inr ⟨_, rfl, by grind [Climbs]⟩
  · exact .inl rfl
  · cases ran : graph.upLevels inner levels [.fn function] with
    | none => exact .inl rfl
    | some found =>
      have reached := mem_of_upLevels ran
      match found with
      | [scope] => exact .inr ⟨scope, rfl, fun stop => by simpa using (reached stop).symm⟩
      | [] | _ :: _ :: _ => exact .inl rfl

end ScopeGraph

/-- A function's own environment, or the block environment it built at a level. -/
abbrev ScopeRef := Nat × Option Nat

/-- The levels of a function's loads and stores, by offset, and the shift of the others. -/
structure EnvPlan where
  levels : TreeMap Nat Nat
  shift : Nat

/-- The level an access the builder gave one ends up with without a plan. -/
def EnvPlan.shifted (shift raw : Nat) : Nat :=
  if 1 ≤ raw ∧ raw < nestedEnvLevelBase then raw + shift else raw

def EnvPlan.level (plan : EnvPlan) (offset raw : Nat) : Nat :=
  (plan.levels[offset]?).getD (EnvPlan.shifted plan.shift raw)

/-- The scopes of a program, with what is recorded of how they come about. -/
structure ScopeContext extends ClosureContext where
  blockLevel : TreeMap Nat Nat
  blockFunction : TreeMap Nat Nat
  creationScopes : TreeMap Nat (Nat × Nat)
  envOffsets : TreeMap Nat Nat
  envPlans : TreeMap Nat EnvPlan
  scopeParents : TreeMap Nat ScopeRef
  blockParents : List ((Nat × Nat) × ScopeRef)

/-- Add an entry to a map by pairs, or replace the value of its key. -/
def insertPair {β : Type} (key : Nat × Nat) (value : β) :
    List ((Nat × Nat) × β) → List ((Nat × Nat) × β)
  | [] => [(key, value)]
  | (first, old) :: rest =>
      if key = first then (key, value) :: rest
      else if key.1 < first.1 ∨ key.1 = first.1 ∧ key.2 < first.2 then
        (key, value) :: (first, old) :: rest
      else (first, old) :: insertPair key value rest

/-- Synthetic ids count down from the top of the range. -/
def firstBlockScopeId : Nat := 2 ^ 32 - 2

namespace ScopeContext

variable (context : ScopeContext)

/-- Nothing is known yet. -/
def new : ScopeContext where
  functionClosures := ∅
  parentFunction := ∅
  blockScopes := []
  blockLevel := ∅
  blockFunction := ∅
  creationScopes := ∅
  envOffsets := ∅
  envPlans := ∅
  scopeParents := ∅
  blockParents := []

def envOffset (function : Nat) : Nat := (context.envOffsets[function]?).getD 0

/-- Record a new block environment under an id. -/
def claimBlock (function level id : Nat) : ScopeContext :=
  { context with
    blockScopes := insertPair (function, level) id context.blockScopes
    blockLevel := context.blockLevel.insert id level
    blockFunction := context.blockFunction.insert id function }

def setParent (child parent : Nat) : ScopeContext :=
  { context with parentFunction := context.parentFunction.insert child parent }

/-- The synthetic scope for the block environment a function built at a level, created on first
use. The environment is recorded first, so a cycle of parents ends at it. -/
def blockScopeWithin : Nat → ScopeContext → Nat → Nat → ScopeContext × Nat
  | 0, context, function, _ => (context, function)
  | fuel + 1, context, function, level =>
      match context.blockScopes.lookup (function, level) with
      | some id => (context, id)
      | none =>
          let id := firstBlockScopeId - context.blockScopes.length
          let claimed := context.claimBlock function level id
          let (settled, builtOn) :=
            match claimed.blockParents.lookup (function, level) with
            | some (owner, some level') => blockScopeWithin fuel claimed owner level'
            | some (owner, none) => (claimed, owner)
            | none => (claimed, function)
          (settled.setParent id (if builtOn = id then function else builtOn), id)

/-- Every block environment that is built on another leads on at most once. -/
def blockScope (function level : Nat) : ScopeContext × Nat :=
  blockScopeWithin (context.blockParents.length + 1) context function level

/-- The id a scope reference stands for. -/
def scopeId : ScopeRef → ScopeContext × Nat
  | (function, some level) => context.blockScope function level
  | (function, none) => (context, function)

/-- The function whose body a scope id belongs to. -/
def scopeFunction (id : Nat) : Nat := (context.blockFunction[id]?).getD id

/-- The reference a scope id stands for. -/
def scopeRef (id : Nat) : ScopeRef :=
  match context.blockLevel[id]? with
  | some level => (context.scopeFunction id, some level)
  | none => (id, none)

/-- Record that a function was created in another. -/
def addChild (parent child : Nat) : ScopeContext :=
  if parent = child then context
  else
    match context.scopeParents[child]? with
    | some ref =>
        let (placed, scope) := context.scopeId ref
        if scope ≠ child then placed.setParent child scope else placed
    | none =>
        match context.creationScopes[child]? with
        | some (creator, level) =>
            if creator = parent then
              let (placed, scope) := context.blockScope parent level
              placed.setParent child scope
            else context.setParent child parent
        | none => context.setParent child parent

end ScopeContext

/-- What is known of one function's environments: its loads and stores with the environment they
go through, the level of each environment it built past its own, and the builder's level of each
load and store. -/
structure FunctionEnv where
  accesses : List (Nat × Env × Nat × Bool)
  sites : List (Nat × Nat)
  accessLevels : List (Nat × Nat)

/-- Count one more of a kind. -/
def count (census : TreeMap String Nat) (kind : String) : TreeMap String Nat :=
  census.insert kind ((census[kind]?).getD 0 + 1)

/-- The level of each environment that was built past a function's own. -/
def siteLevels (env : List (Nat × FunctionEnv)) : List ((Nat × Nat) × Nat) :=
  env.foldl (fun levels entry => entry.2.sites.foldl
    (fun levels site => insertPair (entry.1, site.1) site.2 levels) levels) []

/-- A scope as the closure context names it. -/
def toRef (siteLevel : List ((Nat × Nat) × Nat)) : Scope → Option ScopeRef
  | .fn function => some (function, none)
  | .created function site => (siteLevel.lookup (function, site)).map fun level =>
      (function, some level)

/-- The context, the count of what was met, and the scope each planned access should reach. -/
structure Planning where
  context : ScopeContext
  census : TreeMap String Nat
  expected : List ((Nat × Nat) × ScopeRef)

namespace Planning

variable (graph : ScopeGraph) (siteLevel : List ((Nat × Nat) × Nat))

/-- Record the scope a function was created with. -/
def parentOfFunction (state : Planning) (function : Nat) : Planning :=
  match (graph.creation function).bind (toRef siteLevel) with
  | some ref =>
      if ref ≠ (function, none) then
        { state with
          context := { state.context with
            scopeParents := state.context.scopeParents.insert function ref }
          census := count state.census "parents: functions" }
      else state
  | none => state

/-- Record the scope a block environment was built on. -/
def parentOfBlock (state : Planning) (site : (Nat × Nat) × Nat) : Planning :=
  match (graph.parent (.created site.1.1 site.1.2)).bind (toRef siteLevel) with
  | some ref =>
      if ref ≠ (site.1.1, some site.2) then
        { state with
          context := { state.context with
            blockParents := insertPair (site.1.1, site.2) ref state.context.blockParents }
          census := count state.census "parents: blocks" }
      else state
  | none => state

end Planning

namespace ScopeContext

variable (context : ScopeContext)

/-- The scope a scope was recorded to be built on. -/
def recordedParent : ScopeRef → Option ScopeRef
  | (function, none) => context.scopeParents[function]?
  | (function, some level) => context.blockParents.lookup (function, level)

/-- The hops from a scope to another, so many at most, after a number of hops already made. -/
def hopsTo (wanted : ScopeRef) : Nat → Nat → ScopeRef → Option Nat
  | 0, _, _ => none
  | fuel + 1, hops, current =>
      match context.recordedParent current with
      | none => none
      | some next => if next = wanted then some (hops + 1) else hopsTo wanted fuel (hops + 1) next

/-- The level that reaches a scope from a function: its own scopes directly, anything else as the
hops up the recorded chain. -/
def levelFor (siteLevel : List ((Nat × Nat) × Nat)) (function : Nat) (scope : Scope) :
    Option Nat :=
  match scope with
  | .fn owner =>
      if owner = function then some 0
      else context.hopsTo (owner, none) 64 0 (function, none)
  | .created owner site =>
      if owner = function then siteLevel.lookup (function, site)
      else (toRef siteLevel scope).bind fun wanted => context.hopsTo wanted 64 0 (function, none)

end ScopeContext

/-- The levels planned for one function, the census, and the scopes its accesses should reach. -/
structure FunctionPlanning where
  levels : TreeMap Nat Nat
  census : TreeMap String Nat
  expected : List ((Nat × Nat) × ScopeRef)

/-- Plan one access. -/
def planAccess (graph : ScopeGraph) (siteLevel : List ((Nat × Nat) × Nat))
    (context : ScopeContext) (function : Nat) (raw : List (Nat × Nat)) (state : FunctionPlanning)
    (access : Nat × Env × Nat × Bool) : FunctionPlanning :=
  let (offset, through, _, _) := access
  -- A hash map keeps the last level an offset was given.
  match raw.reverse.lookup offset with
  | none => { state with census := count state.census "access: the builder made none" }
  | some rawLevel =>
      match graph.resolve function through with
      | none => { state with census := count state.census ("access: unresolved, " ++ through.kind) }
      | some scope =>
          match context.levelFor siteLevel function scope, toRef siteLevel scope with
          | some level, some ref =>
              if level ≠ EnvPlan.shifted (context.envOffset function) rawLevel then
                { levels := state.levels.insert offset level
                  census := count state.census "access: level changed"
                  expected := insertPair (function, offset) ref state.expected }
              else { state with census := count state.census "access: level kept" }
          | _, _ => { state with census := count state.census "access: resolved, not on the chain" }

/-- Plan the accesses of one function. -/
def planFunction (graph : ScopeGraph) (siteLevel : List ((Nat × Nat) × Nat)) (state : Planning)
    (entry : Nat × FunctionEnv) : Planning :=
  let planned := entry.2.accesses.foldl
    (planAccess graph siteLevel state.context entry.1 entry.2.accessLevels)
    ⟨∅, state.census, state.expected⟩
  { context :=
      if planned.levels.isEmpty then state.context
      else { state.context with
        envPlans := state.context.envPlans.insert entry.1
          ⟨planned.levels, state.context.envOffset entry.1⟩ }
    census := planned.census
    expected := planned.expected }

/-- Put the scope graph's word into the closure context. The sites come in the order of a hash
map, which is not known. -/
def planEnvLevels (context : ScopeContext) (graph : ScopeGraph) (env : List (Nat × FunctionEnv))
    (sites : List ((Nat × Nat) × Nat)) : Planning :=
  let siteLevel := siteLevels env
  let functions := graph.functionsCreated.foldl (Planning.parentOfFunction graph siteLevel)
    ⟨context, ∅, []⟩
  let blocks := sites.foldl (Planning.parentOfBlock graph siteLevel) functions
  let planned := env.foldl (planFunction graph siteLevel) blocks
  let functionsPlanned := planned.context.envPlans.keys
  { planned with
    context := { planned.context with
      envOffsets := functionsPlanned.foldl (fun offsets function => offsets.erase function)
        planned.context.envOffsets }
    census := ((planned.census.insert "functions planned" functionsPlanned.length).insert
      "conflicts: functions" graph.conflicts.1).insert "conflicts: slots" graph.conflicts.2 }

namespace ScopeContext

variable (context : ScopeContext)

/-- The level planned for what a function does at an offset. -/
def plannedLevel (function offset : Nat) : Option Nat :=
  (context.envPlans[function]?).bind (·.levels[offset]?)

/-- The level a load or store ends up with: a function with a plan is built again with it, and the
levels of what is built are shifted by the function's offset. -/
def builtLevel (function offset raw : Nat) : Nat :=
  EnvPlan.shifted (context.envOffset function)
    (match context.envPlans[function]? with
    | some plan => plan.level offset raw
    | none => raw)

end ScopeContext

end HermesDecomp.Closure
