import HermesDecomp.Analysis.ScopeGraph
import Mathlib.Data.Finset.Card

/-!
# Planned levels reach their scopes

The parents the scope graph gives are installed into the closure context by recording children and
by creating the scopes of block environments. A planned level was counted along the recorded
parents; walked along the installed ones it ends at the scope the graph resolved, as long as the
synthetic ids of block environments meet no function's id.
-/

namespace HermesDecomp.Closure

open List
open Std (TreeMap)

section

variable {β : Type} {key : Nat × Nat} {value : β}

theorem lookup_insertPair (key other : Nat × Nat) (value : β) (map : List ((Nat × Nat) × β)) :
    (insertPair key value map).lookup other =
      if other = key then some value else map.lookup other := by
  fun_induction insertPair key value map with
  | case1 => exact lookup_cons_eq other key value []
  | case2 old rest =>
    rw [lookup_cons_eq, lookup_cons_eq]
    split_ifs <;> rfl
  | case3 first old rest different before => exact lookup_cons_eq other key value _
  | case4 first old rest different notBefore ih =>
    rw [lookup_cons_eq, ih, lookup_cons_eq]
    by_cases same : other = key
    · subst same
      rw [if_neg different, if_pos rfl, if_pos rfl]
    · rw [if_neg same, if_neg same]

theorem length_insertPair {map : List ((Nat × Nat) × β)} (absent : map.lookup key = none) :
    (insertPair key value map).length = map.length + 1 := by
  fun_induction insertPair key value map with
  | case1 | case3 => rfl
  | case2 old rest => simp at absent
  | case4 first old rest different notBefore ih =>
    rw [lookup_cons_eq, if_neg different] at absent
    rw [length_cons, ih absent]
    rfl

end

namespace ScopeContext

/-- A reference stands for an id. -/
def StandsFor (context : ScopeContext) : ScopeRef → Nat → Prop
  | (function, some level), id => context.blockScopes.lookup (function, level) = some id
  | (function, none), id => id = function

/-- The scope a block environment is built on. -/
def builtOn (context : ScopeContext) (block : Nat × Nat) : ScopeRef :=
  (context.blockParents.lookup block).getD (block.1, none)

/-- Every block environment has an id of its own and, unless it is just being created, the parent
it was built on. -/
structure Placed (context : ScopeContext) (opened : List (Nat × Nat)) : Prop where
  range : ∀ block id, context.blockScopes.lookup block = some id →
    id ≤ firstBlockScopeId ∧ firstBlockScopeId < id + context.blockScopes.length
  injective : ∀ block block' id, context.blockScopes.lookup block = some id →
    context.blockScopes.lookup block' = some id → block = block'
  level : ∀ block id, context.blockScopes.lookup block = some id →
    context.blockLevel[id]? = some block.2 ∧ context.blockFunction[id]? = some block.1
  only : ∀ id level, context.blockLevel[id]? = some level →
    ∃ block, context.blockScopes.lookup block = some id
  parent : ∀ block id, block ∉ opened → context.blockScopes.lookup block = some id →
    ∃ parent, context.parentFunction[id]? = some parent ∧
      context.StandsFor (context.builtOn block) parent

/-- More block environments have been created, and nothing else is recorded differently. -/
structure Extends (context context' : ScopeContext) : Prop where
  blocks : ∀ block id, context.blockScopes.lookup block = some id →
    context'.blockScopes.lookup block = some id
  length : context.blockScopes.length ≤ context'.blockScopes.length
  blockParents : context'.blockParents = context.blockParents
  scopeParents : context'.scopeParents = context.scopeParents

theorem Extends.refl (context : ScopeContext) : Extends context context :=
  ⟨fun _ _ => id, le_rfl, rfl, rfl⟩

theorem Extends.trans {first second third : ScopeContext} (left : Extends first second)
    (right : Extends second third) : Extends first third :=
  ⟨fun block id found => right.blocks block id (left.blocks block id found),
    left.length.trans right.length, right.blockParents.trans left.blockParents,
    right.scopeParents.trans left.scopeParents⟩

theorem Extends.standsFor {context context' : ScopeContext} (grown : Extends context context') :
    ∀ {ref : ScopeRef} {id : Nat}, context.StandsFor ref id → context'.StandsFor ref id
  | (_, some _), _, stands => grown.blocks _ _ stands
  | (_, none), _, stands => stands

/-- No block environment is built on itself. -/
def NoSelf (context : ScopeContext) : Prop :=
  ∀ block, context.blockParents.lookup block ≠ some (block.1, some block.2)

/-- A function's id is below those of so many block environments. -/
def Below (function blocks : Nat) : Prop := function + blocks ≤ firstBlockScopeId

/-- The functions block environments are built on have ids below those of the blocks. -/
def Apart (context : ScopeContext) (blocks : Nat) : Prop :=
  ∀ block function, context.blockParents.lookup block = some (function, none) →
    Below function blocks

variable {context : ScopeContext} {opened : List (Nat × Nat)} {block : Nat × Nat}

theorem Placed.ne_of_below (placed : Placed context opened) {id function : Nat}
    (found : context.blockScopes.lookup block = some id)
    (below : Below function context.blockScopes.length) : function ≠ id:= by
  have range := placed.range block id found
  rw [Below] at below
  omega

/-- A new block environment gets the next id. -/
theorem Placed.claimBlock (placed : Placed context opened)
    (absent : context.blockScopes.lookup block = none)
    (room : context.blockScopes.length + 1 ≤ firstBlockScopeId) :
    Placed (context.claimBlock block.1 block.2
      (firstBlockScopeId - context.blockScopes.length)) (block :: opened) := by
  have looked : ∀ other, (context.claimBlock block.1 block.2
      (firstBlockScopeId - context.blockScopes.length)).blockScopes.lookup other =
        if other = block then some (firstBlockScopeId - context.blockScopes.length)
        else context.blockScopes.lookup other :=
    fun other => lookup_insertPair ..
  have longer : (context.claimBlock block.1 block.2
      (firstBlockScopeId - context.blockScopes.length)).blockScopes.length =
        context.blockScopes.length + 1 := length_insertPair absent
  have fresh : ∀ other id, context.blockScopes.lookup other = some id →
      id ≠ firstBlockScopeId - context.blockScopes.length := by
    intro other id found
    have range := placed.range other id found
    omega
  constructor
  case range =>
    intro other id found
    rw [looked] at found
    rw [longer]
    split_ifs at found
    · cases found
      omega
    · have range := placed.range other id found
      omega
  case injective =>
    intro other other' id found found'
    rw [looked] at found found'
    split_ifs at found found' with same same' same'
    · exact same.trans same'.symm
    · cases found
      exact absurd rfl (fresh other' _ found')
    · cases found'
      exact absurd rfl (fresh other _ found)
    · exact placed.injective other other' id found found'
  case level =>
    intro other id found
    rw [looked] at found
    simp only [ScopeContext.claimBlock, TreeMap.getElem?_insert, Nat.compare_eq_eq]
    split_ifs at found with same
    · cases found
      simp [same]
    · have apart : firstBlockScopeId - context.blockScopes.length ≠ id :=
        (fresh other id found).symm
      rw [if_neg apart, if_neg apart]
      exact placed.level other id found
  case only =>
    intro id level found
    simp only [ScopeContext.claimBlock, TreeMap.getElem?_insert, Nat.compare_eq_eq] at found
    split_ifs at found with same
    · refine ⟨block, ?_⟩
      rw [looked, if_pos rfl, same]
    · obtain ⟨other, held⟩ := placed.only id level found
      refine ⟨other, ?_⟩
      rw [looked, if_neg, held]
      rintro rfl
      rw [absent] at held
      cases held
  case parent =>
    intro other id closed found
    obtain ⟨different, closed⟩ := not_or.mp (mem_cons.not.mp closed)
    rw [looked, if_neg different] at found
    obtain ⟨parent, recorded, stands⟩ := placed.parent other id closed found
    refine ⟨parent, recorded, ?_⟩
    have grown : ∀ {ref : ScopeRef}, context.StandsFor ref parent →
        (context.claimBlock block.1 block.2
          (firstBlockScopeId - context.blockScopes.length)).StandsFor ref parent := by
      rintro ⟨function, _ | level⟩ stands
      · exact stands
      · refine (looked _).trans ?_
        rw [if_neg]
        · exact stands
        · rintro rfl
          exact absurd (absent.symm.trans stands) (Option.some_ne_none _).symm
    exact grown stands

theorem lookup_claimBlock (context : ScopeContext) (function level id : Nat) (other : Nat × Nat) :
    (context.claimBlock function level id).blockScopes.lookup other =
      if other = (function, level) then some id else context.blockScopes.lookup other :=
  lookup_insertPair ..

variable {function level : Nat}

theorem extends_claimBlock (absent : context.blockScopes.lookup (function, level) = none) (id : Nat) :
    Extends context (context.claimBlock function level id) where
  blocks := by
    intro other held found
    rw [lookup_claimBlock, if_neg, found]
    rintro rfl
    rw [absent] at found
    cases found
  length := by
    have longer := @length_insertPair _ _ id _ absent
    exact longer ▸ Nat.le_succ _
  blockParents := rfl
  scopeParents := rfl

theorem extends_setParent (context : ScopeContext) (child parent : Nat) :
    Extends context (context.setParent child parent) :=
  ⟨fun _ _ => id, le_rfl, rfl, rfl⟩

variable {ref : ScopeRef}

theorem standsFor_setParent (context : ScopeContext) (child parent : Nat) {id : Nat}
    : (context.setParent child parent).StandsFor ref id ↔ context.StandsFor ref id:= by
  obtain ⟨function, _ | level⟩ := ref <;> rfl

theorem parentFunction_setParent (context : ScopeContext) (child parent other : Nat) :
    (context.setParent child parent).parentFunction[other]? =
      if child = other then some parent else context.parentFunction[other]? := by
  simp [setParent, TreeMap.getElem?_insert]

/-- The parent of a block environment closes its creation. -/
theorem Placed.setParent (placed : Placed context (block :: opened)) {id parent : Nat}
    (held : context.blockScopes.lookup block = some id)
    (stands : context.StandsFor (context.builtOn block) parent) :
    Placed (context.setParent id parent) opened where
  range := placed.range
  injective := placed.injective
  level := placed.level
  only := placed.only
  parent := by
    intro other id' closed found
    rw [parentFunction_setParent]
    by_cases same : other = block
    · subst same
      obtain rfl := Option.some.inj (held.symm.trans found)
      rw [if_pos rfl]
      exact ⟨parent, rfl, (standsFor_setParent ..).mpr stands⟩
    · rw [if_neg]
      · obtain ⟨parent', recorded, stands'⟩ := placed.parent other id'
          (not_mem_cons_of_ne_of_not_mem same closed) found
        exact ⟨parent', recorded, (standsFor_setParent ..).mpr stands'⟩
      · rintro rfl
        exact same (placed.injective other block id found held)

/-- The parent of something else leaves the block environments alone. -/
theorem Placed.setParent_of_ne (placed : Placed context opened) {child parent : Nat}
    (different : ∀ block id, context.blockScopes.lookup block = some id → child ≠ id) :
    Placed (context.setParent child parent) opened where
  range := placed.range
  injective := placed.injective
  level := placed.level
  only := placed.only
  parent := by
    intro other id closed found
    rw [parentFunction_setParent, if_neg (different other id found)]
    obtain ⟨parent', recorded, stands⟩ := placed.parent other id closed found
    exact ⟨parent', recorded, (standsFor_setParent ..).mpr stands⟩

/-- The block environments that are built on something and do not exist yet. -/
def unplaced (context : ScopeContext) : Nat :=
  ((context.blockParents.map Prod.fst).toFinset.filter
    fun block => context.blockScopes.lookup block = none).card

theorem unplaced_lt (context : ScopeContext) :
    context.unplaced < context.blockParents.length + 1 := by
  refine Nat.lt_succ_of_le ((Finset.card_filter_le _ _).trans ?_)
  exact (toFinset_card_le _).trans (by rw [length_map])

theorem unplaced_claimBlock (absent : context.blockScopes.lookup (function, level) = none)
    (recorded : context.blockParents.lookup (function, level) = some ref) (id : Nat) :
    (context.claimBlock function level id).unplaced < context.unplaced := by
  refine Finset.card_lt_card ((Finset.ssubset_iff_of_subset ?_).mpr ⟨(function, level), ?_, ?_⟩)
  · intro block member
    obtain ⟨listed, missing⟩ := Finset.mem_filter.mp member
    rw [lookup_claimBlock] at missing
    split_ifs at missing
    exact Finset.mem_filter.mpr ⟨listed, missing⟩
  · refine Finset.mem_filter.mpr ⟨mem_toFinset.mpr ?_, absent⟩
    obtain ⟨before, after, split, -⟩ := lookup_eq_some_iff.mp recorded
    rw [split]
    simp
  · intro member
    have missing := (Finset.mem_filter.mp member).2
    rw [lookup_claimBlock, if_pos rfl] at missing
    cases missing

/-- What creating the scope of a block environment leaves behind. -/
structure Settled (context : ScopeContext) (opened : List (Nat × Nat)) (block : Nat × Nat)
    (result : ScopeContext × Nat) : Prop where
  placed : Placed result.1 opened
  grown : Extends context result.1
  found : result.1.blockScopes.lookup block = some result.2
  others : ∀ function, Below function result.1.blockScopes.length →
    result.1.parentFunction[function]? = context.parentFunction[function]?

/-- The parent settles the scope. -/
theorem settled_setParent {context settled : ScopeContext} {id parent : Nat}
    (placed : Placed settled (block :: opened)) (grown : Extends context settled)
    (found : settled.blockScopes.lookup block = some id)
    (stands : settled.StandsFor (settled.builtOn block) parent)
    (others : ∀ function, Below function settled.blockScopes.length →
      settled.parentFunction[function]? = context.parentFunction[function]?) :
    Settled context opened block (settled.setParent id parent, id) where
  placed := placed.setParent found stands
  grown := grown.trans (extends_setParent settled id parent)
  found := found
  others := by
    intro function below
    rw [parentFunction_setParent, if_neg (placed.ne_of_below found below).symm]
    exact others function below

theorem length_blockScopeWithin : ∀ (fuel : Nat) (context : ScopeContext) (function level : Nat),
    context.blockScopes.length ≤ (blockScopeWithin fuel context function level).1.blockScopes.length
  | 0, _, _, _ => le_rfl
  | fuel + 1, context, function, level => by
    rw [blockScopeWithin]
    cases held : context.blockScopes.lookup (function, level) with
    | some id => exact le_rfl
    | none =>
      have grown := (extends_claimBlock held
        (firstBlockScopeId - context.blockScopes.length)).length
      dsimp only
      split
      · exact grown.trans (length_blockScopeWithin fuel ..)
      · exact grown
      · exact grown

theorem blockScopeWithin_settled : ∀ (fuel : Nat) (context : ScopeContext)
    (opened : List (Nat × Nat)) (function level : Nat), context.unplaced < fuel →
    Placed context opened → context.NoSelf →
    (blockScopeWithin fuel context function level).1.blockScopes.length ≤ firstBlockScopeId →
    context.Apart (blockScopeWithin fuel context function level).1.blockScopes.length →
    Settled context opened (function, level) (blockScopeWithin fuel context function level)
  | 0, _, _, _, _, enough, _, _, _, _ => absurd enough (Nat.not_lt_zero _)
  | fuel + 1, context, opened, function, level, enough, placed, noSelf, room, apart => by
    rw [blockScopeWithin] at room apart ⊢
    cases held : context.blockScopes.lookup (function, level) with
    | some id => exact ⟨placed, .refl context, held, fun _ _ => rfl⟩
    | none =>
      rw [held] at room apart
      dsimp only at room apart ⊢
      generalize isId : firstBlockScopeId - context.blockScopes.length = id at room apart ⊢
      have grown := extends_claimBlock held id
      have here : (context.claimBlock function level id).blockScopes.lookup (function, level) =
          some id := by rw [lookup_claimBlock, if_pos rfl]
      have longer : (context.claimBlock function level id).blockScopes.length =
          context.blockScopes.length + 1 := length_insertPair held
      have claimed : context.blockScopes.length + 1 ≤ firstBlockScopeId →
          Placed (context.claimBlock function level id) ((function, level) :: opened) :=
        fun room => isId ▸ placed.claimBlock held room
      cases recorded : context.blockParents.lookup (function, level) with
      | none =>
        have same : (context.claimBlock function level id).blockParents.lookup (function, level) =
            none := recorded
        rw [same] at room apart ⊢
        dsimp only at room apart ⊢
        rw [ite_self]
        refine settled_setParent (claimed (longer ▸ room)) grown here ?_ fun _ _ => rfl
        rw [builtOn, same]
        rfl
      | some ref =>
        have same : (context.claimBlock function level id).blockParents.lookup (function, level) =
            some ref := recorded
        rw [same] at room apart ⊢
        obtain ⟨owner, _ | level'⟩ := ref
        · dsimp only at room apart ⊢
          have placed' := claimed (longer ▸ room)
          rw [if_neg (placed'.ne_of_below here (apart _ owner recorded))]
          refine settled_setParent placed' grown here ?_ fun _ _ => rfl
          rw [builtOn, same]
          rfl
        · dsimp only at room apart ⊢
          have fewer := unplaced_claimBlock held recorded id
          have inner := blockScopeWithin_settled fuel (context.claimBlock function level id)
            ((function, level) :: opened) owner level' (by omega)
          have shorter := length_blockScopeWithin fuel
            (context.claimBlock function level id) owner level'
          have placed' := claimed (longer ▸ shorter.trans room)
          have settled := inner placed' noSelf room apart
          have found := settled.grown.blocks _ _ here
          have different : (blockScopeWithin fuel (context.claimBlock function level id)
              owner level').2 ≠ id := by
            intro same'
            have self := settled.placed.injective _ _ id (same' ▸ settled.found) found
            cases self
            exact noSelf _ recorded
          rw [if_neg different]
          refine settled_setParent settled.placed (grown.trans settled.grown) found ?_
            settled.others
          rw [builtOn, settled.grown.blockParents, same]
          exact settled.found

theorem blockScope_settled (placed : Placed context []) (noSelf : context.NoSelf)
    (room : (context.blockScope function level).1.blockScopes.length ≤ firstBlockScopeId)
    (apart : context.Apart (context.blockScope function level).1.blockScopes.length) :
    Settled context [] (function, level) (context.blockScope function level) :=
  blockScopeWithin_settled _ context [] function level context.unplaced_lt placed noSelf room apart

/-- What installs a parent: a function recorded as the child of another, or a block environment
that is named. -/
inductive Installation where
  | child (parent child : Nat)
  | block (function level : Nat)

def install (context : ScopeContext) : Installation → ScopeContext
  | .child parent child => context.addChild parent child
  | .block function level => (context.blockScope function level).1

/-- A function's installed parent is what a reference stands for. -/
def Linked (context : ScopeContext) (child : Nat) (ref : ScopeRef) : Prop :=
  ∃ id, context.parentFunction[child]? = some id ∧ context.StandsFor ref id

/-- No function was created with its own environment. -/
def NoLoop (context : ScopeContext) : Prop :=
  ∀ child : Nat, context.scopeParents[child]? ≠ some ((child, none) : ScopeRef)

/-- What one installation leaves behind. -/
structure Step (context : ScopeContext) (call : Installation) (result : ScopeContext) : Prop where
  placed : Placed result []
  grown : Extends context result
  others : ∀ function, Below function result.blockScopes.length →
    (∀ parent, parent ≠ function → call ≠ .child parent function) →
      result.parentFunction[function]? = context.parentFunction[function]?
  linked : ∀ parent child ref, call = .child parent child → parent ≠ child →
    context.scopeParents[child]? = some ref → Linked result child ref
  named : ∀ function level, call = .block function level →
    ∃ id, result.blockScopes.lookup (function, level) = some id

theorem length_install (context : ScopeContext) (call : Installation) :
    context.blockScopes.length ≤ (context.install call).blockScopes.length := by
  cases call with
  | block function level => exact length_blockScopeWithin ..
  | child parent child =>
    rw [install, addChild]
    split_ifs
    · exact le_rfl
    · cases context.scopeParents[child]? with
      | some ref =>
        obtain ⟨owner, _ | level⟩ := ref
        · dsimp only [scopeId]
          split_ifs <;> exact le_rfl
        · have longer :=
            length_blockScopeWithin (context.blockParents.length + 1) context owner level
          dsimp only [scopeId]
          split_ifs <;> exact longer
      | none =>
        cases context.creationScopes[child]? with
        | none => exact le_rfl
        | some creation =>
          obtain ⟨creator, level⟩ := creation
          dsimp only
          split_ifs
          · exact length_blockScopeWithin ..
          · exact le_rfl

/-- Setting the parent of a function below the block environments. -/
theorem step_setParent {context settled : ScopeContext} {parent child scope : Nat}
    (placed : Placed settled []) (grown : Extends context settled)
    (others : ∀ function, Below function settled.blockScopes.length →
      settled.parentFunction[function]? = context.parentFunction[function]?)
    (different : parent ≠ child) (below : Below child settled.blockScopes.length)
    (stands : ∀ ref, context.scopeParents[child]? = some ref → settled.StandsFor ref scope) :
    Step context (.child parent child) (settled.setParent child scope) where
  placed := placed.setParent_of_ne fun _ _ found => placed.ne_of_below found below
  grown := grown.trans (extends_setParent settled child scope)
  others := by
    intro function below' apart
    rw [parentFunction_setParent, if_neg, others function below']
    rintro rfl
    exact apart parent different rfl
  linked := by
    rintro _ _ ref call - recorded
    obtain ⟨rfl, rfl⟩ := Installation.child.inj call
    refine ⟨scope, ?_, (standsFor_setParent ..).mpr (stands ref recorded)⟩
    rw [parentFunction_setParent, if_pos rfl]
  named := nofun

theorem step_install (placed : Placed context []) (noSelf : context.NoSelf)
    (noLoop : context.NoLoop) (call : Installation)
    (room : (context.install call).blockScopes.length ≤ firstBlockScopeId)
    (apart : context.Apart (context.install call).blockScopes.length)
    (below : ∀ parent child, call = .child parent child →
      Below child (context.install call).blockScopes.length) :
    Step context call (context.install call) := by
  cases call with
  | block function level =>
    have settled := blockScope_settled placed noSelf room apart
    refine ⟨settled.placed, settled.grown, fun other below' _ => settled.others other below',
      nofun, ?_⟩
    rintro _ _ call
    obtain ⟨rfl, rfl⟩ := Installation.block.inj call
    exact ⟨_, settled.found⟩
  | child parent child =>
    have below := below parent child rfl
    rw [install, addChild] at room apart below ⊢
    by_cases self : parent = child
    · rw [if_pos self]
      refine ⟨placed, .refl context, fun _ _ _ => rfl, ?_, nofun⟩
      rintro _ _ ref call different -
      obtain ⟨rfl, rfl⟩ := Installation.child.inj call
      exact absurd self different
    · rw [if_neg self] at room apart below ⊢
      cases recorded : context.scopeParents[child]? with
      | some ref =>
        rw [recorded] at room apart below
        obtain ⟨owner, _ | level⟩ := ref
        · have different : owner ≠ child := by
            rintro rfl
            exact noLoop owner recorded
          dsimp only [scopeId] at room apart below ⊢
          rw [if_pos different] at room apart below ⊢
          refine step_setParent placed (.refl context) (fun _ _ => rfl) self below ?_
          intro ref same
          obtain rfl := Option.some.inj (recorded.symm.trans same)
          rfl
        · dsimp only [scopeId] at room apart below ⊢
          by_cases same : (context.blockScope owner level).2 ≠ child
          · rw [if_pos same] at room apart below ⊢
            have settled := blockScope_settled placed noSelf room apart
            refine step_setParent settled.placed settled.grown settled.others self below ?_
            intro ref again
            obtain rfl := Option.some.inj (recorded.symm.trans again)
            exact settled.found
          · rw [if_neg same] at room apart below
            have settled := blockScope_settled placed noSelf room apart
            exact absurd (settled.placed.ne_of_below settled.found below).symm same
      | none =>
        rw [recorded] at room apart below
        have unlinked : ∀ {settled : ScopeContext} {scope : Nat} (ref : ScopeRef),
            context.scopeParents[child]? = some ref → settled.StandsFor ref scope :=
          fun ref again => absurd (recorded.symm.trans again) (Option.some_ne_none _).symm
        cases created : context.creationScopes[child]? with
        | none =>
          rw [created] at room apart below
          exact step_setParent placed (.refl context) (fun _ _ => rfl) self below unlinked
        | some creation =>
          rw [created] at room apart below
          obtain ⟨creator, level⟩ := creation
          dsimp only at room apart below ⊢
          by_cases here : creator = parent
          · rw [if_pos here] at room apart below ⊢
            have settled := blockScope_settled placed noSelf room apart
            exact step_setParent settled.placed settled.grown settled.others self below unlinked
          · rw [if_neg here] at room apart below ⊢
            exact step_setParent placed (.refl context) (fun _ _ => rfl) self below unlinked

/-- Installing one after the other. -/
def installAll (context : ScopeContext) (calls : List Installation) : ScopeContext :=
  calls.foldl install context

theorem length_installAll (calls : List Installation) : ∀ context : ScopeContext,
    context.blockScopes.length ≤ (context.installAll calls).blockScopes.length := by
  induction calls with
  | nil => exact fun context => le_rfl
  | cons call rest ih =>
    intro context
    exact (length_install context call).trans (ih (context.install call))

theorem Below.mono {function blocks blocks' : Nat} (below : Below function blocks')
    (fewer : blocks ≤ blocks') : Below function blocks := by
  rw [Below] at below ⊢
  omega

theorem Step.keeps_linked {context result : ScopeContext} {call : Installation}
    (step : Step context call result) {child : Nat} (below : Below child result.blockScopes.length)
    (recorded : context.scopeParents[child]? = some ref) (linked : context.Linked child ref) :
    result.Linked child ref := by
  by_cases again : ∃ parent, parent ≠ child ∧ call = .child parent child
  · obtain ⟨parent, different, same⟩ := again
    exact step.linked parent child ref same different recorded
  · obtain ⟨id, installed, stands⟩ := linked
    refine ⟨id, ?_, step.grown.standsFor stands⟩
    rw [step.others child below fun parent different same => again ⟨parent, different, same⟩]
    exact installed

/-- What installing leaves behind. -/
structure Installed (context : ScopeContext) (calls : List Installation) (final : ScopeContext) :
    Prop where
  placed : Placed final []
  grown : Extends context final
  kept : ∀ child ref, Below child final.blockScopes.length →
    context.scopeParents[child]? = some ref → context.Linked child ref → final.Linked child ref
  linked : ∀ parent child ref, .child parent child ∈ calls → parent ≠ child →
    context.scopeParents[child]? = some ref → final.Linked child ref
  named : ∀ function level, .block function level ∈ calls →
    ∃ id, final.blockScopes.lookup (function, level) = some id

theorem installed_installAll : ∀ (calls : List Installation) {context : ScopeContext},
    Placed context [] → context.NoSelf → context.NoLoop →
    (context.installAll calls).blockScopes.length ≤ firstBlockScopeId →
    context.Apart (context.installAll calls).blockScopes.length →
    (∀ parent child, .child parent child ∈ calls →
      Below child (context.installAll calls).blockScopes.length) →
    Installed context calls (context.installAll calls)
  | [], context, placed, _, _, _, _, _ =>
    ⟨placed, .refl context, fun _ _ _ _ linked => linked, nofun, nofun⟩
  | call :: rest, context, placed, noSelf, noLoop, room, apart, below => by
    have shorter := length_installAll rest (context.install call)
    have step := step_install placed noSelf noLoop call (shorter.trans room)
      (fun block function recorded => (apart block function recorded).mono shorter)
      (fun parent child same => (below parent child (same ▸ mem_cons_self)).mono shorter)
    have later := installed_installAll rest step.placed
      (by rw [NoSelf, step.grown.blockParents]; exact noSelf)
      (by rw [NoLoop, step.grown.scopeParents]; exact noLoop)
      room (by rw [Apart, step.grown.blockParents]; exact apart)
      (fun parent child member => below parent child (mem_cons_of_mem _ member))
    have still : ∀ {child : Nat} {ref : ScopeRef}, context.scopeParents[child]? = some ref →
        (context.install call).scopeParents[child]? = some ref := by
      intro child ref recorded
      rw [step.grown.scopeParents, recorded]
    constructor
    case placed => exact later.placed
    case grown => exact step.grown.trans later.grown
    case kept =>
      intro child ref small recorded linked
      exact later.kept child ref small (still recorded)
        (step.keeps_linked (small.mono shorter) recorded linked)
    case linked =>
      intro parent child ref member different recorded
      rcases mem_cons.mp member with same | member'
      · exact later.kept child ref (below parent child member) (still recorded)
          (step.linked parent child ref same.symm different recorded)
      · exact later.linked parent child ref member' different (still recorded)
    case named =>
      intro function level member
      rcases mem_cons.mp member with same | member
      · obtain ⟨id, found⟩ := step.named function level same.symm
        exact ⟨id, later.grown.blocks _ _ found⟩
      · exact later.named function level member

/-- A reference stands for an id, and if it is a function its id is below those of the block
environments. -/
def Stands (context : ScopeContext) (ref : ScopeRef) (id : Nat) : Prop :=
  context.StandsFor ref id ∧ (ref.2 = none → Below ref.1 context.blockScopes.length)

theorem Placed.stands_injective (placed : Placed context []) :
    ∀ (ref ref' : ScopeRef) (id : Nat), context.Stands ref id → context.Stands ref' id → ref = ref'
  | (_, none), (_, none), _, ⟨same, _⟩, ⟨same', _⟩ => by rw [← same, ← same']
  | (_, none), (_, some _), _, ⟨same, below⟩, ⟨found, _⟩
  | (_, some _), (_, none), _, ⟨found, _⟩, ⟨same, below⟩ =>
    absurd same.symm (placed.ne_of_below found (below rfl))
  | (_, some _), (_, some _), _, ⟨found, _⟩, ⟨found', _⟩ => by
    obtain ⟨rfl, rfl⟩ := Prod.mk.inj (placed.injective _ _ _ found found')
    rfl

/-- The id a reference stands for is taken back to the reference. -/
theorem Placed.scopeRef_eq (placed : Placed context []) :
    ∀ {ref : ScopeRef} {id : Nat}, context.Stands ref id → context.scopeRef id = ref
  | (function, none), id, ⟨same, below⟩ => by
    obtain rfl : id = function := same
    have unblocked : context.blockLevel[id]? = none := by
      cases found : context.blockLevel[id]? with
      | none => rfl
      | some level =>
        obtain ⟨block, held⟩ := placed.only id level found
        exact absurd rfl (placed.ne_of_below held (below rfl))
    rw [scopeRef, unblocked]
  | (function, some level), id, ⟨found, _⟩ => by
    obtain ⟨atLevel, inFunction⟩ := placed.level _ id found
    rw [scopeRef, atLevel, scopeFunction, inFunction]
    rfl

theorem hopsTo_arrives {wanted : ScopeRef} {fuel hops found : Nat} {current : ScopeRef}
    (reached : context.hopsTo wanted fuel hops current = some found) :
    ∃ steps, found = hops + (steps + 1) ∧ steps < fuel ∧
      Orbit.Arrives context.recordedParent wanted steps current := by
  induction fuel generalizing hops current with
  | zero => cases reached
  | succ fuel ih =>
    rw [hopsTo] at reached
    cases recorded : context.recordedParent current with
    | none =>
      rw [recorded] at reached
      cases reached
    | some next =>
      rw [recorded] at reached
      dsimp only at reached
      by_cases here : next = wanted
      · rw [if_pos here] at reached
        cases reached
        exact ⟨0, rfl, Nat.succ_pos fuel, here ▸ recorded⟩
      · rw [if_neg here] at reached
        obtain ⟨steps, rfl, enough, arrives⟩ := ih reached
        exact ⟨steps + 1, by omega, Nat.succ_lt_succ enough, next, recorded, here, arrives⟩

/-- Every function with a recorded parent has been recorded as a child, and the functions named
have ids below those of the block environments. -/
structure Ready (context : ScopeContext) (calls : List Installation) (final : ScopeContext) :
    Prop where
  children : ∀ child ref, context.scopeParents[child]? = some ref →
    ∃ parent, parent ≠ child ∧ .child parent child ∈ calls
  named : ∀ ref ref', context.recordedParent ref = some ref' → Below ref'.1 final.blockScopes.length

variable {calls : List Installation}

section

variable {context final : ScopeContext} (installed : Installed context calls final)
  (ready : Ready context calls final)

include installed ready

theorem Installed.follows :
    ∀ (ref ref' : ScopeRef) (id : Nat), final.Stands ref id →
      context.recordedParent ref = some ref' →
      ∃ id', final.parentFunction[id]? = some id' ∧ final.Stands ref' id'
  | (function, none), ref', id, ⟨same, _⟩, recorded => by
    obtain rfl : id = function := same
    obtain ⟨parent, different, member⟩ := ready.children id ref' recorded
    obtain ⟨id', found, stands⟩ := installed.linked parent id ref' member different recorded
    exact ⟨id', found, stands, fun _ => ready.named _ ref' recorded⟩
  | (function, some level), ref', id, ⟨held, _⟩, recorded => by
    obtain ⟨id', found, stands⟩ := installed.placed.parent (function, level) id not_mem_nil held
    refine ⟨id', found, ?_, fun _ => ready.named _ ref' recorded⟩
    have same : final.builtOn (function, level) = ref' := by
      rw [builtOn, installed.grown.blockParents]
      have held' : context.blockParents.lookup (function, level) = some ref' := recorded
      rw [held']
      rfl
    rwa [same] at stands

/-- The hops counted along the recorded parents lead along the installed ones. -/
theorem Installed.slotOwner_of_hopsTo {wanted : ScopeRef}
    (below : Below function final.blockScopes.length) (different : (function, none) ≠ wanted)
    (reached : context.hopsTo wanted 64 0 (function, none) = some level) :
    ∃ id, final.slotOwner function level = some id ∧ final.Stands wanted id := by
  obtain ⟨steps, rfl, enough, arrives⟩ := hopsTo_arrives reached
  have start : final.Stands (function, none) function := ⟨rfl, fun _ => below⟩
  obtain ⟨id, walked, stands⟩ := Orbit.walk_of_arrives installed.placed.stands_injective
    (installed.follows ready) steps (function, none) function [] arrives start (by
      intro id' member
      obtain rfl := mem_singleton.mp member
      exact ⟨_, start, different, 0, arrives⟩)
  refine ⟨id, ?_, stands⟩
  rw [Nat.zero_add, ClosureContext.slotOwner, if_neg (Nat.succ_ne_zero steps), if_neg,
    ClosureContext.ancestorAt, if_neg (Nat.succ_ne_zero steps)]
  · exact walked
  · rw [nestedEnvLevelBase]
    omega

/-- The level that reaches a scope from a function is the level of the scope. -/
theorem Installed.slotOwner_of_levelFor {siteLevel : List ((Nat × Nat) × Nat)}
    (past : ∀ key level, siteLevel.lookup key = some level → nestedEnvLevelBase ≤ level)
    {scope : Scope} (below : Below function final.blockScopes.length)
    (asRef : toRef siteLevel scope = some ref)
    (named : ∀ builder atLevel, ref = (builder, some atLevel) → .block builder atLevel ∈ calls)
    (reached : context.levelFor siteLevel function scope = some level) :
    ∃ id, final.slotOwner function level = some id ∧ final.scopeRef id = ref := by
  suffices ∃ id, final.slotOwner function level = some id ∧ final.Stands ref id by
    obtain ⟨id, owned, stands⟩ := this
    exact ⟨id, owned, installed.placed.scopeRef_eq stands⟩
  cases scope with
  | fn owner =>
    cases asRef
    rw [levelFor] at reached
    split_ifs at reached with self
    · subst self
      cases reached
      exact ⟨owner, if_pos rfl, rfl, fun _ => below⟩
    · refine installed.slotOwner_of_hopsTo ready below ?_ reached
      intro same
      exact self (Prod.mk.inj same).1.symm
  | created owner site =>
    obtain ⟨atLevel, found, rfl⟩ := Option.map_eq_some_iff.mp asRef
    rw [levelFor] at reached
    split_ifs at reached with self
    · subst self
      obtain rfl := Option.some.inj (found.symm.trans reached)
      obtain ⟨id, held⟩ := installed.named owner atLevel (named _ _ rfl)
      have high := past _ _ found
      refine ⟨id, ?_, held, nofun⟩
      rw [ClosureContext.slotOwner, if_neg, if_pos high, held]
      rintro rfl
      cases high
    · rw [asRef] at reached
      exact installed.slotOwner_of_hopsTo ready below nofun reached

end

/-- Nothing is recorded of block environments, parents and plans yet. -/
structure Fresh (context : ScopeContext) : Prop where
  blockScopes : context.blockScopes = []
  blockLevel : context.blockLevel = ∅
  scopeParents : context.scopeParents = ∅
  blockParents : context.blockParents = []
  envPlans : context.envPlans = ∅

/-- Parents have been recorded, and none of them closes a loop of one. -/
structure Recorded (context base : ScopeContext) : Prop where
  blockScopes : base.blockScopes = context.blockScopes
  blockLevel : base.blockLevel = context.blockLevel
  envOffsets : base.envOffsets = context.envOffsets
  envPlans : base.envPlans = context.envPlans
  noSelf : base.NoSelf
  noLoop : base.NoLoop

section

variable {context : ScopeContext} {graph : ScopeGraph} {siteLevel : List ((Nat × Nat) × Nat)}

theorem recorded_parentOfFunction {state : Planning} (recorded : Recorded context state.context)
    (function : Nat) :
    Recorded context (state.parentOfFunction graph siteLevel function).context := by
  rw [Planning.parentOfFunction]
  cases (graph.creation function).bind (toRef siteLevel) with
  | none => exact recorded
  | some ref =>
    dsimp only
    split_ifs with apart
    · refine { recorded with noLoop := ?_ }
      intro child
      simp only [TreeMap.getElem?_insert, Nat.compare_eq_eq]
      split_ifs with same
      · subst same
        exact fun loop => apart (Option.some.inj loop)
      · exact recorded.noLoop child
    · exact recorded

theorem recorded_parentOfBlock {state : Planning} (recorded : Recorded context state.context)
    (site : (Nat × Nat) × Nat) :
    Recorded context (state.parentOfBlock graph siteLevel site).context := by
  rw [Planning.parentOfBlock]
  cases (graph.parent (.created site.1.1 site.1.2)).bind (toRef siteLevel) with
  | none => exact recorded
  | some ref =>
    dsimp only
    split_ifs with apart
    · refine { recorded with noSelf := ?_ }
      intro block
      rw [lookup_insertPair]
      split_ifs with same
      · subst same
        exact fun self => apart (Option.some.inj self)
      · exact recorded.noSelf block
    · exact recorded

/-- The parents the graph gives are recorded. -/
theorem recorded_parents (fresh : Fresh context) (functions : List Nat)
    (sites : List ((Nat × Nat) × Nat)) :
    Recorded context (sites.foldl (Planning.parentOfBlock graph siteLevel)
      (functions.foldl (Planning.parentOfFunction graph siteLevel) ⟨context, ∅, []⟩)).context := by
  have nothing : Recorded context context := by
    refine ⟨rfl, rfl, rfl, rfl, ?_, ?_⟩
    · intro block
      rw [fresh.blockParents]
      nofun
    · intro child
      rw [fresh.scopeParents, TreeMap.getElem?_emptyc]
      nofun
  have functionsRecorded : Recorded context (functions.foldl
      (Planning.parentOfFunction graph siteLevel) ⟨context, ∅, []⟩).context :=
    @List.foldlRecOn _ _ (fun state : Planning => Recorded context state.context) functions _ _
      nothing fun state recorded function _ => recorded_parentOfFunction recorded function
  exact @List.foldlRecOn _ _ (fun state : Planning => Recorded context state.context) sites _ _
    functionsRecorded fun state recorded site _ => recorded_parentOfBlock recorded site

end

theorem hopsTo_congr {context context' : ScopeContext}
    (same : context.recordedParent = context'.recordedParent) (wanted : ScopeRef) (fuel : Nat) :
    ∀ hops current, context.hopsTo wanted fuel hops current =
      context'.hopsTo wanted fuel hops current := by
  induction fuel with
  | zero => exact fun _ _ => rfl
  | succ fuel ih =>
    intro hops current
    rw [hopsTo, hopsTo, same]
    cases context'.recordedParent current with
    | none => rfl
    | some next => exact if_congr Iff.rfl rfl (ih (hops + 1) next)

theorem levelFor_congr {context context' : ScopeContext}
    (same : context.recordedParent = context'.recordedParent)
    (siteLevel : List ((Nat × Nat) × Nat)) (function : Nat) (scope : Scope) :
    context.levelFor siteLevel function scope = context'.levelFor siteLevel function scope := by
  cases scope <;> simp [levelFor, hopsTo_congr same]

section

variable (graph : ScopeGraph) (siteLevel : List ((Nat × Nat) × Nat)) (base : ScopeContext)

/-- An access of a function through an environment that resolves to a scope at a level. -/
def Planned (accesses : List (Nat × Env × Nat × Bool)) (function offset level : Nat)
    (ref : ScopeRef) : Prop :=
  ∃ access ∈ accesses, access.1 = offset ∧
    ∃ scope, graph.resolve function access.2.1 = some scope ∧
      base.levelFor siteLevel function scope = some level ∧ toRef siteLevel scope = some ref

/-- The levels planned so far come from accesses whose scopes are expected. -/
structure AccessesPlanned (accesses : List (Nat × Env × Nat × Bool)) (function : Nat)
    (before : List ((Nat × Nat) × ScopeRef)) (state : FunctionPlanning) : Prop where
  levels : ∀ offset level, state.levels[offset]? = some level →
    ∃ ref, state.expected.lookup (function, offset) = some ref ∧
      Planned graph siteLevel base accesses function offset level ref
  others : ∀ key : Nat × Nat, (key.1 = function → state.levels[key.2]? = none) →
    state.expected.lookup key = before.lookup key

variable {graph siteLevel base}

theorem accessesPlanned_planAccess {accesses : List (Nat × Env × Nat × Bool)} {function : Nat}
    {before : List ((Nat × Nat) × ScopeRef)} {raw : List (Nat × Nat)} {state : FunctionPlanning}
    (planned : AccessesPlanned graph siteLevel base accesses function before state)
    {access : Nat × Env × Nat × Bool} (member : access ∈ accesses) :
    AccessesPlanned graph siteLevel base accesses function before
      (planAccess graph siteLevel base function raw state access) := by
  have counted : ∀ census, AccessesPlanned graph siteLevel base accesses function before
      { state with census := census } := fun _ => ⟨planned.levels, planned.others⟩
  obtain ⟨offset, through, slot, store⟩ := access
  rw [planAccess]
  cases raw.reverse.lookup offset with
  | none => exact counted _
  | some rawLevel =>
    cases resolved : graph.resolve function through with
    | none => exact counted _
    | some scope =>
      dsimp only
      cases levelled : base.levelFor siteLevel function scope with
      | none => exact counted _
      | some level =>
        cases asRef : toRef siteLevel scope with
        | none => exact counted _
        | some ref =>
          dsimp only
          split_ifs
          · constructor
            case levels =>
              intro offset' level' found
              simp only [TreeMap.getElem?_insert, Nat.compare_eq_eq] at found
              rw [lookup_insertPair]
              split_ifs at found with same
              · subst same
                cases found
                exact ⟨ref, if_pos rfl, _, member, rfl, scope, resolved, levelled, asRef⟩
              · rw [if_neg fun same' => same (Prod.mk.inj same').2.symm]
                exact planned.levels offset' level' found
            case others =>
              intro key absent
              simp only [TreeMap.getElem?_insert, Nat.compare_eq_eq] at absent
              rw [lookup_insertPair]
              by_cases same : key = (function, offset)
              · subst same
                rw [if_pos rfl] at absent
                exact absurd (absent rfl) (Option.some_ne_none level)
              · rw [if_neg same]
                refine planned.others key fun ours => ?_
                have missing := absent ours
                rwa [if_neg] at missing
                rintro rfl
                exact same (Prod.ext ours rfl)
          · exact counted _

/-- The plans made so far: their levels come from accesses whose scopes are expected, and their
shifts are the offsets of their functions. -/
structure EnvPlanned (graph : ScopeGraph) (siteLevel : List ((Nat × Nat) × Nat))
    (base : ScopeContext) (env : List (Nat × FunctionEnv)) (state : Planning) : Prop where
  context : state.context = { base with envPlans := state.context.envPlans }
  shifts : ∀ function plan, state.context.envPlans[function]? = some plan →
    plan.shift = base.envOffset function
  levels : ∀ function plan offset level, state.context.envPlans[function]? = some plan →
    plan.levels[offset]? = some level → ∃ ref,
      state.expected.lookup (function, offset) = some ref ∧ ∃ entry ∈ env, entry.1 = function ∧
        Planned graph siteLevel base entry.2.accesses function offset level ref

theorem planAccess_envPlans (plans : TreeMap Nat EnvPlan) (function : Nat)
    (raw : List (Nat × Nat)) :
    planAccess graph siteLevel { base with envPlans := plans } function raw =
      planAccess graph siteLevel base function raw := by
  have same : recordedParent { base with envPlans := plans } = base.recordedParent := by
    funext ref
    rcases ref with ⟨owner, _ | level⟩ <;> rfl
  funext state access
  simp only [planAccess, levelFor_congr same]
  rfl

theorem envPlanned_planFunction {env : List (Nat × FunctionEnv)} {state : Planning}
    (planned : EnvPlanned graph siteLevel base env state) {entry : Nat × FunctionEnv}
    (member : entry ∈ env) :
    EnvPlanned graph siteLevel base env (planFunction graph siteLevel state entry) := by
  obtain ⟨function, here⟩ := entry
  obtain ⟨context, census, expected⟩ := state
  obtain ⟨isBase, shifts, levels⟩ := planned
  dsimp only at isBase shifts levels
  generalize context.envPlans = plans at isBase shifts levels
  subst isBase
  have accesses : AccessesPlanned graph siteLevel base here.accesses function expected
      (here.accesses.foldl (planAccess graph siteLevel base function here.accessLevels)
        ⟨∅, census, expected⟩) := by
    refine List.foldlRecOn here.accesses _ ⟨?_, fun _ _ => rfl⟩ ?_
    · intro offset level found
      rw [TreeMap.getElem?_emptyc] at found
      cases found
    · exact fun current planned access member => accessesPlanned_planAccess planned member
  rw [planFunction]
  dsimp only
  rw [planAccess_envPlans]
  generalize here.accesses.foldl (planAccess graph siteLevel base function here.accessLevels)
    ⟨∅, census, expected⟩ = result at accesses ⊢
  have unplanned : ∀ {function' : Nat} {offset : Nat},
      (function' = function → result.levels[offset]? = none) →
        result.expected.lookup (function', offset) = expected.lookup (function', offset) :=
    fun absent => accesses.others _ absent
  have earlier : ∀ {function' : Nat} {plan : EnvPlan} {offset level : Nat},
      (function' = function → result.levels[offset]? = none) → plans[function']? = some plan →
        plan.levels[offset]? = some level → ∃ ref,
          result.expected.lookup (function', offset) = some ref ∧ ∃ entry ∈ env,
            entry.1 = function' ∧
              Planned graph siteLevel base entry.2.accesses function' offset level ref := by
    intro function' plan offset level absent found held
    obtain ⟨ref, looked, origin⟩ := levels function' plan offset level found held
    exact ⟨ref, (unplanned absent).trans looked, origin⟩
  split_ifs with nothing
  · refine ⟨rfl, shifts, ?_⟩
    intro function' plan offset level found held
    exact earlier (fun _ => TreeMap.getElem?_of_isEmpty nothing) found held
  · constructor
    case context => rfl
    case shifts =>
      intro function' plan found
      simp only [TreeMap.getElem?_insert, Nat.compare_eq_eq] at found
      split_ifs at found with same
      · subst same
        cases found
        rfl
      · exact shifts function' plan found
    case levels =>
      intro function' plan offset level found held
      simp only [TreeMap.getElem?_insert, Nat.compare_eq_eq] at found
      split_ifs at found with same
      · subst same
        cases found
        obtain ⟨ref, looked, origin⟩ := accesses.levels offset level held
        exact ⟨ref, looked, _, member, rfl, origin⟩
      · exact earlier (fun same' => absurd same'.symm same) found held

theorem envPlanned_foldl (env : List (Nat × FunctionEnv)) {state : Planning}
    (isBase : state.context = base) (unplanned : base.envPlans = ∅) :
    EnvPlanned graph siteLevel base env (env.foldl (planFunction graph siteLevel) state) := by
  refine List.foldlRecOn env _ ?_ fun _ planned _ member => envPlanned_planFunction planned member
  have nothing : ∀ (function : Nat) (plan : EnvPlan),
      state.context.envPlans[function]? ≠ some plan := by
    intro function plan
    rw [isBase, unplanned, TreeMap.getElem?_emptyc]
    nofun
  exact ⟨by rw [isBase], fun function plan found => absurd found (nothing function plan),
    fun function plan _ _ found => absurd found (nothing function plan)⟩

end

theorem le_of_lookup_siteLevels {bound : Nat} {env : List (Nat × FunctionEnv)}
    (past : ∀ entry ∈ env, ∀ site ∈ entry.2.sites, bound ≤ site.2) {key : Nat × Nat} {level : Nat}
    (found : (siteLevels env).lookup key = some level) : bound ≤ level := by
  suffices ∀ key level, (siteLevels env).lookup key = some level → bound ≤ level from
    this key level found
  refine @List.foldlRecOn _ _ (fun levels : List ((Nat × Nat) × Nat) =>
    ∀ key level, levels.lookup key = some level → bound ≤ level) env _ _ nofun ?_
  intro levels high entry member
  refine @List.foldlRecOn _ _ (fun levels : List ((Nat × Nat) × Nat) =>
    ∀ key level, levels.lookup key = some level → bound ≤ level) entry.2.sites _ _ high ?_
  intro levels high site member' key level found
  rw [lookup_insertPair] at found
  split_ifs at found
  · cases found
    exact past entry member site member'
  · exact high key level found

theorem getElem?_foldl_erase {β : Type} (erased : List Nat) : ∀ (map : TreeMap Nat β) (key : Nat),
    (erased.foldl (fun map key => map.erase key) map)[key]? =
      if key ∈ erased then none else map[key]? := by
  induction erased with
  | nil => exact fun map key => (if_neg not_mem_nil).symm
  | cons first rest ih =>
    intro map key
    rw [foldl_cons, ih, TreeMap.getElem?_erase]
    simp only [Nat.compare_eq_eq, mem_cons, eq_comm (a := first)]
    by_cases here : key = first
    · simp [here]
    · simp [here]

/-- The parents have been installed: every function with a recorded parent as a child, and every
block environment an access is planned to reach under its name. The functions have ids below those
of the block environments. -/
structure Installs (planned : Planning) (env : List (Nat × FunctionEnv))
    (calls : List Installation) (functions : Nat) : Prop where
  children : ∀ child ref, planned.context.scopeParents[child]? = some ref →
    ∃ parent, parent ≠ child ∧ .child parent child ∈ calls
  blocks : ∀ key function level, planned.expected.lookup key = some (function, some level) →
    .block function level ∈ calls
  created : ∀ parent child, .child parent child ∈ calls → child < functions
  built : ∀ entry ∈ env, entry.1 < functions
  named : ∀ ref ref', planned.context.recordedParent ref = some ref' → ref'.1 < functions
  room : functions + (planned.context.installAll calls).blockScopes.length ≤ firstBlockScopeId

theorem planEnvLevels_planned (fresh : context.Fresh) (graph : ScopeGraph)
    (env : List (Nat × FunctionEnv)) (sites : List ((Nat × Nat) × Nat)) :
    ∃ base plans, Recorded context base ∧ EnvPlanned graph (siteLevels env) base env
        { planEnvLevels context graph env sites with
          context := { base with envPlans := plans } } ∧
      (planEnvLevels context graph env sites).context = { base with
        envPlans := plans
        envOffsets := plans.keys.foldl (fun offsets function => offsets.erase function)
          base.envOffsets } := by
  have recorded :=
    @recorded_parents context graph (siteLevels env) fresh graph.functionsCreated sites
  have planned := @envPlanned_foldl graph (siteLevels env) _ env
    (sites.foldl (Planning.parentOfBlock graph (siteLevels env))
      (graph.functionsCreated.foldl (Planning.parentOfFunction graph (siteLevels env))
        ⟨context, ∅, []⟩)) rfl (recorded.envPlans.trans fresh.envPlans)
  refine ⟨_, _, recorded, ⟨rfl, planned.shifts, planned.levels⟩, ?_⟩
  rw [planEnvLevels, planned.context]

theorem placed_of_no_blocks (noBlocks : context.blockScopes = [])
    (noLevels : context.blockLevel = ∅) : Placed context []:= by
  have noBlock : ∀ block, context.blockScopes.lookup block = none := by
    intro block
    rw [noBlocks]
    rfl
  have absent : ∀ {block : Nat × Nat} {id : Nat} {claim : Prop},
      context.blockScopes.lookup block = some id → claim :=
    fun {block id _} found => absurd (found.symm.trans (noBlock block)) (Option.some_ne_none id)
  constructor
  case range => exact fun _ _ => absent
  case injective => exact fun _ _ _ found _ => absent found
  case level => exact fun _ _ => absent
  case only =>
    intro id level found
    rw [noLevels, TreeMap.getElem?_emptyc] at found
    cases found
  case parent => exact fun _ _ _ => absent

/-- A planned level reaches, along the installed parents, the scope the graph resolves for the
access; every other access keeps the level the builder's shift gives it. -/
theorem plannedLevels_reach {context : ScopeContext} (fresh : context.Fresh) (graph : ScopeGraph)
    (env : List (Nat × FunctionEnv)) (sites : List ((Nat × Nat) × Nat))
    (past : ∀ entry ∈ env, ∀ site ∈ entry.2.sites, nestedEnvLevelBase ≤ site.2)
    (calls : List Installation) (functions : Nat)
    (installs : Installs (planEnvLevels context graph env sites) env calls functions) :
    (∀ function offset level,
      (planEnvLevels context graph env sites).context.plannedLevel function offset = some level →
        ∃ entry ∈ env, entry.1 = function ∧ ∃ access ∈ entry.2.accesses, access.1 = offset ∧
          ∃ scope id, graph.resolve function access.2.1 = some scope ∧
            ((planEnvLevels context graph env sites).context.installAll calls).slotOwner
              function level = some id ∧
            toRef (siteLevels env) scope = some
              (((planEnvLevels context graph env sites).context.installAll calls).scopeRef id)) ∧
    ∀ function offset raw,
      (planEnvLevels context graph env sites).context.plannedLevel function offset = none →
        (planEnvLevels context graph env sites).context.builtLevel function offset raw =
          EnvPlan.shifted (context.envOffset function) raw := by
  obtain ⟨base, plans, recorded, planned, isContext⟩ := planEnvLevels_planned fresh graph env sites
  obtain ⟨children, blocks, created, built, named, room⟩ := installs
  generalize planEnvLevels context graph env sites = result at *
  constructor
  · intro function offset level found
    have below : ∀ {function}, function < functions →
        Below function (result.context.installAll calls).blockScopes.length := by
      intro function small
      rw [Below]
      omega
    have installed : Installed result.context calls (result.context.installAll calls) := by
      refine installed_installAll calls ?_ ?_ ?_ (by omega) ?_ ?_
      · rw [isContext]
        exact placed_of_no_blocks (recorded.blockScopes.trans fresh.blockScopes)
          (recorded.blockLevel.trans fresh.blockLevel)
      · rw [isContext]
        exact recorded.noSelf
      · rw [isContext]
        exact recorded.noLoop
      · intro block function recorded
        exact below (named (block.1, some block.2) _ recorded)
      · exact fun parent child member => below (created parent child member)
    have ready : Ready result.context calls (result.context.installAll calls) :=
      ⟨children, fun ref ref' recorded => below (named ref ref' recorded)⟩
    obtain ⟨plan, held, levelled⟩ := Option.bind_eq_some_iff.mp found
    rw [isContext] at held
    obtain ⟨ref, expected, entry, member, rfl, access, through, rfl, scope, resolved, reached,
      asRef⟩ := planned.levels function plan offset level held levelled
    have sameParents : result.context.recordedParent = base.recordedParent := by
      rw [isContext]
      funext ref
      rcases ref with ⟨owner, _ | level⟩ <;> rfl
    rw [← levelFor_congr sameParents] at reached
    obtain ⟨id, owned, isRef⟩ := installed.slotOwner_of_levelFor ready
      (fun _ _ found => le_of_lookup_siteLevels past found) (below (built entry member)) asRef
      (fun builder atLevel same => blocks _ builder atLevel (same ▸ expected)) reached
    exact ⟨entry, member, rfl, access, through, rfl, scope, id, resolved, owned, isRef.symm ▸ asRef⟩
  · intro function offset raw unplanned
    have offsets : result.context.envOffset function =
        if function ∈ plans.keys then 0 else context.envOffset function := by
      rw [isContext, envOffset, getElem?_foldl_erase, recorded.envOffsets]
      split_ifs <;> rfl
    have isPlans : result.context.envPlans = plans := by rw [isContext]
    rw [plannedLevel, isPlans] at unplanned
    rw [builtLevel, offsets, isPlans]
    cases found : plans[function]? with
    | none =>
      rw [if_neg]
      rw [TreeMap.mem_keys, TreeMap.mem_iff_isSome_getElem?, found]
      nofun
    | some plan =>
      have member : function ∈ plans.keys :=
        TreeMap.mem_keys.mpr (TreeMap.mem_iff_isSome_getElem?.mpr (by rw [found]; rfl))
      rw [found] at unplanned
      have shift := planned.shifts function plan found
      have same : base.envOffset function = context.envOffset function := by
        rw [envOffset, recorded.envOffsets, envOffset]
      rw [if_pos member]
      dsimp only
      rw [EnvPlan.level, show plan.levels[offset]? = none from unplanned, Option.getD_none, shift,
        same]
      exact ite_self _

/-- Function 1 was created in function 0, with a block environment built on 0's own. -/
def createdInBlock : ScopeGraph where
  creations := (∅ : TreeMap Nat Known).insert 1 (.set [.created 0 5])
  builtOn := [((0, 5), some .own)]
  parked := []

/-- Function 1 loads from the environment past the block's, which the builder took for the next. -/
def createdInBlockEnv : List (Nat × FunctionEnv) :=
  [(0, ⟨[], [(5, 128)], []⟩), (1, ⟨[(7, .closure 2, 0, false)], [], [(7, 1)]⟩)]

/-- The load of function 1 is planned two levels up, past the block, where function 0 is. -/
theorem plannedLevels_reach_outer :
    ∃ scope id, createdInBlock.resolve 1 (.closure 2) = some scope ∧
      ((planEnvLevels .new createdInBlock createdInBlockEnv [((0, 5), 128)]).context.installAll
        [.child 0 1]).slotOwner 1 2 = some id ∧
      toRef (siteLevels createdInBlockEnv) scope = some
        (((planEnvLevels .new createdInBlock createdInBlockEnv [((0, 5), 128)]).context.installAll
          [.child 0 1]).scopeRef id) := by
  have parents : (planEnvLevels .new createdInBlock createdInBlockEnv
      [((0, 5), 128)]).context.scopeParents.toList = [(1, (0, some 128))] := by decide +kernel
  have blockParents : (planEnvLevels .new createdInBlock createdInBlockEnv
      [((0, 5), 128)]).context.blockParents = [((0, 128), (0, none))] := by decide +kernel
  have expected : (planEnvLevels .new createdInBlock createdInBlockEnv
      [((0, 5), 128)]).expected = [((1, 7), (0, none))] := by decide +kernel
  have onlyChild : ∀ {child ref}, (planEnvLevels .new createdInBlock createdInBlockEnv
      [((0, 5), 128)]).context.scopeParents[child]? = some ref →
        child = 1 ∧ ref = (0, some 128) := by
    intro child ref recorded
    rw [← TreeMap.mem_toList_iff_getElem?_eq_some, parents] at recorded
    exact Prod.mk.inj (mem_singleton.mp recorded)
  have installs : Installs (planEnvLevels .new createdInBlock createdInBlockEnv [((0, 5), 128)])
      createdInBlockEnv [.child 0 1] 2 := by
    constructor
    case children =>
      intro child ref recorded
      obtain ⟨rfl, -⟩ := onlyChild recorded
      exact ⟨0, by decide, mem_singleton.mpr rfl⟩
    case blocks =>
      intro key function level found
      rw [expected, lookup_cons_eq] at found
      split_ifs at found
      · cases found
      · cases found
    case created =>
      intro parent child member
      obtain ⟨-, rfl⟩ := Installation.child.inj (mem_singleton.mp member)
      decide
    case built => decide
    case named =>
      rintro ⟨function, _ | level⟩ ref' recorded
      · obtain ⟨-, rfl⟩ := onlyChild recorded
        decide
      · rw [recordedParent, blockParents, lookup_cons_eq] at recorded
        split_ifs at recorded
        · cases recorded
          decide
        · cases recorded
    case room => decide +kernel
  have fresh : Fresh .new := ⟨rfl, rfl, rfl, rfl, rfl⟩
  have reach := (plannedLevels_reach fresh createdInBlock createdInBlockEnv [((0, 5), 128)]
    (by decide) [.child 0 1] 2 installs).1 1 7 2 (by decide +kernel)
  obtain ⟨entry, member, isOne, access, through, -, scope, id, resolved, owned, asRef⟩ := reach
  rcases mem_pair.mp member with rfl | rfl
  · cases isOne
  · obtain rfl := mem_singleton.mp through
    exact ⟨scope, id, resolved, owned, asRef⟩

end ScopeContext

end HermesDecomp.Closure
