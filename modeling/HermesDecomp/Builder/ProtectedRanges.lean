import HermesDecomp.Builder.Blocks
import HermesDecomp.Write.Encode

/-!
# The blocks of a protected range

The blocks of a handler are those of its range that are there before the first instruction is
lowered. A block that is created later is not among them, and one that begins in the range is,
however far it goes.
-/

namespace HermesDecomp.Ir.Builder

open List
open ByteReader (between)

/-- Instructions stand one behind the other, each with a byte at least, below `2 ^ 32`. -/
def Following : Nat → List Instruction → Prop
  | _, [] => True
  | offset, inst :: rest =>
      inst.offset = offset ∧ 0 < inst.length ∧ offset + inst.length < 2 ^ 32 ∧
        Following (offset + inst.length) rest

theorem Following.le_of_mem {insts : List Instruction} :
    ∀ {offset : Nat}, Following offset insts → ∀ {inst}, inst ∈ insts → offset ≤ inst.offset := by
  induction insts with
  | nil => intro offset _ inst member; cases member
  | cons first rest hypothesis =>
    intro offset following inst member
    obtain ⟨rfl, positive, -, others⟩ := following
    rcases mem_cons.mp member with rfl | later
    · exact le_refl _
    · exact Nat.le_trans (Nat.le_add_right _ _) (hypothesis others later)

/-- The offsets a result goes to. -/
def targetsOf : FlowResult → List Nat
  | .jump target => [target]
  | .branch _ target fallthrough => [target, fallthrough]
  | .switch _ default cases => default :: cases.map Prod.snd
  | _ => []

/-- There is one block for each of the known offsets. -/
structure Maps (known : List Nat) (cfg : Cfg) (offsetToBlock : OrdMap BlockId) : Prop where
  keys : ∀ offset, (∃ id, offsetToBlock.get? offset = some id) ↔ offset ∈ known
  below : ∀ {offset id}, offsetToBlock.get? offset = some id → id < cfg.blocks.length
  injective : ∀ {offset other id}, offsetToBlock.get? offset = some id →
    offsetToBlock.get? other = some id → offset = other
  ordered : OrdMap.Ordered offsetToBlock

/-- A new block has an identifier of its own. -/
theorem Maps.insert {known : List Nat} {cfg : Cfg} {offsetToBlock : OrdMap BlockId}
    (maps : Maps known cfg offsetToBlock) (offset : Nat) :
    Maps (known ++ [offset]) (createBlock cfg).2
      (offsetToBlock.insert offset (createBlock cfg).1) where
  keys other := by
    by_cases same : other = offset
    · subst same
      simp [OrdMap.get?_insert_self]
    · simp [OrdMap.get?_insert_of_ne same, maps.keys, same]
  below {other id} found := by
    rw [createBlock, length_append, length_singleton]
    by_cases same : other = offset
    · subst same
      rw [OrdMap.get?_insert_self] at found
      exact Nat.lt_succ_of_le (le_of_eq (Option.some.inj found).symm)
    · rw [OrdMap.get?_insert_of_ne same] at found
      exact Nat.lt_succ_of_lt (maps.below found)
  injective {first second id} foundFirst foundSecond := by
    have fresh : ∀ {other}, offsetToBlock.get? other ≠ some (createBlock cfg).1 :=
      fun found => lt_irrefl _ (maps.below found)
    by_cases atFirst : first = offset <;> by_cases atSecond : second = offset
    · exact atFirst.trans atSecond.symm
    · subst atFirst
      rw [OrdMap.get?_insert_self] at foundFirst
      rw [OrdMap.get?_insert_of_ne atSecond, ← foundFirst] at foundSecond
      exact absurd foundSecond fresh
    · subst atSecond
      rw [OrdMap.get?_insert_self] at foundSecond
      rw [OrdMap.get?_insert_of_ne atFirst, ← foundSecond] at foundFirst
      exact absurd foundFirst fresh
    · rw [OrdMap.get?_insert_of_ne atFirst] at foundFirst
      rw [OrdMap.get?_insert_of_ne atSecond] at foundSecond
      exact maps.injective foundFirst foundSecond
  ordered := maps.ordered.insert offset _

/-- Only the offsets themselves and the number of blocks matter. -/
theorem Maps.congr {known known' : List Nat} {cfg cfg' : Cfg} {offsetToBlock : OrdMap BlockId}
    (maps : Maps known cfg offsetToBlock) (same : ∀ offset, offset ∈ known' ↔ offset ∈ known)
    (length : cfg'.blocks.length = cfg.blocks.length) : Maps known' cfg' offsetToBlock where
  keys offset := (maps.keys offset).trans (same offset).symm
  below found := length ▸ maps.below found
  injective := maps.injective
  ordered := maps.ordered

/-- Create the blocks at some offsets that have none. -/
def createAll (building : Building) (offsets : List Nat) : Building :=
  offsets.foldl (fun building offset => (getOrCreateBlock building offset).2) building

theorem getOrCreateBlock_keeps {building : Building} {offset other : Nat} {id : BlockId}
    (found : building.offsetToBlock.get? other = some id) :
    (getOrCreateBlock building offset).2.offsetToBlock.get? other = some id := by
  unfold getOrCreateBlock
  split
  case h_1 => exact found
  case h_2 missing =>
    have different : other ≠ offset := by
      rintro rfl
      rw [missing] at found
      cases found
    exact (OrdMap.get?_insert_of_ne different ..).trans found

theorem getOrCreateBlock_maps {known : List Nat} {building : Building}
    (maps : Maps known building.cfg building.offsetToBlock) (offset : Nat) :
    Maps (known ++ [offset]) (getOrCreateBlock building offset).2.cfg
      (getOrCreateBlock building offset).2.offsetToBlock := by
  unfold getOrCreateBlock
  split
  case h_1 id found =>
    refine maps.congr (fun other => ?_) rfl
    have there : offset ∈ known := (maps.keys offset).mp ⟨id, found⟩
    rw [mem_append, mem_singleton]
    constructor
    · rintro (known | rfl)
      · exact known
      · exact there
    · exact Or.inl
  case h_2 => exact maps.insert offset

theorem getOrCreateBlock_frame (building : Building) (offset : Nat) :
    (getOrCreateBlock building offset).2.currentBlock = building.currentBlock ∧
      (getOrCreateBlock building offset).2.cfg.exceptionHandlers =
        building.cfg.exceptionHandlers := by
  unfold getOrCreateBlock
  split <;> exact ⟨rfl, rfl⟩

theorem createAll_keeps (offsets : List Nat) :
    ∀ {building : Building} {other : Nat} {id : BlockId},
      building.offsetToBlock.get? other = some id →
        (createAll building offsets).offsetToBlock.get? other = some id := by
  induction offsets with
  | nil => intro building other id found; exact found
  | cons offset rest hypothesis =>
    intro building other id found
    exact hypothesis (getOrCreateBlock_keeps found)

theorem createAll_maps (offsets : List Nat) :
    ∀ {known : List Nat} {building : Building},
      Maps known building.cfg building.offsetToBlock →
        Maps (known ++ offsets) (createAll building offsets).cfg
          (createAll building offsets).offsetToBlock := by
  induction offsets with
  | nil =>
    intro known building maps
    rw [append_nil]
    exact maps
  | cons offset rest hypothesis =>
    intro known building maps
    rw [append_cons]
    exact hypothesis (getOrCreateBlock_maps maps offset)

theorem createAll_frame (offsets : List Nat) :
    ∀ building : Building, (createAll building offsets).currentBlock = building.currentBlock ∧
      (createAll building offsets).cfg.exceptionHandlers = building.cfg.exceptionHandlers := by
  induction offsets with
  | nil => intro building; exact ⟨rfl, rfl⟩
  | cons offset rest hypothesis =>
    intro building
    obtain ⟨sameBlock, sameHandlers⟩ := hypothesis (getOrCreateBlock building offset).2
    obtain ⟨before, earlier⟩ := getOrCreateBlock_frame building offset
    exact ⟨sameBlock.trans before, sameHandlers.trans earlier⟩

theorem caseBlocks_snd (cases : List (Expression × Nat)) :
    ∀ building, (caseBlocks cases building).2 = createAll building (cases.map Prod.snd) := by
  induction cases with
  | nil => intro building; rfl
  | cons first rest hypothesis =>
    intro building
    exact hypothesis (getOrCreateBlock building first.2).2

theorem length_modifyBlock (block : BlockId) (change : BasicBlock → BasicBlock) (cfg : Cfg) :
    (modifyBlock block change cfg).blocks.length = cfg.blocks.length :=
  length_modify ..

/-- Closing a block changes no identifier. -/
theorem closeBlock_frame (terminator : Terminator) (building : Building) :
    (closeBlock terminator building).offsetToBlock = building.offsetToBlock ∧
      (closeBlock terminator building).cfg.blocks.length = building.cfg.blocks.length ∧
        (closeBlock terminator building).cfg.exceptionHandlers =
          building.cfg.exceptionHandlers := by
  refine ⟨rfl, ?_, rfl⟩
  rw [closeBlock, setTerminator, setBlockStmts, length_modifyBlock, length_modifyBlock]

/-- What an instruction is lowered to creates the blocks it goes to, and no others. -/
theorem place_frame (result : FlowResult) (building : Building) :
    (place result building).offsetToBlock = (createAll building (targetsOf result)).offsetToBlock ∧
      (place result building).cfg.blocks.length =
          (createAll building (targetsOf result)).cfg.blocks.length ∧
        (place result building).cfg.exceptionHandlers = building.cfg.exceptionHandlers := by
  have sameHandlers := (createAll_frame (targetsOf result) building).2
  cases result with
  | statement statement => cases statement <;> exact ⟨rfl, rfl, rfl⟩
  | noop => exact ⟨rfl, rfl, rfl⟩
  | jump target =>
    obtain ⟨map, length, handlers⟩ := closeBlock_frame
      (.jump (getOrCreateBlock building target).1) (getOrCreateBlock building target).2
    exact ⟨map, length, handlers.trans sameHandlers⟩
  | branch condition target fallthrough =>
    obtain ⟨map, length, handlers⟩ := closeBlock_frame
      (.branch condition (getOrCreateBlock building target).1
        (getOrCreateBlock (getOrCreateBlock building target).2 fallthrough).1)
      (getOrCreateBlock (getOrCreateBlock building target).2 fallthrough).2
    exact ⟨map, length, handlers.trans sameHandlers⟩
  | returns value => exact closeBlock_frame (.returnTerm value) building
  | throws value => exact closeBlock_frame (.throwTerm value) building
  | switch value default cases =>
    have created := caseBlocks_snd cases (getOrCreateBlock building default).2
    obtain ⟨map, length, handlers⟩ := closeBlock_frame
      (.switch value (caseBlocks cases (getOrCreateBlock building default).2).1
        (getOrCreateBlock building default).1)
      (caseBlocks cases (getOrCreateBlock building default).2).2
    exact ⟨map.trans (congrArg Building.offsetToBlock created),
      length.trans (congrArg (fun building => building.cfg.blocks.length) created),
      handlers.trans ((congrArg (fun building => building.cfg.exceptionHandlers) created).trans
        sameHandlers)⟩

/-- The block that is open behind an instruction: the one before it, or the one behind a branch. -/
theorem place_currentBlock (result : FlowResult) (building : Building) :
    (place result building).currentBlock = building.currentBlock ∨
      ∃ condition target fallthrough, result = .branch condition target fallthrough := by
  cases result with
  | statement statement => cases statement <;> exact .inl rfl
  | noop | returns | throws => exact .inl rfl
  | jump target => exact .inl (getOrCreateBlock_frame building target).1
  | branch condition target fallthrough => exact .inr ⟨condition, target, fallthrough, rfl⟩
  | switch value default cases =>
    have created := caseBlocks_snd cases (getOrCreateBlock building default).2
    have same : (caseBlocks cases (getOrCreateBlock building default).2).2.currentBlock =
        building.currentBlock := by
      rw [created, (createAll_frame _ _).1, (getOrCreateBlock_frame building default).1]
    exact .inl same

theorem openBlock_frame (inst : Instruction) (building : Building) :
    (openBlock inst building).offsetToBlock = building.offsetToBlock ∧
      (openBlock inst building).cfg.blocks.length = building.cfg.blocks.length ∧
        (openBlock inst building).cfg.exceptionHandlers = building.cfg.exceptionHandlers := by
  unfold openBlock
  split
  case h_1 => exact ⟨rfl, rfl, rfl⟩
  case h_2 id found =>
    split
    · exact ⟨rfl, rfl, rfl⟩
    · refine ⟨rfl, ?_, rfl⟩
      dsimp only
      rw [finalizeBlock, length_modifyBlock]

/-- An instruction opens the block that begins at it, if there is one. -/
theorem openBlock_currentBlock (inst : Instruction) (building : Building) :
    (openBlock inst building).currentBlock =
      (building.offsetToBlock.get? inst.offset).getD building.currentBlock := by
  unfold openBlock
  split
  case h_1 missing => rw [missing, Option.getD_none]
  case h_2 id found =>
    rw [found, Option.getD_some]
    split
    · exact Eq.symm ‹_›
    · rfl

variable (options : IRBuilderOptions)

theorem lowerInstruction_keeps {building : Building} (lowered : Instruction × FlowResult)
    {offset : Nat} {id : BlockId} (found : building.offsetToBlock.get? offset = some id) :
    (lowerInstruction options building lowered).offsetToBlock.get? offset = some id := by
  have opened : (openBlock lowered.1 building).offsetToBlock.get? offset = some id := by
    rw [(openBlock_frame _ _).1, found]
  rw [lowerInstruction, (place_frame _ _).1]
  exact createAll_keeps _ opened

theorem lowerInstruction_maps {known : List Nat} {building : Building}
    (maps : Maps known building.cfg building.offsetToBlock) (lowered : Instruction × FlowResult) :
    Maps (known ++ (targetsOf lowered.2)) (lowerInstruction options building lowered).cfg
      (lowerInstruction options building lowered).offsetToBlock := by
  obtain ⟨sameMap, sameLength, -⟩ := openBlock_frame lowered.1 building
  have opened : Maps known (openBlock lowered.1 building).cfg
      (openBlock lowered.1 building).offsetToBlock :=
    sameMap ▸ maps.congr (fun _ => Iff.rfl) sameLength
  have created := @createAll_maps (targetsOf lowered.2) known
    { openBlock lowered.1 building with
      currentStmts := (openBlock lowered.1 building).currentStmts ++
        (remark options lowered.1).toList } opened
  obtain ⟨map, length, -⟩ := place_frame lowered.2
    { openBlock lowered.1 building with
      currentStmts := (openBlock lowered.1 building).currentStmts ++
        (remark options lowered.1).toList }
  rw [lowerInstruction, map]
  exact created.congr (fun _ => Iff.rfl) length

theorem lowerInstruction_handlers (building : Building) (lowered : Instruction × FlowResult) :
    (lowerInstruction options building lowered).cfg.exceptionHandlers =
      building.cfg.exceptionHandlers :=
  (place_frame _ _).2.2.trans (openBlock_frame _ _).2.2

section

variable (lowered : List (Instruction × FlowResult))

theorem foldl_keeps :
    ∀ {building : Building} {offset : Nat} {id : BlockId},
      building.offsetToBlock.get? offset = some id →
        (lowered.foldl (lowerInstruction options) building).offsetToBlock.get? offset = some id := by
  induction lowered with
  | nil => intro building offset id found; exact found
  | cons first rest hypothesis =>
    intro building offset id found
    exact hypothesis (lowerInstruction_keeps options first found)

theorem foldl_maps :
    ∀ {known : List Nat} {building : Building},
      Maps known building.cfg building.offsetToBlock →
        Maps (known ++ lowered.flatMap fun each => targetsOf each.2)
          (lowered.foldl (lowerInstruction options) building).cfg
          (lowered.foldl (lowerInstruction options) building).offsetToBlock := by
  induction lowered with
  | nil =>
    intro known building maps
    rw [flatMap_nil, append_nil]
    exact maps
  | cons first rest hypothesis =>
    intro known building maps
    rw [flatMap_cons, ← append_assoc]
    exact hypothesis (lowerInstruction_maps options maps first)

theorem foldl_handlers :
    ∀ building : Building,
      (lowered.foldl (lowerInstruction options) building).cfg.exceptionHandlers =
        building.cfg.exceptionHandlers := by
  induction lowered with
  | nil => intro building; rfl
  | cons first rest hypothesis =>
    intro building
    exact (hypothesis _).trans (lowerInstruction_handlers options building first)

end

/-- Each instruction with the offset its block begins at: the last one before it that is known when
it is lowered. -/
def runStarts : (known : List Nat) → (current : Nat) → List (Instruction × FlowResult) →
    List (Nat × Nat)
  | _, _, [] => []
  | known, current, (inst, result) :: rest =>
      let start := if inst.offset ∈ known then inst.offset else current
      (inst.offset, start) :: runStarts (known ++ targetsOf result) start rest

/-- Each instruction with the block it is put into. -/
def placements : Building → List (Instruction × FlowResult) → List (Nat × BlockId)
  | _, [] => []
  | building, lowered :: rest =>
      (lowered.1.offset, (openBlock lowered.1 building).currentBlock) ::
        placements (lowerInstruction options building lowered) rest

/-- Every branch goes on behind its instruction. -/
def FallsThrough (lowered : List (Instruction × FlowResult)) : Prop :=
  ∀ each ∈ lowered, ∀ condition target fallthrough,
    each.2 = .branch condition target fallthrough → fallthrough = fallthroughOf each.1

theorem Dispatch.fallsThrough (dispatch : Dispatch) (insts : List Instruction) :
    ∀ environments, FallsThrough (dispatch.lowered environments insts) := by
  induction insts with
  | nil => intro environments each member; cases member
  | cons inst rest hypothesis =>
    intro environments each member
    rcases mem_cons.mp member with rfl | later
    · exact dispatch.fallthrough environments inst
    · exact hypothesis _ each later

theorem Dispatch.map_fst_lowered (dispatch : Dispatch) (insts : List Instruction) :
    ∀ environments, (dispatch.lowered environments insts).map Prod.fst = insts := by
  induction insts with
  | nil => intro environments; rfl
  | cons inst rest hypothesis =>
    intro environments
    exact congrArg (inst :: ·) (hypothesis _)

/-- An instruction is put into the block that begins where its run does. -/
theorem placements_eq (lowered : List (Instruction × FlowResult)) :
    ∀ {known : List Nat} {building : Building} {current offset : Nat},
      Maps known building.cfg building.offsetToBlock →
        Following offset (lowered.map Prod.fst) → FallsThrough lowered →
          (offset ∉ known → building.offsetToBlock.get? current = some building.currentBlock) →
            (placements options building lowered).map (fun place => (place.1, some place.2)) =
              (runStarts known current lowered).map fun place => (place.1,
                (lowered.foldl (lowerInstruction options) building).offsetToBlock.get? place.2) := by
  induction lowered with
  | nil => intros; rfl
  | cons first rest hypothesis =>
    intro known building current offset maps following falls here
    obtain ⟨inst, result⟩ := first
    obtain ⟨rfl, -, small, others⟩ := following
    have opened : building.offsetToBlock.get?
        (if inst.offset ∈ known then inst.offset else current) =
          some (openBlock inst building).currentBlock := by
      rw [openBlock_currentBlock]
      split
      case isTrue inside =>
        obtain ⟨id, found⟩ := (maps.keys inst.offset).mpr inside
        rw [found, Option.getD_some]
      case isFalse outside =>
        have missing : building.offsetToBlock.get? inst.offset = none := by
          by_contra present
          exact outside ((maps.keys _).mp (Option.ne_none_iff_exists'.mp present))
        rw [missing, Option.getD_none, here outside]
    have kept := lowerInstruction_keeps options (inst, result) opened
    have behind : inst.offset + inst.length ∉ known ++ targetsOf result →
        (lowerInstruction options building (inst, result)).offsetToBlock.get?
          (if inst.offset ∈ known then inst.offset else current) =
            some (lowerInstruction options building (inst, result)).currentBlock := by
      intro outside
      rcases place_currentBlock result { openBlock inst building with
          currentStmts := (openBlock inst building).currentStmts ++
            (remark options inst).toList } with same | ⟨condition, target, fallthrough, rfl⟩
      · exact kept.trans (congrArg some same.symm)
      · have next := falls _ mem_cons_self condition target fallthrough rfl
        have inside : inst.offset + inst.length ∈
            targetsOf (.branch condition target fallthrough) := by
          rw [next, fallthroughOf, Nat.mod_eq_of_lt small]
          exact mem_cons_of_mem _ mem_cons_self
        exact absurd (mem_append_right known inside) outside
    have later := hypothesis (lowerInstruction_maps options maps (inst, result)) others
      (fun each member => falls each (mem_cons_of_mem _ member)) behind
    have final := foldl_keeps options rest kept
    rw [placements, runStarts, map_cons, map_cons, later, foldl_cons, final]

end HermesDecomp.Ir.Builder

namespace HermesDecomp.Ir.Builder

open List

section

variable (lowered : List (Instruction × FlowResult))

/-- No instruction is in front of its run. -/
theorem start_le_of_mem_runStarts :
    ∀ {known : List Nat} {current offset : Nat}, Following offset (lowered.map Prod.fst) →
      current ≤ offset → ∀ place ∈ runStarts known current lowered, place.2 ≤ place.1 := by
  induction lowered with
  | nil => intro known current offset _ _ place member; cases member
  | cons first rest hypothesis =>
    intro known current offset following reached place member
    obtain ⟨inst, result⟩ := first
    obtain ⟨rfl, -, -, others⟩ := following
    have starts : (if inst.offset ∈ known then inst.offset else current) ≤ inst.offset := by
      split
      · exact le_refl _
      · exact reached
    rcases mem_cons.mp member with rfl | later
    · exact starts
    · exact hypothesis others (Nat.le_trans starts (Nat.le_add_right _ _)) place later

/-- A run begins with an instruction of its own, unless it was begun before. -/
theorem start_mem_runStarts :
    ∀ {known : List Nat} {current : Nat}, ∀ place ∈ runStarts known current lowered,
      place.2 = current ∨ (place.2, place.2) ∈ runStarts known current lowered := by
  induction lowered with
  | nil => intro known current place member; cases member
  | cons first rest hypothesis =>
    intro known current place member
    obtain ⟨inst, result⟩ := first
    rw [runStarts] at member ⊢
    by_cases begins : inst.offset ∈ known
    · rw [if_pos begins] at member ⊢
      rcases mem_cons.mp member with rfl | later
      · exact .inr mem_cons_self
      · rcases hypothesis place later with same | inside
        · exact .inr (same ▸ mem_cons_self)
        · exact .inr (mem_cons_of_mem _ inside)
    · rw [if_neg begins] at member ⊢
      rcases mem_cons.mp member with rfl | later
      · exact .inl rfl
      · exact (hypothesis place later).imp_right (mem_cons_of_mem _)

/-- A run begins at every instruction with a known offset. -/
theorem mem_runStarts_of_known :
    ∀ {known : List Nat} {current : Nat}, ∀ inst ∈ lowered.map Prod.fst, inst.offset ∈ known →
      (inst.offset, inst.offset) ∈ runStarts known current lowered := by
  induction lowered with
  | nil => intro known current inst member; cases member
  | cons first rest hypothesis =>
    intro known current inst member begins
    obtain ⟨first, result⟩ := first
    rw [runStarts]
    rcases mem_cons.mp member with rfl | later
    · rw [if_pos begins]
      exact mem_cons_self
    · exact mem_cons_of_mem _ (hypothesis inst later (mem_append_left _ begins))

end

theorem foldl_addLeader_maps {firstOffset : Nat} (offsets : List Nat) :
    ∀ {known : List Nat} {blocks : Cfg × OrdMap BlockId}, Maps known blocks.1 blocks.2 →
      blocks.2.get? firstOffset = some blocks.1.entry →
        Maps (known ++ offsets) (offsets.foldl (addLeader firstOffset) blocks).1
            (offsets.foldl (addLeader firstOffset) blocks).2 ∧
          (offsets.foldl (addLeader firstOffset) blocks).2.get? firstOffset =
            some (offsets.foldl (addLeader firstOffset) blocks).1.entry := by
  induction offsets with
  | nil =>
    intro known blocks maps entry
    rw [append_nil]
    exact ⟨maps, entry⟩
  | cons offset rest hypothesis =>
    intro known blocks maps entry
    rw [append_cons, foldl_cons]
    by_cases atFirst : offset = firstOffset
    · have unchanged : addLeader firstOffset blocks offset = blocks :=
        if_neg (not_not_intro atFirst)
      have there : offset ∈ known := (maps.keys offset).mp ⟨_, atFirst ▸ entry⟩
      rw [unchanged]
      refine hypothesis (maps.congr (fun other => ?_) rfl) entry
      rw [mem_append, mem_singleton]
      constructor
      · rintro (inside | rfl)
        · exact inside
        · exact there
      · exact Or.inl
    · have added : addLeader firstOffset blocks offset =
          ((createBlock blocks.1).2, blocks.2.insert offset (createBlock blocks.1).1) :=
        if_pos atFirst
      rw [added]
      refine hypothesis (maps.insert offset) ?_
      exact (OrdMap.get?_insert_of_ne (fun same => atFirst same.symm) ..).trans entry

theorem initialBlocks_maps (firstOffset : Nat) (blockStarts : List Nat) :
    Maps (firstOffset :: blockStarts) (initialBlocks firstOffset blockStarts).1
        (initialBlocks firstOffset blockStarts).2 ∧
      (initialBlocks firstOffset blockStarts).2.get? firstOffset =
        some (initialBlocks firstOffset blockStarts).1.entry := by
  refine @foldl_addLeader_maps _ blockStarts [firstOffset] _ ?_ (OrdMap.get?_insert_self ..)
  have start : Maps [] ⟨0, [], []⟩ [] :=
    ⟨by simp [OrdMap.get?], by simp [OrdMap.get?], by simp [OrdMap.get?], List.Pairwise.nil⟩
  exact start.insert firstOffset

/-- All instructions that are put into a block lie in a range, and there is one. -/
def Within (placed : List (Nat × BlockId)) (start finish : Nat) (block : BlockId) : Prop :=
  (∃ offset, (offset, block) ∈ placed) ∧
    ∀ offset, (offset, block) ∈ placed → start ≤ offset ∧ offset < finish

theorem mem_tryBlocks {insts : List Instruction} {format : BytecodeFormat}
    {offsetToBlock : OrdMap BlockId} {handler : ExceptionHandler} {kept : CfgExceptionHandler}
    (ordered : OrdMap.Ordered offsetToBlock)
    (found : protectedRange insts format offsetToBlock handler = some kept) (block : BlockId) :
    block ∈ kept.tryBlocks ↔ ∃ offset, offsetToBlock.get? offset = some block ∧
      handler.start ≤ offset ∧ offset < handler.finish := by
  unfold protectedRange at found
  split at found
  case isTrue => cases found
  case isFalse =>
    split at found
    case isTrue => cases found
    case isFalse =>
      obtain ⟨tryStart, -, found⟩ := Option.bind_eq_some_iff.mp found
      obtain ⟨catchBlock, -, made⟩ := Option.bind_eq_some_iff.mp found
      cases made
      simp only [mem_map, mem_filter, Bool.and_eq_true, decide_eq_true_eq, Prod.exists,
        exists_eq_right, ordered.mem_iff]
      refine exists_congr fun offset => and_congr_right fun _ => and_congr_right fun reached => ?_
      omega

section

variable {runs : List (Nat × Nat)} {placed : List (Nat × BlockId)}
  {leaders : List Nat} {initial final : OrdMap BlockId} {cfg cfg' : Cfg}

section

variable
  (agree : placed.map (fun place => (place.1, some place.2)) = runs.map fun place => (place.1, final.get? place.2))

include agree

/-- An instruction is in the block of its run. -/
theorem mem_placed_iff (offset : Nat) (block : BlockId) :
    (offset, block) ∈ placed ↔
      ∃ start, (offset, start) ∈ runs ∧ final.get? start = some block := by
  have both : (offset, some block) ∈ placed.map (fun place => (place.1, some place.2)) ↔
      (offset, some block) ∈ runs.map fun place => (place.1, final.get? place.2) := by
    rw [agree]
  simpa using both

/-- The blocks of a range are those that lie in it exactly where every run that begins in it begins
at a leader if and only if it ends in it. -/
theorem tryBlocks_iff {handler : ExceptionHandler} {tryBlocks : List BlockId} {known : List Nat}
    (listed : ∀ block, block ∈ tryBlocks ↔ ∃ offset, initial.get? offset = some block ∧ handler.start ≤ offset ∧ offset < handler.finish)
    (before : Maps leaders cfg initial) (behind : Maps known cfg' final)
    (keeps : ∀ offset id, initial.get? offset = some id → final.get? offset = some id)
    (begins : ∀ place ∈ runs, place.2 ≤ place.1 ∧ (place.2, place.2) ∈ runs)
    (covers : ∀ leader ∈ leaders, (leader, leader) ∈ runs) :
    (∀ block, block ∈ tryBlocks ↔ Within placed handler.start handler.finish block) ↔
      ∀ start, (start, start) ∈ runs → handler.start ≤ start → start < handler.finish →
        (start ∈ leaders ↔ ∀ offset, (offset, start) ∈ runs → offset < handler.finish) := by
  have inRun : ∀ {start block}, final.get? start = some block →
      ∀ offset, (offset, block) ∈ placed ↔ (offset, start) ∈ runs := by
    intro start block found offset
    rw [mem_placed_iff agree]
    constructor
    · rintro ⟨other, inside, same⟩
      exact behind.injective same found ▸ inside
    · intro inside
      exact ⟨start, inside, found⟩
  have blockOf : ∀ start, (start, start) ∈ runs → ∃ block, final.get? start = some block := by
    intro start inside
    have member : (start, final.get? start) ∈ placed.map fun place => (place.1, some place.2) := by
      rw [agree]
      exact mem_map_of_mem inside
    obtain ⟨place, -, same⟩ := mem_map.mp member
    exact ⟨place.2, (congrArg Prod.snd same).symm⟩
  have initially : ∀ {start block}, final.get? start = some block →
      (block ∈ tryBlocks ↔ start ∈ leaders ∧ handler.start ≤ start ∧ start < handler.finish) := by
    intro start block found
    rw [listed]
    constructor
    · rintro ⟨offset, there, reached, early⟩
      obtain rfl := behind.injective (keeps offset block there) found
      exact ⟨(before.keys offset).mp ⟨block, there⟩, reached, early⟩
    · rintro ⟨leader, reached, early⟩
      obtain ⟨id, there⟩ := (before.keys start).mpr leader
      obtain rfl := Option.some.inj ((keeps start id there).symm.trans found)
      exact ⟨start, there, reached, early⟩
  constructor
  · intro same start inside reached early
    obtain ⟨block, found⟩ := blockOf start inside
    have both := (initially found).symm.trans (same block)
    constructor
    · intro leader offset placedIn
      have within := both.mp ⟨leader, reached, early⟩
      exact (within.2 offset ((inRun found offset).mpr placedIn)).2
    · intro ends
      refine (both.mpr ⟨⟨start, (inRun found start).mpr inside⟩, ?_⟩).1
      intro offset placedIn
      have member := (inRun found offset).mp placedIn
      exact ⟨le_trans reached (begins _ member).1, ends offset member⟩
  · intro complete block
    constructor
    · intro tried
      obtain ⟨start, there, reached, early⟩ := (listed block).mp tried
      have found := keeps start block there
      have leader := (before.keys start).mp ⟨block, there⟩
      have inside := covers start leader
      have ends := (complete start inside reached early).mp leader
      refine ⟨⟨start, (inRun found start).mpr inside⟩, ?_⟩
      intro offset placedIn
      have member := (inRun found offset).mp placedIn
      exact ⟨le_trans reached (begins _ member).1, ends offset member⟩
    · rintro ⟨⟨offset, placedIn⟩, bounds⟩
      obtain ⟨start, member, found⟩ := (mem_placed_iff agree offset block).mp placedIn
      have inside := (begins _ member).2
      obtain ⟨reached, early⟩ := bounds start ((inRun found start).mpr inside)
      refine (initially found).mpr ⟨(complete start inside reached early).mpr ?_, reached, early⟩
      intro other otherIn
      exact (bounds other ((inRun found other).mpr otherIn)).2

end

end

end HermesDecomp.Ir.Builder
