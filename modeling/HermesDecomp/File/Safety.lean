import HermesDecomp.DebugSafety
import HermesDecomp.File.Parsing

/-!
# Reading the sections without a panic

Header, tables and handlers are read without a panic from every byte string that
an address space holds. The positions that later reads follow stay small: the
bytecode starts inside the image and a function's info at a 32-bit offset.
-/

namespace HermesDecomp.Parser

open Reader Action

section Sections

variable {bytes : Bytes}

theorem safe_trackSection {α : Type} (name : SectionName) (entries : Option Nat) {parse : Reader α}
    (safe : SafeOn (Addressable bytes) parse) :
    SafeOn (Addressable bytes) (trackSection name entries parse) :=
  safe_bind safe_position fun _ => safe_bind safe fun _ =>
    safe_bind (safe_align (by decide)) fun _ => safe_bind safe_position fun _ => safe_pure _

theorem safe_trackWhen {α : Type} (name : SectionName) (count : Option Nat) (absent : α)
    (entries : Nat → Option Nat) {parse : Nat → Reader α}
    (safe : ∀ count, SafeOn (Addressable bytes) (parse count)) :
    SafeOn (Addressable bytes) (trackWhen name count absent entries parse) := by
  cases count with
  | some count => exact safe_bind (safe_trackSection _ _ (safe count)) fun _ => safe_pure _
  | none => exact safe_pure _

theorem safe_parseCommonTables (header : BytecodeHeader) :
    SafeOn (Addressable bytes) (parseCommonTables header) :=
  safe_bind (safe_trackSection _ _ (safe_parseFunctionHeaders header)) fun _ =>
    safe_bind (safe_trackSection _ _ (safe_parseStringKinds _)) fun _ =>
    safe_bind (safe_trackSection _ _ (safe_parseU32Vec _)) fun _ =>
    safe_bind (safe_trackSection _ _ (safe_parseU32Vec _)) fun _ =>
    safe_bind (safe_trackSection _ _ (safe_parsePairTable _)) fun _ =>
    safe_bind (safe_trackSection _ _ (safe_readExact _)) fun _ => safe_pure _

theorem safe_parseBigInts (header : BytecodeHeader) :
    SafeOn (Addressable bytes) (parseBigInts header) := by
  unfold parseBigInts
  split
  · exact safe_bind (safe_trackSection _ _ (safe_parseTableEntries _)) fun _ =>
      safe_bind (safe_trackSection _ _ (safe_readExact _)) fun _ => safe_pure _
  · exact safe_pure _

theorem safe_parseBuffers (header : BytecodeHeader) :
    SafeOn (Addressable bytes) (parseBuffers header) := by
  unfold parseBuffers
  split
  · exact safe_bind (safe_trackWhen _ _ _ _ safe_readExact) fun _ =>
      safe_bind (safe_trackSection _ _ (safe_readExact _)) fun _ =>
      safe_bind (safe_trackWhen _ _ _ _ safe_readExact) fun _ =>
      safe_bind (safe_parseBigInts header) fun _ => safe_pure _
  · exact safe_bind (safe_trackWhen _ _ _ _ safe_readExact) fun _ =>
      safe_bind (safe_trackSection _ _ (safe_readExact _)) fun _ =>
      safe_bind (safe_trackWhen _ _ _ _ safe_parseShapeTable) fun _ =>
      safe_bind (safe_parseBigInts header) fun _ => safe_pure _

theorem safe_parseTrailing (header : BytecodeHeader) :
    SafeOn (Addressable bytes) (parseTrailing header) :=
  safe_bind (safe_trackSection _ _ (safe_parseTableEntries _)) fun _ =>
    safe_bind (safe_trackSection _ _ (safe_readExact _)) fun _ =>
    safe_bind (safe_trackSection _ _ (safe_parsePairTable _)) fun _ =>
    safe_bind (safe_trackWhen _ _ _ _ safe_parsePairTable) fun _ =>
    safe_bind safe_position fun _ => safe_pure _

theorem safe_parseHeader (layout : HeaderLayout) (functionLayout : FunctionHeaderLayout) :
    SafeOn (Addressable bytes) (parseHeader layout functionLayout) := by
  refine safe_bind safe_readU64 fun magic => safe_ite (fun _ => safe_fail _) fun _ => ?_
  refine safe_bind safe_readU32 fun version => safe_bind (safe_readExact _) fun sourceHash => ?_
  cases layout with
  | legacy => exact safe_bind (safe_parseLegacyHeader _ _ _) fun _ => safe_pure _
  | modern => exact safe_bind (safe_parseModernHeader _ _ _) fun _ => safe_pure _

theorem safe_parseFront (layout : HeaderLayout) (functionLayout : FunctionHeaderLayout) :
    SafeOn (Addressable bytes) (parseFront layout functionLayout) :=
  safe_bind (safe_parseHeader layout functionLayout) fun header =>
    safe_bind (safe_seek _) fun _ => safe_bind (safe_align (by decide)) fun _ =>
    safe_bind (safe_parseCommonTables header) fun _ =>
    safe_bind (safe_parseBuffers header) fun _ =>
    safe_bind (safe_parseTrailing header) fun _ => safe_pure _

end Sections

/-- The bytecode starts where the reader stopped, or before when that is past 32 bits. -/
theorem parseTrailing_offset {header : BytecodeHeader} {reader final : ByteReader}
    {trailing : TrailingTables} {sections : List SectionInfo}
    (read : parseTrailing header reader = (.ok (trailing, sections), final)) :
    trailing.instructionOffset ≤ final.pos := by
  simp only [parseTrailing, bind_eq_ok, pure_apply, Prod.mk.injEq, Outcome.ok.injEq, position] at read
  obtain ⟨_, _, _, _, _, _, _, _, _, _, _, _, _, _, ⟨rfl, rfl⟩, ⟨rfl, -⟩, rfl⟩ := read
  exact Nat.mod_le _ _

/-- The bytecode starts inside the image. -/
theorem parseFront_offset {bytes : Bytes} {layout : HeaderLayout}
    {functionLayout : FunctionHeaderLayout} {front : Front} (small : bytes.length < 2 ^ 63)
    (read : (parseFront layout functionLayout (.new bytes)).1 = .ok front) :
    front.trailing.instructionOffset ≤ bytes.length := by
  have kept : (parseFront layout functionLayout (.new bytes)).2.data = bytes :=
    (safe_parseFront layout functionLayout (.new bytes) ⟨rfl, small⟩).2.1
  have ran : parseFront layout functionLayout (.new bytes) =
      (.ok front, (parseFront layout functionLayout (.new bytes)).2) := Prod.ext read rfl
  generalize (parseFront layout functionLayout (.new bytes)).2 = final at kept ran
  simp only [parseFront, bind_eq_ok, pure_apply, Prod.mk.injEq, Outcome.ok.injEq] at ran
  obtain ⟨_, _, _, _, _, _, _, _, _, _, _, _, _, _, _, ⟨trailing, sections⟩, _, last, rfl, rfl⟩ := ran
  calc trailing.instructionOffset ≤ _ := parseTrailing_offset last
    _ ≤ _ := ByteReader.inside _
    _ = bytes.length := congrArg List.length kept

section InfoOffset

/-- A function's info is at a 32-bit offset. -/
def InfoInRange (function : FunctionHeader) : Prop := function.infoOffset < 2 ^ 32

theorem returns_readU32 : Returns readU32 (· < 2 ^ 32) := by
  intro reader value read
  exact Bytes.u32At_lt (readU32_eq_ok.mp (Prod.ext read rfl)).1

theorem legacyInline_inRange (functionId raw : Nat) :
    InfoInRange (.legacy (legacyInline functionId raw)) :=
  lt_trans (bitField_lt raw 64 25) (by decide)

theorem returns_parseLargeHeaderLegacy (offset functionId : Nat) :
    Returns (parseLargeHeaderLegacy offset functionId) (InfoInRange ∘ .legacy) := by
  refine returns_bind fun _ => returns_bind fun _ => returns_bind fun _ => returns_bind fun _ => ?_
  refine returns_bind fun _ => returns_bind fun _ => ?_
  refine returns_bind_of returns_readU32 fun infoOffset inRange => ?_
  refine returns_bind fun _ => returns_bind fun _ => returns_bind fun _ => returns_bind fun _ => ?_
  exact returns_bind fun _ => returns_bind fun _ => returns_pure inRange

theorem modernLarge_inRange {layout : ModernLayout} {offset functionId : Nat} {raw : Bytes}
    {header : ModernFunctionHeader} (read : modernLarge layout offset functionId raw = .ok header) :
    InfoInRange (.modern header) := by
  simp only [modernLarge, Outcome.bind_eq_ok, Outcome.pure_eq, Outcome.ok.injEq] at read
  obtain ⟨_, -, _, -, _, -, _, -, _, -, _, -, _, -, _, -, _, -, _, -, _, -, _, -, _, -, _, -, rfl⟩ := read
  exact Nat.mod_lt _ (by decide)

theorem returns_parseLargeHeaderModern (layout : ModernLayout) (offset functionId : Nat) :
    Returns (parseLargeHeaderModern layout offset functionId) (InfoInRange ∘ .modern) := by
  refine returns_bind fun _ => returns_bind fun _ => returns_bind fun _ => ?_
  refine returns_bind_of (returns_lift fun _ => modernLarge_inRange) fun header inRange => ?_
  exact returns_bind fun _ => returns_pure inRange

theorem returns_parseLegacyFunction (functionId : Nat) :
    Returns (parseLegacyFunction functionId) InfoInRange := by
  refine returns_bind fun _ => returns_bind fun raw => returns_ite ?_ ?_
  · refine returns_bind_of (returns_parseLargeHeaderLegacy _ _) fun header inRange => ?_
    exact returns_bind fun _ => returns_pure inRange
  · exact returns_pure (legacyInline_inRange _ _)

theorem returns_parseModernFunction (layout : ModernLayout) (functionId : Nat) :
    Returns (parseModernFunction layout functionId) InfoInRange := by
  refine returns_bind fun _ => returns_bind fun raw => returns_ite ?_ ?_
  · refine returns_bind_of (returns_parseLargeHeaderModern _ _ _) fun header inRange => ?_
    exact returns_bind fun _ => returns_pure inRange
  · exact returns_pure (show (0 : Nat) < 2 ^ 32 by decide)

theorem returns_functionsFrom {parseOne : Nat → Reader FunctionHeader}
    (one : ∀ functionId, Returns (parseOne functionId) InfoInRange) (count functionId : Nat) :
    Returns (functionsFrom parseOne count functionId) fun headers =>
      ∀ header ∈ headers, InfoInRange header := by
  induction count generalizing functionId with
  | zero => exact returns_pure (by simp)
  | succ count ih =>
    refine returns_bind_of (one functionId) fun header inRange => ?_
    refine returns_bind_of (ih (functionId + 1)) fun rest others => ?_
    exact returns_pure (List.forall_mem_cons.mpr ⟨inRange, others⟩)

theorem returns_parseFunctionHeaders (header : BytecodeHeader) :
    Returns (parseFunctionHeaders header) fun headers => ∀ header ∈ headers, InfoInRange header := by
  unfold parseFunctionHeaders
  split
  · exact returns_functionsFrom returns_parseLegacyFunction _ _
  · exact returns_bind fun layout => returns_functionsFrom (returns_parseModernFunction layout) _ _

/-- Every function of a read image has its info at a 32-bit offset. -/
theorem returns_parseFront (layout : HeaderLayout) (functionLayout : FunctionHeaderLayout) :
    Returns (parseFront layout functionLayout) fun front =>
      ∀ header ∈ front.tables.functionHeaders, InfoInRange header := by
  have tracked : ∀ {α : Type} {property : α → Prop} {parse : Reader α} (name : SectionName)
      (entries : Option Nat), Returns parse property →
        Returns (trackSection name entries parse) fun result => property result.1 := by
    intro α property parse name entries holds
    refine returns_bind fun _ => returns_bind_of holds fun result found => ?_
    exact returns_bind fun _ => returns_bind fun _ => returns_pure found
  have common : ∀ header, Returns (parseCommonTables header) fun result =>
      ∀ header ∈ result.1.functionHeaders, InfoInRange header := by
    intro header
    refine returns_bind_of (tracked _ _ (returns_parseFunctionHeaders header)) fun result found => ?_
    refine returns_bind fun _ => returns_bind fun _ => returns_bind fun _ => ?_
    exact returns_bind fun _ => returns_bind fun _ => returns_pure found
  refine returns_bind fun header => returns_bind fun _ => returns_bind fun _ => ?_
  refine returns_bind_of (common header) fun tables inRange => ?_
  exact returns_bind fun _ => returns_bind fun _ => returns_pure inRange

end InfoOffset

/-- A number that a machine word past the position holds is read or absent. -/
theorem getU32_ne_panic {bytes : Bytes} {pos : Nat} (small : pos + 4 < 2 ^ 64) :
    getU32 bytes pos ≠ .panic := by
  intro panics
  exact Outcome.checked_eq_panic.mp panics small

theorem align4_le (value : Nat) : Bytes.align4 value ≤ value + 3 := by
  unfold Bytes.align4
  omega

/-- A plausible handler count keeps the position of the debug offsets small. -/
theorem debugOffsetsPos_spec (bytes : Bytes) {header : FunctionHeader} (inRange : InfoInRange header) :
    debugOffsetsPos bytes header ≠ .panic ∧
      ∀ pos, debugOffsetsPos bytes header = .ok (some pos) → pos < 2 ^ 33 := by
  have aligned : Bytes.align4 header.infoOffset ≤ header.infoOffset + 3 := align4_le _
  have small : header.infoOffset < 2 ^ 32 := inRange
  unfold debugOffsetsPos
  split
  · constructor
    · refine Outcome.bind_ne_panic (getU32_ne_panic (by omega)) fun found _ => ?_
      split
      · simp
      · split <;> simp
    · intro pos found
      obtain ⟨count, -, rest⟩ := Outcome.bind_eq_ok.mp found
      split at rest
      · simp at rest
      · split at rest
        · simp at rest
        next count tame =>
          have located : Bytes.align4 (Bytes.align4 header.infoOffset + 4 + count * 12) = pos :=
            Option.some.inj (Outcome.ok.inj rest)
          have rounded := align4_le (Bytes.align4 header.infoOffset + 4 + count * 12)
          omega
  · refine ⟨by simp, fun pos found => ?_⟩
    obtain rfl := Option.some.inj (Outcome.ok.inj found)
    omega

theorem functionDebugOffsets_ne_panic {bytes : Bytes} {header : FunctionHeader} (hasScopes : Bool)
    (inRange : InfoInRange header) : functionDebugOffsets bytes hasScopes header ≠ .panic := by
  obtain ⟨quiet, below⟩ := debugOffsetsPos_spec bytes inRange
  unfold functionDebugOffsets
  split
  · simp
  · refine Outcome.bind_ne_panic quiet fun found located => ?_
    split
    · simp
    next pos =>
      have small := below pos located
      refine Outcome.bind_ne_panic (getU32_ne_panic (by omega)) fun number _ => ?_
      split
      · simp
      · refine Outcome.bind_ne_panic ?_ fun _ _ => ?_
        · unfold scopeDescDataAt
          split
          · exact getU32_ne_panic (by omega)
          · simp
        · split <;> simp

/-- Collecting what each function has does not panic when no function does. -/
theorem collect_ne_panic {α : Type} {find : FunctionHeader → Result (Option α)}
    {headers : List FunctionHeader} (quiet : ∀ header ∈ headers, find header ≠ .panic)
    (start : OrdMap α) :
    headers.foldlM (fun out header => do
      let found ← find header
      pure (insertWhen header.functionId found out)) start ≠ Outcome.panic := by
  induction headers generalizing start with
  | nil => simp
  | cons header headers ih =>
    obtain ⟨here, rest⟩ := List.forall_mem_cons.mp quiet
    rw [List.foldlM_cons]
    refine Outcome.bind_ne_panic ?_ fun _ _ => ih rest _
    exact Outcome.bind_ne_panic here fun _ _ => Outcome.pure_ne_panic _

theorem parseDebugOffsets_ne_panic {bytes : Bytes} {headers : List FunctionHeader} (version : Nat)
    (inRange : ∀ header ∈ headers, InfoInRange header) :
    parseDebugOffsets bytes headers version ≠ .panic :=
  collect_ne_panic (fun header inside => functionDebugOffsets_ne_panic _ (inRange header inside)) _

theorem handlerTable_quiet : SafeOn (fun _ => True) handlerTable := by
  have handler : SafeOn (fun _ => True) readHandler :=
    safe_bind readU32_quiet fun _ => safe_bind readU32_quiet fun _ =>
      safe_bind readU32_quiet fun _ => safe_pure _
  exact safe_bind readU32_quiet fun _ => safe_ite (fun _ => safe_pure _) fun _ =>
    safe_bind (safe_repeatM handler _) fun _ => safe_pure _

theorem parseExceptionHandlers_ne_panic (bytes : Bytes) (headers : List FunctionHeader) :
    parseExceptionHandlers bytes headers ≠ .panic := by
  refine collect_ne_panic (fun header _ => ?_) _
  have quiet := (handlerTable_quiet (.new (bytes.drop (Bytes.align4 header.infoOffset))) trivial).1
  unfold functionHandlers
  dsimp only
  split
  · simp
  · split
    · simp
    · simp
    next panics => exact absurd panics quiet

/-- Collecting what each function has returns no error when no function does. -/
theorem collect_answers {α : Type} {find : FunctionHeader → Result (Option α)}
    (answers : ∀ header, (find header).Answers) (headers : List FunctionHeader) (start : OrdMap α) :
    (headers.foldlM (fun out header => do
      let found ← find header
      pure (insertWhen header.functionId found out)) start).Answers :=
  Outcome.answers_foldlM (fun _ header _ =>
    Outcome.answers_bind (answers header) fun _ => Outcome.answers_pure _) start

theorem functionDebugOffsets_answers (bytes : Bytes) (hasScopes : Bool) (header : FunctionHeader) :
    (functionDebugOffsets bytes hasScopes header).Answers := by
  have number : ∀ pos, (getU32 bytes pos).Answers := fun _ => Outcome.answers_checked _ _
  have position : (debugOffsetsPos bytes header).Answers := by
    unfold debugOffsetsPos
    split
    · refine Outcome.answers_bind (number _) fun found => ?_
      rcases found with _ | count
      · exact Outcome.answers_pure _
      · dsimp only
        split
        · exact Outcome.answers_pure _
        · exact Outcome.answers_pure _
    · exact Outcome.answers_pure _
  have scopes : ∀ pos, (scopeDescDataAt bytes hasScopes pos).Answers := by
    intro pos
    unfold scopeDescDataAt
    split
    · exact number pos
    · exact Outcome.answers_pure _
  unfold functionDebugOffsets
  split
  · exact Outcome.answers_pure _
  refine Outcome.answers_bind position fun found => ?_
  rcases found with _ | pos
  · exact Outcome.answers_pure _
  refine Outcome.answers_bind (number pos) fun found => ?_
  rcases found with _ | sourceLocations
  · exact Outcome.answers_pure _
  refine Outcome.answers_bind (scopes _) fun scopeDescData => ?_
  split
  · exact Outcome.answers_pure _
  · exact Outcome.answers_pure _

theorem parseDebugOffsets_answers (bytes : Bytes) (headers : List FunctionHeader) (version : Nat) :
    (parseDebugOffsets bytes headers version).Answers :=
  collect_answers (functionDebugOffsets_answers _ _) _ _

theorem parseExceptionHandlers_answers (bytes : Bytes) (headers : List FunctionHeader) :
    (parseExceptionHandlers bytes headers).Answers := by
  refine collect_answers (fun header => ?_) _ _
  unfold functionHandlers
  dsimp only
  split
  · exact Outcome.answers_pure _
  · split
    · exact Outcome.answers_pure _
    · exact Outcome.answers_pure _
    · intro error
      simp

end HermesDecomp.Parser
