import HermesDecomp.File.FunctionTable
import HermesDecomp.File.StringTables

/-!
# Where the sections behind the strings are

The buffers, the regular expressions and the module tables follow the string region. Their
places follow from the header alone, and so does the place where the instructions start.
-/

namespace HermesDecomp.Parser

open Reader Action Bytes List

/-- Where a section ends, padding included. -/
def padded (start size : Nat) : Nat := align4 (start + size)

/-- Where a section ends that an absent count leaves out. -/
def paddedWhen (start unit : Nat) : Option Nat → Nat
  | some count => padded start (count * unit)
  | none => start

/-- Where the bigint sections end. -/
def bigIntsEnd (start : Nat) (header : BytecodeHeader) : Nat :=
  match header.bigIntCount, header.bigIntStorageSize with
  | some count, some size => padded (padded start (count * 8)) size
  | _, _ => start

/-- Where the regular expressions start, behind the buffers of either layout. -/
def regExpStart (header : BytecodeHeader) : Nat :=
  match header.layout with
  | .legacy =>
      bigIntsEnd (paddedWhen (padded (paddedWhen (buffersStart header) 1 header.arrayBufferSize)
        header.objKeyBufferSize) 1 header.objValueBufferSize) header
  | .modern =>
      bigIntsEnd (paddedWhen (padded (paddedWhen (buffersStart header) 1
        header.literalValueBufferSize) header.objKeyBufferSize) 8 header.objShapeTableCount) header

/-- Where the storage of the regular expressions starts. -/
def regExpStorageStart (header : BytecodeHeader) : Nat :=
  padded (regExpStart header) (header.regExpCount * 8)

/-- Where the modules start. -/
def modulesStart (header : BytecodeHeader) : Nat :=
  padded (regExpStorageStart header) header.regExpStorageSize

/-- Where the instructions start. -/
def instructionsStart (header : BytecodeHeader) : Nat :=
  paddedWhen (padded (modulesStart header) (header.cjsModuleCount * 8)) 8 header.functionSourceCount

theorem le_padded (start size : Nat) : start + size ≤ padded start size := le_align4 _

theorem le_paddedWhen (start unit : Nat) (count : Option Nat) :
    start ≤ paddedWhen start unit count := by
  cases count with
  | none => exact le_refl _
  | some count => exact (Nat.le_add_right _ _).trans (le_padded _ _)

theorem le_bigIntsEnd (start : Nat) (header : BytecodeHeader) : start ≤ bigIntsEnd start header := by
  unfold bigIntsEnd
  split
  · exact ((Nat.le_add_right _ _).trans (le_padded _ _)).trans
      ((Nat.le_add_right _ _).trans (le_padded _ _))
  · exact Nat.le_refl _

/-- The slots of the functions end before the buffers. -/
theorem slots_le_buffersStart (header : BytecodeHeader) :
    headerSize + header.functionCount * slotSizeOf header.functionHeaderLayout ≤
      buffersStart header := by
  have slots := le_align4 (headerSize + header.functionCount * slotSizeOf header.functionHeaderLayout)
  have strings := le_align4 (storageStart header + header.stringStorageSize)
  unfold buffersStart
  unfold storageStart overflowStart smallStart hashesStart kindsStart at strings ⊢
  omega

theorem buffersStart_le_regExpStart (header : BytecodeHeader) :
    buffersStart header ≤ regExpStart header := by
  unfold regExpStart
  split
  · exact (le_paddedWhen _ _ _).trans (((Nat.le_add_right _ _).trans (le_padded _ _)).trans
      ((le_paddedWhen ..).trans (le_bigIntsEnd _ _)))
  · exact (le_paddedWhen _ _ _).trans (((Nat.le_add_right _ _).trans (le_padded _ _)).trans
      ((le_paddedWhen ..).trans (le_bigIntsEnd _ _)))

theorem modulesStart_le_instructionsStart (header : BytecodeHeader) :
    modulesStart header ≤ instructionsStart header :=
  ((Nat.le_add_right _ _).trans (le_padded _ _)).trans (le_paddedWhen _ _ _)

/-- The slots of the functions end before the instructions start. -/
theorem slots_le_instructionsStart (header : BytecodeHeader) :
    headerSize + header.functionCount * slotSizeOf header.functionHeaderLayout ≤
      instructionsStart header := by
  have table := le_padded (regExpStart header) (header.regExpCount * 8)
  have storage := le_padded (regExpStorageStart header) header.regExpStorageSize
  have first := slots_le_buffersStart header
  have second := buffersStart_le_regExpStart header
  have last := modulesStart_le_instructionsStart header
  unfold modulesStart at last
  unfold regExpStorageStart at storage last
  omega

/-- A read that ends at a place, whatever it returns. -/
def EndsAt {α : Type} (action : Reader α) (place : Nat → Nat) : Prop :=
  ∀ reader final value, action reader = (.ok value, final) →
    final.data = reader.data ∧ final.pos = place reader.pos

variable {α : Type}

theorem endsAt_pure (value : α) : EndsAt (pure value : Reader α) id:= by
  intro reader final result ran
  obtain ⟨-, rfl⟩ := Prod.mk.inj ran
  exact ⟨rfl, rfl⟩

theorem endsAt_bind {α β : Type} {action : Reader α} {next : α → Reader β} {first second : Nat → Nat}
    (one : EndsAt action first) (rest : ∀ value, EndsAt (next value) second) :
    EndsAt (action >>= next) fun pos => second (first pos) := by
  intro reader final result ran
  obtain ⟨value, between, before, after⟩ := bind_eq_ok.mp ran
  obtain ⟨data, pos⟩ := one _ _ _ before
  obtain ⟨data', pos'⟩ := rest value _ _ _ after
  exact ⟨data'.trans data, by rw [pos', pos]⟩

variable {name : SectionName} {entries : Option Nat} {parse : Reader α}

theorem endsAt_trackSection {size : Nat} {holds : Bytes → Nat → α → Prop}
    (one : Reads parse size holds) :
    EndsAt (trackSection name entries parse) fun pos => padded pos size := by
  intro reader final result ran
  obtain ⟨value, info⟩ := result
  obtain ⟨data, pos, -⟩ := trackSection_eq_ok one ran
  exact ⟨data, pos⟩

theorem endsAt_trackWhen {absent : α} {entries : Nat → Option Nat} {parse : Nat → Reader α}
    {unit : Nat} {holds : Nat → Bytes → Nat → α → Prop}
    (one : ∀ count, Reads (parse count) (count * unit) (holds count)) (count : Option Nat) :
    EndsAt (trackWhen name count absent entries parse) fun pos => paddedWhen pos unit count := by
  cases count with
  | none => exact endsAt_pure _
  | some count => exact endsAt_bind (endsAt_trackSection (one count)) fun _ => endsAt_pure _

theorem reads_parseTableEntries (count : Nat) :
    Reads (parseTableEntries count) (count * 8) fun data pos entries =>
      ∃ pairs, Pairs data pos count pairs ∧
        entries = pairs.map fun pair => { offset := pair.1, length := pair.2 } := by
  intro reader final entries ran
  obtain ⟨pairs, between, read, done⟩ := bind_eq_ok.mp ran
  obtain ⟨found, rfl⟩ := Prod.mk.inj done
  obtain ⟨moved, pairsAt⟩ := reads_parsePairTable count _ _ _ read
  exact ⟨moved, pairs, pairsAt, (Outcome.ok.inj found).symm⟩

theorem reads_parseShapeTable (count : Nat) :
    Reads (parseShapeTable count) (count * 8) fun _ _ _ => True := by
  intro reader final shapes ran
  obtain ⟨pairs, between, read, done⟩ := bind_eq_ok.mp ran
  obtain ⟨-, rfl⟩ := Prod.mk.inj done
  obtain ⟨moved, -⟩ := reads_parsePairTable count _ _ _ read
  exact ⟨moved, trivial⟩

/-- The bytes of an optional buffer. -/
theorem reads_buffer (size : Nat) : Reads (readBytes size) (size * 1)
    fun data pos bytes => slice data pos size = some bytes := by
  rw [mul_one]
  exact reads_readBytes size

theorem endsAt_parseBigInts (header : BytecodeHeader) :
    EndsAt (parseBigInts header) fun pos => bigIntsEnd pos header := by
  unfold parseBigInts bigIntsEnd
  cases header.bigIntCount with
  | none => exact endsAt_pure _
  | some count =>
    cases header.bigIntStorageSize with
    | none => exact endsAt_pure _
    | some size =>
      exact endsAt_bind (endsAt_trackSection (reads_parseTableEntries count)) fun _ =>
        endsAt_bind (endsAt_trackSection (reads_readBytes size)) fun _ => endsAt_pure _

theorem endsAt_parseLegacyBuffers (header : BytecodeHeader) :
    EndsAt (parseLegacyBuffers header) fun pos =>
      bigIntsEnd (paddedWhen (padded (paddedWhen pos 1 header.arrayBufferSize)
        header.objKeyBufferSize) 1 header.objValueBufferSize) header :=
  endsAt_bind (endsAt_trackWhen reads_buffer header.arrayBufferSize) fun _ =>
    endsAt_bind (endsAt_trackSection (reads_readBytes header.objKeyBufferSize)) fun _ =>
      endsAt_bind (endsAt_trackWhen reads_buffer header.objValueBufferSize) fun _ =>
        endsAt_bind (endsAt_parseBigInts header) fun _ => endsAt_pure _

theorem endsAt_parseModernBuffers (header : BytecodeHeader) :
    EndsAt (parseModernBuffers header) fun pos =>
      bigIntsEnd (paddedWhen (padded (paddedWhen pos 1 header.literalValueBufferSize)
        header.objKeyBufferSize) 8 header.objShapeTableCount) header :=
  endsAt_bind (endsAt_trackWhen reads_buffer header.literalValueBufferSize) fun _ =>
    endsAt_bind (endsAt_trackSection (reads_readBytes header.objKeyBufferSize)) fun _ =>
      endsAt_bind (endsAt_trackWhen reads_parseShapeTable header.objShapeTableCount) fun _ =>
        endsAt_bind (endsAt_parseBigInts header) fun _ => endsAt_pure _

variable {header : BytecodeHeader} {reader final : ByteReader}

/-- The buffers end where the regular expressions start. -/
theorem parseBuffers_ends {result : LayoutBuffers × List SectionInfo}
    (start : reader.pos = buffersStart header)
    (ran : parseBuffers header reader = (.ok result, final)) :
    final.data = reader.data ∧ final.pos = regExpStart header := by
  unfold parseBuffers at ran
  unfold regExpStart
  rw [← start]
  cases layout : header.layout with
  | legacy =>
    rw [layout] at ran
    exact endsAt_parseLegacyBuffers header _ _ _ ran
  | modern =>
    rw [layout] at ran
    exact endsAt_parseModernBuffers header _ _ _ ran

/-- The sections behind the buffers are what the bytes hold at the places the header implies. -/
structure TrailingAt (bytes : Bytes) (header : BytecodeHeader) (trailing : TrailingTables) :
    Prop where
  regExps : ∃ pairs, Pairs bytes (regExpStart header) header.regExpCount pairs ∧
    trailing.regExpTable = pairs.map fun pair => { offset := pair.1, length := pair.2 }
  storage : slice bytes (regExpStorageStart header) header.regExpStorageSize =
    some trailing.regExpStorage
  instructions : trailing.instructionOffset = instructionsStart header % 2 ^ 32
  inside : instructionsStart header ≤ bytes.length

/-- The section of the regular expressions and that of their storage. -/
def regExpSections (header : BytecodeHeader) : List SectionInfo :=
  [{ name := .regexpTable, offset := regExpStart header % 2 ^ 32,
     size := regExpStorageStart header % 2 ^ 32 - regExpStart header % 2 ^ 32,
     entries := some header.regExpCount },
   { name := .regexpStorage, offset := regExpStorageStart header % 2 ^ 32,
     size := modulesStart header % 2 ^ 32 - regExpStorageStart header % 2 ^ 32, entries := none }]

variable {info : SectionInfo}

/-- What a tracked section is recorded as. -/
theorem trackSection_recorded {size : Nat} {holds : Bytes → Nat → α → Prop}
    (one : Reads parse size holds) {value : α}
    (ran : trackSection name entries parse reader = (.ok (value, info), final)) :
    info = { name, offset := reader.pos % 2 ^ 32,
             size := padded reader.pos size % 2 ^ 32 - reader.pos % 2 ^ 32, entries } := by
  obtain ⟨-, pos, -, -, -⟩ := trackSection_eq_ok one ran
  simp only [trackSection, bind_eq_ok, pure_apply, Prod.mk.injEq, Outcome.ok.injEq, position] at ran
  obtain ⟨_, _, ⟨rfl, rfl⟩, _, _, _, _, _, _, _, _, ⟨rfl, rfl⟩, ⟨-, rfl⟩, rfl⟩ := ran
  rw [pos]
  rfl

variable {sections : List SectionInfo}

theorem parseTrailing_at {trailing : TrailingTables} (start : reader.pos = regExpStart header)
    (ran : parseTrailing header reader = (.ok (trailing, sections), final)) :
    TrailingAt reader.data header trailing ∧
      ∃ rest, sections = regExpSections header ++ rest := by
  obtain ⟨⟨table, s1⟩, r1, read1, ran⟩ := bind_eq_ok.mp ran
  obtain ⟨⟨storage, s2⟩, r2, read2, ran⟩ := bind_eq_ok.mp ran
  obtain ⟨⟨modules, s3⟩, r3, read3, ran⟩ := bind_eq_ok.mp ran
  obtain ⟨⟨sources, s4⟩, r4, read4, ran⟩ := bind_eq_ok.mp ran
  obtain ⟨offset, r5, here, done⟩ := bind_eq_ok.mp ran
  obtain ⟨place, rfl⟩ := Prod.mk.inj here
  cases place
  obtain ⟨same, rfl⟩ := Prod.mk.inj done
  obtain ⟨rfl, rfl⟩ := Prod.mk.inj (Outcome.ok.inj same)
  obtain ⟨d1, p1, h1, -, -⟩ := trackSection_eq_ok (reads_parseTableEntries _) read1
  obtain ⟨d2, p2, h2, -, -⟩ := trackSection_eq_ok (reads_readBytes _) read2
  obtain ⟨d3, p3, -, -, -⟩ := trackSection_eq_ok (reads_parsePairTable _) read3
  obtain ⟨d4, p4⟩ := endsAt_trackWhen reads_parsePairTable header.functionSourceCount _ _ _ read4
  have at1 : r1.pos = regExpStorageStart header := by
    rw [p1, start]
    rfl
  have at2 : r2.pos = modulesStart header := by
    rw [p2, at1]
    rfl
  have at4 : r4.pos = instructionsStart header := by
    rw [p4, p3, at2]
    rfl
  have data4 : r4.data = reader.data := d4.trans (d3.trans (d2.trans d1))
  rw [start] at h1
  rw [d1, at1] at h2
  refine ⟨⟨h1, h2, ?_, ?_⟩, s3 :: s4, ?_⟩
  · dsimp only
    rw [at4]
  · rw [← at4, ← data4]
    exact r4.inside
  · rw [trackSection_recorded (reads_parseTableEntries _) read1,
      trackSection_recorded (reads_readBytes _) read2, start, at1]
    rfl

/-- The sections that the buffers of either layout have. -/
def bufferNames : List SectionName :=
  [.arrayBuffer, .literalValueBuffer, .objKeyBuffer, .objValueBuffer, .objShapeTable, .bigintTable,
    .bigintStorage]

variable {names : List SectionName}

/-- The buffers record sections of their own names only. -/
theorem returns_parseBuffers (header : BytecodeHeader) :
    Returns (parseBuffers header) fun result => Named bufferNames result.2 := by
  unfold parseBuffers
  cases header.layout with
  | legacy =>
    refine returns_bind_of (returns_trackWhen _ _ _ _ _) fun array first => ?_
    refine returns_bind_of (returns_trackSection _ _ _) fun keys second => ?_
    refine returns_bind_of (returns_trackWhen _ _ _ _ _) fun values third => ?_
    refine returns_bind_of (returns_parseBigInts _) fun bigInts fourth => returns_pure ?_
    refine Named.append (Named.append (Named.append (first.mono (by decide)) ?_)
      (third.mono (by decide))) (fourth.mono (by decide))
    exact named_singleton (second ▸ by decide)
  | modern =>
    exact fun reader _ read => (returns_parseModernBuffers header reader _ read).mono (by decide)

/-- A section is not among those of other names. -/
theorem Named.find?_append (named : Named names sections) (absent : name ∉ names)
    (rest : List SectionInfo) :
    (sections ++ rest).find? (·.name == name) = rest.find? (·.name == name) := by
  have none : sections.find? (·.name == name) = Option.none := by
    refine List.find?_eq_none.mpr fun info inside same => ?_
    rw [beq_iff_eq] at same
    exact absent (same ▸ named info inside)
  rw [List.find?_append, none]
  rfl

/-- A parsed file holds what its bytes say at the places its header implies. -/
structure FileAt (bytes : Bytes) (file : BytecodeFile) : Prop where
  raw : file.rawBytes = some bytes
  count : file.functionHeaders.length = file.header.functionCount
  functions : ∀ id found, file.functionHeaders[id]? = some found →
    functionAt file.header bytes id = some found
  regExps : ∃ pairs, Pairs bytes (regExpStart file.header) file.header.regExpCount pairs ∧
    file.regExpTable = pairs.map fun pair => { offset := pair.1, length := pair.2 }
  storage : slice bytes (regExpStorageStart file.header) file.header.regExpStorageSize =
    some file.regExpStorage
  offset : file.instructionOffset = instructionsStart file.header % 2 ^ 32
  inside : instructionsStart file.header ≤ bytes.length
  instructions : file.instructions = bytes.drop file.instructionOffset
  handlers : parseExceptionHandlers bytes file.functionHeaders = .ok file.exceptionHandlers
  sections : ∀ info ∈ regExpSections file.header,
    file.sections.find? (·.name == info.name) = some info

/-- A tracked section was parsed where the reader was. -/
theorem trackSection_ran {value : α}
    (ran : trackSection name entries parse reader = (.ok (value, info), final)) :
    ∃ between, parse reader = (.ok value, between) := by
  simp only [trackSection, bind_eq_ok, pure_apply, Prod.mk.injEq, Outcome.ok.injEq, position] at ran
  obtain ⟨_, _, ⟨rfl, rfl⟩, _, between, parsed, _, _, _, _, _, _, ⟨rfl, -⟩, -⟩ := ran
  exact ⟨between, parsed⟩

/-- The sections before the buffers. -/
def commonNames : List SectionName :=
  [.functionHeaders, .stringKinds, .identifierHashes, .smallStringTable, .overflowStringTable,
    .stringStorage]

theorem named_of_placed (places : sections.map placed =
      (commonPlaces header).map fun place : SectionName × Nat => (place.1, place.2 % 2 ^ 32)) :
    Named commonNames sections := by
  intro info inside
  have member : placed info ∈ sections.map placed := mem_map_of_mem inside
  rw [places] at member
  obtain ⟨place, listed, same⟩ := mem_map.mp member
  have name : place.1 = info.name := congrArg Prod.fst same
  rw [← name]
  unfold commonPlaces at listed
  simp only [mem_cons, not_mem_nil, or_false] at listed
  rcases listed with rfl | rfl | rfl | rfl | rfl | rfl <;> simp [commonNames]

variable {bytes : Bytes}

/-- What the front of an image holds. -/
theorem parseFront_trailing {layout : HeaderLayout} {functionLayout : FunctionHeaderLayout}
    {front : Front} (read : (parseFront layout functionLayout (.new bytes)).1 = .ok front) :
    (∀ id found, front.tables.functionHeaders[id]? = some found →
      functionAt front.header bytes id = some found) ∧
    TrailingAt bytes front.header front.trailing ∧
    ∀ info ∈ regExpSections front.header, ∀ tail,
      (front.sections ++ tail).find? (·.name == info.name) = some info := by
  have ran : parseFront layout functionLayout (.new bytes) =
      (.ok front, (parseFront layout functionLayout (.new bytes)).2) := Prod.ext read rfl
  simp only [parseFront, bind_eq_ok, pure_apply, Prod.mk.injEq, Outcome.ok.injEq] at ran
  obtain ⟨header, r0, readHeader, _, r1, sought, _, r2, padded, ⟨tables, common⟩, r3, readTables,
    ⟨buffers, specific⟩, r4, readBuffers, ⟨trailing, last⟩, r5, readTrailing, rfl, -⟩ := ran
  have kept : r0.data = bytes := (parseHeader_over _ _).of_run readHeader rfl
  obtain ⟨data1, pos1⟩ := seek_ran sought
  obtain ⟨data2, pos2⟩ := align_eq_ok padded
  have start : r2.pos = headerSize := by
    rw [pos2, pos1]
    rfl
  have onBytes : r2.data = bytes := data2.trans (data1.trans kept)
  obtain ⟨data3, pos3, found, places⟩ := parseCommonTables_eq_ok start readTables
  obtain ⟨data4, pos4⟩ := parseBuffers_ends pos3 readBuffers
  obtain ⟨trailingAt, rest, sections⟩ := parseTrailing_at pos4 readTrailing
  refine ⟨?_, ?_, ?_⟩
  · intro id function present
    simp only [parseCommonTables, bind_eq_ok, pure_apply, Prod.mk.injEq, Outcome.ok.injEq]
      at readTables
    obtain ⟨⟨functions, s1⟩, _, tracked, _, _, -, _, _, -, _, _, -, _, _, -, _, _, -, ⟨rfl, -⟩, -⟩ :=
      readTables
    obtain ⟨_, parsed⟩ := trackSection_ran tracked
    rw [← onBytes]
    exact parseFunctionHeaders_at start parsed present
  · rwa [data4, data3, onBytes] at trailingAt
  · intro info inside tail
    have specificNames := returns_parseBuffers header _ _ (congrArg Prod.fst readBuffers)
    have own : info.name = .regexpTable ∨ info.name = .regexpStorage := by
      unfold regExpSections at inside
      simp only [mem_cons, not_mem_nil, or_false] at inside
      rcases inside with rfl | rfl
      · exact .inl rfl
      · exact .inr rfl
    have notCommon : info.name ∉ commonNames := by rcases own with own | own <;> rw [own] <;> decide
    have notBuffer : info.name ∉ bufferNames := by rcases own with own | own <;> rw [own] <;> decide
    have notFirst : ((⟨.header, 0, headerSize, none⟩ : SectionInfo).name == info.name) = false := by
      rcases own with own | own <;> rw [own] <;> decide
    rw [cons_append, List.find?_cons_of_neg (by simpa using notFirst), append_assoc,
      append_assoc, (named_of_placed places).find?_append notCommon,
      specificNames.find?_append notBuffer, sections, append_assoc]
    unfold regExpSections at inside ⊢
    simp only [mem_cons, not_mem_nil, or_false] at inside
    rcases inside with rfl | rfl
    · rfl
    · rfl

/-- A parsed file was built from the front of its bytes, in one layout or the other. -/
theorem parseAuto_built {sha1 : Sha1} {file : BytecodeFile}
    (parsed : parseAuto sha1 bytes = .ok file) :
    ∃ layout functionLayout front built,
      (parseFront layout functionLayout (.new bytes)).1 = .ok front ∧
        buildFile sha1 bytes front = .ok built ∧
          file = { built with diagnostics := file.diagnostics } := by
  have taken : ∀ {layout functionLayout built}, parseWithLayout sha1 bytes layout functionLayout =
      .ok built → ∃ front, (parseFront layout functionLayout (.new bytes)).1 = .ok front ∧
        buildFile sha1 bytes front = .ok built := by
    intro layout functionLayout built ran
    unfold parseWithLayout at ran
    split at ran
    · simp at ran
    · exact Outcome.bind_eq_ok.mp ran
  obtain ⟨version, -, rest⟩ := Outcome.bind_eq_ok.mp parsed
  dsimp only at rest
  split at rest
  next first =>
    cases rest
    obtain ⟨front, read, built⟩ := taken first
    exact ⟨_, _, front, _, read, built, rfl⟩
  · simp at rest
  · split at rest
    next other second =>
      cases rest
      obtain ⟨front, read, built⟩ := taken second
      exact ⟨_, _, front, other, read, built, rfl⟩
    · simp at rest
    · simp at rest

/-- A parsed file holds what its bytes say. -/
theorem parseAuto_at {sha1 : Sha1} {file : BytecodeFile} (parsed : parseAuto sha1 bytes = .ok file)
    : FileAt bytes file:= by
  obtain ⟨layout, functionLayout, front, built, read, ran, same⟩ := parseAuto_built parsed
  obtain ⟨functions, trailing, sections⟩ := parseFront_trailing read
  have tables := (parseFront_at read).tables
  obtain ⟨header, common, buffers, trailingTables, infos⟩ := front
  simp only [buildFile, Outcome.bind_eq_ok, Outcome.pure_eq, Outcome.ok.injEq,
    Outcome.checked_eq_ok] at ran
  obtain ⟨_, ⟨-, rfl⟩, ⟨strings, invalid⟩, -, _, -, ⟨_, _⟩, -, _, handlers, rfl⟩ := ran
  rw [same]
  exact ⟨rfl, tables.functions, functions, trailing.regExps, trailing.storage,
    trailing.instructions, trailing.inside, rfl, handlers, fun info inside =>
      sections info inside _⟩

/-- What a function header is depends on the version and the layout in the file header only. -/
theorem functionAt_congr {header other : BytecodeHeader}
    (layout : other.functionHeaderLayout = header.functionHeaderLayout)
    (version : other.version = header.version) (bytes : Bytes) (functionId : Nat) :
    functionAt other bytes functionId = functionAt header bytes functionId := by
  unfold functionAt slotAt readInline readLarge
  rw [layout, version]

/-- A function whose header no change touches is parsed as before. -/
theorem FileAt.function_kept {bytes out : Bytes} {file after : BytecodeFile} {functionId : Nat}
    {found : FunctionHeader} {touched : Nat → Prop} (before : FileAt bytes file)
    (behind : FileAt out after) (kept : Unchanged bytes out touched)
    (count : after.header.functionCount = file.header.functionCount)
    (layout : after.header.functionHeaderLayout = file.header.functionHeaderLayout)
    (version : after.header.version = file.header.version)
    (present : file.functionHeaders[functionId]? = some found)
    (slotFree : ∀ index, touched index → index < headerSize +
        functionId * slotSizeOf file.header.functionHeaderLayout ∨
      headerSize + (functionId + 1) * slotSizeOf file.header.functionHeaderLayout ≤ index)
    (largeFree : ∀ place size, largeAt file.header bytes functionId = some (place, size) →
      ∀ index, touched index → index < place ∨ place + size ≤ index) :
    after.functionHeaders[functionId]? = some found := by
  have bounded : functionId < after.functionHeaders.length := by
    rw [behind.count, count, ← before.count]
    exact (List.getElem?_eq_some_iff.mp present).1
  have parsed := behind.functions functionId _ (List.getElem?_eq_getElem bounded)
  rw [functionAt_congr layout version, functionAt_unchanged kept slotFree largeFree,
    before.functions functionId found present] at parsed
  rw [List.getElem?_eq_getElem bounded, ← parsed]

end HermesDecomp.Parser
