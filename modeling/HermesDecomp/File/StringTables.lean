import HermesDecomp.File.Places

/-!
# The string tables of a parsed file

A parsed file keeps the bytes it was read from, says where its string sections
are, and its decoded strings are what those sections hold: the location of each
entry, its kind, and its text when its range lies in storage.
-/

namespace HermesDecomp.Parser

open Reader Action List

/-- What a parsed file knows about its string sections. -/
structure StringRegion (bytes : Bytes) (file : BytecodeFile) : Prop where
  raw : file.rawBytes = some bytes
  tables : ∃ tables, TablesAt bytes file.header tables ∧
    file.functionHeaders = tables.functionHeaders ∧ file.stringKinds = tables.stringKinds ∧
    file.identifierHashes = tables.identifierHashes ∧
    ∃ invalid, decodeStringTable file.header.stringCount tables.stringKinds
      tables.smallStringTable tables.overflowStringTable tables.stringStorage =
        .ok (file.strings, invalid)
  places : ∀ name pos, (name, pos) ∈ commonPlaces file.header →
    file.sectionOffset name = some (pos % 2 ^ 32)
  buffers : (file.sectionOffset .arrayBuffer).or (file.sectionOffset .literalValueBuffer) =
    some (buffersStart file.header % 2 ^ 32)

/-- The header says how large the first buffer of its layout is. -/
def FirstBuffer (header : BytecodeHeader) : Prop :=
  match header.layout with
  | .legacy => header.arrayBufferSize.isSome = true
  | .modern => header.literalValueBufferSize.isSome = true

theorem returns_parseHeader (layout : HeaderLayout) (functionLayout : FunctionHeaderLayout) :
    Returns (parseHeader layout functionLayout) FirstBuffer := by
  have legacy : ∀ version magic sourceHash,
      Returns (parseLegacyHeader version magic sourceHash) FirstBuffer := by
    intro version magic sourceHash
    unfold parseLegacyHeader
    repeat
      first
      | exact returns_pure rfl
      | refine returns_bind fun _ => ?_
  have modern : ∀ version magic sourceHash,
      Returns (parseModernHeader version magic sourceHash) FirstBuffer := by
    intro version magic sourceHash
    unfold parseModernHeader
    repeat
      first
      | exact returns_pure rfl
      | refine returns_bind fun _ => ?_
  refine returns_bind fun magic => returns_ite (returns_fail _ _) ?_
  refine returns_bind fun version => returns_bind fun sourceHash => ?_
  cases layout with
  | legacy => exact returns_bind_of (legacy _ _ _) fun header sized => returns_pure sized
  | modern => exact returns_bind_of (modern _ _ _) fun header sized => returns_pure sized

variable {α : Type} {reader final : ByteReader}

/-- A tracked section is recorded where the reader was. -/
theorem trackSection_info {name : SectionName} {entries : Option Nat} {parse : Reader α} {value : α}
    {info : SectionInfo} (ran : trackSection name entries parse reader = (.ok (value, info), final)) :
    info.name = name ∧ info.offset = reader.pos % 2 ^ 32 := by
  simp only [trackSection, bind_eq_ok, pure_apply, Prod.mk.injEq, Outcome.ok.injEq, position] at ran
  obtain ⟨_, _, ⟨rfl, rfl⟩, _, _, _, _, _, _, _, _, ⟨-, -⟩, ⟨-, rfl⟩, -⟩ := ran
  exact ⟨rfl, rfl⟩

/-- The sections of a part of the file all have names from a list. -/
def Named (names : List SectionName) (sections : List SectionInfo) : Prop :=
  ∀ info ∈ sections, info.name ∈ names

theorem returns_trackSection (name : SectionName) (entries : Option Nat) (parse : Reader α)
    : Returns (trackSection name entries parse) fun result =>
      result.2.name = name :=
  returns_bind fun _ => returns_bind fun _ => returns_bind fun _ => returns_bind fun _ =>
    returns_pure rfl

theorem returns_trackWhen (name : SectionName) (count : Option Nat) (absent : α)
    (entries : Nat → Option Nat) (parse : Nat → Reader α) :
    Returns (trackWhen name count absent entries parse) fun result => Named [name] result.2 := by
  cases count with
  | some count =>
    refine returns_bind_of (returns_trackSection _ _ _) fun result named => returns_pure ?_
    simpa [Named] using named
  | none => exact returns_pure (by simp [Named])

theorem returns_parseBigInts (header : BytecodeHeader) :
    Returns (parseBigInts header) fun result =>
      Named [.bigintTable, .bigintStorage] result.2 := by
  unfold parseBigInts
  split
  · refine returns_bind_of (returns_trackSection _ _ _) fun table first => ?_
    refine returns_bind_of (returns_trackSection _ _ _) fun storage second => returns_pure ?_
    simp [Named, first, second]
  · exact returns_pure (by simp [Named])

variable {names : List SectionName} {sections : List SectionInfo} {info : SectionInfo}

theorem Named.append {first second : List SectionInfo} (one : Named names first)
    (other : Named names second) : Named names (first ++ second):= by
  intro info inside
  rcases mem_append.mp inside with inside | inside
  · exact one info inside
  · exact other info inside

theorem Named.mono {names more : List SectionName} (named : Named names sections)
    (covers : ∀ name ∈ names, name ∈ more) : Named more sections:=
  fun info inside => covers _ (named info inside)

theorem named_singleton (named : info.name ∈ names) : Named names [info] := by
  intro other inside
  rwa [mem_singleton.mp inside]

/-- The modern buffers record sections of their own names only. -/
theorem returns_parseModernBuffers (header : BytecodeHeader) :
    Returns (parseModernBuffers header) fun result => Named [.literalValueBuffer, .objKeyBuffer,
      .objShapeTable, .bigintTable, .bigintStorage] result.2 := by
  refine returns_bind_of (returns_trackWhen _ _ _ _ _) fun literals first => ?_
  refine returns_bind_of (returns_trackSection _ _ _) fun keys second => ?_
  refine returns_bind_of (returns_trackWhen _ _ _ _ _) fun shapes third => ?_
  refine returns_bind_of (returns_parseBigInts _) fun bigInts fourth => returns_pure ?_
  refine Named.append (Named.append (Named.append (first.mono (by decide)) ?_)
    (third.mono (by decide))) (fourth.mono (by decide))
  exact named_singleton (by simp [second])

theorem returns_parseTrailing (header : BytecodeHeader) :
    Returns (parseTrailing header) fun result => ∀ info ∈ result.2, info.name ≠ .arrayBuffer := by
  refine returns_bind_of (returns_trackSection _ _ _) fun table first => ?_
  refine returns_bind_of (returns_trackSection _ _ _) fun storage second => ?_
  refine returns_bind_of (returns_trackSection _ _ _) fun modules third => ?_
  refine returns_bind_of (returns_trackWhen _ _ _ _ _) fun sources fourth => ?_
  refine returns_bind fun _ => returns_pure ?_
  intro info inside same
  simp only [cons_append, nil_append, mem_cons] at inside
  rcases inside with rfl | rfl | rfl | inside
  · simp [same] at first
  · simp [same] at second
  · simp [same] at third
  · simpa [same] using fourth info inside

variable {bytes : Bytes} {header : BytecodeHeader}

theorem tailSections_names {instructionOffset : Nat} {functionHeaders : List FunctionHeader}
    {info : SectionInfo}
    (inside : info ∈ tailSections bytes instructionOffset header functionHeaders) :
    info.name ≠ .arrayBuffer := by
  have one : ∀ name offset finish, info ∈ tailSection name offset finish → info.name = name := by
    intro name offset finish inside
    unfold tailSection at inside
    split at inside
    · rw [mem_singleton.mp inside]
    · simp at inside
  unfold tailSections at inside
  simp only [mem_append] at inside
  rcases inside with ((inside | inside) | inside) | inside
  · simp [one _ _ _ inside]
  · simp [one _ _ _ inside]
  · split at inside
    · simp [one _ _ _ inside]
    · simp at inside
  · simp [one _ _ _ inside]

/-- The first buffer's section starts where the reader is, and the array buffer is
not among the modern sections. -/
theorem parseBuffers_first {buffers : LayoutBuffers} {sections : List SectionInfo}
    (sized : FirstBuffer header)
    (ran : parseBuffers header reader = (.ok (buffers, sections), final)) :
    ∃ info rest, sections = info :: rest ∧ info.offset = reader.pos % 2 ^ 32 ∧
      (info.name = .arrayBuffer ∨ info.name = .literalValueBuffer ∧
        ∀ other ∈ sections, other.name ≠ .arrayBuffer) := by
  unfold parseBuffers at ran
  unfold FirstBuffer at sized
  cases layout : header.layout with
  | legacy =>
    simp only [layout] at sized ran
    obtain ⟨size, given⟩ := Option.isSome_iff_exists.mp sized
    rw [parseLegacyBuffers, given] at ran
    simp only [trackWhen, bind_eq_ok, pure_apply, Prod.mk.injEq, Outcome.ok.injEq] at ran
    obtain ⟨_, _, ⟨⟨_, info⟩, _, tracked, rfl, rfl⟩, _, _, _, _, _, _, _, _, _, ⟨-, rfl⟩, -⟩ := ran
    obtain ⟨name, offset⟩ := trackSection_info tracked
    exact ⟨info, _, rfl, offset, .inl name⟩
  | modern =>
    simp only [layout] at sized ran
    have names := returns_parseModernBuffers header reader _ (congrArg Prod.fst ran)
    obtain ⟨size, given⟩ := Option.isSome_iff_exists.mp sized
    rw [parseModernBuffers, given] at ran
    simp only [trackWhen, bind_eq_ok, pure_apply, Prod.mk.injEq, Outcome.ok.injEq] at ran
    obtain ⟨_, _, ⟨⟨_, info⟩, _, tracked, rfl, rfl⟩, _, _, _, _, _, _, _, _, _, ⟨-, rfl⟩, -⟩ := ran
    obtain ⟨name, offset⟩ := trackSection_info tracked
    exact ⟨info, _, rfl, offset, .inr ⟨name, fun other inside same =>
      absurd (same ▸ names other inside) (by decide)⟩⟩

/-- Looking a section up by name is looking its place up. -/
theorem find_placed (sections : List SectionInfo) (name : SectionName) :
    (sections.find? (·.name == name)).map (·.offset) =
      ((sections.map placed).find? (·.1 == name)).map (·.2) := by
  rw [List.find?_map, Option.map_map]
  rfl

/-- The place of a section of the string tables is found by its name. -/
theorem find_common {name : SectionName} {pos : Nat} (inside : (name, pos) ∈ commonPlaces header)
    (rest : List (SectionName × Nat)) :
    (((commonPlaces header).map fun place : SectionName × Nat => (place.1, place.2 % 2 ^ 32)) ++
      rest).find? (·.1 == name) = some (name, pos % 2 ^ 32) := by
  unfold commonPlaces at inside ⊢
  simp only [mem_cons, Prod.mk.injEq, not_mem_nil, or_false] at inside
  rcases inside with ⟨rfl, rfl⟩ | ⟨rfl, rfl⟩ | ⟨rfl, rfl⟩ | ⟨rfl, rfl⟩ | ⟨rfl, rfl⟩ | ⟨rfl, rfl⟩ <;>
    rfl

/-- What reading the front of an image finds. -/
structure FrontAt (bytes : Bytes) (front : Front) : Prop where
  tables : TablesAt bytes front.header front.tables
  places : ∀ name pos, (name, pos) ∈ commonPlaces front.header → ∀ tail,
    ((front.sections ++ tail).find? (·.name == name)).map (·.offset) = some (pos % 2 ^ 32)
  buffers : ∀ tail : List SectionInfo, (∀ info ∈ tail, info.name ≠ .arrayBuffer) →
    (((front.sections ++ tail).find? (·.name == .arrayBuffer)).map (·.offset)).or
      (((front.sections ++ tail).find? (·.name == .literalValueBuffer)).map (·.offset)) =
        some (buffersStart front.header % 2 ^ 32)

theorem parseHeader_over (layout : HeaderLayout) (functionLayout : FunctionHeaderLayout) :
    Preserves (Over bytes) (parseHeader layout functionLayout) := by
  have readWhen_over : ∀ condition, Preserves (Over bytes) (readWhen condition) := fun _ =>
    preserves_ite (preserves_bind (readNat_over 4) fun _ => preserves_pure _) (preserves_pure _)
  have legacy : ∀ version magic sourceHash,
      Preserves (Over bytes) (parseLegacyHeader version magic sourceHash) := by
    intro version magic sourceHash
    unfold parseLegacyHeader
    repeat
      first
      | exact preserves_pure _
      | refine preserves_bind (readNat_over _) fun _ => ?_
      | refine preserves_bind (readWhen_over _) fun _ => ?_
  have modern : ∀ version magic sourceHash,
      Preserves (Over bytes) (parseModernHeader version magic sourceHash) := by
    intro version magic sourceHash
    unfold parseModernHeader
    repeat
      first
      | exact preserves_pure _
      | refine preserves_bind (readNat_over _) fun _ => ?_
  refine preserves_bind (readNat_over 8) fun magic => preserves_ite (preserves_fail _) ?_
  refine preserves_bind (readNat_over 4) fun version => ?_
  refine preserves_bind (readExact_over 20) fun sourceHash => ?_
  cases layout with
  | legacy => exact preserves_bind (legacy _ _ _) fun _ => preserves_pure _
  | modern => exact preserves_bind (modern _ _ _) fun _ => preserves_pure _

theorem parseFront_at {layout : HeaderLayout} {functionLayout : FunctionHeaderLayout}
    {front : Front} (read : (parseFront layout functionLayout (.new bytes)).1 = .ok front)
    : FrontAt bytes front:= by
  have ran : parseFront layout functionLayout (.new bytes) =
      (.ok front, (parseFront layout functionLayout (.new bytes)).2) := Prod.ext read rfl
  simp only [parseFront, bind_eq_ok, pure_apply, Prod.mk.injEq, Outcome.ok.injEq] at ran
  obtain ⟨header, r0, readHeader, _, r1, sought, _, r2, padded, ⟨tables, common⟩, r3, readTables,
    ⟨buffers, specific⟩, r4, readBuffers, ⟨trailing, last⟩, r5, readTrailing, rfl, -⟩ := ran
  have sized := returns_parseHeader _ _ _ _ (congrArg Prod.fst readHeader)
  have kept : r0.data = bytes := (parseHeader_over _ _).of_run readHeader rfl
  obtain ⟨data1, pos1⟩ := seek_ran sought
  obtain ⟨data2, pos2⟩ := align_eq_ok padded
  have starts : r2.pos = headerSize := by
    rw [pos2, pos1]
    rfl
  have data : r2.data = bytes := data2.trans (data1.trans kept)
  obtain ⟨-, pos3, tablesAt, places⟩ := parseCommonTables_eq_ok starts readTables
  obtain ⟨info, rest, rfl, offset, name⟩ := parseBuffers_first sized readBuffers
  have noArray := returns_parseTrailing header _ _ (congrArg Prod.fst readTrailing)
  have commonName : ∀ other ∈ common, other.name ≠ .arrayBuffer ∧
      other.name ≠ .literalValueBuffer := by
    intro other inside
    have known := mem_map_of_mem inside (f := placed)
    rw [places] at known
    simp only [commonPlaces, map_cons, map_nil, mem_cons, not_mem_nil, or_false,
      placed, Prod.mk.injEq] at known
    rcases known with h | h | h | h | h | h <;> simp [h.1]
  have skipCommon : ∀ name, (∀ other ∈ common, other.name ≠ name) → name ≠ .header → ∀ more,
      ((⟨.header, 0, headerSize, none⟩ :: (common ++ more)).find? (·.name == name)) =
        more.find? (·.name == name) := by
    intro name absent notHeader more
    have header : (SectionName.header == name) = false := beq_false_of_ne notHeader.symm
    have none : common.find? (·.name == name) = none :=
      List.find?_eq_none.mpr fun other inside => by simpa using absent other inside
    rw [List.find?_cons, header, List.find?_append, none, Option.none_or]
  constructor
  · exact data ▸ tablesAt
  · intro name pos inside tail
    have notHeader : name ≠ .header := by
      rintro rfl
      simp [commonPlaces] at inside
    rw [find_placed, map_append, map_cons, map_append, map_append, places,
      cons_append, List.find?_cons, show (placed _).1 = SectionName.header from rfl,
      beq_false_of_ne notHeader.symm, append_assoc, append_assoc, find_common inside,
      Option.map_some]
  · intro tail tailNames
    have split : (⟨.header, 0, headerSize, none⟩ :: (common ++ info :: rest ++ last)) ++ tail =
        ⟨.header, 0, headerSize, none⟩ :: (common ++ (info :: (rest ++ (last ++ tail)))) := by
      simp
    rw [split, skipCommon _ (fun other inside => (commonName other inside).1) (by decide),
      skipCommon _ (fun other inside => (commonName other inside).2) (by decide), ← pos3, ← offset]
    rcases name with named | ⟨named, absent⟩
    · simp [named]
    · have noArrayBuffer : (info :: (rest ++ (last ++ tail))).find? (·.name == .arrayBuffer) =
          none := by
        refine List.find?_eq_none.mpr fun other inside => ?_
        simp only [mem_cons, mem_append] at inside
        rcases inside with rfl | inside | inside | inside
        · simpa using absent _ mem_cons_self
        · simpa using absent other (mem_cons_of_mem _ inside)
        · simpa using noArray other inside
        · simpa using tailNames other inside
      rw [noArrayBuffer]
      simp [named]

variable {sha1 : Sha1} {file : BytecodeFile}

/-- A parsed file knows its string sections. -/
theorem buildFile_region {front : Front} (found : FrontAt bytes front)
    (built : buildFile sha1 bytes front = .ok file) : StringRegion bytes file := by
  obtain ⟨header, tables, buffers, trailing, sections⟩ := front
  simp only [buildFile, Outcome.bind_eq_ok, Outcome.pure_eq, Outcome.ok.injEq] at built
  obtain ⟨_, -, ⟨strings, invalid⟩, decoded, _, -, ⟨_, _⟩, -, _, -, rfl⟩ := built
  constructor
  · rfl
  · exact ⟨tables, found.tables, rfl, rfl, rfl, invalid, decoded⟩
  · exact fun name pos inside => found.places name pos inside _
  · exact found.buffers _ fun info inside => tailSections_names inside

theorem parseWithLayout_region {layout : HeaderLayout} {functionLayout : FunctionHeaderLayout}
    (parsed : parseWithLayout sha1 bytes layout functionLayout = .ok file) :
    StringRegion bytes file := by
  unfold parseWithLayout at parsed
  split at parsed
  · simp at parsed
  · obtain ⟨front, read, built⟩ := Outcome.bind_eq_ok.mp parsed
    exact buildFile_region (parseFront_at read) built

/-- Whatever layout it was read in, a parsed file knows its string sections. -/
theorem parseAuto_region (parsed : parseAuto sha1 bytes = .ok file) : StringRegion bytes file:= by
  obtain ⟨version, -, rest⟩ := Outcome.bind_eq_ok.mp parsed
  dsimp only at rest
  split at rest
  next first =>
    cases rest
    exact parseWithLayout_region first
  · simp at rest
  · split at rest
    next other second =>
      cases rest
      obtain ⟨raw, tables, places, buffers⟩ := parseWithLayout_region second
      exact ⟨raw, tables, places, buffers⟩
    · simp at rest
    · simp at rest

end HermesDecomp.Parser
