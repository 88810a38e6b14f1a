import HermesDecomp.File.Places

/-!
# Reading forwards

What a read returns and where it stops, from what the bytes hold at the place where it starts.
An image whose tables are where its header says, and whose other sections are empty, parses.
-/

namespace HermesDecomp

namespace Reader

open Action

/-- From a place in given bytes an action returns such a value and stops at another place. -/
def Arrives {α : Type} (data : Bytes) (start : Nat) (action : Reader α) (holds : α → Prop)
    (finish : Nat) : Prop :=
  ∀ reader : ByteReader, reader.data = data → reader.pos = start →
    ∃ value final, action reader = (.ok value, final) ∧ holds value ∧ final.data = data ∧
      final.pos = finish

variable {α β : Type} {data : Bytes} {start middle finish : Nat}

variable {value : α}

theorem arrives_pure {holds : α → Prop} (fine : holds value) :
    Arrives data start (pure value) holds start := by
  intro reader onData place
  exact ⟨value, reader, rfl, fine, onData, place⟩

variable {action : Reader α}

theorem arrives_bind {next : α → Reader β} {first : α → Prop} {second : β → Prop}
    (here : Arrives data start action first middle)
    (there : ∀ value, first value → Arrives data middle (next value) second finish) :
    Arrives data start (action >>= next) second finish := by
  intro reader onData place
  obtain ⟨value, between, ran, fine, data', place'⟩ := here reader onData place
  obtain ⟨result, final, ran', fine', data'', place''⟩ := there value fine between data' place'
  exact ⟨result, final, bind_eq_ok.mpr ⟨value, between, ran, ran'⟩, fine', data'', place''⟩

theorem Arrives.mono {holds more : α → Prop} (arrives : Arrives data start action holds finish)
    (covers : ∀ value, holds value → more value) : Arrives data start action more finish := by
  intro reader onData place
  obtain ⟨value, final, ran, fine, rest⟩ := arrives reader onData place
  exact ⟨value, final, ran, covers value fine, rest⟩

/-- What is returned is a given value, changed as said. -/
theorem Arrives.map {change : α → β} (arrives : Arrives data start action (· = value) finish) :
    Arrives data start (action >>= fun found => pure (change found)) (· = change value) finish := by
  refine arrives_bind arrives ?_
  rintro _ rfl
  exact arrives_pure rfl

theorem arrives_lift {outcome : Result α} (found : outcome = .ok value) :
    Arrives data start (Action.lift outcome) (· = value) start := by
  intro reader onData place
  exact ⟨value, reader, by rw [lift_apply, found], rfl, onData, place⟩

theorem arrives_position : Arrives data start position (· = start) start := by
  intro reader onData place
  exact ⟨reader.pos, reader, rfl, place, onData, place⟩

theorem arrives_seek {pos : Nat} (inside : pos ≤ data.length) :
    Arrives data start (seek pos) (fun _ => True) pos := by
  intro reader onData place
  have fits : pos ≤ reader.data.length := by rwa [onData]
  refine ⟨⟨⟩, { reader with pos := pos, inside := fits }, ?_, trivial, onData, rfl⟩
  exact dif_pos fits

theorem arrives_readBytes {size : Nat} {bytes : Bytes}
    (found : Bytes.slice data start size = some bytes) :
    Arrives data start (readBytes size) (· = bytes) (start + size) := by
  intro reader onData place
  have inside : reader.pos + size ≤ reader.data.length := by
    rw [onData, place]
    exact (Bytes.slice_eq_some.mp found).1
  refine ⟨bytes, { reader with pos := reader.pos + size, inside := inside }, ?_, rfl, onData, ?_⟩
  · refine readExact_eq_ok.mpr ⟨?_, rfl, rfl⟩
    rwa [onData, place]
  · exact congrArg (· + size) place

theorem arrives_readU32 {value : Nat} (found : Bytes.u32At data start = some value) :
    Arrives data start readU32 (· = value) (start + 4) := by
  obtain ⟨bytes, taken, rfl⟩ := Option.map_eq_some_iff.mp found
  exact (arrives_readBytes taken).map

/-- A move to a multiple of four that is inside the bytes. -/
theorem arrives_align (small : data.length < 2 ^ 32) (room : Bytes.align4 start ≤ data.length) :
    Arrives data start (align 4) (fun _ => True) (Bytes.align4 start) := by
  unfold align
  rw [if_neg (by decide)]
  refine arrives_bind arrives_position ?_
  rintro pos rfl
  dsimp only
  split
  next aligned =>
    rw [Bytes.align4_of_dvd (Nat.dvd_of_mod_eq_zero aligned)]
    exact arrives_pure trivial
  next unaligned =>
    have next : pos + (4 - pos % 4) = Bytes.align4 pos := by
      unfold Bytes.align4
      omega
    rw [next]
    have fits : (Outcome.checked (Bytes.align4 pos < 2 ^ 64) (Bytes.align4 pos) : Result Nat) =
        .ok (Bytes.align4 pos) := Outcome.checked_eq_ok.mpr ⟨by omega, rfl⟩
    refine arrives_bind (arrives_lift fits) ?_
    rintro _ rfl
    exact arrives_seek room

/-- Equal reads in a row return what each place holds. -/
theorem arrives_repeatM {size : Nat} {values : List α}
    (one : ∀ index value, values[index]? = some value →
      Arrives data (start + index * size) action (· = value) (start + index * size + size)) :
    Arrives data start (repeatM action values.length) (· = values)
      (start + values.length * size) := by
  induction values generalizing start with
  | nil =>
    rw [List.length_nil, zero_mul, add_zero]
    exact arrives_pure rfl
  | cons value values ih =>
    have first := one 0 value rfl
    rw [zero_mul, add_zero] at first
    have rest : Arrives data (start + size) (repeatM action values.length) (· = values)
        (start + size + values.length * size) := by
      refine ih fun index value found => ?_
      have later := one (index + 1) value (by simpa using found)
      rwa [Nat.succ_mul, add_comm (index * size), ← add_assoc] at later
    have total : start + (value :: values).length * size =
        start + size + values.length * size := by
      rw [List.length_cons]
      ring
    rw [total]
    refine arrives_bind first ?_
    rintro _ rfl
    refine arrives_bind rest ?_
    rintro _ rfl
    exact arrives_pure rfl

theorem arrives_repeatM_zero (action : Reader α) :
    Arrives data start (repeatM action 0) (· = []) start := arrives_pure rfl

end Reader

namespace Parser

open Reader

variable {data : Bytes} {start : Nat}

variable {count : Nat}

theorem arrives_parseU32Vec {values : List Nat} (found : Words data start count values) :
    Arrives data start (parseU32Vec count) (· = values) (start + count * 4) := by
  obtain ⟨rfl, words⟩ := found
  exact arrives_repeatM fun index value here => arrives_readU32 (words index value here)

theorem arrives_parsePairTable {values : List (Nat × Nat)} (found : Pairs data start count values) :
    Arrives data start (parsePairTable count) (· = values) (start + count * 8) := by
  obtain ⟨rfl, pairs⟩ := found
  refine arrives_repeatM fun index value here => ?_
  obtain ⟨first, second⟩ := pairs index value here
  refine arrives_bind (arrives_readU32 first) ?_
  rintro _ rfl
  refine arrives_bind (arrives_readU32 second) ?_
  rintro _ rfl
  exact arrives_pure rfl

theorem arrives_parseStringKinds {raw : List Nat} (found : Words data start count raw) :
    Arrives data start (parseStringKinds count) (· = raw.map kindOfRaw) (start + count * 4) :=
  (arrives_parseU32Vec found).map

section

variable {α : Type} {name : SectionName} {entries : Option Nat} {parse : Reader α}
  {holds : α → Prop} {middle : Nat} (small : data.length < 2 ^ 32)

include small

/-- A section that is read is padded to a multiple of four. -/
theorem arrives_trackSection (room : Bytes.align4 middle ≤ data.length)
    (one : Arrives data start parse holds middle) :
    Arrives data start (trackSection name entries parse) (fun found => holds found.1)
      (Bytes.align4 middle) := by
  refine arrives_bind arrives_position fun _ _ => ?_
  refine arrives_bind one fun result fine => ?_
  refine arrives_bind (arrives_align small room) fun _ _ => ?_
  refine arrives_bind arrives_position fun _ _ => ?_
  exact arrives_pure fine

/-- A section of an aligned image that ends aligned. -/
theorem arrives_aligned (aligned : 4 ∣ middle) (room : middle ≤ data.length)
    (one : Arrives data start parse holds middle) :
    Arrives data start (trackSection name entries parse) (fun found => holds found.1) middle := by
  have same := Bytes.align4_of_dvd aligned
  have tracked : Arrives data start (trackSection name entries parse) (fun found => holds found.1)
      (Bytes.align4 middle) := arrives_trackSection small (by rwa [same]) one
  rwa [same] at tracked

end

/-- The string tables are read where the header says they are. -/
theorem arrives_parseCommonTables {header : BytecodeHeader} {tables : CommonTables}
    (small : data.length < 2 ^ 32) (room : buffersStart header ≤ data.length)
    (functions : Arrives data headerSize (parseFunctionHeaders header)
      (· = tables.functionHeaders)
      (headerSize + header.functionCount * slotSizeOf header.functionHeaderLayout))
    (found : TablesAt data header tables) :
    Arrives data headerSize (parseCommonTables header) (fun read => read.1 = tables)
      (buffersStart header) := by
  obtain ⟨raw, kinds, sameKinds⟩ := found.kinds
  have aligned : 4 ∣ kindsStart header := Bytes.align4_dvd _
  have hashes : 4 ∣ hashesStart header := Nat.dvd_add aligned (Nat.dvd_mul_left _ _)
  have smallAligned : 4 ∣ smallStart header := Nat.dvd_add hashes (Nat.dvd_mul_left _ _)
  have overflow : 4 ∣ overflowStart header := Nat.dvd_add smallAligned (Nat.dvd_mul_left _ _)
  have storage : 4 ∣ storageStart header := by
    unfold storageStart
    omega
  have last : storageStart header + header.stringStorageSize ≤ buffersStart header :=
    Bytes.le_align4 _
  have inOrder : kindsStart header ≤ hashesStart header ∧ hashesStart header ≤ smallStart header ∧
      smallStart header ≤ overflowStart header ∧ overflowStart header ≤ storageStart header :=
    ⟨Nat.le_add_right _ _, Nat.le_add_right _ _, Nat.le_add_right _ _, Nat.le_add_right _ _⟩
  have read1 : Arrives data headerSize (trackSection .functionHeaders (some header.functionCount)
      (parseFunctionHeaders header)) (fun read => read.1 = tables.functionHeaders)
      (kindsStart header) :=
    arrives_trackSection small (show kindsStart header ≤ _ by omega) functions
  refine arrives_bind read1 ?_
  rintro ⟨_, s1⟩ rfl
  refine arrives_bind (arrives_aligned small hashes (by omega) (arrives_parseStringKinds kinds)) ?_
  rintro ⟨_, s2⟩ rfl
  refine arrives_bind (arrives_aligned small smallAligned (by omega)
    (arrives_parseU32Vec found.hashes)) ?_
  rintro ⟨_, s3⟩ rfl
  refine arrives_bind (arrives_aligned small overflow (by omega)
    (arrives_parseU32Vec found.small)) ?_
  rintro ⟨_, s4⟩ rfl
  refine arrives_bind (arrives_aligned small storage (by omega)
    (arrives_parsePairTable found.overflow)) ?_
  rintro ⟨_, s5⟩ rfl
  refine arrives_bind (arrives_trackSection small room (arrives_readBytes found.storage)) ?_
  rintro ⟨_, s6⟩ rfl
  refine arrives_pure ?_
  rw [← sameKinds]

/-- A header that leaves every section behind the string storage empty. -/
structure Bare (header : BytecodeHeader) : Prop where
  bigIntCount : header.bigIntCount.getD 0 = 0
  bigIntStorageSize : header.bigIntStorageSize.getD 0 = 0
  regExpCount : header.regExpCount = 0
  regExpStorageSize : header.regExpStorageSize = 0
  literalValueBufferSize : header.literalValueBufferSize.getD 0 = 0
  arrayBufferSize : header.arrayBufferSize.getD 0 = 0
  objKeyBufferSize : header.objKeyBufferSize = 0
  objValueBufferSize : header.objValueBufferSize.getD 0 = 0
  objShapeTableCount : header.objShapeTableCount.getD 0 = 0
  cjsModuleCount : header.cjsModuleCount = 0
  functionSourceCount : header.functionSourceCount.getD 0 = 0
  debugInfoOffset : header.debugInfoOffset = 0

theorem arrives_noBytes (room : start ≤ data.length) :
    Arrives data start (readBytes 0) (· = []) start := arrives_readBytes (Bytes.slice_zero room)

theorem arrives_noPairs : Arrives data start (parsePairTable 0) (· = []) start :=
  arrives_repeatM_zero _

theorem arrives_noEntries : Arrives data start (parseTableEntries 0) (· = []) start :=
  arrives_noPairs.map

theorem arrives_noShapes : Arrives data start (parseShapeTable 0) (· = []) start :=
  arrives_noPairs.map

section Empty

variable (small : data.length < 2 ^ 32) (aligned : 4 ∣ start) (room : start ≤ data.length)

include small aligned room

/-- An empty section is read without moving. -/
theorem arrives_emptySection {α : Type} {name : SectionName} {entries : Option Nat}
    {parse : Reader α} {holds : α → Prop} (one : Arrives data start parse holds start) :
    Arrives data start (trackSection name entries parse) (fun _ => True) start :=
  (arrives_aligned small aligned room one).mono fun _ _ => trivial

/-- So is one whose size is absent or zero. -/
theorem arrives_emptyWhen {α : Type} {name : SectionName} {count : Option Nat} {absent : α}
    {entries : Nat → Option Nat} {parse : Nat → Reader α} {holds : α → Prop}
    (none : count.getD 0 = 0) (one : Arrives data start (parse 0) holds start) :
    Arrives data start (trackWhen name count absent entries parse) (fun _ => True) start := by
  cases count with
  | none => exact arrives_pure trivial
  | some count =>
    obtain rfl : count = 0 := none
    refine arrives_bind (arrives_emptySection small aligned room one) fun _ _ => ?_
    exact arrives_pure trivial

variable {header : BytecodeHeader}

/-- No bigints are read without moving. -/
theorem arrives_parseBigInts (bare : Bare header) :
    Arrives data start (parseBigInts header) (fun _ => True) start := by
  have count := bare.bigIntCount
  have size := bare.bigIntStorageSize
  unfold parseBigInts
  generalize header.bigIntCount = bigInts at count
  generalize header.bigIntStorageSize = stored at size
  cases bigInts with
  | none => exact arrives_pure trivial
  | some bigInts =>
    cases stored with
    | none => exact arrives_pure trivial
    | some stored =>
      obtain rfl : bigInts = 0 := count
      obtain rfl : stored = 0 := size
      refine arrives_bind (arrives_emptySection small aligned room
        arrives_noEntries) fun _ _ => ?_
      refine arrives_bind (arrives_emptySection small aligned room
        (arrives_noBytes room)) fun _ _ => ?_
      exact arrives_pure trivial

/-- Nor are empty buffers. -/
theorem arrives_parseBuffers (bare : Bare header) :
    Arrives data start (parseBuffers header) (fun _ => True) start := by
  have noBytes := arrives_noBytes room
  have keys : Arrives data start (trackSection .objKeyBuffer none
      (readBytes header.objKeyBufferSize)) (fun _ => True) start := by
    rw [bare.objKeyBufferSize]
    exact arrives_emptySection small aligned room noBytes
  unfold parseBuffers
  cases header.layout with
  | legacy =>
    refine arrives_bind (arrives_emptyWhen small aligned room bare.arrayBufferSize noBytes)
      fun _ _ => ?_
    refine arrives_bind keys fun _ _ => ?_
    refine arrives_bind (arrives_emptyWhen small aligned room bare.objValueBufferSize noBytes)
      fun _ _ => ?_
    refine arrives_bind (arrives_parseBigInts small aligned room bare) fun _ _ => ?_
    exact arrives_pure trivial
  | modern =>
    refine arrives_bind (arrives_emptyWhen small aligned room bare.literalValueBufferSize noBytes)
      fun _ _ => ?_
    refine arrives_bind keys fun _ _ => ?_
    refine arrives_bind (arrives_emptyWhen small aligned room bare.objShapeTableCount
      arrives_noShapes) fun _ _ => ?_
    refine arrives_bind (arrives_parseBigInts small aligned room bare) fun _ _ => ?_
    exact arrives_pure trivial

/-- Behind empty tables the bytecode starts at once. -/
theorem arrives_parseTrailing (bare : Bare header) :
    Arrives data start (parseTrailing header) (fun read => read.1.instructionOffset = start)
      start := by
  have below : start % 2 ^ 32 = start := Nat.mod_eq_of_lt (lt_of_le_of_lt room small)
  unfold parseTrailing
  rw [bare.regExpCount, bare.regExpStorageSize, bare.cjsModuleCount]
  refine arrives_bind (arrives_emptySection small aligned room
    arrives_noEntries) fun _ _ => ?_
  refine arrives_bind (arrives_emptySection small aligned room
    (arrives_noBytes room)) fun _ _ => ?_
  refine arrives_bind (arrives_emptySection small aligned room
    arrives_noPairs) fun _ _ => ?_
  refine arrives_bind (arrives_emptyWhen small aligned room bare.functionSourceCount
    arrives_noPairs) fun _ _ => ?_
  refine arrives_bind arrives_position ?_
  rintro pos rfl
  exact arrives_pure below

end Empty

/-- An image with functions and strings and nothing else. -/
structure BareImage (data : Bytes) (header : BytecodeHeader) (tables : CommonTables) : Prop where
  small : data.length < 2 ^ 32
  room : buffersStart header ≤ data.length
  bare : Bare header
  version : peekVersion data = .ok header.version
  read : ∃ finish, Arrives data 0
    (parseHeader (impliedLayout header.version).1 (impliedLayout header.version).2) (· = header) finish
  functions : Arrives data headerSize (parseFunctionHeaders header) (· = tables.functionHeaders)
    (headerSize + header.functionCount * slotSizeOf header.functionHeaderLayout)
  found : TablesAt data header tables
  quiet : ∀ function ∈ tables.functionHeaders,
    hasFlag function.flags flagHasExceptionHandler = false ∧
      hasFlag function.flags flagHasDebugInfo = false

theorem headerSize_le_buffersStart (header : BytecodeHeader) : headerSize ≤ buffersStart header := by
  have kinds : headerSize ≤ kindsStart header := (Nat.le_add_right _ _).trans (Bytes.le_align4 _)
  have last : storageStart header + header.stringStorageSize ≤ buffersStart header :=
    Bytes.le_align4 _
  unfold storageStart overflowStart smallStart hashesStart at last
  omega

/-- Functions without an info section have no debug offsets. -/
theorem parseDebugOffsets_quiet {functions : List FunctionHeader}
    (quiet : ∀ function ∈ functions, hasFlag function.flags flagHasDebugInfo = false)
    (version : Nat) : parseDebugOffsets data functions version = .ok [] := by
  unfold parseDebugOffsets
  dsimp only
  generalize (DebugLayout.forVersion version).any (·.hasLexicalRegions) = hasScopes
  induction functions with
  | nil => rfl
  | cons function functions ih =>
    have here := quiet function List.mem_cons_self
    have found : functionDebugOffsets data hasScopes function = .ok none := if_pos (.inl here)
    rw [List.foldlM_cons, found]
    exact ih fun other inside => quiet other (List.mem_cons_of_mem _ inside)

/-- Nor handlers. -/
theorem parseExceptionHandlers_quiet {functions : List FunctionHeader}
    (quiet : ∀ function ∈ functions, hasFlag function.flags flagHasExceptionHandler = false) :
    parseExceptionHandlers data functions = .ok [] := by
  unfold parseExceptionHandlers
  induction functions with
  | nil => rfl
  | cons function functions ih =>
    have here := quiet function List.mem_cons_self
    have found : functionHandlers data function = .ok none := if_pos (.inl here)
    rw [List.foldlM_cons, found]
    exact ih fun other inside => quiet other (List.mem_cons_of_mem _ inside)

namespace BareImage

variable {header : BytecodeHeader} {tables : CommonTables} (image : BareImage data header tables)

include image

/-- Its front is read. -/
theorem front : ∃ front, (parseFront (impliedLayout header.version).1
      (impliedLayout header.version).2 (.new data)).1 = .ok front ∧ front.header = header ∧
    front.tables = tables ∧ front.trailing.instructionOffset = buffersStart header := by
  obtain ⟨finish, read⟩ := image.read
  have small := image.small
  have large := headerSize_le_buffersStart header
  have room := image.room
  have aligned : 4 ∣ buffersStart header := Bytes.align4_dvd _
  have whole : Arrives data 0 (parseFront (impliedLayout header.version).1
      (impliedLayout header.version).2) (fun front => front.header = header ∧
        front.tables = tables ∧ front.trailing.instructionOffset = buffersStart header)
      (buffersStart header) := by
    refine arrives_bind read ?_
    rintro _ rfl
    refine arrives_bind (arrives_seek (large.trans room)) fun _ _ => ?_
    refine arrives_bind (arrives_align small (large.trans room)) fun _ _ => ?_
    refine arrives_bind (arrives_parseCommonTables small room image.functions image.found) ?_
    rintro ⟨_, common⟩ rfl
    refine arrives_bind (arrives_parseBuffers small aligned room image.bare) fun _ _ => ?_
    refine arrives_bind (arrives_parseTrailing small aligned room image.bare) ?_
    rintro ⟨trailing, last⟩ starts
    exact arrives_pure ⟨rfl, rfl, starts⟩
  obtain ⟨front, final, ran, found, -⟩ := whole (.new data) rfl rfl
  exact ⟨front, congrArg Prod.fst ran, found⟩

/-- It parses, whatever its strings decode to. -/
theorem parses (sha1 : Sha1) {strings : List StringTableEntry} {invalid : Nat}
    (decoded : decodeStringTable header.stringCount tables.stringKinds tables.smallStringTable
      tables.overflowStringTable tables.stringStorage = .ok (strings, invalid)) :
    ∃ file, parseAuto sha1 data = .ok file ∧ file.header = header ∧
      file.functionHeaders = tables.functionHeaders ∧ file.strings = strings := by
  obtain ⟨⟨header, tables, buffers, trailing, sections⟩, read, rfl, rfl, starts⟩ := image.front
  have room := image.room
  have large := headerSize_le_buffersStart header
  dsimp only at starts decoded
  have code : (Outcome.checked (trailing.instructionOffset ≤ data.length)
      (data.drop trailing.instructionOffset) : Result Bytes) =
        .ok (data.drop trailing.instructionOffset) :=
    Outcome.checked_eq_ok.mpr ⟨by rwa [starts], rfl⟩
  have offsets : parseDebugOffsets data tables.functionHeaders header.version = .ok [] :=
    parseDebugOffsets_quiet (fun function inside => (image.quiet function inside).2) _
  have handlers : parseExceptionHandlers data tables.functionHeaders = .ok [] :=
    parseExceptionHandlers_quiet fun function inside => (image.quiet function inside).1
  have debug : DebugInfo.parseWithStatus data header.debugInfoOffset header.version [] =
      .ok (some DebugInfo.empty, .absent) := if_pos (.inl image.bare.debugInfoOffset)
  have layout : parseWithLayout sha1 data (impliedLayout header.version).1
      (impliedLayout header.version).2 = buildFile sha1 data
        ⟨header, tables, buffers, trailing, sections⟩ := by
    unfold parseWithLayout
    rw [if_neg (Nat.not_lt_of_le (large.trans room)), read, Outcome.ok_bind]
  unfold parseAuto
  rw [image.version, Outcome.ok_bind]
  dsimp only
  rw [layout]
  unfold buildFile
  dsimp only
  rw [code, Outcome.ok_bind, decoded, Outcome.ok_bind]
  dsimp only
  rw [offsets, Outcome.ok_bind, debug, Outcome.ok_bind]
  dsimp only
  rw [handlers, Outcome.ok_bind]
  exact ⟨_, rfl, rfl, rfl, rfl⟩

end BareImage

end Parser

end HermesDecomp
