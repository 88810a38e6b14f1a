import HermesDecomp.Write.CreatedImage
import HermesDecomp.Library.Sha1

/-!
# What creating an image comes to

A created image parses: its header, its function and its body are read back whatever the strings
are. So the final check only ever refuses an image for its strings, and it does so exactly when
one of them starts at the end of the storage.
-/

namespace HermesDecomp

open List

namespace Reader

/-- What reads as a value arrives there at its place. -/
theorem ReadsAs.arrives {α : Type} {action : Reader α} {bytes : Bytes} {value : α}
    (reads : ReadsAs action bytes value) {data before after : Bytes} {start : Nat}
    (shape : data = before ++ (bytes ++ after)) (place : before.length = start) :
    Arrives data start action (· = value) (start + bytes.length) := by
  subst shape place
  rintro ⟨found, pos, inside⟩ rfl rfl
  refine ⟨value, ByteReader.between (before ++ bytes) after, reads before after, rfl, ?_, ?_⟩
  · exact append_assoc ..
  · exact length_append

end Reader

namespace Create

open Outcome StringStorage HeaderWrite Reader HermesDecomp.Parser

/-- What a created image is for the parser: its tables, a header that says what it must, and the
body of its function in place. -/
structure Reads (image : Bytes) (version : UInt32) (strings : List Text) (body : Bytes)
    (tables : StringLayout) (header : BytecodeHeader) (function : FunctionHeader) : Prop where
  bare : BareImage image header (createdTables function strings tables)
  counts : Counts strings tables header
  fields : wrongFields (expectations image version strings header) = []
  body : Bytes.slice image function.offset function.bytecodeSizeInBytes = some body

variable {version : UInt32} {strings : List Text} {tables : StringLayout}

/-- The check of such an image passes exactly when its strings start inside the storage, and they
are what is read then. -/
theorem Reads.check_iff {image body : Bytes} {header : BytecodeHeader} {function : FunctionHeader}
    (reads : Reads image version strings body tables header function) (sha1 : Sha1)
    (laid : createStringTables strings = ok tables) (filled : strings ≠ [])
    (few : tables.overflow.length ≤ 2 ^ 23) :
    ∃ file, parseAuto sha1 image = .ok file ∧ file.functionHeaders = [function] ∧
      (file.strings.map (·.value) = strings ↔ AllStartInside strings) ∧
      (checkCreated sha1 image version strings body = .ok ⟨⟩ ↔ AllStartInside strings) := by
  obtain ⟨found, invalid, decoded, same⟩ := created_decode_iff laid filled few
    (createdTables function strings tables).stringKinds
  rw [← reads.counts.strings] at decoded
  obtain ⟨file, parsed, rfl, functions, rfl⟩ := reads.bare.parses sha1 decoded
  refine ⟨file, parsed, functions, same, ?_⟩
  have first : (Outcome.index file.functionHeaders 0 : Result FunctionHeader) = .ok function := by
    rw [functions]
    rfl
  have held : wrongBody image body function = [] := if_pos reads.body
  unfold checkCreated
  rw [parsed]
  dsimp only
  rw [first, Outcome.ok_bind, reads.fields, held, nil_append, append_nil, ← same]
  unfold wrongStrings
  by_cases equal : file.strings.map (·.value) = strings
  · rw [if_pos equal, if_pos rfl]
    exact iff_of_true rfl equal
  · rw [if_neg equal, if_neg (cons_ne_nil _ _)]
    exact iff_of_false (by simp) equal

/-- No field is wrong when every one is as it must be. -/
theorem wrongFields_eq_nil {expected : List (String × Nat × Nat)}
    (right : ∀ row ∈ expected, row.2.1 = row.2.2) : wrongFields expected = [] := by
  refine map_eq_nil_iff.mpr (filter_eq_nil_iff.mpr ?_)
  rintro ⟨name, got, want⟩ inside
  simpa using right _ inside

section Sizes

variable {image head slot code : Bytes} {strings : List Text} {tables : StringLayout}

section

variable (assembled : Assembled image head slot strings tables code)

include assembled

/-- The parts of an assembled image up to its footer. -/
theorem Assembled.length :
    image.length = headerSize + slot.length + sectionsSize tables + code.length + 20 := by
  obtain ⟨pad, hash, rfl, front, hashLength⟩ := assembled
  simp only [length_append, stringSections_length, hashLength]
  omega

/-- The slot stands behind the header. -/
theorem Assembled.slotAt : Bytes.slice image headerSize slot.length = some slot := by
  obtain ⟨pad, hash, rfl, front, -⟩ := assembled
  have taken := @Bytes.slice_between (head ++ pad) slot (stringSections strings tables ++ (code ++ hash))
  rw [length_append, front] at taken
  simpa only [append_assoc] using taken

/-- The code stands behind the sections, with each of its parts in its place. -/
theorem Assembled.codeAt (front part back : Bytes) (split : code = front ++ (part ++ back)) :
    Bytes.slice image (headerSize + slot.length + sectionsSize tables + front.length) part.length =
      some part := by
  obtain ⟨pad, hash, rfl, headed, -⟩ := assembled
  subst split
  have taken := @Bytes.slice_between
    (head ++ (pad ++ (slot ++ (stringSections strings tables ++ front)))) part (back ++ hash)
  have place : (head ++ (pad ++ (slot ++ (stringSections strings tables ++ front)))).length =
      headerSize + slot.length + sectionsSize tables + front.length := by
    simp only [length_append, stringSections_length]
    omega
  rw [place] at taken
  simpa only [append_assoc] using taken

end

theorem slotSizeOf_dvd (layout : FunctionHeaderLayout) : 4 ∣ slotSizeOf layout := by
  cases layout with
  | legacy16 | modern12 => decide

/-- An assembled image whose header and function read back has functions and strings only. -/
theorem Assembled.bare (assembled : Assembled image head slot strings tables code)
    {header : BytecodeHeader} {function : FunctionHeader} (small : image.length < 2 ^ 32)
    (laid : createStringTables strings = ok tables) (counts : Counts strings tables header)
    (empty : Bare header) {version : UInt32} (declared : header.version = version.toNat)
    (starts : ∃ more, head = Bytes.leBytes 8 magicNumber ++ (field version ++ more))
    (read : ReadsAs (parseHeader (impliedLayout header.version).1 (impliedLayout header.version).2)
      head header)
    (slotSize : slot.length = slotSizeOf header.functionHeaderLayout)
    (functions : Arrives image headerSize (parseFunctionHeaders header) (· = [function])
      (headerSize + header.functionCount * slotSizeOf header.functionHeaderLayout))
    (quiet : hasFlag function.flags flagHasExceptionHandler = false ∧
      hasFlag function.flags flagHasDebugInfo = false) :
    BareImage image header (createdTables function strings tables) := by
  have total := assembled.length
  obtain ⟨pad, hash, shape, front, hashLength⟩ := assembled
  have kinds : (head ++ (pad ++ slot)).length = kindsStart header := by
    have slots : 4 ∣ headerSize + header.functionCount * slotSizeOf header.functionHeaderLayout :=
      Nat.dvd_add (by decide) (Dvd.dvd.mul_left (slotSizeOf_dvd _) _)
    rw [kindsStart, Bytes.align4_of_dvd slots, counts.functions, one_mul, ← slotSize,
      length_append, length_append, ← front, add_assoc]
  have regrouped : image = head ++ (pad ++ slot) ++ (stringSections strings tables ++ (code ++ hash)) := by
    rw [shape]
    simp
  obtain ⟨found, ends⟩ := tablesAt_sections counts laid regrouped kinds function
  have prefixed : kindsStart header = headerSize + slot.length := by
    rw [← kinds, ← front, length_append, length_append, add_assoc]
  refine ⟨small, ?_, empty, ?_, ⟨_, @ReadsAs.arrives _ _ _ _ read image [] _ 0 shape rfl⟩, functions, found, ?_⟩
  · rw [ends, prefixed]
    omega
  · obtain ⟨more, rfl⟩ := starts
    have peek : ReadsAs (do
        let magic ← readU64
        if magic ≠ magicNumber then Action.fail (.parse "invalid magic header")
        else readU32) (Bytes.leBytes 8 magicNumber ++ field version) version.toNat := by
      refine readsAs_bind (readsAs_readNat (by decide)) ?_
      rw [if_neg (not_not_intro rfl)]
      exact readsAs_field version
    have large : ¬ image.length < 12 := by
      rw [total, headerSize]
      omega
    have split : image = Bytes.leBytes 8 magicNumber ++ field version ++ (more ++ (pad ++ (slot ++
        (stringSections strings tables ++ (code ++ hash))))) := by
      rw [shape]
      simp
    unfold peekVersion
    rw [if_neg large, declared]
    dsimp only
    rw [ByteReader.new_eq_between, split]
    exact congrArg Prod.fst (peek [] _)
  · intro other inside
    obtain rfl := mem_singleton.mp inside
    exact quiet

end Sizes

theorem toNat_ofNat_of_lt {value : Nat} (small : value < 2 ^ 32) :
    (UInt32.ofNat value).toNat = value := by
  rw [UInt32.toNat_ofNat', Nat.mod_eq_of_lt small]

/-- The counts of a created image fit their fields when the image does. -/
theorem counts_fit (laid : createStringTables strings = ok tables)
    (small : sectionsSize tables < 2 ^ 32) :
    strings.length < 2 ^ 32 ∧ tables.overflow.length < 2 ^ 32 ∧ tables.storage.length < 2 ^ 32 := by
  have sized := layOut_wellSized laid
  have count : tables.small.length = strings.length := sized.small.trans (length_map _)
  have storage := sized.storage
  unfold sectionsSize at small
  omega

/-- A table of one function is read as its one slot is. -/
theorem arrives_oneFunction {data : Bytes} {start finish : Nat} {parseOne : Nat → Reader FunctionHeader}
    {function : FunctionHeader} (one : Arrives data start (parseOne 0) (· = function) finish) :
    Arrives data start (functionsFrom parseOne 1 0) (· = [function]) finish := by
  refine arrives_bind one ?_
  rintro _ rfl
  refine arrives_bind (arrives_pure rfl : Arrives data finish (functionsFrom parseOne 0 1)
    (· = []) finish) ?_
  rintro _ rfl
  exact arrives_pure rfl

/-- An optional field that is zero where it is there. -/
theorem zero_of_gate (present : Bool) :
    (if present then some (0 : UInt32).toNat else none).getD 0 = 0 := by
  cases present with
  | false | true => rfl

theorem zero_of_offset (absent : Bool) : (if absent then none else some 0 : Option Nat).getD 0 = 0 := by
  cases absent with
  | false | true => rfl

/-- The flags of a created function say nothing but how it may be called. -/
theorem prohibitNone_quiet : hasFlag prohibitNone flagOverflowed = false ∧
    hasFlag prohibitNone flagHasExceptionHandler = false ∧
      hasFlag prohibitNone flagHasDebugInfo = false := by
  decide

/-- A created legacy image reads back. -/
theorem createdLegacy_reads (sha1 : Sha1) {body : Bytes} (old : version.toNat < 97)
    (laid : createStringTables strings = ok tables) (start : 144 + sectionsSize tables < 2 ^ 25)
    (size : body.length < 2 ^ 15) :
    ∃ image header function, buildMinimalLegacy sha1 version strings body = .ok image ∧
      Reads image version strings body tables header function := by
  obtain ⟨image, built, length, assembled⟩ :=
    @buildMinimalLegacy_eq sha1 version strings body tables old laid
  obtain ⟨slot, slotEq⟩ : ∃ slot, slot = writeFunctionHeaderLegacySmall
    ((144 + sectionsSize tables) % 2 ^ 32) 1 (body.length % 2 ^ 32) 0 0 2 0 0 0 prohibitNone := ⟨_, rfl⟩
  rw [← slotEq] at assembled
  have slotLength : slot.length = legacyHeaderSize := slotEq ▸ Bytes.leBytes_length _ _
  obtain ⟨stringsFit, overflowFits, storageFits⟩ := counts_fit laid (by omega)
  have inline : legacyInline 0 (Bytes.leNat slot) = {
      functionId := 0, offset := 144 + sectionsSize tables, paramCount := 1,
      bytecodeSizeInBytes := body.length, functionName := 0, infoOffset := 0, frameSize := 2,
      environmentSize := 0, highestReadCacheIndex := 0, highestWriteCacheIndex := 0,
      flags := prohibitNone } := by
    have offset : (144 + sectionsSize tables) % 2 ^ 32 % 2 ^ 25 = 144 + sectionsSize tables := by
      omega
    have bytecode : body.length % 2 ^ 32 % 2 ^ 15 = body.length := by omega
    rw [slotEq, legacyInline_written, offset, bytecode]
    rfl
  obtain ⟨fields, fieldsEq⟩ : ∃ fields : LegacyFields, fields =
    { legacyFields version strings tables with fileLength := UInt32.ofNat image.length } := ⟨_, rfl⟩
  rw [← fieldsEq] at assembled
  have versionSame : fields.version = version := by
    rw [fieldsEq]
    rfl
  have counts : Counts strings tables (fields.header (.ofVersion version.toNat)) := by
    rw [fieldsEq]
    exact ⟨rfl, rfl, rfl, toNat_ofNat_of_lt stringsFit, toNat_ofNat_of_lt overflowFits,
      toNat_ofNat_of_lt storageFits⟩
  have empty : Bare (fields.header (.ofVersion version.toNat)) := by
    rw [fieldsEq]
    exact ⟨zero_of_gate _, zero_of_gate _, rfl, rfl, rfl, rfl, rfl, rfl, rfl, rfl, zero_of_gate _, rfl⟩
  have starts : ∃ more, legacyHeaderBytes (.ofVersion version.toNat) fields =
      Bytes.leBytes 8 magicNumber ++ (field version ++ more) := by
    rw [legacyHeaderBytes_eq, versionSame]
    exact ⟨_, rfl⟩
  have implied : impliedLayout version.toNat = (.legacy, .legacy16) := if_neg (Nat.not_le_of_lt old)
  have declared : (fields.header (.ofVersion version.toNat)).version = version.toNat :=
    congrArg UInt32.toNat versionSame
  have read : ReadsAs (parseHeader (impliedLayout (fields.header (.ofVersion version.toNat)).version).1
      (impliedLayout (fields.header (.ofVersion version.toNat)).version).2)
      (legacyHeaderBytes (.ofVersion version.toNat) fields)
      (fields.header (.ofVersion version.toNat)) := by
    have whole := readsAs_legacyHeader fields (by rwa [versionSame])
    rw [declared, implied]
    rwa [versionSame] at whole
  have functions : Arrives image headerSize (parseFunctionHeaders
      (fields.header (.ofVersion version.toNat))) (· = [.legacy (legacyInline 0 (Bytes.leNat slot))])
      (headerSize + (fields.header (.ofVersion version.toNat)).functionCount *
        slotSizeOf (fields.header (.ofVersion version.toNat)).functionHeaderLayout) := by
    have taken := assembled.slotAt
    rw [slotLength] at taken
    have inSlot : hasFlag (legacyInline 0 (Bytes.leNat slot)).flags flagOverflowed = false := by
      rw [inline]
      exact prohibitNone_quiet.1
    have one := arrives_oneFunction (arrives_legacyFunction taken inSlot)
    unfold parseFunctionHeaders
    rw [counts.functions, one_mul]
    exact one
  have quiet : hasFlag (FunctionHeader.legacy (legacyInline 0 (Bytes.leNat slot))).flags
      flagHasExceptionHandler = false ∧
        hasFlag (FunctionHeader.legacy (legacyInline 0 (Bytes.leNat slot))).flags
          flagHasDebugInfo = false := by
    rw [inline]
    exact prohibitNone_quiet.2
  have bare := assembled.bare (by omega) laid counts empty declared starts read slotLength functions
    quiet
  have expected : wrongFields (expectations image version strings
      (fields.header (.ofVersion version.toNat))) = [] := by
    refine wrongFields_eq_nil ?_
    unfold expectations
    rw [declared, counts.strings, Nat.mod_eq_of_lt stringsFit, fieldsEq]
    simp only [forall_mem_cons]
    refine ⟨trivial, UInt32.toNat_ofNat', rfl, rfl, trivial, rfl, rfl, rfl, rfl, zero_of_gate _,
      zero_of_gate _, rfl, rfl, rfl, rfl, rfl, rfl, rfl, rfl, zero_of_gate _, zero_of_offset _, rfl,
      zero_of_gate _, ?_⟩
    exact fun row inside => absurd inside not_mem_nil
  have body : Bytes.slice image (FunctionHeader.legacy (legacyInline 0 (Bytes.leNat slot))).offset
      (FunctionHeader.legacy (legacyInline 0 (Bytes.leNat slot))).bytecodeSizeInBytes = some body := by
    have taken := assembled.codeAt [] body [] (append_nil body).symm
    rw [slotLength] at taken
    rw [inline]
    exact taken
  exact ⟨image, _, _, built, bare, counts, expected, body⟩

/-- A created modern image reads back. -/
theorem createdModern_reads (sha1 : Sha1) {body : Bytes} {layout : ModernLayout}
    (known : ModernLayout.forVersion version.toNat = ok layout)
    (laid : createStringTables strings = ok tables)
    (size : largePlace tables body + Bytes.align4 layout.largeSize + 20 < 2 ^ 32) :
    ∃ image header function, buildMinimalModern sha1 version strings body = .ok image ∧
      Reads image version strings body tables header function := by
  have new : 97 ≤ version.toNat := by
    rcases ModernLayout.forVersion_eq_ok known with ⟨-, same⟩ | ⟨-, same⟩
    · omega
    · omega
  have bodyFits : body.length ≤ Bytes.align4 body.length := Bytes.le_align4 _
  have place : largePlace tables body = 140 + sectionsSize tables + Bytes.align4 body.length := rfl
  have largeFits : largePlace tables body % 2 ^ 32 = largePlace tables body :=
    Nat.mod_eq_of_lt (by omega)
  have startFits : (140 + sectionsSize tables) % 2 ^ 32 = 140 + sectionsSize tables :=
    Nat.mod_eq_of_lt (by omega)
  have sizeFits : body.length % 2 ^ 32 = body.length := Nat.mod_eq_of_lt (by omega)
  obtain ⟨image, built, length, assembled⟩ :=
    @buildMinimalModern_eq sha1 version strings body tables layout new known laid
  rw [largeFits, startFits, sizeFits] at assembled
  rw [startFits, sizeFits] at length
  obtain ⟨largeLength, large, found, offset, bodySize, flags⟩ := @modernLarge_largeHeader _ _ known
    (largePlace tables body) (140 + sectionsSize tables) body.length (by omega) (by omega) (by omega)
  rw [largeLength] at length
  obtain ⟨slotLength, overflowed, follows⟩ := @overflowedSlot_points layout
    (largePlace tables body) (by omega)
  obtain ⟨stringsFit, overflowFits, storageFits⟩ := counts_fit laid (by omega)
  obtain ⟨fields, fieldsEq⟩ : ∃ fields : ModernFields, fields =
    { modernFields version strings tables with fileLength := UInt32.ofNat image.length } := ⟨_, rfl⟩
  rw [← fieldsEq] at assembled
  have versionSame : fields.version = version := by
    rw [fieldsEq]
    rfl
  have counts : Counts strings tables fields.header := by
    rw [fieldsEq]
    exact ⟨rfl, rfl, rfl, toNat_ofNat_of_lt stringsFit, toNat_ofNat_of_lt overflowFits,
      toNat_ofNat_of_lt storageFits⟩
  have empty : Bare fields.header := by
    rw [fieldsEq]
    exact ⟨rfl, rfl, rfl, rfl, rfl, rfl, rfl, rfl, rfl, rfl, rfl, rfl⟩
  have starts : ∃ more, modernHeaderBytes fields =
      Bytes.leBytes 8 magicNumber ++ (field version ++ more) := by
    rw [← versionSame]
    exact ⟨_, rfl⟩
  have declared : fields.header.version = version.toNat := congrArg UInt32.toNat versionSame
  have implied : impliedLayout version.toNat = (.modern, .modern12) := if_pos new
  have read : ReadsAs (parseHeader (impliedLayout fields.header.version).1
      (impliedLayout fields.header.version).2) (modernHeaderBytes fields) fields.header := by
    rw [declared, implied]
    exact readsAs_modernHeader fields (by rwa [versionSame])
  have taken := assembled.slotAt
  rw [slotLength] at taken
  have pointed : Bytes.slice image (followedModern layout (overflowedSlot (largePlace tables body)))
      layout.largeSize = some (largeHeader layout (140 + sectionsSize tables) body.length) := by
    have there := assembled.codeAt (Strings.padTo4 body)
      (largeHeader layout (140 + sectionsSize tables) body.length) _ rfl
    rw [slotLength, padTo4_length, largeLength] at there
    rw [follows]
    exact there
  have functions : Arrives image headerSize (parseFunctionHeaders fields.header) (· = [.modern large])
      (headerSize + fields.header.functionCount * slotSizeOf fields.header.functionHeaderLayout) := by
    have one := arrives_oneFunction (arrives_modernFunction (by omega) taken overflowed pointed
      (follows ▸ found))
    have layoutIs : fields.header.functionHeaderLayout = .modern12 := rfl
    unfold parseFunctionHeaders
    rw [counts.functions, one_mul, layoutIs]
    dsimp only
    refine arrives_bind (arrives_lift (declared ▸ known)) ?_
    rintro _ rfl
    exact one
  have quiet : hasFlag (FunctionHeader.modern large).flags flagHasExceptionHandler = false ∧
      hasFlag (FunctionHeader.modern large).flags flagHasDebugInfo = false := by
    have same : (FunctionHeader.modern large).flags = prohibitNone ||| flagOverflowed := flags
    rw [same]
    decide
  have bare := assembled.bare (by omega) laid counts empty declared starts read slotLength functions
    quiet
  have expected : wrongFields (expectations image version strings fields.header) = [] := by
    refine wrongFields_eq_nil ?_
    unfold expectations
    rw [declared, counts.strings, Nat.mod_eq_of_lt stringsFit, fieldsEq]
    simp only [forall_mem_cons]
    refine ⟨trivial, UInt32.toNat_ofNat', rfl, rfl, trivial, rfl, rfl, rfl, rfl, rfl, rfl, rfl, rfl,
      rfl, rfl, rfl, rfl, rfl, rfl, rfl, rfl, rfl, rfl, ?_⟩
    exact fun row inside => absurd inside not_mem_nil
  have held : Bytes.slice image (FunctionHeader.modern large).offset
      (FunctionHeader.modern large).bytecodeSizeInBytes = some body := by
    have there := assembled.codeAt [] body (List.replicate (Bytes.align4 body.length - body.length) 0 ++
      Strings.padTo4 (largeHeader layout (140 + sectionsSize tables) body.length))
      (append_assoc ..)
    rw [slotLength] at there
    have start : (FunctionHeader.modern large).offset = 140 + sectionsSize tables := offset
    have count : (FunctionHeader.modern large).bytecodeSizeInBytes = body.length := bodySize
    rw [start, count]
    exact there
  exact ⟨image, _, _, built, bare, counts, expected, held⟩

/-- The versions an image can be created in. -/
def Supported (version : UInt32) : Prop :=
  40 ≤ version.toNat ∧ version.toNat ≤ 96 ∨ version.toNat = 98 ∨ version.toNat = 99

/-- The strings and the body fit the fields that hold their sizes and places: the storage the
offsets, the overflow records the index in an entry, a legacy body and its start the slot, and a
modern image the length of the file. -/
structure Fits (version : UInt32) (strings : List Text) (body : Bytes) : Prop where
  storage : (unpackedStorage (strings.map StoredString.encode)).length < 2 ^ 32
  records : ∀ tables, createStringTables strings = ok tables → tables.overflow.length ≤ 2 ^ 23
  legacyBody : version.toNat < 97 → body.length < 2 ^ 15
  legacyStart : version.toNat < 97 → ∀ tables, createStringTables strings = ok tables →
    144 + sectionsSize tables < 2 ^ 25
  modernEnd : ∀ layout, ModernLayout.forVersion version.toNat = ok layout →
    ∀ tables, createStringTables strings = ok tables →
      largePlace tables body + Bytes.align4 layout.largeSize + 20 < 2 ^ 32

/-- An image is created, and it parses to one function that holds the body and to the strings. -/
def Accepts (formats : Nat → Result BytecodeFormat) (sha1 : Sha1) (options : CreateOptions) : Prop :=
  ∃ image, createMinimal formats sha1 options = .ok image ∧
    ∃ file function, parseAuto sha1 image = .ok file ∧ file.functionHeaders = [function] ∧
      Bytes.slice image function.offset function.bytecodeSizeInBytes = some options.globalBody ∧
      file.strings.map (·.value) = options.strings

section Creation

variable {options : CreateOptions}

theorem CreateOptions.written_ne_nil (options : CreateOptions) : options.written ≠ [] := by
  unfold CreateOptions.written
  split
  · exact cons_ne_nil _ _
  next filled => exact filled

/-- What is built in a supported version reads back, but perhaps for its strings. -/
theorem built_reads (sha1 : Sha1) (supported : Supported options.version)
    (fits : Fits options.version options.written options.globalBody) :
    ∃ image tables header function, createStringTables options.written = ok tables ∧
      (if 97 ≤ options.version.toNat then
        buildMinimalModern sha1 options.version options.written options.globalBody
      else buildMinimalLegacy sha1 options.version options.written options.globalBody) = .ok image ∧
      Reads image options.version options.written options.globalBody tables header function := by
  obtain ⟨tables, laid, -⟩ := createStringTables_total fits.storage
  by_cases new : 97 ≤ options.version.toNat
  · obtain ⟨layout, known⟩ : ∃ layout, ModernLayout.forVersion options.version.toNat = ok layout := by
      rcases supported with ⟨-, old⟩ | same | same
      · omega
      · exact ⟨_, by rw [same]; rfl⟩
      · exact ⟨_, by rw [same]; rfl⟩
    obtain ⟨image, header, function, built, reads⟩ :=
      createdModern_reads sha1 known laid (fits.modernEnd layout known tables laid)
    exact ⟨image, tables, header, function, laid, (if_pos new).trans built, reads⟩
  · have old := Nat.lt_of_not_le new
    obtain ⟨image, header, function, built, reads⟩ := createdLegacy_reads sha1 old laid
      (fits.legacyStart old tables laid) (fits.legacyBody old)
    exact ⟨image, tables, header, function, laid, (if_neg new).trans built, reads⟩

/-- Creating succeeds exactly when the strings start inside the storage, and the image holds the
strings then. -/
theorem createMinimal_eq (formats : Nat → Result BytecodeFormat) (sha1 : Sha1)
    (supported : Supported options.version) (filled : options.globalBody ≠ [])
    (fits : Fits options.version options.written options.globalBody) :
    ∃ image file function, parseAuto sha1 image = .ok file ∧ file.functionHeaders = [function] ∧
      Bytes.slice image function.offset function.bytecodeSizeInBytes = some options.globalBody ∧
      (file.strings.map (·.value) = options.written ↔ AllStartInside options.written) ∧
      ∀ created, createMinimal formats sha1 options = .ok created ↔
        AllStartInside options.written ∧ created = image := by
  obtain ⟨image, tables, header, function, laid, built, reads⟩ := built_reads sha1 supported fits
  obtain ⟨file, parsed, functions, same, checked⟩ := reads.check_iff sha1 laid
    options.written_ne_nil (fits.records tables laid)
  refine ⟨image, file, function, parsed, functions, reads.body, same, fun created => ?_⟩
  have whole : createMinimal formats sha1 options =
      (checkCreated sha1 image options.version options.written options.globalBody >>=
        fun _ => pure image) := by
    unfold createMinimal
    dsimp only
    rw [if_neg filled, pure_eq, ok_bind]
    by_cases new : 97 ≤ options.version.toNat
    · rw [if_pos new] at built ⊢
      rw [built, ok_bind]
    · rw [if_neg new] at built ⊢
      rw [built, ok_bind]
  rw [whole, bind_eq_ok, ← checked]
  constructor
  · rintro ⟨⟨⟩, passed, done⟩
    exact ⟨passed, (ok.inj done).symm⟩
  · rintro ⟨passed, rfl⟩
    exact ⟨⟨⟩, passed, rfl⟩

end Creation

/-- In every supported version and for every body and strings that fit, creating gives an image
with exactly this body and these strings if and only if there are strings and each of them starts
inside the storage. -/
theorem createMinimal_accepts_iff (formats : Nat → Result BytecodeFormat) (sha1 : Sha1)
    (options : CreateOptions) (supported : Supported options.version)
    (filled : options.globalBody ≠ [])
    (fits : Fits options.version options.written options.globalBody) :
    Accepts formats sha1 options ↔ options.strings ≠ [] ∧ AllStartInside options.strings := by
  obtain ⟨image, file, function, parsed, functions, body, same, created⟩ :=
    createMinimal_eq formats sha1 supported filled fits
  constructor
  · rintro ⟨result, made, file', function', parsed', -, -, strings⟩
    obtain ⟨inside, rfl⟩ := (created result).mp made
    obtain rfl : file = file' := ok.inj (parsed.symm.trans parsed')
    have written : options.written = options.strings := (same.mpr inside).symm.trans strings
    exact ⟨written ▸ options.written_ne_nil, written ▸ inside⟩
  · rintro ⟨present, inside⟩
    have written : options.written = options.strings := if_neg present
    rw [written] at same created
    exact ⟨image, (created image).mpr ⟨inside, rfl⟩, file, function, parsed, functions, body,
      same.mpr inside⟩

/-- The two opcodes of a body that returns undefined. -/
def returningFormats (version : Nat) : Result BytecodeFormat :=
  .ok {
    version
    definitions := [⟨118, "LoadConstUndefined", [.reg8], false⟩, ⟨92, "Ret", [.reg8], false⟩] }

/-- A request for a body that returns undefined. -/
def returning (strings : List String) : CreateOptions where
  version := 96
  globalBody := [118, 0, 92, 0]
  strings := strings.map String.toList

theorem returning_fits_gap : Fits (returning ["global", "", "name"]).version
    (returning ["global", "", "name"]).written (returning ["global", "", "name"]).globalBody where
  storage := by decide +kernel
  records := by decide +kernel
  legacyBody := by decide +kernel
  legacyStart := by decide +kernel
  modernEnd := by decide +kernel

/-- An empty string that another one follows is accepted. -/
theorem createMinimal_accepts_gap :
    Accepts returningFormats Sha1Hash.hash (returning ["global", "", "name"]) :=
  (createMinimal_accepts_iff returningFormats Sha1Hash.hash _ (.inl (by decide)) (by decide)
    returning_fits_gap).mpr (by decide +kernel)

theorem returning_fits_last : Fits (returning ["global", ""]).version
    (returning ["global", ""]).written (returning ["global", ""]).globalBody where
  storage := by decide +kernel
  records := by decide +kernel
  legacyBody := by decide +kernel
  legacyStart := by decide +kernel
  modernEnd := by decide +kernel

/-- The last string is refused when it is empty. -/
theorem createMinimal_refuses_last : Supported (returning ["global", ""]).version ∧
    (returning ["global", ""]).globalBody ≠ [] ∧
      Fits (returning ["global", ""]).version (returning ["global", ""]).written
        (returning ["global", ""]).globalBody ∧
      ¬ Accepts returningFormats Sha1Hash.hash (returning ["global", ""]) := by
  refine ⟨.inl (by decide), by decide, returning_fits_last, ?_⟩
  have refused : ∀ image, createMinimal returningFormats Sha1Hash.hash (returning ["global", ""]) =
      .ok image → False := by
    decide +kernel
  rintro ⟨image, made, -⟩
  exact refused image made

end Create

end HermesDecomp
