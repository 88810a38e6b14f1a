import HermesDecomp.File.Parsing

/-!
# Where a parse finds its tables

The position of every section follows from the counts and sizes of the header.
What a successful read returns is what the bytes hold at that position, so two
images with the same header and the same bytes at a section parse it alike.
-/

namespace HermesDecomp

namespace Reader

open Action

/-- A successful move to a multiple of four. -/
theorem align_eq_ok {reader final : ByteReader} {done : PUnit}
    (ran : align 4 reader = (.ok done, final)) :
    final.data = reader.data ∧ final.pos = Bytes.align4 reader.pos := by
  have sought : ∀ {next : Nat} {after : ByteReader},
      seek next reader = (.ok done, after) → after.data = reader.data ∧ after.pos = next := by
    intro next after ran
    unfold seek at ran
    split at ran
    · obtain ⟨-, rfl⟩ := Prod.mk.inj ran
      exact ⟨rfl, rfl⟩
    · simp at ran
  unfold align at ran
  rw [if_neg (by decide), bind_eq_ok] at ran
  obtain ⟨pos, between, here, rest⟩ := ran
  obtain ⟨rfl, rfl⟩ : reader.pos = pos ∧ reader = between := by simpa [position] using here
  split at rest
  next aligned =>
    obtain ⟨-, rfl⟩ := Prod.mk.inj rest
    exact ⟨rfl, (Bytes.align4_of_dvd (Nat.dvd_of_mod_eq_zero aligned)).symm⟩
  next unaligned =>
    obtain ⟨next, between, checked, moved⟩ := bind_eq_ok.mp rest
    obtain ⟨added, rfl⟩ := Prod.mk.inj checked
    obtain ⟨-, rfl⟩ := Outcome.checked_eq_ok.mp added
    obtain ⟨data, pos⟩ := sought moved
    refine ⟨data, pos.trans ?_⟩
    unfold Bytes.align4
    omega

/-- The bytes of a successful read and where it stops. -/
def Reads {α : Type} (action : Reader α) (size : Nat) (holds : Bytes → Nat → α → Prop) : Prop :=
  ∀ reader final value, action reader = (.ok value, final) →
    Moved reader final size ∧ holds reader.data reader.pos value

theorem Moved.trans {first second third : ByteReader} {left right : Nat}
    (before : Moved first second left) (after : Moved second third right) :
    Moved first third (left + right) :=
  ⟨after.1.trans before.1, by rw [after.2, before.2, add_assoc]⟩

/-- A row of equal reads returns what each place holds. -/
theorem reads_repeatM {α : Type} {action : Reader α} {size : Nat}
    {holds : Bytes → Nat → α → Prop} (one : Reads action size holds) (count : Nat) :
    Reads (repeatM action count) (count * size) fun data pos values =>
      values.length = count ∧
        ∀ index value, values[index]? = some value → holds data (pos + index * size) value := by
  induction count with
  | zero =>
    intro reader final values ran
    obtain ⟨found, rfl⟩ := Prod.mk.inj ran
    obtain rfl : [] = values := Outcome.ok.inj found
    exact ⟨⟨rfl, by simp⟩, rfl, by simp⟩
  | succ count ih =>
    intro reader final values ran
    obtain ⟨value, between, rest, first, later, rfl⟩ := repeatM_succ_eq_ok.mp ran
    obtain ⟨moved, here⟩ := one _ _ _ first
    obtain ⟨movedRest, length, there⟩ := ih _ _ _ later
    refine ⟨?_, by rw [List.length_cons, length], ?_⟩
    · have both := moved.trans movedRest
      rwa [show size + count * size = (count + 1) * size by ring] at both
    · intro index found present
      cases index with
      | zero =>
        obtain rfl : value = found := Option.some.inj present
        simpa using here
      | succ index =>
        have further := there index found (by simpa using present)
        rw [moved.1, moved.2] at further
        rwa [show reader.pos + (index + 1) * size = reader.pos + size + index * size by ring]

theorem reads_readU32 :
    Reads readU32 4 fun data pos value => Bytes.u32At data pos = some value := by
  intro reader final value ran
  obtain ⟨found, moved⟩ := readU32_eq_ok.mp ran
  exact ⟨moved, found⟩

theorem reads_readBytes (size : Nat) :
    Reads (readBytes size) size fun data pos bytes => Bytes.slice data pos size = some bytes := by
  intro reader final bytes ran
  obtain ⟨found, moved⟩ := readExact_eq_ok.mp ran
  exact ⟨moved, found⟩

theorem reads_readPair : Reads Parser.readPair 8 fun data pos pair =>
    Bytes.u32At data pos = some pair.1 ∧ Bytes.u32At data (pos + 4) = some pair.2 := by
  intro reader final pair ran
  obtain ⟨first, middle, readFirst, rest⟩ := bind_eq_ok.mp ran
  obtain ⟨second, last, readSecond, done⟩ := bind_eq_ok.mp rest
  obtain ⟨found, rfl⟩ := Prod.mk.inj done
  obtain rfl : (first, second) = pair := Outcome.ok.inj found
  obtain ⟨moved, here⟩ := reads_readU32 _ _ _ readFirst
  obtain ⟨movedOn, there⟩ := reads_readU32 _ _ _ readSecond
  rw [moved.1, moved.2] at there
  exact ⟨moved.trans movedOn, here, there⟩

end Reader

namespace Parser

open Reader Action

/-- A tracked section starts where the reader is, aligned or not, and ends at a
multiple of four. -/
theorem trackSection_eq_ok {α : Type} {name : SectionName} {entries : Option Nat} {parse : Reader α}
    {size : Nat} {holds : Bytes → Nat → α → Prop} (one : Reads parse size holds)
    {reader final : ByteReader} {value : α} {info : SectionInfo}
    (ran : trackSection name entries parse reader = (.ok (value, info), final)) :
    final.data = reader.data ∧ final.pos = Bytes.align4 (reader.pos + size) ∧
      holds reader.data reader.pos value ∧ info.name = name ∧ info.offset = reader.pos % 2 ^ 32 := by
  obtain ⟨start, _, here, rest⟩ := bind_eq_ok.mp ran
  obtain ⟨rfl, rfl⟩ : reader.pos = start ∧ reader = _ := by simpa [position] using here
  obtain ⟨result, middle, parsed, rest⟩ := bind_eq_ok.mp rest
  obtain ⟨_, aligned, padded, rest⟩ := bind_eq_ok.mp rest
  obtain ⟨finish, _, there, rest⟩ := bind_eq_ok.mp rest
  obtain ⟨-, rfl⟩ : aligned.pos = finish ∧ aligned = _ := by simpa [position] using there
  obtain ⟨found, rfl⟩ := Prod.mk.inj rest
  obtain ⟨rfl, rfl⟩ := Prod.mk.inj (Outcome.ok.inj found)
  obtain ⟨moved, here⟩ := one _ _ _ parsed
  obtain ⟨data, pos⟩ := align_eq_ok padded
  exact ⟨data.trans moved.1, by rw [pos, moved.2], here, rfl, rfl⟩

/-- A function header takes the size of its slot, wherever its large header is. -/
theorem reads_seekPast {currentPos size : Nat} {reader final : ByteReader} {done : PUnit}
    (ran : seekPast currentPos size reader = (.ok done, final)) :
    final.data = reader.data ∧ final.pos = currentPos + size := by
  obtain ⟨next, _, checked, sought⟩ := bind_eq_ok.mp ran
  obtain ⟨added, rfl⟩ := Prod.mk.inj checked
  obtain ⟨-, rfl⟩ := Outcome.checked_eq_ok.mp added
  unfold seek at sought
  split at sought
  · obtain ⟨-, rfl⟩ := Prod.mk.inj sought
    exact ⟨rfl, rfl⟩
  · simp at sought

section Function

variable {bytes : Bytes}

/-- The reader is over given bytes. -/
def Over (bytes : Bytes) (reader : ByteReader) : Prop := reader.data = bytes

theorem position_over : Preserves (Over bytes) position := fun _ onBytes => onBytes

theorem seek_over (pos : Nat) : Preserves (Over bytes) (seek pos) := by
  intro reader onBytes
  unfold seek
  split
  · exact onBytes
  · exact onBytes

theorem readExact_over (len : Nat) : Preserves (Over bytes) (readExact len) := by
  intro reader onBytes
  unfold readExact
  split
  · exact onBytes
  · exact onBytes

theorem readNat_over (width : Nat) : Preserves (Over bytes) (readNat width) :=
  preserves_bind (readExact_over width) fun _ => preserves_pure _

theorem parseLargeHeaderLegacy_over (offset functionId : Nat) :
    Preserves (Over bytes) (parseLargeHeaderLegacy offset functionId) := by
  refine preserves_bind position_over fun current => preserves_bind (seek_over _) fun _ => ?_
  iterate 10 refine preserves_bind (readNat_over _) fun _ => ?_
  exact preserves_bind (seek_over _) fun _ => preserves_pure _

theorem parseLargeHeaderModern_over (layout : ModernLayout) (offset functionId : Nat) :
    Preserves (Over bytes) (parseLargeHeaderModern layout offset functionId) :=
  preserves_bind position_over fun _ => preserves_bind (seek_over _) fun _ =>
    preserves_bind (readExact_over _) fun _ => preserves_bind (preserves_lift _) fun _ =>
      preserves_bind (seek_over _) fun _ => preserves_pure _

/-- A header is what its slot says, or what the large one does that the slot points to, and
the reader ends behind the slot. -/
theorem reads_slot {α : Type} {size : Nat} {overflows : Bytes → Bool} {parse : Bytes → Reader α}
    {wrap : α → FunctionHeader} {inline : Bytes → FunctionHeader}
    (keeps : ∀ bytes raw, Preserves (Over bytes) (parse raw)) :
    Reads (do
      let currentPos ← position
      let raw ← readBytes size
      if overflows raw then
        let large ← parse raw
        seekPast currentPos size
        pure (wrap large)
      else pure (inline raw)) size fun data pos header =>
        ∃ raw, Bytes.slice data pos size = some raw ∧
          if overflows raw then ∃ large before after, before.data = data ∧
            parse raw before = (.ok large, after) ∧ header = wrap large
          else header = inline raw := by
  intro reader final header ran
  obtain ⟨start, _, here, rest⟩ := bind_eq_ok.mp ran
  obtain ⟨rfl, rfl⟩ : reader.pos = start ∧ reader = _ := by simpa [position] using here
  obtain ⟨raw, middle, read, rest⟩ := bind_eq_ok.mp rest
  obtain ⟨moved, taken⟩ := reads_readBytes _ _ _ _ read
  split at rest
  next overflowed =>
    obtain ⟨large, later, parsed, rest⟩ := bind_eq_ok.mp rest
    obtain ⟨_, last, sought, done⟩ := bind_eq_ok.mp rest
    obtain ⟨same, rfl⟩ := Prod.mk.inj done
    obtain ⟨data, pos⟩ := reads_seekPast sought
    refine ⟨⟨data.trans ((keeps _ raw).of_run parsed moved.1), pos⟩, raw, taken, ?_⟩
    rw [if_pos overflowed]
    exact ⟨large, middle, later, moved.1, parsed, (Outcome.ok.inj same).symm⟩
  next inlined =>
    obtain ⟨same, rfl⟩ := Prod.mk.inj rest
    refine ⟨moved, raw, taken, ?_⟩
    rw [if_neg inlined]
    exact (Outcome.ok.inj same).symm

/-- A legacy function takes the size of its slot, wherever its large header is. -/
theorem reads_parseLegacyFunction (functionId : Nat) :
    Reads (parseLegacyFunction functionId) legacyHeaderSize fun _ _ _ => True :=
  fun _ _ _ ran => ⟨(reads_slot (fun _ _ => parseLargeHeaderLegacy_over _ _) _ _ _ ran).1, trivial⟩

/-- So does a modern one. -/
theorem reads_parseModernFunction (layout : ModernLayout) (functionId : Nat) :
    Reads (parseModernFunction layout functionId) modernHeaderSize fun _ _ _ => True :=
  fun _ _ _ ran =>
    ⟨(reads_slot (fun _ _ => parseLargeHeaderModern_over _ _ _) _ _ _ ran).1, trivial⟩

theorem reads_functionsFrom {parseOne : Nat → Reader FunctionHeader} {size : Nat}
    (one : ∀ functionId, Reads (parseOne functionId) size fun _ _ _ => True)
    (count functionId : Nat) :
    Reads (functionsFrom parseOne count functionId) (count * size) fun _ _ headers =>
      headers.length = count := by
  induction count generalizing functionId with
  | zero =>
    intro reader final headers ran
    obtain ⟨found, rfl⟩ := Prod.mk.inj ran
    obtain rfl : [] = headers := Outcome.ok.inj found
    exact ⟨⟨rfl, by simp⟩, rfl⟩
  | succ count ih =>
    intro reader final headers ran
    obtain ⟨header, between, first, rest⟩ := bind_eq_ok.mp ran
    obtain ⟨more, last, later, done⟩ := bind_eq_ok.mp rest
    obtain ⟨found, rfl⟩ := Prod.mk.inj done
    obtain rfl : header :: more = headers := Outcome.ok.inj found
    obtain ⟨moved, -⟩ := one functionId _ _ _ first
    obtain ⟨movedRest, length⟩ := ih (functionId + 1) _ _ _ later
    refine ⟨?_, (List.length_cons ..).trans (congrArg (· + 1) length)⟩
    have both := moved.trans movedRest
    rwa [show size + count * size = (count + 1) * size by ring] at both

/-- Size of a function's slot in a layout. -/
def slotSizeOf : FunctionHeaderLayout → Nat
  | .legacy16 => legacyHeaderSize
  | .modern12 => modernHeaderSize

/-- The function header table has one slot for each function. -/
theorem reads_parseFunctionHeaders (header : BytecodeHeader) :
    Reads (parseFunctionHeaders header)
      (header.functionCount * slotSizeOf header.functionHeaderLayout)
      fun _ _ headers => headers.length = header.functionCount := by
  unfold parseFunctionHeaders
  cases header.functionHeaderLayout with
  | legacy16 => exact reads_functionsFrom reads_parseLegacyFunction _ _
  | modern12 =>
    intro reader final headers ran
    obtain ⟨layout, _, found, rest⟩ := bind_eq_ok.mp ran
    obtain ⟨-, rfl⟩ := Prod.mk.inj found
    exact reads_functionsFrom (reads_parseModernFunction layout) _ _ _ _ _ rest

end Function

/-- Where the function headers end and the kind runs start. -/
def kindsStart (header : BytecodeHeader) : Nat :=
  Bytes.align4 (headerSize + header.functionCount * slotSizeOf header.functionHeaderLayout)

/-- Where the identifier hashes start. -/
def hashesStart (header : BytecodeHeader) : Nat := kindsStart header + header.stringKindCount * 4

/-- Where the small string table starts. -/
def smallStart (header : BytecodeHeader) : Nat := hashesStart header + header.identifierCount * 4

/-- Where the overflow records start. -/
def overflowStart (header : BytecodeHeader) : Nat := smallStart header + header.stringCount * 4

/-- Where the string storage starts. -/
def storageStart (header : BytecodeHeader) : Nat :=
  overflowStart header + header.overflowStringCount * 8

/-- Where the buffers start, right after the string region. -/
def buffersStart (header : BytecodeHeader) : Nat :=
  Bytes.align4 (storageStart header + header.stringStorageSize)

/-- Numbers in a row, four bytes each. -/
def Words (bytes : Bytes) (start count : Nat) (values : List Nat) : Prop :=
  values.length = count ∧
    ∀ index value, values[index]? = some value → Bytes.u32At bytes (start + index * 4) = some value

/-- Pairs of numbers in a row, eight bytes each. -/
def Pairs (bytes : Bytes) (start count : Nat) (values : List (Nat × Nat)) : Prop :=
  values.length = count ∧
    ∀ index value, values[index]? = some value →
      Bytes.u32At bytes (start + index * 8) = some value.1 ∧
        Bytes.u32At bytes (start + index * 8 + 4) = some value.2

/-- The string tables are what the bytes hold at the places the header implies. -/
structure TablesAt (bytes : Bytes) (header : BytecodeHeader) (tables : CommonTables) : Prop where
  functions : tables.functionHeaders.length = header.functionCount
  kinds : ∃ raw, Words bytes (kindsStart header) header.stringKindCount raw ∧
    tables.stringKinds = raw.map kindOfRaw
  hashes : Words bytes (hashesStart header) header.identifierCount tables.identifierHashes
  small : Words bytes (smallStart header) header.stringCount tables.smallStringTable
  overflow : Pairs bytes (overflowStart header) header.overflowStringCount
    tables.overflowStringTable
  storage : Bytes.slice bytes (storageStart header) header.stringStorageSize =
    some tables.stringStorage

/-- The sections of the string tables, in file order. -/
def commonPlaces (header : BytecodeHeader) : List (SectionName × Nat) :=
  [(.functionHeaders, headerSize), (.stringKinds, kindsStart header),
    (.identifierHashes, hashesStart header), (.smallStringTable, smallStart header),
    (.overflowStringTable, overflowStart header), (.stringStorage, storageStart header)]

/-- A section with the place it is recorded at, in 32 bits. -/
def placed (info : SectionInfo) : SectionName × Nat := (info.name, info.offset)

theorem reads_parseU32Vec (count : Nat) :
    Reads (parseU32Vec count) (count * 4) fun data pos values => Words data pos count values :=
  reads_repeatM reads_readU32 count

theorem reads_parsePairTable (count : Nat) :
    Reads (parsePairTable count) (count * 8) fun data pos values => Pairs data pos count values :=
  reads_repeatM reads_readPair count

theorem reads_parseStringKinds (count : Nat) :
    Reads (parseStringKinds count) (count * 4) fun data pos kinds =>
      ∃ raw, Words data pos count raw ∧ kinds = raw.map kindOfRaw := by
  intro reader final kinds ran
  obtain ⟨raw, between, read, done⟩ := bind_eq_ok.mp ran
  obtain ⟨found, rfl⟩ := Prod.mk.inj done
  obtain ⟨moved, words⟩ := reads_parseU32Vec count _ _ _ read
  exact ⟨moved, raw, words, (Outcome.ok.inj found).symm⟩

/-- Reading the string tables finds them at their places and stops where the
buffers start. -/
theorem parseCommonTables_eq_ok {header : BytecodeHeader} {reader final : ByteReader}
    {tables : CommonTables} {sections : List SectionInfo} (starts : reader.pos = headerSize)
    (ran : parseCommonTables header reader = (.ok (tables, sections), final)) :
    final.data = reader.data ∧ final.pos = buffersStart header ∧
      TablesAt reader.data header tables ∧
      sections.map placed = (commonPlaces header).map fun (name, pos) => (name, pos % 2 ^ 32) := by
  simp only [parseCommonTables, bind_eq_ok, pure_apply, Prod.mk.injEq, Outcome.ok.injEq] at ran
  obtain ⟨⟨functions, s1⟩, r1, read1, ⟨kinds, s2⟩, r2, read2, ⟨hashes, s3⟩, r3, read3,
    ⟨small, s4⟩, r4, read4, ⟨overflow, s5⟩, r5, read5, ⟨storage, s6⟩, r6, read6,
    ⟨rfl, rfl⟩, rfl⟩ := ran
  obtain ⟨d1, p1, h1, n1, o1⟩ := trackSection_eq_ok (reads_parseFunctionHeaders header) read1
  obtain ⟨d2, p2, h2, n2, o2⟩ := trackSection_eq_ok (reads_parseStringKinds _) read2
  obtain ⟨d3, p3, h3, n3, o3⟩ := trackSection_eq_ok (reads_parseU32Vec _) read3
  obtain ⟨d4, p4, h4, n4, o4⟩ := trackSection_eq_ok (reads_parseU32Vec _) read4
  obtain ⟨d5, p5, h5, n5, o5⟩ := trackSection_eq_ok (reads_parsePairTable _) read5
  obtain ⟨d6, p6, h6, n6, o6⟩ := trackSection_eq_ok (reads_readBytes _) read6
  have aligned : 4 ∣ kindsStart header := Bytes.align4_dvd _
  have at1 : r1.pos = kindsStart header := by rw [p1, starts]; rfl
  have at2 : r2.pos = hashesStart header := by rw [p2, at1, Bytes.align4_of_dvd (by omega)]; rfl
  have at3 : r3.pos = smallStart header := by
    rw [p3, at2, Bytes.align4_of_dvd (by unfold hashesStart; omega)]; rfl
  have at4 : r4.pos = overflowStart header := by
    rw [p4, at3, Bytes.align4_of_dvd (by unfold smallStart hashesStart; omega)]; rfl
  have at5 : r5.pos = storageStart header := by
    rw [p5, at4, Bytes.align4_of_dvd (by unfold overflowStart smallStart hashesStart; omega)]; rfl
  have data2 := d2.trans d1
  have data3 := d3.trans data2
  have data4 := d4.trans data3
  have data5 := d5.trans data4
  refine ⟨d6.trans data5, by rw [p6, at5]; rfl, ?_, ?_⟩
  · exact ⟨h1, at1 ▸ d1 ▸ h2, at2 ▸ data2 ▸ h3, at3 ▸ data3 ▸ h4, at4 ▸ data4 ▸ h5,
      at5 ▸ data5 ▸ h6⟩
  · simp [placed, commonPlaces, n1, n2, n3, n4, n5, n6, o1, o2, o3, o4, o5, o6, starts, at1, at2,
      at3, at4, at5]

theorem seek_ran {reader final : ByteReader} {pos : Nat} {done : PUnit}
    (ran : seek pos reader = (.ok done, final)) : final.data = reader.data ∧ final.pos = pos := by
  unfold seek at ran
  split at ran
  · obtain ⟨-, rfl⟩ := Prod.mk.inj ran
    exact ⟨rfl, rfl⟩
  · simp at ran

end Parser

end HermesDecomp
