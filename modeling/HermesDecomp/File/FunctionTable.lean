import HermesDecomp.File.Places

/-!
# The function table of an image

A function header is what its slot says, or what the large header says that the slot points to.
-/

namespace HermesDecomp.Parser

open Reader Action Bytes

/-- The little-endian number in a part of some bytes. -/
def numberAt (raw : Bytes) (start width : Nat) : Nat := leNat ((raw.drop start).take width)

/-- Size of a legacy large header. -/
def legacyLargeSize : Nat := 31

/-- The fields of a legacy large header. -/
def legacyLarge (functionId : Nat) (raw : Bytes) : LegacyFunctionHeader where
  functionId := functionId
  offset := numberAt raw 0 4
  paramCount := numberAt raw 4 4
  bytecodeSizeInBytes := numberAt raw 8 4
  functionName := numberAt raw 12 4
  infoOffset := numberAt raw 16 4
  frameSize := numberAt raw 20 4
  environmentSize := numberAt raw 24 4
  highestReadCacheIndex := numberAt raw 28 1
  highestWriteCacheIndex := numberAt raw 29 1
  flags := numberAt raw 30 1 ||| flagOverflowed

/-- The bytes of a function's slot. -/
def slotAt (header : BytecodeHeader) (bytes : Bytes) (functionId : Nat) : Option Bytes :=
  slice bytes (headerSize + functionId * slotSizeOf header.functionHeaderLayout)
    (slotSizeOf header.functionHeaderLayout)

/-- What a slot says: the inline header, and the place of the large one when it overflows. -/
def readInline (header : BytecodeHeader) (functionId : Nat) (slot : Bytes) :
    Option (FunctionHeader × Option (Nat × Nat)) :=
  match header.functionHeaderLayout with
  | .legacy16 =>
      let inline := legacyInline functionId (leNat slot)
      some (.legacy inline, if hasFlag inline.flags flagOverflowed then
        some (legacyLargeOffset inline, legacyLargeSize) else none)
  | .modern12 =>
      match ModernLayout.forVersion header.version with
      | .ok layout =>
          let inline := modernInline layout functionId (leNat slot)
          some (.modern inline, if hasFlag inline.flags flagOverflowed then
            some (modernLargeOffsetOf inline, layout.largeSize) else none)
      | _ => none

/-- What the bytes of a large header say. -/
def readLarge (header : BytecodeHeader) (functionId place : Nat) (raw : Bytes) :
    Option FunctionHeader :=
  match header.functionHeaderLayout with
  | .legacy16 => some (.legacy (legacyLarge functionId raw))
  | .modern12 =>
      match ModernLayout.forVersion header.version with
      | .ok layout =>
          match modernLarge layout place functionId raw with
          | .ok large => some (.modern large)
          | _ => none
      | _ => none

/-- Where the large header of a function is and how many bytes it has, when the function
overflows. -/
def largeAt (header : BytecodeHeader) (bytes : Bytes) (functionId : Nat) : Option (Nat × Nat) := do
  let slot ← slotAt header bytes functionId
  let (_, large) ← readInline header functionId slot
  large

/-- A function header as the bytes of an image say it. -/
def functionAt (header : BytecodeHeader) (bytes : Bytes) (functionId : Nat) :
    Option FunctionHeader := do
  let slot ← slotAt header bytes functionId
  let (inline, large) ← readInline header functionId slot
  match large with
  | none => some inline
  | some (place, size) => do
      let raw ← slice bytes place size
      readLarge header functionId place raw

/-- A part of a slice is the number at its place. -/
theorem numberAt_slice {bytes raw : Bytes} {place size start width value : Nat}
    (taken : slice bytes place size = some raw) (inside : start + width ≤ size)
    (read : (slice bytes (place + start) width).map leNat = some value) :
    numberAt raw start width = value := by
  obtain ⟨part, found, rfl⟩ := Option.map_eq_some_iff.mp read
  have length := slice_length taken
  have same : slice raw start width = some part := by
    rw [← found]
    obtain ⟨fits, -⟩ := slice_eq_some.mp taken
    refine slice_congr (length ▸ inside) (by omega) ?_
    intro index bounded
    rw [add_assoc]
    exact slice_getElem? taken (by omega)
  rw [numberAt, (slice_eq_some.mp same).2]

variable {reader final : ByteReader}

/-- A legacy large header is read from its bytes. -/
theorem parseLargeHeaderLegacy_eq_ok {offset functionId : Nat} {large : LegacyFunctionHeader}
    (ran : parseLargeHeaderLegacy offset functionId reader = (.ok large, final)) :
    ∃ raw, slice reader.data offset legacyLargeSize = some raw ∧ large = legacyLarge functionId raw := by
  obtain ⟨current, r0, here, ran⟩ := bind_eq_ok.mp ran
  obtain ⟨-, rfl⟩ := Prod.mk.inj here
  obtain ⟨_, r1, sought, ran⟩ := bind_eq_ok.mp ran
  obtain ⟨data, pos⟩ := seek_ran sought
  obtain ⟨v1, r2, read1, ran⟩ := bind_eq_ok.mp ran
  obtain ⟨v2, r3, read2, ran⟩ := bind_eq_ok.mp ran
  obtain ⟨v3, r4, read3, ran⟩ := bind_eq_ok.mp ran
  obtain ⟨v4, r5, read4, ran⟩ := bind_eq_ok.mp ran
  obtain ⟨v5, r6, read5, ran⟩ := bind_eq_ok.mp ran
  obtain ⟨v6, r7, read6, ran⟩ := bind_eq_ok.mp ran
  obtain ⟨v7, r8, read7, ran⟩ := bind_eq_ok.mp ran
  obtain ⟨v8, r9, read8, ran⟩ := bind_eq_ok.mp ran
  obtain ⟨v9, r10, read9, ran⟩ := bind_eq_ok.mp ran
  obtain ⟨v10, r11, read10, ran⟩ := bind_eq_ok.mp ran
  obtain ⟨_, r12, -, done⟩ := bind_eq_ok.mp ran
  obtain ⟨same, -⟩ := Prod.mk.inj done
  cases same
  obtain ⟨f1, d1, p1⟩ := readNat_eq_ok.mp read1
  obtain ⟨f2, d2, p2⟩ := readNat_eq_ok.mp read2
  obtain ⟨f3, d3, p3⟩ := readNat_eq_ok.mp read3
  obtain ⟨f4, d4, p4⟩ := readNat_eq_ok.mp read4
  obtain ⟨f5, d5, p5⟩ := readNat_eq_ok.mp read5
  obtain ⟨f6, d6, p6⟩ := readNat_eq_ok.mp read6
  obtain ⟨f7, d7, p7⟩ := readNat_eq_ok.mp read7
  obtain ⟨f8, d8, p8⟩ := readNat_eq_ok.mp read8
  obtain ⟨f9, d9, p9⟩ := readNat_eq_ok.mp read9
  obtain ⟨f10, d10, p10⟩ := readNat_eq_ok.mp read10
  simp only [d1, d2, d3, d4, d5, d6, d7, d8, d9, data, p1, p2, p3, p4, p5, p6, p7, p8, p9, pos,
    add_assoc, Nat.reduceAdd] at f1 f2 f3 f4 f5 f6 f7 f8 f9 f10
  have fits : offset + legacyLargeSize ≤ reader.data.length := by
    obtain ⟨part, found, -⟩ := Option.map_eq_some_iff.mp f10
    exact (slice_eq_some.mp found).1
  refine ⟨(reader.data.drop offset).take legacyLargeSize, ?_, ?_⟩
  · exact slice_eq_some.mpr ⟨fits, rfl⟩
  · have taken : slice reader.data offset legacyLargeSize =
        some ((reader.data.drop offset).take legacyLargeSize) := slice_eq_some.mpr ⟨fits, rfl⟩
    rw [← add_zero offset] at f1
    unfold legacyLarge
    rw [numberAt_slice taken (by decide) f1, numberAt_slice taken (by decide) f2,
      numberAt_slice taken (by decide) f3, numberAt_slice taken (by decide) f4,
      numberAt_slice taken (by decide) f5, numberAt_slice taken (by decide) f6,
      numberAt_slice taken (by decide) f7, numberAt_slice taken (by decide) f8,
      numberAt_slice taken (by decide) f9, numberAt_slice taken (by decide) f10]

/-- A modern large header is read from its bytes. -/
theorem parseLargeHeaderModern_eq_ok {layout : ModernLayout} {offset functionId : Nat}
    {large : ModernFunctionHeader}
    (ran : parseLargeHeaderModern layout offset functionId reader = (.ok large, final)) :
    ∃ raw, slice reader.data offset layout.largeSize = some raw ∧
      modernLarge layout offset functionId raw = .ok large := by
  obtain ⟨current, r0, here, ran⟩ := bind_eq_ok.mp ran
  obtain ⟨-, rfl⟩ := Prod.mk.inj here
  obtain ⟨_, r1, sought, ran⟩ := bind_eq_ok.mp ran
  obtain ⟨data, pos⟩ := seek_ran sought
  obtain ⟨raw, r2, read, ran⟩ := bind_eq_ok.mp ran
  obtain ⟨found, -⟩ := readExact_eq_ok.mp read
  obtain ⟨header, r3, made, ran⟩ := bind_eq_ok.mp ran
  obtain ⟨whole, rfl⟩ := Prod.mk.inj made
  obtain ⟨_, r4, -, done⟩ := bind_eq_ok.mp ran
  obtain ⟨same, -⟩ := Prod.mk.inj done
  cases same
  rw [data, pos] at found
  exact ⟨raw, found, whole⟩

variable {header : BytecodeHeader} {functionId : Nat} {found : FunctionHeader}

/-- A legacy function is read from its slot and its large header. -/
theorem parseLegacyFunction_eq_ok (legacy : header.functionHeaderLayout = .legacy16)
    (place : reader.pos = headerSize + functionId * slotSizeOf header.functionHeaderLayout)
    (ran : parseLegacyFunction functionId reader = (.ok found, final)) :
    functionAt header reader.data functionId = some found := by
  obtain ⟨-, slot, taken, rest⟩ := reads_slot (fun _ _ => parseLargeHeaderLegacy_over _ _) _ _ _ ran
  have slotFound : slotAt header reader.data functionId = some slot := by
    rw [slotAt, ← place, legacy]
    exact taken
  unfold functionAt readInline readLarge
  rw [slotFound, legacy]
  dsimp only [Option.bind_eq_bind, Option.bind_some]
  split at rest
  next overflowed =>
    obtain ⟨large, before, after, data, largeRead, rfl⟩ := rest
    obtain ⟨raw, found, rfl⟩ := parseLargeHeaderLegacy_eq_ok largeRead
    rw [data] at found
    rw [if_pos overflowed]
    dsimp only
    rw [found]
    rfl
  next inline => rw [if_neg inline, rest]

/-- So is a modern one. -/
theorem parseModernFunction_eq_ok {layout : ModernLayout}
    (modern : header.functionHeaderLayout = .modern12)
    (known : ModernLayout.forVersion header.version = .ok layout)
    (place : reader.pos = headerSize + functionId * slotSizeOf header.functionHeaderLayout)
    (ran : parseModernFunction layout functionId reader = (.ok found, final)) :
    functionAt header reader.data functionId = some found := by
  obtain ⟨-, slot, taken, rest⟩ :=
    reads_slot (fun _ _ => parseLargeHeaderModern_over _ _ _) _ _ _ ran
  have slotFound : slotAt header reader.data functionId = some slot := by
    rw [slotAt, ← place, modern]
    exact taken
  unfold functionAt readInline readLarge
  rw [slotFound, modern, known]
  dsimp only [Option.bind_eq_bind, Option.bind_some]
  split at rest
  next overflowed =>
    obtain ⟨large, before, after, data, largeRead, rfl⟩ := rest
    obtain ⟨raw, found, made⟩ := parseLargeHeaderModern_eq_ok largeRead
    rw [data] at found
    rw [if_pos overflowed]
    dsimp only
    rw [found]
    dsimp only [Option.bind_some]
    rw [made]
  next inline => rw [if_neg inline, rest]

/-- The functions that are read one after the other are each read at their slots. -/
theorem functionsFrom_getElem? {parseOne : Nat → Reader FunctionHeader} {size : Nat}
    (one : ∀ functionId, Reads (parseOne functionId) size fun _ _ _ => True)
    {count first index : Nat} {headers : List FunctionHeader}
    (ran : functionsFrom parseOne count first reader = (.ok headers, final))
    (present : headers[index]? = some found) :
    ∃ before after, before.data = reader.data ∧ before.pos = reader.pos + index * size ∧
      parseOne (first + index) before = (.ok found, after) := by
  induction count generalizing first index reader headers with
  | zero =>
    obtain ⟨same, -⟩ := Prod.mk.inj ran
    cases same
    cases present
  | succ count ih =>
    obtain ⟨head, between, read, rest⟩ := bind_eq_ok.mp ran
    obtain ⟨more, last, later, done⟩ := bind_eq_ok.mp rest
    obtain ⟨same, rfl⟩ := Prod.mk.inj done
    cases same
    obtain ⟨⟨data, pos⟩, -⟩ := one first _ _ _ read
    cases index with
    | zero =>
      cases present
      exact ⟨reader, between, rfl, by rw [zero_mul, add_zero], read⟩
    | succ index =>
      obtain ⟨before, after, data', pos', parsed⟩ := ih later present
      refine ⟨before, after, data'.trans data, ?_, ?_⟩
      · rw [pos', pos, Nat.succ_mul, add_assoc, add_comm size]
      · rwa [add_assoc, add_comm 1 index] at parsed

/-- Every function of a table is what the bytes say. -/
theorem parseFunctionHeaders_at {headers : List FunctionHeader} (start : reader.pos = headerSize)
    (ran : parseFunctionHeaders header reader = (.ok headers, final))
    (present : headers[functionId]? = some found) :
    functionAt header reader.data functionId = some found := by
  unfold parseFunctionHeaders at ran
  cases shape : header.functionHeaderLayout with
  | legacy16 =>
    rw [shape] at ran
    obtain ⟨before, after, data, pos, parsed⟩ :=
      functionsFrom_getElem? reads_parseLegacyFunction ran present
    rw [zero_add] at parsed
    rw [← data]
    refine parseLegacyFunction_eq_ok shape ?_ parsed
    rw [pos, start, shape]
    rfl
  | modern12 =>
    rw [shape] at ran
    obtain ⟨layout, _, lifted, ran⟩ := bind_eq_ok.mp ran
    obtain ⟨known, rfl⟩ := Prod.mk.inj lifted
    obtain ⟨before, after, data, pos, parsed⟩ :=
      functionsFrom_getElem? (reads_parseModernFunction layout) ran present
    rw [zero_add] at parsed
    rw [← data]
    refine parseModernFunction_eq_ok shape known ?_ parsed
    rw [pos, start, shape]
    rfl

/-- A function header that no change touches says what it said. -/
theorem functionAt_unchanged {before after : Bytes} {touched : Nat → Prop}
    (kept : Unchanged before after touched)
    (slotFree : ∀ index, touched index → index < headerSize +
        functionId * slotSizeOf header.functionHeaderLayout ∨
      headerSize + (functionId + 1) * slotSizeOf header.functionHeaderLayout ≤ index)
    (largeFree : ∀ place size, largeAt header before functionId = some (place, size) →
      ∀ index, touched index → index < place ∨ place + size ≤ index) :
    functionAt header after functionId = functionAt header before functionId := by
  have slot : slotAt header after functionId = slotAt header before functionId := by
    refine kept.slice_eq fun index low high hit => ?_
    have free := slotFree index hit
    rw [Nat.succ_mul] at free
    omega
  unfold functionAt
  rw [slot]
  unfold largeAt at largeFree
  cases found : slotAt header before functionId with
  | none => rfl
  | some raw =>
    rw [found] at largeFree
    dsimp only [Option.bind_eq_bind, Option.bind_some] at largeFree ⊢
    cases read : readInline header functionId raw with
    | none => rfl
    | some inline =>
      obtain ⟨inline, large⟩ := inline
      rw [read] at largeFree
      dsimp only [Option.bind_some] at largeFree ⊢
      cases large with
      | none => rfl
      | some range =>
        obtain ⟨place, size⟩ := range
        have same : slice after place size = slice before place size := by
          refine kept.slice_eq fun index low high hit => ?_
          have free := largeFree place size rfl index hit
          omega
        dsimp only
        rw [same]

end HermesDecomp.Parser
