import HermesDecomp.Debug

/-!
# What can overflow in the debug section

Reading the section never panics but for one thing: the running sums of a
location stream. The deltas of a stream are defined here without summing them,
so that whether the sums stay in range is a condition on the bytes.
-/

namespace HermesDecomp.DebugInfo

open Reader Action

/-- One entry of a stream, undecoded: the address delta and, when the entry
carries a location, the line and column deltas. -/
abbrev Delta := Int × Option (Int × Int)

/-- The deltas of a legacy stream, up to its end or the first read that fails. -/
def legacyDeltas : (guard : Nat) → ByteReader → List Delta
  | 0, _ => []
  | guard + 1, reader => match readSleb128 reader with
    | (.ok addressDelta, next) =>
        if addressDelta = -1 then []
        else match legacyEntry next with
          | (.ok (lineDelta, columnDelta, _), rest) =>
              (addressDelta, some (lineDelta, columnDelta)) :: legacyDeltas guard rest
          | _ => []
    | _ => []

/-- The deltas of a modern stream. An address delta counts even when the rest of
its entry does not read. -/
def modernDeltas : (guard : Nat) → ByteReader → List Delta
  | 0, _ => []
  | guard + 1, reader => match readSleb128 reader with
    | (.ok addressDelta, next) =>
        if addressDelta = -1 then []
        else match modernEntry next with
          | (.ok location, rest) => (addressDelta, location) :: modernDeltas guard rest
          | _ => [(addressDelta, none)]
    | _ => []

/-- The deltas of a stream after its prologue. -/
def streamDeltas (encoding : StreamEncoding) (reader : ByteReader) : List Delta :=
  match encoding with
  | .legacy => legacyDeltas streamGuard reader
  | .modern => modernDeltas streamGuard reader

/-- A number of 64 bits with a sign. -/
def InI64 (value : Int) : Prop := -2 ^ 63 ≤ value ∧ value < 2 ^ 63

instance (value : Int) : Decidable (InI64 value) := inferInstanceAs (Decidable (_ ∧ _))

/-- Every running sum of the deltas, from a cursor on, stays in 64 bits. -/
def SumsFit (cursor : Cursor) : List Delta → Prop
  | [] => True
  | (addressDelta, none) :: rest =>
      InI64 (cursor.address + addressDelta) ∧
        SumsFit { cursor with address := cursor.address + addressDelta } rest
  | (addressDelta, some (lineDelta, columnDelta)) :: rest =>
      InI64 (cursor.address + addressDelta) ∧ InI64 (cursor.line + lineDelta) ∧
        InI64 (cursor.column + columnDelta) ∧
        SumsFit ⟨cursor.address + addressDelta, cursor.line + lineDelta,
          cursor.column + columnDelta⟩ rest

/-- The sums of the stream at `offset` of the debug data stay in 64 bits, when
there is a stream. -/
def StreamFits (data : Bytes) (encoding : StreamEncoding) (offset : Nat) : Prop :=
  offset ≤ data.length → ∀ cursor reader,
    prologue encoding (.new (data.drop offset)) = (.ok cursor, reader) →
      SumsFit cursor (streamDeltas encoding reader)

theorem addI64_apply (left right : Int) (reader : ByteReader) :
    addI64 left right reader = (if InI64 (left + right) then .ok (left + right) else .panic, reader) :=
  rfl

section Quiet

variable {invariant : ByteReader → Prop} (number : SafeOn invariant readSleb128)

include number

theorem safe_legacyEntry : SafeOn invariant legacyEntry :=
  safe_bind number fun _ => safe_bind number fun _ => safe_bind number fun _ =>
    safe_bind number fun _ => safe_ite (fun _ => safe_bind number fun _ => safe_pure _)
      fun _ => safe_pure _

theorem safe_skipDelta (lineDelta : Int) (position : Nat) :
    SafeOn invariant (skipDelta lineDelta position) :=
  safe_ite (fun _ => safe_bind number fun _ => safe_pure _) fun _ => safe_pure _

theorem safe_modernEntry : SafeOn invariant modernEntry :=
  safe_bind number fun lineDelta => safe_ite (fun _ => safe_pure _) fun _ =>
    safe_bind number fun _ => safe_bind (safe_skipDelta number lineDelta 1) fun _ =>
      safe_bind (safe_skipDelta number lineDelta 2) fun _ => safe_pure _

theorem safe_prologue (encoding : StreamEncoding) : SafeOn invariant (prologue encoding) := by
  refine safe_bind number fun _ => safe_bind number fun _ => safe_bind number fun _ => ?_
  cases encoding with
  | legacy => exact safe_pure _
  | modern => exact safe_bind number fun _ => safe_pure _

end Quiet

/-- A legacy stream panics exactly when one of its sums leaves the range. -/
theorem legacyEntries_panics (guard : Nat) (cursor : Cursor) (reader : ByteReader) :
    (legacyEntries guard cursor reader).1 = .panic ↔ ¬ SumsFit cursor (legacyDeltas guard reader) := by
  induction guard generalizing cursor reader with
  | zero => simp [legacyEntries, legacyDeltas, SumsFit]
  | succ guard ih =>
    have quiet := (readSleb128_quiet reader trivial).1
    simp only [legacyEntries, legacyDeltas, bind_apply, attempt]
    rcases first : readSleb128 reader with ⟨outcome, next⟩
    rw [first] at quiet
    cases outcome with
    | panic => exact absurd rfl quiet
    | err error => simp [SumsFit]
    | ok addressDelta =>
      by_cases ends : addressDelta = -1
      · simp [ends, SumsFit]
      · have quietEntry := (safe_legacyEntry readSleb128_quiet next trivial).1
        simp only [if_neg ends, bind_apply, attempt]
        rcases entry : legacyEntry next with ⟨outcome, rest⟩
        rw [entry] at quietEntry
        cases outcome with
        | panic => exact absurd rfl quietEntry
        | err error => simp [SumsFit]
        | ok location =>
          obtain ⟨lineDelta, columnDelta, scopeAddress⟩ := location
          simp only [bind_apply, addI64_apply, SumsFit]
          by_cases address : InI64 (cursor.address + addressDelta)
          · by_cases line : InI64 (cursor.line + lineDelta)
            · by_cases column : InI64 (cursor.column + columnDelta)
              · have tail := ih ⟨cursor.address + addressDelta,
                  cursor.line + lineDelta, cursor.column + columnDelta⟩ rest
                simp only [address, line, column, if_true, true_and] at tail ⊢
                rw [← tail]
                rcases legacyEntries guard _ rest with ⟨_ | _ | _, _⟩ <;> simp
              · simp [address, line, column]
            · simp [address, line]
          · simp [address]

/-- A modern stream panics exactly when one of its sums leaves the range. -/
theorem modernEntries_panics (guard : Nat) (cursor : Cursor) (reader : ByteReader) :
    (modernEntries guard cursor reader).1 = .panic ↔ ¬ SumsFit cursor (modernDeltas guard reader) := by
  induction guard generalizing cursor reader with
  | zero => simp [modernEntries, modernDeltas, SumsFit]
  | succ guard ih =>
    have quiet := (readSleb128_quiet reader trivial).1
    simp only [modernEntries, modernDeltas, bind_apply, attempt]
    rcases first : readSleb128 reader with ⟨outcome, next⟩
    rw [first] at quiet
    cases outcome with
    | panic => exact absurd rfl quiet
    | err error => simp [SumsFit]
    | ok addressDelta =>
      by_cases ends : addressDelta = -1
      · simp [ends, SumsFit]
      · have quietEntry := (safe_modernEntry readSleb128_quiet next trivial).1
        simp only [if_neg ends, bind_apply, addI64_apply]
        by_cases address : InI64 (cursor.address + addressDelta)
        · simp only [address, if_true, attempt]
          rcases entry : modernEntry next with ⟨outcome, rest⟩
          rw [entry] at quietEntry
          cases outcome with
          | panic => exact absurd rfl quietEntry
          | err error => simp [SumsFit, address]
          | ok location =>
            cases location with
            | none =>
              have tail := ih { cursor with
                address := cursor.address + addressDelta } rest
              simp only [SumsFit, address, true_and]
              exact tail
            | some deltas =>
              obtain ⟨lineDelta, columnDelta⟩ := deltas
              simp only [bind_apply, addI64_apply, SumsFit, address, true_and]
              by_cases line : InI64 (cursor.line + lineDelta)
              · by_cases column : InI64 (cursor.column + columnDelta)
                · have tail := ih ⟨cursor.address + addressDelta,
                    cursor.line + lineDelta, cursor.column + columnDelta⟩ rest
                  simp only [line, column, if_true, true_and] at tail ⊢
                  rw [← tail]
                  rcases modernEntries guard _ rest with ⟨_ | _ | _, _⟩ <;> simp
                · simp [line, column]
              · simp [line]
        · rcases modernEntry next with ⟨(_ | ⟨_, _⟩) | _ | _, _⟩ <;> simp [SumsFit, address]

/-- The entries of a stream panic exactly when one of their sums leaves the range. -/
theorem streamEntries_panics (encoding : StreamEncoding) (cursor : Cursor) (reader : ByteReader) :
    (streamEntries encoding cursor reader).1 = .panic ↔
      ¬ SumsFit cursor (streamDeltas encoding reader) := by
  cases encoding with
  | legacy => exact legacyEntries_panics streamGuard cursor reader
  | modern => exact modernEntries_panics streamGuard cursor reader

/-- A stream panics exactly when there is one and its sums do not fit. -/
theorem parseLocationStream_panics (data : Bytes) (offset : Nat) (encoding : StreamEncoding) :
    parseLocationStream data offset encoding = .panic ↔ ¬ StreamFits data encoding offset := by
  unfold parseLocationStream StreamFits
  by_cases outside : data.length < offset
  · rw [if_pos outside]
    simp [not_le.mpr outside]
  · have quiet := (safe_prologue readSleb128_quiet encoding (.new (data.drop offset)) trivial).1
    rw [if_neg outside]
    rcases first : prologue encoding (.new (data.drop offset)) with ⟨outcome, reader⟩
    rw [first] at quiet
    cases outcome with
    | panic => exact absurd rfl quiet
    | err error => simp
    | ok cursor =>
      simp only [Outcome.bind_eq_panic, streamEntries_panics]
      constructor
      · rintro (panics | ⟨rest, -, impossible⟩)
        · intro fits
          exact panics (fits (not_lt.mp outside) cursor reader rfl)
        · exact absurd impossible (Outcome.pure_ne_panic _)
      · intro fails
        left
        intro fits
        apply fails
        intro _ cursor' reader' same
        obtain ⟨rfl, rfl⟩ : cursor = cursor' ∧ reader = reader' := by simpa using same
        exact fits

/-- The entries of a stream end where a read fails; that is not an error. -/
theorem unfailing_legacyEntries (guard : Nat) (cursor : Cursor) :
    Unfailing (legacyEntries guard cursor) := by
  induction guard generalizing cursor with
  | zero => exact unfailing_pure _
  | succ guard ih =>
    refine unfailing_bind (unfailing_attempt _) fun read => ?_
    rcases read with error | addressDelta
    · exact unfailing_pure _
    refine unfailing_ite (unfailing_pure _) (unfailing_bind (unfailing_attempt _) fun read => ?_)
    rcases read with error | ⟨lineDelta, columnDelta, scopeAddress⟩
    · exact unfailing_pure _
    exact unfailing_bind (unfailing_checked _ _) fun _ => unfailing_bind (unfailing_checked _ _)
      fun _ => unfailing_bind (unfailing_checked _ _) fun _ =>
        unfailing_bind (ih _) fun _ => unfailing_pure _

theorem unfailing_modernEntries (guard : Nat) (cursor : Cursor) :
    Unfailing (modernEntries guard cursor) := by
  induction guard generalizing cursor with
  | zero => exact unfailing_pure _
  | succ guard ih =>
    refine unfailing_bind (unfailing_attempt _) fun read => ?_
    rcases read with error | addressDelta
    · exact unfailing_pure _
    refine unfailing_ite (unfailing_pure _) (unfailing_bind (unfailing_checked _ _) fun address =>
      unfailing_bind (unfailing_attempt _) fun read => ?_)
    rcases read with error | _ | ⟨lineDelta, columnDelta⟩
    · exact unfailing_pure _
    · exact ih _
    · exact unfailing_bind (unfailing_checked _ _) fun _ => unfailing_bind (unfailing_checked _ _)
        fun _ => unfailing_bind (ih _) fun _ => unfailing_pure _

/-- Decoding a stream finds one or finds none; it returns no error. -/
theorem parseLocationStream_ne_err (data : Bytes) (offset : Nat) (encoding : StreamEncoding)
    (error : Error) : parseLocationStream data offset encoding ≠ .err error := by
  have entries : ∀ cursor, Unfailing (streamEntries encoding cursor) := by
    intro cursor
    cases encoding with
    | legacy => exact unfailing_legacyEntries _ _
    | modern => exact unfailing_modernEntries _ _
  unfold parseLocationStream
  split
  · simp
  · split
    · simp
    · simp
    next cursor reader _ =>
      have quiet := entries cursor reader
      cases read : (streamEntries encoding cursor reader).1 with
      | ok rest => simp
      | err error => exact absurd read (quiet error)
      | panic => simp

/-- Reading all streams panics exactly when one that exists does not fit. -/
theorem parseStreams_panics (data : Bytes) (encoding : StreamEncoding)
    (offsets : OrdMap FunctionDebugOffsets) :
    parseStreams data encoding offsets = .panic ↔
      ¬ ∀ entry ∈ offsets, entry.2.sourceLocations ≠ noOffset →
        StreamFits data encoding entry.2.sourceLocations := by
  induction offsets with
  | nil => simp [parseStreams]
  | cons entry rest ih =>
    obtain ⟨functionId, entry⟩ := entry
    rw [parseStreams, List.forall_mem_cons]
    by_cases absent : entry.sourceLocations = noOffset
    · rw [if_pos absent, ih]
      simp [absent]
    · rw [if_neg absent, Outcome.bind_eq_panic, parseLocationStream_panics]
      simp only [Outcome.bind_eq_panic, ih, ne_eq, absent, not_false_eq_true, forall_const]
      constructor
      · rintro (here | ⟨found, read, (later | ⟨locations, -, impossible⟩)⟩)
        · exact fun both => here both.1
        · exact fun both => later both.2
        · split at impossible <;> simp at impossible
      · intro fails
        by_cases here : StreamFits data encoding entry.sourceLocations
        · right
          cases read : parseLocationStream data entry.sourceLocations encoding with
          | ok found => exact ⟨found, rfl, .inl fun rest => fails ⟨here, rest⟩⟩
          | err error => exact absurd read (parseLocationStream_ne_err _ _ _ error)
          | panic => exact absurd here ((parseLocationStream_panics ..).mp read)
        · exact .inl here

theorem readName_quiet : SafeOn (fun _ => True) readName :=
  safe_bind readSleb128_quiet fun _ => safe_ite (fun _ => safe_pure _) fun _ =>
    safe_bind (readExact_quiet _) fun _ => safe_pure _

/-- The name at an offset is found or not found. -/
theorem nameAtOffset_ne_panic (tableData : Bytes) (offset : Int) :
    nameAtOffset tableData offset ≠ .panic := by
  unfold nameAtOffset
  split
  · simp
  · have quiet := (readName_quiet (.new (tableData.drop offset.toNat)) trivial).1
    split
    · simp
    · simp
    next panics => exact absurd panics quiet

/-- The reader over given bytes has not gone back behind a position. -/
def Past (bytes : Bytes) (low : Nat) (reader : ByteReader) : Prop :=
  reader.data = bytes ∧ low ≤ reader.pos

variable {bytes : Bytes} {low : Nat}

theorem nextByte_past (atEnd : Error) : SafeOn (Past bytes low) (nextByte atEnd) := by
  intro reader past
  obtain ⟨rfl, ahead⟩ := past
  unfold nextByte
  split
  · exact ⟨by simp, rfl, Nat.le_succ_of_le ahead⟩
  · exact ⟨by simp, rfl, ahead⟩

theorem readSleb128_past : SafeOn (Past bytes low) readSleb128:= safe_readSleb128_of nextByte_past

theorem safe_scopeHead : SafeOn (Past bytes low) scopeHead:=
  safe_bind readSleb128_past fun _ => safe_bind readSleb128_past fun _ =>
    safe_bind readSleb128_past fun _ => safe_pure _

theorem safe_scopeNames (stringData : Bytes) (count : Nat) :
    SafeOn (Past bytes low) (scopeNames stringData count) := by
  induction count with
  | zero => exact safe_pure _
  | succ count ih =>
    refine safe_bind (safe_attempt readSleb128_past) fun read => ?_
    rcases read with error | nameIdx
    · exact safe_pure _
    · exact safe_bind (safe_lift (nameAtOffset_ne_panic _ _)) fun _ =>
        safe_bind ih fun _ => safe_pure _

theorem safe_remaining_past : SafeOn (Past bytes low) remaining:= by
  intro reader past
  exact ⟨by simp [remaining], past⟩

theorem safe_scopeDescriptor (stringData : Bytes) (currentOffset : Nat)
    : SafeOn (Past bytes low) (scopeDescriptor stringData currentOffset):= by
  refine safe_bind (safe_attempt safe_scopeHead) fun read => ?_
  rcases read with error | ⟨parentRaw, flags, nameCount⟩
  · exact safe_pure _
  · exact safe_bind safe_remaining_past fun _ => safe_ite (fun _ => safe_pure _) fun _ =>
      safe_bind (safe_scopeNames _ _) fun _ => safe_pure _

/-- The descriptors' own offsets follow the reader, so they stay below the size of
the region. -/
theorem scopeDescriptorsFrom_ne_panic (stringData : Bytes) (small : bytes.length < 2 ^ 32)
    (fuel currentOffset : Nat) :
    ∀ reader, Past bytes currentOffset reader →
      (scopeDescriptorsFrom stringData fuel currentOffset reader).1 ≠ .panic := by
  induction fuel generalizing currentOffset with
  | zero => intro reader _; simp [scopeDescriptorsFrom]
  | succ fuel ih =>
    rintro reader ⟨onBytes, ahead⟩
    simp only [scopeDescriptorsFrom, bind_apply, remaining]
    by_cases ended : reader.remaining = 0
    · simp [ended]
    · obtain ⟨quiet, after⟩ := safe_scopeDescriptor stringData currentOffset reader
        (show Past bytes reader.pos reader from ⟨onBytes, le_refl _⟩)
      simp only [if_neg ended, bind_apply, position]
      rcases run : scopeDescriptor stringData currentOffset reader with ⟨outcome, reader'⟩
      rw [run] at quiet after
      obtain ⟨onBytes', ahead'⟩ := after
      rcases outcome with (_ | descriptor) | error | _
      · simp
      · dsimp only at onBytes' ahead'
        have inside : reader'.pos < 2 ^ 32 := lt_of_le_of_lt (onBytes' ▸ reader'.inside) small
        have used : (reader'.pos - reader.pos) % 2 ^ 32 = reader'.pos - reader.pos :=
          Nat.mod_eq_of_lt (by omega)
        have fits : currentOffset + (reader'.pos - reader.pos) < 2 ^ 32 := by omega
        have rest := ih (currentOffset + (reader'.pos - reader.pos)) reader'
          ⟨onBytes', by omega⟩
        simp only [bind_apply, position, used, lift_apply, Outcome.checked, if_pos fits]
        rcases tail : scopeDescriptorsFrom stringData fuel
          (currentOffset + (reader'.pos - reader.pos)) reader' with ⟨_ | _ | _, _⟩
        · simp
        · simp
        · exact absurd (congrArg Prod.fst tail) rest
      · simp
      · exact absurd rfl quiet

theorem remaining_quiet : SafeOn (fun _ => True) remaining := by
  intro reader _
  exact ⟨by simp [remaining], trivial⟩

theorem calleesFrom_quiet (stringData : Bytes) (count : Nat) (callees : OrdMap Text) :
    SafeOn (fun _ => True) (calleesFrom stringData count callees) := by
  induction count generalizing callees with
  | zero => exact safe_pure _
  | succ count ih =>
    have entry : SafeOn (fun _ => True) calleeEntry :=
      safe_bind readSleb128_quiet fun _ => safe_bind readSleb128_quiet fun _ => safe_pure _
    refine safe_bind (safe_attempt entry) fun read => ?_
    rcases read with error | ⟨address, nameIdx⟩
    · exact safe_pure _
    · exact safe_bind (safe_lift (nameAtOffset_ne_panic _ _)) fun _ => ih _

theorem readCallees_quiet (stringData : Bytes) : SafeOn (fun _ => True) (readCallees stringData) := by
  refine safe_bind (safe_attempt readSleb128_quiet) fun read => ?_
  rcases read with error | count
  · exact safe_pure _
  · exact safe_bind remaining_quiet fun _ => safe_ite (fun _ => safe_pure _) fun _ =>
      calleesFrom_quiet _ _ _

theorem stringTableFrom_quiet (fuel : Nat) : SafeOn (fun _ => True) (stringTableFrom fuel) := by
  induction fuel with
  | zero => exact safe_pure _
  | succ fuel ih =>
    refine safe_bind remaining_quiet fun _ => safe_ite (fun _ => safe_pure _) fun _ => ?_
    refine safe_bind (safe_attempt readLengthPrefixedString_quiet) fun read => ?_
    rcases read with error | string
    · exact safe_pure _
    · exact safe_bind ih fun _ => safe_pure _

/-- A range of a string is no longer than the string. -/
theorem sliceRange_length {data part : Bytes} {start finish : Nat}
    (found : sliceRange data start finish = some part) : part.length ≤ data.length := by
  unfold sliceRange at found
  split at found
  · simp at found
  · obtain ⟨inside, rfl⟩ := Bytes.slice_eq_some.mp found
    rw [List.length_take, List.length_drop]
    omega

/-- The regions past the streams never panic when their sizes are 32-bit numbers. -/
theorem parseLexical_ne_panic {data : Bytes} (header : DebugInfoHeader) (info : DebugInfo)
    (small : data.length < 2 ^ 32) : parseLexical data header info ≠ .panic := by
  have scopes : ∀ start finish stringData, scopesOf (sliceRange data start finish) stringData ≠ .panic := by
    intro start finish stringData
    unfold scopesOf
    split
    next region found =>
      have bounded := lt_of_le_of_lt (sliceRange_length found) small
      exact scopeDescriptorsFrom_ne_panic stringData bounded _ 0 (.new region) ⟨rfl, Nat.zero_le _⟩
    · simp
  have callees : ∀ region stringData, calleesOf region stringData ≠ .panic := by
    intro region stringData
    unfold calleesOf
    split
    · exact (readCallees_quiet stringData _ trivial).1
    · simp
  refine Outcome.bind_ne_panic (stringTableFrom_quiet _ _ trivial).1 fun _ _ => ?_
  refine Outcome.bind_ne_panic (scopes _ _ _) fun _ _ => ?_
  exact Outcome.bind_ne_panic (callees _ _) fun _ _ => Outcome.pure_ne_panic _

/-- Reading the debug data panics exactly when reading the streams does. -/
theorem parseData_panics {data : Bytes} (layout : DebugLayout) (header : DebugInfoHeader)
    (offsets : OrdMap FunctionDebugOffsets) (small : data.length < 2 ^ 32) :
    parseData layout header data offsets = .panic ↔
      parseStreams data layout.stream offsets = .panic := by
  unfold parseData
  rw [Outcome.bind_eq_panic]
  constructor
  · rintro (panics | ⟨locations, -, later⟩)
    · exact panics
    · dsimp only at later
      split at later
      · exact absurd later (parseLexical_ne_panic _ _ small)
      · simp at later
  · exact Or.inl

/-- The debug data that the streams are read from, when the read gets there. -/
def debugRegion (bytes : Bytes) (debugInfoOffset version : Nat) : Option (StreamEncoding × Bytes) :=
  if debugInfoOffset = 0 ∨ debugInfoOffset = noOffset ∨ bytes.length ≤ debugInfoOffset then none
  else do
    let layout ← DebugLayout.forVersion version
    let header ← (parseHeader layout (.new (bytes.drop debugInfoOffset))).1.toOption
    let data ← (debugData layout header (bytes.drop debugInfoOffset)).toOption
    let data ← data
    pure (layout.stream, data)

theorem parseHeader_quiet (layout : DebugLayout) : SafeOn (fun _ => True) (parseHeader layout) := by
  have offsets : SafeOn (fun _ => True) (lexicalOffsets layout) :=
    safe_ite (fun _ => safe_bind readU32_quiet fun _ => safe_bind readU32_quiet fun _ =>
      safe_bind readU32_quiet fun _ => safe_pure _) fun _ => safe_pure _
  exact safe_bind readU32_quiet fun _ => safe_bind readU32_quiet fun _ =>
    safe_bind readU32_quiet fun _ => safe_bind offsets fun _ =>
      safe_bind readU32_quiet fun _ => safe_pure _

/-- The sizes that place the debug data are 32-bit numbers. -/
theorem parseHeader_bounds {layout : DebugLayout} {reader : ByteReader} {header : DebugInfoHeader}
    (read : (parseHeader layout reader).1 = .ok header) :
    header.filenameCount < 2 ^ 32 ∧ header.filenameStorageSize < 2 ^ 32 ∧
      header.fileRegionCount < 2 ^ 32 ∧ header.debugDataSize < 2 ^ 32 := by
  have ran : parseHeader layout reader = (.ok header, (parseHeader layout reader).2) :=
    Prod.ext read rfl
  simp only [parseHeader, bind_eq_ok, pure_apply, Prod.mk.injEq, Outcome.ok.injEq] at ran
  obtain ⟨count, _, readCount, size, _, readSize, regions, _, readRegions, _, _, _, dataSize, _,
    readDataSize, rfl, -⟩ := ran
  exact ⟨Bytes.u32At_lt (readU32_eq_ok.mp readCount).1, Bytes.u32At_lt (readU32_eq_ok.mp readSize).1,
    Bytes.u32At_lt (readU32_eq_ok.mp readRegions).1, Bytes.u32At_lt (readU32_eq_ok.mp readDataSize).1⟩

theorem headerSize_le {version : Nat} {layout : DebugLayout}
    (known : DebugLayout.forVersion version = some layout) : layout.headerSize ≤ 28 := by
  unfold DebugLayout.forVersion at known
  split at known
  · cases known
    exact le_refl _
  · split at known
    · cases known
      decide
    · simp at known

/-- Parsing the debug section panics exactly when it gets to streams that do. -/
theorem parseWithStatus_panics (bytes : Bytes) (debugInfoOffset version : Nat)
    (offsets : OrdMap FunctionDebugOffsets) :
    parseWithStatus bytes debugInfoOffset version offsets = .panic ↔
      ∃ encoding data, debugRegion bytes debugInfoOffset version = some (encoding, data) ∧
        parseStreams data encoding offsets = .panic := by
  unfold parseWithStatus debugRegion
  by_cases absent : debugInfoOffset = 0 ∨ debugInfoOffset = noOffset
  · rw [if_pos absent, if_pos (by tauto)]
    simp
  by_cases outside : bytes.length ≤ debugInfoOffset
  · rw [if_neg absent, if_pos outside, if_pos (by tauto)]
    simp
  rw [if_neg absent, if_neg outside, if_neg (by tauto)]
  cases known : DebugLayout.forVersion version with
  | none => simp
  | some layout =>
    have quiet := (parseHeader_quiet layout (.new (bytes.drop debugInfoOffset)) trivial).1
    cases read : (parseHeader layout (.new (bytes.drop debugInfoOffset))).1 with
    | panic => exact absurd read quiet
    | err error => simp [read, Outcome.toOption]
    | ok header =>
      obtain ⟨files, storage, regions, size⟩ := parseHeader_bounds read
      have small := headerSize_le known
      have started : dataStart layout header = .ok (layout.headerSize + header.filenameCount * 8 +
          header.filenameStorageSize + header.fileRegionCount * 12) :=
        if_pos (by omega)
      simp only [read, Outcome.toOption, debugData, started, Outcome.ok_bind, Outcome.pure_eq,
        Option.bind_eq_bind, Option.bind_some]
      cases found : Bytes.slice (bytes.drop debugInfoOffset) (layout.headerSize +
          header.filenameCount * 8 + header.filenameStorageSize + header.fileRegionCount * 12)
          header.debugDataSize with
      | none => simp
      | some data =>
        have bounded : data.length < 2 ^ 32 := (Bytes.slice_length found).symm ▸ size
        simp only [Outcome.bind_eq_panic, parseData_panics layout header offsets bounded]
        simp

section Answers

open Outcome

theorem unfailing_remaining : Unfailing remaining := by
  intro reader error
  simp [remaining]

theorem unfailing_position : Unfailing position := by
  intro reader error
  simp [position]

theorem parseStreams_answers (data : Bytes) (encoding : StreamEncoding)
    (offsets : OrdMap FunctionDebugOffsets) : Answers (parseStreams data encoding offsets) := by
  induction offsets with
  | nil => exact answers_pure _
  | cons entry rest ih =>
    obtain ⟨functionId, entry⟩ := entry
    rw [parseStreams]
    split
    · exact ih
    · refine answers_bind (parseLocationStream_ne_err _ _ _) fun found => ?_
      refine answers_bind ih fun locations => ?_
      split
      · exact answers_pure _
      · exact answers_pure _

theorem nameAtOffset_answers (tableData : Bytes) (offset : Int) :
    Answers (nameAtOffset tableData offset) := by
  unfold nameAtOffset
  split
  · exact answers_pure _
  · split
    · exact answers_pure _
    · exact answers_pure _
    · intro error
      simp

theorem unfailing_scopeNames (stringData : Bytes) (count : Nat) :
    Unfailing (scopeNames stringData count) := by
  induction count with
  | zero => exact unfailing_pure _
  | succ count ih =>
    refine unfailing_bind (unfailing_attempt _) fun read => ?_
    rcases read with error | nameIdx
    · exact unfailing_pure _
    · exact unfailing_bind (unfailing_lift (nameAtOffset_answers _ _)) fun _ =>
        unfailing_bind ih fun _ => unfailing_pure _

theorem unfailing_scopeDescriptor (stringData : Bytes) (currentOffset : Nat) :
    Unfailing (scopeDescriptor stringData currentOffset) := by
  refine unfailing_bind (unfailing_attempt _) fun read => ?_
  rcases read with error | ⟨parentRaw, flags, nameCount⟩
  · exact unfailing_pure _
  · exact unfailing_bind unfailing_remaining fun _ => unfailing_ite (unfailing_pure _)
      (unfailing_bind (unfailing_scopeNames _ _) fun _ => unfailing_pure _)

theorem unfailing_scopeDescriptorsFrom (stringData : Bytes) (fuel currentOffset : Nat) :
    Unfailing (scopeDescriptorsFrom stringData fuel currentOffset) := by
  induction fuel generalizing currentOffset with
  | zero => exact unfailing_pure _
  | succ fuel ih =>
    refine unfailing_bind unfailing_remaining fun _ => unfailing_ite (unfailing_pure _) ?_
    refine unfailing_bind unfailing_position fun _ => ?_
    refine unfailing_bind (unfailing_scopeDescriptor _ _) fun found => ?_
    rcases found with _ | descriptor
    · exact unfailing_pure _
    · exact unfailing_bind unfailing_position fun _ => unfailing_bind (unfailing_checked _ _)
        fun _ => unfailing_bind (ih _) fun _ => unfailing_pure _

theorem unfailing_calleesFrom (stringData : Bytes) (count : Nat) (callees : OrdMap Text) :
    Unfailing (calleesFrom stringData count callees) := by
  induction count generalizing callees with
  | zero => exact unfailing_pure _
  | succ count ih =>
    refine unfailing_bind (unfailing_attempt _) fun read => ?_
    rcases read with error | ⟨address, nameIdx⟩
    · exact unfailing_pure _
    · exact unfailing_bind (unfailing_lift (nameAtOffset_answers _ _)) fun _ => ih _

theorem unfailing_readCallees (stringData : Bytes) : Unfailing (readCallees stringData) := by
  refine unfailing_bind (unfailing_attempt _) fun read => ?_
  rcases read with error | count
  · exact unfailing_pure _
  · exact unfailing_bind unfailing_remaining fun _ => unfailing_ite (unfailing_pure _)
      (unfailing_calleesFrom _ _ _)

theorem unfailing_stringTableFrom (fuel : Nat) : Unfailing (stringTableFrom fuel) := by
  induction fuel with
  | zero => exact unfailing_pure _
  | succ fuel ih =>
    refine unfailing_bind unfailing_remaining fun _ => unfailing_ite (unfailing_pure _) ?_
    refine unfailing_bind (unfailing_attempt _) fun read => ?_
    rcases read with error | string
    · exact unfailing_pure _
    · exact unfailing_bind ih fun _ => unfailing_pure _

theorem parseLexical_answers (data : Bytes) (header : DebugInfoHeader) (info : DebugInfo) :
    Answers (parseLexical data header info) := by
  have scopes : ∀ region stringData, Answers (scopesOf region stringData) := by
    intro region stringData
    rcases region with _ | region
    · exact answers_pure _
    · exact unfailing_scopeDescriptorsFrom _ _ _ _
  have callees : ∀ region stringData, Answers (calleesOf region stringData) := by
    intro region stringData
    rcases region with _ | region
    · exact answers_pure _
    · exact unfailing_readCallees _ _
  refine answers_bind (unfailing_stringTableFrom _ _) fun _ => ?_
  exact answers_bind (scopes _ _) fun _ => answers_bind (callees _ _) fun _ => answers_pure _

/-- An unreadable debug section is an answer and not an error. -/
theorem parseWithStatus_answers (bytes : Bytes) (debugInfoOffset version : Nat)
    (offsets : OrdMap FunctionDebugOffsets) :
    Answers (parseWithStatus bytes debugInfoOffset version offsets) := by
  have data : ∀ layout header data, Answers (parseData layout header data offsets) := by
    intro layout header data
    refine answers_bind (parseStreams_answers _ _ _) fun _ => ?_
    dsimp only
    split
    · exact parseLexical_answers _ _ _
    · exact answers_pure _
  unfold parseWithStatus
  split
  · exact answers_pure _
  split
  · exact answers_pure _
  split
  · exact answers_pure _
  dsimp only
  split
  · intro error
    simp
  · exact answers_pure _
  next header _ =>
    refine answers_bind (answers_bind (answers_checked _ _) fun _ => answers_pure _) fun found => ?_
    rcases found with _ | region
    · exact answers_pure _
    · exact answers_bind (data _ _ _) fun _ => answers_pure _

end Answers

end HermesDecomp.DebugInfo
