import HermesDecomp.Write.CreatedSlots
import HermesDecomp.Write.CreatedStrings
import HermesDecomp.Write.StringEdits

/-!
# The bytes of a created image

A built image is its header, padded to the bytes reserved for it, the slot of its function, the
string sections, the code and the footer.
-/

namespace HermesDecomp.Create

open Outcome StringStorage HeaderWrite Reader HermesDecomp.Parser List Bytes

theorem padTo4_of_dvd {bytes : Bytes} (aligned : 4 ∣ bytes.length) : Strings.padTo4 bytes = bytes := by
  rw [Strings.padTo4, align4_of_dvd aligned, Nat.sub_self, replicate_zero, append_nil]

theorem padTo4_append {front : Bytes} (aligned : 4 ∣ front.length) (bytes : Bytes) :
    Strings.padTo4 (front ++ bytes) = front ++ Strings.padTo4 bytes := by
  obtain ⟨count, length⟩ := aligned
  have padding : Bytes.align4 (front ++ bytes).length - (front ++ bytes).length =
      Bytes.align4 bytes.length - bytes.length := by
    rw [length_append, length]
    unfold Bytes.align4
    omega
  rw [Strings.padTo4, padding, append_assoc, Strings.padTo4]

theorem padTo4_length (bytes : Bytes) : (Strings.padTo4 bytes).length = Bytes.align4 bytes.length := by
  have grows := Bytes.le_align4 bytes.length
  rw [Strings.padTo4, length_append, length_replicate]
  omega

/-- The kind run, the small table, the overflow records and the storage, padded. -/
def stringSections (strings : List Text) (tables : StringLayout) : Bytes :=
  Bytes.leBytes 4 (strings.length % 2 ^ 32) ++ (Strings.u32Bytes tables.small ++
    (Strings.recordBytes tables.overflow ++ Strings.padTo4 tables.storage))

/-- Where the code of a created image starts behind the slot of its function. -/
def sectionsSize (tables : StringLayout) : Nat :=
  4 + tables.small.length * 4 + tables.overflow.length * 8 + Bytes.align4 tables.storage.length

theorem stringSections_length (strings : List Text) (tables : StringLayout) :
    (stringSections strings tables).length = sectionsSize tables := by
  simp only [stringSections, sectionsSize, length_append, leBytes_length,
    Strings.u32Bytes_length, Strings.recordBytes_length, padTo4_length]
  omega

/-- Pushing the sections behind an aligned front appends their bytes. -/
theorem pushStringSections_eq {front : Bytes} (aligned : 4 ∣ front.length) (strings : List Text)
    (tables : StringLayout) :
    pushStringSections front strings tables = front ++ stringSections strings tables := by
  have kinds : 4 ∣ (front ++ Bytes.leBytes 4 (strings.length % 2 ^ 32)).length := by
    rw [length_append, leBytes_length]
    omega
  have small : 4 ∣ (front ++ Bytes.leBytes 4 (strings.length % 2 ^ 32) ++
      Strings.u32Bytes tables.small).length := by
    rw [length_append, Strings.u32Bytes_length]
    omega
  have records : 4 ∣ (front ++ Bytes.leBytes 4 (strings.length % 2 ^ 32) ++
      Strings.u32Bytes tables.small ++ Strings.recordBytes tables.overflow).length := by
    rw [length_append, Strings.recordBytes_length]
    omega
  unfold pushStringSections pushStringTables
  dsimp only
  rw [padTo4_of_dvd kinds, padTo4_of_dvd kinds, padTo4_of_dvd small, padTo4_of_dvd records,
    padTo4_append records]
  simp [stringSections]

/-- The string tables of a created image. -/
def createdTables (function : FunctionHeader) (strings : List Text) (tables : StringLayout) :
    CommonTables where
  functionHeaders := [function]
  stringKinds := [kindOfRaw (strings.length % 2 ^ 32)]
  identifierHashes := []
  smallStringTable := tables.small
  overflowStringTable := tables.overflow
  stringStorage := tables.storage

/-- A header that counts what a created image has. -/
structure Counts (strings : List Text) (tables : StringLayout) (header : BytecodeHeader) : Prop where
  functions : header.functionCount = 1
  kinds : header.stringKindCount = 1
  identifiers : header.identifierCount = 0
  strings : header.stringCount = strings.length
  overflow : header.overflowStringCount = tables.overflow.length
  storage : header.stringStorageSize = tables.storage.length

/-- The sections stand where a header that counts them says. -/
theorem tablesAt_sections {image before after : Bytes} {header : BytecodeHeader}
    {strings : List Text} {tables : StringLayout} (counts : Counts strings tables header)
    (laid : createStringTables strings = ok tables)
    (shape : image = before ++ (stringSections strings tables ++ after))
    (place : before.length = kindsStart header) (function : FunctionHeader) :
    TablesAt image header (createdTables function strings tables) ∧
      buffersStart header = kindsStart header + sectionsSize tables := by
  have sized := layOut_wellSized laid
  have smallCount : tables.small.length = strings.length := sized.small.trans (length_map _)
  obtain ⟨kindBytes, kindBytesEq⟩ : ∃ bytes, bytes = Bytes.leBytes 4 (strings.length % 2 ^ 32) :=
    ⟨_, rfl⟩
  have kindLength : kindBytes.length = 4 := kindBytesEq ▸ leBytes_length _ _
  have hashes : hashesStart header = (before ++ kindBytes).length := by
    rw [length_append, kindLength, hashesStart, counts.kinds, place]
  have small : smallStart header = (before ++ kindBytes).length := by
    rw [smallStart, counts.identifiers, zero_mul, add_zero, hashes]
  have overflow : overflowStart header =
      (before ++ kindBytes ++ Strings.u32Bytes tables.small).length := by
    rw [overflowStart, small, counts.strings, @length_append _ _ (Strings.u32Bytes _),
      Strings.u32Bytes_length, smallCount]
  have storage : storageStart header = (before ++ kindBytes ++ Strings.u32Bytes tables.small ++
      Strings.recordBytes tables.overflow).length := by
    rw [storageStart, overflow, counts.overflow, @length_append _ _ (Strings.recordBytes _),
      Strings.recordBytes_length]
  have run : Bytes.leBytes 4 (strings.length % 2 ^ 32) =
      Strings.u32Bytes [strings.length % 2 ^ 32] := (append_nil _).symm
  obtain ⟨pad, padded⟩ : ∃ pad, Strings.padTo4 tables.storage = tables.storage ++ pad := ⟨_, rfl⟩
  rw [stringSections, padded] at shape
  refine ⟨⟨counts.functions.symm, ⟨[strings.length % 2 ^ 32], ?_, rfl⟩, ?_, ?_, ?_, ?_⟩, ?_⟩
  · have written := @Strings.words_written before (Strings.u32Bytes tables.small ++
      (Strings.recordBytes tables.overflow ++ (tables.storage ++ pad)) ++ after)
      [strings.length % 2 ^ 32] (by
        intro value inside
        rw [mem_singleton.mp inside]
        exact Nat.mod_lt _ (by decide))
    rw [counts.kinds, ← place, shape, run]
    simp only [append_assoc] at written ⊢
    exact written
  · rw [counts.identifiers]
    exact ⟨rfl, by simp [createdTables]⟩
  · have written := @Strings.words_written (before ++ kindBytes)
      (Strings.recordBytes tables.overflow ++ (tables.storage ++ pad) ++ after) _ sized.smallFits
    rw [counts.strings, ← smallCount, small, shape, ← kindBytesEq]
    simp only [append_assoc] at written ⊢
    exact written
  · have written := @Strings.pairs_written (before ++ kindBytes ++ Strings.u32Bytes tables.small)
      (tables.storage ++ pad ++ after) _ sized.overflowFits
    rw [counts.overflow, overflow, shape, ← kindBytesEq]
    simp only [append_assoc] at written ⊢
    exact written
  · have written := Strings.slice_middle (before ++ kindBytes ++ Strings.u32Bytes tables.small ++
      Strings.recordBytes tables.overflow) tables.storage (pad ++ after)
    rw [counts.storage, storage, shape, ← kindBytesEq]
    simp only [append_assoc] at written ⊢
    exact written
  · have aligned : 4 ∣ kindsStart header := align4_dvd _
    rw [buffersStart, storage, counts.storage, sectionsSize]
    simp only [length_append, kindLength, Strings.u32Bytes_length, Strings.recordBytes_length,
      place]
    unfold Bytes.align4
    omega

theorem overwrite_append_left {bytes part : Bytes} {start : Nat}
    (inside : start + part.length ≤ bytes.length) (more : Bytes) :
    Bytes.overwrite (bytes ++ more) start part = Bytes.overwrite bytes start part ++ more := by
  unfold Bytes.overwrite
  rw [take_append_of_le_length (by omega), drop_append_of_le_length inside]
  simp

theorem field_ofNat (value : Nat) : field (UInt32.ofNat value) = Bytes.leBytes 4 (value % 2 ^ 32) := by
  rw [field, UInt32.toNat_ofNat']

/-- Sealing records the length and appends a footer. -/
theorem sealImage_eq (sha1 : Sha1) {buf : Bytes} (large : 36 ≤ buf.length) :
    ∃ hash : Bytes, hash.length = 20 ∧
      sealImage sha1 buf =
        ok (Bytes.overwrite buf 32 (field (UInt32.ofNat (buf.length + 20))) ++ hash) := by
  have total : (Footer.appendFooter sha1 buf).length = buf.length + 20 := by
    rw [Footer.appendFooter, length_append, (sha1 buf).2]
  have inside : 32 + (field (UInt32.ofNat (buf.length + 20))).length ≤ buf.length := by
    rw [field_length]
    omega
  have written : Buffer.writeU32 (Footer.appendFooter sha1 buf) 32
      ((Footer.appendFooter sha1 buf).length % 2 ^ 32) =
        ok (Bytes.overwrite buf 32 (field (UInt32.ofNat (buf.length + 20))) ++ (sha1 buf).1) := by
    refine Buffer.write_eq_ok.mpr ⟨?_, ?_⟩
    · rw [leBytes_length, total]
      omega
    · rw [total, ← field_ofNat, Footer.appendFooter, overwrite_append_left inside]
  have same : (Bytes.overwrite buf 32 (field (UInt32.ofNat (buf.length + 20)))).length =
      buf.length := overwrite_length inside
  refine ⟨_, (sha1 (Bytes.overwrite buf 32 (field (UInt32.ofNat (buf.length + 20))))).2, ?_⟩
  have cut : (Bytes.overwrite buf 32 (field (UInt32.ofNat (buf.length + 20))) ++
      (sha1 buf).1).length - Footer.footerLen =
        (Bytes.overwrite buf 32 (field (UInt32.ofNat (buf.length + 20)))).length := by
    rw [length_append, (sha1 buf).2, Footer.footerLen, Nat.add_sub_cancel]
  unfold sealImage
  dsimp only
  rw [written, ok_bind, Footer.rehashFooter_eq sha1, cut, take_left]
  · rfl
  · rw [length_append, (sha1 buf).2, Footer.footerLen]
    omega

/-- Sealing fills in the length that a header leaves open. -/
theorem sealImage_headed (sha1 : Sha1) {head : UInt32 → Bytes} (placed : FieldAt head 32)
    {rest : Bytes} {size : Nat} (total : (head 0 ++ rest).length = size) (large : 36 ≤ size) :
    ∃ hash : Bytes, hash.length = 20 ∧
      (head (UInt32.ofNat (size + 20)) ++ (rest ++ hash)).length = size + 20 ∧
      sealImage sha1 (head 0 ++ rest) = ok (head (UInt32.ofNat (size + 20)) ++ (rest ++ hash)) := by
  obtain ⟨hash, hashLength, closed⟩ := sealImage_eq sha1 (large.trans_eq total.symm)
  refine ⟨hash, hashLength, ?_, ?_⟩
  · rw [length_append, placed.length_eq 0, ← total, length_append, length_append,
      hashLength, add_assoc]
  · rw [closed, total, (placed.append rest).overwrite 0, append_assoc]

/-- An image is a header, padded, a slot, string sections, code and a footer. -/
def Assembled (image head slot : Bytes) (strings : List Text) (tables : StringLayout)
    (code : Bytes) : Prop :=
  ∃ pad hash : Bytes, image = head ++ (pad ++ (slot ++ (stringSections strings tables ++
      (code ++ hash)))) ∧ head.length + pad.length = headerSize ∧ hash.length = 20

/-- A slot is filled in behind the header. -/
theorem write_slot {slot : Bytes} {size : Nat} (own : slot.length = size) (more : Bytes) :
    Buffer.write (List.replicate headerSize 0 ++ List.replicate size 0 ++ more) headerSize slot =
      ok (List.replicate headerSize 0 ++ (slot ++ more)) := by
  have zeros : (List.replicate headerSize (0 : UInt8)).length = headerSize := length_replicate
  have placed := @overwrite_append (List.replicate headerSize 0) (List.replicate size 0) more
    slot (own.trans length_replicate.symm)
  rw [zeros] at placed
  refine Buffer.write_eq_ok.mpr ⟨?_, ?_⟩
  · simp only [length_append, length_replicate, own]
    exact Nat.le_add_right _ _
  · rw [append_assoc]
    exact placed

/-- The parts of a created legacy image. -/
theorem buildMinimalLegacy_eq (sha1 : Sha1) {version : UInt32} {strings : List Text} {body : Bytes}
    {tables : StringLayout} (old : version.toNat < 97)
    (laid : createStringTables strings = ok tables) :
    ∃ image, buildMinimalLegacy sha1 version strings body = ok image ∧
      image.length = 144 + sectionsSize tables + body.length + 20 ∧
      Assembled image (legacyHeaderBytes (.ofVersion version.toNat)
          { legacyFields version strings tables with fileLength := UInt32.ofNat image.length })
        (writeFunctionHeaderLegacySmall ((144 + sectionsSize tables) % 2 ^ 32) 1
          (body.length % 2 ^ 32) 0 0 2 0 0 0 prohibitNone) strings tables body := by
  obtain ⟨slot, slotEq⟩ : ∃ slot, slot = writeFunctionHeaderLegacySmall
    ((144 + sectionsSize tables) % 2 ^ 32) 1 (body.length % 2 ^ 32) 0 0 2 0 0 0 prohibitNone := ⟨_, rfl⟩
  have slotLength : slot.length = 16 := slotEq ▸ leBytes_length _ _
  have frontAligned : 4 ∣ (List.replicate headerSize 0 ++
      List.replicate legacyHeaderSize 0 : Bytes).length := by
    rw [length_append, length_replicate, length_replicate]
    decide
  have start : (List.replicate headerSize 0 ++ List.replicate legacyHeaderSize 0 ++
      stringSections strings tables : Bytes).length = 144 + sectionsSize tables := by
    rw [length_append, length_append, length_replicate, length_replicate, stringSections_length]
    rfl
  have filled : Buffer.write (List.replicate headerSize 0 ++ List.replicate legacyHeaderSize 0 ++
      stringSections strings tables ++ body) headerSize slot =
        ok (List.replicate headerSize 0 ++ (slot ++ (stringSections strings tables ++ body))) := by
    rw [append_assoc _ (stringSections strings tables)]
    exact write_slot slotLength _
  obtain ⟨rest, restEq⟩ : ∃ rest, rest = slot ++ (stringSections strings tables ++ body) := ⟨_, rfl⟩
  have restLength : rest.length = 16 + sectionsSize tables + body.length := by
    rw [restEq, length_append, length_append, slotLength, stringSections_length]
    omega
  have fits := legacyHeaderBytes_length_le (.ofVersion version.toNat)
    (legacyFields version strings tables)
  have room : headerSize ≤ (List.replicate headerSize 0 ++ rest : Bytes).length := by
    rw [length_append, length_replicate]
    exact Nat.le_add_right _ _
  have behind : (List.replicate headerSize 0 ++ rest : Bytes).drop
      (legacyHeaderBytes (.ofVersion version.toNat) (legacyFields version strings tables)).length =
        List.replicate (headerSize - (legacyHeaderBytes (.ofVersion version.toNat)
          (legacyFields version strings tables)).length) 0 ++ rest := by
    rw [drop_append_of_le_length (by rwa [length_replicate]), drop_replicate]
  have headed := writeLegacyHeader_eq (.ofVersion version.toNat)
    (legacyFields version strings tables) room
  rw [behind] at headed
  obtain ⟨pad, padEq⟩ : ∃ pad : Bytes, pad = List.replicate (headerSize -
    (legacyHeaderBytes (.ofVersion version.toNat)
      (legacyFields version strings tables)).length) 0 := ⟨_, rfl⟩
  rw [← padEq] at headed
  have padded : (legacyHeaderBytes (.ofVersion version.toNat)
      (legacyFields version strings tables)).length + pad.length = headerSize := by
    rw [padEq, length_replicate]
    omega
  have total : (legacyHeaderBytes (.ofVersion version.toNat) (legacyFields version strings tables) ++
      (pad ++ rest)).length = 144 + sectionsSize tables + body.length := by
    rw [length_append, length_append, restLength, ← add_assoc, padded, headerSize]
    omega
  obtain ⟨hash, hashLength, imageLength, closed⟩ := sealImage_headed sha1 (legacyFileLength_at
    (.ofVersion version.toNat) (legacyFields version strings tables)) total (by omega)
  refine ⟨_, ?_, imageLength, pad, hash, ?_, ?_, hashLength⟩
  · unfold buildMinimalLegacy
    rw [if_neg (Nat.not_le_of_lt old), laid, ok_bind]
    dsimp only
    rw [pushStringSections_eq frontAligned, start, ← slotEq, filled, ok_bind, ← restEq, headed,
      ok_bind]
    exact closed
  · rw [imageLength, restEq, slotEq]
    simp
  · have same := (legacyFileLength_at (.ofVersion version.toNat)
      (legacyFields version strings tables)).length_eq 0
    exact (congrArg (· + pad.length) (same _)).trans padded

theorem noHash_length : (List.replicate 20 (0 : UInt8)).length = 20 := length_replicate

/-- The fields of a created modern header before its length is known. -/
def modernFields (version : UInt32) (strings : List Text) (tables : StringLayout) : ModernFields :=
  { writtenFields version ⟨List.replicate 20 0, noHash_length⟩ 1 1 0
      (UInt32.ofNat strings.length) (UInt32.ofNat tables.storage.length) with
    overflowStringCount := UInt32.ofNat tables.overflow.length }

/-- Where the large header of a created function stands. -/
def largePlace (tables : StringLayout) (body : Bytes) : Nat :=
  140 + sectionsSize tables + Bytes.align4 body.length

theorem sectionsSize_dvd (tables : StringLayout) : 4 ∣ sectionsSize tables := by
  have aligned : 4 ∣ Bytes.align4 tables.storage.length := align4_dvd _
  unfold sectionsSize
  omega

/-- The parts of a created modern image. -/
theorem buildMinimalModern_eq (sha1 : Sha1) {version : UInt32} {strings : List Text} {body : Bytes}
    {tables : StringLayout} {layout : ModernLayout} (new : 97 ≤ version.toNat)
    (known : ModernLayout.forVersion version.toNat = ok layout)
    (laid : createStringTables strings = ok tables) :
    let large := largeHeader layout ((140 + sectionsSize tables) % 2 ^ 32) (body.length % 2 ^ 32)
    ∃ image, buildMinimalModern sha1 version strings body = ok image ∧
      image.length = largePlace tables body + Bytes.align4 large.length + 20 ∧
      Assembled image (modernHeaderBytes
          { modernFields version strings tables with fileLength := UInt32.ofNat image.length })
        (overflowedSlot (largePlace tables body % 2 ^ 32)) strings tables
        (Strings.padTo4 body ++ Strings.padTo4 large) := by
  intro large
  obtain ⟨slot, slotEq⟩ : ∃ slot, slot = overflowedSlot (largePlace tables body % 2 ^ 32) := ⟨_, rfl⟩
  have slotLength : slot.length = 12 :=
    slotEq ▸ (overflowedSlot_points layout (Nat.mod_lt _ (by decide))).1
  have frontLength : (List.replicate headerSize 0 ++
      List.replicate modernHeaderSize 0 : Bytes).length = 140 := by
    rw [length_append, length_replicate, length_replicate]
    rfl
  have frontAligned : 4 ∣ (List.replicate headerSize 0 ++
      List.replicate modernHeaderSize 0 : Bytes).length := by
    rw [frontLength]
    decide
  have start : (List.replicate headerSize 0 ++ List.replicate modernHeaderSize 0 ++
      stringSections strings tables : Bytes).length = 140 + sectionsSize tables := by
    rw [length_append, frontLength, stringSections_length]
  have startAligned : 4 ∣ (List.replicate headerSize 0 ++ List.replicate modernHeaderSize 0 ++
      stringSections strings tables : Bytes).length := by
    have aligned := sectionsSize_dvd tables
    rw [start]
    omega
  have bodyEnd : (List.replicate headerSize 0 ++ List.replicate modernHeaderSize 0 ++
      stringSections strings tables ++ Strings.padTo4 body : Bytes).length =
        largePlace tables body := by
    rw [length_append, start, padTo4_length, largePlace]
  have bodyAligned : 4 ∣ (List.replicate headerSize 0 ++ List.replicate modernHeaderSize 0 ++
      stringSections strings tables ++ Strings.padTo4 body : Bytes).length := by
    rw [length_append, padTo4_length]
    exact Nat.dvd_add startAligned (align4_dvd _)
  obtain ⟨rest, restEq⟩ : ∃ rest, rest = slot ++ (stringSections strings tables ++
    (Strings.padTo4 body ++ Strings.padTo4 large)) := ⟨_, rfl⟩
  have restLength : rest.length + 128 = largePlace tables body + Bytes.align4 large.length := by
    rw [restEq, largePlace]
    simp only [length_append, slotLength, stringSections_length, padTo4_length]
    omega
  have filled : Buffer.write (List.replicate headerSize 0 ++ List.replicate modernHeaderSize 0 ++
      stringSections strings tables ++ Strings.padTo4 body ++ Strings.padTo4 large) headerSize slot =
        ok (List.replicate headerSize 0 ++ rest) := by
    rw [append_assoc (_ ++ stringSections strings tables),
      append_assoc _ (stringSections strings tables), restEq]
    exact write_slot slotLength _
  have headed := writeModernHeader_eq version ⟨List.replicate 20 0, length_replicate⟩ 1 1 0
    (UInt32.ofNat strings.length) (UInt32.ofNat tables.storage.length) rest
  obtain ⟨head, headEq⟩ : ∃ head, head = writtenFields version
    ⟨List.replicate 20 0, length_replicate⟩ 1 1 0 (UInt32.ofNat strings.length)
      (UInt32.ofNat tables.storage.length) := ⟨_, rfl⟩
  have counted : Buffer.writeU32 (modernHeaderBytes head ++ (List.replicate 15 0 ++ rest)) 56
      (tables.overflow.length % 2 ^ 32) =
        ok (modernHeaderBytes (modernFields version strings tables) ++
          (List.replicate 15 0 ++ rest)) := by
    refine Buffer.write_eq_ok.mpr ⟨?_, ?_⟩
    · rw [leBytes_length, length_append, modernHeaderBytes_length]
      omega
    · subst headEq
      rw [← field_ofNat]
      exact ((modernOverflowCount_at (writtenFields version
        ⟨List.replicate 20 0, length_replicate⟩ 1 1 0 (UInt32.ofNat strings.length)
          (UInt32.ofNat tables.storage.length))).append _).overwrite 0 _
  have total : (modernHeaderBytes (modernFields version strings tables) ++
      (List.replicate 15 0 ++ rest)).length = largePlace tables body + Bytes.align4 large.length := by
    rw [length_append, modernHeaderBytes_length, length_append, length_replicate]
    omega
  obtain ⟨hash, hashLength, imageLength, closed⟩ := sealImage_headed sha1
    (modernFileLength_at (modernFields version strings tables)) total (by rw [largePlace]; omega)
  refine ⟨_, ?_, imageLength, List.replicate 15 0, hash, ?_, ?_, hashLength⟩
  · unfold buildMinimalModern
    rw [if_neg (Nat.not_lt_of_le new), laid, ok_bind]
    dsimp only
    rw [padTo4_of_dvd frontAligned, pushStringSections_eq frontAligned, start,
      padTo4_append startAligned, known, ok_bind, bodyEnd, ← slotEq, padTo4_append bodyAligned, filled,
      ok_bind, headed, ok_bind, ← headEq, counted, ok_bind]
    exact closed
  · rw [imageLength, restEq, slotEq]
    simp
  · rw [modernHeaderBytes_length, length_replicate, headerSize]

end HermesDecomp.Create
