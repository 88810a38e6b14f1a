import HermesDecomp.File.TrailingPlaces
import HermesDecomp.Write.Frame
import HermesDecomp.Write.Operands

/-!
# What a patched operand changes

An instruction of a body is decoded at its place as the body lists it. The operand that is
written over keeps its width, so the body lists the same instructions with one operand replaced.
-/

namespace HermesDecomp

open List Action
open Bytes (Unchanged)
open ByteReader (between)

/-- One instruction of a listing is replaced by another that takes as many bytes. -/
theorem Listing.replace {format : BytecodeFormat} {offset : Nat} {insn : Instruction}
    {before after : List Instruction} {code : Bytes}
    (listing : Listing format offset (before ++ insn :: after) code) :
    ∃ front bytes back, code = front ++ (bytes ++ back) ∧
      encodeInstruction format insn = .ok bytes ∧ insn.offset = offset + front.length ∧
        WellTyped format insn ∧ insn.length = bytes.length ∧
          ∀ other part, other.offset = insn.offset → other.length = insn.length →
            part.length = bytes.length → WellTyped format other →
              encodeInstruction format other = .ok part →
                Listing format offset (before ++ other :: after) (front ++ (part ++ back)) := by
  induction before generalizing offset code with
  | nil =>
    cases listing with
    | @cons _ _ _ bytes later place typed encoded length others =>
      refine ⟨[], bytes, later, rfl, encoded, place, typed, length, ?_⟩
      intro other part offsets lengths size typed' encoded'
      have own : other.length = part.length := by rw [lengths, length, size]
      rw [← size] at others
      have joined : Listing format offset (other :: after) (part ++ later) :=
        .cons (offsets.trans place) typed' encoded' own others
      exact joined
  | cons first before ih =>
    cases listing with
    | @cons _ _ _ own later place typed encoded length others =>
      obtain ⟨front, bytes, back, rfl, known, offsets, others', size, rest⟩ := ih others
      refine ⟨own ++ front, bytes, back, ?_, known, ?_, others', size, ?_⟩
      · rw [append_assoc]
      · rw [offsets, length_append, add_assoc]
      · intro other part same lengths sizes typed' encoded'
        rw [append_assoc]
        exact .cons place typed encoded length (rest other part same lengths sizes typed' encoded')

namespace Operands

variable {absOff : Nat} {types : List OperandType} {operands : List Operand} {places : List Nat}

/-- Operands are read with their places as they are read without them. -/
theorem readPlaced_operands {reader final : ByteReader}
    (ran : readPlaced absOff types reader = (.ok (operands, places), final)) :
    readOperands types reader = (.ok operands, final) := by
  induction types generalizing reader operands places with
  | nil =>
    obtain ⟨same, rfl⟩ := Prod.mk.inj ran
    obtain ⟨rfl, -⟩ := Prod.mk.inj (Outcome.ok.inj same)
    rfl
  | cons ty types ih =>
    obtain ⟨position, _, here, ran⟩ := bind_eq_ok.mp ran
    obtain ⟨-, rfl⟩ := Prod.mk.inj here
    obtain ⟨value, between, read, ran⟩ := bind_eq_ok.mp ran
    obtain ⟨⟨rest, more⟩, last, later, done⟩ := bind_eq_ok.mp ran
    obtain ⟨same, rfl⟩ := Prod.mk.inj done
    obtain ⟨rfl, -⟩ := Prod.mk.inj (Outcome.ok.inj same)
    rw [readOperands, bind_of_run read, bind_of_run (ih later)]
    rfl

/-- An operand stands between what is written before it and behind it, and another value of its
kind is written in its place. -/
structure StandsIn (operands : List Operand) (types : List OperandType) (index : Nat)
    (operand : Operand) (front own back : Bytes) : Prop where
  fits : Fits operand.ty operand.value
  written : writeOperand operand.ty operand.value = .ok own
  whole : writeOperands operands types = .ok (front ++ (own ++ back))
  replaced : ∀ value part, writeOperand operand.ty value = .ok part →
    writeOperands (operands.set index ⟨operand.ty, value⟩) types = .ok (front ++ (part ++ back))

variable {operand : Operand}

/-- The place of an operand is where its bytes are. -/
theorem readPlaced_stands {before after : Bytes} {final : ByteReader} {index place : Nat}
    (ran : readPlaced absOff types (between before after) = (.ok (operands, places), final))
    (present : operands[index]? = some operand) (placed : places[index]? = some place) :
    ∃ front own back, StandsIn operands types index operand front own back ∧
      place = absOff + before.length + front.length := by
  induction types generalizing before after operands places index with
  | nil =>
    obtain ⟨same, -⟩ := Prod.mk.inj ran
    obtain ⟨rfl, -⟩ := Prod.mk.inj (Outcome.ok.inj same)
    exact absurd present (by simp)
  | cons ty types ih =>
    obtain ⟨position, _, here, ran⟩ := bind_eq_ok.mp ran
    obtain ⟨pos, rfl⟩ := Prod.mk.inj here
    cases pos
    obtain ⟨value, middle, read, ran⟩ := bind_eq_ok.mp ran
    obtain ⟨⟨rest, more⟩, last, later, done⟩ := bind_eq_ok.mp ran
    obtain ⟨same, rfl⟩ := Prod.mk.inj done
    obtain ⟨rfl, rfl⟩ := Prod.mk.inj (Outcome.ok.inj same)
    obtain ⟨fits, bytes, tail, written, rfl, rfl⟩ := OperandType.read_between.mp read
    cases index with
    | zero =>
      cases present
      cases placed
      obtain ⟨-, back, _, others, -, -⟩ := readOperands_between.mp (readPlaced_operands later)
      refine ⟨[], bytes, back, ⟨fits, written, ?_, ?_⟩, rfl⟩
      · rw [writeOperands, written, others]
        rfl
      · intro other part replaced
        rw [set_cons_zero, writeOperands, replaced, others]
        rfl
    | succ index =>
      obtain ⟨front, own, back, stands, rfl⟩ := ih later present placed
      refine ⟨bytes ++ front, own, back, ⟨stands.fits, stands.written, ?_, ?_⟩, ?_⟩
      · rw [writeOperands, written, stands.whole, append_assoc]
        rfl
      · intro other part replaced
        rw [set_cons_succ, writeOperands, written, stands.replaced other part replaced,
          append_assoc]
        rfl
      · rw [length_append, length_append]
        omega

/-- An operand takes as many bytes as its kind says. -/
theorem writeOperand_length {ty : OperandType} {value : OperandValue} {own : Bytes}
    (fits : Fits ty value) (written : writeOperand ty value = .ok own) :
    own.length = operandByteWidth ty := by
  cases ty <;> cases value <;> first
    | exact fits.elim
    | (cases written
       rfl)

/-- A string id as the value of an operand of a kind. -/
def stringValue : OperandType → Nat → OperandValue
  | .uint8S, id => .u8 (UInt8.ofNat id)
  | .uint16S, id => .u16 (UInt16.ofNat id)
  | _, id => .u32 (UInt32.ofNat id)

/-- An id that an operand can hold is written into it and read from it. -/
theorem stringValue_holds {ty : OperandType} {id largest : Nat}
    (max : maxStringId ty = .ok largest) (small : id ≤ largest) :
    Fits ty (stringValue ty id) ∧
      writeOperand ty (stringValue ty id) = .ok (Bytes.leBytes (operandByteWidth ty) id) ∧
        (stringValue ty id).asU32 = some id := by
  cases ty
  case uint8S =>
    cases max
    have value : (UInt8.ofNat id).toNat = id := UInt8.toNat_ofNat_of_lt (Nat.lt_succ_of_le small)
    exact ⟨trivial, rfl, congrArg some value⟩
  case uint16S =>
    cases max
    have value : (UInt16.ofNat id).toNat = id := UInt16.toNat_ofNat_of_lt (Nat.lt_succ_of_le small)
    refine ⟨trivial, ?_, congrArg some value⟩
    rw [stringValue, writeOperand, value]
    rfl
  case uint32S =>
    cases max
    have value : (UInt32.ofNat id).toNat = id := UInt32.toNat_ofNat_of_lt (Nat.lt_succ_of_le small)
    have written : writeOperand .uint32S (.u32 (UInt32.ofNat id)) =
        .ok (Bytes.leBytes 4 (UInt32.ofNat id).toNat) := rfl
    rw [value] at written
    exact ⟨trivial, written, congrArg some value⟩
  all_goals simp [maxStringId] at max

/-- Replacing an operand by one of its kind keeps the kinds. -/
theorem forall₂_set {index : Nat} {value : OperandValue}
    (fit : List.Forall₂ (fun operand ty => operand.ty = ty ∧ Fits ty operand.value) operands types)
    (present : operands[index]? = some operand) (fits : Fits operand.ty value) :
    List.Forall₂ (fun operand ty => operand.ty = ty ∧ Fits ty operand.value)
      (operands.set index ⟨operand.ty, value⟩) types := by
  induction fit generalizing index with
  | nil => exact absurd present (by simp)
  | @cons first ty rest others own more ih =>
    cases index with
    | zero =>
      cases present
      exact .cons ⟨own.1, own.1 ▸ fits⟩ more
    | succ index => exact .cons own (ih present)

variable {format : BytecodeFormat} {insn : Instruction}

/-- What is decoded at a place: an opcode of the table and its operands. -/
theorem decodeOneAt_eq_ok {raw : Bytes} (ran : decodeOneAt raw absOff format = .ok (insn, places)) :
    ∃ rest entry final, raw.drop absOff = insn.opcode :: rest ∧
      format.definition? insn.opcode = some entry ∧
        readPlaced absOff entry.operandTypes (between [insn.opcode] rest) =
          (.ok (insn.operands, places), final) := by
  unfold decodeOneAt at ran
  split at ran
  · simp at ran
  · have whole : readOne absOff format (between [] (raw.drop absOff)) =
        (.ok (insn, places), (readOne absOff format (.new (raw.drop absOff))).2) := Prod.ext ran rfl
    obtain ⟨opcode, r1, first, whole⟩ := bind_eq_ok.mp whole
    obtain ⟨small, rest, here, rfl⟩ := Reader.readNat_between.mp first
    obtain ⟨entry, _, lifted, whole⟩ := bind_eq_ok.mp whole
    obtain ⟨known, rfl⟩ := Prod.mk.inj lifted
    obtain ⟨⟨operands, found⟩, r2, read, whole⟩ := bind_eq_ok.mp whole
    obtain ⟨position, _, -, done⟩ := bind_eq_ok.mp whole
    obtain ⟨same, -⟩ := Prod.mk.inj done
    obtain ⟨rfl, rfl⟩ := Prod.mk.inj (Outcome.ok.inj same)
    have byte : (UInt8.ofNat opcode).toNat = opcode := UInt8.toNat_ofNat_of_lt small
    refine ⟨rest, entry, r2, here, ?_, read⟩
    rw [BytecodeFormat.definition?, byte]
    exact Outcome.ofOption_eq_ok.mp known

/-- An instruction is decoded where its bytes are. -/
theorem decodeOneAt_encoded {raw bytes tail : Bytes} {insn found : Instruction}
    (typed : WellTyped format insn) (encoded : encodeInstruction format insn = .ok bytes)
    (here : raw.drop absOff = bytes ++ tail)
    (ran : decodeOneAt raw absOff format = .ok (found, places)) :
    found.opcode = insn.opcode ∧ found.operands = insn.operands ∧
      ∃ entry rest final, format.definition? insn.opcode = some entry ∧
        readPlaced absOff entry.operandTypes (between [insn.opcode] rest) =
          (.ok (insn.operands, places), final) := by
  obtain ⟨rest, entry, final, start, known, read⟩ := decodeOneAt_eq_ok ran
  obtain ⟨entry', known', fit⟩ := typed
  rw [encodeInstruction] at encoded
  simp only [known', fit.length_eq, ne_eq, not_true_eq_false, if_false] at encoded
  obtain ⟨operands, written, joined⟩ := Outcome.bind_eq_ok.mp encoded
  obtain rfl := Outcome.ok.inj joined
  obtain ⟨opcode, rfl⟩ := List.cons.inj (start.symm.trans here)
  rw [opcode, known'] at known
  obtain rfl := Option.some.inj known
  rw [opcode] at read
  have whole := readOperands_between.mpr
    ⟨fit, operands, tail, written, rfl, (rfl : between ([insn.opcode] ++ operands) tail = _)⟩
  obtain ⟨same, -⟩ := Prod.mk.inj ((readPlaced_operands read).symm.trans whole)
  have operandsSame := Outcome.ok.inj same
  rw [operandsSame] at read
  exact ⟨opcode, operandsSame, entry', _, final, known', read⟩

variable {operandIndex : Option Nat}

/-- A selected operand is a string operand of the instruction, with its place. -/
theorem selectOp_eq_ok {name : String} {index place : Nat}
    (ran : selectOp name absOff (stringOps insn places) operandIndex =
      .ok (index, operand, place)) :
    insn.operands[index]? = some operand ∧ places[index]? = some place ∧
      operand.ty.isString = true := by
  unfold selectOp at ran
  dsimp only at ran
  split at ran
  · simp at ran
  · have member := mem_of_getElem? (Outcome.ofOption_eq_ok.mp ran)
    obtain ⟨⟨⟨operand', place'⟩, index'⟩, listed, same⟩ := mem_map.mp member
    obtain ⟨inside, string⟩ := mem_filter.mp listed
    obtain ⟨rfl, rest⟩ := Prod.mk.inj same
    cases rest
    have zipped := mem_zipIdx_iff_getElem?.mp inside
    obtain ⟨present, placed⟩ := List.getElem?_zip_eq_some.mp zipped
    exact ⟨present, placed, string⟩

/-- An instruction whose operands are written is encoded with its opcode in front. -/
theorem encodeInstruction_written {entry : InstructionDef} {operands : Bytes}
    (known : format.definition? insn.opcode = some entry)
    (count : insn.operands.length = entry.operandTypes.length)
    (written : writeOperands insn.operands entry.operandTypes = .ok operands) :
    encodeInstruction format insn = .ok (insn.opcode :: operands) := by
  rw [encodeInstruction]
  simp [known, count, written, Outcome.ok_bind, Outcome.pure_eq]

/-- An instruction with one operand replaced. -/
def withOperand (insn : Instruction) (index : Nat) (operand : Operand) : Instruction :=
  { insn with operands := insn.operands.set index operand }

/-- The bytes of an instruction with a string operand, and those with another id in it: the id
stands at the operand's place, and every other byte is the same. -/
theorem encode_withOperand {entry : InstructionDef} {absOff index place id largest : Nat}
    {rest bytes : Bytes} {final : ByteReader} (typed : WellTyped format insn)
    (encoded : encodeInstruction format insn = .ok bytes)
    (known : format.definition? insn.opcode = some entry)
    (read : readPlaced absOff entry.operandTypes (between [insn.opcode] rest) =
      (.ok (insn.operands, places), final)) (present : insn.operands[index]? = some operand)
    (placed : places[index]? = some place) (max : maxStringId operand.ty = .ok largest)
    (small : id ≤ largest) :
    ∃ front own back, bytes = front ++ (own ++ back) ∧ place = absOff + front.length ∧
      own.length = operandByteWidth operand.ty ∧
        WellTyped format (withOperand insn index ⟨operand.ty, stringValue operand.ty id⟩) ∧
          encodeInstruction format
              (withOperand insn index ⟨operand.ty, stringValue operand.ty id⟩) =
            .ok (front ++ (Bytes.leBytes (operandByteWidth operand.ty) id ++ back)) := by
  obtain ⟨front, own, back, stands, rfl⟩ := readPlaced_stands read present placed
  obtain ⟨fits, written, -⟩ := stringValue_holds max small
  obtain ⟨entry', known', fit⟩ := typed
  obtain rfl := Option.some.inj (known.symm.trans known')
  have count := fit.length_eq
  have same := encoded.symm.trans (encodeInstruction_written known count stands.whole)
  cases same
  refine ⟨insn.opcode :: front, own, back, rfl, ?_, ?_, ⟨entry, known, ?_⟩, ?_⟩
  · simp only [length_cons, length_nil]
    omega
  · exact writeOperand_length stands.fits stands.written
  · exact forall₂_set fit present fits
  · refine encodeInstruction_written known ?_ (stands.replaced _ _ written)
    exact (length_set ..).trans count

/-- What the edited bytes hold where the body was: the same listing with one operand replaced. -/
theorem operandImage_replaces {file : BytecodeFile} {function insnOffset newStringId : Nat}
    {bytes buf code : Bytes} {change : OperandChange} {warning : Option OperandWarning}
    {header : FunctionHeader} {before after : List Instruction} (raw : file.rawBytes = some bytes)
    (found : file.functionHeaders[function]? = some header)
    (taken : Bytes.slice bytes header.offset header.bytecodeSizeInBytes = some code)
    (listing : Listing format 0 (before ++ insn :: after) code) (place : insn.offset = insnOffset)
    (ran : operandImage file format (.functionRelative function insnOffset) newStringId
      operandIndex = .ok (buf, change, warning)) :
    ∃ operand value replaced, insn.operands[change.opIdx]? = some operand ∧
      operand.ty.isString = true ∧ value.asU32 = some newStringId ∧
        Listing format 0
          (before ++ withOperand insn change.opIdx ⟨operand.ty, value⟩ :: after) replaced ∧
          Bytes.slice buf header.offset header.bytecodeSizeInBytes = some replaced ∧
            Unchanged bytes buf fun index =>
              header.offset ≤ index ∧ index < header.offset + header.bytecodeSizeInBytes := by
  simp only [operandImage, Outcome.bind_eq_ok, Outcome.ofOption_eq_ok, Outcome.ensure_eq_ok,
    Outcome.pure_eq, Outcome.ok.injEq, Serialize.rawOf, resolveTarget] at ran
  obtain ⟨_, same, _, -, absOff, ⟨header', found', resolved⟩, ⟨insn', places⟩, decodedHere,
    entry', -, ⟨opIdx, operand, bytePos⟩, selected, largest, max, _, small, _, inside,
    ⟨verify, _⟩, -, _, -, _, -, done⟩ := ran
  obtain rfl := Option.some.inj (raw.symm.trans same)
  obtain rfl := Option.some.inj (found.symm.trans found')
  obtain ⟨rfl, rest⟩ := Prod.mk.inj done
  cases rest
  split at resolved
  · simp at resolved
  · cases resolved
    have size := Bytes.slice_length taken
    obtain ⟨start, behind, rfl, length⟩ := Bytes.slice_split taken
    obtain ⟨front, own, back, rfl, encoded, offset, typed, -, listed⟩ := listing.replace
    rw [zero_add] at offset
    have here : (start ++ (front ++ (own ++ back) ++ behind)).drop (header.offset + insnOffset) =
        own ++ (back ++ behind) := by
      rw [← length, ← place, offset, ← drop_drop, drop_left, append_assoc, drop_left, append_assoc]
    obtain ⟨-, same, entry, rest, final, known, read⟩ :=
      decodeOneAt_encoded typed encoded here decodedHere
    obtain ⟨present, placed, string⟩ := selectOp_eq_ok selected
    rw [same] at present
    obtain ⟨first, old, last, rfl, rfl, width, typed', encoded'⟩ :=
      encode_withOperand typed encoded known read present placed max small
    have lengths : (Bytes.leBytes (operandByteWidth operand.ty) newStringId).length = old.length := by
      rw [Bytes.leBytes_length, width]
    have whole : start ++ (front ++ (first ++ (old ++ last) ++ back) ++ behind) =
        (start ++ (front ++ first)) ++ (old ++ (last ++ (back ++ behind))) := by
      simp
    have at_place : header.offset + insnOffset + first.length = (start ++ (front ++ first)).length := by
      rw [length_append, length_append, length, ← place, offset, add_assoc]
    refine ⟨operand, _, _, present, string, (stringValue_holds max small).2.2,
      listed _ _ rfl rfl ?_ typed' encoded', ?_, ?_⟩
    · simp [lengths]
    · have joined : (start ++ (front ++ first)) ++
          (Bytes.leBytes (operandByteWidth operand.ty) newStringId ++ (last ++ (back ++ behind))) =
          start ++ ((front ++ (first ++ (Bytes.leBytes (operandByteWidth operand.ty) newStringId ++
            last) ++ back)) ++ behind) := by
        simp
      have sizes : (front ++ (first ++ (Bytes.leBytes (operandByteWidth operand.ty) newStringId ++
          last) ++ back)).length = header.bytecodeSizeInBytes := by
        rw [← size]
        simp [lengths]
      rw [whole, at_place, Bytes.overwrite_append lengths, joined, ← length, ← sizes]
      exact Bytes.slice_between
    · refine (Bytes.unchanged_overwrite ?_).mono fun index hit => ?_
      · rw [Bytes.leBytes_length]
        exact inside
      · rw [lengths, ← place, offset] at hit
        dsimp only at hit
        simp only [length_append] at size
        omega

/-- A function's own header and the footer stand outside its body, and its header is not in the
file header or the footer. -/
structure BodyApart (bytes : Bytes) (file : BytecodeFile) (function : Nat)
    (header : FunctionHeader) : Prop where
  large : ∀ place size, Parser.largeAt file.header bytes function = some (place, size) →
    Parser.headerSize ≤ place ∧ place + size + Footer.footerLen ≤ bytes.length ∧
      (place + size ≤ header.offset ∨ header.offset + header.bytecodeSizeInBytes ≤ place)
  footer : header.offset + header.bytecodeSizeInBytes + Footer.footerLen ≤ bytes.length

/-- A patch that succeeds adopts the edited bytes. -/
theorem patchStringOperand_eq_ok {sha1 : Sha1} {out : Bytes} {file after : BytecodeFile}
    {target : OperandTarget} {newStringId : Nat} {change : OperandChange}
    {warning : Option OperandWarning}
    (ran : patchStringOperand sha1 format target newStringId operandIndex file =
      (.ok (out, change, warning), after)) :
    ∃ buf, operandImage file format target newStringId operandIndex = .ok (buf, change, warning) ∧
      Serialize.finalizeRawImage sha1 buf = .ok out ∧ Parser.parseAuto sha1 out = .ok after ∧
        Serialize.expectedHeader .default file.header out = after.header := by
  obtain ⟨_, _, got, ran⟩ := bind_eq_ok.mp ran
  obtain ⟨same, rfl⟩ := Prod.mk.inj got
  cases same
  obtain ⟨⟨buf, _, _⟩, _, edited, ran⟩ := bind_eq_ok.mp ran
  obtain ⟨image, rfl⟩ := Prod.mk.inj edited
  obtain ⟨_, _, committed, done⟩ := bind_eq_ok.mp ran
  obtain ⟨same, rfl⟩ := Prod.mk.inj done
  obtain ⟨rfl, rest⟩ := Prod.mk.inj (Outcome.ok.inj same)
  cases rest
  obtain ⟨finalized, parsed, header, -⟩ := Serialize.commitImageChecked_eq_ok.mp committed
  exact ⟨buf, image, finalized, parsed, header⟩

/-- A patch that succeeds replaces one string operand of the addressed instruction: the function
decodes to the same instructions with that operand holding the new id, and outside the body only
the length in the header and the footer change. -/
theorem patchStringOperand_replaces {sha1 : Sha1} {bytes out : Bytes} {file after : BytecodeFile}
    {format : BytecodeFormat} {function insnOffset newStringId : Nat} {operandIndex : Option Nat}
    {change : OperandChange} {warning : Option OperandWarning} {header : FunctionHeader}
    {body : List Instruction} {index : Nat} {insn : Instruction} (small : bytes.length < 2 ^ 32)
    (parsed : Parser.parseAuto sha1 bytes = .ok file)
    (found : file.functionHeaders[function]? = some header)
    (apart : BodyApart bytes file function header)
    (decoded : decodeFunctionInstructions file format function = .ok body)
    (member : body[index]? = some insn) (place : insn.offset = insnOffset)
    (ran : patchStringOperand sha1 format (.functionRelative function insnOffset) newStringId
      operandIndex file = (.ok (out, change, warning), after)) :
    ∃ operand value, insn.operands[change.opIdx]? = some operand ∧ operand.ty.isString = true ∧
      value.asU32 = some newStringId ∧
        decodeFunctionInstructions after format function =
          .ok (body.set index (withOperand insn change.opIdx ⟨operand.ty, value⟩)) ∧
        Unchanged bytes out fun place =>
          header.offset ≤ place ∧ place < header.offset + header.bytecodeSizeInBytes ∨
            Serialize.Sealed bytes.length place := by
  obtain ⟨buf, image, finalized, parsed', headers⟩ := patchStringOperand_eq_ok ran
  have before := Parser.parseAuto_at parsed
  have behind := Parser.parseAuto_at parsed'
  obtain ⟨code, taken, listing⟩ := decodeFunctionInstructions_eq_ok decoded
  obtain ⟨header', found', starts, short, inside⟩ := functionCode_eq_ok.mp taken
  obtain rfl := Option.some.inj (found.symm.trans found')
  obtain ⟨bounded, same⟩ := List.getElem?_eq_some_iff.mp member
  have split : body = body.take index ++ insn :: body.drop (index + 1) := by
    rw [← same, getElem_cons_drop, take_append_drop]
  rw [split] at listing
  have offset : file.instructionOffset = Parser.instructionsStart file.header := by
    rw [before.offset, Nat.mod_eq_of_lt (before.inside.trans_lt small)]
  have offset' : after.instructionOffset = file.instructionOffset := by
    rw [behind.offset, before.offset, ← headers]
    rfl
  have ends : file.instructionOffset ≤ bytes.length := by
    rw [offset]
    exact before.inside
  have own : Bytes.slice bytes header.offset header.bytecodeSizeInBytes = some code := by
    rw [← inside, before.instructions]
    exact (Bytes.slice_behind starts ends).symm
  obtain ⟨operand, value, code', present, string, holds, listed, there, kept⟩ :=
    operandImage_replaces before.raw found own listing place image
  have finished := Serialize.finalize_unchanged finalized
  rw [kept.length] at finished
  have both : Unchanged bytes out fun place =>
      header.offset ≤ place ∧ place < header.offset + header.bytecodeSizeInBytes ∨
        Serialize.Sealed bytes.length place :=
    (kept.mono fun _ hit => .inl hit).trans (finished.mono fun _ hit => .inr hit)
  have slots := Parser.slots_le_instructionsStart file.header
  rw [← offset] at slots
  have footer := apart.footer
  have present' : after.functionHeaders[function]? = some header := by
    refine before.function_kept behind both (by rw [← headers]; rfl) (by rw [← headers]; rfl)
      (by rw [← headers]; rfl) found ?_ ?_
    · intro index hit
      have slot : (function + 1) * Parser.slotSizeOf file.header.functionHeaderLayout ≤
          file.header.functionCount * Parser.slotSizeOf file.header.functionHeaderLayout := by
        refine Nat.mul_le_mul_right _ ?_
        rw [← before.count]
        exact (List.getElem?_eq_some_iff.mp found).1
      unfold Serialize.Sealed at hit
      unfold Parser.headerSize at slots ⊢
      unfold Footer.footerLen at footer
      omega
    · intro place size large index hit
      obtain ⟨low, high, beside⟩ := apart.large place size large
      unfold Serialize.Sealed at hit
      unfold Parser.headerSize at low
      unfold Footer.footerLen at high
      omega
  refine ⟨operand, value, present, string, holds, ?_, both⟩
  have replaced : Bytes.slice out header.offset header.bytecodeSizeInBytes = some code' := by
    rw [finished.slice_eq, there]
    intro index low high hit
    unfold Serialize.Sealed at hit
    unfold Parser.headerSize at slots
    unfold Footer.footerLen at footer
    omega
  have read : functionCode after function = .ok code' := by
    refine functionCode_eq_ok.mpr ⟨header, present', ?_, ?_, ?_⟩
    · rwa [offset']
    · rwa [offset']
    · rw [behind.instructions, offset', ← replaced]
      exact Bytes.slice_behind starts (ends.trans_eq both.length.symm)
  have set : body.set index (withOperand insn change.opIdx ⟨operand.ty, value⟩) =
      body.take index ++ withOperand insn change.opIdx ⟨operand.ty, value⟩ ::
        body.drop (index + 1) := by
    rw [set_eq_take_append_cons_drop, if_pos bounded]
  rw [decodeFunctionInstructions, read, set]
  refine decodeInstructions_of_listing listed ?_
  rw [Bytes.slice_length there]
  omega

/-- The instruction that loads the first string. -/
def loadInsn : Instruction := ⟨0, 0, [⟨.reg8, .u8 0⟩, ⟨.uint16S, .u16 0⟩], 4⟩

/-- The instruction that loads the first string is made to load the second. -/
theorem patchStringOperand_replaces_load :
    ∃ file header out change warning after, Parser.parseAuto Sha1Hash.hash loadImage = .ok file ∧
      file.functionHeaders[0]? = some header ∧
        patchStringOperand Sha1Hash.hash loadFormat (.functionRelative 0 0) 1 none file =
            (.ok (out, change, warning), after) ∧
          ∃ operand value, loadInsn.operands[change.opIdx]? = some operand ∧
            operand.ty.isString = true ∧ value.asU32 = some 1 ∧
              decodeFunctionInstructions after loadFormat 0 =
                .ok (loadBody.set 0 (withOperand loadInsn change.opIdx ⟨operand.ty, value⟩)) ∧
              Unchanged loadImage out fun place =>
                header.offset ≤ place ∧ place < header.offset + header.bytecodeSizeInBytes ∨
                  Serialize.Sealed loadImage.length place := by
  have run : ∃ file, Parser.parseAuto Sha1Hash.hash loadImage = .ok file ∧
      Parser.largeAt file.header loadImage 0 = none ∧ 0 < file.functionHeaders.length ∧
        (∀ header, file.functionHeaders[0]? = some header →
          header.offset + header.bytecodeSizeInBytes + Footer.footerLen ≤ loadImage.length) ∧
          decodeFunctionInstructions file loadFormat 0 = .ok loadBody ∧
            ∃ result after, patchStringOperand Sha1Hash.hash loadFormat (.functionRelative 0 0) 1
              none file = (.ok result, after) ∧ True := by
    decide +kernel
  obtain ⟨file, parsed, inline, count, footer, decoded, ⟨out, change, warning⟩, after, ran, -⟩ := run
  have found := List.getElem?_eq_getElem count
  refine ⟨file, _, out, change, warning, after, parsed, found, ran, ?_⟩
  refine patchStringOperand_replaces (by decide +kernel) parsed found ⟨?_, footer _ found⟩ decoded
    rfl rfl ran
  intro place size large
  rw [inline] at large
  cases large

/-- At an offset inside an instruction, other bytes are taken for an operand: the id is written
over the opcode of the next instruction, and the body no longer decodes. -/
theorem patchStringOperand_inside :
    ∃ file, Parser.parseAuto Sha1Hash.hash loadImage = .ok file ∧
      decodeFunctionInstructions file loadFormat 0 = .ok loadBody ∧
        ∃ result after, patchStringOperand Sha1Hash.hash loadFormat (.functionRelative 0 1) 0 none
            file = (.ok result, after) ∧
          ¬ ∃ index insn position operand value, loadBody[index]? = some insn ∧
            insn.operands[position]? = some operand ∧ operand.ty.isString = true ∧
              value.asU32 = some 0 ∧ decodeFunctionInstructions after loadFormat 0 =
                .ok (loadBody.set index (withOperand insn position ⟨operand.ty, value⟩)) := by
  have run : ∃ file, Parser.parseAuto Sha1Hash.hash loadImage = .ok file ∧
      decodeFunctionInstructions file loadFormat 0 = .ok loadBody ∧
        ∃ result after, patchStringOperand Sha1Hash.hash loadFormat (.functionRelative 0 1) 0 none
            file = (.ok result, after) ∧
          decodeFunctionInstructions after loadFormat 0 =
            .err (.parse "unexpected end of file: needed 2 bytes at offset 6 but only 0 remain") := by
    decide +kernel
  obtain ⟨file, parsed, decoded, result, after, ran, failed⟩ := run
  refine ⟨file, parsed, decoded, result, after, ran, ?_⟩
  rintro ⟨index, insn, position, operand, value, -, -, -, -, found⟩
  rw [failed] at found
  cases found

end Operands

end HermesDecomp
