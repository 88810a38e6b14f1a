import HermesDecomp.Write.Inject
import HermesDecomp.Write.Narrowing

/-!
# Padding a body to a multiple of four

Where a new body changes the size of a function by other than a multiple of four, the
instructions that do nothing go before its last instruction. A jump to the last instruction
then leads to the padding in front of it, and every other jump is unaffected, but for the
jumps of the last instruction itself: it has moved, so a jump of it to an earlier
instruction leads too far.
-/

namespace HermesDecomp

open List
open ByteReader (between)

/-- The bytes an instruction is encoded as, counted. -/
def encodedLength (format : BytecodeFormat) (insn : Instruction) : Nat :=
  match encodeInstruction format insn with
  | .ok bytes => bytes.length
  | _ => 0

/-- Where the instruction at an index of a body stands in the encoded body. -/
def placeAt (format : BytecodeFormat) (body : List Instruction) (index : Nat) : Nat :=
  ((body.take index).map (encodedLength format)).sum

/-- Where it stands after the padding, which moves the last instruction only. -/
def paddedPlaceAt (format : BytecodeFormat) (body : List Instruction) (pad index : Nat) : Nat :=
  if index + 1 < body.length then placeAt format body index else placeAt format body index + pad

/-- The instruction at a place of encoded bytes jumps by a displacement. -/
def JumpsBy (format : BytecodeFormat) (code : Bytes) (place : Nat) (displacement : Int) : Prop :=
  ∃ insn, instructionAt format code place = some insn ∧
    ∃ operand ∈ insn.operands, displacement? operand = some displacement

/-- The jump from the instruction at one index names the instruction at another one. -/
def Names (format : BytecodeFormat) (body : List Instruction) (code : Bytes)
    (source target : Nat) (displacement : Int) : Prop :=
  source < body.length ∧ target < body.length ∧
    JumpsBy format code (placeAt format body source) displacement ∧
      (placeAt format body target : Int) = placeAt format body source + displacement

/-- The padded bytes hold every instruction, the padding in front of the last one, and every
jump reaches the instruction it named or the padding directly in front of that. -/
structure KeepsJumps (format : BytecodeFormat) (body : List Instruction) (code padded : Bytes)
    (pad : Nat) : Prop where
  instructions : ∀ index < body.length, ∃ insn,
    instructionAt format code (placeAt format body index) = some insn ∧
      instructionAt format padded (paddedPlaceAt format body pad index) =
        some { insn with offset := paddedPlaceAt format body pad index }
  padding : ∀ place, placeAt format body (body.length - 1) ≤ place →
    place < placeAt format body (body.length - 1) + pad →
      ∃ insn, instructionAt format padded place = some insn ∧
        format.asyncBreakCheck? = some insn.opcode
  jumps : ∀ source target displacement, Names format body code source target displacement →
    (placeAt format body target : Int) ≤ paddedPlaceAt format body pad source + displacement ∧
      paddedPlaceAt format body pad source + displacement ≤
        (paddedPlaceAt format body pad target : Int)

/-- The last instruction jumps to an earlier one. -/
def LastJumpsBack (format : BytecodeFormat) (body : List Instruction) (code : Bytes) : Prop :=
  ∃ target displacement, target + 1 < body.length ∧
    Names format body code (body.length - 1) target displacement

section Places

variable {format : BytecodeFormat} {body : List Instruction} {code : Bytes}

/-- An encoded body is as long as its instructions. -/
theorem encodeFunctionBody_length (encoded : encodeFunctionBody format body = .ok code) :
    code.length = (body.map (encodedLength format)).sum := by
  induction body generalizing code with
  | nil =>
    cases encoded
    rfl
  | cons insn body ih =>
    rw [encodeFunctionBody] at encoded
    obtain ⟨first, ran, encoded⟩ := Outcome.bind_eq_ok.mp encoded
    obtain ⟨rest, others, joined⟩ := Outcome.bind_eq_ok.mp encoded
    cases joined
    have length : encodedLength format insn = first.length := by rw [encodedLength, ran]
    rw [length_append, map_cons, sum_cons, length, ih others]

/-- The bytes of the instruction at an index stand at its place. -/
theorem encoded_at (encoded : encodeFunctionBody format body = .ok code) {index : Nat}
    (inside : index < body.length) :
    ∃ front bytes back, code = front ++ (bytes ++ back) ∧
      encodeInstruction format body[index] = .ok bytes ∧
        encodeFunctionBody format (body.take index) = .ok front ∧
          front.length = placeAt format body index := by
  have parts : body = body.take index ++ body[index] :: body.drop (index + 1) := by
    rw [← drop_eq_getElem_cons inside, take_append_drop]
  rw [parts] at encoded
  obtain ⟨front, rest, ranFront, ranRest, rfl⟩ := encodeFunctionBody_append.mp encoded
  rw [encodeFunctionBody] at ranRest
  obtain ⟨bytes, ran, ranRest⟩ := Outcome.bind_eq_ok.mp ranRest
  obtain ⟨back, _, joined⟩ := Outcome.bind_eq_ok.mp ranRest
  cases joined
  exact ⟨front, bytes, back, rfl, ran, ranFront, encodeFunctionBody_length ranFront⟩

end Places

section Padding

variable {format : BytecodeFormat} {body : List Instruction} {code : Bytes}

/-- An instruction is read at its place, and at any other place where its bytes stand. -/
theorem instructionAt_body (encoded : encodeFunctionBody format body = .ok code) {index : Nat}
    (inside : index < body.length) :
    ∃ front bytes back, ∃ insn : Instruction, code = front ++ (bytes ++ back) ∧
      front.length = placeAt format body index ∧
        encodeFunctionBody format (body.take index) = .ok front ∧
          0 < bytes.length ∧ ∀ before after, instructionAt format (before ++ (bytes ++ after))
            before.length = some { insn with offset := before.length } := by
  obtain ⟨front, bytes, back, parts, ran, ranFront, place⟩ := encoded_at encoded inside
  obtain ⟨insn, _, _, length, typed, same, _⟩ := encodeInstruction_settles ran 0
  exact ⟨front, bytes, back, insn, parts, place, ranFront, encodeInstruction_pos ran,
    fun before after => instructionAt_encoded typed same length⟩

/-- What is written where the size does not change by a multiple of four. -/
theorem patchedBytes_eq_padded {functionId oldSize : Nat} {padded : Bytes}
    (encoded : encodeFunctionBody format body = .ok code)
    (unaligned : ((code.length : Int) - oldSize) % 4 ≠ 0)
    (patched : patchedBytes format functionId oldSize body = .ok padded) :
    ∃ opcode pad front back, format.asyncBreakCheck? = some opcode ∧ 0 < pad ∧
      encodeFunctionBody format (body.take (body.length - 1)) = .ok front ∧
        code = front ++ back ∧ padded = front ++ (List.replicate pad opcode ++ back) ∧
          encodeInstruction format (asyncBreakCheck opcode) = .ok [opcode] := by
  rw [patchedBytes, encoded, Outcome.ok_bind, if_pos unaligned] at patched
  split at patched
  case h_1 => cases patched
  case h_2 opcode known =>
    obtain ⟨left, back, ranLeft, ranBack, rfl⟩ := encodeFunctionBody_append.mp patched
    obtain ⟨front, padding, ranFront, ranPadding, rfl⟩ := encodeFunctionBody_append.mp ranLeft
    obtain rfl := encodeFunctionBody_padding ranPadding
    have parts : code = front ++ back := by
      rw [← take_append_drop (body.length - 1) body, encodeFunctionBody_append] at encoded
      obtain ⟨first, rest, ranFirst, ranRest, rfl⟩ := encoded
      rw [Outcome.ok.inj (ranFirst.symm.trans ranFront), Outcome.ok.inj (ranRest.symm.trans ranBack)]
    have positive : 0 < (4 - ((code.length : Int) - oldSize) % 4).toNat := by
      have below := Int.emod_lt_of_pos ((code.length : Int) - oldSize) (by decide : (0 : Int) < 4)
      omega
    refine ⟨opcode, _, front, back, known, positive, ranFront, parts, append_assoc _ _ _, ?_⟩
    obtain ⟨count, more⟩ := Nat.exists_eq_succ_of_ne_zero positive.ne'
    rw [more, replicate_succ, encodeFunctionBody] at ranPadding
    obtain ⟨bytes, ran, _⟩ := Outcome.bind_eq_ok.mp ranPadding
    rw [ran, encodeInstruction_asyncBreakCheck ran]

variable {pad : Nat}

theorem paddedPlaceAt_earlier {index : Nat} (earlier : index + 1 < body.length) :
    paddedPlaceAt format body pad index = placeAt format body index := if_pos earlier

theorem paddedPlaceAt_last {index : Nat} (last : index + 1 = body.length) :
    paddedPlaceAt format body pad index = placeAt format body index + pad :=
  if_neg (Nat.not_lt_of_le last.ge)

/-- An index of a body is the last one or an earlier one. -/
theorem earlier_or_last {index : Nat} (inside : index < body.length) :
    index + 1 < body.length ∨ index + 1 = body.length :=
  Nat.lt_or_eq_of_le inside

/-- The instructions stand at their places in the padded bytes. -/
theorem instructionAt_paddedPlace {front back : Bytes} {opcode : UInt8}
    (encoded : encodeFunctionBody format body = .ok (front ++ back))
    (ranFront : encodeFunctionBody format (body.take (body.length - 1)) = .ok front) {index : Nat}
    (inside : index < body.length) :
    ∃ insn, instructionAt format (front ++ back) (placeAt format body index) = some insn ∧
      instructionAt format (front ++ (List.replicate pad opcode ++ back))
          (paddedPlaceAt format body pad index) =
        some { insn with offset := paddedPlaceAt format body pad index } := by
  rcases earlier_or_last inside with earlier | last
  · have within : index < (body.take (body.length - 1)).length := by
      rw [length_take]
      omega
    obtain ⟨before, bytes, after, insn, rfl, place, _, _, reads⟩ := instructionAt_body ranFront within
    have same : placeAt format (body.take (body.length - 1)) index = placeAt format body index := by
      rw [placeAt, placeAt, take_take, Nat.min_eq_left (Nat.le_sub_one_of_lt inside)]
    rw [same] at place
    refine ⟨{ insn with offset := placeAt format body index }, ?_, ?_⟩
    · rw [← place, append_assoc, append_assoc]
      exact reads before (after ++ back)
    · rw [paddedPlaceAt_earlier earlier, ← place, append_assoc, append_assoc]
      exact reads before (after ++ (List.replicate pad opcode ++ back))
  · obtain ⟨before, bytes, after, insn, parts, place, ranBefore, _, reads⟩ :=
      instructionAt_body encoded inside
    obtain rfl : index = body.length - 1 := Nat.eq_sub_of_add_eq last
    obtain rfl : before = front := Outcome.ok.inj (ranBefore.symm.trans ranFront)
    obtain rfl : back = bytes ++ after := append_cancel_left parts
    refine ⟨{ insn with offset := placeAt format body (body.length - 1) }, ?_, ?_⟩
    · rw [← place]
      exact reads before after
    · have stands : placeAt format body (body.length - 1) + pad =
          (before ++ List.replicate pad opcode).length := by
        rw [length_append, length_replicate, place]
      rw [paddedPlaceAt_last last, stands, ← append_assoc]
      exact reads (before ++ List.replicate pad opcode) after

/-- The padding is instructions that do nothing. -/
theorem instructionAt_padding (front back : Bytes) {opcode : UInt8}
    (encoded : encodeInstruction format (asyncBreakCheck opcode) = .ok [opcode]) {index : Nat}
    (inside : index < pad) :
    ∃ insn, instructionAt format (front ++ (List.replicate pad opcode ++ back))
      (front.length + index) = some insn ∧ insn.opcode = opcode := by
  obtain ⟨insn, _, same, length, typed, ran, _⟩ := encodeInstruction_settles encoded 0
  have parts : front ++ (List.replicate pad opcode ++ back) =
      front ++ List.replicate index opcode ++
        ([opcode] ++ (List.replicate (pad - index - 1) opcode ++ back)) := by
    have count : pad = index + (1 + (pad - index - 1)) := by omega
    rw [count, replicate_add, replicate_add, Nat.add_sub_cancel_left, Nat.add_sub_cancel_left]
    simp only [append_assoc]
    rfl
  have stands : front.length + index = (front ++ List.replicate index opcode).length := by
    rw [length_append, length_replicate]
  refine ⟨{ insn with offset := front.length + index }, ?_, same⟩
  rw [parts, stands]
  exact instructionAt_encoded typed ran length

end Padding

/-- The padding keeps the jumps exactly when the last instruction does not jump to an
earlier one. -/
theorem patchedBytes_keepsJumps_iff {format : BytecodeFormat} {functionId oldSize : Nat}
    {body : List Instruction} {code padded : Bytes}
    (encoded : encodeFunctionBody format body = .ok code)
    (unaligned : ((code.length : Int) - oldSize) % 4 ≠ 0)
    (patched : patchedBytes format functionId oldSize body = .ok padded) :
    KeepsJumps format body code padded (padded.length - code.length) ↔
      ¬ LastJumpsBack format body code := by
  obtain ⟨opcode, pad, front, back, known, positive, ranFront, rfl, rfl, ranPadding⟩ :=
    patchedBytes_eq_padded encoded unaligned patched
  have added : (front ++ (List.replicate pad opcode ++ back)).length - (front ++ back).length =
      pad := by
    simp only [length_append, length_replicate]
    omega
  rw [added]
  constructor
  · rintro keeps ⟨target, displacement, earlier, names⟩
    have reaches := (keeps.jumps (body.length - 1) target displacement names).2
    have leads := names.2.2.2
    have last : body.length - 1 + 1 = body.length := by omega
    rw [paddedPlaceAt_last last, paddedPlaceAt_earlier earlier, leads] at reaches
    omega
  · intro forward
    refine ⟨fun index inside => instructionAt_paddedPlace encoded ranFront inside, ?_, ?_⟩
    · intro place behind before
      have seam : front.length = placeAt format body (body.length - 1) :=
        encodeFunctionBody_length ranFront
      obtain ⟨index, rfl⟩ := Nat.exists_eq_add_of_le behind
      obtain ⟨insn, found, same⟩ := instructionAt_padding front back ranPadding
        (Nat.lt_of_add_lt_add_left before)
      rw [← seam]
      exact ⟨insn, found, same ▸ known⟩
    · intro source target displacement names
      obtain ⟨sourceInside, targetInside, jumps, leads⟩ := names
      rcases earlier_or_last sourceInside with sourceEarlier | sourceLast
      · rw [paddedPlaceAt_earlier sourceEarlier, ← leads]
        refine ⟨le_refl _, ?_⟩
        rcases earlier_or_last targetInside with targetEarlier | targetLast
        · rw [paddedPlaceAt_earlier targetEarlier]
        · rw [paddedPlaceAt_last targetLast]
          omega
      · rcases earlier_or_last targetInside with targetEarlier | targetLast
        · refine (forward ⟨target, displacement, targetEarlier, ?_⟩).elim
          rw [← sourceLast]
          exact ⟨sourceInside, targetInside, jumps, leads⟩
        · obtain rfl : source = target := Nat.succ.inj (sourceLast.trans targetLast.symm)
          rw [paddedPlaceAt_last sourceLast]
          omega

/-- The opcodes of version 96 that the loop below uses. -/
def loopFormat : BytecodeFormat where
  version := 96
  definitions := (List.range 152).map fun opcode =>
    if opcode = 98 then ⟨98, "AsyncBreakCheck", [], false⟩
    else if opcode = 118 then ⟨118, "LoadConstUndefined", [.reg8], false⟩
    else if opcode = 142 then ⟨142, "Jmp", [.addr8], true⟩
    else ⟨0, "<invalid>", [], false⟩

/-- A loop without an end: its last instruction jumps to the first one. -/
def loopBody : List Instruction :=
  [⟨0, 118, [⟨.reg8, .u8 0⟩], 2⟩, ⟨2, 142, [⟨.addr8, .i8 (-2)⟩], 2⟩]

/-- Patched over a function of five bytes the loop gets one byte of padding, and its jump
leads into the middle of the first instruction. -/
theorem loopBody_not_kept :
    encodeFunctionBody loopFormat loopBody = .ok [118, 0, 142, 254] ∧
      patchedBytes loopFormat 0 5 loopBody = .ok [118, 0, 98, 142, 254] ∧
        ¬ KeepsJumps loopFormat loopBody [118, 0, 142, 254] [118, 0, 98, 142, 254] 1 := by
  refine ⟨by decide +kernel, by decide +kernel, ?_⟩
  intro keeps
  have back : Names loopFormat loopBody [118, 0, 142, 254] 1 0 (-2) :=
    ⟨by decide, by decide, ⟨⟨2, 142, [⟨.addr8, .i8 (-2)⟩], 2⟩, by decide +kernel,
      ⟨.addr8, .i8 (-2)⟩, by decide, rfl⟩, by decide +kernel⟩
  have reaches := (keeps.jumps 1 0 (-2) back).2
  revert reaches
  decide +kernel

theorem loopBody_keepsJumps_iff :
    KeepsJumps loopFormat loopBody [118, 0, 142, 254] [118, 0, 98, 142, 254] (5 - 4) ↔
      ¬ LastJumpsBack loopFormat loopBody [118, 0, 142, 254] := by
  have encoded : encodeFunctionBody loopFormat loopBody = .ok [118, 0, 142, 254] := by
    decide +kernel
  have patched : patchedBytes loopFormat 0 5 loopBody = .ok [118, 0, 98, 142, 254] := by
    decide +kernel
  exact patchedBytes_keepsJumps_iff encoded (by decide) patched

end HermesDecomp
