import HermesDecomp.Write.Encode

/-!
# Padding a function

The padding stub puts four instructions that do nothing before the last return of a function. So a
jump keeps its target exactly when the padding does not come between the two, and a switch keeps
its table exactly when the padding does not come between those.
-/

namespace HermesDecomp

open List
open ByteReader (between)

/-- The position of the last element with a property. -/
def rposition {α : Type} (test : α → Bool) : List α → Option Nat
  | [] => none
  | first :: rest =>
      match rposition test rest with
      | some found => some (found + 1)
      | none => if test first then some 0 else none

/-- The instruction that does nothing. -/
def asyncBreakCheck (opcode : UInt8) : Instruction := ⟨0, opcode, [], 1⟩

/-- Whether an instruction returns from the function. -/
def isRet (format : BytecodeFormat) (insn : Instruction) : Bool := format.named insn.opcode "Ret"

/-- The body with the padding before its last return, or at its end. -/
def nopPad (format : BytecodeFormat) (body : List Instruction) : List Instruction :=
  match format.asyncBreakCheck? with
  | some opcode =>
      let nopAt := (rposition (isRet format) body).getD body.length
      body.take nopAt ++ List.replicate 4 (asyncBreakCheck opcode) ++ body.drop nopAt
  | none => body

/-- The bytes a new body is patched in as. Where the size would not change by a multiple of
four, instructions that do nothing are put before the last one. -/
def patchedBytes (format : BytecodeFormat) (functionId oldSize : Nat) (newBody : List Instruction) :
    Result Bytes := do
  let encoded ← encodeFunctionBody format newBody
  let delta : Int := encoded.length - oldSize
  if delta % 4 ≠ 0 then
    match format.asyncBreakCheck? with
    | none => .err (.write s!"cannot 4-byte-align function {functionId} body (size delta {delta} is not a multiple of 4) — this bytecode version has no AsyncBreakCheck instruction to pad with")
    | some opcode =>
        let pad := (4 - delta % 4).toNat
        let insertAt := newBody.length - 1
        encodeFunctionBody format (newBody.take insertAt ++
          List.replicate pad (asyncBreakCheck opcode) ++ newBody.drop insertAt)
  else pure encoded

/-- The bytes of a function after the padding stub. What follows the function moves by the
difference in size. -/
def injectNopPad (format : BytecodeFormat) (functionId : Nat) (code : Bytes) : Result Bytes := do
  let body ← decodeInstructions format code
  patchedBytes format functionId code.length (nopPad format body)

/-- The displacement of an operand that is an address. -/
def displacement? (operand : Operand) : Option Int :=
  match operand.ty with
  | .addr8 | .addr32 => operand.value.asI32
  | _ => none

/-- The operand of a switch that says where its table is. -/
def tableOperand? (format : BytecodeFormat) (insn : Instruction) : Option Nat :=
  if format.named insn.opcode "SwitchImm" || format.named insn.opcode "UIntSwitchImm" then
    (insn.operands[1]?).bind fun operand => operand.value.asU32
  else if format.named insn.opcode "StringSwitchImm" then
    (insn.operands[2]?).bind fun operand => operand.value.asU32
  else none

/-- The next multiple of four. -/
def align4 (place : Nat) : Nat := (place + 3) / 4 * 4

/-- Where the table of a switch is, for a function at a place of the instructions of the
file. -/
def tablePlace (base offset operand : Nat) : Nat := align4 (offset + operand + base)

/-- The instruction at an offset of the bytes of a function. -/
def instructionAt (format : BytecodeFormat) (code : Bytes) (offset : Nat) : Option Instruction :=
  if inside : offset ≤ code.length then
    (decodeInstruction format offset ⟨code, offset, inside⟩).1.toOption
  else none

/-- Where the padding goes: before the last return, or at the end. -/
def seam (format : BytecodeFormat) (body : List Instruction) : Nat :=
  match body.reverse.find? (isRet format) with
  | some last => last.offset
  | none => (body.map Instruction.length).sum

/-- Where a place is after bytes were put in at another one. -/
def moved (seam added place : Nat) : Nat := if place < seam then place else place + added

/-- Every instruction stands at its new place with its operands, every displacement that led
to an instruction is the distance between the new places of the two, and every table is
where its switch says. -/
structure KeepsControlFlow (format : BytecodeFormat) (base : Nat) (body : List Instruction)
    (place : Nat → Nat) (encoded : Bytes) : Prop where
  instructions : ∀ insn ∈ body, instructionAt format encoded (place insn.offset) =
    some { insn with offset := place insn.offset }
  jumps : ∀ source ∈ body, ∀ target ∈ body, ∀ operand ∈ source.operands, ∀ displacement,
    displacement? operand = some displacement →
      (target.offset : Int) = source.offset + displacement →
        (place target.offset : Int) = place source.offset + displacement
  tables : ∀ insn ∈ body, ∀ operand, tableOperand? format insn = some operand →
    tablePlace base (place insn.offset) operand =
      base + place (tablePlace base insn.offset operand - base)

/-- No padding comes between a jump and the instruction it leads to, or between a switch and
its table. -/
structure Uncrossed (format : BytecodeFormat) (base : Nat) (body : List Instruction) : Prop where
  jumps : ∀ source ∈ body, ∀ target ∈ body, ∀ operand ∈ source.operands, ∀ displacement,
    displacement? operand = some displacement →
      (target.offset : Int) = source.offset + displacement →
        (source.offset < seam format body ↔ target.offset < seam format body)
  tables : ∀ insn ∈ body, ∀ operand, tableOperand? format insn = some operand →
    (insn.offset < seam format body ↔ tablePlace base insn.offset operand - base < seam format body)

section Seam

variable {format : BytecodeFormat} {body : List Instruction}

/-- Without a position there is no element with the property. -/
theorem rposition_eq_none {α : Type} {test : α → Bool} {items : List α}
    (absent : rposition test items = none) : items.reverse.find? test = none := by
  induction items with
  | nil => rfl
  | cons first items ih =>
    rw [rposition] at absent
    rw [reverse_cons, List.find?_append]
    split at absent
    case h_1 => cases absent
    case h_2 nowhere =>
      split at absent
      case isTrue => cases absent
      case isFalse fails =>
        rw [ih nowhere, Option.none_or, List.find?_cons_of_neg fails]
        rfl

/-- The last element with a property stands at its position. -/
theorem rposition_eq_some {α : Type} {test : α → Bool} {items : List α} {position : Nat}
    (found : rposition test items = some position) :
    ∃ last rest, items.drop position = last :: rest ∧ items.reverse.find? test = some last := by
  induction items generalizing position with
  | nil => cases found
  | cons first items ih =>
    rw [rposition] at found
    rw [reverse_cons, List.find?_append]
    split at found
    case h_1 later stands =>
      cases found
      obtain ⟨last, rest, dropped, search⟩ := ih stands
      exact ⟨last, rest, dropped, by rw [search]; rfl⟩
    case h_2 absent =>
      split at found
      case isTrue passes =>
        cases found
        refine ⟨first, items, rfl, ?_⟩
        rw [rposition_eq_none absent, Option.none_or, List.find?_cons_of_pos passes]
      case isFalse => cases found

/-- The padding goes in at the seam. -/
theorem seam_split {code : Bytes} (listing : Listing format 0 body code) {position : Nat}
    (place : position = (rposition (isRet format) body).getD body.length) :
    ∃ front back, code = front ++ back ∧ seam format body = front.length ∧
      Listing format 0 (body.take position) front ∧
        Listing format front.length (body.drop position) back := by
  have whole : Listing format 0 (body.take position ++ body.drop position) code := by
    rw [take_append_drop]
    exact listing
  obtain ⟨front, back, rfl, listed, behind⟩ := whole.split
  rw [zero_add] at behind
  refine ⟨front, back, rfl, ?_, listed, behind⟩
  unfold seam
  cases found : rposition (isRet format) body with
  | some _ =>
    rw [found] at place
    subst place
    obtain ⟨last, rest, dropped, search⟩ := rposition_eq_some found
    rw [search]
    rw [dropped] at behind
    cases behind with
    | cons place typed encoded length others => exact place
  | none =>
    rw [found] at place
    subst place
    rw [rposition_eq_none found]
    rw [Option.getD_none, take_length] at listed
    exact listed.length_eq.symm

/-- The encoding of two parts of a body. -/
theorem encodeFunctionBody_append {before after : List Instruction} {encoded : Bytes} :
    encodeFunctionBody format (before ++ after) = .ok encoded ↔
      ∃ front back, encodeFunctionBody format before = .ok front ∧
        encodeFunctionBody format after = .ok back ∧ encoded = front ++ back := by
  induction before generalizing encoded with
  | nil =>
    constructor
    · intro ran
      exact ⟨[], encoded, rfl, ran, rfl⟩
    · rintro ⟨front, back, empty, ran, rfl⟩
      cases empty
      exact ran
  | cons insn before ih =>
    rw [cons_append, encodeFunctionBody, encodeFunctionBody]
    simp only [Outcome.bind_eq_ok, ih, Outcome.pure_eq, Outcome.ok.injEq]
    constructor
    · rintro ⟨first, ran, _, ⟨front, back, ranFront, ranBack, rfl⟩, rfl⟩
      exact ⟨first ++ front, back, ⟨first, ran, front, ranFront, rfl⟩, ranBack,
        (append_assoc first front back).symm⟩
    · rintro ⟨_, back, ⟨first, ran, front, ranFront, rfl⟩, ranBack, rfl⟩
      exact ⟨first, ran, front ++ back, ⟨front, back, ranFront, ranBack, rfl⟩,
        (append_assoc first front back).symm⟩

/-- An instruction that does nothing is its opcode. -/
theorem encodeInstruction_asyncBreakCheck {opcode : UInt8} {bytes : Bytes}
    (encoded : encodeInstruction format (asyncBreakCheck opcode) = .ok bytes) :
    bytes = [opcode] := by
  rw [encodeInstruction] at encoded
  split at encoded
  case h_1 => cases encoded
  case h_2 entry found =>
    dsimp only at encoded
    split at encoded
    case isTrue => cases encoded
    case isFalse => exact (Outcome.ok.inj encoded).symm

/-- The padding is its opcodes. -/
theorem encodeFunctionBody_padding {opcode : UInt8} {count : Nat} {bytes : Bytes}
    (encoded : encodeFunctionBody format (List.replicate count (asyncBreakCheck opcode)) =
      .ok bytes) : bytes = List.replicate count opcode := by
  induction count generalizing bytes with
  | zero => exact (Outcome.ok.inj encoded).symm
  | succ count ih =>
    rw [replicate_succ, encodeFunctionBody] at encoded
    obtain ⟨first, ran, encoded⟩ := Outcome.bind_eq_ok.mp encoded
    obtain ⟨rest, others, joined⟩ := Outcome.bind_eq_ok.mp encoded
    cases joined
    rw [encodeInstruction_asyncBreakCheck ran, ih others]
    rfl

/-- A body whose size changes by a multiple of four is patched in as it is encoded. -/
theorem patchedBytes_eq_ok {functionId oldSize : Nat} {newBody : List Instruction}
    {encoded bytes : Bytes} (ran : encodeFunctionBody format newBody = .ok encoded)
    (aligned : ((encoded.length : Int) - oldSize) % 4 = 0)
    (patched : patchedBytes format functionId oldSize newBody = .ok bytes) : bytes = encoded := by
  rw [patchedBytes, ran, Outcome.ok_bind, if_neg (not_not.mpr aligned)] at patched
  exact (Outcome.ok.inj patched).symm

end Seam

section

variable {format : BytecodeFormat} {functionId : Nat} {code encoded : Bytes}
  {body : List Instruction} (decoded : decodeInstructions format code = .ok body)

include decoded

/-- What the padding stub writes: the bytes of the function with the padding put in at the
seam. -/
theorem injectNopPad_eq_ok {opcode : UInt8} (known : format.asyncBreakCheck? = some opcode)
    (injected : injectNopPad format functionId code = .ok encoded) :
    ∃ before after front back, body = before ++ after ∧ code = front ++ back ∧
      seam format body = front.length ∧ Listing format 0 before front ∧
        Listing format front.length after back ∧
          encoded = front ++ (List.replicate 4 opcode ++ back) := by
  have listing := listing_of_decodeInstructions decoded
  rw [injectNopPad, decoded, Outcome.ok_bind] at injected
  obtain ⟨front, back, rfl, here, listed, behind⟩ := seam_split listing rfl
  refine ⟨_, _, front, back, (take_append_drop _ body).symm, rfl, here, listed, behind, ?_⟩
  have padded : nopPad format body =
      body.take ((rposition (isRet format) body).getD body.length) ++
        List.replicate 4 (asyncBreakCheck opcode) ++
          body.drop ((rposition (isRet format) body).getD body.length) := by
    rw [nopPad, known]
  obtain ⟨bytes, ran, _⟩ := Outcome.bind_eq_ok.mp injected
  have parts := ran
  rw [padded, encodeFunctionBody_append] at parts
  obtain ⟨left, right, ranLeft, ranRight, rfl⟩ := parts
  obtain ⟨first, padding, ranFirst, ranPadding, rfl⟩ := encodeFunctionBody_append.mp ranLeft
  obtain rfl := encodeFunctionBody_padding ranPadding
  obtain rfl : front = first := Outcome.ok.inj (listed.encode.symm.trans ranFirst)
  obtain rfl : back = right := Outcome.ok.inj (behind.encode.symm.trans ranRight)
  rw [patchedBytes_eq_ok ran ?_ injected, append_assoc]
  simp only [length_append, length_replicate]
  omega

/-- Without padding the bytes stay the same. -/
theorem injectNopPad_eq_code (unknown : format.asyncBreakCheck? = none)
    (injected : injectNopPad format functionId code = .ok encoded) : encoded = code := by
  have listing := listing_of_decodeInstructions decoded
  rw [injectNopPad, decoded, Outcome.ok_bind, nopPad, unknown] at injected
  refine patchedBytes_eq_ok listing.encode ?_ injected
  rw [Int.sub_self]
  rfl

end

/-- An instruction is read where its bytes stand. -/
theorem instructionAt_encoded {format : BytecodeFormat} {insn : Instruction} {front bytes back : Bytes}
    (typed : WellTyped format insn) (encoded : encodeInstruction format insn = .ok bytes)
    (length : insn.length = bytes.length) :
    instructionAt format (front ++ (bytes ++ back)) front.length =
      some { insn with offset := front.length } := by
  have inside : front.length ≤ (front ++ (bytes ++ back)).length := by
    rw [length_append]
    exact Nat.le_add_right _ _
  have ran : decodeInstruction format front.length (between front (bytes ++ back)) =
      (.ok { insn with offset := front.length }, between (front ++ bytes) back) :=
    decodeInstruction_between.mpr ⟨rfl, typed, bytes, back, encoded, length, rfl, rfl⟩
  rw [instructionAt, dif_pos inside]
  change (decodeInstruction format front.length (between front (bytes ++ back))).1.toOption = _
  rw [ran]
  rfl

theorem le_align4 (place : Nat) : place ≤ align4 place := by
  unfold align4
  omega

theorem align4_add_four (place : Nat) : align4 (place + 4) = align4 place + 4 := by
  unfold align4
  omega

theorem base_le_tablePlace (base offset operand : Nat) : base ≤ tablePlace base offset operand :=
  (Nat.le_add_left base (offset + operand)).trans (le_align4 _)

section Moved

variable (seam : Nat)

theorem moved_zero (place : Nat) : moved seam 0 place = place := by
  unfold moved
  split <;> rfl

/-- A displacement stays the distance exactly when both ends are on one side. -/
theorem moved_jump_iff {source target : Nat} {displacement : Int}
    (leads : (target : Int) = source + displacement) :
    (moved seam 4 target : Int) = moved seam 4 source + displacement ↔
      (source < seam ↔ target < seam) := by
  unfold moved
  split <;> split <;> omega

/-- A table stays where its switch says exactly when both are on one side. -/
theorem moved_table_iff (base offset operand : Nat) :
    tablePlace base (moved seam 4 offset) operand =
        base + moved seam 4 (tablePlace base offset operand - base) ↔
      (offset < seam ↔ tablePlace base offset operand - base < seam) := by
  have behind := base_le_tablePlace base offset operand
  have shifted : tablePlace base (offset + 4) operand = tablePlace base offset operand + 4 := by
    rw [tablePlace, tablePlace, ← align4_add_four]
    congr 1
    omega
  by_cases first : offset < seam
  · have still : moved seam 4 offset = offset := if_pos first
    rw [still]
    unfold moved
    split <;> omega
  · have later : moved seam 4 offset = offset + 4 := if_neg first
    rw [later, shifted]
    unfold moved
    split <;> omega

end Moved

section Padding

variable {format : BytecodeFormat} {functionId : Nat} {code encoded : Bytes}
  {body : List Instruction}

/-- Every instruction stands at its new place after the padding. -/
theorem instructionAt_padded {before after : List Instruction} {front back : Bytes}
    (padding : Bytes)
    (here : Listing format 0 before front) (behind : Listing format front.length after back)
    {insn : Instruction} (member : insn ∈ before ++ after) :
    instructionAt format (front ++ (padding ++ back))
        (moved front.length padding.length insn.offset) =
      some { insn with offset := moved front.length padding.length insn.offset } := by
  rcases mem_append.mp member with first | later
  · obtain ⟨left, bytes, right, rfl, encoded, place, typed, length⟩ := here.of_mem first
    have inside : insn.offset < (left ++ (bytes ++ right)).length := by
      have positive := encodeInstruction_pos encoded
      rw [place, length_append, length_append]
      omega
    rw [moved, if_pos inside, place, zero_add, append_assoc, append_assoc]
    exact instructionAt_encoded typed encoded length
  · obtain ⟨left, bytes, right, rfl, encoded, place, typed, length⟩ := behind.of_mem later
    have outside : ¬ insn.offset < front.length := by
      rw [place]
      omega
    have stands : insn.offset + padding.length = (front ++ (padding ++ left)).length := by
      rw [place, length_append, length_append]
      omega
    have parts : front ++ (padding ++ (left ++ (bytes ++ right))) =
        front ++ (padding ++ left) ++ (bytes ++ right) := by
      simp
    rw [moved, if_neg outside, stands, parts]
    exact instructionAt_encoded typed encoded length

/-- The padding keeps the control flow exactly when it does not come between a jump and the
instruction it leads to, or between a switch and its table. -/
theorem injectNopPad_keeps_iff (decoded : decodeInstructions format code = .ok body)
    (injected : injectNopPad format functionId code = .ok encoded) (base : Nat) :
    KeepsControlFlow format base body
        (moved (seam format body) (encoded.length - code.length)) encoded ↔
      format.asyncBreakCheck? = none ∨ Uncrossed format base body := by
  cases known : format.asyncBreakCheck? with
  | none =>
    obtain rfl := injectNopPad_eq_code decoded known injected
    refine iff_of_true ⟨?_, ?_, ?_⟩ (.inl rfl)
    · intro insn member
      obtain ⟨front, bytes, back, rfl, ran, place, typed, length⟩ :=
        (listing_of_decodeInstructions decoded).of_mem member
      rw [Nat.sub_self, moved_zero, place, Nat.zero_add]
      exact instructionAt_encoded typed ran length
    · intro source _ target _ operand _ displacement _ leads
      rw [Nat.sub_self, moved_zero, moved_zero]
      exact leads
    · intro insn _ operand _
      rw [Nat.sub_self, moved_zero, moved_zero]
      have behind := base_le_tablePlace base insn.offset operand
      omega
  | some opcode =>
    obtain ⟨before, after, front, back, rfl, rfl, here, listed, behind, rfl⟩ :=
      injectNopPad_eq_ok decoded known injected
    have added : (front ++ (List.replicate 4 opcode ++ back)).length - (front ++ back).length =
        4 := by
      simp only [length_append, length_replicate]
      omega
    rw [added]
    constructor
    · intro keeps
      refine .inr ⟨?_, ?_⟩
      · intro source sourceMember target targetMember operand operandMember displacement address leads
        exact (moved_jump_iff _ leads).mp (keeps.jumps source sourceMember target targetMember
          operand operandMember displacement address leads)
      · intro insn member operand switch
        exact (moved_table_iff _ base insn.offset operand).mp (keeps.tables insn member operand switch)
    · rintro (absent | uncrossed)
      · cases absent
      · refine ⟨?_, ?_, ?_⟩
        · intro insn member
          have stands := instructionAt_padded (List.replicate 4 opcode) listed behind member
          rw [length_replicate, ← here] at stands
          exact stands
        · intro source sourceMember target targetMember operand operandMember displacement address
            leads
          exact (moved_jump_iff _ leads).mpr (uncrossed.jumps source sourceMember target
            targetMember operand operandMember displacement address leads)
        · intro insn member operand switch
          exact (moved_table_iff _ base insn.offset operand).mpr
            (uncrossed.tables insn member operand switch)

end Padding

/-- The opcodes of version 96 that the body below uses. -/
def jumpFormat : BytecodeFormat where
  version := 96
  definitions := (List.range 152).map fun opcode =>
    if opcode = 92 then ⟨92, "Ret", [.reg8], false⟩
    else if opcode = 95 then ⟨95, "Throw", [.reg8], false⟩
    else if opcode = 98 then ⟨98, "AsyncBreakCheck", [], false⟩
    else if opcode = 144 then ⟨144, "JmpTrue", [.addr8, .reg8], true⟩
    else ⟨0, "<invalid>", [], false⟩

/-- Return, unless a register holds a true value, which is then thrown: the jump leads from
the start past the last return. -/
def jumpCode : Bytes := [144, 5, 0, 92, 0, 95, 0]

/-- The instructions of the code. -/
def jumpBody : List Instruction :=
  [⟨0, 144, [⟨.addr8, .i8 5⟩, ⟨.reg8, .u8 0⟩], 3⟩, ⟨3, 92, [⟨.reg8, .u8 0⟩], 2⟩,
    ⟨5, 95, [⟨.reg8, .u8 0⟩], 2⟩]

theorem jumpCode_keeps_iff :
    KeepsControlFlow jumpFormat 0 jumpBody (moved (seam jumpFormat jumpBody) (11 - 7))
        [144, 5, 0, 98, 98, 98, 98, 92, 0, 95, 0] ↔
      jumpFormat.asyncBreakCheck? = none ∨ Uncrossed jumpFormat 0 jumpBody := by
  have decoded : decodeInstructions jumpFormat jumpCode = .ok jumpBody := by decide +kernel
  have injected : injectNopPad jumpFormat 0 jumpCode =
      .ok [144, 5, 0, 98, 98, 98, 98, 92, 0, 95, 0] := by decide +kernel
  exact injectNopPad_keeps_iff decoded injected 0

/-- After the padding the jump leads into it, and so to the return. -/
theorem jumpCode_not_kept :
    decodeInstructions jumpFormat jumpCode = .ok jumpBody ∧
      injectNopPad jumpFormat 0 jumpCode = .ok [144, 5, 0, 98, 98, 98, 98, 92, 0, 95, 0] ∧
        ¬ KeepsControlFlow jumpFormat 0 jumpBody (moved (seam jumpFormat jumpBody) (11 - 7))
          [144, 5, 0, 98, 98, 98, 98, 92, 0, 95, 0] := by
  refine ⟨by decide +kernel, by decide +kernel, ?_⟩
  intro keeps
  have moves := keeps.jumps ⟨0, 144, [⟨.addr8, .i8 5⟩, ⟨.reg8, .u8 0⟩], 3⟩ (by decide)
    ⟨5, 95, [⟨.reg8, .u8 0⟩], 2⟩ (by decide) ⟨.addr8, .i8 5⟩ (by decide) 5 rfl rfl
  revert moves
  decide +kernel

end HermesDecomp
