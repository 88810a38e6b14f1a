import HermesDecomp.Write.HasmParse
import HermesDecomp.Write.AlignmentPadding

/-!
# What labels bind to

A label stands for the offset of the instruction behind it. The parser keeps one waiting
label at a time, so of several labels in front of one instruction only the last is kept. A
label that is kept nowhere is read as the offset in its name.
-/

namespace HermesDecomp.Hasm

open Scan Numeral List Outcome

/-- The bytes a line adds to the body. -/
def lineSize (format : BytecodeFormat) : Line → Nat
  | .instruction mnemonic _ =>
      (((opcodeOf? format mnemonic).bind format.definition?).map fun entry =>
        instructionSize entry.operandTypes).getD 0
  | _ => 0

/-- The offset behind lines. -/
def offsetBehind (format : BytecodeFormat) (lines : List Line) : Nat :=
  (lines.map (lineSize format)).sum % 2 ^ 32

/-- The instruction of a line, as its mnemonic and its operands. -/
def instructionOf : Line → Option (Text × List Text)
  | .instruction mnemonic ops => some (mnemonic, ops)
  | _ => none

/-- The handler of a line. -/
def handlerOf : Line → Option HandlerSpec
  | .handler spec => some spec
  | _ => none

/-- A line of the text defines a label, in front of the instruction at an offset. -/
def Defines (format : BytecodeFormat) (lines : List Line) (name : Text) (place : Nat) : Prop :=
  ∃ before after, lines = before ++ .label name :: after ∧ place = offsetBehind format before

/-- No label stands in front of the next instruction. -/
def unlabelled : List Line → Bool
  | [] => true
  | .instruction _ _ :: _ => true
  | .label _ :: _ => false
  | _ :: rest => unlabelled rest

/-- A line that defines a label is the last label in front of its instruction. -/
def KeptAt (format : BytecodeFormat) (lines : List Line) (name : Text) (place : Nat) : Prop :=
  ∃ before after, lines = before ++ .label name :: after ∧ unlabelled after = true ∧
    place = offsetBehind format before

/-- The lines that define a label stand in front of one instruction, and one of them is the
last label there, or the name of the label is the offset of that instruction. -/
def Binds (format : BytecodeFormat) (lines : List Line) (name : Text) : Prop :=
  (∀ first second, Defines format lines name first → Defines format lines name second →
    first = second) ∧
      ((∃ place, KeptAt format lines name place) ∨
        ∃ place, literalTarget? name = some place ∧ Defines format lines name place)

/-- A name in an address operand or in a field of a handler, and the offset it is resolved
to. -/
inductive Uses (lines : List Line) (body : List Instruction) :
    Option (List ExceptionHandler) → Text → Nat → Prop where
  | address {handlers : Option (List ExceptionHandler)} {index position : Nat} {insn : Instruction}
      {mnemonic token : Text} {ops : List Text} {operand : Operand} {displacement : Int}
      (line : (lines.filterMap instructionOf)[index]? = some (mnemonic, ops))
      (built : body[index]? = some insn) (written : ops[position]? = some token)
      (read : insn.operands[position]? = some operand)
      (leads : displacement? operand = some displacement) :
      Uses lines body handlers (trim token) ((insn.offset + displacement) % 2 ^ 32).toNat
  | start {handlers : List ExceptionHandler} {index : Nat} {spec : HandlerSpec}
      {handler : ExceptionHandler} (line : (lines.filterMap handlerOf)[index]? = some spec)
      (built : handlers[index]? = some handler) :
      Uses lines body (some handlers) spec.start handler.start
  | finish {handlers : List ExceptionHandler} {index : Nat} {spec : HandlerSpec}
      {handler : ExceptionHandler} (line : (lines.filterMap handlerOf)[index]? = some spec)
      (built : handlers[index]? = some handler) :
      Uses lines body (some handlers) spec.finish handler.finish
  | target {handlers : List ExceptionHandler} {index : Nat} {spec : HandlerSpec}
      {handler : ExceptionHandler} (line : (lines.filterMap handlerOf)[index]? = some spec)
      (built : handlers[index]? = some handler) :
      Uses lines body (some handlers) spec.target handler.target

section Passes

variable {format : BytecodeFormat}

theorem offsetBehind_lt (lines : List Line) : offsetBehind format lines < 2 ^ 32 :=
  Nat.mod_lt _ (by decide)

variable {name : Text} {place : Nat}

theorem KeptAt.defines {lines : List Line} (kept : KeptAt format lines name place)
    : Defines format lines name place:= by
  obtain ⟨before, after, parts, _, stands⟩ := kept
  exact ⟨before, after, parts, stands⟩

/-- A label of the second pass on lines, from an offset on: one that was there, the one that
waits, or one that is kept. -/
def PlacedAt (format : BytecodeFormat) (offset : Nat) (labels : Labels) (waiting : Option Text)
    (lines : List Line) (name : Text) (place : Nat) : Prop :=
  (name, place) ∈ labels ∨ (waiting = some name ∧ unlabelled lines = true ∧ place = offset) ∨
    ∃ before after, lines = before ++ .label name :: after ∧ unlabelled after = true ∧
      place = (offset + (before.map (lineSize format)).sum) % 2 ^ 32

variable {offset : Nat} {labels found : Labels} {sized : List Sized} {stop : Nat}

/-- What the second pass does with an instruction line. -/
theorem secondPass_cons {raw : RawLine} {rest : List RawLine}
    (ran : secondPass format offset labels (raw :: rest) = .ok (sized, found, stop)) :
    ∃ opcode entry others, opcodeOf? format raw.mnemonic = some opcode ∧
      format.definition? opcode = some entry ∧ raw.ops.length = entry.operandTypes.length ∧
        secondPass format ((offset + instructionSize entry.operandTypes) % 2 ^ 32)
          (labels.place raw.labelHere offset) rest = .ok (others, found, stop) ∧
            sized = ⟨offset, opcode, raw.ops, entry.operandTypes⟩ :: others := by
  rw [secondPass] at ran
  obtain ⟨opcode, known, ran⟩ := bind_eq_ok.mp ran
  obtain ⟨entry, defined, ran⟩ := bind_eq_ok.mp ran
  rw [ofOption_eq_ok] at known
  rw [unwrap_eq_ok] at defined
  dsimp only at ran
  split at ran
  case isTrue => cases ran
  case isFalse counted =>
    obtain ⟨⟨others, labels', stop'⟩, ranRest, joined⟩ := bind_eq_ok.mp ran
    obtain ⟨rfl, rest⟩ := Prod.mk.inj (Outcome.ok.inj joined)
    cases rest
    exact ⟨opcode, entry, others, known, defined, not_not.mp counted, ranRest, rfl⟩

variable {mnemonic : Text} {ops : List Text}

/-- The size of an instruction line. -/
theorem lineSize_instruction {opcode : UInt8} {entry : InstructionDef}
    (known : opcodeOf? format mnemonic = some opcode)
    (defined : format.definition? opcode = some entry) :
    lineSize format (.instruction mnemonic ops) = instructionSize entry.operandTypes := by
  rw [lineSize, known, Option.bind_some, defined]
  rfl

variable {waiting : Option Text}

theorem mem_place {labels : Labels} :
    (name, place) ∈ labels.place waiting offset ↔
      (name, place) ∈ labels ∨ (waiting = some name ∧ place = offset) := by
  cases waiting with
  | none => simp [Labels.place]
  | some other =>
    rw [Labels.place, mem_cons, Prod.mk.injEq, Option.some.injEq, or_comm]
    exact or_congr_right (and_congr_left fun _ => eq_comm)

variable {rest : List Line}

/-- A line that is neither a label nor an instruction moves nothing. -/
theorem placedAt_cons_idle {labels : Labels} {line : Line} (size : lineSize format line = 0)
    (unnamed : ∀ other, line ≠ .label other) (passes : unlabelled (line :: rest) = unlabelled rest) :
    PlacedAt format offset labels waiting (line :: rest) name place ↔
      PlacedAt format offset labels waiting rest name place := by
  unfold PlacedAt
  rw [passes]
  refine or_congr_right (or_congr_right ⟨?_, ?_⟩)
  · rintro ⟨before, after, parts, kept, stands⟩
    cases before with
    | nil => exact (unnamed name (List.cons.inj parts).1).elim
    | cons first before =>
      cases parts
      rw [map_cons, sum_cons, size, zero_add] at stands
      exact ⟨before, after, rfl, kept, stands⟩
  · rintro ⟨before, after, rfl, kept, stands⟩
    refine ⟨line :: before, after, rfl, kept, ?_⟩
    rw [map_cons, sum_cons, size, zero_add]
    exact stands

/-- A label takes the place of the one that waits. -/
theorem placedAt_cons_label {labels : Labels} {other : Text} (small : offset < 2 ^ 32) :
    PlacedAt format offset labels waiting (.label other :: rest) name place ↔
      PlacedAt format offset labels (some other) rest name place := by
  unfold PlacedAt
  have idle : lineSize format (.label other) = 0 := rfl
  refine or_congr_right ⟨?_, ?_⟩
  · rintro (⟨_, kept, _⟩ | ⟨before, after, parts, kept, stands⟩)
    · cases kept
    · cases before with
      | nil =>
        obtain ⟨same, rfl⟩ := List.cons.inj parts
        cases same
        refine .inl ⟨rfl, kept, ?_⟩
        rw [stands, map_nil, sum_nil, add_zero, Nat.mod_eq_of_lt small]
      | cons first before =>
        cases parts
        rw [map_cons, sum_cons, idle, zero_add] at stands
        exact .inr ⟨before, after, rfl, kept, stands⟩
  · rintro (⟨same, kept, stands⟩ | ⟨before, after, rfl, kept, stands⟩)
    · cases same
      refine .inr ⟨[], rest, rfl, kept, ?_⟩
      rw [stands, map_nil, sum_nil, add_zero, Nat.mod_eq_of_lt small]
    · refine .inr ⟨.label other :: before, after, rfl, kept, ?_⟩
      rw [map_cons, sum_cons, idle, zero_add]
      exact stands

/-- An instruction takes the label that waits. -/
theorem placedAt_cons_instruction {offset size : Nat} {labels : Labels}
    (sized : lineSize format (.instruction mnemonic ops) = size) :
    PlacedAt format offset labels waiting (.instruction mnemonic ops :: rest) name place ↔
      PlacedAt format ((offset + size) % 2 ^ 32) (labels.place waiting offset) none rest name
        place := by
  unfold PlacedAt
  rw [mem_place, or_assoc]
  refine or_congr_right (or_congr ?_ ?_)
  · exact and_congr_right fun _ => ⟨fun kept => kept.2, fun stands => ⟨rfl, stands⟩⟩
  · rw [or_iff_right (fun absent => by cases absent.1)]
    constructor
    · rintro ⟨before, after, parts, kept, stands⟩
      cases before with
      | nil => cases (List.cons.inj parts).1
      | cons first before =>
        cases parts
        refine ⟨before, after, rfl, kept, ?_⟩
        rw [stands, map_cons, sum_cons, sized, Nat.mod_add_mod, add_assoc]
    · rintro ⟨before, after, rfl, kept, stands⟩
      refine ⟨.instruction mnemonic ops :: before, after, rfl, kept, ?_⟩
      rw [stands, map_cons, sum_cons, sized, Nat.mod_add_mod, add_assoc]

/-- The labels that both passes give offsets. -/
theorem mem_labels_iff {lines : List Line} (small : offset < 2 ^ 32)
    (ran : secondPass format offset labels (firstPass waiting lines).rawLines =
      .ok (sized, found, stop)) :
    (name, place) ∈ found.place (firstPass waiting lines).pendingLabel stop ↔
      PlacedAt format offset labels waiting lines name place := by
  induction lines generalizing waiting offset labels sized with
  | nil =>
    obtain ⟨_, rest⟩ := Prod.mk.inj (Outcome.ok.inj ran)
    cases rest
    rw [firstPass, mem_place]
    unfold PlacedAt
    refine or_congr_right ⟨fun waits => .inl ⟨waits.1, rfl, waits.2⟩, ?_⟩
    rintro (⟨waits, _, stands⟩ | ⟨before, after, parts, _⟩)
    · exact ⟨waits, stands⟩
    · cases before <;> cases parts
  | cons line rest ih =>
    cases line with
    | skipped =>
      rw [placedAt_cons_idle rfl (by nofun) rfl]
      exact ih small ran
    | handler spec =>
      rw [placedAt_cons_idle rfl (by nofun) rfl]
      exact ih small ran
    | label other =>
      rw [placedAt_cons_label small]
      exact ih small ran
    | instruction mnemonic ops =>
      obtain ⟨opcode, entry, others, known, defined, _, ranRest, rfl⟩ := secondPass_cons ran
      rw [placedAt_cons_instruction (lineSize_instruction known defined)]
      exact ih (Nat.mod_lt _ (by decide)) ranRest

/-- The instruction lines of the first pass are the ones of the text. -/
theorem rawLines_eq (waiting : Option Text) (lines : List Line) :
    (firstPass waiting lines).rawLines.map (fun raw => (raw.mnemonic, raw.ops)) =
      lines.filterMap instructionOf := by
  induction lines generalizing waiting with
  | nil => rfl
  | cons line rest ih =>
    cases line with
    | skipped => exact ih waiting
    | handler spec => exact ih waiting
    | label name => exact ih (some name)
    | instruction mnemonic ops => exact congrArg (List.cons (mnemonic, ops)) (ih none)

/-- The handlers of the first pass are the ones of the text. -/
theorem handlerSpecs_eq (waiting : Option Text) (lines : List Line) :
    (firstPass waiting lines).handlerSpecs = lines.filterMap handlerOf := by
  induction lines generalizing waiting with
  | nil => rfl
  | cons line rest ih =>
    cases line with
    | skipped => exact ih waiting
    | handler spec => exact congrArg (List.cons spec) (ih waiting)
    | label name => exact ih (some name)
    | instruction mnemonic ops => exact ih none

/-- An instruction of the second pass is the one of its line. -/
structure SizedAs (format : BytecodeFormat) (raw : RawLine) (sized : Sized) : Prop where
  opcode : opcodeOf? format raw.mnemonic = some sized.opcode
  types : ∃ entry, format.definition? sized.opcode = some entry ∧ sized.types = entry.operandTypes
  ops : sized.ops = raw.ops
  counted : sized.ops.length = sized.types.length
  small : sized.offset < 2 ^ 32

/-- The second pass keeps the instruction lines, one for one. -/
theorem secondPass_sized {raws : List RawLine} (small : offset < 2 ^ 32)
    (ran : secondPass format offset labels raws = .ok (sized, found, stop)) :
    List.Forall₂ (SizedAs format) raws sized := by
  induction raws generalizing offset labels sized with
  | nil =>
    obtain ⟨rfl, _⟩ := Prod.mk.inj (Outcome.ok.inj ran)
    exact .nil
  | cons raw rest ih =>
    obtain ⟨opcode, entry, others, known, defined, counted, ranRest, rfl⟩ := secondPass_cons ran
    exact .cons ⟨known, ⟨entry, defined, rfl⟩, rfl, counted, small⟩
      (ih (Nat.mod_lt _ (by decide)) ranRest)

/-- The instruction of a line stands at the offset behind the lines before it. -/
theorem secondPass_offset {before after : List Line} (small : offset < 2 ^ 32)
    (ran : secondPass format offset labels
      (firstPass waiting (before ++ .instruction mnemonic ops :: after)).rawLines =
        .ok (sized, found, stop)) :
    ∃ here, sized[(before.filterMap instructionOf).length]? = some here ∧
      here.offset = (offset + (before.map (lineSize format)).sum) % 2 ^ 32 := by
  induction before generalizing waiting offset labels sized with
  | nil =>
    obtain ⟨opcode, entry, others, _, _, _, _, rfl⟩ := secondPass_cons ran
    refine ⟨⟨offset, opcode, ops, entry.operandTypes⟩, rfl, ?_⟩
    rw [map_nil, sum_nil, add_zero, Nat.mod_eq_of_lt small]
  | cons line rest ih =>
    rw [map_cons, sum_cons]
    cases line with
    | skipped =>
      rw [show lineSize format .skipped = 0 from rfl, zero_add]
      exact ih small ran
    | handler spec =>
      rw [show lineSize format (.handler spec) = 0 from rfl, zero_add]
      exact ih small ran
    | label name =>
      rw [show lineSize format (.label name) = 0 from rfl, zero_add]
      exact ih small ran
    | instruction mnemonic' ops' =>
      obtain ⟨opcode, entry, others, known, defined, _, ranRest, rfl⟩ := secondPass_cons ran
      obtain ⟨here, found, stands⟩ := ih (Nat.mod_lt _ (by decide)) ranRest
      refine ⟨here, found, ?_⟩
      rw [stands, lineSize_instruction known defined, Nat.mod_add_mod, add_assoc]

end Passes

variable {labels : Labels} {strings : StringLookup}

/-- The operand at a position is read from the token and the kind at that position. -/
theorem parseOperands_at {insnOffset : Nat} {tokens : List Text} {types : List OperandType}
    {operands : List Operand} {position : Nat} {token : Text} {operand : Operand}
    (parsed : parseOperands insnOffset labels strings tokens types = .ok operands)
    (written : tokens[position]? = some token) (read : operands[position]? = some operand) :
    types[position]? = some operand.ty ∧
      parseOperandToken token operand.ty insnOffset labels strings = .ok operand.value := by
  induction tokens generalizing types operands position with
  | nil => cases written
  | cons first tokens ih =>
    cases types with
    | nil =>
      cases parsed
      cases read
    | cons ty types =>
      rw [parseOperands] at parsed
      obtain ⟨value, ranFirst, parsed⟩ := bind_eq_ok.mp parsed
      obtain ⟨rest, ranRest, joined⟩ := bind_eq_ok.mp parsed
      cases joined
      cases position with
      | zero =>
        cases written
        cases read
        exact ⟨rfl, ranFirst⟩
      | succ position =>
        have later := ih ranRest written read
        exact later

/-- The displacement of an address operand leads from the instruction to the target. -/
theorem addressValue_eq_ok {ty : OperandType} (address : ty = .addr8 ∨ ty = .addr32)
    {displacement : Int} {value : OperandValue} (low : -2 ^ 31 ≤ displacement)
    (high : displacement < 2 ^ 31) (given : addressValue ty displacement = .ok value) :
    displacement? ⟨ty, value⟩ = some displacement := by
  rcases address with rfl | rfl
  · by_cases outside : displacement < -128 ∨ 127 < displacement
    · cases (if_pos outside).symm.trans given
    · obtain rfl := Outcome.ok.inj ((if_neg outside).symm.trans given)
      have same : (Int8.ofInt displacement).toInt = displacement :=
        Int8.toInt_ofInt_of_le (by omega) (by omega)
      exact congrArg some same
  · cases given
    exact congrArg some (Int32.toInt_ofInt_of_le low high)

/-- What the token of an address operand is read as. -/
theorem parseOperandToken_address {token : Text} {operand : Operand} {insnOffset : Nat}
    {displacement : Int}
    (parsed : parseOperandToken token operand.ty insnOffset labels strings = .ok operand.value)
    (leads : displacement? operand = some displacement) :
    ∃ target, addressTarget labels (trim token) = .ok target ∧
      displacement = signedWord target - signedWord insnOffset := by
  have address : operand.ty = .addr8 ∨ operand.ty = .addr32 := by
    cases ty : operand.ty <;> first
      | exact .inl rfl
      | exact .inr rfl
      | rw [displacement?, ty] at leads
        cases leads
  have steps : (addressTarget labels (trim token) >>= fun target =>
      Outcome.checked (-2 ^ 31 ≤ signedWord target - signedWord insnOffset ∧
        signedWord target - signedWord insnOffset < 2 ^ 31)
          (signedWord target - signedWord insnOffset) >>= addressValue operand.ty) =
            .ok operand.value := by
    rw [← parsed]
    rcases address with ty | ty <;> rw [ty] <;> rfl
  obtain ⟨target, found, steps⟩ := bind_eq_ok.mp steps
  obtain ⟨checked, range, given⟩ := bind_eq_ok.mp steps
  obtain ⟨⟨low, high⟩, rfl⟩ := checked_eq_ok.mp range
  refine ⟨target, found, ?_⟩
  exact Option.some.inj (leads.symm.trans (addressValue_eq_ok address low high given))

/-- A displacement leads to its target, counted in words. -/
theorem displaced_eq {target : Nat} (offset : Nat) (small : target < 2 ^ 32) :
    (((offset : Int) + (signedWord target - signedWord offset)) % 2 ^ 32).toNat = target := by
  unfold signedWord
  rw [Int.bmod_def, Int.bmod_def]
  omega

/-- The name of a label opens with its letter. -/
theorem labelOf?_eq_some {line name : Text} (found : labelOf? line = some name) :
    ∃ digits, name = 'L' :: digits := by
  unfold labelOf? at found
  split at found
  case isFalse => cases found
  case isTrue =>
    split at found
    case h_2 => cases found
    case h_1 digits _ =>
      split at found
      case isFalse => cases found
      case isTrue => exact ⟨digits, (Option.some.inj found).symm⟩

variable {format : BytecodeFormat}

/-- A line that is read as a label is the name of one. -/
theorem readLine_label {raw name : Text} (read : readLine format raw = .ok (.label name))
    : ∃ digits, name = 'L' :: digits:= by
  unfold readLine at read
  dsimp only at read
  split at read
  case isTrue => cases Outcome.ok.inj read
  case isFalse =>
    split at read
    case h_1 =>
      unfold handlerSpec at read
      split at read
      case h_1 =>
        split at read
        case isTrue => cases read
        case isFalse => cases Outcome.ok.inj read
      case h_2 => cases read
    case h_2 =>
      split at read
      case isTrue => cases Outcome.ok.inj read
      case isFalse =>
        split at read
        case h_1 found =>
          obtain rfl := Line.label.inj (Outcome.ok.inj read)
          exact labelOf?_eq_some found
        case h_2 =>
          have instruction := Outcome.ok.inj read
          unfold instructionLine at instruction
          split at instruction
          case h_1 => cases instruction
          case h_2 => cases instruction

/-- A label that the text defines opens with its letter. -/
theorem Defines.letter {text : Text} {lines : List Line} {name : Text} {place : Nat}
    (read : readLines format text = .ok lines) (defined : Defines format lines name place)
    : ∃ digits, name = 'L' :: digits:= by
  obtain ⟨before, after, rfl, _⟩ := defined
  obtain ⟨position, inside, found⟩ :=
    getElem_of_mem (mem_append_right before (mem_cons_self (a := .label name)))
  have at_position := List.getElem?_eq_some_iff.mpr ⟨inside, found⟩
  obtain ⟨raw, _, ran⟩ := mapM_getElem? (mapM_eq_ok.mp read) at_position
  exact readLine_label ran

/-- A name is resolved to the offset of a line that keeps it, or it is kept nowhere and is
read as the offset in it. -/
def ResolvedTo (format : BytecodeFormat) (lines : List Line) (name : Text) (resolved : Nat) :
    Prop :=
  KeptAt format lines name resolved ∨
    ((∀ place, ¬ KeptAt format lines name place) ∧ literalTarget? name = some resolved)

/-- A name that is resolved so has the offset of every line that defines it exactly when it
binds. -/
theorem ResolvedTo.exact_iff {lines : List Line} {name : Text} {resolved : Nat}
    (result : ResolvedTo format lines name resolved)
    (somewhere : ∃ place, Defines format lines name place) :
    (∀ place, Defines format lines name place → resolved = place) ↔ Binds format lines name := by
  constructor
  · intro same
    refine ⟨fun first second here there => (same first here).symm.trans (same second there), ?_⟩
    rcases result with kept | ⟨_, literal⟩
    · exact .inl ⟨resolved, kept⟩
    · obtain ⟨place, defined⟩ := somewhere
      obtain rfl := same place defined
      exact .inr ⟨resolved, literal, defined⟩
  · rintro ⟨unique, either⟩ place defined
    rcases result with kept | ⟨lost, literal⟩
    · exact unique resolved place kept.defines defined
    · rcases either with ⟨other, kept⟩ | ⟨other, literal', defined'⟩
      · exact (lost other kept).elim
      · obtain rfl := Option.some.inj (literal.symm.trans literal')
        exact unique resolved place defined' defined

/-- The labels of the text, with the offsets of the lines that keep them. -/
def LabelsOf (format : BytecodeFormat) (lines : List Line) (labels : Labels) : Prop :=
  ∀ name place, (name, place) ∈ labels ↔ KeptAt format lines name place

section Resolved

variable {format : BytecodeFormat} {lines : List Line} {labels : Labels}

/-- The labels after both passes are the ones that are kept. -/
theorem labelsOf_passes {found : Labels} {sized : List Sized} {stop : Nat}
    (ran : secondPass format 0 [] (firstPass none lines).rawLines = .ok (sized, found, stop)) :
    LabelsOf format lines (found.place (firstPass none lines).pendingLabel stop) := by
  intro name place
  rw [mem_labels_iff (by decide) ran]
  unfold PlacedAt
  constructor
  · rintro (absent | ⟨absent, _⟩ | ⟨before, after, parts, kept, stands⟩)
    · cases absent
    · cases absent
    · rw [zero_add] at stands
      exact ⟨before, after, parts, kept, stands⟩
  · rintro ⟨before, after, parts, kept, stands⟩
    refine .inr (.inr ⟨before, after, parts, kept, ?_⟩)
    rw [zero_add]
    exact stands

variable {name : Text}

section

variable (all : LabelsOf format lines labels)

include all

/-- A label that is found is kept, and one that is not found is kept nowhere. -/
theorem LabelsOf.lookup_some {place : Nat} (found : labels.lookup name = some place) :
    KeptAt format lines name place:= by
  obtain ⟨front, back, rfl, _⟩ := lookup_eq_some_iff.mp found
  exact (all name place).mp (mem_append_right _ mem_cons_self)

theorem LabelsOf.lookup_none (absent : labels.lookup name = none) (place : Nat) :
    ¬ KeptAt format lines name place:= by
  intro kept
  have differs := lookup_eq_none_iff.mp absent (name, place) ((all name place).mpr kept)
  rw [bne_self_eq_false] at differs
  cases differs

/-- What an address operand is resolved to. -/
theorem LabelsOf.addressTarget {target : Nat} (found : addressTarget labels name = .ok target) :
    ResolvedTo format lines name target ∧ target < 2 ^ 32 := by
  unfold Hasm.addressTarget at found
  cases kept : labels.lookup name with
  | some place =>
    rw [kept, Option.some_or] at found
    cases found
    have stands := all.lookup_some kept
    obtain ⟨before, after, _, _, rfl⟩ := id stands
    exact ⟨.inl stands, offsetBehind_lt before⟩
  | none =>
    rw [kept, Option.none_or] at found
    cases literal : literalTarget? name with
    | some place =>
      rw [literal] at found
      cases found
      refine ⟨.inr ⟨all.lookup_none kept, literal⟩, ?_⟩
      unfold literalTarget? at literal
      split at literal
      case h_1 =>
        obtain ⟨value, _, rfl⟩ := Option.map_eq_some_iff.mp literal
        exact value.toNat_lt
      case h_2 => cases literal
    | none =>
      rw [literal] at found
      dsimp only at found
      split at found <;> cases found

/-- What a field of a handler is resolved to, where it names a label. -/
theorem LabelsOf.resolve {digits : Text} {offset : Nat}
    (found : resolve labels ('L' :: digits) = .ok offset) :
    ResolvedTo format lines ('L' :: digits) offset := by
  unfold Hasm.resolve at found
  cases kept : labels.lookup ('L' :: digits) with
  | some place =>
    rw [kept] at found
    cases found
    exact .inl (all.lookup_some kept)
  | none =>
    rw [kept] at found
    have letter : parseU32? 10 ('L' :: digits) = none := rfl
    have bare : stripEither ['0', 'x'] ['0', 'X'] ('L' :: digits) = none := rfl
    rw [bare, letter] at found
    cases found

end

end Resolved

/-- A handler is resolved field by field. -/
theorem resolveHandler_eq_ok {spec : HandlerSpec} {handler : ExceptionHandler}
    (ran : resolveHandler labels spec = .ok handler) :
    resolve labels spec.start = .ok handler.start ∧
      resolve labels spec.finish = .ok handler.finish ∧
        resolve labels spec.target = .ok handler.target := by
  obtain ⟨start, ranStart, ran⟩ := bind_eq_ok.mp ran
  obtain ⟨finish, ranFinish, ran⟩ := bind_eq_ok.mp ran
  obtain ⟨target, ranTarget, joined⟩ := bind_eq_ok.mp ran
  cases joined
  exact ⟨ranStart, ranFinish, ranTarget⟩

/-- The handler at an index is the one of its line. -/
theorem resolveHandlers_at {specs : List HandlerSpec} {handlers : List ExceptionHandler}
    {index : Nat} {spec : HandlerSpec} {handler : ExceptionHandler}
    (ran : resolveHandlers labels specs = .ok (some handlers)) (line : specs[index]? = some spec)
    (built : handlers[index]? = some handler) : resolveHandler labels spec = .ok handler := by
  unfold resolveHandlers at ran
  split at ran
  case isTrue => cases Outcome.ok.inj ran
  case isFalse =>
    obtain ⟨results, each, same⟩ := map_eq_ok.mp ran
    cases same
    obtain ⟨spec', line', resolves⟩ := mapM_getElem? (mapM_eq_ok.mp each) built
    obtain rfl := Option.some.inj (line.symm.trans line')
    exact resolves

/-- What the two passes before the last one leave, and what the last one makes of it. -/
structure Passes (format : BytecodeFormat) (strings : StringLookup) (lines : List Line)
    (labels : Labels) (sized : List Sized) (body : List Instruction)
    (handlers : Option (List ExceptionHandler)) : Prop where
  kept : LabelsOf format lines labels
  rows : List.Forall₂ (SizedAs format) (firstPass none lines).rawLines sized
  offsets : ∀ before after mnemonic ops, lines = before ++ .instruction mnemonic ops :: after →
    ∃ here, sized[(before.filterMap instructionOf).length]? = some here ∧
      here.offset = offsetBehind format before
  body : List.Forall₂ (fun here insn => buildInstruction labels strings here = .ok insn) sized body
  handlers : resolveHandlers labels (lines.filterMap handlerOf) = .ok handlers

/-- A text that is accepted went through the passes. -/
theorem passes_of_parse {text : Text} {body : List Instruction}
    {handlers : Option (List ExceptionHandler)}
    (parsed : parseHasmFunctionFull text format strings = .ok (body, handlers)) :
    ∃ lines labels sized, readLines format text = .ok lines ∧
      Passes format strings lines labels sized body handlers := by
  obtain ⟨lines, read, parsed⟩ := bind_eq_ok.mp parsed
  obtain ⟨⟨sized, found, stop⟩, ran, parsed⟩ := bind_eq_ok.mp parsed
  obtain ⟨handlers', resolved, parsed⟩ := bind_eq_ok.mp parsed
  obtain ⟨body', built, joined⟩ := bind_eq_ok.mp parsed
  obtain ⟨rfl, rfl⟩ := Prod.mk.inj (Outcome.ok.inj joined)
  rw [handlerSpecs_eq] at resolved
  refine ⟨lines, _, sized, read, labelsOf_passes ran, secondPass_sized (by decide) ran, ?_,
    mapM_eq_ok.mp built, resolved⟩
  rintro before after mnemonic ops rfl
  obtain ⟨here, stands, place⟩ := secondPass_offset (by decide) ran
  rw [zero_add] at place
  exact ⟨here, stands, place⟩

namespace Passes

variable {format : BytecodeFormat} {strings : StringLookup} {lines : List Line} {labels : Labels}
  {sized : List Sized} {body : List Instruction} {handlers : Option (List ExceptionHandler)}

/-- The instruction at an index is built from its line. -/
theorem built_at (passes : Passes format strings lines labels sized body handlers) {index : Nat}
    {insn : Instruction} {mnemonic : Text} {ops : List Text} (built : body[index]? = some insn)
    (line : (lines.filterMap instructionOf)[index]? = some (mnemonic, ops)) :
    ∃ here raw, SizedAs format raw here ∧ raw.mnemonic = mnemonic ∧ here.ops = ops ∧
      buildInstruction labels strings here = .ok insn := by
  obtain ⟨here, at_index, ran⟩ := mapM_getElem? passes.body built
  rw [← rawLines_eq none, List.getElem?_map, Option.map_eq_some_iff] at line
  obtain ⟨raw, row, same⟩ := line
  cases same
  obtain ⟨inside, rfl⟩ := List.getElem?_eq_some_iff.mp at_index
  obtain ⟨inside', rfl⟩ := List.getElem?_eq_some_iff.mp row
  have typed := passes.rows.get inside' inside
  exact ⟨_, _, typed, rfl, typed.ops, ran⟩

/-- Every name of the text that stands for an offset is resolved to a label that is kept, or
read as the offset in it. -/
theorem resolvedTo (passes : Passes format strings lines labels sized body handlers)
    {name : Text} {resolved : Nat} (uses : Uses lines body handlers name resolved)
    (letter : ∃ digits, name = 'L' :: digits) : ResolvedTo format lines name resolved := by
  cases uses with
  | address line built written read leads =>
    obtain ⟨here, raw, typed, _, rfl, ran⟩ := passes.built_at built line
    obtain ⟨operands, parsed, joined⟩ := bind_eq_ok.mp ran
    cases joined
    obtain ⟨_, token⟩ := parseOperands_at parsed written read
    obtain ⟨target, found, distance⟩ := parseOperandToken_address token leads
    obtain ⟨result, small⟩ := passes.kept.addressTarget found
    have reached := displaced_eq here.offset small
    rw [← distance] at reached
    rw [← reached] at result
    exact result
  | start line built =>
    obtain ⟨digits, same⟩ := letter
    rw [same]
    exact passes.kept.resolve
      (same ▸ (resolveHandler_eq_ok (resolveHandlers_at passes.handlers line built)).1)
  | finish line built =>
    obtain ⟨digits, same⟩ := letter
    rw [same]
    exact passes.kept.resolve
      (same ▸ (resolveHandler_eq_ok (resolveHandlers_at passes.handlers line built)).2.1)
  | target line built =>
    obtain ⟨digits, same⟩ := letter
    rw [same]
    exact passes.kept.resolve
      (same ▸ (resolveHandler_eq_ok (resolveHandlers_at passes.handlers line built)).2.2)

end Passes

/-- Every name that stands for an offset and that a line of the text defines is resolved to
the offset of the instruction behind each such line exactly when the label binds. -/
theorem parseHasmFunctionFull_binds_iff {text : Text} {format : BytecodeFormat}
    {strings : StringLookup} {body : List Instruction} {handlers : Option (List ExceptionHandler)}
    (parsed : parseHasmFunctionFull text format strings = .ok (body, handlers)) :
    ∃ lines, readLines format text = .ok lines ∧
      (∀ before after mnemonic ops, lines = before ++ .instruction mnemonic ops :: after →
        ∃ insn, body[(before.filterMap instructionOf).length]? = some insn ∧
          insn.offset = offsetBehind format before) ∧
        ∀ name resolved, Uses lines body handlers name resolved →
          (∃ place, Defines format lines name place) →
            ((∀ place, Defines format lines name place → resolved = place) ↔
              Binds format lines name) := by
  obtain ⟨lines, labels, sized, read, passes⟩ := passes_of_parse parsed
  refine ⟨lines, read, ?_, ?_⟩
  · intro before after mnemonic ops parts
    obtain ⟨here, stands, place⟩ := passes.offsets before after mnemonic ops parts
    obtain ⟨inside, rfl⟩ := List.getElem?_eq_some_iff.mp stands
    have inside' := passes.body.length_eq ▸ inside
    obtain ⟨operands, _, joined⟩ := bind_eq_ok.mp (passes.body.get inside inside')
    have same := congrArg Instruction.offset (Outcome.ok.inj joined)
    exact ⟨_, List.getElem?_eq_getElem inside', same.symm.trans place⟩
  · intro name resolved uses somewhere
    obtain ⟨place, defined⟩ := somewhere
    exact (passes.resolvedTo uses (defined.letter read)).exact_iff ⟨place, defined⟩

/-- A jump to the first of two labels in front of one instruction. -/
def twoLabels : Text := "LoadConstUndefined r0\nL7:\nL9:\nJmp L7\n".toList

/-- What it is parsed to: the jump leads to the number in the name. -/
def twoLabelsBody : List Instruction :=
  [⟨0, 118, [⟨.reg8, .u8 0⟩], 2⟩, ⟨2, 142, [⟨.addr8, .i8 5⟩], 2⟩]

/-- The lines of the text. -/
def twoLabelsLines : List Line :=
  [.instruction "LoadConstUndefined".toList ["r0".toList], .label "L7".toList,
    .label "L9".toList, .instruction "Jmp".toList ["L7".toList]]

theorem twoLabels_parsed :
    parseHasmFunctionFull twoLabels loopFormat (fun _ => none) = .ok (twoLabelsBody, none) := by
  decide +kernel

theorem twoLabels_binds_iff :
    ∃ lines, readLines loopFormat twoLabels = .ok lines ∧
      (∀ before after mnemonic ops, lines = before ++ .instruction mnemonic ops :: after →
        ∃ insn, twoLabelsBody[(before.filterMap instructionOf).length]? = some insn ∧
          insn.offset = offsetBehind loopFormat before) ∧
        ∀ name resolved, Uses lines twoLabelsBody none name resolved →
          (∃ place, Defines loopFormat lines name place) →
            ((∀ place, Defines loopFormat lines name place → resolved = place) ↔
              Binds loopFormat lines name) :=
  parseHasmFunctionFull_binds_iff twoLabels_parsed

/-- The first label stands in front of the instruction at 2, and the jump to it leads to 7. -/
theorem twoLabels_lost :
    parseHasmFunctionFull twoLabels loopFormat (fun _ => none) = .ok (twoLabelsBody, none) ∧
      readLines loopFormat twoLabels = .ok twoLabelsLines ∧
        Uses twoLabelsLines twoLabelsBody none "L7".toList 7 ∧
          Defines loopFormat twoLabelsLines "L7".toList 2 := by
  refine ⟨by decide +kernel, by decide +kernel, ?_, ?_⟩
  · have line : (twoLabelsLines.filterMap instructionOf)[1]? = some ("Jmp".toList, ["L7".toList]) :=
      rfl
    have built : twoLabelsBody[1]? = some ⟨2, 142, [⟨.addr8, .i8 5⟩], 2⟩ := rfl
    have written : ["L7".toList][0]? = some "L7".toList := rfl
    have read : [Operand.mk .addr8 (.i8 5)][0]? = some ⟨.addr8, .i8 5⟩ := rfl
    have leads : displacement? ⟨.addr8, .i8 5⟩ = some 5 := rfl
    exact .address line built written read leads
  · exact ⟨[.instruction "LoadConstUndefined".toList ["r0".toList]], _, rfl, by decide +kernel⟩

end HermesDecomp.Hasm
