import HermesDecomp.File.Regex

/-!
# What a checked regular expression holds to

The instructions of a decoded regular expression tile its stream: each one stands where the
one before it ends. The sizes that say so are those of the check, so what the check takes for
the offsets of instructions are the places the decoder read them at.
-/

namespace HermesDecomp.Regex

open Action List

/-- A read goes on by the size of its value, less what was read of it before. -/
def Consumes {α : Type} (action : Reader α) (used : Nat) (size : α → Nat) : Prop :=
  ∀ reader final value, action reader = (.ok value, final) →
    final.data = reader.data ∧ final.pos + used = reader.pos + size value

section Consumes

variable {α β : Type} {used : Nat}

theorem consumes_pure {value : α} {size : α → Nat} (all : size value = used) :
    Consumes (pure value) used size := by
  intro reader final result ran
  obtain ⟨same, rfl⟩ := Prod.mk.inj ran
  cases same
  exact ⟨rfl, by rw [all]⟩

theorem consumes_fail (error : Error) (size : α → Nat) :
    Consumes (Action.fail error) used size := by
  intro reader final result ran
  exact absurd (congrArg Prod.fst ran) (by simp [Action.fail])

variable {action : Reader α}

/-- A part that goes on by as much as its value says, and the rest. -/
theorem consumes_bind {next : α → Reader β} {part : α → Nat} {size : β → Nat}
    (first : Consumes action 0 part)
    (rest : ∀ value, Consumes (next value) (used + part value) size) :
    Consumes (action >>= next) used size := by
  intro reader final result ran
  obtain ⟨value, middle, before, after⟩ := bind_eq_ok.mp ran
  obtain ⟨data, pos⟩ := first _ _ _ before
  obtain ⟨data', pos'⟩ := rest value _ _ _ after
  refine ⟨data'.trans data, ?_⟩
  rw [add_zero] at pos
  omega

theorem consumes_map {wrap : α → β} {part : α → Nat} {size : β → Nat}
    (first : Consumes action 0 part) (all : ∀ value, size (wrap value) = used + part value) :
    Consumes (wrap <$> action) used size := by
  rw [map_eq_pure_bind]
  exact consumes_bind first fun value => consumes_pure (all value)

theorem consumes_take (count : Nat) : Consumes (take count) 0 fun _ => count := by
  intro reader final result ran
  unfold take at ran
  split at ran
  · obtain ⟨-, rfl⟩ := Prod.mk.inj ran
    exact ⟨rfl, rfl⟩
  · exact absurd (congrArg Prod.fst ran) (by simp)

theorem consumes_field (width : Nat) : Consumes (field width) 0 fun _ => width :=
  consumes_bind (consumes_take width) fun _ => consumes_pure (zero_add width).symm

theorem consumes_bool : Consumes bool 0 fun _ => 1 :=
  consumes_bind (consumes_field 1) fun _ => consumes_pure rfl

theorem consumes_range : Consumes range 0 fun _ => 8 :=
  consumes_bind (consumes_field 4) fun _ => consumes_bind (consumes_field 4) fun _ =>
    consumes_pure rfl

/-- Equal reads go on by their size times their number. -/
theorem consumes_repeatM {part : Nat} (one : Consumes action 0 fun _ => part) (count : Nat)
    : Consumes (repeatM action count) 0 fun values => part * values.length:= by
  induction count with
  | zero => exact consumes_pure (mul_zero part)
  | succ count ih =>
    intro reader final values ran
    obtain ⟨value, middle, rest, before, after, rfl⟩ := repeatM_succ_eq_ok.mp ran
    obtain ⟨data, pos⟩ := one _ _ _ before
    obtain ⟨data', pos'⟩ := ih _ _ _ after
    refine ⟨data'.trans data, ?_⟩
    dsimp only at pos pos' ⊢
    rw [length_cons, Nat.mul_succ]
    omega

theorem consumes_readBracket :
    Consumes readBracket 0 fun content => 5 + 8 * content.ranges.length :=
  consumes_bind (consumes_field 4) fun _ => consumes_bind (consumes_field 1) fun _ =>
    consumes_bind (consumes_repeatM consumes_range _) fun _ =>
      consumes_pure (Nat.add_right_cancel_iff.mpr (zero_add 5).symm)

theorem consumes_readAlternation : Consumes readAlternation 1 RegexInsn.size :=
  consumes_bind (consumes_field 4) fun _ => consumes_bind (consumes_field 1) fun _ =>
    consumes_bind (consumes_field 1) fun _ => consumes_pure rfl

theorem consumes_readLookaround : Consumes readLookaround 1 RegexInsn.size :=
  consumes_bind consumes_bool fun _ => consumes_bind consumes_bool fun _ =>
    consumes_bind (consumes_field 1) fun _ => consumes_bind (consumes_field 2) fun _ =>
      consumes_bind (consumes_field 2) fun _ => consumes_bind (consumes_field 4) fun _ =>
        consumes_pure rfl

theorem consumes_readBeginLoop : Consumes readBeginLoop 1 RegexInsn.size :=
  consumes_bind (consumes_field 4) fun _ => consumes_bind (consumes_field 4) fun _ =>
    consumes_bind (consumes_field 4) fun _ => consumes_bind (consumes_field 2) fun _ =>
      consumes_bind (consumes_field 2) fun _ => consumes_bind consumes_bool fun _ =>
        consumes_bind (consumes_field 1) fun _ => consumes_bind (consumes_field 4) fun _ =>
          consumes_pure rfl

theorem consumes_readBeginSimpleLoop : Consumes readBeginSimpleLoop 1 RegexInsn.size :=
  consumes_bind (consumes_field 1) fun _ => consumes_bind (consumes_field 4) fun _ =>
    consumes_pure rfl

theorem consumes_readWidth1Loop : Consumes readWidth1Loop 1 RegexInsn.size :=
  consumes_bind (consumes_field 4) fun _ => consumes_bind (consumes_field 4) fun _ =>
    consumes_bind (consumes_field 4) fun _ => consumes_bind consumes_bool fun _ =>
      consumes_bind (consumes_field 4) fun _ => consumes_pure rfl

/-- The fields of an instruction take the bytes its size says, but for the opcode. -/
theorem consumes_readFields (offset op : Nat) :
    Consumes (readFields offset op) 1 RegexInsn.size := by
  have text : ∀ wrap : List Nat → RegexInsn,
      (∀ values, (wrap values).size = 2 + values.length) →
        Consumes (u8 >>= fun count => wrap <$> chars count) 1 RegexInsn.size := by
    intro wrap sized
    refine consumes_bind (consumes_field 1) fun count => ?_
    refine consumes_map (consumes_repeatM (consumes_field 1) count) fun values => ?_
    rw [sized, one_mul]
  have brackets : ∀ wrap : Bracket → RegexInsn,
      (∀ content, (wrap content).size = 6 + 8 * content.ranges.length) →
        Consumes (wrap <$> readBracket) 1 RegexInsn.size := by
    intro wrap sized
    refine consumes_map consumes_readBracket fun content => ?_
    rw [sized, ← add_assoc]
  unfold readFields
  split
  all_goals first
    | exact consumes_pure rfl
    | exact consumes_map (consumes_field 1) fun _ => rfl
    | exact consumes_map (consumes_field 2) fun _ => rfl
    | exact consumes_map (consumes_field 4) fun _ => rfl
    | exact consumes_map consumes_bool fun _ => rfl
    | exact text _ fun _ => rfl
    | exact brackets _ fun _ => rfl
    | exact consumes_readAlternation
    | exact consumes_readLookaround
    | exact consumes_readBeginLoop
    | exact consumes_readBeginSimpleLoop
    | exact consumes_readWidth1Loop
    | exact consumes_fail _ _

end Consumes

/-- Instructions stand one behind the other from a position of a stream to its end. -/
def Tiles (stream : Bytes) : Nat → List (Nat × RegexInsn) → Prop
  | position, [] => position = stream.length
  | position, (offset, insn) :: rest =>
      offset = position % 2 ^ 32 ∧
        (∃ reader final : ByteReader, reader.data = stream ∧ reader.pos = position ∧
          readInsn reader = (.ok (offset, insn), final)) ∧
        Tiles stream (position + insn.size) rest

variable {reader final : ByteReader} {insn : RegexInsn}

/-- An instruction is read where the reader is and takes as many bytes as its size. -/
theorem readInsn_eq_ok {offset : Nat} (ran : readInsn reader = (.ok (offset, insn), final)) :
    offset = reader.pos % 2 ^ 32 ∧ final.data = reader.data ∧
      final.pos = reader.pos + insn.size := by
  obtain ⟨position, middle, here, rest⟩ := bind_eq_ok.mp ran
  obtain ⟨same, rfl⟩ := Prod.mk.inj here
  cases same
  obtain ⟨op, between, opcode, rest⟩ := bind_eq_ok.mp rest
  obtain ⟨fields, last, read, done⟩ := bind_eq_ok.mp rest
  obtain ⟨same, rfl⟩ := Prod.mk.inj done
  obtain ⟨rfl, rfl⟩ := Prod.mk.inj (Outcome.ok.inj same)
  obtain ⟨data, pos⟩ := consumes_field 1 _ _ _ opcode
  obtain ⟨data', pos'⟩ := consumes_readFields _ _ _ _ _ read
  refine ⟨rfl, data'.trans data, ?_⟩
  dsimp only at pos
  omega

variable {insns : List (Nat × RegexInsn)}

/-- At the end of the stream there are no instructions, before it there is one and the rest. -/
theorem readInsns_eq_ok {fuel : Nat} (ran : readInsns fuel reader = (.ok insns, final)) :
    (insns = [] ∧ reader.pos = reader.data.length) ∨
      ∃ less insn rest between, fuel = less + 1 ∧ insns = insn :: rest ∧
        readInsn reader = (.ok insn, between) ∧ readInsns less between = (.ok rest, final) := by
  unfold readInsns at ran
  obtain ⟨left, middle, here, rest⟩ := bind_eq_ok.mp ran
  obtain ⟨same, rfl⟩ := Prod.mk.inj here
  cases same
  split at rest
  next done =>
    obtain ⟨same, rfl⟩ := Prod.mk.inj rest
    exact .inl ⟨(Outcome.ok.inj same).symm, le_antisymm reader.inside (Nat.le_of_sub_eq_zero done)⟩
  next more =>
    split at rest
    · exact absurd (congrArg Prod.fst rest) (by simp [Action.lift])
    · obtain ⟨insn, between, first, rest⟩ := bind_eq_ok.mp rest
      obtain ⟨others, last, later, done⟩ := bind_eq_ok.mp rest
      obtain ⟨same, rfl⟩ := Prod.mk.inj done
      exact .inr ⟨_, insn, others, between, rfl, (Outcome.ok.inj same).symm, first, later⟩

/-- The instructions that are read from a position tile the rest of the stream. -/
theorem readInsns_tiles {fuel : Nat} (ran : readInsns fuel reader = (.ok insns, final))
    : Tiles reader.data reader.pos insns:= by
  induction insns generalizing fuel reader with
  | nil =>
    rcases readInsns_eq_ok ran with ⟨-, done⟩ | ⟨_, _, _, _, -, wrong, -⟩
    · exact done
    · exact absurd wrong.symm (cons_ne_nil _ _)
  | cons head insns ih =>
    rcases readInsns_eq_ok ran with ⟨wrong, -⟩ | ⟨less, insn, rest, between, -, same, first, later⟩
    · exact absurd wrong (cons_ne_nil _ _)
    · cases same
      obtain ⟨place, data, pos⟩ := readInsn_eq_ok first
      have tiles := ih later
      rw [data, pos] at tiles
      exact ⟨place, ⟨reader, between, rfl, rfl, first⟩, tiles⟩

/-- The last instruction of a tiled stream ends where the stream does. -/
theorem Tiles.last {stream : Bytes} {position offset : Nat} (tiles : Tiles stream position insns)
    (last : insns.getLast? = some (offset, insn)) :
    ∃ start, offset = start % 2 ^ 32 ∧ start + insn.size = stream.length := by
  induction insns generalizing position with
  | nil => exact nomatch last
  | cons head rest ih =>
    obtain ⟨place, -, behind⟩ := tiles
    cases rest with
    | nil =>
      rw [List.getLast?_singleton] at last
      cases last
      exact ⟨position, place, behind⟩
    | cons next rest =>
      rw [List.getLast?_cons_cons] at last
      exact ih behind last

/-- The instructions of a decoded regular expression tile the bytes behind its header. -/
theorem decodeRegex_tiles {bytes : Bytes} {program : RegexProgram}
    (decoded : decodeRegex bytes = .ok program) :
    Tiles (bytes.drop regexHeaderLen) 0 program.insns := by
  unfold decodeRegex at decoded
  split at decoded
  · cases decoded
  · obtain ⟨insns, read, done⟩ := Outcome.bind_eq_ok.mp decoded
    cases done
    exact readInsns_tiles (Prod.ext read rfl)

variable {done : PUnit}

theorem checkTargets_eq_ok {starts : List Nat} {offset : Nat} :
    RegexProgram.checkTargets starts offset insn = .ok done ↔
      ∀ target ∈ insn.targets, target ∈ starts := by
  unfold RegexProgram.checkTargets
  cases found : insn.targets.find? fun target => !starts.contains target with
  | none => simpa using List.find?_eq_none.mp found
  | some target =>
    have missing := List.find?_some found
    have named := mem_of_find?_eq_some found
    refine iff_of_false (by simp [RegexProgram.bad]) fun all => ?_
    simp [all target named] at missing

theorem checkMexps_eq_ok {marked offset : Nat} :
    RegexProgram.checkMexps marked offset insn = .ok done ↔
      ∀ group ∈ insn.mexps, group < marked := by
  unfold RegexProgram.checkMexps
  cases found : insn.mexps.find? fun group => marked ≤ group with
  | none => simpa using List.find?_eq_none.mp found
  | some group =>
    have past : marked ≤ group := by simpa using List.find?_some found
    refine iff_of_false (by simp [RegexProgram.bad]) fun all => ?_
    exact Nat.not_lt_of_le past (all group (mem_of_find?_eq_some found))

theorem checkLoops_eq_ok {loops offset : Nat} :
    RegexProgram.checkLoops loops offset insn = .ok done ↔
      ∀ loopId ∈ insn.loops, loopId < loops := by
  unfold RegexProgram.checkLoops
  cases found : insn.loops.find? fun loopId => loops ≤ loopId with
  | none => simpa using List.find?_eq_none.mp found
  | some loopId =>
    have past : loops ≤ loopId := by simpa using List.find?_some found
    refine iff_of_false (by simp [RegexProgram.bad]) fun all => ?_
    exact Nat.not_lt_of_le past (all loopId (mem_of_find?_eq_some found))

/-- What an instruction that passes the check holds to. -/
def Holds (header : RegexHeader) (starts : List Nat) (insn : RegexInsn) : Prop :=
  (∀ target ∈ insn.targets, target ∈ starts) ∧ (∀ group ∈ insn.mexps, group < header.markedCount) ∧
    ∀ loopId ∈ insn.loops, loopId < header.loopCount

theorem checkInsns_eq_ok {header : RegexHeader} {starts : List Nat}
    : RegexProgram.checkInsns header starts insns = .ok done ↔
      ∀ insn ∈ insns, Holds header starts insn.2 := by
  induction insns with
  | nil => simp [RegexProgram.checkInsns]
  | cons head rest ih =>
    rw [RegexProgram.checkInsns, Outcome.bind_eq_ok, forall_mem_cons, ← ih]
    simp only [Outcome.bind_eq_ok, checkTargets_eq_ok, checkMexps_eq_ok, checkLoops_eq_ok, Holds]
    constructor
    · rintro ⟨_, targets, _, mexps, _, loops, others⟩
      exact ⟨⟨targets, mexps, loops⟩, others⟩
    · rintro ⟨⟨targets, mexps, loops⟩, others⟩
      exact ⟨⟨⟩, targets, ⟨⟩, mexps, ⟨⟩, loops, others⟩

/-- What the check takes for the end is the end of the stream. -/
theorem finish_eq_ok {stream : Bytes} {program : RegexProgram} {finish : Nat}
    (tiles : Tiles stream 0 program.insns) (ran : program.finish = .ok finish) :
    finish = stream.length % 2 ^ 32 := by
  unfold RegexProgram.finish at ran
  split at ran
  next none =>
    rw [List.getLast?_eq_none_iff.mp none] at tiles
    cases ran
    rw [← show 0 = stream.length from tiles, Nat.zero_mod]
  next offset insn last =>
    obtain ⟨width, sized, summed⟩ := Outcome.bind_eq_ok.mp ran
    obtain ⟨-, rfl⟩ := Outcome.checked_eq_ok.mp sized
    obtain ⟨small, rfl⟩ := Outcome.checked_eq_ok.mp summed
    obtain ⟨start, rfl, ends⟩ := tiles.last last
    omega

/-- A regular expression that decodes and passes the check is within its header: its
instructions tile the stream, every jump leads to the offset of an instruction or to the end of
the stream, every group that it marks or refers back to is one of the header's, and so is every
loop it counts. -/
theorem decodeRegex_checked {bytes : Bytes} {program : RegexProgram} {done : PUnit}
    (decoded : decodeRegex bytes = .ok program) (checked : program.check = .ok done) :
    Tiles (bytes.drop regexHeaderLen) 0 program.insns ∧
      ∀ offset insn, (offset, insn) ∈ program.insns →
        (∀ target ∈ insn.targets, (∃ next, (target, next) ∈ program.insns) ∨
          target = (bytes.drop regexHeaderLen).length % 2 ^ 32) ∧
        (∀ loopId ∈ insn.loops, loopId < program.header.loopCount) ∧
          ∀ group ∈ insn.mexps, group < program.header.markedCount := by
  have tiles := decodeRegex_tiles decoded
  refine ⟨tiles, ?_⟩
  obtain ⟨finish, ended, rest⟩ := Outcome.bind_eq_ok.mp checked
  obtain ⟨_, passed, -⟩ := Outcome.bind_eq_ok.mp rest
  obtain rfl := finish_eq_ok tiles ended
  intro offset insn inside
  obtain ⟨targets, mexps, loops⟩ := checkInsns_eq_ok.mp passed (offset, insn) inside
  refine ⟨?_, loops, mexps⟩
  intro target named
  rcases mem_append.mp (targets target named) with start | finish
  · obtain ⟨⟨place, next⟩, member, rfl⟩ := mem_map.mp start
    exact .inl ⟨next, member⟩
  · exact .inr (mem_singleton.mp finish)

/-- A regular expression for one group in a loop: it tiles its stream and its one jump leads to
the goal. -/
theorem decodeRegex_checked_group : ∃ program,
    decodeRegex [1, 0, 1, 0, 0, 0, 19, 0, 0, 28, 0, 0, 0, 0, 1, 0, 0, 0, 255, 255, 255, 255, 1, 22,
      0, 0, 0, 3, 20, 0, 0, 0] = .ok program ∧ program.check = .ok ⟨⟩ ∧
    (∀ offset insn, (offset, insn) ∈ program.insns →
      ∀ target ∈ insn.targets, (∃ next, (target, next) ∈ program.insns) ∨ target = 26 % 2 ^ 32) := by
  have ran : ∃ program, decodeRegex [1, 0, 1, 0, 0, 0, 19, 0, 0, 28, 0, 0, 0, 0, 1, 0, 0, 0, 255,
      255, 255, 255, 1, 22, 0, 0, 0, 3, 20, 0, 0, 0] = .ok program ∧ program.check = .ok ⟨⟩ := by
    decide +kernel
  obtain ⟨program, decoded, checked⟩ := ran
  refine ⟨program, decoded, checked, ?_⟩
  intro offset insn inside
  exact ((decodeRegex_checked decoded checked).2 offset insn inside).1

/-- What a program within its header would be: jumps lead to instructions, and every group that
an instruction can touch is one of the header's, those of a range that it resets too. -/
def WithinHeader (program : RegexProgram) : Prop :=
  ∀ offset insn, (offset, insn) ∈ program.insns →
    (∀ target ∈ insn.targets, ∃ next, (target, next) ∈ program.insns) ∧
    (∀ loopId ∈ insn.loops, loopId < program.header.loopCount) ∧
    (∀ group ∈ insn.mexps, group < program.header.markedCount) ∧
      ∀ group, insn.mexpRange.1 ≤ group → group < insn.mexpRange.2 →
        group < program.header.markedCount

/-- A lookaround that goes on at the end of the stream passes the check, as does one that resets
groups which the header does not have. -/
theorem decodeRegex_lookaround : ∃ program,
    decodeRegex [0, 0, 0, 0, 0, 0, 23, 0, 1, 0, 0, 0, 9, 0, 13, 0, 0, 0, 0] = .ok program ∧
      program.check = .ok ⟨⟩ ∧ ¬ WithinHeader program := by
  have ran : ∃ program,
      decodeRegex [0, 0, 0, 0, 0, 0, 23, 0, 1, 0, 0, 0, 9, 0, 13, 0, 0, 0, 0] = .ok program ∧
        (program.check = .ok ⟨⟩ ∧ program = ⟨⟨0, 0, 0, 0⟩,
          [(0, .lookaround false true 0 0 9 13), (12, .goal)]⟩) := by
    decide +kernel
  obtain ⟨program, decoded, checked, rfl⟩ := ran
  refine ⟨_, decoded, checked, fun within => ?_⟩
  obtain ⟨next, found⟩ := (within 0 _ mem_cons_self).1 13 (mem_singleton_self 13)
  simp at found

/-- Instructions are recorded from a position on, each behind the width of the one before it, up to
an end. -/
def Spans (finish : Nat) : Nat → List (Nat × RegexInsn) → Prop
  | position, [] => position = finish
  | position, (offset, insn) :: rest =>
      offset = position ∧ ∃ width, insn.width = .ok width ∧ position + width < 2 ^ 32 ∧
        Spans finish (position + width) rest

section

variable {stream : Bytes} {position finish : Nat}

theorem Spans.finish_lt (spans : Spans finish position insns) (small : position < 2 ^ 32) :
    finish < 2 ^ 32 := by
  induction insns generalizing position with
  | nil => exact spans ▸ small
  | cons head rest ih =>
    obtain ⟨-, width, -, fits, behind⟩ := spans
    exact ih behind fits

theorem Tiles.position_le (tiles : Tiles stream position insns) : position ≤ stream.length := by
  induction insns generalizing position with
  | nil => exact le_of_eq tiles
  | cons head rest ih =>
    have behind := ih tiles.2.2
    omega

/-- Offsets in a stream shorter than 4 GiB are the places themselves. -/
theorem Tiles.spans (small : stream.length < 2 ^ 32) (tiles : Tiles stream position insns) :
    Spans stream.length position insns := by
  induction insns generalizing position with
  | nil => exact tiles
  | cons head rest ih =>
    obtain ⟨place, -, behind⟩ := tiles
    have inside := behind.position_le
    have fits : head.2.size < 2 ^ 32 := by omega
    exact ⟨place.trans (Nat.mod_eq_of_lt (by omega)), _, Outcome.checked_eq_ok.mpr ⟨fits, rfl⟩,
      inside.trans_lt small, ih behind⟩

end

/-- The offsets and widths of a decoded regular expression cover its stream exactly when the
stream is shorter than 4 GiB. -/
theorem decodeRegex_spans_iff {bytes : Bytes} {program : RegexProgram}
    (decoded : decodeRegex bytes = .ok program) :
    Spans (bytes.drop regexHeaderLen).length 0 program.insns ↔
      (bytes.drop regexHeaderLen).length < 2 ^ 32 :=
  ⟨fun spans => spans.finish_lt (by decide), fun small => (decodeRegex_tiles decoded).spans small⟩

/-- A group, a character, its end, one more character and the goal span twelve bytes. -/
theorem decodeRegex_spans_group : ∃ program,
    decodeRegex [1, 0, 0, 0, 0, 0, 19, 0, 0, 7, 97, 20, 0, 0, 8, 98, 0, 0] = .ok program ∧
      Spans 12 0 program.insns := by
  obtain ⟨program, decoded, -⟩ : ∃ program,
      decodeRegex [1, 0, 0, 0, 0, 0, 19, 0, 0, 7, 97, 20, 0, 0, 8, 98, 0, 0] = .ok program ∧
        program.insns.length = 5 := by
    decide +kernel
  exact ⟨program, decoded, (decodeRegex_spans_iff decoded).mpr (by decide)⟩

/-- Goals are read one by one up to the end of the stream. -/
theorem readInsns_goals {count : Nat} (fuel : Nat) : ∀ reader : ByteReader,
    reader.data = List.replicate count 0 → count ≤ reader.pos + fuel →
      ∃ insns final, readInsns fuel reader = (.ok insns, final) := by
  induction fuel with
  | zero =>
    intro reader goals enough
    have done : reader.remaining = 0 := by
      rw [ByteReader.remaining, goals, length_replicate]
      omega
    refine ⟨[], reader, ?_⟩
    simp [readInsns, Reader.remaining, bind_apply, done]
  | succ fuel ih =>
    intro reader goals enough
    by_cases done : reader.remaining = 0
    · refine ⟨[], reader, ?_⟩
      simp [readInsns, Reader.remaining, bind_apply, done]
    · have inside : reader.pos + 1 ≤ reader.data.length := by
        rw [ByteReader.remaining] at done
        omega
      have enough' : count ≤ reader.pos + 1 + fuel := by omega
      obtain ⟨insns, final, rest⟩ := ih { reader with pos := reader.pos + 1, inside } goals enough'
      have goal : (reader.data.drop reader.pos).take 1 = [0] := by
        rw [goals, drop_replicate, take_replicate, min_eq_left]
        · rfl
        · rw [goals, length_replicate] at inside
          omega
      have read : readInsn reader = (.ok (reader.pos % 2 ^ 32, .goal),
          { reader with pos := reader.pos + 1, inside }) := by
        simp only [readInsn, Reader.position, u8, field, take, bind_apply, dif_pos inside, goal,
          pure_apply]
        rfl
      refine ⟨(reader.pos % 2 ^ 32, .goal) :: insns, final, ?_⟩
      rw [readInsns, bind_apply, Reader.remaining]
      dsimp only
      rw [if_neg done, bind_apply, read]
      dsimp only
      rw [bind_apply, rest]
      rfl

theorem decodeRegex_goals (count : Nat) : ∃ program,
    decodeRegex (List.replicate (regexHeaderLen + count) 0) = .ok program := by
  have goals : (List.replicate (regexHeaderLen + count) (0 : UInt8)).drop regexHeaderLen =
      List.replicate count 0 := by
    rw [drop_replicate, Nat.add_sub_cancel_left]
  obtain ⟨insns, final, ran⟩ := @readInsns_goals count count (.new (List.replicate count 0)) rfl
    (Nat.le_add_left _ _)
  have large : ¬ (List.replicate (regexHeaderLen + count) (0 : UInt8)).length < regexHeaderLen := by
    rw [length_replicate]
    exact Nat.not_lt.mpr (Nat.le_add_right _ _)
  unfold decodeRegex
  rw [if_neg large, goals]
  dsimp only
  rw [length_replicate, ran]
  exact ⟨_, rfl⟩

/-- A stream of 4 GiB and a byte is accepted, and its last offset is nothing again. -/
theorem decodeRegex_spans_beyond : ∃ program,
    decodeRegex (List.replicate (regexHeaderLen + (2 ^ 32 + 1)) 0) = .ok program ∧
      ¬ Spans (2 ^ 32 + 1) 0 program.insns := by
  obtain ⟨program, decoded⟩ := decodeRegex_goals (2 ^ 32 + 1)
  refine ⟨program, decoded, fun spans => ?_⟩
  exact absurd (spans.finish_lt (by decide)) (by decide)

end HermesDecomp.Regex
