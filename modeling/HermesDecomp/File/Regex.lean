import HermesDecomp.Io

/-!
# Regular expression bytecode

A regular expression is a header of six bytes and a stream of packed instructions, one opcode
byte and then its fields. Jump targets are offsets into the stream. Decoding is strict: an
unknown opcode, an instruction that runs past the end and bytes left over are errors. A check
holds a decoded program to its header.
-/

namespace HermesDecomp

/-- The header of a regular expression. -/
structure RegexHeader where
  markedCount : Nat
  loopCount : Nat
  syntaxFlags : Nat
  constraints : Nat
deriving DecidableEq

/-- Size of that header. -/
def regexHeaderLen : Nat := 6

/-- A bracket: its inclusive ranges and its character classes. -/
structure Bracket where
  negate : Bool
  positiveClasses : Nat
  negativeClasses : Nat
  ranges : List (Nat × Nat)
deriving DecidableEq

/-- An instruction. Jump targets are offsets into the stream. -/
inductive RegexInsn where
  | goal
  | leftAnchor
  | rightAnchor
  | matchAny
  | u16MatchAny
  | matchAnyButNewline
  | u16MatchAnyButNewline
  | matchChar8 (char : Nat)
  | matchChar16 (char : Nat)
  | u16MatchChar32 (char : Nat)
  | matchNChar8 (chars : List Nat)
  | matchNCharICase8 (chars : List Nat)
  | matchCharICase8 (char : Nat)
  | matchCharICase16 (char : Nat)
  | u16MatchCharICase32 (char : Nat)
  | alternation (secondary primaryConstraints secondaryConstraints : Nat)
  | jump32 (target : Nat)
  | bracket (content : Bracket)
  | u16Bracket (content : Bracket)
  | beginMarkedSubexpression (group : Nat)
  | endMarkedSubexpression (group : Nat)
  | backRef (group : Nat)
  | wordBoundary (invert : Bool)
  | lookaround (invert forwards : Bool) (constraints mexpBegin mexpEnd continuation : Nat)
  | beginLoop (loopId min max mexpBegin mexpEnd : Nat) (greedy : Bool) (constraints notTaken : Nat)
  | endLoop (target : Nat)
  | beginSimpleLoop (constraints notTaken : Nat)
  | endSimpleLoop (target : Nat)
  | width1Loop (loopId min max : Nat) (greedy : Bool) (notTaken : Nat)
deriving DecidableEq

/-- A decoded regular expression: its header and its instructions with their offsets. -/
structure RegexProgram where
  header : RegexHeader
  insns : List (Nat × RegexInsn)
deriving DecidableEq

namespace Regex

/-- The next bytes of a stream. -/
def take (count : Nat) : Reader Bytes := fun reader =>
  if inside : reader.pos + count ≤ reader.data.length then
    (.ok ((reader.data.drop reader.pos).take count),
      { reader with pos := reader.pos + count, inside })
  else
    let pos := reader.pos
    (.err (.parse s!"regex: instruction runs past the end at {pos}"), reader)

/-- A little-endian field. -/
def field (width : Nat) : Reader Nat := do
  let bytes ← take width
  pure (Bytes.leNat bytes)

def u8 : Reader Nat := field 1

def u16 : Reader Nat := field 2

def u32 : Reader Nat := field 4

def bool : Reader Bool := do
  let byte ← u8
  pure (byte != 0)

def chars (count : Nat) : Reader (List Nat) := Action.repeatM u8 count

/-- The two ends of a range. -/
def range : Reader (Nat × Nat) := do
  let first ← u32
  let last ← u32
  pure (first, last)

/-- The fields of a bracket. -/
def readBracket : Reader Bracket := do
  let count ← u32
  let bits ← u8
  let ranges ← Action.repeatM range count
  pure { negate := bits &&& 1 != 0, positiveClasses := (bits >>> 1) &&& 7,
         negativeClasses := (bits >>> 4) &&& 7, ranges }

/-- The fields of a lookaround. -/
def readLookaround : Reader RegexInsn := do
  let invert ← bool
  let forwards ← bool
  let constraints ← u8
  let mexpBegin ← u16
  let mexpEnd ← u16
  let continuation ← u32
  pure (.lookaround invert forwards constraints mexpBegin mexpEnd continuation)

/-- The fields of a loop. -/
def readBeginLoop : Reader RegexInsn := do
  let loopId ← u32
  let min ← u32
  let max ← u32
  let mexpBegin ← u16
  let mexpEnd ← u16
  let greedy ← bool
  let constraints ← u8
  let notTaken ← u32
  pure (.beginLoop loopId min max mexpBegin mexpEnd greedy constraints notTaken)

/-- The fields of a loop over single characters. -/
def readWidth1Loop : Reader RegexInsn := do
  let loopId ← u32
  let min ← u32
  let max ← u32
  let greedy ← bool
  let notTaken ← u32
  pure (.width1Loop loopId min max greedy notTaken)

/-- The fields of an alternation. -/
def readAlternation : Reader RegexInsn := do
  let secondary ← u32
  let primaryConstraints ← u8
  let secondaryConstraints ← u8
  pure (.alternation secondary primaryConstraints secondaryConstraints)

/-- The fields of a loop without a counter. -/
def readBeginSimpleLoop : Reader RegexInsn := do
  let constraints ← u8
  let notTaken ← u32
  pure (.beginSimpleLoop constraints notTaken)

/-- The fields of an opcode. -/
def readFields (offset : Nat) : Nat → Reader RegexInsn
  | 0 => pure .goal
  | 1 => pure .leftAnchor
  | 2 => pure .rightAnchor
  | 3 => pure .matchAny
  | 4 => pure .u16MatchAny
  | 5 => pure .matchAnyButNewline
  | 6 => pure .u16MatchAnyButNewline
  | 7 => .matchChar8 <$> u8
  | 8 => .matchChar16 <$> u16
  | 9 => .u16MatchChar32 <$> u32
  | 10 => do
      let count ← u8
      .matchNChar8 <$> chars count
  | 11 => do
      let count ← u8
      .matchNCharICase8 <$> chars count
  | 12 => .matchCharICase8 <$> u8
  | 13 => .matchCharICase16 <$> u16
  | 14 => .u16MatchCharICase32 <$> u32
  | 15 => readAlternation
  | 16 => .jump32 <$> u32
  | 17 => .bracket <$> readBracket
  | 18 => .u16Bracket <$> readBracket
  | 19 => .beginMarkedSubexpression <$> u16
  | 20 => .endMarkedSubexpression <$> u16
  | 21 => .backRef <$> u16
  | 22 => .wordBoundary <$> bool
  | 23 => readLookaround
  | 24 => readBeginLoop
  | 25 => .endLoop <$> u32
  | 26 => readBeginSimpleLoop
  | 27 => .endSimpleLoop <$> u32
  | 28 => readWidth1Loop
  | other => Action.fail (.parse s!"regex: unknown opcode {other} at {offset}")

/-- One instruction with its offset. -/
def readInsn : Reader (Nat × RegexInsn) := do
  let position ← Reader.position
  let offset := position % 2 ^ 32
  let op ← u8
  let insn ← readFields offset op
  pure (offset, insn)

/-- The instructions up to the end of the stream. Each takes a byte at least, so the loop ends
before the fuel does. -/
def readInsns (fuel : Nat) : Reader (List (Nat × RegexInsn)) := do
  let left ← Reader.remaining
  if left = 0 then pure []
  else
    match fuel with
    | 0 => Action.lift .panic
    | fuel + 1 => do
        let insn ← readInsn
        let rest ← readInsns fuel
        pure (insn :: rest)

/-- The number in some bytes of a byte string. -/
def fieldAt (bytes : Bytes) (start width : Nat) : Nat := Bytes.leNat ((bytes.drop start).take width)

/-- Decode a regular expression. -/
def decodeRegex (bytes : Bytes) : Result RegexProgram :=
  if bytes.length < regexHeaderLen then
    let size := bytes.length
    .err (.parse s!"regex: {size} bytes, shorter than the {regexHeaderLen}-byte header")
  else do
    let header : RegexHeader :=
      { markedCount := fieldAt bytes 0 2, loopCount := fieldAt bytes 2 2,
        syntaxFlags := fieldAt bytes 4 1, constraints := fieldAt bytes 5 1 }
    let stream := bytes.drop regexHeaderLen
    let insns ← (readInsns stream.length (.new stream)).1
    pure { header, insns }

end Regex

namespace RegexInsn

/-- How many bytes an instruction takes. -/
def size : RegexInsn → Nat
  | goal | leftAnchor | rightAnchor | matchAny | u16MatchAny | matchAnyButNewline
  | u16MatchAnyButNewline => 1
  | matchChar8 _ | matchCharICase8 _ | wordBoundary _ => 2
  | matchChar16 _ | matchCharICase16 _ | beginMarkedSubexpression _ | endMarkedSubexpression _
  | backRef _ => 3
  | u16MatchChar32 _ | u16MatchCharICase32 _ | jump32 _ | endLoop _ | endSimpleLoop _ => 5
  | matchNChar8 chars | matchNCharICase8 chars => 2 + chars.length
  | alternation _ _ _ => 7
  | bracket content | u16Bracket content => 6 + 8 * content.ranges.length
  | lookaround _ _ _ _ _ _ => 12
  | beginLoop _ _ _ _ _ _ _ _ => 23
  | beginSimpleLoop _ _ => 6
  | width1Loop _ _ _ _ _ => 18

/-- The size of an instruction as a 32-bit number. -/
def width (insn : RegexInsn) : Result Nat := .checked (insn.size < 2 ^ 32) insn.size

/-- The offsets an instruction may go on at. -/
def targets : RegexInsn → List Nat
  | alternation secondary _ _ => [secondary]
  | jump32 target | endLoop target | endSimpleLoop target => [target]
  | lookaround _ _ _ _ _ continuation => [continuation]
  | beginLoop _ _ _ _ _ _ _ notTaken | beginSimpleLoop _ notTaken | width1Loop _ _ _ _ notTaken =>
      [notTaken]
  | _ => []

/-- The capture groups that an instruction names one by one. -/
def mexps : RegexInsn → List Nat
  | beginMarkedSubexpression group | endMarkedSubexpression group | backRef group => [group]
  | _ => []

/-- The loops that an instruction counts. -/
def loops : RegexInsn → List Nat
  | beginLoop loopId _ _ _ _ _ _ _ | width1Loop loopId _ _ _ _ => [loopId]
  | _ => []

/-- The range of capture groups that an instruction resets. -/
def mexpRange : RegexInsn → Nat × Nat
  | lookaround _ _ _ mexpBegin mexpEnd _ | beginLoop _ _ _ mexpBegin mexpEnd _ _ _ =>
      (mexpBegin, mexpEnd)
  | _ => (0, 0)

end RegexInsn

namespace RegexProgram

/-- A program that does not hold. -/
def bad {α : Type} (what : String) : Result α := .err (.parse s!"regex: {what}")

/-- Where the last instruction ends. -/
def finish (program : RegexProgram) : Result Nat :=
  match program.insns.getLast? with
  | none => pure 0
  | some (offset, insn) => do
      let width ← insn.width
      .checked (offset + width < 2 ^ 32) (offset + width)

/-- Hold the targets of an instruction to the places where instructions start. -/
def checkTargets (starts : List Nat) (offset : Nat) (insn : RegexInsn) : Result PUnit :=
  match insn.targets.find? fun target => !starts.contains target with
  | some target => bad s!"jump at {offset} to {target}, not an instruction"
  | none => pure ⟨⟩

/-- Hold the capture groups of an instruction to the header. -/
def checkMexps (marked offset : Nat) (insn : RegexInsn) : Result PUnit :=
  match insn.mexps.find? fun group => marked ≤ group with
  | some group => bad s!"capture group {group} at {offset}, header says {marked}"
  | none => pure ⟨⟩

/-- Hold the loop of an instruction to the header. -/
def checkLoops (loops offset : Nat) (insn : RegexInsn) : Result PUnit :=
  match insn.loops.find? fun loopId => loops ≤ loopId with
  | some loopId => bad s!"loop {loopId} at {offset}, header says {loops}"
  | none => pure ⟨⟩

/-- Hold the instructions to the header, one after the other. -/
def checkInsns (header : RegexHeader) (starts : List Nat) : List (Nat × RegexInsn) → Result PUnit
  | [] => pure ⟨⟩
  | (offset, insn) :: rest => do
      checkTargets starts offset insn
      checkMexps header.markedCount offset insn
      checkLoops header.loopCount offset insn
      checkInsns header starts rest

/-- Hold a program to its header: jumps land on an instruction or on the end, capture groups and
loops are those the header has, and the stream ends with a goal. -/
def check (program : RegexProgram) : Result PUnit := do
  let finish ← program.finish
  let starts := program.insns.map (·.1) ++ [finish]
  checkInsns program.header starts program.insns
  match program.insns.getLast? with
  | some (_, .goal) => pure ⟨⟩
  | _ => bad "the stream does not end with Goal"

end RegexProgram

end HermesDecomp
