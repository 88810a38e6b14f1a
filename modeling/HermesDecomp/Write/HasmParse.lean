import HermesDecomp.Library.Numeral
import HermesDecomp.File.Structure
import HermesDecomp.Write.Encode

/-!
# Parsing assembly text

The text of a function is read in three passes. The first one reads each line by itself:
what it skips, the handlers, the labels, and the instructions with their operands as
tokens. A label waits for the next instruction. The second pass gives each instruction its
offset and each waiting label the offset of its instruction. The third pass reads the tokens.
-/

namespace HermesDecomp.Hasm

open Scan Numeral

/-- A number in upper-case hexadecimal digits. -/
def upperHex (number : Nat) : Text := (Nat.toDigits 16 number).map Char.toUpper

/-- A character inside a quoted string of the output. -/
def escapeChar (c : Char) : Text :=
  if c = '"' then ['\\', '"']
  else if c = '\\' then ['\\', '\\']
  else if c = '\n' then ['\\', 'n']
  else if c = '\r' then ['\\', 'r']
  else if c = '\t' then ['\\', 't']
  else if c.toNat = 0 then ['\\', '0']
  else if 0x20 ≤ c.toNat ∧ c.toNat < 0x7F then [c]
  else if c.toNat ≤ 0xFFFF then ['\\', 'u'] ++ (upperHex c.toNat).leftpad 4 '0'
  else ['\\', 'u', '\x7b'] ++ upperHex c.toNat ++ ['\x7d']

/-- A text as a quoted string. -/
def escapeJsString (value : Text) : Text := '"' :: value.flatMap escapeChar ++ ['"']

/-- A character of a text that is shown for debugging, where it is one that prints. -/
def debugChar (c : Char) : Text :=
  if c = '"' then ['\\', '"']
  else if c = '\\' then ['\\', '\\']
  else if c = '\n' then ['\\', 'n']
  else if c = '\r' then ['\\', 'r']
  else if c = '\t' then ['\\', 't']
  else if c.toNat = 0 then ['\\', '0']
  else if c.toNat < 0x20 ∨ c.toNat = 0x7F then
    ['\\', 'u', '\x7b'] ++ Nat.toDigits 16 c.toNat ++ ['\x7d']
  else [c]

/-- Texts that are shown for debugging. -/
def debugTexts (texts : List Text) : Text :=
  '[' :: [',', ' '].intercalate (texts.map fun text => '"' :: text.flatMap debugChar ++ ['"']) ++
    [']']

/-- The error with a text and what stands behind it. -/
def refuse (before : String) (token : Text) (after : String) : Error :=
  .write (before ++ String.ofList token ++ after)

/-- A line up to its comment: two slashes outside of quotes. -/
def stripCommentFrom (inString : Bool) (previous : Option Char) : Text → Text
  | c :: next :: rest =>
      let inString := if c = '"' ∧ previous ≠ some '\\' then !inString else inString
      if inString = false ∧ c = '/' ∧ next = '/' then []
      else c :: stripCommentFrom inString (some c) (next :: rest)
  | text => text

def stripComment (line : Text) : Text := stripCommentFrom false none line

/-- The opcode of a name. The first definition wins. -/
def opcodeOf? (format : BytecodeFormat) (name : Text) : Option UInt8 :=
  (format.definitions.find? fun entry =>
    entry.name != "<invalid>" && entry.name.toList == name).map InstructionDef.opcode

/-- What follows the offset that a line opens with: a token of hexadecimal digits which is
not the name of an opcode, in front of a name. -/
def stripOffsetPrefix (format : BytecodeFormat) (line : Text) : Option Text :=
  let text := trimStart line
  let (run, rest) := ((stripEither ['0', 'x'] ['0', 'X'] text).getD text).span isHexDigit
  if run.isEmpty then none
  else if (rest.head?.any isWhitespace) = false then none
  else if (opcodeOf? format run).isSome then none
  else
    let rest := trimStart rest
    if rest.head?.any isAlphabetic then some rest else none

/-- The operands of a line, split at the commas outside of quotes. -/
def splitOperands (current : Text) (inString : Bool) : Text → List Text
  | [] => if (trim current).isEmpty then [] else [trim current]
  | c :: rest =>
      if c = '"' then splitOperands (current ++ [c]) (!inString) rest
      else if c = ',' ∧ inString = false then trim current :: splitOperands [] inString rest
      else splitOperands (current ++ [c]) inString rest

/-- The mnemonic of a line, and its operands. -/
def splitMnemonicOperands (line : Text) : List Text :=
  let (mnemonic, rest) := line.span fun c => !isWhitespace c
  (if mnemonic.isEmpty then [] else [mnemonic]) ++ splitOperands [] false (trimStart rest)

/-- The label of a line that holds nothing else. -/
def labelOf? (line : Text) : Option Text :=
  if line.getLast? = some ':' then
    match line.dropLast with
    | 'L' :: digits => if digits.all isDigit then some ('L' :: digits) else none
    | _ => none
  else none

/-- Whether a line is the banner of a function. -/
def isBanner (line : Text) : Bool :=
  "function ".toList.isPrefixOf line || "; ".toList.isPrefixOf line ||
    "Function".toList.isPrefixOf line

/-- The three fields of a handler, each a label or an offset. -/
structure HandlerSpec where
  start : Text
  finish : Text
  target : Text
deriving DecidableEq

/-- A line, as the first pass reads it. -/
inductive Line where
  | skipped
  | handler (spec : HandlerSpec)
  | label (name : Text)
  | instruction (mnemonic : Text) (ops : List Text)
deriving DecidableEq

/-- The fields of a handler line. -/
def handlerSpec (line fields : Text) : Result Line :=
  match (fields.splitOn ',').map trim with
  | [start, finish, target] =>
      if start.isEmpty ∨ finish.isEmpty ∨ target.isEmpty then
        .err (refuse "`" line "`: a handler is `.handler <start>, <end>, <target>`")
      else .ok (.handler ⟨start, finish, target⟩)
  | _ => .err (refuse "`" line "`: a handler is `.handler <start>, <end>, <target>`")

/-- An instruction line, behind its offset. -/
def instructionLine (rest : Text) : Line :=
  match splitMnemonicOperands rest with
  | [] => .skipped
  | mnemonic :: ops => .instruction mnemonic ops

/-- Read a line. -/
def readLine (format : BytecodeFormat) (raw : Text) : Result Line :=
  let line := trim (stripComment raw)
  if line.isEmpty then .ok .skipped
  else
    match line.dropPrefix? ".handler".toList with
    | some fields => handlerSpec line fields
    | none =>
        if isBanner line then .ok .skipped
        else
          match labelOf? line with
          | some name => .ok (.label name)
          | none => .ok (instructionLine ((stripOffsetPrefix format line).getD line))

/-- The lines of a text. -/
def readLines (format : BytecodeFormat) (text : Text) : Result (List Line) :=
  (lines text).mapM (readLine format)

/-- An instruction line with the label that waited for it. -/
structure RawLine where
  labelHere : Option Text
  mnemonic : Text
  ops : List Text
deriving DecidableEq

/-- What the first pass finds: the instruction lines, the label that still waits, and the
handlers. -/
structure FirstPass where
  rawLines : List RawLine
  pendingLabel : Option Text
  handlerSpecs : List HandlerSpec

/-- The first pass over lines. One label waits at most: another one takes its place. -/
def firstPass (pendingLabel : Option Text) : List Line → FirstPass
  | [] => ⟨[], pendingLabel, []⟩
  | .skipped :: rest => firstPass pendingLabel rest
  | .handler spec :: rest =>
      let found := firstPass pendingLabel rest
      { found with handlerSpecs := spec :: found.handlerSpecs }
  | .label name :: rest => firstPass (some name) rest
  | .instruction mnemonic ops :: rest =>
      let found := firstPass none rest
      { found with rawLines := ⟨pendingLabel, mnemonic, ops⟩ :: found.rawLines }

/-- The bytes an operand takes. -/
def operandSize : OperandType → Nat
  | .reg8 | .uint8 | .uint8S | .addr8 => 1
  | .uint16 | .uint16S => 2
  | .reg32 | .uint32 | .uint32S | .addr32 | .imm32 => 4
  | .double => 8

/-- The bytes an instruction takes. -/
def instructionSize (types : List OperandType) : Nat := 1 + (types.map operandSize).sum

/-- The offsets of labels, the last one given first. -/
abbrev Labels := List (Text × Nat)

/-- Give a waiting label an offset. -/
def Labels.place (labels : Labels) (waiting : Option Text) (offset : Nat) : Labels :=
  match waiting with
  | some name => (name, offset) :: labels
  | none => labels

/-- An instruction with its offset, its tokens and the kinds of its operands. -/
structure Sized where
  offset : Nat
  opcode : UInt8
  ops : List Text
  types : List OperandType

/-- The second pass: offsets for the instructions and for the labels. The offsets wrap. -/
def secondPass (format : BytecodeFormat) (offset : Nat) (labels : Labels) :
    List RawLine → Result (List Sized × Labels × Nat)
  | [] => pure ([], labels, offset)
  | raw :: rest => do
      let labels := labels.place raw.labelHere offset
      let opcode ← Outcome.ofOption (refuse "unknown mnemonic: " raw.mnemonic "")
        (opcodeOf? format raw.mnemonic)
      let entry ← Outcome.unwrap (format.definition? opcode)
      let expected := entry.operandTypes.length
      let found := raw.ops.length
      if found ≠ expected then
        .err (refuse "" raw.mnemonic (s!": expected {expected} operands, got {found} (" ++
          String.ofList (debugTexts raw.ops) ++ ")"))
      else do
        let size := instructionSize entry.operandTypes
        let (sized, labels, stop) ← secondPass format ((offset + size) % 2 ^ 32) labels rest
        pure (⟨offset, opcode, raw.ops, entry.operandTypes⟩ :: sized, labels, stop)

/-- A field of a handler: a label, or an offset. -/
def resolve (labels : Labels) (token : Text) : Result Nat :=
  match labels.lookup token with
  | some offset => .ok offset
  | none =>
      let parsed :=
        match stripEither ['0', 'x'] ['0', 'X'] token with
        | some hex => parseU32? 16 hex
        | none => parseU32? 10 token
      match parsed with
      | some offset => .ok offset.toNat
      | none => .err (refuse ".handler: unknown label or offset `" token "`")

/-- A handler with its fields resolved. -/
def resolveHandler (labels : Labels) (spec : HandlerSpec) : Result ExceptionHandler := do
  let start ← resolve labels spec.start
  let finish ← resolve labels spec.finish
  let target ← resolve labels spec.target
  pure ⟨start, finish, target⟩

/-- The handlers of a text, where it has some. -/
def resolveHandlers (labels : Labels) (specs : List HandlerSpec) :
    Result (Option (List ExceptionHandler)) :=
  if specs.isEmpty then .ok none else some <$> specs.mapM (resolveHandler labels)

/-- The characters of a quoted string with its escapes resolved. -/
def unescape : Text → Text
  | '\\' :: 'n' :: rest => '\n' :: unescape rest
  | '\\' :: 't' :: rest => '\t' :: unescape rest
  | '\\' :: 'r' :: rest => '\r' :: unescape rest
  | '\\' :: c :: rest => c :: unescape rest
  | ['\\'] => []
  | c :: rest => c :: unescape rest
  | [] => []

/-- The text of a quoted string. -/
def unquote (token : Text) : Result Text :=
  match trim token with
  | '"' :: rest =>
      if rest.getLast? = some '"' then .ok (unescape rest.dropLast)
      else .err (refuse "expected quoted string, got " token "")
  | _ => .err (refuse "expected quoted string, got " token "")

/-- An unsigned number as an operand of a kind: the low bits of it. -/
def narrow (ty : OperandType) (value : UInt32) : OperandValue :=
  match ty with
  | .uint8 | .uint8S => .u8 value.toUInt8
  | .uint16 | .uint16S => .u16 value.toUInt16
  | _ => .u32 value

/-- An unsigned number, in hexadecimal or decimal digits. -/
def parseUint (token : Text) (ty : OperandType) : Result OperandValue := do
  let value ←
    match stripEither ['0', 'x'] ['0', 'X'] token with
    | some hex => Outcome.ofOption (refuse "bad hex " token "") (parseU32? 16 hex)
    | none => Outcome.ofOption (refuse "bad uint " token "") (parseU32? 10 token)
  pure (narrow ty value)

/-- A register as an operand of a kind: the low bits of its number. -/
def narrowRegister (ty : OperandType) (value : UInt32) : OperandValue :=
  if ty = .reg8 then .u8 value.toUInt8 else .u32 value

/-- The offset in the name of a label. -/
def literalTarget? : Text → Option Nat
  | 'L' :: digits => (parseU32? 10 digits).map UInt32.toNat
  | _ => none

/-- Where an address operand leads: the label of the text, or else the offset in its name. -/
def addressTarget (labels : Labels) (token : Text) : Result Nat :=
  match (labels.lookup token).or (literalTarget? token) with
  | some target => .ok target
  | none =>
      if ['L'].isPrefixOf token then .err (refuse "unknown label " token "")
      else .err (refuse "bad address operand " token "")

/-- An offset as a signed word. -/
def signedWord (offset : Nat) : Int := (offset : Int).bmod (2 ^ 32)

/-- The displacement of an address operand, in the bits of its kind. -/
def addressValue (ty : OperandType) (displacement : Int) : Result OperandValue :=
  if ty = .addr8 then
    if displacement < -128 ∨ 127 < displacement then
      .err (.write s!"Addr8 out of range: {displacement}")
    else .ok (.i8 (Int8.ofInt displacement))
  else .ok (.i32 (Int32.ofInt displacement))

/-- The string ids that literals of a text stand for. -/
abbrev StringLookup := Text → Option UInt32

/-- Read the token of an operand. -/
def parseOperandToken (raw : Text) (ty : OperandType) (insnOffset : Nat) (labels : Labels)
    (strings : StringLookup) : Result OperandValue :=
  let token := trim raw
  match ty with
  | .reg8 | .reg32 => do
      let number ← Outcome.ofOption (refuse "expected register, got " token "")
        (stripEither ['r'] ['R'] token)
      let value ← Outcome.ofOption (refuse "bad register " token "") (parseU32? 10 number)
      pure (narrowRegister ty value)
  | .addr8 | .addr32 => do
      let target ← addressTarget labels token
      let displacement := signedWord target - signedWord insnOffset
      let displacement ← Outcome.checked (-2 ^ 31 ≤ displacement ∧ displacement < 2 ^ 31)
        displacement
      addressValue ty displacement
  | .uint8S | .uint16S | .uint32S =>
      if token.head? = some '"' then do
        let unquoted ← unquote token
        let id ← Outcome.ofOption (refuse "string not in table: " (escapeJsString unquoted) "")
          (strings unquoted)
        pure (narrow ty id)
      else parseUint token ty
  | .uint8 | .uint16 | .uint32 => parseUint token ty
  | .imm32 => do
      let value ← Outcome.ofOption (refuse "bad imm " token "") (parseI32? token)
      pure (.i32 value)
  | .double => do
      let bits ← Outcome.ofOption (refuse "bad double " token "") (Binary64.parseF64? token)
      pure (.f64 bits)

/-- Read the tokens of operands. -/
def parseOperands (insnOffset : Nat) (labels : Labels) (strings : StringLookup) :
    List Text → List OperandType → Result (List Operand)
  | token :: tokens, ty :: types => do
      let value ← parseOperandToken token ty insnOffset labels strings
      let rest ← parseOperands insnOffset labels strings tokens types
      pure (⟨ty, value⟩ :: rest)
  | _, _ => pure []

/-- An instruction of the third pass. -/
def buildInstruction (labels : Labels) (strings : StringLookup) (sized : Sized) :
    Result Instruction := do
  let operands ← parseOperands sized.offset labels strings sized.ops sized.types
  pure ⟨sized.offset, sized.opcode, operands, instructionSize sized.types⟩

/-- Parse the text of a function into its instructions and, where it states them, its
handlers. A label behind the last instruction marks the end of the body. -/
def parseHasmFunctionFull (text : Text) (format : BytecodeFormat) (strings : StringLookup) :
    Result (List Instruction × Option (List ExceptionHandler)) := do
  let lines ← readLines format text
  let first := firstPass none lines
  let (sized, labels, stop) ← secondPass format 0 [] first.rawLines
  let labels := labels.place first.pendingLabel stop
  let handlers ← resolveHandlers labels first.handlerSpecs
  let body ← sized.mapM (buildInstruction labels strings)
  pure (body, handlers)

/-- Parse the text of a function into its instructions. -/
def parseHasmFunction (text : Text) (format : BytecodeFormat) (strings : StringLookup) :
    Result (List Instruction) :=
  Prod.fst <$> parseHasmFunctionFull text format strings

end HermesDecomp.Hasm
