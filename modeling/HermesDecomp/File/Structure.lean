import HermesDecomp.Debug
import HermesDecomp.Format

/-!
# The parsed file

Everything a parse of an image gives: the header, the tables, the decoded strings, the bytecode,
the debug info, where each section was found, and the conditions that make the read less than it
looks.
-/

namespace HermesDecomp

/-- Whether a run of strings holds plain strings or identifiers. -/
inductive StringKindType where
  | string
  | identifier
deriving DecidableEq, Repr

/-- A run of strings of one kind. -/
structure StringKindEntry where
  kind : StringKindType
  count : Nat
deriving DecidableEq, Repr

/-- A decoded string. -/
structure StringTableEntry where
  value : Text
  isUtf16 : Bool
  isIdentifier : Bool
deriving DecidableEq, Repr

/-- A range of a storage section. -/
structure TableEntry where
  offset : Nat
  length : Nat
deriving DecidableEq, Repr

/-- An object shape. -/
structure ShapeTableEntry where
  keyBufferOffset : Nat
  numProps : Nat
deriving DecidableEq, Repr

/-- The sections of an image. -/
inductive SectionName where
  | header
  | functionHeaders
  | stringKinds
  | identifierHashes
  | smallStringTable
  | overflowStringTable
  | stringStorage
  | arrayBuffer
  | literalValueBuffer
  | objKeyBuffer
  | objValueBuffer
  | objShapeTable
  | bigintTable
  | bigintStorage
  | regexpTable
  | regexpStorage
  | cjsModuleTable
  | functionSourceTable
  | bytecode
  | functionInfo
  | debugInfo
  | footer
deriving DecidableEq, Repr

/-- Where a section was found, padding included. -/
structure SectionInfo where
  name : SectionName
  offset : Nat
  size : Nat
  entries : Option Nat
deriving DecidableEq, Repr

/-- A range of a body and where its exceptions go, relative to the body. -/
structure ExceptionHandler where
  start : Nat
  finish : Nat
  target : Nat
deriving DecidableEq, Repr

/-- A condition that does not fail a read but makes it less than it looks. -/
inductive Diagnostic where
  | footerMismatch
  | lengthMismatch (declared actual : Nat)
  | layoutFallback (version : Nat) (used implied : HeaderLayout)
  | opcodeTableSubstituted (declared used : Nat)
  | invalidStringStorage (count : Nat)
  | debugInfoUnreadable (status : DebugInfoStatus)
deriving DecidableEq, Repr

/-- A parsed image. -/
structure BytecodeFile where
  header : BytecodeHeader
  functionHeaders : List FunctionHeader
  stringKinds : List StringKindEntry
  identifierHashes : List Nat
  strings : List StringTableEntry
  bigIntTable : List TableEntry
  bigIntStorage : Bytes
  regExpTable : List TableEntry
  regExpStorage : Bytes
  arrayBuffer : Bytes
  literalValueBuffer : Bytes
  objKeyBuffer : Bytes
  objValueBuffer : Bytes
  objShapeTable : List ShapeTableEntry
  cjsModuleTable : List (Nat × Nat)
  functionSourceTable : List (Nat × Nat)
  instructionOffset : Nat
  instructions : Bytes
  debugInfo : Option DebugInfo
  debugInfoStatus : DebugInfoStatus
  exceptionHandlers : OrdMap (List ExceptionHandler)
  sections : List SectionInfo
  diagnostics : List Diagnostic
  /-- The original bytes, which the write path edits. -/
  rawBytes : Option Bytes
deriving DecidableEq, Repr

/-- Where a section starts. -/
def BytecodeFile.sectionOffset (file : BytecodeFile) (name : SectionName) : Option Nat :=
  (file.sections.find? (·.name == name)).map (·.offset)

end HermesDecomp
