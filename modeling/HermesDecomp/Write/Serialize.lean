import HermesDecomp.File.Parsing

/-!
# Committing an edited image

Every write operation ends the same way: the edited bytes get their length and
footer, are parsed again, and replace the file when the new header is the old one
with the declared edits applied and the operation's own check passes.
-/

namespace HermesDecomp

/-- Code that edits a parsed file. -/
abbrev Edit := Action BytecodeFile Error

namespace Serialize

/-- The original bytes of a file. -/
def rawOf (file : BytecodeFile) : Result Bytes := .ofOption (.write "no raw_bytes") file.rawBytes

/-- Write the image's length into its header. -/
def writeLength (buf : Bytes) : Bytes := Bytes.overwrite buf 32 (Bytes.leBytes 4 buf.length)

/-- Give edited bytes their length and footer. -/
def finalizeRawImage (sha1 : Sha1) (buf : Bytes) : Result Bytes :=
  if buf.length < 36 then .err (.write "image too small")
  else
    let buf := Footer.rehashFooter sha1 (writeLength buf)
    .ok (Footer.rehashFooter sha1 (writeLength buf))

/-- What a write may change in the file header. Everything else must come back as
it was. -/
structure HeaderEdit where
  /-- How far the write moved everything after its splice. -/
  shift : Int
  /-- New counts of kind runs, identifiers and strings. -/
  stringCounts : Option (Nat × Nat × Nat)
  /-- New overflow record count and storage size. -/
  stringStorage : Option (Nat × Nat)
  /-- New size of the regular expression storage. -/
  regExpStorageSize : Option Nat

namespace HeaderEdit

/-- A splice that moved everything after it. -/
def shifted (shift : Int) : HeaderEdit where
  shift := shift
  stringCounts := none
  stringStorage := none
  regExpStorageSize := none

/-- The edit that changes nothing. -/
def default : HeaderEdit := shifted 0

/-- The header with the edit applied: the debug section moved, when there is one,
and the declared counts and sizes replaced. -/
def apply (edit : HeaderEdit) (header : BytecodeHeader) : BytecodeHeader :=
  { header with
    debugInfoOffset := if header.debugInfoOffset = 0 then 0
      else ((header.debugInfoOffset + edit.shift) % 2 ^ 32).toNat
    stringKindCount := (edit.stringCounts.map (·.1)).getD header.stringKindCount
    identifierCount := (edit.stringCounts.map (·.2.1)).getD header.identifierCount
    stringCount := (edit.stringCounts.map (·.2.2)).getD header.stringCount
    overflowStringCount := (edit.stringStorage.map (·.1)).getD header.overflowStringCount
    stringStorageSize := (edit.stringStorage.map (·.2)).getD header.stringStorageSize
    regExpStorageSize := edit.regExpStorageSize.getD header.regExpStorageSize }

end HeaderEdit

/-- The lines of an optional field in a printed header. -/
def optionLines (field : String) : Option Nat → List String
  | some value => [s!"{field}: Some(", s!"{value},", "),"]
  | none => [s!"{field}: None,"]

/-- A header as it is printed, one trimmed line after the other. -/
def headerLines (header : BytecodeHeader) : List String :=
  let number (field : String) (value : Nat) : List String := [s!"{field}: {value},"]
  let layout := match header.layout with
    | .legacy => "Legacy"
    | .modern => "Modern"
  let functionLayout := match header.functionHeaderLayout with
    | .legacy16 => "Legacy16"
    | .modern12 => "Modern12"
  ["BytecodeHeader \x7b"] ++ number "magic" header.magic ++ number "version" header.version ++
    ["source_hash: ["] ++ header.sourceHash.map (fun byte => let value := byte.toNat; s!"{value},") ++
    ["],"] ++ number "file_length" header.fileLength ++
    number "global_code_index" header.globalCodeIndex ++
    number "function_count" header.functionCount ++
    number "string_kind_count" header.stringKindCount ++
    number "identifier_count" header.identifierCount ++ number "string_count" header.stringCount ++
    number "overflow_string_count" header.overflowStringCount ++
    number "string_storage_size" header.stringStorageSize ++
    optionLines "big_int_count" header.bigIntCount ++
    optionLines "big_int_storage_size" header.bigIntStorageSize ++
    number "reg_exp_count" header.regExpCount ++
    number "reg_exp_storage_size" header.regExpStorageSize ++
    optionLines "literal_value_buffer_size" header.literalValueBufferSize ++
    optionLines "array_buffer_size" header.arrayBufferSize ++
    number "obj_key_buffer_size" header.objKeyBufferSize ++
    optionLines "obj_value_buffer_size" header.objValueBufferSize ++
    optionLines "obj_shape_table_count" header.objShapeTableCount ++
    optionLines "num_string_switch_imms" header.numStringSwitchImms ++
    optionLines "segment_id" header.segmentId ++
    optionLines "cjs_module_offset" header.cjsModuleOffset ++
    number "cjs_module_count" header.cjsModuleCount ++
    optionLines "function_source_count" header.functionSourceCount ++
    number "debug_info_offset" header.debugInfoOffset ++ number "options_raw" header.optionsRaw ++
    [s!"layout: {layout},", s!"function_header_layout: {functionLayout},", "\x7d"]

/-- Compare two headers and name every line that differs. -/
def headerMatches (expected got : BytecodeHeader) (what : String) : Result PUnit :=
  if expected = got then .ok ⟨⟩
  else
    let differing := ((headerLines expected).zip (headerLines got)).filter fun (e, g) => e != g
    let diffs := "; ".intercalate (differing.map fun (e, g) => s!"expected {e} got {g}")
    .err (.write s!"{what} changed the file header beyond what it declares: {diffs}")

/-- Parse the bytes a write produced. -/
def reparse (sha1 : Sha1) (out : Bytes) : Result BytecodeFile :=
  match Parser.parseAuto sha1 out with
  | .ok file => .ok file
  | .panic => .panic
  | .err error =>
      let message := error.describe
      .err (.write s!"write produced an image that does not reparse: {message}. The edit reached finalization, so this is a malformed layout rather than a rejected input.")

/-- The header that the new image must have. -/
def expectedHeader (edit : HeaderEdit) (header : BytecodeHeader) (out : Bytes) : BytecodeHeader :=
  { edit.apply header with fileLength := out.length % 2 ^ 32 }

/-- Finalize and parse edited bytes, and check what came back. -/
def refresh (sha1 : Sha1) (file : BytecodeFile) (buf : Bytes) (edit : HeaderEdit)
    (check : BytecodeFile → Result PUnit) : Result (Bytes × BytecodeFile) := do
  let out ← finalizeRawImage sha1 buf
  let refreshed ← reparse sha1 out
  headerMatches (expectedHeader edit file.header out) refreshed.header "write"
  check refreshed
  pure (out, refreshed)

/-- Adopt edited bytes. The file is replaced only when the new image parses, has
the header the edit allows and passes the check. -/
def commitImageChecked (sha1 : Sha1) (buf : Bytes) (edit : HeaderEdit)
    (check : BytecodeFile → Result PUnit) : Edit Bytes := do
  let file ← Action.get
  let (out, refreshed) ← Action.lift (refresh sha1 file buf edit check)
  Action.set refreshed
  pure out

/-- Adopt edited bytes without a check of the operation's own. -/
def commitImage (sha1 : Sha1) (buf : Bytes) (edit : HeaderEdit) : Edit Bytes :=
  commitImageChecked sha1 buf edit fun _ => .ok ⟨⟩

theorem headerMatches_eq_ok {expected got : BytecodeHeader} {what : String} {done : PUnit} :
    headerMatches expected got what = .ok done ↔ expected = got := by
  unfold headerMatches
  split <;> simp_all

theorem reparse_eq_ok {sha1 : Sha1} {out : Bytes} {file : BytecodeFile} :
    reparse sha1 out = .ok file ↔ Parser.parseAuto sha1 out = .ok file := by
  unfold reparse
  split <;> simp_all

/-- A file is adopted exactly when the finalized bytes parse to it, its header is
the allowed one and it passes the check. -/
theorem commitImageChecked_eq_ok {sha1 : Sha1} {buf out : Bytes} {edit : HeaderEdit}
    {check : BytecodeFile → Result PUnit} {file after : BytecodeFile} :
    commitImageChecked sha1 buf edit check file = (.ok out, after) ↔
      finalizeRawImage sha1 buf = .ok out ∧ Parser.parseAuto sha1 out = .ok after ∧
        expectedHeader edit file.header out = after.header ∧ check after = .ok ⟨⟩ := by
  simp only [commitImageChecked, refresh, Action.bind_eq_ok, Action.get_apply, Action.lift_apply,
    Action.set_apply, Action.pure_apply, Prod.mk.injEq, Outcome.ok.injEq, Outcome.bind_eq_ok,
    Outcome.pure_eq, reparse_eq_ok, headerMatches_eq_ok]
  constructor
  · rintro ⟨_, _, ⟨rfl, rfl⟩, _, _, ⟨⟨_, finalized, _, parsed, _, header, _, checked, rfl⟩, rfl⟩,
      _, _, ⟨-, rfl⟩, rfl, rfl⟩
    exact ⟨finalized, parsed, header, checked⟩
  · rintro ⟨finalized, parsed, header, checked⟩
    exact ⟨file, file, ⟨rfl, rfl⟩, (out, after), file, ⟨⟨out, finalized, after, parsed, ⟨⟩, header,
      ⟨⟩, checked, rfl⟩, rfl⟩, ⟨⟩, after, ⟨trivial, rfl⟩, rfl, rfl⟩

end Serialize

end HermesDecomp
