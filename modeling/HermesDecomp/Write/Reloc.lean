import HermesDecomp.Write.HeaderWrite
import HermesDecomp.Write.Serialize

/-!
# Relocation

A write that replaces one region by another of a different size moves everything
after it. The absolute offsets of the format are few: the body and info offset of
each function, the pointer to a large header with that header's own offsets, and
the offset of the debug section. Each one at or past the end of the old region is
shifted by the size change.
-/

namespace HermesDecomp.Reloc

open HeaderWrite

/-- Bits of an offset in an inline header. -/
def offsetBits : Nat := 25

/-- Bits of the size in a legacy inline header. -/
def legacySizeBits : Nat := 15

/-- Bits of the size in a modern inline header. -/
def modernSizeBits : Nat := 14

end Reloc

/-- One spliced region and the size change it caused. -/
structure Reloc where
  /-- The first offset of the old image that moved. -/
  movedFrom : Nat
  /-- The size change of the region. -/
  delta : Int
  /-- The function and its new size, when the region was its body. -/
  resized : Option (Nat × Nat)

namespace Reloc

open HeaderWrite

/-- An absolute offset after the splice. -/
def shifted (r : Reloc) (value bits : Nat) (what : String) : Result Nat :=
  if value < r.movedFrom then .ok value
  else
    let new := value + r.delta
    if new < 0 ∨ 2 ^ bits ≤ new then
      let delta := r.delta
      .err (.write s!"relocation: {what} {value} shifted by {delta} does not fit in {bits} bits")
    else .ok new.toNat

/-- A body size that an inline header can hold. -/
def checkedSize (size bits : Nat) : Result Nat :=
  if 2 ^ bits ≤ size then
    .err (.write s!"relocation: body size {size} does not fit the small header's {bits}-bit size field (the function would have to become overflowed)")
  else .ok size

/-- Replace the size field of an inline header, when there is a new size. -/
def resize (raw bits : Nat) : Option Nat → Result Nat
  | some size => do
      let size ← checkedSize size bits
      pure (setBits raw 32 bits size)
  | none => pure raw

/-- Shift the info offset of a legacy inline header, when it has one. -/
def shiftInfo (r : Reloc) (raw : Nat) : Result Nat :=
  let info := Parser.bitField raw 64 offsetBits
  if info = 0 then pure raw
  else do
    let newInfo ← r.shifted info offsetBits "info offset"
    pure (setBits raw 64 offsetBits newInfo)

/-- Relocate a legacy inline header. -/
def relocateLegacySmall (r : Reloc) (newSize : Option Nat) (slot : Bytes) : Result Bytes := do
  let raw := Bytes.leNat slot
  let offset ← r.shifted (Parser.bitField raw 0 offsetBits) offsetBits "body offset"
  let raw ← r.shiftInfo (setBits raw 0 offsetBits offset)
  let raw ← resize raw legacySizeBits newSize
  pure (Bytes.leBytes 16 raw)

/-- Relocate a modern inline header, which has no info offset. -/
def relocateModernSmall (r : Reloc) (newSize : Option Nat) (slot : Bytes) : Result Bytes := do
  let raw := Bytes.leNat slot
  let offset ← r.shifted (Parser.bitField raw 0 offsetBits) offsetBits "body offset"
  let raw ← resize (setBits raw 0 offsetBits offset) modernSizeBits newSize
  pure (Bytes.leBytes 12 raw)

/-- The large header pointer of a slot. -/
def readLargePointer (layout : Option ModernLayout) (slot : Bytes) : Result Nat :=
  if layout.isSome then readModernLargePointer slot else readLegacyLargePointer slot

/-- Shift the large header pointer of a slot. -/
def shiftLargePointer (layout : Option ModernLayout) (slot : Bytes) (delta : Int) : Result Bytes :=
  if layout.isSome then shiftModernLargePointer slot delta else shiftLegacyLargePointer slot delta

/-- Size of a function header slot. -/
def slotSize (layout : Option ModernLayout) : Nat :=
  if layout.isSome then Parser.modernHeaderSize else Parser.legacyHeaderSize

/-- Size of a large header. -/
def largeSizeOf (layout : Option ModernLayout) : Nat := (layout.map (·.largeSize)).getD 20

/-- Shift the info offset of a legacy large header at `lh`, when it has one. -/
def shiftLargeInfo (r : Reloc) (buf : Bytes) (lh : Nat) : Result Bytes := do
  let info ← Buffer.readU32 buf (lh + 16)
  if info = 0 then pure buf
  else
    let newInfo ← r.shifted info 32 "large header info offset"
    Buffer.writeU32 buf (lh + 16) newInfo

/-- Where a large header at `lh` has its body size. -/
def largeSizePos (layout : Option ModernLayout) (lh : Nat) : Nat :=
  lh + if layout.isSome then modernLargeBytecodeSize else 8

/-- Shift the info offset, where the layout stores one. -/
def shiftStoredInfo (r : Reloc) (layout : Option ModernLayout) (buf : Bytes) (lh : Nat) :
    Result Bytes :=
  if layout.isSome then pure buf else r.shiftLargeInfo buf lh

/-- Replace the size of a large header, when there is a new one. -/
def resizeLarge (layout : Option ModernLayout) (buf : Bytes) (lh : Nat) : Option Nat → Result Bytes
  | some size => Buffer.writeU32 buf (largeSizePos layout lh) size
  | none => pure buf

/-- Move the pointer in a slot when the large header moved. -/
def movePointer (r : Reloc) (layout : Option ModernLayout) (buf : Bytes) (slot ptr lh : Nat) :
    Result Bytes :=
  if lh = ptr then pure buf
  else do
    let bytes ← Buffer.range buf slot (slotSize layout)
    let moved ← shiftLargePointer layout bytes r.delta
    Buffer.write buf slot moved

/-- Relocate an overflowed function: the pointer in its slot, then the body offset
and the stored info offset of its large header. -/
def relocateOverflowed (r : Reloc) (layout : Option ModernLayout) (newSize : Option Nat)
    (buf : Bytes) (slot : Nat) : Result Bytes := do
  let bytes ← Buffer.range buf slot (slotSize layout)
  let ptr ← readLargePointer layout bytes
  let lh ← r.shifted ptr 32 "large header pointer"
  let buf ← r.movePointer layout buf slot ptr lh
  let largeSize := largeSizeOf layout
  let size := buf.length
  .ensure (lh + largeSize ≤ buf.length)
    (.write s!"large header at {lh} (+{largeSize} bytes) is out of range for a {size}-byte image")
  let body ← Buffer.readU32 buf lh
  let newBody ← r.shifted body 32 "large header body offset"
  let buf ← Buffer.writeU32 buf lh newBody
  let buf ← r.shiftStoredInfo layout buf lh
  resizeLarge layout buf lh newSize

/-- Relocate the bytes of an inline header. -/
def relocateSlot (r : Reloc) (layout : Option ModernLayout) (newSize : Option Nat) (slot : Bytes) :
    Result Bytes :=
  if layout.isSome then r.relocateModernSmall newSize slot else r.relocateLegacySmall newSize slot

/-- Relocate an inline header. -/
def relocateInline (r : Reloc) (layout : Option ModernLayout) (newSize : Option Nat) (buf : Bytes)
    (slot : Nat) : Result Bytes := do
  let bytes ← Buffer.range buf slot (slotSize layout)
  let moved ← r.relocateSlot layout newSize bytes
  Buffer.write buf slot moved

/-- The new size of a function, when it is the resized one. -/
def newSizeOf (r : Reloc) (functionId : Nat) : Option Nat :=
  (r.resized.filter (·.1 == functionId)).map (·.2)

/-- Relocate the function header in a slot. -/
def relocateFunction (r : Reloc) (layout : Option ModernLayout) (fhSec : Nat) (buf : Bytes)
    (functionId : Nat) : Result Bytes := do
  let slot := fhSec + functionId * slotSize layout
  let flags ← Outcome.index buf (slot + slotSize layout - 1)
  if hasFlag flags.toNat flagOverflowed then
    r.relocateOverflowed layout (r.newSizeOf functionId) buf slot
  else r.relocateInline layout (r.newSizeOf functionId) buf slot

/-- Where a file header has the offset of the debug section. -/
def debugInfoOffsetPos (header : BytecodeHeader) (modern : Bool) : Nat :=
  if modern then 108
  else 64 + (if header.bigIntCount.isSome then 8 else 0) + 8 + 12 + 8 +
    if header.functionSourceCount.isSome then 4 else 0

/-- Shift the offset of the debug section, when there is one past the splice. -/
def relocateDebug (r : Reloc) (header : BytecodeHeader) (modern : Bool) (buf : Bytes) :
    Result Bytes :=
  let pos := debugInfoOffsetPos header modern
  match Bytes.u32At buf pos with
  | none => .err (.write "relocation: debug_info_offset out of range")
  | some offset =>
      if offset ≠ 0 ∧ r.movedFrom ≤ offset then shiftU32At buf pos r.delta else pure buf

/-- The large header layout of a file's function headers. -/
def layoutOf (header : BytecodeHeader) : Result (Option ModernLayout) :=
  match header.functionHeaderLayout with
  | .legacy16 => pure none
  | .modern12 => some <$> ModernLayout.forVersion header.version

/-- Whether a resized function exists. -/
def checkResized (r : Reloc) (functions : Nat) : Result PUnit :=
  match r.resized with
  | some (functionId, _) =>
      .ensure (functionId < functions) (.write s!"relocation: invalid function id {functionId}")
  | none => pure ⟨⟩

/-- Shift every absolute offset in a spliced image that pointed at or past the
splice. -/
def relocate (file : BytecodeFile) (buf : Bytes) (r : Reloc) : Result Bytes := do
  let delta := r.delta
  .ensure (4 ∣ r.delta) (.write s!"relocation delta {delta} is not a multiple of 4: everything after the splice must stay 4-byte aligned (large headers, FunctionInfo)")
  let fhSec ← .ofOption (.write "function_headers section missing")
    (file.sectionOffset .functionHeaders)
  let layout ← layoutOf file.header
  .ensure (fhSec + file.functionHeaders.length * slotSize layout ≤ r.movedFrom)
    (.write "relocation: the function header table overlaps the spliced region")
  r.checkResized file.functionHeaders.length
  let buf ← (List.range file.functionHeaders.length).foldlM (r.relocateFunction layout fhSec) buf
  r.relocateDebug file.header layout.isSome buf

end HermesDecomp.Reloc
