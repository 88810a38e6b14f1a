import HermesDecomp.Write.Reloc

/-!
# What a write leaves alone

Finalizing an image touches the length in its header and its last twenty bytes.
Relocating one touches the function header slots, the large headers past the
splice and the offset of the debug section.
-/

namespace HermesDecomp

open Bytes Outcome

namespace Buffer

theorem write_unchanged {buf part after : Bytes} {pos : Nat} (ran : write buf pos part = .ok after) :
    Unchanged buf after fun index => pos ≤ index ∧ index < pos + part.length := by
  obtain ⟨inside, rfl⟩ := write_eq_ok.mp ran
  exact unchanged_overwrite inside

theorem writeU32_unchanged {buf after : Bytes} {pos value : Nat}
    (ran : writeU32 buf pos value = .ok after) :
    Unchanged buf after fun index => pos ≤ index ∧ index < pos + 4 := by
  simpa using write_unchanged ran

/-- A 32-bit number that was written is read back. -/
theorem writeU32_reads {buf after : Bytes} {pos value : Nat}
    (ran : writeU32 buf pos value = .ok after) : u32At after pos = some (value % 2 ^ 32) := by
  obtain ⟨inside, rfl⟩ := write_eq_ok.mp ran
  rw [leBytes_length] at inside
  exact u32At_overwrite_self inside

end Buffer

namespace Serialize

/-- The positions that finalizing an image of a length touches. -/
def Sealed (length index : Nat) : Prop := 32 ≤ index ∧ index < 36 ∨ length < index + 21

theorem rehash_unchanged (sha1 : Sha1) (buf : Bytes) (large : Footer.footerLen ≤ buf.length) :
    Unchanged buf (Footer.rehashFooter sha1 buf) (Sealed buf.length) := by
  refine ⟨Footer.rehashFooter_length sha1 large, fun index free => ?_⟩
  unfold Sealed at free
  unfold Footer.footerLen at large
  rw [Footer.rehashFooter_eq sha1 large, Footer.footerLen, List.getElem?_append_left, List.getElem?_take,
    if_pos (by omega)]
  rw [List.length_take]
  omega

theorem writeLength_unchanged (buf : Bytes) (large : 36 ≤ buf.length) :
    Unchanged buf (writeLength buf) (Sealed buf.length) := by
  have inside : 32 + (leBytes 4 buf.length).length ≤ buf.length := by
    rw [leBytes_length]
    exact large
  refine (unchanged_overwrite inside).mono fun index hit => .inl ?_
  rw [leBytes_length] at hit
  exact hit

/-- Finalizing keeps the length of an image and every byte but its length field and
footer. -/
theorem finalize_unchanged {sha1 : Sha1} {buf out : Bytes}
    (ran : finalizeRawImage sha1 buf = .ok out) : Unchanged buf out (Sealed buf.length) := by
  unfold finalizeRawImage at ran
  split at ran
  · simp at ran
  next large =>
    cases ran
    have one : ∀ {image : Bytes}, image.length = buf.length →
        Unchanged image (Footer.rehashFooter sha1 (writeLength image)) (Sealed buf.length) := by
      intro image same
      rw [← same]
      have written := writeLength_unchanged image (by omega)
      have hashed := rehash_unchanged sha1 (writeLength image) (by
        rw [written.length, Footer.footerLen]
        omega)
      rw [written.length] at hashed
      exact written.trans hashed
    exact (one rfl).trans (one (one rfl).length)

end Serialize

namespace Reloc

open HeaderWrite

/-- Where the bytes after the splice start in the new image. -/
def landing (r : Reloc) : Int := r.movedFrom + r.delta

variable {r : Reloc}

/-- An offset that moved is past the splice in the new image too. -/
theorem shifted_of_moved {value bits new : Nat} {what : String} (moved : r.movedFrom ≤ value)
    (ran : r.shifted value bits what = .ok new) : (new : Int) = value + r.delta := by
  unfold shifted at ran
  rw [if_neg (not_lt.mpr moved)] at ran
  dsimp only at ran
  split at ran
  · simp at ran
  next fits =>
    cases ran
    omega

/-- The positions that relocating the function in a slot touches: the slot and what
lies past the splice. -/
def Touched (r : Reloc) (layout : Option ModernLayout) (slot index : Nat) : Prop :=
  slot ≤ index ∧ index < slot + slotSize layout ∨ r.landing ≤ index

variable {layout : Option ModernLayout} {newSize : Option Nat}

theorem relocateSlot_length {slot moved : Bytes}
    (ran : r.relocateSlot layout newSize slot = .ok moved) :
    moved.length = slotSize layout := by
  unfold relocateSlot slotSize at *
  cases layout with
  | some layout =>
    simp only [Option.isSome_some, if_true, relocateModernSmall, bind_eq_ok, pure_eq, ok.injEq] at ran
    obtain ⟨_, -, _, -, rfl⟩ := ran
    exact leBytes_length _ _
  | none =>
    simp only [Option.isSome_none, Bool.false_eq_true, if_false, relocateLegacySmall, bind_eq_ok,
      pure_eq, ok.injEq] at ran
    obtain ⟨_, -, _, -, _, -, rfl⟩ := ran
    exact leBytes_length _ _

variable {buf after : Bytes}

theorem relocateInline_unchanged {slot : Nat}
    (ran : r.relocateInline layout newSize buf slot = .ok after) :
    Unchanged buf after (r.Touched layout slot) := by
  simp only [relocateInline, bind_eq_ok] at ran
  obtain ⟨bytes, -, moved, edited, written⟩ := ran
  refine (Buffer.write_unchanged written).mono fun index hit => .inl ?_
  rwa [relocateSlot_length edited] at hit

theorem shiftLargePointer_length {slot moved : Bytes} {delta : Int}
    (ran : shiftLargePointer layout slot delta = .ok moved) : moved.length = slot.length:= by
  unfold shiftLargePointer at ran
  split at ran
  · simp only [shiftModernLargePointer, bind_eq_ok] at ran
    obtain ⟨_, -, written⟩ := ran
    exact Buffer.write_length written
  · simp only [shiftLegacyLargePointer, bind_eq_ok] at ran
    obtain ⟨_, -, written⟩ := ran
    exact Buffer.write_length written

theorem movePointer_unchanged {slot ptr lh : Nat}
    (ran : r.movePointer layout buf slot ptr lh = .ok after) :
    Unchanged buf after (r.Touched layout slot) := by
  unfold movePointer at ran
  split at ran
  · cases ran
    exact Unchanged.refl _ _
  · simp only [bind_eq_ok] at ran
    obtain ⟨bytes, taken, moved, shifted, written⟩ := ran
    refine (Buffer.write_unchanged written).mono fun index hit => .inl ?_
    rwa [shiftLargePointer_length shifted, Bytes.slice_length (unwrap_eq_ok.mp taken)] at hit

/-- The large header that an overflowed function points to lies past a limit. -/
def PointsPast (limit : Nat) (layout : Option ModernLayout) (buf : Bytes) (slot : Nat) : Prop :=
  ∀ bytes, Bytes.slice buf slot (slotSize layout) = some bytes →
    ∀ ptr, readLargePointer layout bytes = .ok ptr → limit ≤ ptr

instance (limit : Nat) (layout : Option ModernLayout) (buf : Bytes) (slot : Nat) :
    Decidable (PointsPast limit layout buf slot) :=
  inferInstanceAs (Decidable (∀ bytes, Bytes.slice buf slot (slotSize layout) = some bytes →
    ∀ ptr, readLargePointer layout bytes = .ok ptr → limit ≤ ptr))

theorem relocateOverflowed_unchanged {slot : Nat} (past : PointsPast r.movedFrom layout buf slot)
    (ran : r.relocateOverflowed layout newSize buf slot = .ok after) :
    Unchanged buf after (r.Touched layout slot) := by
  simp only [relocateOverflowed, bind_eq_ok] at ran
  obtain ⟨bytes, taken, ptr, pointer, lh, shifted, pointed, movedPtr, _, -, body, -, newBody, -,
    withBody, wroteBody, withInfo, wroteInfo, resized⟩ := ran
  have lands : r.landing ≤ lh := by
    have moved := past bytes (unwrap_eq_ok.mp taken) ptr pointer
    have exact := shifted_of_moved moved shifted
    unfold landing
    omega
  have info : Unchanged withBody withInfo (r.Touched layout slot) := by
    unfold shiftStoredInfo at wroteInfo
    split at wroteInfo
    · cases wroteInfo
      exact Unchanged.refl _ _
    · simp only [shiftLargeInfo, bind_eq_ok] at wroteInfo
      obtain ⟨info, -, rest⟩ := wroteInfo
      split at rest
      · cases rest
        exact Unchanged.refl _ _
      · obtain ⟨newInfo, -, written⟩ := bind_eq_ok.mp rest
        exact (Buffer.writeU32_unchanged written).mono fun index hit => .inr (by omega)
  have size : Unchanged withInfo after (r.Touched layout slot) := by
    unfold resizeLarge at resized
    split at resized
    · refine (Buffer.writeU32_unchanged resized).mono fun index hit => .inr ?_
      unfold largeSizePos at hit
      omega
    · cases resized
      exact Unchanged.refl _ _
  have bodyKept : Unchanged pointed withBody (r.Touched layout slot) :=
    (Buffer.writeU32_unchanged wroteBody).mono fun index hit => .inr (by omega)
  exact (((movePointer_unchanged movedPtr).trans bodyKept).trans info).trans size

/-- A function is inline, or its large header lies past a limit. -/
def LargePast (limit : Nat) (layout : Option ModernLayout) (fhSec : Nat) (buf : Bytes)
    (functionId : Nat) : Prop :=
  ∀ flags : UInt8, buf[fhSec + functionId * slotSize layout + slotSize layout - 1]? = some flags →
    hasFlag flags.toNat flagOverflowed = true →
      PointsPast limit layout buf (fhSec + functionId * slotSize layout)

instance (limit : Nat) (layout : Option ModernLayout) (fhSec : Nat) (buf : Bytes)
    (functionId : Nat) : Decidable (LargePast limit layout fhSec buf functionId) :=
  inferInstanceAs (Decidable (∀ flags : UInt8,
    buf[fhSec + functionId * slotSize layout + slotSize layout - 1]? = some flags →
      hasFlag flags.toNat flagOverflowed = true →
        PointsPast limit layout buf (fhSec + functionId * slotSize layout)))

variable {fhSec : Nat}

/-- Relocating one function touches its slot and what lies past the splice. -/
theorem relocateFunction_unchanged {functionId : Nat}
    (past : LargePast r.movedFrom layout fhSec buf functionId)
    (ran : r.relocateFunction layout fhSec buf functionId = .ok after) :
    Unchanged buf after (r.Touched layout (fhSec + functionId * slotSize layout)) := by
  simp only [relocateFunction, bind_eq_ok, index_eq_ok] at ran
  obtain ⟨flags, found, rest⟩ := ran
  split at rest
  next overflowed => exact relocateOverflowed_unchanged (past flags found overflowed) rest
  · exact relocateInline_unchanged rest

theorem slotSize_pos (layout : Option ModernLayout) : 0 < slotSize layout := by
  unfold slotSize
  split <;> decide

/-- What a function's slot says is said by its bytes. -/
theorem LargePast.of_slot {limit : Nat} {functionId : Nat}
    (inside : fhSec + functionId * slotSize layout + slotSize layout ≤ buf.length)
    (same : ∀ index, fhSec + functionId * slotSize layout ≤ index →
      index < fhSec + functionId * slotSize layout + slotSize layout → after[index]? = buf[index]?)
    (past : LargePast limit layout fhSec buf functionId) :
    LargePast limit layout fhSec after functionId := by
  have positive := slotSize_pos layout
  intro flags found overflowed bytes taken ptr pointer
  rw [same _ (by omega) (by omega)] at found
  have slot : Bytes.slice buf (fhSec + functionId * slotSize layout) (slotSize layout) =
      some bytes := by
    rw [← taken]
    refine slice_congr inside (slice_eq_some.mp taken).1 fun index bounded => ?_
    exact (same _ (by omega) (by omega)).symm
  exact past flags found overflowed bytes slot ptr pointer

/-- What one function's relocation leaves alone: the slot of another one. -/
theorem LargePast.of_unchanged {functionId other : Nat} (different : other ≠ functionId)
    (before : (fhSec + (other + 1) * slotSize layout : Nat) ≤ r.landing)
    (kept : Unchanged buf after (r.Touched layout (fhSec + functionId * slotSize layout)))
    (past : LargePast r.movedFrom layout fhSec buf other) :
    LargePast r.movedFrom layout fhSec after other := by
  have positive := slotSize_pos layout
  have apart : (other + 1) * slotSize layout ≤ functionId * slotSize layout ∨
      (functionId + 1) * slotSize layout ≤ other * slotSize layout := by
    rcases Nat.lt_or_gt_of_ne different with less | more
    · exact Or.inl (Nat.mul_le_mul_right _ less)
    · exact Or.inr (Nat.mul_le_mul_right _ more)
  have free : ∀ index, fhSec + other * slotSize layout ≤ index →
      index < fhSec + other * slotSize layout + slotSize layout →
      ¬ r.Touched layout (fhSec + functionId * slotSize layout) index := by
    intro index low high hit
    rw [add_mul, one_mul] at apart before
    rw [add_mul, one_mul] at apart
    unfold Touched at hit
    omega
  intro flags found overflowed bytes taken ptr pointer
  rw [kept.same _ (free _ (by omega) (by omega))] at found
  rw [kept.slice_eq free] at taken
  exact past flags found overflowed bytes taken ptr pointer

/-- The positions that relocating a row of functions touches. -/
def TouchedFrom (r : Reloc) (layout : Option ModernLayout) (fhSec functions index : Nat) : Prop :=
  fhSec ≤ index ∧ index < fhSec + functions * slotSize layout ∨ r.landing ≤ index

theorem relocateFunctions_unchanged {fhSec functions : Nat} {ids : List Nat}
    (before : (fhSec + functions * slotSize layout : Nat) ≤ r.landing) (distinct : ids.Nodup)
    (inside : ∀ id ∈ ids, id < functions)
    (past : ∀ id ∈ ids, LargePast r.movedFrom layout fhSec buf id)
    (ran : ids.foldlM (r.relocateFunction layout fhSec) buf = .ok after) :
    Unchanged buf after (r.TouchedFrom layout fhSec functions) := by
  induction ids generalizing buf with
  | nil =>
    obtain rfl := foldlM_nil_eq_ok.mp ran
    exact Unchanged.refl _ _
  | cons id ids ih =>
    obtain ⟨middle, first, rest⟩ := foldlM_cons_eq_ok.mp ran
    obtain ⟨fresh, distinctRest⟩ := List.nodup_cons.mp distinct
    have slotInside : ∀ other, other < functions →
        (other + 1) * slotSize layout ≤ functions * slotSize layout :=
      fun other less => Nat.mul_le_mul_right _ less
    have kept := relocateFunction_unchanged (past id List.mem_cons_self) first
    have later := ih distinctRest
      (fun other found => inside other (List.mem_cons_of_mem _ found))
      (fun other found => by
        have small := slotInside other (inside other (List.mem_cons_of_mem _ found))
        have different : other ≠ id := fun same => fresh (same ▸ found)
        exact (past other (List.mem_cons_of_mem _ found)).of_unchanged different (by omega) kept)
      rest
    have small := slotInside id (inside id List.mem_cons_self)
    refine (kept.mono fun index hit => ?_).trans later
    rw [add_mul, one_mul] at small
    unfold Touched at hit
    unfold TouchedFrom
    omega

/-- The offset of the debug section is in the file header. -/
theorem debugInfoOffsetPos_lt (header : BytecodeHeader) (modern : Bool) :
    debugInfoOffsetPos header modern + 4 ≤ 128 := by
  unfold debugInfoOffsetPos
  split
  · decide
  · split <;> split <;> decide

theorem relocateDebug_unchanged {header : BytecodeHeader} {modern : Bool}
    (ran : r.relocateDebug header modern buf = .ok after) :
    Unchanged buf after fun index => debugInfoOffsetPos header modern ≤ index ∧
      index < debugInfoOffsetPos header modern + 4 := by
  unfold relocateDebug at ran
  dsimp only at ran
  split at ran
  · simp at ran
  · split at ran
    · unfold shiftU32At at ran
      split at ran
      · simp at ran
      · exact Buffer.writeU32_unchanged ran
    · cases ran
      exact Unchanged.refl _ _

/-- The positions that relocating an image touches: the offset of the debug section,
the function header slots and what lies past the splice. -/
def TouchedIn (r : Reloc) (layout : Option ModernLayout) (fhSec functions index : Nat) : Prop :=
  index < 128 ∨ r.TouchedFrom layout fhSec functions index

/-- A relocation leaves alone what lies between the function headers and the splice,
when all large headers are past the splice. -/
theorem relocate_unchanged {file : BytecodeFile}
    (place : file.sectionOffset .functionHeaders = some fhSec)
    (known : layoutOf file.header = .ok layout)
    (before : (fhSec + file.functionHeaders.length * slotSize layout : Nat) ≤ r.landing)
    (past : ∀ id < file.functionHeaders.length, LargePast r.movedFrom layout fhSec buf id)
    (ran : relocate file buf r = .ok after) :
    Unchanged buf after (r.TouchedIn layout fhSec file.functionHeaders.length) := by
  simp only [relocate, place, known, bind_eq_ok, ensure_eq_ok, ofOption_eq_ok, Option.some.injEq,
    ok.injEq] at ran
  obtain ⟨_, -, _, rfl, _, rfl, _, -, _, -, middle, functions, debug⟩ := ran
  have kept := relocateFunctions_unchanged before List.nodup_range
    (fun id inside => List.mem_range.mp inside) (fun id inside => past id (List.mem_range.mp inside))
    functions
  have debugKept := relocateDebug_unchanged debug
  have early := debugInfoOffsetPos_lt file.header layout.isSome
  refine (kept.mono fun index hit => .inr hit).trans (debugKept.mono fun index hit => .inl ?_)
  omega

end Reloc

end HermesDecomp
