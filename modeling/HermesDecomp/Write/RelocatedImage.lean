import HermesDecomp.File.StringTables
import HermesDecomp.Library.Sha1
import HermesDecomp.Write.MovedOffsets

/-!
# What a relocation changes

Functions are relocated one after the other, each in its slot and its large header. On an image
whose large headers are apart the offsets of all of them move. The offset of the debug section is
shifted without a check, and so is the value that says there is none.
-/

namespace HermesDecomp.Reloc

open HeaderWrite Bytes Outcome HermesDecomp.Parser List

/-- Whether a slot says that its function has a large header. -/
def overflows (layout : Option ModernLayout) (slot : Bytes) : Bool :=
  ((slot[slotSize layout - 1]?).map fun flags => hasFlag flags.toNat flagOverflowed).getD false

/-- Where the large header of a function stands after the splice, if it has one. -/
def largeOf (r : Reloc) (layout : Option ModernLayout) (fhSec : Nat) (buf : Bytes)
    (functionId : Nat) : Option Nat := do
  let slot ← slice buf (fhSec + functionId * slotSize layout) (slotSize layout)
  if overflows layout slot then r.target layout slot else none

/-- The offsets of a function moved, in its slot and in its large header, and its slot keeps its
other bits. -/
def FunctionMoved (r : Reloc) (layout : Option ModernLayout) (fhSec : Nat) (buf after : Bytes)
    (functionId : Nat) : Prop :=
  ∃ slot moved, slice buf (fhSec + functionId * slotSize layout) (slotSize layout) = some slot ∧
    slice after (fhSec + functionId * slotSize layout) (slotSize layout) = some moved ∧
      if overflows layout slot then
        ∃ lh large largeAfter, r.target layout slot = some lh ∧
          slice buf lh (largeSizeOf layout) = some large ∧
            slice after lh (largeSizeOf layout) = some largeAfter ∧
              r.LargeMoved layout lh slot moved large largeAfter
      else r.InlineMoved layout (r.newSizeOf functionId).isSome slot moved

/-- The positions that relocating a function touches: its slot and its large header. -/
def TouchedOf (r : Reloc) (layout : Option ModernLayout) (fhSec : Nat) (buf : Bytes)
    (functionId index : Nat) : Prop :=
  fhSec + functionId * slotSize layout ≤ index ∧
      index < fhSec + functionId * slotSize layout + slotSize layout ∨
    ∃ lh, r.largeOf layout fhSec buf functionId = some lh ∧ lh ≤ index ∧
      index < lh + largeSizeOf layout

variable {r : Reloc} {layout : Option ModernLayout}

theorem largeOf_congr {fhSec : Nat} {buf other : Bytes} {functionId : Nat}
    (same : slice other (fhSec + functionId * slotSize layout) (slotSize layout) =
      slice buf (fhSec + functionId * slotSize layout) (slotSize layout)) :
    r.largeOf layout fhSec other functionId = r.largeOf layout fhSec buf functionId := by
  unfold largeOf
  rw [same]

/-- What moved is said by the slot and the large header alone. -/
theorem FunctionMoved.congr {fhSec : Nat} {buf after other otherAfter : Bytes} {functionId : Nat}
    (moved : r.FunctionMoved layout fhSec buf after functionId)
    (slotBefore : slice other (fhSec + functionId * slotSize layout) (slotSize layout) =
      slice buf (fhSec + functionId * slotSize layout) (slotSize layout))
    (slotAfter : slice otherAfter (fhSec + functionId * slotSize layout) (slotSize layout) =
      slice after (fhSec + functionId * slotSize layout) (slotSize layout))
    (large : ∀ lh, r.largeOf layout fhSec buf functionId = some lh →
      slice other lh (largeSizeOf layout) = slice buf lh (largeSizeOf layout) ∧
        slice otherAfter lh (largeSizeOf layout) = slice after lh (largeSizeOf layout)) :
    r.FunctionMoved layout fhSec other otherAfter functionId := by
  obtain ⟨slot, slotMoved, found, foundAfter, offsets⟩ := moved
  refine ⟨slot, slotMoved, slotBefore.trans found, slotAfter.trans foundAfter, ?_⟩
  split at offsets
  next overflowed =>
    obtain ⟨lh, header, headerAfter, aimed, at_lh, at_lhAfter, moves⟩ := offsets
    have known : r.largeOf layout fhSec buf functionId = some lh := by
      unfold largeOf
      rw [found]
      dsimp only [Option.bind_eq_bind, Option.bind_some]
      rw [if_pos overflowed, aimed]
    obtain ⟨before, behind⟩ := large lh known
    rw [if_pos overflowed]
    exact ⟨lh, header, headerAfter, aimed, before.trans at_lh, behind.trans at_lhAfter, moves⟩
  next inline =>
    rw [if_neg inline]
    exact offsets

/-- The flags of a slot are in its last byte. -/
theorem overflows_eq {buf slot : Bytes} {place : Nat}
    (taken : slice buf place (slotSize layout) = some slot) {flags : UInt8}
    (found : buf[place + slotSize layout - 1]? = some flags) :
    overflows layout slot = hasFlag flags.toNat flagOverflowed := by
  have positive := slotSize_pos layout
  have last : slot[slotSize layout - 1]? = some flags := by
    rw [slice_getElem? taken (by omega), ← Nat.add_sub_assoc positive, found]
  unfold overflows
  rw [last]
  rfl

variable {buf after : Bytes}

/-- Relocating a function moves its offsets, and touches its slot and its large header. -/
theorem relocateFunction_moved {fhSec functionId : Nat}
    (behind : ∀ lh, r.largeOf layout fhSec buf functionId = some lh →
      fhSec + functionId * slotSize layout + slotSize layout ≤ lh)
    (ran : r.relocateFunction layout fhSec buf functionId = .ok after) :
    r.FunctionMoved layout fhSec buf after functionId ∧
      Unchanged buf after (r.TouchedOf layout fhSec buf functionId) := by
  simp only [relocateFunction, bind_eq_ok, index_eq_ok] at ran
  obtain ⟨flags, found, ran⟩ := ran
  split at ran
  next overflowed =>
    have known : ∀ bytes lh,
        slice buf (fhSec + functionId * slotSize layout) (slotSize layout) = some bytes →
          r.target layout bytes = some lh → r.largeOf layout fhSec buf functionId = some lh := by
      intro bytes lh taken aimed
      unfold largeOf
      rw [taken]
      dsimp only [Option.bind_eq_bind, Option.bind_some]
      rw [overflows_eq taken found, if_pos overflowed, aimed]
    obtain ⟨bytes, moved, lh, large, largeAfter, taken, takenAfter, aimed, at_lh, at_lhAfter, moves,
      kept⟩ := relocateOverflowed_moved (fun bytes lh taken aimed =>
        behind lh (known bytes lh taken aimed)) ran
    constructor
    · refine ⟨bytes, moved, taken, takenAfter, ?_⟩
      rw [overflows_eq taken found, if_pos overflowed]
      exact ⟨lh, large, largeAfter, aimed, at_lh, at_lhAfter, moves⟩
    · refine kept.mono fun index hit => ?_
      rcases hit with slot | header
      · exact .inl slot
      · exact .inr ⟨lh, known bytes lh taken aimed, header⟩
  next inline =>
    simp only [relocateInline, bind_eq_ok] at ran
    obtain ⟨bytes, taken, moved, edited, written⟩ := ran
    have taken := unwrap_eq_ok.mp taken
    have touched := Buffer.write_unchanged written
    obtain ⟨inside, rfl⟩ := Buffer.write_eq_ok.mp written
    have length := relocateSlot_length edited
    have read := slice_overwrite_self inside
    rw [length] at touched read
    constructor
    · refine ⟨bytes, moved, taken, read, ?_⟩
      rw [overflows_eq taken found, if_neg inline]
      exact relocateSlot_moved (slice_length taken) edited
    · exact touched.mono fun index hit => .inl hit

/-- The large headers of some functions lie behind a limit and share no bytes. -/
structure Separate (r : Reloc) (layout : Option ModernLayout) (fhSec limit : Nat) (buf : Bytes)
    (ids : List Nat) : Prop where
  behind : ∀ id ∈ ids, ∀ lh, r.largeOf layout fhSec buf id = some lh → limit ≤ lh
  apart : ∀ id ∈ ids, ∀ other ∈ ids, id ≠ other →
    ∀ lh, r.largeOf layout fhSec buf id = some lh →
      ∀ lh', r.largeOf layout fhSec buf other = some lh' →
        lh + largeSizeOf layout ≤ lh' ∨ lh' + largeSizeOf layout ≤ lh

instance (r : Reloc) (layout : Option ModernLayout) (fhSec limit : Nat) (buf : Bytes)
    (ids : List Nat) : Decidable (r.Separate layout fhSec limit buf ids) :=
  decidable_of_iff ((∀ id ∈ ids, ∀ lh, r.largeOf layout fhSec buf id = some lh → limit ≤ lh) ∧
      ∀ id ∈ ids, ∀ other ∈ ids, id ≠ other →
        ∀ lh, r.largeOf layout fhSec buf id = some lh →
          ∀ lh', r.largeOf layout fhSec buf other = some lh' →
            lh + largeSizeOf layout ≤ lh' ∨ lh' + largeSizeOf layout ≤ lh)
    ⟨fun ⟨behind, apart⟩ => ⟨behind, apart⟩, fun separate => ⟨separate.behind, separate.apart⟩⟩

/-- The slots of two functions share no bytes. -/
theorem slots_apart {layout : Option ModernLayout} {id other : Nat} (different : other ≠ id) :
    (other + 1) * slotSize layout ≤ id * slotSize layout ∨
      (id + 1) * slotSize layout ≤ other * slotSize layout := by
  rcases Nat.lt_or_gt_of_ne different with less | more
  · exact Or.inl (Nat.mul_le_mul_right _ less)
  · exact Or.inr (Nat.mul_le_mul_right _ more)

variable {fhSec functions : Nat}

/-- Relocating one function leaves the slot of another alone. -/
theorem TouchedOf.slot_free {buf : Bytes} {id other : Nat} (inside : other < functions)
    (different : other ≠ id) (behind : ∀ lh, r.largeOf layout fhSec buf id = some lh →
      fhSec + functions * slotSize layout ≤ lh) {index : Nat}
    (low : fhSec + other * slotSize layout ≤ index)
    (high : index < fhSec + other * slotSize layout + slotSize layout) :
    ¬ r.TouchedOf layout fhSec buf id index := by
  have rows := Nat.mul_le_mul_right (slotSize layout) inside
  have beside := @slots_apart layout _ _ different
  rw [Nat.succ_mul] at rows
  rw [Nat.succ_mul, Nat.succ_mul] at beside
  rintro (slot | ⟨lh, aimed, header⟩)
  · omega
  · have past := behind lh aimed
    omega

/-- Relocating one function leaves the large header of another alone. -/
theorem TouchedOf.large_free {buf : Bytes} {id start : Nat} (inside : id < functions)
    (past : fhSec + functions * slotSize layout ≤ start)
    (apart : ∀ lh, r.largeOf layout fhSec buf id = some lh →
      lh + largeSizeOf layout ≤ start ∨ start + largeSizeOf layout ≤ lh) {index : Nat}
    (low : start ≤ index) (high : index < start + largeSizeOf layout) :
    ¬ r.TouchedOf layout fhSec buf id index := by
  have rows := Nat.mul_le_mul_right (slotSize layout) inside
  rw [Nat.succ_mul] at rows
  rintro (slot | ⟨lh, aimed, header⟩)
  · omega
  · have beside := apart lh aimed
    omega

/-- Relocating functions whose large headers are apart moves the offsets of each. -/
theorem relocateFunctions_moved {ids : List Nat} (distinct : ids.Nodup)
    (inside : ∀ id ∈ ids, id < functions)
    (separate : r.Separate layout fhSec (fhSec + functions * slotSize layout) buf ids)
    (ran : ids.foldlM (r.relocateFunction layout fhSec) buf = .ok after) :
    (∀ id ∈ ids, r.FunctionMoved layout fhSec buf after id) ∧
      Unchanged buf after fun index => ∃ id ∈ ids, r.TouchedOf layout fhSec buf id index := by
  induction ids generalizing buf with
  | nil =>
    obtain rfl := foldlM_nil_eq_ok.mp ran
    exact ⟨fun id listed => absurd listed (by simp), .refl _ _⟩
  | cons id ids ih =>
    obtain ⟨middle, first, rest⟩ := foldlM_cons_eq_ok.mp ran
    obtain ⟨fresh, distinctRest⟩ := nodup_cons.mp distinct
    have differs : ∀ other ∈ ids, other ≠ id := fun other listed same => fresh (same ▸ listed)
    have idInside := inside id mem_cons_self
    have idBehind := separate.behind id mem_cons_self
    have row := Nat.mul_le_mul_right (slotSize layout) idInside
    rw [Nat.succ_mul] at row
    obtain ⟨moved, kept⟩ := relocateFunction_moved (fun lh aimed => by
      have past := idBehind lh aimed
      omega) first
    have others : ∀ other ∈ ids, slice middle (fhSec + other * slotSize layout) (slotSize layout) =
        slice buf (fhSec + other * slotSize layout) (slotSize layout) := by
      intro other listed
      refine kept.slice_eq fun index low high => ?_
      exact TouchedOf.slot_free (inside other (mem_cons_of_mem _ listed))
        (differs other listed) idBehind low high
    have sameLarge : ∀ other ∈ ids,
        r.largeOf layout fhSec middle other = r.largeOf layout fhSec buf other :=
      fun other listed => largeOf_congr (others other listed)
    have separateRest :
        r.Separate layout fhSec (fhSec + functions * slotSize layout) middle ids := by
      constructor
      · intro other listed lh aimed
        rw [sameLarge other listed] at aimed
        exact separate.behind other (mem_cons_of_mem _ listed) lh aimed
      · intro one listedOne two listedTwo different lh aimed lh' aimed'
        rw [sameLarge one listedOne] at aimed
        rw [sameLarge two listedTwo] at aimed'
        exact separate.apart one (mem_cons_of_mem _ listedOne) two
          (mem_cons_of_mem _ listedTwo) different lh aimed lh' aimed'
    obtain ⟨later, keptRest⟩ := ih distinctRest
      (fun other listed => inside other (mem_cons_of_mem _ listed)) separateRest rest
    have touchedSame : ∀ other ∈ ids, ∀ index, r.TouchedOf layout fhSec middle other index →
        r.TouchedOf layout fhSec buf other index := by
      intro other listed index hit
      unfold TouchedOf at hit ⊢
      rwa [sameLarge other listed] at hit
    constructor
    · intro other listed
      rcases mem_cons.mp listed with rfl | listed
      · refine moved.congr rfl ?_ fun lh aimed => ⟨rfl, ?_⟩
        · refine keptRest.slice_eq fun index low high hit => ?_
          obtain ⟨later, listed, touched⟩ := hit
          exact TouchedOf.slot_free idInside (differs later listed).symm
            (separateRest.behind later listed) low high touched
        · refine keptRest.slice_eq fun index low high hit => ?_
          obtain ⟨later, listed, touched⟩ := hit
          refine TouchedOf.large_free (inside later (mem_cons_of_mem _ listed))
            (idBehind lh aimed) ?_ low high touched
          intro lh' aimed'
          rw [sameLarge later listed] at aimed'
          exact (separate.apart other mem_cons_self later (mem_cons_of_mem _ listed)
            (differs later listed).symm lh aimed lh' aimed').symm
      · refine (later other listed).congr (others other listed).symm rfl fun lh aimed => ⟨?_, rfl⟩
        rw [sameLarge other listed] at aimed
        refine (kept.slice_eq fun index low high => ?_).symm
        refine TouchedOf.large_free idInside
          (separate.behind other (mem_cons_of_mem _ listed) lh aimed) ?_ low high
        intro lh' aimed'
        exact separate.apart id mem_cons_self other (mem_cons_of_mem _ listed)
          (differs other listed).symm lh' aimed' lh aimed
    · refine (kept.mono fun index hit => ⟨id, mem_cons_self, hit⟩).trans
        (keptRest.mono fun index hit => ?_)
      obtain ⟨other, listed, touched⟩ := hit
      exact ⟨other, mem_cons_of_mem _ listed, touchedSame other listed index touched⟩

/-- Every offset of an image moved, and the offset of the debug section unless it says that there
is none. -/
structure Relocated (r : Reloc) (header : BytecodeHeader) (layout : Option ModernLayout)
    (fhSec functions : Nat) (buf after : Bytes) : Prop where
  functions : ∀ id < functions, r.FunctionMoved layout fhSec buf after id
  debug : ∃ old new, u32At buf (debugInfoOffsetPos header layout.isSome) = some old ∧
    u32At after (debugInfoOffsetPos header layout.isSome) = some new ∧
      r.MovedUnless (old = 0 ∨ old = noOffset) old new

/-- The offset of the debug section is before the splice or zero, or it says where a section is
and moves without a wrap. -/
def DebugFits (r : Reloc) (header : BytecodeHeader) (layout : Option ModernLayout) (buf : Bytes) :
    Prop :=
  ∀ old, u32At buf (debugInfoOffsetPos header layout.isSome) = some old → old ≠ 0 →
    r.movedFrom ≤ old →
      if old = noOffset then 2 ^ 32 ∣ r.delta else 0 ≤ old + r.delta ∧ old + r.delta < 2 ^ 32

/-- What relocating the offset of the debug section comes to. -/
theorem relocateDebug_eq_ok {header : BytecodeHeader} {modern : Bool}
    (ran : r.relocateDebug header modern buf = .ok after) :
    ∃ old, u32At buf (debugInfoOffsetPos header modern) = some old ∧
      u32At after (debugInfoOffsetPos header modern) =
        some (if old ≠ 0 ∧ r.movedFrom ≤ old then asU32 (old + r.delta) else old) := by
  unfold relocateDebug at ran
  dsimp only at ran
  split at ran
  · simp at ran
  next old found =>
    refine ⟨old, found, ?_⟩
    split at ran
    next moves =>
      rw [if_pos moves]
      unfold shiftU32At at ran
      rw [found] at ran
      have small : asU32 (old + r.delta) < 2 ^ 32 := by
        unfold asU32
        omega
      rw [Buffer.writeU32_reads ran, Nat.mod_eq_of_lt small]
    next stays =>
      cases ran
      rw [if_neg stays, found]

/-- A relocation of an image whose large headers are apart moves every offset of its functions as
it should, and it moves the offset of the debug section as it should exactly when that fits. -/
theorem relocate_moves_iff {sha1 : Sha1} {bytes buf after : Bytes} {file : BytecodeFile} {r : Reloc}
    {layout : Option ModernLayout} (parsed : parseAuto sha1 bytes = .ok file)
    (known : layoutOf file.header = .ok layout)
    (separate : r.Separate layout headerSize
      (headerSize + file.functionHeaders.length * slotSize layout) buf
      (List.range file.functionHeaders.length))
    (ran : relocate file buf r = .ok after) :
    r.Relocated file.header layout headerSize file.functionHeaders.length buf after ↔
      r.DebugFits file.header layout buf := by
  have place : file.sectionOffset .functionHeaders = some headerSize :=
    (parseAuto_region parsed).places _ _ mem_cons_self
  simp only [relocate, place, known, bind_eq_ok, ensure_eq_ok, ofOption_eq_ok, Option.some.injEq,
    ok.injEq] at ran
  obtain ⟨_, -, _, rfl, _, rfl, _, -, _, -, middle, functions, debug⟩ := ran
  obtain ⟨moved, kept⟩ := relocateFunctions_moved nodup_range
    (fun id inside => mem_range.mp inside) separate functions
  obtain ⟨old, oldAt, newAt⟩ := relocateDebug_eq_ok debug
  have debugKept := relocateDebug_unchanged debug
  have early := debugInfoOffsetPos_lt file.header layout.isSome
  have oldAtBefore : u32At buf (debugInfoOffsetPos file.header layout.isSome) = some old := by
    rw [← oldAt]
    refine (kept.u32At_eq fun index low high hit => ?_).symm
    obtain ⟨id, listed, slot | ⟨lh, aimed, header⟩⟩ := hit
    · unfold headerSize at slot
      omega
    · have past := separate.behind id listed lh aimed
      unfold headerSize at past
      omega
  have small := u32At_lt oldAt
  have shift : (asU32 (old + r.delta) : Int) = (old + r.delta) % 2 ^ 32 := by
    unfold asU32
    omega
  constructor
  · rintro ⟨-, old', new, oldAt', newAt', moves⟩ other otherAt present past
    obtain rfl := Option.some.inj (oldAtBefore.symm.trans oldAt')
    obtain rfl := Option.some.inj (oldAtBefore.symm.trans otherAt)
    rw [newAt, if_pos ⟨present, past⟩] at newAt'
    cases newAt'
    split
    next absent =>
      have same := moves.1 (.inr absent)
      omega
    next there =>
      have lands := (moves.2 (by rintro (zero | absent) <;> contradiction)).2 past
      omega
  · intro fits
    refine ⟨fun id inside => ?_, old, _, oldAtBefore, newAt, ?_, ?_⟩
    · have listed := mem_range.mpr inside
      have start : headerSize = 128 := rfl
      refine (moved id listed).congr rfl ?_ fun lh aimed => ⟨rfl, ?_⟩
      · exact debugKept.slice_eq fun index low high hit => by omega
      · have past := separate.behind id listed lh aimed
        exact debugKept.slice_eq fun index low high hit => by omega
    · rintro (zero | absent)
      · rw [if_neg fun moves => moves.1 zero]
      · split
        next moves =>
          have wraps := fits old oldAtBefore moves.1 moves.2
          rw [if_pos absent] at wraps
          omega
        · rfl
    · intro there
      refine ⟨fun before => ?_, fun past => ?_⟩
      · rw [if_neg fun moves => absurd moves.2 (by omega)]
      · have present : old ≠ 0 := fun zero => there (.inl zero)
        have lands := fits old oldAtBefore present past
        rw [if_neg fun absent => there (.inr absent)] at lands
        rw [if_pos ⟨present, past⟩]
        omega

/-- An image with a large header behind the code and a debug section behind that. -/
def largeImage : Bytes :=
  [198, 31, 188, 3, 193, 3, 25, 31, 96, 0, 0, 0, 0, 0, 0, 0, 0, 0, 0, 0, 0, 0, 0, 0, 0, 0, 0,
   0, 0, 0, 0, 0, 212, 0, 0, 0, 0, 0, 0, 0, 1, 0, 0, 0, 1, 0, 0, 0, 0, 0, 0, 0, 1, 0, 0, 0, 0,
   0, 0, 0, 1, 0, 0, 0, 0, 0, 0, 0, 0, 0, 0, 0, 0, 0, 0, 0, 0, 0, 0, 0, 0, 0, 0, 0, 0, 0, 0,
   0, 0, 0, 0, 0, 0, 0, 0, 0, 0, 0, 0, 0, 0, 0, 0, 0, 192, 0, 0, 0, 0, 0, 0, 0, 0, 0, 0, 0, 0,
   0, 0, 0, 0, 0, 0, 0, 0, 0, 0, 0, 160, 0, 0, 0, 0, 0, 0, 0, 0, 0, 0, 0, 0, 0, 0, 32, 1, 0,
   0, 0, 0, 0, 0, 1, 97, 0, 0, 0, 1, 0, 0, 0, 156, 0, 0, 0, 1, 0, 0, 0, 4, 0, 0, 0, 0, 0, 0,
   0, 0, 0, 0, 0, 2, 0, 0, 0, 0, 0, 0, 0, 0, 0, 0, 0, 171, 222, 40, 120, 216, 9, 165, 111,
   152, 124, 157, 63, 157, 186, 213, 28, 171, 221, 96, 164]

/-- Four bytes are put in behind the code of that image. -/
theorem relocate_moves_large :
    ∃ file after, parseAuto Sha1Hash.hash largeImage = .ok file ∧
      relocate file (largeImage.take 160 ++ [0, 0, 0, 0] ++ largeImage.drop 160) ⟨160, 4, none⟩ =
          .ok after ∧
        ((⟨160, 4, none⟩ : Reloc).Relocated file.header none headerSize file.functionHeaders.length
            (largeImage.take 160 ++ [0, 0, 0, 0] ++ largeImage.drop 160) after ↔
          (⟨160, 4, none⟩ : Reloc).DebugFits file.header none
            (largeImage.take 160 ++ [0, 0, 0, 0] ++ largeImage.drop 160)) := by
  have run : ∃ file, parseAuto Sha1Hash.hash largeImage = .ok file ∧
      layoutOf file.header = .ok none ∧
        (⟨160, 4, none⟩ : Reloc).Separate none headerSize
            (headerSize + file.functionHeaders.length * slotSize none)
            (largeImage.take 160 ++ [0, 0, 0, 0] ++ largeImage.drop 160)
            (List.range file.functionHeaders.length) ∧
          ∃ after, relocate file (largeImage.take 160 ++ [0, 0, 0, 0] ++ largeImage.drop 160)
            ⟨160, 4, none⟩ = .ok after ∧ True := by
    decide +kernel
  obtain ⟨file, parsed, known, separate, after, ran, -⟩ := run
  exact ⟨file, after, parsed, ran, relocate_moves_iff parsed known separate ran⟩

/-- An image that says it has no debug section with the largest offset. -/
def absentDebugImage : Bytes :=
  [198, 31, 188, 3, 193, 3, 25, 31, 96, 0, 0, 0, 0, 0, 0, 0, 0, 0, 0, 0, 0, 0, 0, 0, 0, 0, 0,
   0, 0, 0, 0, 0, 180, 0, 0, 0, 0, 0, 0, 0, 1, 0, 0, 0, 1, 0, 0, 0, 0, 0, 0, 0, 1, 0, 0, 0, 0,
   0, 0, 0, 1, 0, 0, 0, 0, 0, 0, 0, 0, 0, 0, 0, 0, 0, 0, 0, 0, 0, 0, 0, 0, 0, 0, 0, 0, 0, 0,
   0, 0, 0, 0, 0, 0, 0, 0, 0, 0, 0, 0, 0, 0, 0, 0, 0, 255, 255, 255, 255, 0, 0, 0, 0, 0, 0, 0,
   0, 0, 0, 0, 0, 0, 0, 0, 0, 0, 0, 0, 0, 156, 0, 0, 2, 4, 0, 0, 0, 0, 0, 0, 4, 0, 0, 0, 2, 1,
   0, 0, 0, 0, 0, 0, 1, 97, 0, 0, 0, 1, 0, 0, 0, 58, 175, 106, 244, 118, 220, 115, 74, 75, 4,
   65, 202, 130, 232, 72, 111, 199, 135, 93, 189]

/-- That offset is shifted like one of a section, and comes out as an offset near the start. -/
theorem relocate_absentDebug :
    ∃ file after, parseAuto Sha1Hash.hash absentDebugImage = .ok file ∧
      relocate file (absentDebugImage.take 160 ++ [0, 0, 0, 0] ++ absentDebugImage.drop 160)
          ⟨160, 4, none⟩ = .ok after ∧
        u32At absentDebugImage (debugInfoOffsetPos file.header false) = some noOffset ∧
          u32At after (debugInfoOffsetPos file.header false) = some 3 ∧
            ¬ (⟨160, 4, none⟩ : Reloc).Relocated file.header none headerSize
              file.functionHeaders.length
              (absentDebugImage.take 160 ++ [0, 0, 0, 0] ++ absentDebugImage.drop 160) after := by
  have run : ∃ file, parseAuto Sha1Hash.hash absentDebugImage = .ok file ∧
      u32At absentDebugImage (debugInfoOffsetPos file.header false) = some noOffset ∧
        u32At (absentDebugImage.take 160 ++ [0, 0, 0, 0] ++ absentDebugImage.drop 160)
            (debugInfoOffsetPos file.header false) = some noOffset ∧
          ∃ after, relocate file
              (absentDebugImage.take 160 ++ [0, 0, 0, 0] ++ absentDebugImage.drop 160)
              ⟨160, 4, none⟩ = .ok after ∧
            u32At after (debugInfoOffsetPos file.header false) = some 3 := by
    decide +kernel
  obtain ⟨file, parsed, absent, absentBefore, after, ran, shifted⟩ := run
  refine ⟨file, after, parsed, ran, absent, shifted, ?_⟩
  rintro ⟨-, old, new, oldAt, newAt, moves⟩
  obtain rfl := Option.some.inj (absentBefore.symm.trans oldAt)
  obtain rfl := Option.some.inj (shifted.symm.trans newAt)
  exact absurd (moves.1 (.inr rfl)) (by decide)

end HermesDecomp.Reloc
