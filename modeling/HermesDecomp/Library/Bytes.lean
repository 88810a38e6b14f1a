import Mathlib.Data.List.Basic
import Mathlib.Data.Nat.Bitwise
import Mathlib.Tactic.Ring

/-!
# Byte strings and little-endian numbers

A byte string is a list of octets. Reading a range gives nothing when the range
leaves the string; overwriting a range keeps the length and every byte outside
it. Little-endian encoding at a fixed width keeps a number modulo the width, and
is inverse to decoding on byte strings of that width.
-/

namespace HermesDecomp

open List

/-- A byte string. -/
abbrev Bytes := List UInt8

namespace Bytes

/-- The number a little-endian byte string denotes. -/
def leNat : Bytes → Nat
  | [] => 0
  | byte :: rest => byte.toNat + 256 * leNat rest

/-- The `width` lowest bytes of a number, lowest first. -/
def leBytes : Nat → Nat → Bytes
  | 0, _ => []
  | width + 1, value => UInt8.ofNat value :: leBytes width (value / 256)

@[simp] theorem leBytes_length (width value : Nat) : (leBytes width value).length = width := by
  induction width generalizing value with
  | zero => rfl
  | succ width ih => simp [leBytes, ih]

/-- A byte string denotes a number below the size of its width. -/
theorem leNat_lt (bytes : Bytes) : leNat bytes < 256 ^ bytes.length := by
  induction bytes with
  | nil => simp [leNat]
  | cons byte rest ih =>
    have low : byte.toNat < 256 := byte.toNat_lt
    simp only [leNat, length_cons, pow_succ]
    omega

/-- Decoding what was encoded keeps the number modulo the width. -/
theorem leNat_leBytes (width value : Nat) : leNat (leBytes width value) = value % 256 ^ width := by
  induction width generalizing value with
  | zero => simp [leNat, leBytes, Nat.mod_one]
  | succ width ih =>
    have low : (UInt8.ofNat value).toNat = value % 256 := by simp
    rw [leBytes, leNat, ih, low, pow_succ, mul_comm (256 ^ width), Nat.mod_mul]

/-- A number that fits the width is read back unchanged. -/
theorem leNat_leBytes_of_lt {width value : Nat} (fits : value < 256 ^ width) :
    leNat (leBytes width value) = value := by
  rw [leNat_leBytes, Nat.mod_eq_of_lt fits]

/-- Encoding what a byte string denotes gives the byte string back. -/
theorem leBytes_leNat (bytes : Bytes) : leBytes bytes.length (leNat bytes) = bytes := by
  induction bytes with
  | nil => rfl
  | cons byte rest ih =>
    have low : byte.toNat < 256 := byte.toNat_lt
    have head : UInt8.ofNat (byte.toNat + 256 * leNat rest) = byte := by
      apply UInt8.toNat_inj.mp
      simp only [UInt8.toNat_ofNat']
      omega
    have tail : (byte.toNat + 256 * leNat rest) / 256 = leNat rest := by omega
    simp [leNat, leBytes, head, tail, ih]

/-- The `count` bytes from `start` on, when all of them exist. -/
def slice (bytes : Bytes) (start count : Nat) : Option Bytes :=
  if start + count ≤ bytes.length then some ((bytes.drop start).take count) else none

variable {bytes part : Bytes} {start count : Nat}

theorem slice_eq_some :
    slice bytes start count = some part ↔
      start + count ≤ bytes.length ∧ (bytes.drop start).take count = part := by
  unfold slice
  split <;> simp_all

theorem slice_length (found : slice bytes start count = some part) : part.length = count:= by
  obtain ⟨inside, rfl⟩ := slice_eq_some.mp found
  simp only [length_take, length_drop]
  omega

/-- A slice and its source agree position by position. -/
theorem slice_getElem? {start count index : Nat} (found : slice bytes start count = some part)
    (inside : index < count) : part[index]? = bytes[start + index]? := by
  obtain ⟨-, rfl⟩ := slice_eq_some.mp found
  rw [List.getElem?_take_of_lt inside, List.getElem?_drop]

/-- Two strings that agree on a range have the same slice there, at shifted
starts too. -/
theorem slice_congr {left right : Bytes} {leftStart rightStart count : Nat}
    (leftInside : leftStart + count ≤ left.length) (rightInside : rightStart + count ≤ right.length)
    (same : ∀ index < count, left[leftStart + index]? = right[rightStart + index]?) :
    slice left leftStart count = slice right rightStart count := by
  rw [slice, if_pos leftInside, slice, if_pos rightInside]
  congr 1
  apply ext_getElem?
  intro index
  by_cases inside : index < count
  · rw [List.getElem?_take_of_lt inside, List.getElem?_take_of_lt inside, List.getElem?_drop,
      List.getElem?_drop, same index inside]
  · rw [List.getElem?_take, List.getElem?_take, if_neg inside, if_neg inside]

/-- A slice of a slice is a slice. -/
theorem slice_slice {bytes part inner : Bytes} {start count offset size : Nat}
    (found : slice bytes start count = some part) (within : slice part offset size = some inner) :
    slice bytes (start + offset) size = some inner := by
  have length := slice_length found
  obtain ⟨inside, -⟩ := slice_eq_some.mp found
  obtain ⟨bounded, rfl⟩ := slice_eq_some.mp within
  have shifted : slice bytes (start + offset) size = slice part offset size := by
    apply slice_congr (by omega) bounded
    intro index small
    rw [add_assoc, ← slice_getElem? found (by omega)]
  rw [shifted]
  exact within

/-- Appending bytes keeps every slice. -/
theorem slice_of_prefix {bytes longer part : Bytes} (grown : bytes <+: longer)
    (found : slice bytes start count = some part) : slice longer start count = some part:= by
  obtain ⟨more, rfl⟩ := grown
  obtain ⟨inside, rfl⟩ := slice_eq_some.mp found
  have longerInside : start + count ≤ (bytes ++ more).length := by
    rw [length_append]
    omega
  have same : slice (bytes ++ more) start count = slice bytes start count := by
    apply slice_congr longerInside inside
    intro index small
    rw [List.getElem?_append_left (by omega)]
  rw [same]
  exact found

/-- What was appended is read at the old end. -/
theorem slice_appended (bytes part : Bytes) :
    slice (bytes ++ part) bytes.length part.length = some part := by
  rw [slice_eq_some, length_append, drop_left, take_length]
  exact ⟨le_refl _, rfl⟩

/-- An empty range is readable up to the end. -/
theorem slice_zero {bytes : Bytes} {start : Nat} (inside : start ≤ bytes.length) :
    slice bytes start 0 = some [] := by
  rw [slice_eq_some]
  exact ⟨inside, take_zero⟩

/-- The little-endian 32-bit number at a position, when its four bytes exist. -/
def u32At (bytes : Bytes) (start : Nat) : Option Nat := (slice bytes start 4).map leNat

theorem u32At_lt {bytes : Bytes} {start value : Nat} (found : u32At bytes start = some value) :
    value < 2 ^ 32 := by
  obtain ⟨part, taken, rfl⟩ := Option.map_eq_some_iff.mp found
  have bound := leNat_lt part
  rw [slice_length taken] at bound
  simpa using bound

/-- Replace the bytes from `start` on by `part`; every other byte keeps its place. -/
def overwrite (bytes : Bytes) (start : Nat) (part : Bytes) : Bytes :=
  bytes.take start ++ part ++ bytes.drop (start + part.length)

theorem overwrite_length {start : Nat} (inside : start + part.length ≤ bytes.length) :
    (overwrite bytes start part).length = bytes.length := by
  simp only [overwrite, length_append, length_take, length_drop]
  omega

/-- Inside the written range the new bytes are read, outside it the old ones. -/
theorem overwrite_getElem? {start : Nat} (inside : start + part.length ≤ bytes.length) (index : Nat) :
    (overwrite bytes start part)[index]? =
      if start ≤ index ∧ index < start + part.length then part[index - start]?
      else bytes[index]? := by
  have startInside : min start bytes.length = start := by omega
  unfold overwrite
  by_cases before : index < start
  · rw [if_neg (by omega), append_assoc, List.getElem?_append_left (by rw [length_take]; omega),
      List.getElem?_take_of_lt before]
  · by_cases within : index < start + part.length
    · rw [if_pos (by omega), append_assoc, List.getElem?_append_right (by rw [length_take]; omega),
        length_take, startInside, List.getElem?_append_left (by omega)]
    · rw [if_neg (by omega), List.getElem?_append_right (by rw [length_append, length_take]; omega),
        length_append, length_take, startInside, List.getElem?_drop]
      congr 1
      omega

/-- A range that the write does not meet is read as before. -/
theorem slice_overwrite_of_disjoint {start readStart count : Nat}
    (inside : start + part.length ≤ bytes.length)
    (apart : readStart + count ≤ start ∨ start + part.length ≤ readStart) :
    slice (overwrite bytes start part) readStart count = slice bytes readStart count := by
  by_cases fits : readStart + count ≤ bytes.length
  · apply slice_congr (by rw [overwrite_length inside]; exact fits) fits
    intro index bounded
    rw [overwrite_getElem? inside, if_neg (by omega)]
  · rw [slice, slice, overwrite_length inside, if_neg fits, if_neg fits]

/-- The written range is read as what was written. -/
theorem slice_overwrite_self {bytes part : Bytes} {start : Nat}
    (inside : start + part.length ≤ bytes.length) :
    slice (overwrite bytes start part) start part.length = some part := by
  rw [slice_eq_some, overwrite_length inside]
  refine ⟨inside, ?_⟩
  have headLength : (bytes.take start).length = start := by rw [length_take]; omega
  rw [overwrite, append_assoc, drop_left' headLength, take_left' rfl]

/-- Bytes written over as many of a byte string. -/
theorem overwrite_append {before own after part : Bytes} (same : part.length = own.length) :
    overwrite (before ++ (own ++ after)) before.length part = before ++ (part ++ after) := by
  rw [overwrite, take_left, same, ← drop_drop, drop_left, drop_left, append_assoc]

/-- A slice splits a byte string in three. -/
theorem slice_split (taken : slice bytes start count = some part) :
    ∃ before after, bytes = before ++ (part ++ after) ∧ before.length = start := by
  obtain ⟨inside, rfl⟩ := slice_eq_some.mp taken
  refine ⟨bytes.take start, bytes.drop (start + count), ?_, length_take_of_le (by omega)⟩
  rw [← drop_drop, take_append_drop, take_append_drop]

/-- The middle of three parts. -/
theorem slice_between {before part after : Bytes} :
    slice (before ++ (part ++ after)) before.length part.length = some part := by
  rw [slice_eq_some, drop_left, take_left]
  refine ⟨?_, rfl⟩
  rw [length_append, length_append]
  omega

/-- A slice behind a place is a slice of what stands behind it. -/
theorem slice_behind {bytes : Bytes} {start place count : Nat} (behind : start ≤ place)
    (bounded : start ≤ bytes.length) :
    slice (bytes.drop start) (place - start) count = slice bytes place count := by
  have same : start + (place - start) = place := Nat.add_sub_of_le behind
  have fits : place - start + count ≤ (bytes.drop start).length ↔ place + count ≤ bytes.length := by
    rw [length_drop]
    omega
  simp only [slice, drop_drop, same, fits]

/-- A write inside a range is a write to what the range holds. -/
theorem slice_overwrite_inside {bytes part whole : Bytes} {start count offset : Nat}
    (taken : slice bytes start count = some whole) (fits : offset + part.length ≤ count) :
    slice (overwrite bytes (start + offset) part) start count =
      some (overwrite whole offset part) := by
  have size := slice_length taken
  obtain ⟨before, after, rfl, rfl⟩ := slice_split taken
  have inner : slice whole offset part.length = some ((whole.drop offset).take part.length) :=
    slice_eq_some.mpr ⟨by omega, rfl⟩
  have same := slice_length inner
  obtain ⟨front, back, split, rfl⟩ := slice_split inner
  generalize (whole.drop front.length).take part.length = own at split same
  subst split
  have joined : before ++ (front ++ (own ++ back) ++ after) =
      (before ++ front) ++ (own ++ (back ++ after)) := by
    simp
  have rejoined : (before ++ front) ++ (part ++ (back ++ after)) =
      before ++ ((front ++ (part ++ back)) ++ after) := by
    simp
  have lengths : (front ++ (part ++ back)).length = count := by
    rw [← size]
    simp [same]
  rw [joined, ← length_append, overwrite_append same.symm, rejoined,
    overwrite_append same.symm, ← lengths]
  exact slice_between

/-- A 32-bit number that was written is read back modulo its width. -/
theorem u32At_overwrite_self {bytes : Bytes} {start value : Nat}
    (inside : start + 4 ≤ bytes.length) :
    u32At (overwrite bytes start (leBytes 4 value)) start = some (value % 2 ^ 32) := by
  have read := @slice_overwrite_self bytes (leBytes 4 value) start (by simpa using inside)
  rw [leBytes_length] at read
  rw [u32At, read, Option.map_some, leNat_leBytes, show 256 ^ 4 = 2 ^ 32 from rfl]

theorem u32At_overwrite_of_disjoint {start readStart : Nat}
    (inside : start + part.length ≤ bytes.length)
    (apart : readStart + 4 ≤ start ∨ start + part.length ≤ readStart) :
    u32At (overwrite bytes start part) readStart = u32At bytes readStart := by
  rw [u32At, u32At, slice_overwrite_of_disjoint inside apart]

/-- Of two strings of one length, the second differs from the first only at touched
positions. -/
structure Unchanged (before after : Bytes) (touched : Nat → Prop) : Prop where
  length : after.length = before.length
  same : ∀ index, ¬ touched index → after[index]? = before[index]?

theorem Unchanged.refl (bytes : Bytes) (touched : Nat → Prop) : Unchanged bytes bytes touched :=
  ⟨rfl, fun _ _ => rfl⟩

variable {before after : Bytes}

theorem Unchanged.mono {touched more : Nat → Prop} (kept : Unchanged before after touched)
    (covers : ∀ index, touched index → more index) : Unchanged before after more :=
  ⟨kept.length, fun index free => kept.same index fun hit => free (covers index hit)⟩

variable {touched : Nat → Prop}

theorem Unchanged.trans {first second third : Bytes} (before : Unchanged first second touched)
    (after : Unchanged second third touched) : Unchanged first third touched :=
  ⟨after.length.trans before.length,
    fun index free => (after.same index free).trans (before.same index free)⟩

theorem unchanged_overwrite {start : Nat} (inside : start + part.length ≤ bytes.length) :
    Unchanged bytes (overwrite bytes start part) fun index =>
      start ≤ index ∧ index < start + part.length :=
  ⟨overwrite_length inside, fun index free => by rw [overwrite_getElem? inside, if_neg free]⟩

/-- A range with no touched position is read as before. -/
theorem Unchanged.slice_eq (kept : Unchanged before after touched)
    (free : ∀ index, start ≤ index → index < start + count → ¬ touched index) :
    slice after start count = slice before start count := by
  by_cases fits : start + count ≤ before.length
  · refine slice_congr (by rw [kept.length]; exact fits) fits fun index bounded => ?_
    exact kept.same _ (free _ (by omega) (by omega))
  · rw [slice, slice, kept.length, if_neg fits, if_neg fits]

theorem Unchanged.u32At_eq (kept : Unchanged before after touched) {start : Nat}
    (free : ∀ index, start ≤ index → index < start + 4 → ¬ touched index) :
    u32At after start = u32At before start := by
  rw [u32At, u32At, kept.slice_eq free]

/-- Round a position up to the next multiple of four. -/
def align4 (position : Nat) : Nat := (position + 3) / 4 * 4

theorem align4_of_dvd {position : Nat} (aligned : 4 ∣ position) : align4 position = position := by
  unfold align4
  omega

theorem align4_dvd (position : Nat) : 4 ∣ align4 position := ⟨(position + 3) / 4, by
  unfold align4
  ring⟩

theorem le_align4 (position : Nat) : position ≤ align4 position := by
  unfold align4
  omega

end Bytes

end HermesDecomp
