import Mathlib.Data.List.DropRight
import HermesDecomp.File.Structure
import HermesDecomp.Library.Numeral

/-!
# Bigint constants

A bigint is stored as a little-endian two's complement byte string of any length. Up to eight
bytes are gathered into a signed 64-bit word; longer strings are turned into their magnitude
and divided by a power of ten, pass by pass, each pass giving nine decimal digits.
-/

namespace HermesDecomp.Parser

open Numeral Bytes List

/-- A byte string without the zero bytes at its high end. -/
def popZeros (limbs : Bytes) : Bytes := limbs.rdropWhile (· == 0)

/-- Divide a byte string, the highest byte first: the quotient and the remainder. -/
def divideBytes (chunk : UInt64) : Bytes → Bytes × UInt64
  | [] => ([], 0)
  | byte :: rest =>
    let (quotient, rem) := divideBytes chunk rest
    let cur := (rem <<< 8) ||| byte.toUInt64
    ((cur / chunk).toUInt8 :: quotient, cur % chunk)

/-- Nine decimal digits are divided off at a time. -/
def CHUNK : UInt64 := 1000000000

/-- The highest byte of a quotient by the chunk is zero. -/
theorem getLast?_divideBytes {limbs : Bytes} (nonempty : limbs ≠ []) :
    (divideBytes CHUNK limbs).1.getLast? = some 0 := by
  induction limbs with
  | nil => exact absurd rfl nonempty
  | cons byte rest ih =>
    cases rest with
    | nil =>
      have none : byte.toUInt64 / CHUNK = 0 := by
        apply UInt64.toNat_inj.mp
        have small : byte.toNat < 256 := byte.toNat_lt
        have chunk : CHUNK.toNat = 1000000000 := rfl
        rw [UInt64.toNat_div, UInt8.toNat_toUInt64, chunk]
        exact Nat.div_eq_of_lt (by omega)
      simp [divideBytes, none]
    | cons next rest =>
      have deeper := ih (by simp)
      generalize rest' : next :: rest = limbs at deeper
      have kept : (divideBytes CHUNK limbs).1 ≠ [] := by
        intro empty
        simp [empty] at deeper
      rw [divideBytes]
      dsimp only
      rw [List.getLast?_cons_of_ne_nil kept]
      exact deeper

theorem length_popZeros_le (limbs : Bytes) : (popZeros limbs).length ≤ limbs.length :=
  ( rdropWhile_prefix _ _).length_le

theorem length_divideBytes (chunk : UInt64) (limbs : Bytes) :
    (divideBytes chunk limbs).1.length = limbs.length := by
  induction limbs with
  | nil => rfl
  | cons byte rest ih => simp [divideBytes, ih]

/-- A pass leaves fewer bytes. -/
theorem length_pass_lt {limbs : Bytes} (nonempty : limbs ≠ []) :
    (popZeros (divideBytes CHUNK limbs).1).length < limbs.length := by
  have last := getLast?_divideBytes nonempty
  obtain ⟨low, split⟩ := List.getLast?_eq_some_iff.mp last
  have same := length_divideBytes CHUNK limbs
  have popped : popZeros (low ++ [0]) = popZeros low := rdropWhile_concat_pos _ _ _ rfl
  rw [split, popped]
  rw [split, length_append, length_singleton] at same
  exact lt_of_le_of_lt (length_popZeros_le low) (by omega)

/-- The groups of nine digits of a byte string, the lowest first. -/
def decimalChunks (limbs : Bytes) : List UInt32 :=
  if limbs = [] then [] else
    (divideBytes CHUNK limbs).2.toUInt32 :: decimalChunks (popZeros (divideBytes CHUNK limbs).1)
termination_by limbs.length
decreasing_by exact length_pass_lt ‹_›

/-- The decimal text of a little-endian magnitude. -/
def toDecimalLe (bytes : Bytes) : Text :=
  let limbs := popZeros bytes
  if limbs = [] then ['0']
  else
    match (decimalChunks limbs).reverse with
    | [] => Nat.toDigits 10 0
    | top :: rest => rest.foldl (fun out c => out ++ padded 9 c.toNat) (Nat.toDigits 10 top.toNat)

/-- Add a carry to a byte string, up to the byte that takes it. -/
def addCarry : UInt16 → Bytes → Bytes
  | _, [] => []
  | carry, b :: rest =>
    let v := b.toUInt16 + carry
    let carry := v >>> 8
    v.toUInt8 :: if carry = 0 then rest else addCarry carry rest

/-- Whether the sign bit of a byte string is set. -/
def signBit (bytes : Bytes) : Bool := bytes.getLast?.any fun b => b &&& 0x80 != 0

/-- The decimal text of a little-endian two's complement integer of any width. -/
def twosComplementLeToDecimal (bytes : Bytes) : Text :=
  let negative := signBit bytes
  let magnitude := if negative then addCarry 1 (bytes.map (~~~ ·)) else bytes
  let digits := toDecimalLe magnitude
  if negative ∧ digits ≠ ['0'] then '-' :: digits else digits

/-- Gather at most eight bytes into a signed word. -/
def gather (bytes : Bytes) : Int64 :=
  bytes.zipIdx.foldl
    (fun value (byte, i) => value ||| (byte.toUInt64.toInt64 <<< Int64.ofNat (i * 8))) 0

/-- Gather at most eight bytes and extend their sign. -/
def smallBigint (bytes : Bytes) : Int64 :=
  if signBit bytes ∧ bytes.length < 8 then
    gather bytes ||| (~~~ (0 : Int64)) <<< Int64.ofNat (bytes.length * 8)
  else gather bytes

/-- The sum of two sizes, when it is a size. -/
def checkedAdd (a b : Nat) : Option Nat := if a + b < 2 ^ 64 then some (a + b) else none

/-- The decimal text of a bigint constant. -/
def bigintAt (file : BytecodeFile) (bigintId : Nat) : Option Text := do
  let entry ← file.bigIntTable[bigintId]?
  let start := entry.offset
  let finish ← checkedAdd start entry.length
  if finish > file.bigIntStorage.length then none
  else
    let bytes := (file.bigIntStorage.drop start).take (finish - start)
    if bytes = [] then some ['0']
    else if bytes.length ≤ 8 then some (decimal (smallBigint bytes).toInt)
    else some (twosComplementLeToDecimal bytes)

/-- The integer that a little-endian two's complement byte string denotes. -/
def denoted (bytes : Bytes) : Int :=
  if 2 * leNat bytes < 256 ^ bytes.length then leNat bytes
  else leNat bytes - 256 ^ bytes.length

theorem leNat_append (low high : Bytes) :
    leNat (low ++ high) = leNat low + 256 ^ low.length * leNat high := by
  induction low with
  | nil => simp [leNat]
  | cons byte rest ih =>
    rw [cons_append, leNat, leNat, ih, length_cons, pow_succ]
    ring

/-- The high bit of a byte stands for its half. -/
theorem highBit : ∀ top : Fin 256, (UInt8.ofFin top &&& 0x80 != 0) = true ↔ 128 ≤ top.val := by
  decide +kernel

/-- The sign bit stands for the half of the width. -/
theorem signBit_iff (bytes : Bytes) :
    signBit bytes = true ↔ 256 ^ bytes.length ≤ 2 * leNat bytes := by
  induction bytes using List.reverseRec with
  | nil => simp [signBit, leNat]
  | append_singleton low top _ =>
    have rest := leNat_lt low
    have bit : (top &&& 0x80 != 0) = true ↔ 128 ≤ top.toNat := highBit top.toFin
    have value : leNat (low ++ [top]) = leNat low + 256 ^ low.length * top.toNat := by
      simp [leNat_append, leNat]
    simp only [signBit, List.getLast?_concat, Option.any_some, bit, value, length_append,
      length_singleton, pow_succ]
    generalize 256 ^ low.length = width at rest
    constructor
    · intro high
      have := Nat.mul_le_mul_left width high
      omega
    · intro large
      by_contra small
      have := Nat.mul_le_mul_left width (show top.toNat ≤ 127 by omega)
      omega

/-- Zero bytes at the high end denote nothing. -/
theorem leNat_popZeros (limbs : Bytes) : leNat (popZeros limbs) = leNat limbs := by
  induction limbs using List.reverseRec with
  | nil => rfl
  | append_singleton low top ih =>
    unfold popZeros at ih ⊢
    rw [rdropWhile_concat]
    split
    case isTrue zero =>
      obtain rfl : top = 0 := by simpa using zero
      rw [ih, leNat_append]
      simp [leNat]
    case isFalse => rfl

/-- A byte string without high zero bytes denotes zero only when it is empty. -/
theorem leNat_popZeros_pos {limbs : Bytes} (some : popZeros limbs ≠ []) :
    0 < leNat (popZeros limbs) := by
  have last := rdropWhile_last_not (· == 0) limbs some
  have split := dropLast_append_getLast some
  rw [← split, leNat_append]
  have positive : 0 < ((popZeros limbs).getLast some).toNat := by
    refine pos_of_ne_zero fun zero => last ?_
    exact beq_iff_eq.mpr (UInt8.toNat_inj.mp zero)
  have wide : 0 < 256 ^ (popZeros limbs).dropLast.length := by positivity
  have := Nat.mul_pos wide positive
  simp only [leNat, mul_zero, add_zero]
  omega

/-- A byte shifted in behind a small remainder. -/
theorem toNat_shifted {rem : UInt64} (small : rem < CHUNK) (byte : UInt8) :
    ((rem <<< 8) ||| byte.toUInt64).toNat = rem.toNat * 256 + byte.toNat := by
  have chunk : CHUNK.toNat = 1000000000 := rfl
  have bound : rem.toNat < 1000000000 := UInt64.lt_iff_toNat_lt.mp small
  have low : byte.toNat < 2 ^ 8 := byte.toNat_lt
  have eight : (8 : UInt64).toNat % 64 = 8 := rfl
  rw [UInt64.toNat_or, UInt64.toNat_shiftLeft, eight, UInt8.toNat_toUInt64,
    Nat.mod_eq_of_lt (by rw [Nat.shiftLeft_eq]; omega), ← Nat.shiftLeft_add_eq_or_of_lt low,
    Nat.shiftLeft_eq]

/-- Dividing a byte string by the chunk divides the number it denotes. -/
theorem divideBytes_spec (limbs : Bytes) :
    (divideBytes CHUNK limbs).2 < CHUNK ∧
      leNat limbs = 1000000000 * leNat (divideBytes CHUNK limbs).1 +
        (divideBytes CHUNK limbs).2.toNat := by
  induction limbs with
  | nil => exact ⟨by decide, rfl⟩
  | cons byte rest ih =>
    obtain ⟨small, value⟩ := ih
    have chunk : CHUNK.toNat = 1000000000 := rfl
    have bound : (divideBytes CHUNK rest).2.toNat < 1000000000 := UInt64.lt_iff_toNat_lt.mp small
    have low : byte.toNat < 256 := byte.toNat_lt
    have cur := toNat_shifted small byte
    simp only [divideBytes, leNat]
    generalize ((divideBytes CHUNK rest).2 <<< 8) ||| byte.toUInt64 = shifted at cur
    refine ⟨?_, ?_⟩
    · rw [UInt64.lt_iff_toNat_lt, UInt64.toNat_mod, chunk]
      exact Nat.mod_lt _ (by omega)
    · have quotient : ((shifted / CHUNK).toUInt8).toNat = shifted.toNat / 1000000000 := by
        rw [UInt64.toNat_toUInt8, UInt64.toNat_div, chunk]
        exact Nat.mod_eq_of_lt (by omega)
      rw [quotient, UInt64.toNat_mod, chunk, cur, value]
      omega

/-- The number that groups of nine digits stand for, the lowest first. -/
def chunksNat : List UInt32 → Nat
  | [] => 0
  | c :: rest => c.toNat + 1000000000 * chunksNat rest

/-- The groups of a byte string stand for the number it denotes, and fit nine digits each. -/
theorem decimalChunks_spec (limbs : Bytes) :
    chunksNat (decimalChunks limbs) = leNat limbs ∧
      ∀ c ∈ decimalChunks limbs, c.toNat < 1000000000 := by
  induction limbs using decimalChunks.induct with
  | case1 =>
    rw [decimalChunks]
    simp [chunksNat, leNat]
  | case2 limbs nonempty ih =>
    obtain ⟨small, value⟩ := divideBytes_spec limbs
    obtain ⟨restValue, restSmall⟩ := ih
    have bound : (divideBytes CHUNK limbs).2.toNat < 1000000000 := UInt64.lt_iff_toNat_lt.mp small
    have kept : (divideBytes CHUNK limbs).2.toUInt32.toNat = (divideBytes CHUNK limbs).2.toNat := by
      rw [UInt64.toNat_toUInt32]
      exact Nat.mod_eq_of_lt (by omega)
    rw [decimalChunks, if_neg nonempty]
    refine ⟨?_, ?_⟩
    · rw [chunksNat, restValue, leNat_popZeros, kept, value]
      omega
    · intro c member
      rcases mem_cons.mp member with rfl | deeper
      · rw [kept]
        exact bound
      · exact restSmall c deeper

/-- The highest group of a byte string without high zero bytes is not zero. -/
theorem getLast?_decimalChunks {limbs : Bytes} (trimmed : popZeros limbs = limbs) :
    ∀ c, (decimalChunks limbs).getLast? = some c → 0 < c.toNat := by
  induction limbs using decimalChunks.induct with
  | case1 =>
    rw [decimalChunks]
    simp
  | case2 limbs nonempty ih =>
    intro c last
    rw [decimalChunks, if_neg nonempty] at last
    by_cases done : popZeros (divideBytes CHUNK limbs).1 = []
    · obtain ⟨small, value⟩ := divideBytes_spec limbs
      have bound : (divideBytes CHUNK limbs).2.toNat < 1000000000 := UInt64.lt_iff_toNat_lt.mp small
      have quotient : leNat (divideBytes CHUNK limbs).1 = 0 := by
        rw [← leNat_popZeros, done]
        rfl
      have positive : 0 < leNat limbs := trimmed ▸ leNat_popZeros_pos (by rwa [trimmed])
      rw [done, decimalChunks, if_pos rfl, List.getLast?_singleton, Option.some.injEq] at last
      rw [← last, UInt64.toNat_toUInt32, Nat.mod_eq_of_lt (by omega)]
      omega
    · have more : decimalChunks (popZeros (divideBytes CHUNK limbs).1) ≠ [] := by
        rw [decimalChunks, if_neg done]
        simp
      rw [List.getLast?_cons_of_ne_nil more] at last
      exact ih (rdropWhile_idempotent _ _) c last

/-- Writing groups behind the digits of a number writes the number with the groups. -/
theorem foldl_padded (groups : List UInt32) (small : ∀ c ∈ groups, c.toNat < 1000000000)
    {high : Nat} (positive : 0 < high) :
    groups.foldl (fun out c => out ++ padded 9 c.toNat) (Nat.toDigits 10 high) =
      Nat.toDigits 10 (groups.foldl (fun high c => c.toNat + 1000000000 * high) high) := by
  induction groups generalizing high with
  | nil => rfl
  | cons c rest ih =>
    have fits : c.toNat < 10 ^ 9 := small c mem_cons_self
    have next : high * 10 ^ 9 + c.toNat = c.toNat + 1000000000 * high := by omega
    rw [foldl_cons, foldl_cons, ← toDigits_mul_add positive (by omega) fits, next]
    exact ih (fun d member => small d (mem_cons_of_mem c member)) (by omega)

theorem chunksNat_eq_foldr (groups : List UInt32) :
    chunksNat groups = groups.foldr (fun c high => c.toNat + 1000000000 * high) 0 := by
  induction groups with
  | nil => rfl
  | cons c rest ih => rw [chunksNat, ih, foldr_cons]

/-- The decimal text of a magnitude is the digits of the number it denotes. -/
theorem toDecimalLe_eq (bytes : Bytes) : toDecimalLe bytes = Nat.toDigits 10 (leNat bytes) := by
  unfold toDecimalLe
  dsimp only
  split
  case isTrue empty =>
    have zero : leNat bytes = 0 := by
      rw [← leNat_popZeros, empty]
      rfl
    rw [zero, Nat.toDigits_zero]
  case isFalse nonempty =>
    obtain ⟨value, small⟩ := decimalChunks_spec (popZeros bytes)
    have highest := @getLast?_decimalChunks (popZeros bytes) (rdropWhile_idempotent _ _)
    rw [leNat_popZeros, chunksNat_eq_foldr, ← foldl_reverse] at value
    rw [← List.head?_reverse] at highest
    have members : ∀ c ∈ (decimalChunks (popZeros bytes)).reverse, c.toNat < 1000000000 :=
      fun c member => small c (mem_reverse.mp member)
    generalize (decimalChunks (popZeros bytes)).reverse = groups at value highest members
    cases groups with
    | nil => exact congrArg (Nat.toDigits 10) value
    | cons top rest =>
      have positive : 0 < top.toNat := highest top List.head?_cons
      dsimp only
      rw [foldl_padded rest (fun c member => members c (mem_cons_of_mem top member)) positive,
        ← value]
      simp

/-- The complement of a byte string denotes what is missing to the largest number. -/
theorem leNat_complement (bytes : Bytes) :
    leNat (bytes.map (~~~ ·)) + leNat bytes + 1 = 256 ^ bytes.length := by
  induction bytes with
  | nil => rfl
  | cons byte rest ih =>
    have low : byte.toNat < 256 := byte.toNat_lt
    have flipped : (~~~byte).toNat = 255 - byte.toNat := UInt8.toNat_not byte
    rw [map_cons, leNat, leNat, length_cons, pow_succ, flipped]
    omega

/-- A carry of one is added, modulo the width. -/
theorem leNat_addCarry {carry : UInt16} (small : carry.toNat ≤ 1) (bytes : Bytes) :
    leNat (addCarry carry bytes) = (leNat bytes + carry.toNat) % 256 ^ bytes.length := by
  induction bytes generalizing carry with
  | nil => simp [addCarry, leNat, Nat.mod_one]
  | cons b rest ih =>
    have low : b.toNat < 256 := b.toNat_lt
    have bound := leNat_lt rest
    have sum : (b.toUInt16 + carry).toNat = b.toNat + carry.toNat := by
      rw [UInt16.toNat_add, UInt8.toNat_toUInt16]
      exact Nat.mod_eq_of_lt (by omega)
    have carried : ((b.toUInt16 + carry) >>> 8).toNat = (b.toNat + carry.toNat) / 256 := by
      rw [UInt16.toNat_shiftRight, sum, Nat.shiftRight_eq_div_pow]
      rfl
    have kept : (b.toUInt16 + carry).toUInt8.toNat = (b.toNat + carry.toNat) % 256 := by
      rw [UInt16.toNat_toUInt8, sum]
    have step : leNat (addCarry carry (b :: rest)) = (b.toNat + carry.toNat) % 256 +
        256 * ((leNat rest + (b.toNat + carry.toNat) / 256) % 256 ^ rest.length) := by
      rw [addCarry, leNat, kept]
      split
      case isTrue zero =>
        rw [zero] at carried
        rw [← carried, UInt16.toNat_zero, add_zero, Nat.mod_eq_of_lt bound]
      case isFalse => rw [ih (by omega), carried]
    have head : (b.toNat + 256 * leNat rest + carry.toNat) % 256 =
        (b.toNat + carry.toNat) % 256 := by omega
    have tail : (b.toNat + 256 * leNat rest + carry.toNat) / 256 =
        leNat rest + (b.toNat + carry.toNat) / 256 := by omega
    rw [step, leNat, length_cons, pow_succ, mul_comm (256 ^ rest.length), Nat.mod_mul, head, tail]

/-- The wide path writes the canonical numeral of what the byte string denotes. -/
theorem twosComplementLeToDecimal_eq (bytes : Bytes) :
    twosComplementLeToDecimal bytes = decimal (denoted bytes) := by
  have bound := leNat_lt bytes
  unfold twosComplementLeToDecimal denoted
  dsimp only
  by_cases negative : signBit bytes = true
  · have half := (signBit_iff bytes).mp negative
    have flipped := leNat_complement bytes
    have magnitude : leNat (addCarry 1 (bytes.map (~~~ ·))) =
        256 ^ bytes.length - leNat bytes := by
      rw [leNat_addCarry (by decide), UInt16.toNat_one, length_map]
      refine (Nat.mod_eq_of_lt ?_).trans ?_ <;> omega
    have width : 0 < 256 ^ bytes.length := by positivity
    have below : (leNat bytes : Int) - 256 ^ bytes.length < 0 := by
      have := Int.ofNat_lt.mpr bound
      push_cast at this
      omega
    have absolute : ((leNat bytes : Int) - 256 ^ bytes.length).natAbs =
        256 ^ bytes.length - leNat bytes := by
      have cast : ((256 ^ bytes.length : Nat) : Int) = 256 ^ bytes.length := by push_cast; rfl
      omega
    have digits : Nat.toDigits 10 (256 ^ bytes.length - leNat bytes) ≠ ['0'] := by
      intro zero
      refine @head_toDigits (256 ^ bytes.length - leNat bytes) (by omega) ?_
      rw [zero, List.head?_cons]
    rw [if_pos negative, toDecimalLe_eq, magnitude, if_pos ⟨negative, digits⟩,
      if_neg (by omega), decimal, if_pos below, absolute]
  · have half := mt (signBit_iff bytes).mpr negative
    rw [if_neg negative, toDecimalLe_eq, if_neg (fun both => negative both.1),
      if_pos (by omega), decimal, if_neg (by omega), Int.natAbs_natCast]

/-- A byte shifted to a place behind what is there already. -/
theorem toNat_placed {value : Int64} {i : Nat} {byte : UInt8} (place : i < 8)
    (below : value.toBitVec.toNat < 256 ^ i) :
    (value ||| (byte.toUInt64.toInt64 <<< Int64.ofNat (i * 8))).toBitVec.toNat =
      value.toBitVec.toNat + 256 ^ i * byte.toNat := by
  have low : byte.toNat < 256 := byte.toNat_lt
  have power : 256 ^ i = 2 ^ (i * 8) := by rw [mul_comm, Nat.pow_mul]
  have amount : (Int64.ofNat (i * 8)).toBitVec.smod 64 = BitVec.ofNat 64 (i * 8) := by
    interval_cases i <;> decide
  have cast : (BitVec.ofNat 64 (i * 8)).toNat = i * 8 := by
    rw [BitVec.toNat_ofNat]
    exact Nat.mod_eq_of_lt (by omega)
  have fits : byte.toNat * 2 ^ (i * 8) < 2 ^ 64 := by
    calc byte.toNat * 2 ^ (i * 8) < 2 ^ 8 * 2 ^ (i * 8) :=
          Nat.mul_lt_mul_of_pos_right low (by positivity)
      _ = 2 ^ (8 + i * 8) := (pow_add 2 8 (i * 8)).symm
      _ ≤ 2 ^ 64 := Nat.pow_le_pow_right (by omega) (by omega)
  rw [Int64.toBitVec_or, Int64.toBitVec_shiftLeft, amount, BitVec.toNat_or, BitVec.shiftLeft_eq',
    BitVec.toNat_shiftLeft, cast, UInt64.toBitVec_toInt64, UInt64.toNat_toBitVec byte.toUInt64,
    UInt8.toNat_toUInt64, Nat.shiftLeft_eq, Nat.mod_eq_of_lt fits, Nat.or_comm,
    ← Nat.shiftLeft_eq, ← Nat.shiftLeft_add_eq_or_of_lt (power ▸ below), Nat.shiftLeft_eq, power]
  ring

/-- Bytes gathered from a place on are added at that place. -/
theorem toNat_gatherFrom (bytes : Bytes) {value : Int64} {i : Nat} (room : i + bytes.length ≤ 8)
    (below : value.toBitVec.toNat < 256 ^ i) :
    ((bytes.zipIdx i).foldl (fun value (byte, i) =>
      value ||| (byte.toUInt64.toInt64 <<< Int64.ofNat (i * 8))) value).toBitVec.toNat =
        value.toBitVec.toNat + 256 ^ i * leNat bytes := by
  induction bytes generalizing value i with
  | nil => simp [leNat]
  | cons byte rest ih =>
    rw [length_cons] at room
    have low : byte.toNat < 256 := byte.toNat_lt
    have placed := @toNat_placed value i byte (by omega) below
    have next : (value ||| (byte.toUInt64.toInt64 <<< Int64.ofNat (i * 8))).toBitVec.toNat <
        256 ^ (i + 1) := by
      have := Nat.mul_le_mul_left (256 ^ i) (show byte.toNat ≤ 255 by omega)
      rw [placed, pow_succ]
      omega
    rw [zipIdx_cons, foldl_cons, ih (by omega) next, placed, leNat, pow_succ]
    ring

/-- Gathering at most eight bytes gives the number they denote. -/
theorem toNat_gather {bytes : Bytes} (short : bytes.length ≤ 8) :
    (gather bytes).toBitVec.toNat = leNat bytes := by
  have gathered := @toNat_gatherFrom bytes 0 0 (by omega) (by decide)
  simpa [gather] using gathered

/-- All ones shifted to a place are what is missing there to the full word. -/
theorem toNat_ones {count : Nat} (short : count < 8) :
    ((~~~ (0 : Int64)) <<< Int64.ofNat (count * 8)).toBitVec.toNat =
      (2 ^ (64 - count * 8) - 1) <<< (count * 8) := by
  interval_cases count <;> decide

/-- The narrow path gives what the byte string denotes. -/
theorem toInt_smallBigint {bytes : Bytes} (short : bytes.length ≤ 8) :
    (smallBigint bytes).toInt = denoted bytes := by
  have bound := leNat_lt bytes
  have gathered := toNat_gather short
  have sign := signBit_iff bytes
  have power : 256 ^ bytes.length = 2 ^ (bytes.length * 8) := by rw [mul_comm, Nat.pow_mul]
  rw [Int64.toInt, BitVec.toInt_eq_toNat_cond, denoted]
  unfold smallBigint
  split
  case isTrue extended =>
    obtain ⟨negative, shorter⟩ := extended
    have half := sign.mp negative
    have word : (gather bytes ||| (~~~ (0 : Int64)) <<< Int64.ofNat (bytes.length * 8)).toBitVec.toNat
        = (2 ^ (64 - bytes.length * 8) - 1) * 2 ^ (bytes.length * 8) + leNat bytes := by
      rw [Int64.toBitVec_or, BitVec.toNat_or, toNat_ones shorter, gathered, Nat.or_comm,
        ← Nat.shiftLeft_add_eq_or_of_lt (power ▸ bound), Nat.shiftLeft_eq]
    rw [word, if_neg (not_lt.mpr half)]
    generalize bytes.length = count at *
    generalize leNat bytes = value at *
    interval_cases count <;> simp at * <;> omega
  case isFalse kept =>
    rw [gathered]
    by_cases negative : signBit bytes = true
    · have full : bytes.length = 8 := by
        by_contra shorter
        exact kept ⟨negative, by omega⟩
      rw [full]
      rfl
    · have half := mt sign.mpr negative
      have fits : 256 ^ bytes.length ≤ 256 ^ 8 := Nat.pow_le_pow_right (by omega) short
      rw [if_pos (by omega), if_pos (by omega)]

/-- A bigint constant prints exactly: for every byte string stored for it, of any length, the
text is the canonical decimal numeral of the integer that the little-endian two's complement
byte string denotes. -/
theorem bigintAt_canonical (file : BytecodeFile) (bigintId : Nat) (entry : TableEntry)
    (bytes : Bytes) (listed : file.bigIntTable[bigintId]? = some entry)
    (addressed : entry.offset < 2 ^ 32 ∧ entry.length < 2 ^ 32)
    (stored : Bytes.slice file.bigIntStorage entry.offset entry.length = some bytes) :
    ∃ text, bigintAt file bigintId = some text ∧ Canonical text (denoted bytes) := by
  obtain ⟨inside, rfl⟩ := Bytes.slice_eq_some.mp stored
  refine ⟨_, ?_, canonical_decimal _⟩
  have sum : checkedAdd entry.offset entry.length = some (entry.offset + entry.length) :=
    if_pos (by omega)
  simp only [bigintAt, listed, sum, Option.bind_eq_bind, Option.bind_some, gt_iff_lt,
    not_lt.mpr inside, if_false, Nat.add_sub_cancel_left]
  split
  case isTrue empty =>
    rw [empty]
    rfl
  case isFalse =>
    split
    case isTrue short => rw [toInt_smallBigint short]
    case isFalse => rw [twosComplementLeToDecimal_eq]

/-- A modern image that stores one bigint of nine bytes and one of a single byte. -/
def twoBigints : BytecodeFile where
  header :=
    { magic := 0, version := 96, sourceHash := [], fileLength := 0, globalCodeIndex := 0,
      functionCount := 0, stringKindCount := 0, identifierCount := 0, stringCount := 0,
      overflowStringCount := 0, stringStorageSize := 0, bigIntCount := some 2,
      bigIntStorageSize := some 10, regExpCount := 0, regExpStorageSize := 0,
      literalValueBufferSize := none, arrayBufferSize := none, objKeyBufferSize := 0,
      objValueBufferSize := none, objShapeTableCount := none, numStringSwitchImms := none,
      segmentId := none, cjsModuleOffset := none, cjsModuleCount := 0,
      functionSourceCount := none, debugInfoOffset := 0, optionsRaw := 0, layout := .modern,
      functionHeaderLayout := .modern12 }
  functionHeaders := []
  stringKinds := []
  identifierHashes := []
  strings := []
  bigIntTable := [⟨0, 9⟩, ⟨9, 1⟩]
  bigIntStorage := [0, 0, 0, 0, 0, 0, 0, 0, 0xff, 0x80]
  regExpTable := []
  regExpStorage := []
  arrayBuffer := []
  literalValueBuffer := []
  objKeyBuffer := []
  objValueBuffer := []
  objShapeTable := []
  cjsModuleTable := []
  functionSourceTable := []
  instructionOffset := 0
  instructions := []
  debugInfo := none
  debugInfoStatus := .absent
  exceptionHandlers := []
  sections := []
  diagnostics := []
  rawBytes := none

theorem bigintAt_canonical_wide :
    ∃ text, bigintAt twoBigints 0 = some text ∧ Canonical text (-18446744073709551616) :=
  bigintAt_canonical twoBigints 0 ⟨0, 9⟩ [0, 0, 0, 0, 0, 0, 0, 0, 0xff] rfl (by decide) (by decide)

example : bigintAt twoBigints 1 = some "-128".toList := by decide +kernel

end HermesDecomp.Parser
