import HermesDecomp.Io

/-!
# Signed LEB128 numbers

The address deltas of a relocated location stream are written seven bits a byte, the low group
first. Reading back what was written gives the number and stops behind its last byte.
-/

namespace HermesDecomp

open Reader Action

/-- The SLEB128 bytes of a signed number. The last group's sign bit agrees with the bits above
it, which are all zero or all one. -/
def encodeSleb128 (value : Int) : Bytes :=
  let byte := (UInt8.ofNat (value % 256).toNat) &&& 0x7f
  let next := value >>> (7 : Nat)
  if (next = 0 ∧ byte &&& 0x40 = 0) ∨ (next = -1 ∧ byte &&& 0x40 ≠ 0) then [byte]
  else (byte ||| 0x80) :: encodeSleb128 next
termination_by value.natAbs
decreasing_by
  rename_i going
  simp only [Int.shiftRight_eq_div_pow] at going ⊢
  have positive : value ≠ 0 := by
    rintro rfl
    exact going (by decide)
  have negative : value ≠ -1 := by
    rintro rfl
    exact going (by decide)
  omega

/-- The low seven bits of a number as a byte of a group. -/
theorem group_bits : ∀ group < 128,
    ((UInt8.ofNat group).toNat &&& 0x7f = group ∧ continues (UInt8.ofNat group) = false ∧
      ((UInt8.ofNat group).toNat &&& 0x40 ≠ 0 ↔ 64 ≤ group)) ∧
    ((UInt8.ofNat group ||| 0x80).toNat &&& 0x7f = group ∧
      continues (UInt8.ofNat group ||| 0x80) = true) ∧
    (UInt8.ofNat group &&& 0x40 = 0 ↔ group < 64) := by
  decide

/-- One round of the encoder in numbers. -/
theorem encodeSleb128_eq (value : Int) :
    encodeSleb128 value =
      if (value / 128 = 0 ∧ (value % 128).toNat < 64) ∨
          (value / 128 = -1 ∧ 64 ≤ (value % 128).toNat) then
        [UInt8.ofNat (value % 128).toNat]
      else (UInt8.ofNat (value % 128).toNat ||| 0x80) :: encodeSleb128 (value / 128) := by
  have low : (UInt8.ofNat (value % 256).toNat) &&& 0x7f = UInt8.ofNat (value % 128).toNat := by
    apply UInt8.toNat_inj.mp
    have masked := Nat.and_two_pow_sub_one_eq_mod (value % 256).toNat 7
    simp only [UInt8.toNat_and, UInt8.toNat_ofNat, UInt8.toNat_ofNat']
    norm_num at masked ⊢
    rw [Nat.mod_eq_of_lt (by omega), masked]
    omega
  obtain ⟨-, -, sign⟩ := group_bits (value % 128).toNat (by omega)
  rw [encodeSleb128]
  simp only [low, Int.shiftRight_eq_div_pow, ne_eq, sign, not_lt]
  rfl

/-- A group joins the bits below it. -/
theorem or_payload {low shift group : Nat} {byte : UInt8} (below : low < 2 ^ shift)
    (bits : byte.toNat &&& 0x7f = group) :
    BitVec.ofNat 64 low ||| payload byte shift = BitVec.ofNat 64 (group * 2 ^ shift + low) := by
  have joined := Nat.shiftLeft_add_eq_or_of_lt below group
  rw [Nat.shiftLeft_eq] at joined
  rw [joined, BitVec.ofNat_or, BitVec.or_comm, payload, bits]
  congr 1
  apply BitVec.eq_of_toNat_eq
  simp [Nat.shiftLeft_eq]

/-- Ones above a number subtract the power below them. -/
theorem or_allOnes {low shift : Nat} (below : low < 2 ^ shift) (fits : shift < 64) :
    BitVec.ofNat 64 low ||| BitVec.allOnes 64 <<< shift = BitVec.ofInt 64 (low - 2 ^ shift) := by
  have ones : ∀ shift < 64, BitVec.allOnes 64 <<< shift = BitVec.ofInt 64 (-2 ^ shift) := by decide
  have disjoint : BitVec.ofNat 64 low &&& BitVec.allOnes 64 <<< shift = 0#64 := by
    apply BitVec.eq_of_getLsbD_eq
    intro place _
    by_cases inside : place < shift
    · simp [inside]
    · have above : 2 ^ shift ≤ 2 ^ place := Nat.pow_le_pow_right (by decide) (by omega)
      simp [BitVec.getLsbD_ofNat, Nat.testBit_lt_two_pow (below.trans_le above)]
  rw [← BitVec.add_eq_or_of_and_eq_zero _ _ disjoint, ones shift fits, Int.sub_eq_add_neg,
    BitVec.ofInt_add, BitVec.ofInt_natCast]

/-- A group above the bits read so far stays below the next group's place. -/
theorem joined_lt {low shift group : Nat} (below : low < 2 ^ shift) (small : group < 128) :
    group * 2 ^ shift + low < 2 ^ (shift + 7) := by
  have groups := Nat.mul_le_mul_right (2 ^ shift) (show group + 1 ≤ 128 by omega)
  rw [add_mul] at groups
  rw [pow_add]
  omega

/-- The last group closes the number: its sign bit, where bits are left, is the sign. -/
theorem toInt_last {value : Int} {low shift group : Nat}
    (last : (value / 128 = 0 ∧ group < 64) ∨ (value / 128 = -1 ∧ 64 ≤ group))
    (parts : value = value / 128 * 128 + group) (below : low < 2 ^ shift)
    (least : -2 ^ 63 ≤ value * 2 ^ shift + low) (most : value * 2 ^ shift + low < 2 ^ 63)
    (whole : shift < 57 ∨ shift = 63) (small : group < 128) :
    (if shift + 7 < 64 ∧ 64 ≤ group then
        BitVec.ofNat 64 (group * 2 ^ shift + low) ||| BitVec.allOnes 64 <<< (shift + 7)
      else BitVec.ofNat 64 (group * 2 ^ shift + low)).toInt = value * 2 ^ shift + low := by
  rw [← @BitVec.toInt_ofInt_eq_self 64 (by decide) (value * 2 ^ shift + low) least most]
  congr 1
  rcases last with ⟨zero, positive⟩ | ⟨minus, negative⟩
  · rw [if_neg (by omega), ← BitVec.ofInt_natCast, parts, zero]
    simp
  · have split : value * 2 ^ shift + low = (group * 2 ^ shift + low : Nat) - 2 ^ (shift + 7) := by
      rw [parts, minus, pow_add]
      push_cast
      ring
    rw [split]
    rcases whole with room | rfl
    · rw [if_pos ⟨by omega, negative⟩, or_allOnes (joined_lt below small) (by omega)]
    · rw [if_neg (by omega), Int.sub_eq_add_neg, BitVec.ofInt_add, BitVec.ofInt_natCast]
      exact (BitVec.add_zero _).symm

/-- What stands before the end of a reader after it read some bytes. -/
def Passed (reader final : ByteReader) (count : Nat) : Prop :=
  final.data = reader.data ∧ final.pos = reader.pos + count

/-- Reading the first of the bytes left. -/
theorem nextByte_of_drop {reader : ByteReader} {byte : UInt8} {rest : Bytes} (atEnd : Error)
    (left : reader.data.drop reader.pos = byte :: rest) :
    ∃ next, nextByte atEnd reader = (.ok byte, next) ∧ Passed reader next 1 ∧
      next.data.drop next.pos = rest := by
  have inside : reader.pos < reader.data.length := by
    by_contra outside
    simp [List.drop_eq_nil_of_le (not_lt.mp outside)] at left
  rw [List.drop_eq_getElem_cons inside, List.cons.injEq] at left
  obtain ⟨first, others⟩ := left
  refine ⟨{ reader with pos := reader.pos + 1, inside }, ?_, ⟨rfl, rfl⟩, others⟩
  simp [nextByte, dif_pos inside, first]

/-- From any group on, the decoder reads what the encoder wrote of the bits left, above the bits
already read. -/
theorem sleb128From_encodeSleb128 {fuel shift low : Nat} {value : Int} {reader : ByteReader}
    {rest : Bytes} (left : reader.data.drop reader.pos = encodeSleb128 value ++ rest)
    (enough : 64 ≤ 7 * fuel + shift) (whole : shift % 7 = 0) (fits : shift < 64)
    (below : low < 2 ^ shift) (least : -2 ^ 63 ≤ value * 2 ^ shift + low)
    (most : value * 2 ^ shift + low < 2 ^ 63) :
    ∃ final, sleb128From fuel shift (BitVec.ofNat 64 low) reader =
      (.ok (value * 2 ^ shift + low), final) ∧
      Passed reader final (encodeSleb128 value).length := by
  induction fuel generalizing shift low value reader with
  | zero => omega
  | succ fuel ih =>
    have power : (2 : Int) ^ (shift + 7) = 128 * 2 ^ shift := by ring
    obtain ⟨⟨bits, stops, sign⟩, ⟨bits', goes⟩, -⟩ := group_bits (value % 128).toNat (by omega)
    obtain ⟨group, isGroup⟩ : ∃ group, (value % 128).toNat = group := ⟨_, rfl⟩
    rw [isGroup] at bits stops sign bits' goes
    have small : group < 128 := by omega
    have parts : value = value / 128 * 128 + group := by omega
    rw [encodeSleb128_eq] at left ⊢
    rw [isGroup] at left ⊢
    by_cases last : (value / 128 = 0 ∧ group < 64) ∨ (value / 128 = -1 ∧ 64 ≤ group)
    · rw [if_pos last] at left ⊢
      obtain ⟨next, ran, passed, -⟩ := nextByte_of_drop (.parse "unexpected end of SLEB128") left
      refine ⟨next, ?_, passed⟩
      rw [sleb128From, bind_of_run ran, or_payload below bits]
      simp only [stops, sign, Bool.not_false, if_true]
      rw [← toInt_last last parts below least most (by omega) small]
      split <;> rfl
    · rw [if_neg last] at left ⊢
      have more : shift + 7 < 64 := by
        by_contra full
        have full : shift = 63 := by omega
        subst full
        omega
      obtain ⟨next, ran, passed, left⟩ := nextByte_of_drop (.parse "unexpected end of SLEB128") left
      have same : value / 128 * 2 ^ (shift + 7) + ((group * 2 ^ shift + low : Nat) : Int) =
          value * 2 ^ shift + low := by
        conv_rhs => rw [parts]
        rw [power]
        push_cast
        ring
      obtain ⟨final, read, passed'⟩ := ih left (by omega) (by omega) more (joined_lt below small)
        (by rwa [same]) (by rwa [same])
      refine ⟨final, ?_, passed'.1.trans passed.1, ?_⟩
      · rw [sleb128From, bind_of_run ran, or_payload below bits', ← same, ← read]
        simp [goes, not_le.mpr more]
      · rw [passed'.2, passed.2, List.length_cons]
        omega

/-- Reading an encoded number gives it back and stops at the end of its encoding, whatever
stands before and behind. -/
theorem readSleb128_encodeSleb128 (value : BitVec 64) (before rest : Bytes) :
    readSleb128 ⟨before ++ (encodeSleb128 value.toInt ++ rest), before.length, by simp⟩ =
      (.ok value.toInt,
        ⟨before ++ (encodeSleb128 value.toInt ++ rest),
          (before ++ encodeSleb128 value.toInt).length, by simp⟩) := by
  obtain ⟨⟨data, pos, inside⟩, read, rfl, rfl⟩ := @sleb128From_encodeSleb128 10 0 0 value.toInt
    ⟨before ++ (encodeSleb128 value.toInt ++ rest), before.length, by simp⟩ rest (by simp)
    (by decide) rfl (by decide) (by decide) (by have := value.le_toInt; omega)
    (by have := value.toInt_lt; omega)
  simpa [readSleb128] using read

end HermesDecomp
