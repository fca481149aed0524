import LuaBytecode.Bits
import Mathlib.Algebra.Order.Ring.Int
import Mathlib.Data.Int.Bitwise
import Mathlib.Data.Int.ModEq
import Mathlib.Data.Nat.Bitwise
import Mathlib.Tactic.Positivity

/-! Runs of bits as arithmetic: the bits that are cut out of an integer are a remainder and, one by one,
those of its two's complement, and a signed value is read back from a field exactly if it lies between
the bounds that the width sets. -/
namespace LuaBytecode.Bits

@[simp] theorem bit_eq (place : Nat) : bit place = 2 ^ place := Nat.one_shiftLeft place

@[simp] theorem mask_eq (width : Nat) : mask width = 2 ^ width - 1 := by
  rw [mask, bit_eq]

theorem mask_natCast (width : Nat) : (mask width : Int) = 2 ^ width - 1 := by
  rw [mask_eq, Nat.cast_sub Nat.one_le_two_pow]
  push_cast
  rfl

theorem lowest_eq (value : Int) (width : Nat) : (lowest value width : Int) = value % 2 ^ width := by
  have hpos : (0 : Int) < 2 ^ width := by positivity
  rw [lowest, bit_eq, Int.toNat_of_nonneg]
  · push_cast
    rfl
  · push_cast
    exact Int.emod_nonneg value hpos.ne'

theorem lowest_lt (value : Int) (width : Nat) : lowest value width < 2 ^ width := by
  have hlt : (lowest value width : Int) < 2 ^ width := by
    rw [lowest_eq]
    exact Int.emod_lt_of_pos value (by positivity)
  exact_mod_cast hlt

theorem lowest_natCast (n width : Nat) : lowest n width = n % 2 ^ width := by
  have h := lowest_eq n width
  exact_mod_cast h

/-- A value that fits the width is not cut. -/
theorem lowest_of_lt {value : Int} {width : Nat} (hpos : 0 ≤ value) (hlt : value < 2 ^ width) :
    (lowest value width : Int) = value := by
  rw [lowest_eq, Int.emod_eq_of_lt hpos hlt]

theorem lowest_lowest (value : Int) (width : Nat) :
    lowest (lowest value width) width = lowest value width := by
  rw [lowest_natCast, Nat.mod_eq_of_lt (lowest_lt value width)]

theorem extract_natCast (word offset width : Nat) :
    extract word offset width = (word >>> offset) % 2 ^ width := by
  rw [extract, ← Int.natCast_shiftRight, lowest_natCast]

theorem extract_lt (word : Int) (offset width : Nat) : extract word offset width < 2 ^ width :=
  lowest_lt _ width

/-- The bits of a negative integer are those that the number below its magnitude lacks. -/
theorem lowest_negSucc (n width : Nat) :
    lowest (.negSucc n) width = 2 ^ width - (n % 2 ^ width + 1) := by
  have hpos : (0 : Int) < 2 ^ width := by positivity
  have hlt : n % 2 ^ width < 2 ^ width := Nat.mod_lt n (Nat.two_pow_pos width)
  have hlow := lowest_eq (.negSucc n) width
  rw [Int.negSucc_emod n hpos] at hlow
  have hcast : ((n % 2 ^ width : Nat) : Int) = (n : Int) % 2 ^ width := by push_cast; rfl
  have hpow : ((2 ^ width : Nat) : Int) = 2 ^ width := by push_cast; rfl
  omega

theorem testBit_lowest (value : Int) (width i : Nat) :
    (lowest value width).testBit i = (decide (i < width) && value.testBit i) := by
  cases value with
  | ofNat n =>
    rw [Int.ofNat_eq_natCast, lowest_natCast, Nat.testBit_mod_two_pow]
    rfl
  | negSucc n =>
    have hlt : n % 2 ^ width < 2 ^ width := Nat.mod_lt n (Nat.two_pow_pos width)
    rw [lowest_negSucc, Nat.testBit_two_pow_sub_succ hlt, Nat.testBit_mod_two_pow, Int.testBit]
    by_cases hi : i < width <;> simp [hi]

theorem testBit_shiftRight (word : Int) (offset i : Nat) :
    (word >>> offset).testBit i = word.testBit (offset + i) := by
  cases word with
  | ofNat n => exact Nat.testBit_shiftRight n
  | negSucc n =>
    rw [Int.negSucc_shiftRight, Int.testBit, Int.testBit, Nat.testBit_shiftRight]

theorem int_testBit_extract (word : Int) (offset width i : Nat) :
    (extract word offset width).testBit i = (decide (i < width) && word.testBit (offset + i)) := by
  rw [extract, testBit_lowest, testBit_shiftRight]

theorem testBit_extract (word offset width i : Nat) :
    (extract word offset width).testBit i = (decide (i < width) && word.testBit (offset + i)) :=
  int_testBit_extract word offset width i

theorem extract_pack (value : Int) (offset width : Nat) :
    extract (pack value offset width) offset width = lowest value width := by
  rw [extract_natCast, pack, Nat.shiftLeft_shiftRight, Nat.mod_eq_of_lt (lowest_lt value width)]

theorem shiftLeft_inj {m n offset : Nat} : m <<< offset = n <<< offset ↔ m = n := by
  rw [Nat.shiftLeft_eq, Nat.shiftLeft_eq]
  exact Nat.mul_left_inj (Nat.two_pow_pos offset).ne'

/-- A natural number is the meet of an integer with a mask if each of its bits is. -/
theorem natCast_eq_land {word : Int} {mask n : Nat}
    (h : ∀ i, n.testBit i = (word.testBit i && mask.testBit i)) : (n : Int) = Int.land word mask := by
  obtain ⟨meet, hmeet⟩ : ∃ meet : Nat, Int.land word mask = meet := by
    cases word with
    | ofNat m => exact ⟨m &&& mask, rfl⟩
    | negSucc m => exact ⟨mask.ldiff m, rfl⟩
  rw [hmeet, Nat.cast_inj]
  apply Nat.eq_of_testBit_eq
  intro i
  have hbit := Int.testBit_land word mask i
  rw [hmeet] at hbit
  exact (h i).trans hbit.symm

/-- Cutting a run out of an integer and putting it back clears every other bit. -/
theorem int_extract_shiftLeft (word : Int) (offset width : Nat) :
    ((extract word offset width <<< offset : Nat) : Int) =
      Int.land word (mask width <<< offset : Nat) := by
  apply natCast_eq_land
  intro i
  rw [Nat.testBit_shiftLeft, Nat.testBit_shiftLeft, int_testBit_extract, mask_eq,
    Nat.testBit_two_pow_sub_one]
  by_cases hi : offset ≤ i
  · rw [Nat.add_sub_cancel' hi]
    simp [hi, Bool.and_comm]
  · simp [hi]

theorem extract_shiftLeft (word offset width : Nat) :
    extract word offset width <<< offset = word &&& (mask width <<< offset) :=
  Int.ofNat_inj.mp (int_extract_shiftLeft word offset width)

/-- What is placed at an offset stays inside the run of bits there. -/
theorem pack_and_mask (value : Int) (offset width : Nat) :
    pack value offset width &&& (mask width <<< offset) = pack value offset width := by
  rw [← extract_shiftLeft, extract_pack, pack]

theorem biasLimit_eq (width : Nat) : (biasLimit width : Int) = 2 ^ (width - 1) - 1 :=
  mask_natCast (width - 1)

private theorem two_pow_eq {width : Nat} (hw : 0 < width) :
    (2 : Int) ^ width = 2 * 2 ^ (width - 1) := by
  obtain ⟨n, rfl⟩ := Nat.exists_eq_add_of_lt hw
  rw [Nat.zero_add, Nat.add_sub_cancel, pow_succ']

/-- A number that is read from a biased field and stored again is the same number, also where it is
the one that lies below the limit. -/
theorem lowest_bias_unbias {stored width : Nat} (hs : stored < 2 ^ width) :
    lowest (bias (unbias stored width) width) width = stored := by
  have hs' : (stored : Int) < 2 ^ width := by exact_mod_cast hs
  have hback : bias (unbias stored width) width = stored := by
    have hk := biasLimit_eq width
    have hpos : (0 : Int) < 2 ^ (width - 1) := by positivity
    simp only [bias, unbias, hk]
    split_ifs <;> omega
  have h := lowest_of_lt (Int.natCast_nonneg stored) hs'
  rw [hback]
  exact_mod_cast h

private theorem unbias_bounds {stored width : Nat} (hw : 0 < width) (hs : stored < 2 ^ width) :
    -(2 ^ (width - 1) : Int) ≤ unbias stored width ∧ unbias stored width < 2 ^ (width - 1) := by
  have hs' : (stored : Int) < 2 ^ width := by exact_mod_cast hs
  have hk := biasLimit_eq width
  rw [two_pow_eq hw] at hs'
  simp only [unbias, hk]
  split_ifs <;> omega

/-- A signed value survives being stored exactly if it lies in the two's complement range of the
width, although the coding is not two's complement. -/
theorem unbias_lowest_bias_iff {value : Int} {width : Nat} (hw : 0 < width) :
    unbias (lowest (bias value width) width) width = value ↔
      -(2 ^ (width - 1) : Int) ≤ value ∧ value < 2 ^ (width - 1) := by
  have hk := biasLimit_eq width
  constructor
  · intro h
    rw [← h]
    exact unbias_bounds hw (lowest_lt _ width)
  · rintro ⟨hlo, hhi⟩
    have hpow := two_pow_eq hw
    have hfit : 0 ≤ bias value width ∧ bias value width < 2 ^ width := by
      simp only [bias, hk]
      split_ifs <;> omega
    rw [lowest_of_lt hfit.1 hfit.2]
    simp only [bias, unbias, hk]
    split_ifs <;> omega

/-- The value just below the least one of a biased field is the one whose bits are all set. -/
theorem unbias_eq_least_iff {stored width : Nat} (hw : 0 < width) :
    unbias stored width = -(2 ^ (width - 1) : Int) ↔ stored = mask width := by
  have hpow := two_pow_eq hw
  have hpos : (0 : Int) < 2 ^ (width - 1) := by positivity
  rw [← Nat.cast_inj (R := Int), mask_natCast]
  simp only [unbias, biasLimit_eq]
  split_ifs <;> omega

/-- Of the indices that a field holds, one is congruent to a given index. -/
theorem fromIndex_toIndex_iff {operand value : Int} {width : Nat} :
    operand = fromIndex (toIndex value width) ↔
      (-(2 ^ width : Int) ≤ operand ∧ operand ≤ -1) ∧ operand ≡ value [ZMOD 2 ^ width] := by
  have hpos : (0 : Int) < 2 ^ width := by positivity
  have hlow : (toIndex value width : Int) = (-1 - value) % 2 ^ width := lowest_eq (-1 - value) width
  rw [fromIndex, hlow]
  constructor
  · rintro rfl
    have hnonneg := Int.emod_nonneg (-1 - value) hpos.ne'
    have hlt := Int.emod_lt_of_pos (-1 - value) hpos
    refine ⟨by omega, ?_⟩
    have hmod : -1 - (-1 - value) % 2 ^ width ≡ -1 - (-1 - value) [ZMOD 2 ^ width] :=
      (Int.mod_modEq (-1 - value) (2 ^ width)).sub_left (-1)
    rwa [sub_sub_cancel] at hmod
  · rintro ⟨⟨hlo, hhi⟩, hmod⟩
    have hstored : (-1 - value) % 2 ^ width = -1 - operand := by
      rw [← hmod.sub_left (-1), Int.emod_eq_of_lt (by omega) (by omega)]
    omega

end LuaBytecode.Bits
