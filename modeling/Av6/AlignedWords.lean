import Mathlib.Data.Nat.Bitwise

/-!
# Rounding machine words

The idioms that round a word down and up to a multiple of a power of two with a mask.
-/

namespace Av6

namespace AlignedWords

variable {w k : Nat}

/-- One less than a word, where this does not wrap around. -/
theorem toNat_sub_one (positive : 0 < w) {x : BitVec w} {n : Nat} (value : x.toNat = n % 2 ^ w)
    (nonzero : 0 < n) : (x - 1).toNat = (n - 1) % 2 ^ w := by
  have one : (1 : BitVec w).toNat = 1 := BitVec.toNat_one positive
  have words : 0 < 2 ^ w := Nat.two_pow_pos w
  rw [BitVec.toNat_sub, one, value, Nat.add_mod_mod,
    show 2 ^ w - 1 + n = 2 ^ w + (n - 1) by omega, Nat.add_mod_left]

theorem toNat_mask (small : k < w) : (BitVec.twoPow w k - 1).toNat = 2 ^ k - 1 := by
  have less : 2 ^ k < 2 ^ w := Nat.pow_lt_pow_right (by decide) small
  have positive : 0 < 2 ^ k := Nat.two_pow_pos k
  rw [toNat_sub_one (by omega) (BitVec.toNat_twoPow w k) positive, Nat.mod_eq_of_lt (by omega)]

/-- Clearing the low bits rounds down. -/
theorem toNat_and_not_mask (small : k < w) (x : BitVec w) :
    (x &&& ~~~(BitVec.twoPow w k - 1)).toNat = x.toNat / 2 ^ k * 2 ^ k := by
  rw [← Nat.shiftRight_eq_div_pow, ← Nat.shiftLeft_eq]
  apply Nat.eq_of_testBit_eq
  intro i
  have mask : (BitVec.twoPow w k - 1).getLsbD i = decide (i < k) := by
    rw [← BitVec.testBit_toNat, toNat_mask small, Nat.testBit_two_pow_sub_one]
  rw [BitVec.testBit_toNat, BitVec.getLsbD_and, BitVec.getLsbD_not, mask, Nat.testBit_shiftLeft,
    Nat.testBit_shiftRight]
  by_cases low : i < k
  · simp [low]
  · have index : k + (i - k) = i := by omega
    rw [index, BitVec.testBit_toNat]
    by_cases inWord : i < w
    · simp [low, inWord, Nat.not_lt.mp low]
    · simp [BitVec.getLsbD_of_ge x i (Nat.not_lt.mp inWord)]

/-- The idiom for rounding up. -/
theorem toNat_roundUp (small : k < w) (x : BitVec w) :
    ((x + BitVec.twoPow w k - 1) &&& ~~~(BitVec.twoPow w k - 1)).toNat =
      (x.toNat + 2 ^ k - 1) % 2 ^ w / 2 ^ k * 2 ^ k := by
  have less : 2 ^ k < 2 ^ w := Nat.pow_lt_pow_right (by decide) small
  have positive : 0 < 2 ^ k := Nat.two_pow_pos k
  have sum : (x + BitVec.twoPow w k).toNat = (x.toNat + 2 ^ k) % 2 ^ w := by
    rw [BitVec.toNat_add, BitVec.toNat_twoPow, Nat.mod_eq_of_lt less]
  rw [toNat_and_not_mask small, toNat_sub_one (by omega) sum (by omega)]

end AlignedWords

end Av6
