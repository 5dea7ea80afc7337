import Mathlib

namespace Library

/-- The `ffs` family: one plus the index of the lowest set bit, zero on the zero word. -/
def ffs {w : Nat} (word : BitVec w) : Nat :=
  if word = 0 then 0 else word.ctz.toNat + 1

@[simp] theorem ffs_zero {w : Nat} : ffs (0 : BitVec w) = 0 := by simp [ffs]

theorem ffs_pos {w : Nat} {word : BitVec w} (nonzero : word ≠ 0) :
    0 < ffs word := by
  simp only [ffs, nonzero, ite_false]
  omega

theorem ffs_bit_set {w : Nat} {word : BitVec w} (nonzero : word ≠ 0) :
    word.getLsbD (ffs word - 1) = true := by
  simp only [ffs, nonzero, ite_false, Nat.add_sub_cancel]
  exact BitVec.getLsbD_true_ctz_of_ne_zero nonzero

theorem ffs_bit_lt {w : Nat} {word : BitVec w} (nonzero : word ≠ 0) : ffs word - 1 < w :=
  BitVec.lt_of_getLsbD (ffs_bit_set nonzero)

theorem bit_below_ffs {w : Nat} {word : BitVec w} {i : Nat} (below : i < ffs word - 1) :
    word.getLsbD i = false := by
  by_cases zero : word = 0
  · subst word
    simp
  · simp only [ffs, zero, ite_false, Nat.add_sub_cancel] at below
    exact BitVec.getLsbD_false_of_lt_ctz below

/-- The mask of the lowest `n` bits. -/
theorem low_mask_bit {w n : Nat} (i : Nat) (fits : n < w) :
    (((1 <<< n : Nat) : BitVec w) - 1).getLsbD i = decide (i < n) := by
  have small : 2 ^ n < 2 ^ w := Nat.pow_lt_pow_right (by decide) fits
  have least := Nat.two_pow_pos n
  have one : 1 < 2 ^ w := by omega
  have power : ((1 <<< n : Nat) : BitVec w).toNat = 2 ^ n := by
    rw [Nat.one_shiftLeft, BitVec.natCast_eq_ofNat, BitVec.toNat_ofNat, Nat.mod_eq_of_lt small]
  have unit : (1 : BitVec w).toNat = 1 := by
    rw [BitVec.ofNat_eq_ofNat, BitVec.toNat_ofNat, Nat.mod_eq_of_lt one]
  have mask : (((1 <<< n : Nat) : BitVec w) - 1).toNat = 2 ^ n - 1 := by
    have wrapped : 2 ^ w - 1 + 2 ^ n = 2 ^ n - 1 + 2 ^ w := by omega
    rw [BitVec.toNat_sub, power, unit, wrapped, Nat.add_mod_right, Nat.mod_eq_of_lt (by omega)]
  rw [← BitVec.testBit_toNat, mask, Nat.testBit_two_pow_sub_one]

end Library
