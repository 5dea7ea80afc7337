import Mathlib

namespace Library

/-- Two coprime periods meet in every window of their product's length, at any pair of offsets. -/
theorem periods_meet {p q : Nat} (apart : Nat.Coprime p q) (positive : 0 < p * q) (a b r : Nat) :
    ∃ n, r ≤ n ∧ n < r + p * q ∧ n ≡ a [MOD p] ∧ n ≡ b [MOD q] := by
  obtain ⟨k, meetsLeft, meetsRight⟩ := Nat.chineseRemainder apart a b
  -- the first number from `r` on in the class of `k` modulo the product
  have shift : r + (k + (p * q - r % (p * q))) % (p * q) ≡ k [MOD p * q] := by
    have inside := Nat.mod_lt r positive
    have whole : r + (k + (p * q - r % (p * q))) = k + (r / (p * q) + 1) * (p * q) := by
      have split := Nat.div_add_mod r (p * q)
      rw [Nat.add_mul, Nat.one_mul, Nat.mul_comm (r / (p * q))]
      omega
    calc r + (k + (p * q - r % (p * q))) % (p * q)
        ≡ r + (k + (p * q - r % (p * q))) [MOD p * q] := (Nat.mod_modEq _ _).add_left r
      _ ≡ k [MOD p * q] := by rw [whole]; exact Nat.add_mul_modulus_modEq_iff.mpr rfl
  have bound := Nat.mod_lt (k + (p * q - r % (p * q))) positive
  exact ⟨_, Nat.le_add_right _ _, Nat.add_lt_add_left bound r,
    (shift.of_mul_right q).trans meetsLeft, (shift.of_mul_left p).trans meetsRight⟩

theorem succ_mod_period (r p : Nat) : (r + 1) % (p + 1) = if r % (p + 1) = p then 0 else r % (p + 1) + 1 := by
  have inside : r % (p + 1) < p + 1 := Nat.mod_lt r (Nat.succ_pos p)
  rw [← Nat.mod_add_mod]
  split
  · rename_i last
    rw [last, Nat.mod_self]
  · exact Nat.mod_eq_of_lt (by omega)

end Library
