import MegaKV.Library.Bits

namespace Library

section Search

variable {n : Nat}

variable (n) in
/-- The slots of a ring in the order in which they are met from `start` on. -/
def slotsFrom (start : Nat) : List (Fin n) :=
  (List.finRange n).map fun k => ⟨(start + k.val) % n, Nat.mod_lt _ k.pos⟩

/-- The first slot with `p` going cyclically from `start`. -/
def cyclicFind (start : Nat) (p : Fin n → Bool) : Option (Fin n) := (slotsFrom n start).find? p

theorem slotsFrom_length (start : Nat) : (slotsFrom n start).length = n := by
  rw [slotsFrom, List.length_map, List.length_finRange]

theorem slotsFrom_getElem {start k : Nat} (bound : k < (slotsFrom n start).length) :
    ((slotsFrom n start)[k]).val = (start + k) % n := by
  simp [slotsFrom]

theorem cyclicFind_of_first {start : Nat} {p : Fin n → Bool} {slot : Fin n} (k : Nat) (bound : k < n)
    (place : slot.val = (start + k) % n) (held : p slot = true)
    (first : ∀ j < k, ∀ earlier : Fin n, earlier.val = (start + j) % n → p earlier = false) :
    cyclicFind start p = some slot := by
  have inside : k < (slotsFrom n start).length := by
    rw [slotsFrom_length]
    exact bound
  rw [cyclicFind, List.find?_eq_some_iff_getElem]
  refine ⟨held, k, inside, Fin.ext ?_, ?_⟩
  · rw [slotsFrom_getElem, place]
  · intro j before
    rw [first j before _ (slotsFrom_getElem _)]
    rfl

theorem mem_slotsFrom (start : Nat) (slot : Fin n) : slot ∈ slotsFrom n start := by
  have positive := slot.pos
  have inside := slot.isLt
  have small : start % n < n := Nat.mod_lt _ positive
  rw [slotsFrom, List.mem_map]
  refine ⟨⟨(slot.val + n - start % n) % n, Nat.mod_lt _ positive⟩, List.mem_finRange _, Fin.ext ?_⟩
  change (start + (slot.val + n - start % n) % n) % n = slot.val
  rw [Nat.add_mod_mod, ← Nat.mod_add_mod, show start % n + (slot.val + n - start % n) = slot.val + n by omega,
    Nat.add_mod_right, Nat.mod_eq_of_lt inside]

theorem cyclicFind_eq_none_iff (start : Nat) (p : Fin n → Bool) : cyclicFind start p = none ↔ ∀ slot, p slot = false := by
  rw [cyclicFind, List.find?_eq_none]
  constructor
  · intro none slot
    exact Bool.eq_false_iff.mpr (none slot (mem_slotsFrom start slot))
  · intro none slot _
    exact Bool.eq_false_iff.mp (none slot)

end Search

section Rotation

variable {w n : Nat}

/-- The bits of `low` are moved up by `h`, behind all the others. -/
def rotated (h : Nat) (low votes : BitVec w) : BitVec w := ((votes &&& low) <<< h) ||| (votes &&& ~~~low)

theorem rotated_bit {h start i : Nat} {low votes : BitVec w} (inside : i < w)
    (lowest : ∀ j, low.getLsbD j = decide (j < start)) :
    (rotated h low votes).getLsbD i = true ↔
      (h ≤ i ∧ i - h < start ∧ votes.getLsbD (i - h) = true) ∨ (start ≤ i ∧ votes.getLsbD i = true) := by
  simp only [rotated, BitVec.getLsbD_or, BitVec.getLsbD_and, BitVec.getLsbD_not, BitVec.getLsbD_shiftLeft, lowest, inside,
    decide_true, Bool.true_and, Bool.or_eq_true, Bool.and_eq_true, Bool.not_eq_true', decide_eq_false_iff_not,
    decide_eq_true_eq, Nat.not_lt]
  constructor
  · rintro (⟨above, bit, below⟩ | ⟨bit, above⟩)
    · exact .inl ⟨above, below, bit⟩
    · exact .inr ⟨above, bit⟩
  · rintro (⟨above, below, bit⟩ | ⟨above, bit⟩)
    · exact .inl ⟨above, bit, below⟩
    · exact .inr ⟨bit, above⟩

/-- Find-first-set on the rotated votes is the cyclic search, for slots numbered modulo a divisor of
    the rotation. -/
theorem rotated_finds {h start : Nat} {low votes : BitVec w} {p : Fin n → Bool} {slot : Fin n}
    (voted : ∀ i, votes.getLsbD i = true ↔ ∃ inside : i < n, p ⟨i, inside⟩ = true) (divides : n ∣ h) (apart : n ≤ h)
    (fits : h + n ≤ w) (begins : start < n) (lowest : ∀ j, low.getLsbD j = decide (j < start))
    (nonzero : rotated h low votes ≠ 0) (chosen : slot.val = (ffs (rotated h low votes) - 1) % n) :
    cyclicFind start p = some slot := by
  have bound := ffs_bit_lt nonzero
  have set := ffs_bit_set nonzero
  have skipped : ∀ j < ffs (rotated h low votes) - 1, ¬(rotated h low votes).getLsbD j = true := by
    intro j before
    rw [bit_below_ffs before]
    exact Bool.false_ne_true
  generalize ffs (rotated h low votes) - 1 = i at bound set skipped chosen
  -- A slot from `start` on keeps its bit; one below it has its bit `h` places up.
  have silent : ∀ earlier : Fin n, (start ≤ earlier.val ∧ earlier.val < i) ∨ (earlier.val < start ∧ earlier.val + h < i) →
      p earlier = false := by
    intro earlier before
    have inside := earlier.isLt
    by_contra held
    rw [Bool.not_eq_false] at held
    have bit := (voted earlier.val).mpr ⟨inside, held⟩
    rcases before with ⟨above, before⟩ | ⟨below, before⟩
    · exact skipped _ before ((rotated_bit (by omega) lowest).mpr (.inr ⟨above, bit⟩))
    · apply skipped _ before
      rw [rotated_bit (by omega) lowest, Nat.add_sub_cancel]
      exact .inl ⟨by omega, below, bit⟩
  rcases (rotated_bit bound lowest).mp set with ⟨above, below, bit⟩ | ⟨above, bit⟩
  · obtain ⟨inside, held⟩ := (voted _).mp bit
    have same : i % n = i - h := by
      obtain ⟨laps, rfl⟩ := divides
      conv_lhs => rw [← Nat.sub_add_cancel above, Nat.add_mul_mod_self_left]
      exact Nat.mod_eq_of_lt inside
    have place : slot = ⟨i - h, inside⟩ := Fin.ext (chosen.trans same)
    subst place
    apply cyclicFind_of_first (n - start + (i - h)) (by omega)
    · rw [show start + (n - start + (i - h)) = i - h + n by omega, Nat.add_mod_right, Nat.mod_eq_of_lt inside]
    · exact held
    · intro j before earlier here
      apply silent
      have bounded := earlier.isLt
      by_cases wraps : start + j < n
      · rw [Nat.mod_eq_of_lt wraps] at here
        omega
      · rw [Nat.mod_eq_sub_mod (by omega), Nat.mod_eq_of_lt (by omega)] at here
        omega
  · obtain ⟨inside, held⟩ := (voted _).mp bit
    have place : slot = ⟨i, inside⟩ := Fin.ext (chosen.trans (Nat.mod_eq_of_lt inside))
    subst place
    apply cyclicFind_of_first (i - start) (by omega)
    · rw [Nat.add_sub_cancel' above, Nat.mod_eq_of_lt inside]
    · exact held
    · intro j before earlier here
      rw [Nat.mod_eq_of_lt (by omega)] at here
      exact silent earlier (by omega)

/-- Without a rotation find-first-set is the search from slot 0. -/
theorem ffs_finds {votes : BitVec w} {p : Fin n → Bool} {slot : Fin n}
    (voted : ∀ i, votes.getLsbD i = true ↔ ∃ inside : i < n, p ⟨i, inside⟩ = true) (nonzero : votes ≠ 0)
    (chosen : slot.val = (ffs votes - 1) % n) : cyclicFind 0 p = some slot := by
  obtain ⟨inside, held⟩ := (voted _).mp (ffs_bit_set nonzero)
  have place : slot = ⟨ffs votes - 1, inside⟩ := Fin.ext (chosen.trans (Nat.mod_eq_of_lt inside))
  subst place
  apply cyclicFind_of_first (ffs votes - 1) inside
  · rw [Nat.zero_add, Nat.mod_eq_of_lt inside]
  · exact held
  · intro j before earlier here
    rw [Nat.zero_add, Nat.mod_eq_of_lt (by omega)] at here
    by_contra set
    rw [Bool.not_eq_false] at set
    have bit := (voted earlier.val).mpr ⟨earlier.isLt, set⟩
    rw [here, bit_below_ffs before] at bit
    contradiction

end Rotation

end Library
