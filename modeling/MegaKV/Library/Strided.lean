import Mathlib.Data.Nat.Basic
import Mathlib.Tactic.Ring

namespace Library

/-- `for (id = start; id < total; id += step)` in integers up to `limit`, for at most so many
    rounds; without a list it has not ended, or the addition has overflowed. -/
def strided (limit : Nat) (total : Int) (step : Nat) : Nat → Nat → Option (List Nat)
  | 0, _ => none
  | rounds + 1, id =>
    if (id : Int) < total then
      if limit < id + step then none else (strided limit total step rounds (id + step)).map (id :: ·)
    else some []

section Strided

variable {limit : Nat} {total : Int} {step rounds id : Nat} {ids : List Nat}

theorem strided_next (inside : (id : Int) < total) (room : id + step ≤ limit) :
    strided limit total step (rounds + 1) id = (strided limit total step rounds (id + step)).map (id :: ·) := by
  rw [strided, if_pos inside, if_neg (Nat.not_lt.mpr room)]

theorem strided_end (outside : ¬(id : Int) < total) : strided limit total step (rounds + 1) id = some [] := by
  rw [strided, if_neg outside]

theorem strided_visits (ends : strided limit total step rounds id = some ids) :
    ∀ x ∈ ids, (∃ k, x = id + k * step) ∧ (x : Int) < total ∧ x + step ≤ limit := by
  induction rounds generalizing id ids with
  | zero => cases ends
  | succ rounds ih =>
    by_cases inside : (id : Int) < total
    · by_cases room : id + step ≤ limit
      · rw [strided_next inside room, Option.map_eq_some_iff] at ends
        obtain ⟨later, rest, rfl⟩ := ends
        intro x member
        rcases List.mem_cons.mp member with first | other
        · rw [first]
          exact ⟨⟨0, by rw [Nat.zero_mul, Nat.add_zero]⟩, inside, room⟩
        · obtain ⟨⟨k, place⟩, bound⟩ := ih rest x other
          exact ⟨⟨k + 1, by rw [place]; ring⟩, bound⟩
      · rw [strided, if_pos inside, if_pos (Nat.lt_of_not_le room)] at ends
        cases ends
    · rw [strided_end inside] at ends
      cases ends
      intro x member
      cases member

theorem strided_stuck (inside : (id : Int) < total) : strided limit total 0 rounds id = none := by
  induction rounds with
  | zero => rfl
  | succ rounds ih =>
    rw [strided, if_pos inside, Nat.add_zero, ih]
    split <;> rfl

theorem strided_complete (positive : 0 < step) (room : total + step ≤ limit + 1) :
    ∃ rounds ids, strided limit total step rounds id = some ids ∧
      ∀ k, ((id + k * step : Nat) : Int) < total → id + k * step ∈ ids := by
  generalize left : (total - id).toNat = count
  induction count using Nat.strong_induction_on generalizing id with
  | _ count ih =>
    by_cases inside : (id : Int) < total
    · obtain ⟨rounds, later, rest, visited⟩ := ih (total - (id + step : Nat)).toNat (by omega) rfl
      refine ⟨rounds + 1, id :: later, ?_, ?_⟩
      · rw [strided_next inside (by omega), rest]
        rfl
      · intro k bound
        cases k with
        | zero => exact List.mem_cons.mpr (.inl (by rw [Nat.zero_mul, Nat.add_zero]))
        | succ k =>
          have place : id + (k + 1) * step = id + step + k * step := by ring
          rw [place] at bound ⊢
          exact List.mem_cons_of_mem id (visited k bound)
    · refine ⟨1, [], strided_end inside, ?_⟩
      intro k bound
      have later : id ≤ id + k * step := Nat.le_add_right _ _
      omega

end Strided

end Library
