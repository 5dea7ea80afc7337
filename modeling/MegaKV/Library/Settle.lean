import Mathlib.Tactic.Common
import Mathlib.Data.List.Basic

namespace Library

variable {Lane Value : Type}

/-- A cell all active lanes write to at once, if their writes take effect in the order given. -/
def settle (active : Lane → Bool) (value : Lane → Value) (order : List Lane) (cell : Value) : Value :=
  order.foldl (fun cell lane => if active lane then value lane else cell) cell

variable {active : Lane → Bool} {value : Lane → Value} {order : List Lane}

theorem settle_cons (lane : Lane) (rest : List Lane) (cell : Value) :
    settle active value (lane :: rest) cell =
      settle active value rest (if active lane then value lane else cell) := rfl

theorem settle_idle (idle : ∀ lane ∈ order, active lane = false) (cell : Value) :
    settle active value order cell = cell := by
  induction order with
  | nil => rfl
  | cons lane rest ih =>
    have first := idle lane List.mem_cons_self
    rw [settle_cons, first]
    exact ih (fun later member => idle later (List.mem_cons_of_mem lane member))

theorem settle_value (cell : Value) :
    settle active value order cell = cell ∨ ∃ lane ∈ order, active lane = true ∧ settle active value order cell = value lane := by
  induction order generalizing cell with
  | nil => exact .inl rfl
  | cons first rest ih =>
    rw [settle_cons]
    rcases ih (if active first then value first else cell) with kept | ⟨lane, member, writes, written⟩
    · by_cases writes : active first = true
      · exact .inr ⟨first, List.mem_cons_self, writes, by rw [kept, if_pos writes]⟩
      · exact .inl (by rw [kept, if_neg writes])
    · exact .inr ⟨lane, List.mem_cons_of_mem first member, writes, written⟩

/-- Where all lanes that write agree on the value, the order of their writes does not matter. -/
theorem settle_agreed {lane : Lane} (member : lane ∈ order) (writes : active lane = true)
    (agree : ∀ other, active other = true → value other = value lane) (cell : Value) :
    settle active value order cell = value lane := by
  induction order generalizing cell with
  | nil => contradiction
  | cons first rest ih =>
    rw [settle_cons]
    rcases List.mem_cons.mp member with rfl | later
    · rcases settle_value (if active lane then value lane else cell) with kept | ⟨other, _, active, written⟩
      · rw [kept, if_pos writes]
      · rw [written, agree other active]
    · exact ih later _

end Library
