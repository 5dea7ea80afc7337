import Mathlib.Tactic.Common
import Mathlib.Data.List.Basic

namespace Library

variable {Value : Type}

section Stands

/-- The values stand in the memory from `start` on. -/
def Stands (memory : Nat → Value) (start : Nat) (values : List Value) : Prop :=
  ∀ k value, values[k]? = some value → memory (start + k) = value

variable {memory other : Nat → Value} {start place : Nat} {first second : List Value}

theorem Stands.nil (memory : Nat → Value) (start : Nat) : Stands memory start [] := by
  intro k value present
  cases present

theorem Stands.left (stands : Stands memory start (first ++ second)) : Stands memory start first := by
  intro k value present
  apply stands k value
  rw [List.getElem?_append_left (List.getElem?_eq_some_iff.mp present).1]
  exact present

theorem Stands.right (stands : Stands memory start (first ++ second)) : Stands memory (start + first.length) second := by
  intro k value present
  rw [Nat.add_assoc]
  apply stands (first.length + k) value
  rw [List.getElem?_append_right (Nat.le_add_right _ _), Nat.add_sub_cancel_left]
  exact present

theorem Stands.append (before : Stands memory start first) (behind : Stands memory (start + first.length) second) :
    Stands memory start (first ++ second) := by
  intro k value present
  by_cases inside : k < first.length
  · rw [List.getElem?_append_left inside] at present
    exact before k value present
  · have outside := Nat.le_of_not_lt inside
    rw [List.getElem?_append_right outside] at present
    have shifted := behind (k - first.length) value present
    rw [Nat.add_assoc, Nat.add_sub_cancel' outside] at shifted
    exact shifted

theorem Stands.congr (stands : Stands memory start first)
    (agree : ∀ k < first.length, other (place + k) = memory (start + k)) : Stands other place first := by
  intro k value present
  rw [agree k (List.getElem?_eq_some_iff.mp present).1]
  exact stands k value present

theorem Stands.getD (stands : Stands memory start first) {k : Nat} (inside : k < first.length) (filler : Value) :
    memory (start + k) = first.getD k filler := by
  rw [List.getD_eq_getElem?_getD, List.getElem?_eq_getElem inside]
  exact stands k _ (List.getElem?_eq_getElem inside)

theorem Stands.shifted (values : List Value) (start : Nat) (filler : Value) :
    Stands (fun k => values.getD (k - start) filler) start values := by
  intro k value present
  change values.getD (start + k - start) filler = value
  rw [Nat.add_sub_cancel_left, List.getD_eq_getElem?_getD, present, Option.getD_some]

end Stands

section Store

def store (memory : Nat → Value) (start : Nat) (values : List Value) : Nat → Value :=
  fun k => if start ≤ k then values.getD (k - start) (memory k) else memory k

variable {memory : Nat → Value} {start place : Nat} {first values : List Value}

theorem store_stands (memory : Nat → Value) (start : Nat) (values : List Value) :
    Stands (store memory start values) start values := by
  intro k value present
  rw [store, if_pos (Nat.le_add_right start k), Nat.add_sub_cancel_left, List.getD_eq_getElem?_getD, present,
    Option.getD_some]

theorem store_other {k : Nat} (outside : k < start ∨ start + values.length ≤ k) :
    store memory start values k = memory k := by
  unfold store
  split
  · rw [List.getD_eq_getElem?_getD, List.getElem?_eq_none (by omega), Option.getD_none]
  · rfl

theorem Stands.store (stands : Stands memory start first)
    (apart : start + first.length ≤ place ∨ place + values.length ≤ start) :
    Stands (Library.store memory place values) start first := by
  apply stands.congr
  intro k inside
  apply store_other
  omega

end Store

section Appended

/-- A buffer that held `count` values holds some more behind them. -/
structure Appended (before after : Nat → Value) (count : Nat) (added : List Value) : Prop where
  kept : ∀ k < count, after k = before k
  added : Stands after count added

variable {before middle after : Nat → Value} {count : Nat} {first second : List Value}

theorem Appended.nil (before : Nat → Value) (count : Nat) : Appended before before count [] :=
  ⟨fun _ _ => rfl, Stands.nil before count⟩

theorem Appended.push (before : Nat → Value) (count : Nat) (value : Value) :
    Appended before (Function.update before count value) count [value] := by
  constructor
  · intro k inside
    exact Function.update_of_ne (Nat.ne_of_lt inside) _ _
  · intro k found present
    cases k with
    | zero =>
      cases present
      exact Function.update_self _ _ _
    | succ k => cases present

theorem Appended.append (earlier : Appended before middle count first)
    (later : Appended middle after (count + first.length) second) : Appended before after count (first ++ second) := by
  constructor
  · intro k inside
    rw [later.kept k (by omega), earlier.kept k inside]
  · apply Stands.append _ later.added
    apply earlier.added.congr
    intro k inside
    exact later.kept (count + k) (by omega)

end Appended

end Library
