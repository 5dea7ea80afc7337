import Mathlib

namespace Library

variable {Value : Type}

/-- A run-length encoding: each entry is a value and how often it follows. -/
abbrev Runs (Value : Type) := List (Value × Nat)

namespace Runs

def expand (runs : Runs Value) : List Value := runs.flatMap (fun run => List.replicate run.2 run.1)

def total (runs : Runs Value) : Nat := (runs.map Prod.snd).sum

/-- One more value, which the last run counts if it is the same. -/
def push [DecidableEq Value] (runs : Runs Value) (value : Value) : Runs Value :=
  match runs.getLast? with
  | some run => if run.1 = value then runs.dropLast ++ [(value, run.2 + 1)] else runs ++ [(value, 1)]
  | none => [(value, 1)]

theorem expand_append (first second : Runs Value) : expand (first ++ second) = expand first ++ expand second :=
  List.flatMap_append

theorem total_append (first second : Runs Value) : total (first ++ second) = total first + total second := by
  simp only [total, List.map_append, List.sum_append]

@[simp] theorem expand_single (run : Value × Nat) : expand [run] = List.replicate run.2 run.1 := List.append_nil _

@[simp] theorem total_single (run : Value × Nat) : total [run] = run.2 := Nat.add_zero _

theorem expand_length (runs : Runs Value) : (expand runs).length = total runs := by
  induction runs with
  | nil => rfl
  | cons run rest ih =>
    rw [← List.singleton_append, expand_append, total_append, List.length_append, ih, expand_single, total_single,
      List.length_replicate]

section Push

variable [DecidableEq Value]

theorem push_same (runs : Runs Value) (value : Value) (count : Nat) :
    push (runs ++ [(value, count)]) value = runs ++ [(value, count + 1)] := by
  simp only [push, List.getLast?_concat, if_true, List.dropLast_concat]

theorem push_other {runs : Runs Value} {value : Value} (other : ∀ run, runs.getLast? = some run → run.1 ≠ value) :
    push runs value = runs ++ [(value, 1)] := by
  unfold push
  cases last : runs.getLast? with
  | none => rw [List.getLast?_eq_none_iff.mp last, List.nil_append]
  | some run => exact if_neg (other run last)

theorem expand_push (runs : Runs Value) (value : Value) : expand (push runs value) = expand runs ++ [value] := by
  by_cases same : ∃ run, runs.getLast? = some run ∧ run.1 = value
  · obtain ⟨run, last, rfl⟩ := same
    obtain ⟨front, rfl⟩ := List.getLast?_eq_some_iff.mp last
    rw [push_same, expand_append, expand_append, expand_single, expand_single, List.append_assoc, List.replicate_succ']
  · rw [push_other (fun run last equal => same ⟨run, last, equal⟩), expand_append, expand_single]
    rfl

theorem total_push (runs : Runs Value) (value : Value) : total (push runs value) = total runs + 1 := by
  rw [← expand_length, expand_push, List.length_append, expand_length]
  rfl

end Push

end Runs

end Library
