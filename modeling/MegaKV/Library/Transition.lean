import Mathlib

namespace Library

structure TransitionSystem (State : Type) where
  initial : State → Prop
  step : State → State → Prop

namespace TransitionSystem

variable {State : Type} (system : TransitionSystem State)

inductive Reachable : State → Prop where
  | initial {s : State} (start : system.initial s) : Reachable s
  | step {s t : State} (reached : Reachable s) (next : system.step s t) : Reachable t

theorem Reachable.invariant {system : TransitionSystem State} {holds : State → Prop}
    (start : ∀ s, system.initial s → holds s)
    (preserved : ∀ s t, holds s → system.step s t → holds t)
    {s : State} (reached : system.Reachable s) : holds s := by
  induction reached with
  | initial begins => exact start _ begins
  | step _ next before => exact preserved _ _ before next

/-- The runs whose steps all meet a condition. -/
def within (condition : State → State → Prop) : TransitionSystem State :=
  { initial := system.initial
    step := fun s t => system.step s t ∧ condition s t }

theorem Reachable.forget {system : TransitionSystem State} {condition : State → State → Prop} {s : State}
    (reached : (system.within condition).Reachable s) : system.Reachable s := by
  induction reached with
  | initial start => exact .initial start
  | step _ next before => exact before.step next.1

end TransitionSystem

end Library
