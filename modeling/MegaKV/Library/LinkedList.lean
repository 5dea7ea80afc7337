import Mathlib

namespace Library

variable {Node : Type}

/-- The nodes met from `head` along `next`, up to the end of the list. -/
def Chain (next : Node → Option Node) : Option Node → List Node → Prop
  | head, [] => head = none
  | head, node :: rest => head = some node ∧ Chain next (next node) rest

theorem Chain.congr {next other : Node → Option Node} {head : Option Node} {nodes : List Node}
    (chain : Chain next head nodes) (same : ∀ node ∈ nodes, other node = next node) : Chain other head nodes := by
  induction nodes generalizing head with
  | nil => exact chain
  | cons node rest ih =>
    obtain ⟨first, remaining⟩ := chain
    refine ⟨first, ?_⟩
    rw [same node List.mem_cons_self]
    exact ih remaining (fun later member => same later (List.mem_cons_of_mem node member))

theorem Chain.unique {next : Node → Option Node} {head : Option Node} {left right : List Node}
    (first : Chain next head left) (second : Chain next head right) : left = right := by
  induction left generalizing head right with
  | nil =>
    cases right with
    | nil => rfl
    | cons node rest => exact absurd (first.symm.trans second.1) (by simp)
  | cons node rest ih =>
    cases right with
    | nil => exact absurd (second.symm.trans first.1) (by simp)
    | cons other others =>
      have same : node = other := Option.some.inj (first.1.symm.trans second.1)
      subst same
      rw [ih first.2 second.2]

theorem Chain.nil_of_none {next : Node → Option Node} {nodes : List Node} (chain : Chain next none nodes) :
    nodes = [] := by
  cases nodes with
  | nil => rfl
  | cons node rest => exact absurd chain.1 (by simp)

theorem Chain.uncons {next : Node → Option Node} {node : Node} {nodes : List Node}
    (chain : Chain next (some node) nodes) : ∃ rest, nodes = node :: rest ∧ Chain next (next node) rest := by
  cases nodes with
  | nil => exact absurd chain (by simp [Chain])
  | cons first rest =>
    have same : node = first := Option.some.inj chain.1
    subst same
    exact ⟨rest, rfl, chain.2⟩

theorem Chain.push {next : Node → Option Node} [DecidableEq Node] {head : Option Node} {nodes : List Node} {node : Node}
    (chain : Chain next head nodes) (outside : node ∉ nodes) :
    Chain (Function.update next node head) (some node) (node :: nodes) := by
  refine ⟨rfl, ?_⟩
  rw [Function.update_self]
  apply chain.congr
  intro other member
  apply Function.update_of_ne
  intro same
  exact outside (same ▸ member)

theorem Chain.range {next : Node → Option Node} (node : Nat → Node) (count start : Nat) (positive : 0 < count)
    (links : ∀ x, start ≤ x → x + 1 < start + count → next (node x) = some (node (x + 1)))
    (last : next (node (start + count - 1)) = none) :
    Chain next (some (node start)) ((List.range' start count).map node) := by
  induction count generalizing start with
  | zero => omega
  | succ count ih =>
    rw [List.range'_succ, List.map_cons]
    refine ⟨rfl, ?_⟩
    cases count with
    | zero =>
      rw [Nat.add_sub_cancel] at last
      exact last
    | succ count =>
      rw [links start (Nat.le_refl start) (by omega)]
      apply ih (start + 1) (by omega)
      · intro x low high
        exact links x (by omega) (by omega)
      · rw [show start + 1 + (count + 1) - 1 = start + (count + 1 + 1) - 1 by omega]
        exact last

end Library
