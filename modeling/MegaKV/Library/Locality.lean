import Mathlib

namespace Library

section Stores

variable {Cell Value Choice : Type} {cells other : Set Cell}

/-- An operation works on some cells only: it leaves all others alone, and what it writes depends
    on nothing but these. -/
structure WorksOn (cells : Set Cell) (act : (Cell → Value) → Cell → Value) : Prop where
  outside : ∀ store, ∀ cell ∉ cells, act store cell = store cell
  inside : ∀ cell ∈ cells, DependsOn (fun store => act store cell) cells

theorem worksOn_id : WorksOn cells (id : (Cell → Value) → Cell → Value) :=
  ⟨fun _ _ _ => rfl, fun cell member _ _ agree => agree cell member⟩

theorem worksOn_update [DecidableEq Cell] {cell : Cell} (member : cell ∈ cells) (change : Value → Value) :
    WorksOn cells fun store => Function.update store cell (change (store cell)) := by
  constructor
  · intro store away outside
    have differs : away ≠ cell := fun same => outside (same ▸ member)
    exact Function.update_of_ne differs _ _
  · intro place inside left right agree
    by_cases same : place = cell
    · subst same
      simp only [Function.update_self]
      rw [agree place member]
    · simp only [Function.update_of_ne same]
      exact agree place inside

namespace WorksOn

variable {first second : (Cell → Value) → Cell → Value}

theorem comp (before : WorksOn cells first) (after : WorksOn cells second) :
    WorksOn cells fun store => second (first store) := by
  constructor
  · intro store cell outside
    rw [after.outside _ cell outside, before.outside store cell outside]
  · intro cell member left right agree
    exact after.inside cell member (fun place inside => before.inside place inside agree)

/-- An operation whose branches work on the cells works on them if the choice between the branches
    depends on nothing but the cells. -/
theorem choice {choose : (Cell → Value) → Choice} {act : (Cell → Value) → Cell → Value}
    (depends : DependsOn choose cells)
    (each : ∀ chosen, ∃ branch, WorksOn cells branch ∧ ∀ store, choose store = chosen → act store = branch store) :
    WorksOn cells act := by
  constructor
  · intro store
    obtain ⟨branch, works, same⟩ := each (choose store)
    rw [same store rfl]
    exact works.outside store
  · intro cell member left right agree
    obtain ⟨branch, works, same⟩ := each (choose right)
    simp only
    rw [same left (depends agree), same right rfl]
    exact works.inside cell member agree

/-- Operations on disjoint sets of cells commute. -/
theorem commute (left : WorksOn cells first) (right : WorksOn other second) (apart : Disjoint cells other)
    (store : Cell → Value) : second (first store) = first (second store) := by
  funext cell
  by_cases here : cell ∈ cells
  · have away := Set.disjoint_left.mp apart here
    rw [right.outside _ cell away]
    apply left.inside cell here
    intro place inside
    exact (right.outside store place (Set.disjoint_left.mp apart inside)).symm
  · rw [left.outside _ cell here]
    by_cases there : cell ∈ other
    · apply right.inside cell there
      intro place inside
      exact left.outside store place (Set.disjoint_right.mp apart inside)
    · rw [right.outside _ cell there, right.outside _ cell there, left.outside _ cell here]

end WorksOn

end Stores

section Merges

variable {State Step : Type}

/-- The third list runs the first two against each other, each of them in its own order. -/
inductive Merged : List Step → List Step → List Step → Prop where
  | nil : Merged [] [] []
  | left (step : Step) {left right merged : List Step} : Merged left right merged →
      Merged (step :: left) right (step :: merged)
  | right (step : Step) {left right merged : List Step} : Merged left right merged →
      Merged left (step :: right) (step :: merged)

variable {perform : State → Step → State} {left right merged : List Step}

theorem foldl_swap {step : Step} (commute : ∀ earlier ∈ left, ∀ state,
      perform (perform state earlier) step = perform (perform state step) earlier) (state : State) :
    perform (left.foldl perform state) step = left.foldl perform (perform state step) := by
  induction left generalizing state with
  | nil => rfl
  | cons earlier rest ih =>
    rw [List.foldl_cons, List.foldl_cons, ih (fun later member => commute later (List.mem_cons_of_mem earlier member)),
      commute earlier List.mem_cons_self]

/-- A merge of two runs whose steps commute ends as the runs do one after the other. -/
theorem Merged.foldl_eq (merge : Merged left right merged)
    (commute : ∀ first ∈ left, ∀ second ∈ right, ∀ state,
      perform (perform state first) second = perform (perform state second) first) (state : State) :
    merged.foldl perform state = right.foldl perform (left.foldl perform state) := by
  induction merge generalizing state with
  | nil => rfl
  | left step _ ih =>
    rw [List.foldl_cons, List.foldl_cons]
    exact ih (fun first member => commute first (List.mem_cons_of_mem step member)) _
  | right step _ ih =>
    rw [List.foldl_cons, List.foldl_cons, ih (fun first here second there =>
      commute first here second (List.mem_cons_of_mem step there))]
    rw [foldl_swap (fun earlier member => commute earlier member step List.mem_cons_self)]

end Merges

end Library
