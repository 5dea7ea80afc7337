import MegaKV.Library.Locality

namespace Library

/-- Who begins a piece of work, or who makes the next access of the task it is at. -/
inductive Turn (Who Work : Type) where
  | start (who : Who) (work : Work)
  | access (who : Who)

def Turn.who {Who Work : Type} : Turn Who Work → Who
  | .start who _ => who
  | .access who => who

def Turn.accesses {Who Work : Type} [DecidableEq Who] (who : Who) : Turn Who Work → Bool
  | .start _ _ => false
  | .access other => other == who

/-- A shared store and the tasks at work on it. -/
structure Pool (Who Task Store : Type) where
  store : Store
  task : Who → Option Task

namespace Pool

variable {Who Work Task Store : Type} [DecidableEq Who]

section Turns

variable (begin : Work → Task) (access : Task → Store → Option Task × Store)

/-- An access leaves the rest of the task, if any. Nobody begins a task before the last one is over. -/
def turn (pool : Pool Who Task Store) : Turn Who Work → Pool Who Task Store
  | .start who work =>
    match pool.task who with
    | none => ⟨pool.store, Function.update pool.task who (some (begin work))⟩
    | some _ => pool
  | .access who =>
    match pool.task who with
    | none => pool
    | some task => ⟨(access task pool.store).2, Function.update pool.task who (access task pool.store).1⟩

def turns (pool : Pool Who Task Store) (list : List (Turn Who Work)) : Pool Who Task Store :=
  list.foldl (turn begin access) pool

inductive Turned (pool : Pool Who Task Store) : Turn Who Work → Pool Who Task Store → Prop where
  | refused (who : Who) (work : Work) (present : Task) (busy : pool.task who = some present) :
      Turned pool (.start who work) pool
  | begun (who : Who) (work : Work) (free : pool.task who = none) :
      Turned pool (.start who work) ⟨pool.store, Function.update pool.task who (some (begin work))⟩
  | idle (who : Who) (free : pool.task who = none) : Turned pool (.access who) pool
  | accessed (who : Who) (task : Task) (busy : pool.task who = some task) :
      Turned pool (.access who)
        ⟨(access task pool.store).2, Function.update pool.task who (access task pool.store).1⟩

theorem turned (pool : Pool Who Task Store) (turn : Turn Who Work) :
    ∃ after, pool.turn begin access turn = after ∧ Turned begin access pool turn after := by
  refine ⟨_, rfl, ?_⟩
  cases turn with
  | start who work =>
    cases present : pool.task who with
    | none =>
      simp only [Pool.turn, present]
      exact .begun who work present
    | some busy =>
      simp only [Pool.turn, present]
      exact .refused who work busy present
  | access who =>
    cases present : pool.task who with
    | none =>
      simp only [Pool.turn, present]
      exact .idle who present
    | some task =>
      simp only [Pool.turn, present]
      exact .accessed who task present

end Turns

variable {begin : Work → Task} {access : Task → Store → Option Task × Store} {pool : Pool Who Task Store}
  {list : List (Turn Who Work)}

theorem turns_append (list more : List (Turn Who Work)) :
    pool.turns begin access (list ++ more) = (pool.turns begin access list).turns begin access more := List.foldl_append

theorem update_task {task : Who → Option Task} {who other : Who} {next : Option Task} {found : Task}
    (here : Function.update task who next other = some found) :
    (other = who ∧ next = some found) ∨ (other ≠ who ∧ task other = some found) := by
  by_cases same : other = who
  · rw [same, Function.update_self] at here
    exact .inl ⟨same, here⟩
  · rw [Function.update_of_ne same] at here
    exact .inr ⟨same, here⟩

section Grants

variable (begin : Work → Task) (access : Task → Store → Option Task × Store)

def Granted (pool : Pool Who Task Store) : List (Turn Who Work) → Prop
  | [] => True
  | turn :: rest =>
    (∀ who work, turn = .start who work → pool.task who = none) ∧ (pool.turn begin access turn).Granted rest

/-- The pieces of work begun by somebody who was free to, in order. -/
def begunWork (pool : Pool Who Task Store) : List (Turn Who Work) → List Work
  | [] => []
  | .start who work :: rest =>
    let later := (pool.turn begin access (.start who work)).begunWork rest
    if (pool.task who).isSome then later else work :: later
  | .access who :: rest => (pool.turn begin access (.access who)).begunWork rest

variable {begin access}

theorem mem_begunWork_first {who : Who} {work : Work} (free : pool.task who = none) :
    work ∈ pool.begunWork begin access (.start who work :: list) := by
  rw [begunWork, free]
  exact List.mem_cons_self

theorem mem_begunWork_later {first : Turn Who Work} {work : Work}
    (later : work ∈ (pool.turn begin access first).begunWork begin access list) :
    work ∈ pool.begunWork begin access (first :: list) := by
  cases first with
  | start who other =>
    rw [begunWork]
    split
    · exact later
    · exact List.mem_cons_of_mem other later
  | access who => exact later

theorem begunWork_started {work : Work} (begun : work ∈ pool.begunWork begin access list) :
    ∃ who, .start who work ∈ list := by
  induction list generalizing pool with
  | nil => cases begun
  | cons first rest ih =>
    have later : ∀ next : Pool Who Task Store, work ∈ next.begunWork begin access rest →
        ∃ who, .start who work ∈ first :: rest := by
      intro next there
      obtain ⟨who, member⟩ := ih there
      exact ⟨who, List.mem_cons_of_mem first member⟩
    cases first with
    | access who => exact later _ begun
    | start who other =>
      rw [begunWork] at begun
      split at begun
      · exact later _ begun
      · rcases List.mem_cons.mp begun with here | there
        · rw [here]
          exact ⟨who, List.mem_cons_self⟩
        · exact later _ there

theorem granted_append {more : List (Turn Who Work)} (granted : pool.Granted begin access list)
    (later : (pool.turns begin access list).Granted begin access more) : pool.Granted begin access (list ++ more) := by
  induction list generalizing pool with
  | nil => exact later
  | cons turn rest ih => exact ⟨granted.1, ih granted.2 later⟩

end Grants

section Invariants

/-- What holds of the store, and what each task at work relies on. -/
structure Keeps (holds : Store → Prop) (own : Store → Task → Prop) (pool : Pool Who Task Store) : Prop where
  store : holds pool.store
  tasks : ∀ who task, pool.task who = some task → own pool.store task

variable {holds : Store → Prop} {own : Store → Task → Prop}

theorem Keeps.turn (keeps : Keeps holds own pool) (turn : Turn Who Work)
    (kept : ∀ task store, holds store → own store task →
      holds (access task store).2 ∧ ∀ next, (access task store).1 = some next → own (access task store).2 next)
    (stable : ∀ task other store, holds store → own store task → own store other → own (access task store).2 other)
    (begins : ∀ who work, turn = .start who work → pool.task who = none →
      ∀ store, holds store → own store (begin work)) :
    Keeps holds own (pool.turn begin access turn) := by
  obtain ⟨after, same, turned⟩ := turned begin access pool turn
  rw [same]
  cases turned with
  | refused who work present busy => exact keeps
  | begun who work free =>
    refine ⟨keeps.store, ?_⟩
    intro other found here
    rcases update_task here with ⟨_, new⟩ | ⟨_, old⟩
    · cases new
      exact begins who work rfl free _ keeps.store
    · exact keeps.tasks other found old
  | idle who free => exact keeps
  | accessed who task busy =>
    obtain ⟨after, rest⟩ := kept task pool.store keeps.store (keeps.tasks who task busy)
    refine ⟨after, ?_⟩
    intro other found here
    rcases update_task here with ⟨_, new⟩ | ⟨_, old⟩
    · exact rest found new
    · exact stable task found pool.store keeps.store (keeps.tasks who task busy) (keeps.tasks other found old)

/-- A property that no access breaks, for itself or for the others, holds after any turns. -/
theorem Keeps.turns (keeps : Keeps holds own pool)
    (kept : ∀ task store, holds store → own store task →
      holds (access task store).2 ∧ ∀ next, (access task store).1 = some next → own (access task store).2 next)
    (stable : ∀ task other store, holds store → own store task → own store other → own (access task store).2 other)
    (begins : ∀ work ∈ pool.begunWork begin access list, ∀ store, holds store → own store (begin work)) :
    Keeps holds own (pool.turns begin access list) := by
  induction list generalizing pool with
  | nil => exact keeps
  | cons first rest ih =>
    have next : Keeps holds own (pool.turn begin access first) := by
      apply keeps.turn first kept stable
      rintro who work rfl free
      exact begins work (mem_begunWork_first free)
    exact ih next (fun work later => begins work (mem_begunWork_later later))

end Invariants

section Progress

variable (begin access) in
def raisedIn (raised : Store → Store → Nat) (pool : Pool Who Task Store) : List (Turn Who Work) → Nat
  | [] => 0
  | first :: rest =>
    raised pool.store (pool.turn begin access first).store + raisedIn raised (pool.turn begin access first) rest

variable {measure : Store → Task → Nat} {raised : Store → Store → Nat} {who : Who}

theorem idle_turn {turn : Turn Who Work} (free : pool.task who = none) (unstarted : ∀ work, turn ≠ .start who work) :
    (pool.turn begin access turn).task who = none := by
  obtain ⟨after, same, turned⟩ := turned begin access pool turn
  rw [same]
  cases turned with
  | refused other work present busy => exact free
  | begun other work _ =>
    have differs : who ≠ other := fun same => unstarted work (by rw [same])
    exact (Function.update_of_ne differs _ _).trans free
  | idle other _ => exact free
  | accessed other task busy =>
    have differs : who ≠ other := by
      rintro rfl
      rw [free] at busy
      cases busy
    exact (Function.update_of_ne differs _ _).trans free

theorem idle_turns (free : pool.task who = none) (unstarted : ∀ work, .start who work ∉ list) :
    (pool.turns begin access list).task who = none := by
  induction list generalizing pool with
  | nil => exact free
  | cons first rest ih =>
    apply ih (idle_turn free fun work same => unstarted work (same ▸ List.mem_cons_self))
    exact fun work member => unstarted work (List.mem_cons_of_mem _ member)

/-- An access of a task's own brings it nearer to its end, and those of others take it no further from it than they
    raise the measures. -/
structure Approaches (access : Task → Store → Option Task × Store) (measure : Store → Task → Nat)
    (raised : Store → Store → Nat) : Prop where
  own : ∀ task store next, (access task store).1 = some next →
    measure (access task store).2 next + 1 ≤ measure store task + raised store (access task store).2
  others : ∀ task other store,
    measure (access task store).2 other ≤ measure store other + raised store (access task store).2

theorem Approaches.turn (approaches : Approaches access measure raised) {turn : Turn Who Work} {task next : Task}
    (unstarted : ∀ work, turn ≠ .start who work) (before : pool.task who = some task)
    (after : (pool.turn begin access turn).task who = some next) :
    measure (pool.turn begin access turn).store next + (if turn.accesses who then 1 else 0) ≤
      measure pool.store task + raised pool.store (pool.turn begin access turn).store := by
  obtain ⟨reached, same, turned⟩ := turned begin access pool turn
  rw [same] at after ⊢
  cases turned with
  | refused other begun present busy =>
    rw [before] at after
    cases after
    exact Nat.le_add_right _ _
  | begun other begun free =>
    have differs : who ≠ other := fun same => unstarted begun (by rw [same])
    rcases update_task after with ⟨here, _⟩ | ⟨_, old⟩
    · exact absurd here differs
    · rw [before] at old
      cases old
      exact Nat.le_add_right _ _
  | idle other free =>
    have differs : ¬other = who := by
      rintro rfl
      rw [free] at before
      cases before
    rw [before] at after
    cases after
    simp only [Turn.accesses, beq_eq_false_iff_ne.mpr differs, Bool.false_eq_true, ite_false]
    exact Nat.le_add_right _ _
  | accessed other other_task busy =>
    rcases update_task after with ⟨rfl, rest⟩ | ⟨differs, old⟩
    · rw [before] at busy
      cases busy
      simp only [Turn.accesses, beq_self_eq_true, ite_true]
      exact approaches.own task pool.store next rest
    · rw [before] at old
      cases old
      simp only [Turn.accesses, beq_eq_false_iff_ne.mpr (Ne.symm differs), Bool.false_eq_true, ite_false]
      exact approaches.others other_task task pool.store

/-- Whoever is still at the task it was at has not made more accesses than the measure and what the others have
    raised it by. -/
theorem Approaches.turns (approaches : Approaches access measure raised) {task next : Task}
    (unstarted : ∀ work, .start who work ∉ list) (before : pool.task who = some task)
    (after : (pool.turns begin access list).task who = some next) :
    measure (pool.turns begin access list).store next + list.countP (Turn.accesses who) ≤
      measure pool.store task + raisedIn begin access raised pool list := by
  induction list generalizing pool task with
  | nil =>
    have same : pool.task who = some next := after
    rw [before] at same
    cases same
    exact Nat.le_refl _
  | cons first rest ih =>
    have noneHere : ∀ work, first ≠ .start who work := fun work same => unstarted work (same ▸ List.mem_cons_self)
    have noneLater : ∀ work, .start who work ∉ rest := fun work member =>
      unstarted work (List.mem_cons_of_mem _ member)
    cases present : (pool.turn begin access first).task who with
    | none =>
      have ended : ((pool.turn begin access first).turns begin access rest).task who = none := idle_turns present noneLater
      change ((pool.turn begin access first).turns begin access rest).task who = some next at after
      rw [ended] at after
      cases after
    | some middle =>
      have now := approaches.turn noneHere before present
      have later := ih noneLater present after
      rw [List.countP_cons, raisedIn]
      change measure ((pool.turn begin access first).turns begin access rest).store next + _ ≤ _
      omega

end Progress

section Alone

variable (access) in
/-- What a task leaves behind that nobody else comes in between. -/
inductive Alone : Task → Store → Store → Prop where
  | last (task : Task) (store : Store) (ends : (access task store).1 = none) : Alone task store (access task store).2
  | more (task next : Task) (store final : Store) (rest : (access task store).1 = some next)
      (alone : Alone next (access task store).2 final) : Alone task store final

theorem Alone.turns {task : Task} {store final : Store} (alone : Alone access task store final) {who : Who}
    {pool : Pool Who Task Store} (begun : pool.task who = some task) (same : pool.store = store) :
    ∃ n, pool.turns begin access (List.replicate n (.access who)) = ⟨final, Function.update pool.task who none⟩ := by
  induction alone generalizing pool with
  | last task store ends =>
    refine ⟨1, ?_⟩
    simp only [List.replicate, Pool.turns, List.foldl_cons, List.foldl_nil, Pool.turn, begun, same, ends]
  | more task next store final rest alone ih =>
    have after : pool.turn begin access (.access who) = ⟨(access task store).2, Function.update pool.task who next⟩ := by
      simp only [Pool.turn, begun, same, rest]
    obtain ⟨n, ended⟩ := @ih ⟨(access task store).2, Function.update pool.task who next⟩ (Function.update_self ..) rfl
    refine ⟨n + 1, ?_⟩
    rw [List.replicate_succ]
    change (pool.turn begin access (.access who)).turns begin access _ = _
    rw [after, ended, Function.update_idem]

end Alone

section Projection

variable {Place : Type} {agree : Place → Store → Store → Prop} {works : Task → Place → Prop}
  {place : Who → Place} {here : Place} {other : Pool Who Task Store}

/-- A task that works at a place sees and changes nothing else, and goes on there. -/
structure Local (access : Task → Store → Option Task × Store) (agree : Place → Store → Store → Prop)
    (works : Task → Place → Prop) : Prop where
  same : ∀ task here left right, works task here → agree here left right →
    (access task left).1 = (access task right).1 ∧ agree here (access task left).2 (access task right).2
  away : ∀ task there here left right, works task there → there ≠ here → agree here left right →
    agree here (access task left).2 right
  stays : ∀ task here store next, works task here → (access task store).1 = some next → works next here

def Placed (works : Task → Place → Prop) (place : Who → Place) (pool : Pool Who Task Store) : Prop :=
  ∀ who task, pool.task who = some task → works task (place who)

structure Alike (agree : Place → Store → Store → Prop) (place : Who → Place) (here : Place)
    (pool other : Pool Who Task Store) : Prop where
  store : agree here pool.store other.store
  tasks : ∀ who, place who = here → pool.task who = other.task who

theorem Placed.turn (placed : Placed works place pool) (isLocal : Local access agree works) {turn : Turn Who Work}
    (begins : ∀ who work, turn = .start who work → works (begin work) (place who)) :
    Placed works place (pool.turn begin access turn) := by
  obtain ⟨after, same, turned⟩ := turned begin access pool turn
  rw [same]
  intro who found here
  cases turned with
  | refused begun work present busy => exact placed who found here
  | begun begun work free =>
    rcases update_task here with ⟨equal, new⟩ | ⟨_, old⟩
    · cases new
      rw [equal]
      exact begins begun work rfl
    · exact placed who found old
  | idle begun free => exact placed who found here
  | accessed begun task busy =>
    rcases update_task here with ⟨equal, rest⟩ | ⟨_, old⟩
    · rw [equal]
      exact isLocal.stays task _ pool.store found (placed begun task busy) rest
    · exact placed who found old

theorem Alike.update (alike : Alike agree place here pool other) {store store' : Store} (who : Who)
    {next next' : Option Task} (stores : agree here store store') (same : place who = here → next = next') :
    Alike agree place here ⟨store, Function.update pool.task who next⟩
      ⟨store', Function.update other.task who next'⟩ := by
  refine ⟨stores, ?_⟩
  intro peer inside
  by_cases equal : peer = who
  · subst equal
    simp only [Function.update_self]
    exact same inside
  · simp only [Function.update_of_ne equal]
    exact alike.tasks peer inside

theorem Alike.turn_here (alike : Alike agree place here pool other) (isLocal : Local access agree works)
    (placed : Placed works place pool) {turn : Turn Who Work} (inside : place turn.who = here) :
    Alike agree place here (pool.turn begin access turn) (other.turn begin access turn) := by
  have tasks := alike.tasks turn.who inside
  cases turn with
  | start who task =>
    change pool.task who = other.task who at tasks
    cases present : pool.task who with
    | some busy =>
      rw [present] at tasks
      simp only [Pool.turn, present, ← tasks]
      exact alike
    | none =>
      rw [present] at tasks
      simp only [Pool.turn, present, ← tasks]
      exact alike.update who alike.store fun _ => rfl
  | access who =>
    change pool.task who = other.task who at tasks
    cases present : pool.task who with
    | none =>
      rw [present] at tasks
      simp only [Pool.turn, present, ← tasks]
      exact alike
    | some task =>
      rw [present] at tasks
      simp only [Pool.turn, present, ← tasks]
      have spot : works task here := inside ▸ placed who task present
      obtain ⟨next, stores⟩ := isLocal.same task here pool.store other.store spot alike.store
      exact alike.update who stores fun _ => next

theorem Alike.turn_away (alike : Alike agree place here pool other) (isLocal : Local access agree works)
    (placed : Placed works place pool) {turn : Turn Who Work} (outside : place turn.who ≠ here) :
    Alike agree place here (pool.turn begin access turn) other := by
  obtain ⟨after, same, turned⟩ := turned begin access pool turn
  rw [same]
  have elsewhere : ∀ (next : Option Task), ∀ peer, place peer = here →
      Function.update pool.task turn.who next peer = other.task peer := by
    intro next peer inside
    have differs : peer ≠ turn.who := fun equal => outside (equal ▸ inside)
    rw [Function.update_of_ne differs]
    exact alike.tasks peer inside
  cases turned with
  | refused begun work present busy => exact alike
  | begun begun work free => exact ⟨alike.store, elsewhere (some (begin work))⟩
  | idle begun free => exact alike
  | accessed begun task busy =>
    have stores := isLocal.away task (place begun) here pool.store other.store (placed begun task busy) outside alike.store
    exact ⟨stores, elsewhere _⟩

/-- What happens at a place is what its own turns alone would have made happen. -/
theorem Alike.turns [DecidableEq Place] (alike : Alike agree place here pool other) (isLocal : Local access agree works)
    (placed : Placed works place pool) (begins : ∀ who work, .start who work ∈ list → works (begin work) (place who)) :
    Alike agree place here (pool.turns begin access list)
      (other.turns begin access (list.filter fun turn => place turn.who = here)) := by
  induction list generalizing pool other with
  | nil => exact alike
  | cons first rest ih =>
    have later : ∀ who work, .start who work ∈ rest → works (begin work) (place who) := fun who work member =>
      begins who work (List.mem_cons_of_mem _ member)
    have now : Placed works place (pool.turn begin access first) :=
      placed.turn isLocal fun who work same => begins who work (same ▸ List.mem_cons_self)
    by_cases inside : place first.who = here
    · rw [List.filter_cons, if_pos (decide_eq_true inside)]
      exact ih (alike.turn_here isLocal placed inside) now later
    · rw [List.filter_cons, if_neg fun equal => inside (of_decide_eq_true equal)]
      exact ih (alike.turn_away isLocal placed inside) now later

end Projection

end Pool

end Library
