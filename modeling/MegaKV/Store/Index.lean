import MegaKV.Hash.Provenance
import MegaKV.Sender.Codec
import MegaKV.Store.Reuse

namespace MegaKV.Store

open Library Slab Scheduler

variable {workers numSchedInsDel : Nat} {s t : Node workers} {worker : Worker workers}

section Memory

variable {m m' : Slab.Memory}

theorem storeItem_slabclass (it : Ptr) (nkey nbyte : Nat) (data : Nat → Byte) :
    (s.storeItem it nkey nbyte data).memory.slabclass = s.memory.slabclass := rfl

theorem insertJob_slabclass (build : Receiver.Build) (it : Ptr) (nkey nbyte : Nat) (sig : BitVec 64) :
    (s.insertJob build worker it nkey nbyte sig).memory.slabclass = s.memory.slabclass := by
  rw [Node.insertJob]
  split
  · rfl
  · split
    · rfl
    · rfl

theorem takeItem_slabclass {i : Nat} {it : Ptr} {b batch : Slab.Batch} (taken : takeItem i m b = .ok (it, m', batch)) :
    m'.slabclass = m.slabclass := by
  simp only [takeItem] at taken
  split at taken
  · contradiction
  · cases taken
    rfl

theorem touch_slabs (id pos other : Nat) :
    ((s.touch id pos).memory.slabclass other).slabs = (s.memory.slabclass other).slabs := by
  by_cases here : other = id
  · subst here
    simp only [Node.touch, Memory.setClass_class]
  · simp only [Node.touch, Memory.setClass_other _ _ here]

theorem inside_of_slabs (slabs : ∀ id, (m'.slabclass id).slabs = (m.slabclass id).slabs) {id o : Nat}
    (inside : m.Inside id o) : m'.Inside id o := by
  rw [Memory.Inside, slabs id]
  exact inside

/-- Slabs are never given back. -/
theorem inside_step (consistent : Consistent numSchedInsDel s) (step : NodeStep numSchedInsDel s t) {id o : Nat}
    (inside : s.memory.Inside id o) : t.memory.Inside id o := by
  cases step with
  | refill worker supply size itList m bufs empty result =>
    obtain ⟨lists, classes, owned⟩ := consistent.owned
    rcases refill_cases owned.held.sound result with ⟨_, same, _, _⟩ | ⟨other, nodes, refilled⟩
    · change m.Inside id o
      rw [same]
      exact inside
    · exact refilled.refilled.grows.inside id o inside
  | set worker build v key nkey nbyte bytes sig it m batch read signature taken =>
    apply inside_of_slabs _ inside
    intro other
    rw [Node.set, insertJob_slabclass, storeItem_slabclass, takeItem_slabclass taken]
  | touch other pos bound => exact inside_of_slabs (touch_slabs other pos) inside
  | hand t step noKernels noPush => exact inside
  | launch gpuBufId turn => exact inside
  | refresh worker turn before => exact inside
  | push worker batch turn before pushed => exact inside

end Memory

section Queued

/-- Location `loc` is that of an item in an allocated slab. -/
def HasItem (m : Slab.Memory) (loc : Hash.Loc) : Prop :=
  ∃ id o, m.Inside id o ∧ BitVec.ofNat 32 (id * 2 ^ 29 + o) = loc

theorem HasItem.step {loc : Hash.Loc} (item : HasItem s.memory loc) (consistent : Consistent numSchedInsDel s)
    (step : NodeStep numSchedInsDel s t) : HasItem t.memory loc := by
  obtain ⟨id, o, inside, same⟩ := item
  exact ⟨id, o, inside_step consistent step inside, same⟩

def ItemsQueued (s : Node workers) : Prop :=
  ∀ worker new, .insert new ∈ s.jobs.queued worker → HasItem s.memory new.elem.loc

theorem queueDeletes_inserts (elems : List Hash.DElem) {other : Worker workers} {new : Queued Hash.IElem}
    (queued : .insert new ∈ (elems.foldl (Node.queueDelete worker) s).jobs.queued other) :
    .insert new ∈ s.jobs.queued other := by
  induction elems generalizing s with
  | nil => exact queued
  | cons elem rest ih =>
    have before := ih (s := s.queueDelete worker elem) queued
    by_cases here : other = worker
    · subst here
      have longer : (s.queueDelete other elem).jobs.queued other =
          s.jobs.queued other ++ [.delete (s.jobs.tag other elem)] := log_self
      rw [longer] at before
      rcases List.mem_append.mp before with old | last
      · exact old
      · cases List.mem_singleton.mp last
    · have same : (s.queueDelete worker elem).jobs.queued other = s.jobs.queued other := log_other here
      rwa [same] at before

/-- The items on the free lists have locations of their own. -/
theorem Owned.hasItem {lists : Worker workers × Nat → List Ptr} {classes : Worker workers × Nat → Nat}
    (owned : Owned s lists classes) {k : Worker workers × Nat} {it : Ptr} (member : it ∈ lists k) :
    HasItem s.memory (s.locOf it) := by
  have sound : s.memory.Sound := owned.held.sound
  obtain ⟨o, inside, item, _⟩ := owned.held.held.inside k it member
  change s.memory.Inside (classes k) o at inside
  change it = s.memory.item (classes k) o at item
  refine ⟨classes k, o, inside, ?_⟩
  rw [Node.locOf, item, sound.loc (classes k) o inside]

theorem ItemsQueued.step (items : ItemsQueued s) (consistent : Consistent numSchedInsDel s)
    (step : NodeStep numSchedInsDel s t) : ItemsQueued t := by
  have kept : ∀ worker new, .insert new ∈ s.jobs.queued worker → HasItem t.memory new.elem.loc :=
    fun worker new queued => (items worker new queued).step consistent step
  cases step with
  | refill worker supply size itList m bufs empty result =>
    intro other new queued
    exact kept other new (queueDeletes_inserts (s.countedDeletes worker bufs) queued)
  | set worker build v key nkey nbyte bytes sig it m batch read signature taken =>
    obtain ⟨lists, classes, owned⟩ := consistent.owned
    obtain ⟨rest, job, list, answered, _, _, _, _⟩ := set_answered owned build nkey nbyte bytes sig taken
    intro other new queued
    cases answered with
    | refused jobs =>
      rw [jobs] at queued
      exact kept other new queued
    | queued elem loc fits jobs =>
      rw [jobs] at queued
      by_cases here : other = worker
      · subst here
        have longer : (s.jobs.queueInsert other elem).queued other =
            s.jobs.queued other ++ [.insert (s.jobs.tag other elem)] := log_self
        rw [longer] at queued
        rcases List.mem_append.mp queued with old | last
        · exact kept other new old
        · cases List.mem_singleton.mp last
          have listed : it ∈ lists (other, pickList ((nkey + nbyte) % 2 ^ 32)) := by
            rw [list]
            exact List.mem_cons_self
          have before := owned.hasItem listed
          rw [← loc] at before
          exact before.step consistent (.set s other build v key nkey nbyte bytes sig it m batch read signature taken)
      · have same : (s.jobs.queueInsert worker elem).queued other = s.jobs.queued other := log_other here
        rw [same] at queued
        exact kept other new queued
  | touch id pos bound => exact kept
  | hand t step noKernels noPush => exact kept
  | launch gpuBufId turn => exact kept
  | refresh worker turn before => exact kept
  | push worker batch turn before pushed => exact kept

theorem queueDeletes_kept (elems : List Hash.DElem) {other : Worker workers} {job : Job}
    (queued : job ∈ s.jobs.queued other) : job ∈ (elems.foldl (Node.queueDelete worker) s).jobs.queued other := by
  induction elems generalizing s with
  | nil => exact queued
  | cons elem rest ih => exact ih (s := s.queueDelete worker elem) (log_mem queued)

/-- What is queued stays on the record. -/
theorem queued_step (step : NodeStep numSchedInsDel s t) {job : Job} (queued : job ∈ s.jobs.queued worker) :
    job ∈ t.jobs.queued worker := by
  cases step with
  | refill other supply size itList m bufs empty result =>
    exact queueDeletes_kept (s.countedDeletes other bufs) queued
  | set other build v key nkey nbyte bytes sig it m batch read signature taken =>
    change job ∈ ((s.filled other nkey nbyte bytes it m batch).insertJob build other it nkey nbyte sig).jobs.queued worker
    rw [Node.insertJob]
    split
    · exact queued
    · split
      · exact log_mem queued
      · exact queued
  | touch id pos bound => exact queued
  | hand t step noKernels noPush => exact queued
  | launch gpuBufId turn => exact queued
  | refresh other turn before => exact queued
  | push other batch turn before pushed => exact queued

theorem itemsQueued_reachable (reached : (node workers numSchedInsDel).Reachable s) : ItemsQueued s := by
  induction reached with
  | initial start =>
    intro worker new queued
    rw [(start.1.2.2 worker).2.1] at queued
    cases queued
  | step before next ih => exact ih.step (consistent_reachable before) next

end Queued

section Device

variable {g : Hash.Geometry} {Who : Type}

/-- What the kernels may take up: a job that a worker has queued, or any search. -/
def Node.Permits (s : Node workers) : Hash.Work g (Worker workers) → Prop
  | .insert elem => ∃ worker new, .insert new ∈ s.jobs.queued worker ∧ new.elem = elem
  | .delete elem => ∃ worker old, .delete old ∈ s.jobs.queued worker ∧ old.elem = elem
  | .search _ _ _ _ => True
  | .clear _ _ => True

variable (workers g Who) in
/-- The node with the index that the kernels work on. Each worker has one array for search results on the device. -/
structure Indexed where
  node : Node workers
  device : Pool Who (Hash.Task g (Worker workers)) (Hash.Device g (Worker workers))

variable [DecidableEq Who]

/-- The kernels access the index at any time, one access after the other. -/
inductive IndexedStep (numSchedInsDel : Nat) : Indexed workers g Who → Indexed workers g Who → Prop where
  | node (s : Indexed workers g Who) (t : Node workers) (step : NodeStep numSchedInsDel s.node t) :
      IndexedStep numSchedInsDel s { s with node := t }
  | turn (s : Indexed workers g Who) (turn : Turn Who (Hash.Work g (Worker workers)))
      (permitted : ∀ who work, turn = .start who work → s.node.Permits work) :
      IndexedStep numSchedInsDel s { s with device := s.device.turn Hash.begin Hash.access turn }

variable (workers numSchedInsDel g Who) in
def indexed (initial : Worker workers → Nat → Hash.Loc) : TransitionSystem (Indexed workers g Who) :=
  { initial := fun s => (node workers numSchedInsDel).initial s.node ∧ s.device = Hash.blankDevice Who initial
    step := IndexedStep numSchedInsDel }

variable {initial : Worker workers → Nat → Hash.Loc} {r : Indexed workers g Who}

theorem indexed_node (reached : (indexed workers numSchedInsDel g Who initial).Reachable r) :
    (node workers numSchedInsDel).Reachable r.node := by
  induction reached with
  | initial start => exact .initial start.1
  | step _ next before =>
    cases next with
    | node t step => exact before.step step
    | turn turn permitted => exact before

theorem permits_step (step : NodeStep numSchedInsDel s t) {work : Hash.Work g (Worker workers)}
    (permits : s.Permits work) : t.Permits work := by
  cases work with
  | insert elem =>
    obtain ⟨worker, new, queued, same⟩ := permits
    exact ⟨worker, new, queued_step step queued, same⟩
  | delete elem =>
    obtain ⟨worker, old, queued, same⟩ := permits
    exact ⟨worker, old, queued_step step queued, same⟩
  | search elem out id schedule => trivial
  | clear out numElem => trivial

/-- The index is what some interleaving has made of it, of work that the node has permitted. -/
theorem indexed_turns (reached : (indexed workers numSchedInsDel g Who initial).Reachable r) :
    ∃ turns, r.device = (Hash.blankDevice Who initial).turns Hash.begin Hash.access turns ∧
      ∀ who work, .start who work ∈ turns → r.node.Permits work := by
  induction reached with
  | initial start => exact ⟨[], start.2, by rintro who work ⟨⟩⟩
  | step _ next before =>
    obtain ⟨turns, device, permitted⟩ := before
    cases next with
    | node t step => exact ⟨turns, device, fun who work begun => permits_step step (permitted who work begun)⟩
    | turn turn allowed =>
      refine ⟨turns ++ [turn], ?_, ?_⟩
      · rw [Pool.turns_append, ← device]
        rfl
      · intro who work begun
        rcases List.mem_append.mp begun with old | last
        · exact permitted who work old
        · exact allowed who work (List.mem_singleton.mp last).symm

def Node.Holds (s : Node workers) (loc : Hash.Loc) : Prop := loc = 0 ∨ HasItem s.memory loc

/-- Whatever the workers, the scheduler and the kernels do in which order, the index holds no other locations, and the
    searches put out no others. -/
theorem index_holds (reached : (indexed workers numSchedInsDel g Who initial).Reachable r) :
    (∀ slot, r.node.Holds (Hash.entry r.device.store.table slot).2) ∧
      ∀ out position, r.device.store.out out position = initial out position ∨
        r.node.Holds (r.device.store.out out position) := by
  obtain ⟨turns, device, permitted⟩ := indexed_turns reached
  have items := itemsQueued_reachable (indexed_node reached)
  have held : ∀ elem ∈ Hash.startedElems (Hash.blankDevice Who initial) turns, r.node.Holds elem.loc := by
    intro elem member
    obtain ⟨who, begun⟩ := Pool.begunWork_started (Hash.mem_startedElems.mp member)
    obtain ⟨worker, new, queued, rfl⟩ := permitted who (.insert elem) begun
    exact .inr (items worker new queued)
  have fed := (@Hash.turns_fed g (Worker workers) Who _ _ initial turns).store
  rw [← device] at fed
  refine ⟨?_, ?_⟩
  · intro slot
    rcases (fed.table slot).loc with zero | ⟨elem, member, same, _⟩
    · exact .inl zero
    · exact same ▸ held elem member
  · intro out position
    rcases fed.out out position with kept | zero | ⟨elem, member, same⟩
    · exact .inl kept
    · exact .inr (.inl zero)
    · exact .inr (same ▸ held elem member)

/-- The location is no item's, or the sender gets from it to the item that carries it. -/
def Leads (m : Slab.Memory) (loc : Hash.Loc) : Prop :=
  loc = 0 ∨ ∃ id o, m.Inside id o ∧ BitVec.ofNat 32 (m.heap (m.item id o)).loc = loc ∧
    Sender.slabLocToPtrAsserts m loc = .ok (m.item id o) ∧ (Sender.itemGet m loc).map Prod.fst = some (m.item id o)

theorem HasItem.leads {m : Slab.Memory} {loc : Hash.Loc} (item : HasItem m loc) (sound : m.Sound) : Leads m loc := by
  obtain ⟨id, o, inside, rfl⟩ := item
  have coded := Sender.item_coded sound inside
  have same := sound.loc id o inside
  rw [same] at coded
  refine .inr ⟨id, o, inside, ?_, coded.ptr, coded.get⟩
  rw [same]

theorem Node.Holds.leads {loc : Hash.Loc} (holds : s.Holds loc) (reached : (node workers numSchedInsDel).Reachable s) :
    Leads s.memory loc := by
  obtain ⟨lists, classes, owned⟩ := (consistent_reachable reached).owned
  rcases holds with zero | item
  · exact .inl zero
  · exact item.leads owned.held.sound

end Device

end MegaKV.Store
