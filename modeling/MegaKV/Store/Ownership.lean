import MegaKV.Store.Recorded

namespace MegaKV.Store

open Library Slab Scheduler

variable {workers numSchedInsDel : Nat} {s t : Node workers} {worker : Worker workers}

section History

/-- The item of a counted delete job has not been handed out since its eviction. -/
def Awaits (history : List (Event workers)) (worker : Worker workers) (old : Queued Hash.DElem) : Prop :=
  Since (fun event => event = .evicted worker old) (fun event => ∃ other job, event = .handedOut other old.elem.loc job)
    history

def Reuses (history : List (Event workers)) (worker : Worker workers) (old : Queued Hash.DElem) (other : Worker workers)
    (new : Queued Hash.IElem) : Prop :=
  Happened (fun event => event = .handedOut other old.elem.loc (some new)) (fun past => Awaits past worker old) history

/-- A refill hands out nothing. -/
theorem awaits_refilled {history events : List (Event workers)} {elems : List Hash.DElem}
    (evictions : ∀ event ∈ events, ∃ old, event = .evicted worker old ∧ old.elem ∈ elems) {other : Worker workers}
    {old : Queued Hash.DElem} (awaits : Awaits (history ++ events) other old) :
    (other = worker ∧ old.elem ∈ elems) ∨ Awaits history other old := by
  have quiet : ∀ event ∈ events, ¬∃ other job, event = .handedOut other old.elem.loc job := by
    rintro event member ⟨_, _, same⟩
    obtain ⟨_, eviction, _⟩ := evictions event member
    rw [same] at eviction
    cases eviction
  rcases (since_append quiet).mp awaits with ⟨event, member, same⟩ | past
  · obtain ⟨counted, eviction, job⟩ := evictions event member
    rw [same] at eviction
    cases eviction
    exact .inl ⟨rfl, job⟩
  · exact .inr past

theorem reuses_refilled {history events : List (Event workers)} {elems : List Hash.DElem}
    (evictions : ∀ event ∈ events, ∃ old, event = .evicted worker old ∧ old.elem ∈ elems)
    {owner other : Worker workers} {old : Queued Hash.DElem} {new : Queued Hash.IElem}
    (reuses : Reuses (history ++ events) owner old other new) :
    Reuses history owner old other new := by
  apply (happened_append ?_).mp reuses
  intro event member same
  obtain ⟨_, eviction, _⟩ := evictions event member
  rw [same] at eviction
  cases eviction

theorem awaits_handedOut {history : List (Event workers)} {loc : BitVec 32} {job : Option (Queued Hash.IElem)}
    {other : Worker workers} {old : Queued Hash.DElem}
    (awaits : Awaits (history ++ [.handedOut worker loc job]) other old) :
    Awaits history other old ∧ loc ≠ old.elem.loc := by
  rcases since_append_single.mp awaits with same | ⟨past, still⟩
  · cases same
  · refine ⟨past, ?_⟩
    intro same
    subst same
    exact still ⟨worker, job, rfl⟩

theorem reuses_handedOut {history : List (Event workers)} {loc : BitVec 32} {job : Option (Queued Hash.IElem)}
    {owner other : Worker workers} {old : Queued Hash.DElem} {new : Queued Hash.IElem}
    (reuses : Reuses (history ++ [.handedOut worker loc job]) owner old other new) :
    (worker = other ∧ loc = old.elem.loc ∧ job = some new ∧ Awaits history owner old) ∨
      Reuses history owner old other new := by
  rcases happened_append_single.mp reuses with ⟨same, past⟩ | past
  · cases same
    exact .inl ⟨rfl, rfl, rfl, past⟩
  · exact .inr past

end History

section Lists

def Node.slab (s : Node workers) : Slab.State (Worker workers) := { memory := s.memory, batchSet := s.batch }

/-- The free lists, on which the items of the counted delete jobs wait for their next owner. -/
structure Owned (s : Node workers) (lists : Worker workers × Nat → List Ptr) (classes : Worker workers × Nat → Nat) :
    Prop where
  held : Held s.slab lists classes
  waits : ∀ worker old, Awaits s.history worker old → ∃ i, ∃ q ∈ lists (worker, i), s.locOf q = old.elem.loc

variable {lists : Worker workers × Nat → List Ptr} {classes : Worker workers × Nat → Nat}

theorem held_congr {a b : Slab.State (Worker workers)} (memory : b.memory = a.memory) (heads : b.heads = a.heads)
    (held : Held a lists classes) : Held b lists classes := by
  refine ⟨?_, ?_⟩
  · rw [memory]
    exact held.sound
  · rw [memory, heads]
    exact held.held

theorem Owned.congr (owned : Owned s lists classes) (memory : t.memory = s.memory) (localSlab : t.localSlab = s.localSlab)
    (history : t.history = s.history) : Owned t lists classes := by
  refine ⟨held_congr (a := s.slab) (b := t.slab) memory ?_ owned.held, ?_⟩
  · funext k
    exact congrFun (congrFun localSlab k.1) k.2
  · intro worker old awaits
    rw [history] at awaits
    obtain ⟨i, q, member, loc⟩ := owned.waits worker old awaits
    refine ⟨i, q, member, ?_⟩
    rw [← loc, Node.locOf, Node.locOf, memory]

/-- Of the items on the lists no two have the same location. -/
theorem Owned.locOf_inj (owned : Owned s lists classes) {k l : Worker workers × Nat} {p q : Ptr} (left : p ∈ lists k)
    (right : q ∈ lists l) (same : s.locOf p = s.locOf q) : p = q := by
  have sound : s.memory.Sound := owned.held.sound
  obtain ⟨o, inside, item, _⟩ := owned.held.held.inside k p left
  obtain ⟨x, within, other, _⟩ := owned.held.held.inside l q right
  change s.memory.Inside (classes k) o at inside
  change s.memory.Inside (classes l) x at within
  have first : (s.memory.heap p).loc = classes k * 2 ^ 29 + o := by
    rw [item]
    exact sound.loc _ o inside
  have second : (s.memory.heap q).loc = classes l * 2 ^ 29 + x := by
    rw [other]
    exact sound.loc _ x within
  have low := sound.offset_lt inside
  have high := sound.offset_lt within
  have small : classes k ≤ 7 := inside.1
  have smaller : classes l ≤ 7 := within.1
  have words := congrArg BitVec.toNat same
  rw [Node.locOf, Node.locOf, BitVec.toNat_ofNat, BitVec.toNat_ofNat, first, second] at words
  obtain ⟨class_eq, offset_eq⟩ : classes k = classes l ∧ o = x := by omega
  rw [item, other, class_eq, offset_eq]

theorem Owned.apart (owned : Owned s lists classes) {k l : Worker workers × Nat} {q : Ptr} (left : q ∈ lists k)
    (right : q ∈ lists l) : k = l := by
  by_contra different
  exact owned.held.held.disjoint k l different left right

end Lists

section Refill

variable {lists : Worker workers × Nat → List Ptr} {classes : Worker workers × Nat → Nat} {supply : Supply} {size : Nat}
  {itList : Option Ptr} {m : Memory} {bufs : DeleteBufs}

/-- A refill leaves the events before it, and its own are the evictions whose jobs it counts. -/
theorem refill_events (s : Node workers) (worker : Worker workers) (size : Nat) (itList : Option Ptr) (m : Memory)
    (bufs : DeleteBufs) :
    ∃ events, (s.refill worker size itList m bufs).history = s.history ++ events ∧
      ∀ event ∈ events, ∃ old, event = .evicted worker old ∧ old.elem ∈ s.countedDeletes worker bufs :=
  queueDeletes_history (s.countedDeletes worker bufs) s

theorem refill_heads (s : Node workers) (worker : Worker workers) (size : Nat) (itList : Option Ptr) (m : Memory)
    (bufs : DeleteBufs) :
    (s.refill worker size itList m bufs).slab.heads =
      Function.update s.slab.heads (worker, pickList size) itList := by
  funext ⟨other, i⟩
  change Function.update s.localSlab worker (Function.update (s.localSlab worker) (pickList size) itList) other i =
    Function.update (fun k => s.localSlab k.1 k.2) (worker, pickList size) itList (other, i)
  by_cases owner : other = worker
  · subst owner
    by_cases list : i = pickList size
    · subst list
      simp
    · simp [list]
  · simp [owner]

theorem Owned.refill (owned : Owned s lists classes) (empty : s.localSlab worker (pickList size) = none)
    (result : itemAllocBatch supply (s.attempts worker) size s.memory (s.batch worker).buf = .ok (itList, m, bufs)) :
    ∃ lists classes, Owned (s.refill worker size itList m bufs) lists classes := by
  obtain ⟨events, longer, evictions⟩ := refill_events s worker size itList m bufs
  have heads := refill_heads s worker size itList m bufs
  have vacant : s.slab.heads (worker, pickList size) = none := empty
  rcases refill_cases owned.held.sound result with ⟨none, same, _, nothing⟩ | ⟨id, nodes, refilled⟩
  · refine ⟨lists, classes, ?_, ?_⟩
    · apply held_congr (a := s.slab) same _ owned.held
      rw [heads, none, ← vacant, Function.update_eq_self]
    · intro other old awaits
      rw [longer] at awaits
      rcases awaits_refilled evictions awaits with ⟨_, counted⟩ | past
      · rw [nothing] at counted
        cases counted
      · obtain ⟨i, q, member, loc⟩ := owned.waits other old past
        refine ⟨i, q, member, ?_⟩
        rw [← loc, Node.locOf, Node.locOf, Node.refill, same]
  · have sound : s.memory.Sound := owned.held.sound
    refine ⟨_, _, ⟨refilled.refilled.sound, heads ▸ owned.held.held.refill sound vacant refilled.refilled⟩, ?_⟩
    intro other old awaits
    rw [longer] at awaits
    rcases awaits_refilled evictions awaits with ⟨rfl, counted⟩ | past
    · obtain ⟨q, listed, made, _, loc⟩ := refilled.loc old.elem counted
      refine ⟨pickList size, q, ?_, ?_⟩
      · rw [Function.update_self]
        exact listed
      · rw [made]
        exact congrArg (BitVec.ofNat 32) loc
    · obtain ⟨i, q, member, loc⟩ := owned.waits other old past
      have different : (other, i) ≠ (worker, pickList size) := by
        intro same
        have chain := owned.held.held.chain (worker, pickList size)
        rw [vacant] at chain
        rw [same, chain.nil_of_none] at member
        cases member
      refine ⟨i, q, ?_, ?_⟩
      · rw [Function.update_of_ne different]
        exact member
      · have kept := owned.held.held.refill_same sound refilled.refilled member
        rw [← loc]
        exact congrArg (fun item => BitVec.ofNat 32 item.loc) kept

end Refill

section HandOut

variable {lists : Worker workers × Nat → List Ptr} {classes : Worker workers × Nat → Nat} {i : Nat} {it : Ptr}
  {rest : List Ptr} {job : Option (Queued Hash.IElem)}

theorem Owned.handOut (owned : Owned s lists classes) (list : lists (worker, i) = it :: rest)
    (held : Held t.slab (Function.update lists (worker, i) rest) classes) (locs : ∀ q, t.locOf q = s.locOf q)
    (history : t.history = s.history ++ [.handedOut worker (s.locOf it) job]) :
    Owned t (Function.update lists (worker, i) rest) classes := by
  refine ⟨held, ?_⟩
  intro other old awaits
  rw [history] at awaits
  obtain ⟨past, different⟩ := awaits_handedOut awaits
  obtain ⟨j, q, member, loc⟩ := owned.waits other old past
  refine ⟨j, q, ?_, (locs q).trans loc⟩
  have other_item : q ≠ it := by
    intro same
    rw [same] at loc
    exact different loc
  by_cases here : (other, j) = (worker, i)
  · rw [here, list] at member
    rw [here, Function.update_self]
    exact (List.mem_cons.mp member).resolve_left other_item
  · rw [Function.update_of_ne here]
    exact member

/-- Each reuse of an evicted item is by the worker that evicted it, no earlier than the eviction. -/
def Matched (s : Node workers) : Prop :=
  ∀ owner old other new, Reuses s.history owner old other new →
    other = owner ∧ new.elem.loc = old.elem.loc ∧ old.interval ≤ new.interval

/-- A worker hands out items of its own lists only. -/
theorem Matched.handOut (matched : Matched s) (owned : Owned s lists classes) (logged : Logged s)
    (list : lists (worker, i) = it :: rest)
    (now : ∀ new, job = some new → new.elem.loc = s.locOf it ∧ new.interval = interval s.jobs.hand worker)
    (history : t.history = s.history ++ [.handedOut worker (s.locOf it) job]) : Matched t := by
  intro owner old other new reuses
  rw [history] at reuses
  rcases reuses_handedOut reuses with ⟨same, location, made, awaits⟩ | past
  · subst same
    obtain ⟨loc, time⟩ := now new made
    obtain ⟨j, q, member, waiting⟩ := owned.waits owner old awaits
    have first : it ∈ lists (worker, i) := by
      rw [list]
      exact List.mem_cons_self
    have equal := owned.locOf_inj first member (location.trans waiting.symm)
    subst equal
    have place := owned.apart first member
    have mine : worker = owner := congrArg Prod.fst place
    obtain ⟨event, recorded, eviction⟩ := Since.member awaits
    rw [eviction] at recorded
    refine ⟨mine, loc.trans location, ?_⟩
    rw [time, mine]
    exact (logged owner old recorded).2
  · exact matched owner old other new past

end HandOut

section Set

variable {lists : Worker workers × Nat → List Ptr} {classes : Worker workers × Nat → Nat} {build : Receiver.Build}
  {nkey nbyte : Nat} {bytes : Nat → Byte} {sig : BitVec 64} {it : Ptr} {m : Memory} {batch : Slab.Batch}

theorem setFlags_same {flags : Nat} (same : (s.memory.heap it).flags = flags) : s.setFlags it flags = s := by
  have item : { s.memory.heap it with flags := flags } = s.memory.heap it := by rw [← same]
  rw [Node.setFlags, item, Function.update_eq_self]

/-- What `process_packet` has done with an item from its lists: the SET is refused or has its job counted. -/
inductive Answered (s t : Node workers) (worker : Worker workers) (it : Ptr) : Option (Queued Hash.IElem) → Prop
  | refused (jobs : t.jobs = s.jobs) : Answered s t worker it none
  | queued (elem : Hash.IElem) (loc : elem.loc = s.locOf it) (fits : InsertFits (s.jobs.own worker) elem)
      (jobs : t.jobs = s.jobs.queueInsert worker elem) : Answered s t worker it (some (s.jobs.tag worker elem))

theorem insertJob_answered (s : Node workers) (build : Receiver.Build) (worker : Worker workers) (nkey nbyte : Nat)
    (sig : BitVec 64) (free : (s.memory.heap it).flags = 0) :
    ∃ job, Answered s (s.insertJob build worker it nkey nbyte sig) worker it job ∧
      (s.insertJob build worker it nkey nbyte sig).memory = s.memory ∧
      (s.insertJob build worker it nkey nbyte sig).localSlab = s.localSlab ∧
      (s.insertJob build worker it nkey nbyte sig).kernels = s.kernels ∧
      (s.insertJob build worker it nkey nbyte sig).history = s.history ++ [.handedOut worker (s.locOf it) job] := by
  have refused : (s.refuse worker it).jobs = s.jobs ∧ (s.refuse worker it).memory = s.memory := by
    rw [Node.refuse, setFlags_same free]
    exact ⟨rfl, rfl⟩
  rw [Node.insertJob]
  split
  · exact ⟨none, .refused refused.1, refused.2, rfl, rfl, rfl⟩
  · split
    · rename_i fits
      exact ⟨_, .queued _ rfl fits rfl, rfl, rfl, rfl, rfl⟩
    · exact ⟨none, .refused refused.1, refused.2, rfl, rfl, rfl⟩

theorem takeItem_loc {i : Nat} {m' : Memory} {b : Slab.Batch} (taken : takeItem i m b = .ok (it, m', batch)) (q : Ptr) :
    (m'.heap q).loc = (m.heap q).loc := by
  simp only [takeItem] at taken
  split at taken
  · contradiction
  · cases taken
    by_cases here : q = it
    · simp [here]
    · simp [here]

def Node.filled (s : Node workers) (worker : Worker workers) (nkey nbyte : Nat) (bytes : Nat → Byte) (it : Ptr)
    (m : Memory) (batch : Slab.Batch) : Node workers :=
  { s with memory := m, localSlab := Function.update s.localSlab worker batch.localSlab }.storeItem it nkey nbyte
    fun k => if k < (nkey + nbyte) % 2 ^ 32 then bytes k else (m.heap it).data k

theorem filled_header (q : Ptr) :
    ((s.filled worker nkey nbyte bytes it m batch).memory.heap q).flags = (m.heap q).flags ∧
      ((s.filled worker nkey nbyte bytes it m batch).memory.heap q).loc = (m.heap q).loc := by
  by_cases here : q = it
  · simp [Node.filled, Node.storeItem, here]
  · simp [Node.filled, Node.storeItem, here]

theorem filled_heads : (s.filled worker nkey nbyte bytes it m batch).slab.heads =
    ({ s.slab with memory := m }.setBatch worker batch).heads := by
  funext ⟨other, j⟩
  change Function.update s.localSlab worker batch.localSlab other j =
    (Function.update s.batch worker batch other).localSlab j
  by_cases owner : other = worker
  · rw [owner, Function.update_self, Function.update_self]
  · rw [Function.update_of_ne owner, Function.update_of_ne owner]
    rfl

theorem Owned.filled (owned : Owned s lists classes) (nkey nbyte : Nat) (bytes : Nat → Byte) {i : Nat}
    (taken : takeItem i s.memory (s.batch worker) = .ok (it, m, batch)) :
    ∃ rest, lists (worker, i) = it :: rest ∧ (m.heap it).flags = 0 ∧
      Held (s.filled worker nkey nbyte bytes it m batch).slab (Function.update lists (worker, i) rest) classes := by
  obtain ⟨rest, list, flags, _, _, _, after⟩ := takeItem_held owned.held taken
  refine ⟨rest, list, flags, ?_⟩
  let data := fun k => if k < (nkey + nbyte) % 2 ^ 32 then bytes k else (m.heap it).data k
  exact held_congr (a := ({ s.slab with memory := m }.setBatch worker batch).store it nkey nbyte data) rfl filled_heads
    (after.store it nkey nbyte data)

/-- A SET takes the first item of its list. -/
theorem set_answered (owned : Owned s lists classes) (build : Receiver.Build) (nkey nbyte : Nat) (bytes : Nat → Byte)
    (sig : BitVec 64) {i : Nat} (taken : takeItem i s.memory (s.batch worker) = .ok (it, m, batch)) :
    ∃ rest job, lists (worker, i) = it :: rest ∧
      Answered s (s.set build worker nkey nbyte bytes sig it m batch) worker it job ∧
      Held (s.set build worker nkey nbyte bytes sig it m batch).slab (Function.update lists (worker, i) rest) classes ∧
      (∀ q, (s.set build worker nkey nbyte bytes sig it m batch).locOf q = s.locOf q) ∧
      (s.set build worker nkey nbyte bytes sig it m batch).kernels = s.kernels ∧
      (s.set build worker nkey nbyte bytes sig it m batch).history =
        s.history ++ [.handedOut worker (s.locOf it) job] := by
  obtain ⟨rest, list, flags, held⟩ := owned.filled nkey nbyte bytes taken
  have same : s.set build worker nkey nbyte bytes sig it m batch =
      (s.filled worker nkey nbyte bytes it m batch).insertJob build worker it nkey nbyte sig := rfl
  have locs : ∀ q, (s.filled worker nkey nbyte bytes it m batch).locOf q = s.locOf q := by
    intro q
    rw [Node.locOf, Node.locOf, (filled_header q).2, takeItem_loc taken]
  have free : ((s.filled worker nkey nbyte bytes it m batch).memory.heap it).flags = 0 :=
    (filled_header it).1.trans flags
  obtain ⟨job, answered, memory, localSlab, kernels, history⟩ :=
    insertJob_answered (s.filled worker nkey nbyte bytes it m batch) build worker nkey nbyte sig free
  rw [← same] at answered memory localSlab kernels history
  refine ⟨rest, job, list, ?_, ?_, ?_, kernels, ?_⟩
  · cases answered with
    | refused jobs => exact .refused jobs
    | queued elem loc fits jobs => exact .queued elem (loc.trans (locs it)) fits jobs
  · refine held_congr (a := (s.filled worker nkey nbyte bytes it m batch).slab) memory ?_ held
    funext k
    exact congrFun (congrFun localSlab k.1) k.2
  · intro q
    rw [← locs q, Node.locOf, Node.locOf, memory]
  · rw [history, locs]
    rfl

end Set

end MegaKV.Store
