import MegaKV.Receiver.Writes
import MegaKV.Slab.Exhaustion
import MegaKV.Store.KernelOrder
import MegaKV.Store.Ownership

namespace MegaKV.Store

open Library Slab Scheduler

variable {workers numSchedInsDel : Nat} {s t : Node workers} {worker : Worker workers}

section Run

structure Consistent (numSchedInsDel : Nat) (s : Node workers) : Prop where
  jobs : (jobs workers numSchedInsDel).Reachable s.jobs
  logged : Logged s
  owned : ∃ lists classes, Owned s lists classes
  matched : Matched s
  launched : Launched s

theorem Matched.congr (matched : Matched s) (history : t.history = s.history) : Matched t := by
  rw [Matched, history]
  exact matched

/-- A step that neither hands out nor evicts. -/
theorem Consistent.quiet (consistent : Consistent numSchedInsDel s) (step : JobStep numSchedInsDel s.jobs t.jobs)
    (memory : t.memory = s.memory) (localSlab : t.localSlab = s.localSlab) (history : t.history = s.history)
    (launched : Launched t) : Consistent numSchedInsDel t := by
  obtain ⟨lists, classes, owned⟩ := consistent.owned
  refine ⟨consistent.jobs.step step, ?_, ⟨lists, classes, owned.congr memory localSlab history⟩,
    consistent.matched.congr history, launched⟩
  apply consistent.logged.step step (history.trans (List.append_nil _).symm)
  intro worker old member
  cases member

theorem Consistent.refill (consistent : Consistent numSchedInsDel s) {supply : Supply} {size : Nat}
    {itList : Option Ptr} {m : Memory} {bufs : DeleteBufs} (empty : s.localSlab worker (pickList size) = none)
    (result : itemAllocBatch supply (s.attempts worker) size s.memory (s.batch worker).buf = .ok (itList, m, bufs)) :
    Consistent numSchedInsDel (s.refill worker size itList m bufs) := by
  obtain ⟨lists, classes, owned⟩ := consistent.owned
  have lock := lockstep_reachable (jobs_hand consistent.jobs)
  have room : s.countedDeletes worker bufs ≠ [] →
      (s.jobs.own worker).numDeleteJob + (s.countedDeletes worker bufs).length < batchMaxDeleteJob := by
    rcases refill_cases owned.held.sound result with ⟨_, _, _, nothing⟩ | ⟨id, nodes, refilled⟩
    · exact fun some => absurd nothing some
    · exact refill_room lock refilled
  obtain ⟨reached, logged⟩ := queueDeletes_steps consistent.jobs consistent.logged room
  obtain ⟨_, _, kernels, hand, passes⟩ := queueDeletes_frame worker (s.countedDeletes worker bufs) s
  obtain ⟨events, longer, evictions⟩ := refill_events s worker size itList m bufs
  refine ⟨reached, logged, owned.refill empty result, ?_, ?_⟩
  · intro owner old other new reuses
    rw [longer] at reuses
    exact consistent.matched owner old other new (reuses_refilled evictions reuses)
  · exact consistent.launched.congr kernels passes (congrArg countedRound hand)

/-- Only the job of an answer is new. -/
theorem Answered.after {it : Ptr} {job : Option (Queued Hash.IElem)} (answered : Answered s t worker it job)
    (reached : (jobs workers numSchedInsDel).Reachable s.jobs) (logged : Logged s)
    (history : t.history = s.history ++ [.handedOut worker (s.locOf it) job]) :
    (jobs workers numSchedInsDel).Reachable t.jobs ∧ Logged t ∧ t.jobs.passes = s.jobs.passes ∧
      t.jobs.hand = s.jobs.hand ∧
      ∀ new, job = some new → new.elem.loc = s.locOf it ∧ new.interval = interval s.jobs.hand worker := by
  have earlier : ∀ owner old, .evicted owner old ∈ t.history → .evicted owner old ∈ s.history := by
    intro owner old member
    rw [history] at member
    rcases List.mem_append.mp member with before | last
    · exact before
    · cases List.mem_singleton.mp last
  cases answered with
  | refused jobs =>
    refine ⟨jobs ▸ reached, ?_, congrArg JobState.passes jobs, congrArg JobState.hand jobs, fun _ none => by cases none⟩
    intro owner old member
    rw [jobs]
    exact logged owner old (earlier owner old member)
  | queued elem loc fits jobs =>
    have step : JobStep numSchedInsDel s.jobs t.jobs := jobs ▸ .queueInsert s.jobs worker elem fits
    refine ⟨reached.step step, ?_, ?_, ?_, ?_⟩
    · intro owner old member
      obtain ⟨queued, bound⟩ := logged owner old (earlier owner old member)
      exact ⟨step.queued_mem queued, bound.trans (step.interval_le owner)⟩
    · rw [jobs]
      rfl
    · rw [jobs]
      rfl
    · rintro new ⟨⟩
      exact ⟨loc, rfl⟩

theorem Consistent.set (consistent : Consistent numSchedInsDel s) (build : Receiver.Build) (nkey nbyte : Nat)
    (bytes : Nat → Byte) (sig : BitVec 64) {i : Nat} {it : Ptr} {m : Memory} {batch : Slab.Batch}
    (taken : takeItem i s.memory (s.batch worker) = .ok (it, m, batch)) :
    Consistent numSchedInsDel (s.set build worker nkey nbyte bytes sig it m batch) := by
  obtain ⟨lists, classes, owned⟩ := consistent.owned
  obtain ⟨rest, job, list, answered, held, locs, kernels, history⟩ := set_answered owned build nkey nbyte bytes sig taken
  obtain ⟨reached, logged, passes, hand, now⟩ := answered.after consistent.jobs consistent.logged history
  refine ⟨reached, logged, ⟨_, _, owned.handOut list held locs history⟩, ?_, ?_⟩
  · exact consistent.matched.handOut owned consistent.logged list now history
  · exact consistent.launched.congr kernels passes (congrArg countedRound hand)

theorem Consistent.touch (consistent : Consistent numSchedInsDel s) (id : Nat) {pos : Nat} (bound : pos < 2 ^ 32) :
    Consistent numSchedInsDel (s.touch id pos) := by
  obtain ⟨lists, classes, owned⟩ := consistent.owned
  exact ⟨consistent.jobs, consistent.logged, ⟨lists, classes, owned.held.touch id bound, owned.waits⟩,
    consistent.matched, consistent.launched.congr rfl rfl rfl⟩

theorem consistent_step (consistent : Consistent numSchedInsDel s) (step : NodeStep numSchedInsDel s t) :
    Consistent numSchedInsDel t := by
  cases step with
  | refill worker supply size itList m bufs empty result => exact consistent.refill empty result
  | set worker build v key nkey nbyte bytes sig it m batch _ _ taken =>
    exact consistent.set build nkey nbyte bytes sig taken
  | touch id pos bound => exact consistent.touch id bound
  | hand t step noKernels noPush =>
    exact consistent.quiet (.hand s.jobs t step noKernels noPush) rfl rfl rfl
      (consistent.launched.congr rfl rfl (countedRound_hand step noKernels))
  | launch gpuBufId turn =>
    exact consistent.quiet (.kernels s.jobs gpuBufId turn) rfl rfl rfl (consistent.launched.launch turn)
  | refresh worker turn before =>
    exact consistent.quiet (.refresh s.jobs worker turn before) rfl rfl rfl (consistent.launched.congr rfl rfl rfl)
  | push worker batch turn before pushed =>
    exact consistent.quiet (.push s.jobs worker batch turn before pushed) rfl rfl rfl
      (consistent.launched.congr rfl rfl rfl)

theorem consistent_initial (start : (node workers numSchedInsDel).initial s) : Consistent numSchedInsDel s := by
  obtain ⟨fresh, memory, lists, kernels, history⟩ := start
  have noPasses : ∀ worker, s.jobs.passes worker = [] := fun worker => (fresh.2.2 worker).2.2
  refine ⟨.initial fresh, ?_, ⟨_, _, held_initial (s := s.slab) ⟨memory, lists⟩, ?_⟩, ?_, ?_, ?_, ?_, ?_⟩
  · intro worker old member
    rw [history] at member
    cases member
  · intro worker old awaits
    rw [history] at awaits
    exact absurd awaits not_since_nil
  · intro owner old other new reuses
    rw [history] at reuses
    exact absurd reuses not_happened_nil
  · rw [kernels]
    intro run member
    cases member
  · intro worker pass member
    rw [noPasses] at member
    cases member
  · rw [kernels]
    intro run member
    cases member
  · rw [kernels]
    exact List.Pairwise.nil

theorem consistent_reachable (reached : (node workers numSchedInsDel).Reachable s) : Consistent numSchedInsDel s := by
  apply reached.invariant
  · exact fun _ start => consistent_initial start
  · exact fun _ _ before next => consistent_step before next

end Run

section DeleteFirst

def Deletes (worker : Worker workers) (old : Queued Hash.DElem) (run : Kernel workers) : Prop :=
  run.worker = worker ∧ run.kind = .delete ∧ .delete old ∈ run.jobs

end DeleteFirst

section Reused

variable (workers numSchedInsDel) in
/-- The runs in which the receivers work on requests, and the buffers stay where they are. -/
def requests : TransitionSystem (Node workers) :=
  (node workers numSchedInsDel).within fun s t => t.jobs.hand = s.jobs.hand ∧ t.jobs.refreshed = s.jobs.refreshed

/-- A refill that evicts one item. -/
theorem refill_single (size : Nat) (itList : Option Ptr) (m : Memory) {bufs : DeleteBufs} {elem : Hash.DElem}
    (counted : s.countedDeletes worker bufs = [elem]) :
    (s.refill worker size itList m bufs).history = s.history ++ [.evicted worker (s.jobs.tag worker elem)] ∧
      (s.refill worker size itList m bufs).jobs = s.jobs.queueDelete worker elem := by
  have same : s.refill worker size itList m bufs =
      { (s.countedDeletes worker bufs).foldl (Node.queueDelete worker) s with
        memory := m
        localSlab := Function.update s.localSlab worker
          (Function.update (s.localSlab worker) (pickList size) itList) } := rfl
  rw [same, counted]
  exact ⟨rfl, rfl⟩

/-- A SET of the right lengths has its job counted where there is room. -/
theorem set_queued (build : Receiver.Build) (bytes : Nat → Byte) (sig : BitVec 64) (it : Ptr) (m : Memory)
    (batch : Slab.Batch) (fits : ∀ elem, InsertFits (s.jobs.own worker) elem) :
    let filled := s.filled worker build.maxKeyLength build.maxValueLength bytes it m batch
    s.set build worker build.maxKeyLength build.maxValueLength bytes sig it m batch =
      filled.queueInsert worker it ⟨Receiver.sigSign sig, Receiver.sigHash sig, filled.locOf it⟩ := by
  have same : s.set build worker build.maxKeyLength build.maxValueLength bytes sig it m batch =
      (s.filled worker build.maxKeyLength build.maxValueLength bytes it m batch).insertJob build worker it
        build.maxKeyLength build.maxValueLength sig := rfl
  have right : ¬(build.maxKeyLength ≠ build.maxKeyLength ∨ build.maxValueLength ≠ build.maxValueLength) := by simp
  have room : ∀ elem, InsertFits
      ((s.filled worker build.maxKeyLength build.maxValueLength bytes it m batch).jobs.own worker) elem := fits
  rw [same, Node.insertJob, if_neg right, if_pos (room _)]

/-- The state behind a SET of the default lengths that has got `it` and its job counted. -/
def Node.smallSet (s : Node workers) (worker : Worker workers) (it : Ptr) (bytes : Nat → Byte) (elem : Hash.IElem) :
    Node workers :=
  (s.filled worker 8 8 bytes it (handOut 0 it s.memory (s.batch worker)).1
    (handOut 0 it s.memory (s.batch worker)).2).queueInsert worker it elem

theorem smallSet_loc {it : Ptr} {bytes : Nat → Byte} (elem : Hash.IElem) (q : Ptr) :
    ((s.smallSet worker it bytes elem).memory.heap q).loc = (s.memory.heap q).loc := by
  refine ((filled_header q).2).trans ?_
  by_cases here : q = it
  · simp [handOut, here]
  · simp [handOut, here]

theorem smallSet_history {it : Ptr} {bytes : Nat → Byte} {elem : Hash.IElem} :
    (s.smallSet worker it bytes elem).history =
      s.history ++ [.handedOut worker (s.locOf it) (some (s.jobs.tag worker elem))] := by
  have loc : (s.smallSet worker it bytes elem).locOf it = s.locOf it :=
    congrArg (BitVec.ofNat 32) (smallSet_loc elem it)
  rw [← loc]
  rfl

/-- A request with the key 7 and the value 0. -/
def storedBytes (k : Nat) : Byte := if k = 0 then 7 else 0

theorem keySig_stored : Receiver.keySig Receiver.defaultBuild (.whole storedBytes) 0 8 = .ok 7 := by
  rw [Receiver.keySig, View.read_whole]
  exact congrArg Except.ok (by decide)

def storedData : Nat → Byte := View.window storedBytes 0 ((8 + 8) % 2 ^ 32)

def storedElem (loc : Hash.Loc) : Hash.IElem := ⟨7, 0, loc⟩

theorem small_set (reached : (requests workers numSchedInsDel).Reachable s) {it : Ptr}
    (head : s.localSlab worker 0 = some it) (fits : ∀ elem, InsertFits (s.jobs.own worker) elem) :
    (requests workers numSchedInsDel).Reachable (s.smallSet worker it storedData (storedElem (s.locOf it))) := by
  have picked : pickList ((8 + 8) % 2 ^ 32) = 0 := pickList_first (by decide)
  have taken : takeItem (pickList ((8 + 8) % 2 ^ 32)) s.memory (s.batch worker) =
      .ok (it, handOut 0 it s.memory (s.batch worker)) := by
    rw [picked]
    exact takeItem_head s.memory head
  have step : NodeStep numSchedInsDel s _ := .set s worker Receiver.defaultBuild (.whole storedBytes) 0 8 8 _ 7 it _ _
    (View.read_whole _ _ _) (fun _ _ => keySig_stored) taken
  have queued := set_queued Receiver.defaultBuild storedData 7 it (handOut 0 it s.memory (s.batch worker)).1
    (handOut 0 it s.memory (s.batch worker)).2 fits
  have loc : (s.filled worker 8 8 storedData it (handOut 0 it s.memory (s.batch worker)).1
      (handOut 0 it s.memory (s.batch worker)).2).locOf it = s.locOf it :=
    congrArg (BitVec.ofNat 32) (smallSet_loc (storedElem 0) it)
  have elem : (⟨Receiver.sigSign 7, Receiver.sigHash 7, s.locOf it⟩ : Hash.IElem) = storedElem (s.locOf it) := rfl
  have after : s.set Receiver.defaultBuild worker 8 8 storedData 7 it (handOut 0 it s.memory (s.batch worker)).1
      (handOut 0 it s.memory (s.batch worker)).2 = s.smallSet worker it storedData (storedElem (s.locOf it)) := by
    refine queued.trans ?_
    change (s.filled worker 8 8 storedData it _ _).queueInsert worker it
      ⟨_, _, (s.filled worker 8 8 storedData it _ _).locOf it⟩ = _
    rw [loc, elem]
    rfl
  have same : NodeStep numSchedInsDel s (s.smallSet worker it storedData (storedElem (s.locOf it))) := after ▸ step
  exact reached.step ⟨same, rfl, rfl⟩

def startJobs : JobState 1 :=
  { hand := initialState 1 0, buf := fun _ _ => vacantBuf, refreshed := fun _ => false, queued := fun _ => [],
    passes := fun _ => [] }

def startNode : Node 1 :=
  { jobs := startJobs, memory := startMemory, localSlab := fun _ _ => none, kernels := [], history := [] }

attribute [local instance (high)] pairWorkers in
/-- Worker 0 stores an item, worker 1 evicts an item and stores one under the same key. -/
def firstJobs : JobState 1 := startJobs.queueInsert 0 (storedElem 1)

attribute [local instance (high)] pairWorkers in
def evictedJobs (elem : Hash.DElem) : JobState 1 := firstJobs.queueDelete 1 elem

attribute [local instance (high)] pairWorkers in
def reusedJobs (elem : Hash.DElem) : JobState 1 := (evictedJobs elem).queueInsert 1 (storedElem 1)

theorem startNode_reachable : (requests 1 0).Reachable startNode :=
  .initial ⟨⟨rfl, fun _ _ => vacantBuf_empty, fun _ => ⟨rfl, rfl, rfl⟩⟩, ⟨emptyBitmap, fun _ => emptyItem, rfl, rfl⟩,
    fun _ _ => rfl, rfl, rfl⟩

/-- Worker 0 has had a SET; worker 1 has done nothing yet. -/
structure FirstServed (s : Node 1) : Prop where
  reached : (requests 1 0).Reachable s
  jobs : s.jobs = firstJobs
  kernels : s.kernels = []
  empty : s.localSlab 1 0 = none
  slabclass : s.memory.slabclass = firstMemory.slabclass
  free : s.memory.memoryFull = false
  memMalloced : s.memory.memMalloced = firstMemory.memMalloced
  second : SecondUsed (s.memory.slabclass 0) s.memory.heap

theorem firstServed_exists : ∃ s, FirstServed s := by
  have picked : pickList 16 = 0 := pickList_first (by decide)
  have alloc : itemAllocBatch ampleSupply (startNode.attempts 0) 16 startNode.memory (startNode.batch 0).buf =
      .ok (some ⟨0, 40⟩, firstMemory, (startNode.batch 0).buf) := startMemory_itemAlloc _
  let refilled := startNode.refill 0 16 (some ⟨0, 40⟩) firstMemory (startNode.batch 0).buf
  have reached : (requests 1 0).Reachable refilled :=
    startNode_reachable.step ⟨.refill startNode 0 ampleSupply 16 _ _ _ rfl alloc, rfl, rfl⟩
  have head : (startNode.refill 0 16 (some ⟨0, 40⟩) firstMemory (startNode.batch 0).buf).localSlab 0 0 =
      some ⟨0, 40⟩ := by
    rw [Node.refill, picked]
    rfl
  have second : ∀ elem, SecondUsed ((refilled.smallSet 0 ⟨0, 40⟩ storedData elem).memory.slabclass 0)
      (refilled.smallSet 0 ⟨0, 40⟩ storedData elem).memory.heap :=
    fun _ => fullMemory_second.kept rfl rfl (fun q => (filled_header q).1) (fun q => (filled_header q).2)
  have loc : refilled.locOf ⟨0, 40⟩ = 1 :=
    congrArg (BitVec.ofNat 32) ((smallSet_loc (storedElem 1) ⟨0, 40⟩).symm.trans (second _).loc)
  have served := small_set reached head fun elem => vacantBuf_fits elem
  rw [loc] at served
  exact ⟨_, served, rfl, rfl, rfl, rfl, rfl, rfl, second _⟩

/-- Worker 1 has evicted the item of worker 0, and has it on its list. -/
structure SecondRefilled (s : Node 1) (elem : Hash.DElem) : Prop where
  reached : (requests 1 0).Reachable s
  jobs : s.jobs = evictedJobs elem
  kernels : s.kernels = []
  awaits : Awaits s.history 1 (firstJobs.tag 1 elem)
  head : s.localSlab 1 0 = some ⟨0, 40⟩
  loc : s.locOf ⟨0, 40⟩ = 1
  elem : elem.loc = 1

theorem FirstServed.refilled {s : Node 1} (first : FirstServed s) : ∃ t elem, SecondRefilled t elem := by
  have picked : pickList 16 = 0 := pickList_first (by decide)
  obtain ⟨_, _, ⟨lists, classes, owned⟩, _, _⟩ := consistent_reachable first.reached.forget
  have hand : s.jobs.hand = initialState 1 0 := congrArg JobState.hand first.jobs
  have vacant : ∀ id, s.jobs.buf 1 id = vacantBuf := by
    intro id
    rw [first.jobs]
    rfl
  have id : s.receiverBufId 1 = 0 := by
    rw [Node.receiverBufId, hand]
    rfl
  have attempts : s.attempts 1 = calm := by
    funext k
    exact congrArg (fun first => (⟨first, []⟩ : Attempts)) id
  have room : counts (s.batch 1).buf 0 + 1 < batchMaxDeleteJob := by
    rw [counts, show (s.batch 1).buf 0 = deleteBuf vacantBuf from congrArg deleteBuf (vacant 0)]
    decide
  have sound : s.memory.Sound := owned.held.sound
  obtain ⟨m, result, loc⟩ := second_evicted sound first.slabclass first.free first.memMalloced first.second room
  rw [← attempts] at result
  have empty : s.localSlab 1 (pickList 16) = none := by
    rw [picked]
    exact first.empty
  have counted : s.countedDeletes 1 (Function.update (s.batch 1).buf 0
      (((s.batch 1).buf 0).write (deleteJob (s.memory.heap ⟨0, 40⟩))).count) = [deleteJob (s.memory.heap ⟨0, 40⟩)] := by
    rw [Node.countedDeletes, id, Function.update_self]
    exact countedJobs_eq (DeleteBuf.counted_jobs _ _)
  obtain ⟨history, jobs⟩ := refill_single 16 (some ⟨0, 40⟩) m counted
  have step : NodeStep 0 s _ := .refill s 1 failingSupply 16 _ _ _ empty result
  refine ⟨_, deleteJob (s.memory.heap ⟨0, 40⟩), first.reached.step ⟨step, ?_, ?_⟩, ?_, ?_, ?_, ?_, ?_, ?_⟩
  · rw [jobs]
    rfl
  · rw [jobs]
    rfl
  · rw [jobs, first.jobs]
    rfl
  · exact (queueDeletes_frame 1 _ s).2.2.1.trans first.kernels
  · rw [history, first.jobs]
    exact since_append_single.mpr (.inl rfl)
  · rw [Node.refill, picked]
    simp only [Function.update_self]
  · exact congrArg (BitVec.ofNat 32) loc
  · exact congrArg (BitVec.ofNat 32) first.second.loc

/-- Worker 1 has handed the item out, and both jobs are in its first buffer. -/
structure SecondServed (s : Node 1) (elem : Hash.DElem) : Prop where
  reached : (requests 1 0).Reachable s
  jobs : s.jobs = reusedJobs elem
  kernels : s.kernels = []
  reuses : Reuses s.history 1 (firstJobs.tag 1 elem) 1 ((evictedJobs elem).tag 1 (storedElem 1))

theorem SecondRefilled.served {s : Node 1} {elem : Hash.DElem} (second : SecondRefilled s elem) :
    ∃ t, SecondServed t elem := by
  have room : ∀ new, InsertFits (s.jobs.own 1) new := by
    rw [second.jobs]
    exact vacantBuf_fits
  have reached := small_set second.reached second.head room
  rw [second.loc] at reached
  refine ⟨_, reached, ?_, second.kernels, ?_⟩
  · exact congrArg (fun jobs => jobs.queueInsert 1 (storedElem 1)) second.jobs
  · have loc : (firstJobs.tag 1 elem).elem.loc = s.locOf ⟨0, 40⟩ := second.elem.trans second.loc.symm
    rw [smallSet_history, second.jobs]
    exact happened_append_single.mpr (.inl ⟨by rw [loc], second.awaits⟩)

theorem reused_exists : ∃ s elem, SecondServed s elem := by
  obtain ⟨s, first⟩ := firstServed_exists
  obtain ⟨t, elem, second⟩ := first.refilled
  obtain ⟨u, served⟩ := second.served
  exact ⟨u, elem, served⟩

end Reused

end MegaKV.Store
