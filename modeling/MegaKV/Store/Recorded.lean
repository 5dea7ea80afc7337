import MegaKV.Library.History
import MegaKV.Scheduler.JobOrder
import MegaKV.Slab.EvictedJobs
import MegaKV.Store.Node

namespace MegaKV.Store

open Library Slab Scheduler

variable {workers numSchedInsDel : Nat} {s t : Node workers} {worker : Worker workers}

section Deletes

theorem queueDeletes_frame (worker : Worker workers) (elems : List Hash.DElem) (s : Node workers) :
    (elems.foldl (Node.queueDelete worker) s).memory = s.memory ∧
      (elems.foldl (Node.queueDelete worker) s).localSlab = s.localSlab ∧
      (elems.foldl (Node.queueDelete worker) s).kernels = s.kernels ∧
      (elems.foldl (Node.queueDelete worker) s).jobs.hand = s.jobs.hand ∧
      (elems.foldl (Node.queueDelete worker) s).jobs.passes = s.jobs.passes := by
  induction elems generalizing s with
  | nil => exact ⟨rfl, rfl, rfl, rfl, rfl⟩
  | cons elem rest ih => exact ih (s.queueDelete worker elem)

/-- Each job counted is an eviction of the worker. -/
theorem queueDeletes_history (elems : List Hash.DElem) (s : Node workers) :
    ∃ events, (elems.foldl (Node.queueDelete worker) s).history = s.history ++ events ∧
      ∀ event ∈ events, ∃ old, event = .evicted worker old ∧ old.elem ∈ elems := by
  induction elems generalizing s with
  | nil => exact ⟨[], (List.append_nil _).symm, by simp⟩
  | cons elem rest ih =>
    obtain ⟨events, longer, evictions⟩ := ih (s.queueDelete worker elem)
    refine ⟨.evicted worker (s.jobs.tag worker elem) :: events, ?_, ?_⟩
    · rw [List.foldl_cons, longer, Node.queueDelete, List.append_assoc, List.singleton_append]
    · intro event member
      rcases List.mem_cons.mp member with rfl | later
      · exact ⟨_, rfl, List.mem_cons_self⟩
      · obtain ⟨old, same, counted⟩ := evictions event later
        exact ⟨old, same, List.mem_cons_of_mem elem counted⟩

theorem queueDelete_own {jobs : JobState workers} (elem : Hash.DElem) :
    (jobs.queueDelete worker elem).own worker = (jobs.own worker).addDelete (jobs.tag worker elem) := setBuf_self

theorem deleteBuf_addDelete (buf : JobBuf) (job : Queued Hash.DElem) :
    deleteBuf (buf.addDelete job) = ((deleteBuf buf).write job.elem).count := by
  have cells : (fun k => (Function.update buf.deleteIn buf.numDeleteJob job k).elem) =
      Function.update (fun k => (buf.deleteIn k).elem) buf.numDeleteJob job.elem :=
    Function.comp_update Queued.elem buf.deleteIn buf.numDeleteJob job
  exact congrArg (DeleteBuf.mk (buf.numDeleteJob + 1)) cells

/-- The jobs of a refill come behind those in the worker's buffer. -/
theorem queueDeletes_own (elems : List Hash.DElem) (s : Node workers) :
    (deleteBuf ((elems.foldl (Node.queueDelete worker) s).jobs.own worker)).jobs =
      (deleteBuf (s.jobs.own worker)).jobs ++ elems := by
  induction elems generalizing s with
  | nil => exact (List.append_nil _).symm
  | cons elem rest ih =>
    have own : (s.queueDelete worker elem).jobs.own worker = (s.jobs.own worker).addDelete (s.jobs.tag worker elem) :=
      queueDelete_own elem
    have grown : (deleteBuf ((s.queueDelete worker elem).jobs.own worker)).jobs =
        (deleteBuf (s.jobs.own worker)).jobs ++ [elem] := by
      rw [own, deleteBuf_addDelete]
      exact DeleteBuf.counted_jobs _ elem
    rw [List.foldl_cons, ih, grown, List.append_assoc, List.singleton_append]

theorem queueInsert_own {jobs : JobState workers} (elem : Hash.IElem) :
    (jobs.queueInsert worker elem).own worker = (jobs.own worker).addInsert (jobs.tag worker elem) := setBuf_self

end Deletes

section Logged

def Logged (s : Node workers) : Prop :=
  ∀ worker old, .evicted worker old ∈ s.history →
    .delete old ∈ s.jobs.queued worker ∧ old.interval ≤ interval s.jobs.hand worker

theorem Logged.step {more : List (Event workers)} (logged : Logged s) (step : JobStep numSchedInsDel s.jobs t.jobs)
    (history : t.history = s.history ++ more) (fresh : ∀ worker old, .evicted worker old ∈ more →
      .delete old ∈ t.jobs.queued worker ∧ old.interval ≤ interval t.jobs.hand worker) : Logged t := by
  intro worker old member
  rw [history] at member
  rcases List.mem_append.mp member with earlier | new
  · obtain ⟨queued, bound⟩ := logged worker old earlier
    exact ⟨step.queued_mem queued, bound.trans (step.interval_le worker)⟩
  · exact fresh worker old new

theorem Logged.queueDelete (logged : Logged s) {elem : Hash.DElem} (fits : DeleteFits (s.jobs.own worker)) :
    Logged (s.queueDelete worker elem) := by
  have step : JobStep 0 s.jobs (s.queueDelete worker elem).jobs := .queueDelete s.jobs worker elem fits
  apply logged.step step rfl
  intro other old member
  cases List.mem_singleton.mp member
  refine ⟨?_, Nat.le_refl _⟩
  have queued : (s.queueDelete worker elem).jobs.queued worker =
      s.jobs.queued worker ++ [.delete (s.jobs.tag worker elem)] := log_self
  rw [queued]
  exact List.mem_append_right _ (List.mem_singleton.mpr rfl)

/-- As long as there is room the jobs of a refill come in one after the other. -/
theorem queueDeletes_steps {elems : List Hash.DElem} (reached : (jobs workers numSchedInsDel).Reachable s.jobs)
    (logged : Logged s)
    (room : elems ≠ [] → (s.jobs.own worker).numDeleteJob + elems.length < batchMaxDeleteJob) :
    (jobs workers numSchedInsDel).Reachable (elems.foldl (Node.queueDelete worker) s).jobs ∧
      Logged (elems.foldl (Node.queueDelete worker) s) := by
  induction elems generalizing s with
  | nil => exact ⟨reached, logged⟩
  | cons elem rest ih =>
    have bound := room (List.cons_ne_nil elem rest)
    rw [List.length_cons] at bound
    have fits : DeleteFits (s.jobs.own worker) := by
      rw [DeleteFits]
      omega
    apply ih (s := s.queueDelete worker elem) (reached.step (.queueDelete s.jobs worker elem fits))
      (logged.queueDelete fits)
    intro _
    have own : (s.queueDelete worker elem).jobs.own worker = (s.jobs.own worker).addDelete (s.jobs.tag worker elem) :=
      queueDelete_own elem
    rw [own]
    change (s.jobs.own worker).numDeleteJob + 1 + rest.length < batchMaxDeleteJob
    omega

end Logged

section Refill

theorem countedJobs_eq {before after : DeleteBuf} {jobs : List Hash.DElem} (longer : after.jobs = before.jobs ++ jobs) :
    countedJobs before after = jobs := by
  have count : after.numDeleteJob = before.numDeleteJob + jobs.length := by
    rw [← after.jobs_length, longer, List.length_append, before.jobs_length]
  have ranges : List.range after.numDeleteJob =
      List.range before.numDeleteJob ++ List.range' before.numDeleteJob jobs.length := by
    rw [count, List.range_eq_range', List.range_eq_range', ← List.range'_append_1, Nat.zero_add]
  have split : after.jobs = (List.range before.numDeleteJob).map after.deleteIn ++ countedJobs before after := by
    rw [DeleteBuf.jobs, ranges, List.map_append, countedJobs, count, Nat.add_sub_cancel_left]
  rw [longer] at split
  have lengths : before.jobs.length = ((List.range before.numDeleteJob).map after.deleteIn).length := by
    rw [before.jobs_length, List.length_map, List.length_range]
  exact (List.append_inj split lengths).2.symm

theorem receiverBufId_cast (lock : Lockstep s.jobs.hand) (worker : Worker workers) :
    (s.receiverBufId worker : Int) = (s.jobs.hand.batchSet worker).receiverBufId := by
  rw [Node.receiverBufId, lock.receiver_slot]
  rfl

/-- The delete jobs that `item_alloc_batch` has counted in the receiver's buffer. -/
def Node.countedDeletes (s : Node workers) (worker : Worker workers) (bufs : DeleteBufs) : List Hash.DElem :=
  countedJobs ((s.batch worker).buf (s.receiverBufId worker)) (bufs (s.receiverBufId worker))

/-- What a refill has done: nothing, or a new list and the jobs of the items evicted for it. -/
theorem refill_cases {supply : Supply} {size : Nat} {itList : Option Ptr} {m : Memory} {bufs : DeleteBufs}
    (sound : s.memory.Sound)
    (result : itemAllocBatch supply (s.attempts worker) size s.memory (s.batch worker).buf = .ok (itList, m, bufs)) :
    (itList = none ∧ m = s.memory ∧ bufs = (s.batch worker).buf ∧ s.countedDeletes worker bufs = []) ∨
      ∃ id nodes, RefilledFor s.memory m id itList (s.receiverBufId worker) (s.batch worker).buf bufs nodes
        (s.countedDeletes worker bufs) := by
  rcases itemAllocBatch_records sound result with ⟨none, same, unchanged⟩ | ⟨id, nodes, jobs, _, refilled⟩
  · refine .inl ⟨none, same, unchanged, ?_⟩
    rw [Node.countedDeletes, unchanged]
    exact countedJobs_eq (List.append_nil _).symm
  · have counted : s.countedDeletes worker bufs = jobs := countedJobs_eq refilled.records.counted
    rw [← counted] at refilled
    exact .inr ⟨id, nodes, refilled⟩

/-- Behind a refill the worker's buffer has the delete jobs with which `item_alloc_batch` has left it. -/
theorem refill_jobs (lock : Lockstep s.jobs.hand) (sound : s.memory.Sound) {supply : Supply} {size : Nat}
    {itList : Option Ptr} {m : Memory} {bufs : DeleteBufs}
    (result : itemAllocBatch supply (s.attempts worker) size s.memory (s.batch worker).buf = .ok (itList, m, bufs)) :
    (((s.refill worker size itList m bufs).batch worker).buf (s.receiverBufId worker)).jobs =
      (bufs (s.receiverBufId worker)).jobs := by
  have hand := (queueDeletes_frame worker (s.countedDeletes worker bufs) s).2.2.2.1
  have after : ((s.refill worker size itList m bufs).batch worker).buf (s.receiverBufId worker) =
      deleteBuf (((s.countedDeletes worker bufs).foldl (Node.queueDelete worker) s).jobs.own worker) := by
    rw [JobState.own, hand, ← receiverBufId_cast lock]
    rfl
  have before : (s.batch worker).buf (s.receiverBufId worker) = deleteBuf (s.jobs.own worker) := by
    rw [JobState.own, ← receiverBufId_cast lock]
    rfl
  rw [after, queueDeletes_own, ← before]
  rcases refill_cases sound result with ⟨_, _, unchanged, nothing⟩ | ⟨id, nodes, refilled⟩
  · rw [nothing, unchanged, List.append_nil]
  · exact refilled.records.counted.symm

theorem refill_room {m m' : Memory} {id : Nat} {head : Option Ptr} {bufs : DeleteBufs} {nodes : List Ptr}
    (lock : Lockstep s.jobs.hand)
    (refilled : RefilledFor m m' id head (s.receiverBufId worker) (s.batch worker).buf bufs nodes
      (s.countedDeletes worker bufs)) (some : s.countedDeletes worker bufs ≠ []) :
    (s.jobs.own worker).numDeleteJob + (s.countedDeletes worker bufs).length < batchMaxDeleteJob := by
  have own : ((s.batch worker).buf (s.receiverBufId worker)).numDeleteJob = (s.jobs.own worker).numDeleteJob := by
    rw [JobState.own, ← receiverBufId_cast lock]
    rfl
  have room := refilled.records.room some
  have lengths := congrArg List.length refilled.records.counted
  rw [List.length_append, DeleteBuf.jobs_length, DeleteBuf.jobs_length, own] at lengths
  rw [← lengths]
  exact room

end Refill

end MegaKV.Store
