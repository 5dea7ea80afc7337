import MegaKV.Library.Ledger
import MegaKV.Receiver.Packet
import MegaKV.Scheduler.Lone

namespace MegaKV.Scheduler

open Library

def numInsertBuf : Nat := 1 <<< Hash.iblockP

/-- An element in a buffer, with its number among the worker's jobs and the interval it came in. -/
structure Queued (Elem : Type) where
  elem : Elem
  serial : Nat
  interval : Nat

inductive Job where
  | delete (job : Queued Hash.DElem)
  | insert (job : Queued Hash.IElem)

def Job.serial : Job → Nat
  | .delete job => job.serial
  | .insert job => job.serial

def Job.interval : Job → Nat
  | .delete job => job.interval
  | .insert job => job.interval

structure InsertBuf where
  insertIn : Nat → Queued Hash.IElem
  numInsertJob : Nat

/-- The insert and delete jobs of `mega_batch_buf_t`. -/
structure JobBuf where
  deleteIn : Nat → Queued Hash.DElem
  numDeleteJob : Nat
  insertBuf : Nat → InsertBuf
  numInsertJob : Nat

section Buffers

def InsertBuf.jobs (insertBuf : InsertBuf) : List Job :=
  (List.range insertBuf.numInsertJob).map fun k => .insert (insertBuf.insertIn k)

def InsertBuf.add (insertBuf : InsertBuf) (job : Queued Hash.IElem) : InsertBuf :=
  { insertIn := Function.update insertBuf.insertIn insertBuf.numInsertJob job
    numInsertJob := insertBuf.numInsertJob + 1 }

namespace JobBuf

def deletes (buf : JobBuf) : List Job := (List.range buf.numDeleteJob).map fun k => .delete (buf.deleteIn k)

def inserts (buf : JobBuf) : List Job := (List.range numInsertBuf).flatMap fun i => (buf.insertBuf i).jobs

def content (buf : JobBuf) : List Job := buf.deletes ++ buf.inserts

/-- What the kernels of a round work on: without a count there is no launch. -/
def launched (buf : JobBuf) : List Job :=
  (if buf.numDeleteJob = 0 then [] else buf.deletes) ++ (if buf.numInsertJob = 0 then [] else buf.inserts)

def addDelete (buf : JobBuf) (job : Queued Hash.DElem) : JobBuf :=
  { buf with
    deleteIn := Function.update buf.deleteIn buf.numDeleteJob job
    numDeleteJob := buf.numDeleteJob + 1 }

def addInsert (buf : JobBuf) (job : Queued Hash.IElem) : JobBuf :=
  let block := Receiver.insertBlockId job.elem.hash
  { buf with
    insertBuf := Function.update buf.insertBuf block ((buf.insertBuf block).add job)
    numInsertJob := buf.numInsertJob + 1 }

def Empty (buf : JobBuf) : Prop :=
  buf.numDeleteJob = 0 ∧ buf.numInsertJob = 0 ∧ ∀ i < numInsertBuf, (buf.insertBuf i).numInsertJob = 0

/-- The counter of all insert jobs is that of the blocks together, and no count is over its limit. -/
structure Counted (buf : JobBuf) : Prop where
  inserts : buf.numInsertJob = buf.inserts.length
  deleteRoom : buf.numDeleteJob < Slab.batchMaxDeleteJob
  insertRoom : buf.numInsertJob ≤ Receiver.batchMaxInsertJob * numInsertBuf

end JobBuf

/-- The checks of `item_alloc_batch` under which a delete job is counted. -/
def DeleteFits (buf : JobBuf) : Prop := buf.numDeleteJob + 1 < Slab.batchMaxDeleteJob

def InsertFits (buf : JobBuf) (elem : Hash.IElem) : Prop :=
  buf.numInsertJob < (Receiver.batchMaxInsertJob - 1) <<< Receiver.bitsInsertBuf ∧
    (buf.insertBuf (Receiver.insertBlockId elem.hash)).numInsertJob + 1 < Receiver.batchMaxInsertJob

/-- `mega_sender_refresh_buffer`, for the insert and delete jobs. -/
def megaSenderRefreshBuffer (batch : Batch) (buf : JobBuf) : JobBuf :=
  if batch.delay = 0 then
    { buf with
      numInsertJob := 0
      numDeleteJob := 0
      insertBuf := fun i =>
        if i < numInsertBuf then { buf.insertBuf i with numInsertJob := 0 } else buf.insertBuf i }
  else buf

theorem insertBlockId_lt (hash : Hash.HashWord) : Receiver.insertBlockId hash < numInsertBuf := by
  have word := hash.isLt
  have block : Receiver.insertBlockId hash = hash.toNat / 2 ^ 29 := by
    rw [← Nat.shiftRight_eq_div_pow, ← BitVec.toNat_ushiftRight]
    rfl
  have count : numInsertBuf = 8 := rfl
  omega

theorem InsertBuf.add_jobs (insertBuf : InsertBuf) (job : Queued Hash.IElem) :
    (insertBuf.add job).jobs = insertBuf.jobs ++ [.insert job] := by
  have earlier : ∀ k ∈ List.range insertBuf.numInsertJob,
      Job.insert (Function.update insertBuf.insertIn insertBuf.numInsertJob job k) = .insert (insertBuf.insertIn k) := by
    intro k member
    rw [Function.update_of_ne (Nat.ne_of_lt (List.mem_range.mp member))]
  simp only [InsertBuf.jobs, InsertBuf.add, List.range_succ, List.map_append, List.map_congr_left earlier,
    List.map_cons, List.map_nil, Function.update_self]

namespace JobBuf

variable {buf : JobBuf}

theorem addDelete_deletes (job : Queued Hash.DElem) : (buf.addDelete job).deletes = buf.deletes ++ [.delete job] := by
  have earlier : ∀ k ∈ List.range buf.numDeleteJob,
      Job.delete (Function.update buf.deleteIn buf.numDeleteJob job k) = .delete (buf.deleteIn k) := by
    intro k member
    rw [Function.update_of_ne (Nat.ne_of_lt (List.mem_range.mp member))]
  simp only [deletes, addDelete, List.range_succ, List.map_append, List.map_congr_left earlier, List.map_cons,
    List.map_nil, Function.update_self]

theorem addInsert_inserts (job : Queued Hash.IElem) :
    (buf.addInsert job).inserts.Perm (buf.inserts ++ [.insert job]) := by
  apply flatMap_perm_of_grown List.nodup_range (List.mem_range.mpr (insertBlockId_lt job.elem.hash))
  · simp only [addInsert, Function.update_self, InsertBuf.add_jobs]
    exact List.Perm.refl _
  · intro other _ different
    simp only [addInsert, Function.update_of_ne different]

theorem addDelete_content (job : Queued Hash.DElem) :
    (buf.addDelete job).content.Perm (buf.content ++ [.delete job]) := by
  have same : (buf.addDelete job).inserts = buf.inserts := rfl
  rw [content, content, addDelete_deletes, same, List.append_assoc, List.append_assoc]
  exact List.perm_append_comm.append_left buf.deletes

theorem addInsert_content (job : Queued Hash.IElem) :
    (buf.addInsert job).content.Perm (buf.content ++ [.insert job]) := by
  have same : (buf.addInsert job).deletes = buf.deletes := rfl
  rw [content, content, same, List.append_assoc]
  exact (addInsert_inserts job).append_left buf.deletes

theorem Empty.content (empty : buf.Empty) : buf.content = [] := by
  obtain ⟨noDeletes, _, noBlocks⟩ := empty
  have noInserts : buf.inserts = [] := by
    rw [JobBuf.inserts, List.flatMap_eq_nil_iff]
    intro i member
    rw [InsertBuf.jobs, noBlocks i (List.mem_range.mp member), List.range_zero, List.map_nil]
  rw [JobBuf.content, JobBuf.deletes, noDeletes, noInserts]
  rfl

theorem Empty.counted (empty : buf.Empty) : buf.Counted := by
  have nothing := empty.content
  rw [JobBuf.content, List.append_eq_nil_iff] at nothing
  obtain ⟨noDeletes, noInserts, _⟩ := empty
  refine ⟨?_, ?_, ?_⟩
  · rw [noInserts, nothing.2, List.length_nil]
  · rw [noDeletes]
    decide
  · rw [noInserts]
    exact Nat.zero_le _

theorem Counted.launched (counted : buf.Counted) : buf.launched = buf.content := by
  have deletes : (if buf.numDeleteJob = 0 then [] else buf.deletes) = buf.deletes := by
    split
    · rename_i none
      rw [JobBuf.deletes, none, List.range_zero, List.map_nil]
    · rfl
  have inserts : (if buf.numInsertJob = 0 then [] else buf.inserts) = buf.inserts := by
    split
    · rename_i none
      rw [List.eq_nil_of_length_eq_zero (counted.inserts.symm.trans none)]
    · rfl
  rw [JobBuf.launched, deletes, inserts, JobBuf.content]

theorem Counted.addDelete (counted : buf.Counted) (job : Queued Hash.DElem) (fits : DeleteFits buf) :
    (buf.addDelete job).Counted :=
  ⟨counted.inserts, fits, counted.insertRoom⟩

theorem Counted.addInsert (counted : buf.Counted) (job : Queued Hash.IElem) (fits : InsertFits buf job.elem) :
    (buf.addInsert job).Counted := by
  refine ⟨?_, counted.deleteRoom, ?_⟩
  · rw [(addInsert_inserts job).length_eq, List.length_append, ← counted.inserts]
    rfl
  · have room := fits.1
    simp only [Receiver.batchMaxInsertJob, Receiver.batchMaxSearchJob, Receiver.bitsInsertBuf, Hash.iblockP] at room
    simp only [JobBuf.addInsert, Receiver.batchMaxInsertJob, Receiver.batchMaxSearchJob, Hash.iblockP, numInsertBuf]
    omega

end JobBuf

theorem refresh_empty {batch : Batch} {buf : JobBuf} (done : batch.delay = 0) :
    (megaSenderRefreshBuffer batch buf).Empty := by
  rw [megaSenderRefreshBuffer, if_pos done]
  refine ⟨rfl, rfl, ?_⟩
  intro i inside
  simp only [inside, ite_true]

theorem refresh_delayed {batch : Batch} {buf : JobBuf} (delayed : batch.delay ≠ 0) :
    megaSenderRefreshBuffer batch buf = buf := by
  rw [megaSenderRefreshBuffer, if_neg delayed]

end Buffers

section System

variable (workers : Nat)

/-- The kernels' work on one worker's buffer in one round. -/
structure Pass where
  round : Nat
  bufId : Int
  jobs : List Job

structure JobState where
  hand : State workers
  buf : Worker workers → Int → JobBuf
  refreshed : Worker workers → Bool
  queued : Worker workers → List Job
  passes : Worker workers → List Pass

end System

variable {workers numSchedInsDel : Nat}

/-- A worker's interval `k` ends where its buffer is taken in round `k`. -/
def interval (s : State workers) (worker : Worker workers) : Nat :=
  match s.pc with
  | .pop current => if worker < current then s.round + 1 else s.round
  | .take current _ => if worker < current then s.round + 1 else s.round
  | _ => s.round + 1

def JobState.setBuf (s : JobState workers) (worker : Worker workers) (id : Int) (buf : JobBuf) : JobState workers :=
  { s with buf := Function.update s.buf worker (Function.update (s.buf worker) id buf) }

def JobState.log (s : JobState workers) (worker : Worker workers) (job : Job) : JobState workers :=
  { s with queued := Function.update s.queued worker (s.queued worker ++ [job]) }

def JobState.tag {Elem : Type} (s : JobState workers) (worker : Worker workers) (elem : Elem) : Queued Elem :=
  { elem := elem, serial := (s.queued worker).length, interval := interval s.hand worker }

def JobState.own (s : JobState workers) (worker : Worker workers) : JobBuf :=
  s.buf worker (s.hand.batchSet worker).receiverBufId

def JobState.queueDelete (s : JobState workers) (worker : Worker workers) (elem : Hash.DElem) : JobState workers :=
  (s.setBuf worker (s.hand.batchSet worker).receiverBufId ((s.own worker).addDelete (s.tag worker elem))).log worker
    (.delete (s.tag worker elem))

def JobState.queueInsert (s : JobState workers) (worker : Worker workers) (elem : Hash.IElem) : JobState workers :=
  (s.setBuf worker (s.hand.batchSet worker).receiverBufId ((s.own worker).addInsert (s.tag worker elem))).log worker
    (.insert (s.tag worker elem))

attribute [local instance (high)] Nat.instNeZeroSucc in
/-- The part of a round between `mega_gpu_get_batch` and `mega_gpu_give_to_sender`. -/
def JobState.kernels (numSchedInsDel : Nat) (s : JobState workers) (gpuBufId : Int) : JobState workers :=
  { s with
    hand := { s.hand with pc := .give 0, schedInsDel := nextSchedInsDel numSchedInsDel s.hand.schedInsDel }
    passes := fun worker =>
      if insertsDeletes numSchedInsDel s.hand.schedInsDel then
        s.passes worker ++ [⟨s.hand.round, gpuBufId, (s.buf worker gpuBufId).launched⟩]
      else s.passes worker }

def JobState.refresh (s : JobState workers) (worker : Worker workers) : JobState workers :=
  let batch := s.hand.batchSet worker
  { s.setBuf worker batch.senderBufId (megaSenderRefreshBuffer batch (s.buf worker batch.senderBufId)) with
    refreshed := Function.update s.refreshed worker true }

def JobState.push (s : JobState workers) (worker : Worker workers) (batch : Batch) : JobState workers :=
  { s with
    hand := (s.hand.setBatch worker batch).setSender worker .pushed
    refreshed := Function.update s.refreshed worker false }

/-- The steps of the hand-off other than the kernels and the push leave the jobs alone. -/
inductive JobStep (numSchedInsDel : Nat) : JobState workers → JobState workers → Prop where
  | queueDelete (s : JobState workers) (worker : Worker workers) (elem : Hash.DElem) (fits : DeleteFits (s.own worker)) :
      JobStep numSchedInsDel s (s.queueDelete worker elem)
  | queueInsert (s : JobState workers) (worker : Worker workers) (elem : Hash.IElem)
      (fits : InsertFits (s.own worker) elem) :
      JobStep numSchedInsDel s (s.queueInsert worker elem)
  | hand (s : JobState workers) (t : State workers) (step : Step numSchedInsDel s.hand t)
      (noKernels : ∀ gpuBufId, s.hand.pc = .kernels gpuBufId → t.pc = .kernels gpuBufId)
      (noPush : ∀ worker, s.hand.senders worker = .holding → t.senders worker = .holding) :
      JobStep numSchedInsDel s { s with hand := t }
  | kernels (s : JobState workers) (gpuBufId : Int) (turn : s.hand.pc = .kernels gpuBufId) :
      JobStep numSchedInsDel s (s.kernels numSchedInsDel gpuBufId)
  | refresh (s : JobState workers) (worker : Worker workers) (turn : s.hand.senders worker = .holding)
      (before : s.refreshed worker = false) :
      JobStep numSchedInsDel s (s.refresh worker)
  | push (s : JobState workers) (worker : Worker workers) (batch : Batch) (turn : s.hand.senders worker = .holding)
      (before : s.refreshed worker = true) (pushed : megaSenderPushBuffer (s.hand.batchSet worker) = some batch) :
      JobStep numSchedInsDel s (s.push worker batch)

def jobs (workers numSchedInsDel : Nat) : TransitionSystem (JobState workers) :=
  { initial := fun s =>
      s.hand = initialState workers numSchedInsDel ∧ (∀ worker id, (s.buf worker id).Empty) ∧
        ∀ worker, s.refreshed worker = false ∧ s.queued worker = [] ∧ s.passes worker = []
    step := JobStep numSchedInsDel }

theorem refresh_refreshed (s : JobState workers) (worker : Worker workers) :
    (s.refresh worker).refreshed worker = true := by
  simp only [JobState.refresh, Function.update_self]

section Lone

def loneJobs (hand : State 0) (buf : Int → JobBuf) (queued : List Job) (passes : List Pass) : JobState 0 :=
  { hand := hand, buf := fun _ => buf, refreshed := fun _ => false, queued := fun _ => queued,
    passes := fun _ => passes }

def passesAfter (numSchedInsDel r : Nat) (buf : Int → JobBuf) (passes : List Pass) : List Pass :=
  if insertsDeletes numSchedInsDel (schedInsDelAt numSchedInsDel r) then
    passes ++ [⟨r, slot r, (buf (slot r)).launched⟩]
  else passes

variable {r : Nat} {delay : Int} {buf : Int → JobBuf} {queued : List Job} {passes : List Pass} {hand next : State 0}

theorem loneJobs_hand (reached : (jobs 0 numSchedInsDel).Reachable (loneJobs hand buf queued passes))
    (step : Step numSchedInsDel hand next)
    (noKernels : ∀ gpuBufId, hand.pc = .kernels gpuBufId → next.pc = .kernels gpuBufId)
    (noPush : ∀ worker, hand.senders worker = .holding → next.senders worker = .holding) :
    (jobs 0 numSchedInsDel).Reachable (loneJobs next buf queued passes) :=
  reached.step (.hand _ _ step noKernels noPush)

theorem loneJobs_taken (reached : (jobs 0 numSchedInsDel).Reachable
    (loneJobs (restingHand numSchedInsDel r delay) buf queued passes)) :
    (jobs 0 numSchedInsDel).Reachable (loneJobs (takenHand numSchedInsDel r delay) buf queued passes) := by
  have popped := loneJobs_hand reached (lone_pop rfl) (by intro _ turn; cases turn) (by intro _ turn; cases turn)
  exact loneJobs_hand popped lone_take (by intro _ turn; cases turn) (by intro _ turn; cases turn)

theorem loneJobs_ran (reached : (jobs 0 numSchedInsDel).Reachable
    (loneJobs (restingHand numSchedInsDel r delay) buf queued passes)) :
    (jobs 0 numSchedInsDel).Reachable
      (loneJobs (ranHand numSchedInsDel r delay) buf queued (passesAfter numSchedInsDel r buf passes)) :=
  (loneJobs_taken reached).step (.kernels _ _ rfl)

theorem loneJobs_held (reached : (jobs 0 numSchedInsDel).Reachable
    (loneJobs (restingHand numSchedInsDel r delay) buf queued passes)) :
    (jobs 0 numSchedInsDel).Reachable
      (loneJobs (heldHand numSchedInsDel r) buf queued (passesAfter numSchedInsDel r buf passes)) := by
  have given := loneJobs_hand (loneJobs_ran reached) (lone_give rfl) (by intro _ turn; cases turn)
    (by intro _ turn; cases turn)
  exact loneJobs_hand given (lone_get (slot_ne_neg_one r)) (by intro _ turn; cases turn) (by intro _ turn; cases turn)

/-- A whole round of one worker: the sender has emptied the buffer or not. -/
theorem loneJobs_round (reached : (jobs 0 numSchedInsDel).Reachable
    (loneJobs (restingHand numSchedInsDel r delay) buf queued passes)) :
    (jobs 0 numSchedInsDel).Reachable
      (loneJobs (restingHand numSchedInsDel (r + 1) (delayAfter numSchedInsDel r))
        (Function.update buf (slot r) (megaSenderRefreshBuffer (heldBatch numSchedInsDel r) (buf (slot r))))
        queued (passesAfter numSchedInsDel r buf passes)) := by
  have refreshed := (loneJobs_held reached).step (.refresh _ 0 rfl rfl)
  have pushed := refreshed.step (.push _ 0 _ rfl (refresh_refreshed _ 0) (heldBatch_push numSchedInsDel r))
  have back : (jobs 0 numSchedInsDel).Reachable
      (loneJobs (lone { heldBatch numSchedInsDel r with availableBufId1 := slot r } .pushed (.pop 0)
        (schedInsDelAt numSchedInsDel (r + 1)) (r + 1))
        (Function.update buf (heldBatch numSchedInsDel r).senderBufId
          (megaSenderRefreshBuffer (heldBatch numSchedInsDel r) (buf (heldBatch numSchedInsDel r).senderBufId)))
        queued (passesAfter numSchedInsDel r buf passes)) := by
    simpa only [JobState.push, JobState.refresh, JobState.setBuf, loneJobs, heldHand, lone, State.setBatch,
      State.setSender, update_lone] using pushed
  have cleared := loneJobs_hand back lone_clear (by intro _ turn; cases turn) (by intro _ turn; cases turn)
  have same : restingHand numSchedInsDel (r + 1) (delayAfter numSchedInsDel r) =
      lone (megaSenderClear { heldBatch numSchedInsDel r with availableBufId1 := slot r }) .waiting (.pop 0)
        (schedInsDelAt numSchedInsDel (r + 1)) (r + 1) := by
    rw [restingHand, slot_add_three]
    rfl
  rw [same]
  exact cleared

theorem loneJobs_insert (elem : Hash.IElem) (fits : InsertFits (buf (slot r)) elem)
    (reached : (jobs 0 numSchedInsDel).Reachable (loneJobs (restingHand numSchedInsDel r delay) buf queued passes)) :
    (jobs 0 numSchedInsDel).Reachable
      (loneJobs (restingHand numSchedInsDel r delay)
        (Function.update buf (slot r) ((buf (slot r)).addInsert ⟨elem, queued.length, r⟩))
        (queued ++ [.insert ⟨elem, queued.length, r⟩]) passes) := by
  have inserted := reached.step (.queueInsert _ 0 elem fits)
  have same : (loneJobs (restingHand numSchedInsDel r delay) buf queued passes).queueInsert 0 elem =
      loneJobs (restingHand numSchedInsDel r delay)
        (Function.update buf (slot r) ((buf (slot r)).addInsert ⟨elem, queued.length, r⟩))
        (queued ++ [.insert ⟨elem, queued.length, r⟩]) passes := by
    simp only [JobState.queueInsert, JobState.setBuf, JobState.log, loneJobs, update_lone]
    rfl
  exact same ▸ inserted

def vacantBuf : JobBuf :=
  { deleteIn := fun _ => ⟨⟨0, 0, 0⟩, 0, 0⟩
    numDeleteJob := 0
    insertBuf := fun _ => { insertIn := fun _ => ⟨⟨0, 0, 0⟩, 0, 0⟩, numInsertJob := 0 }
    numInsertJob := 0 }

theorem vacantBuf_empty : vacantBuf.Empty := ⟨rfl, rfl, fun _ _ => rfl⟩

theorem vacantBuf_fits (elem : Hash.IElem) : InsertFits vacantBuf elem := by
  constructor
  · show 0 < (Receiver.batchMaxInsertJob - 1) <<< Receiver.bitsInsertBuf
    decide
  · show 0 + 1 < Receiver.batchMaxInsertJob
    decide

theorem loneJobs_start : (jobs 0 numSchedInsDel).Reachable
    (loneJobs (restingHand numSchedInsDel 0 (-1)) (fun _ => vacantBuf) [] []) :=
  .initial ⟨rfl, fun _ _ => vacantBuf_empty, fun _ => ⟨rfl, rfl, rfl⟩⟩

end Lone

end MegaKV.Scheduler
