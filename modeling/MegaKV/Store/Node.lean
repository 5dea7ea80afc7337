import MegaKV.Scheduler.Jobs

namespace MegaKV.Store

open Library Slab Scheduler

inductive KernelKind where
  | delete
  | insert
  deriving DecidableEq

/-- A launch of `gpu_hash_delete` or `gpu_hash_insert` on the stream of `worker`. -/
structure Kernel (workers : Nat) where
  worker : Worker workers
  round : Nat
  kind : KernelKind
  jobs : List Job

/-- A delete job has been counted for an evicted item, or a SET has got an item, and a job if it was
    not refused. -/
inductive Event (workers : Nat) where
  | evicted (worker : Worker workers) (job : Queued Hash.DElem)
  | handedOut (worker : Worker workers) (loc : BitVec 32) (job : Option (Queued Hash.IElem))

/-- The workers and the scheduler, with the memory they share. -/
structure Node (workers : Nat) where
  jobs : JobState workers
  memory : Memory
  localSlab : Worker workers → Nat → Option Ptr
  kernels : List (Kernel workers)
  history : List (Event workers)

variable {workers : Nat}

section Kernels

variable (s : JobState workers) (gpuBufId : Int)

def deleteKernel (worker : Worker workers) : List (Kernel workers) :=
  let buf := s.buf worker gpuBufId
  if buf.numDeleteJob = 0 then [] else [⟨worker, s.hand.round, .delete, buf.deletes⟩]

def insertKernel (worker : Worker workers) : List (Kernel workers) :=
  let buf := s.buf worker gpuBufId
  if buf.numInsertJob = 0 then [] else [⟨worker, s.hand.round, .insert, buf.inserts⟩]

/-- The second and the third loop of a round in `mega_scheduler_main`. -/
def roundKernels (numSchedInsDel : Nat) : List (Kernel workers) :=
  if insertsDeletes numSchedInsDel s.hand.schedInsDel then
    (List.finRange (workers + 1)).flatMap (deleteKernel s gpuBufId) ++
      (List.finRange (workers + 1)).flatMap (insertKernel s gpuBufId)
  else []

end Kernels

section Requests

def deleteBuf (buf : JobBuf) : DeleteBuf :=
  { numDeleteJob := buf.numDeleteJob, deleteIn := fun k => (buf.deleteIn k).elem }

def Node.batch (s : Node workers) (worker : Worker workers) : Slab.Batch :=
  { localSlab := s.localSlab worker, buf := fun id => deleteBuf (s.jobs.buf worker id) }

def Node.receiverBufId (s : Node workers) (worker : Worker workers) : Nat :=
  (s.jobs.hand.batchSet worker).receiverBufId.toNat

/-- Without a hand-off in between `receiver_buf_id` reads the same each time. -/
def Node.attempts (s : Node workers) (worker : Worker workers) : Nat → Attempts :=
  fun _ => ⟨s.receiverBufId worker, []⟩

def Node.queueDelete (worker : Worker workers) (s : Node workers) (elem : Hash.DElem) : Node workers :=
  { s with
    jobs := s.jobs.queueDelete worker elem
    history := s.history ++ [.evicted worker (s.jobs.tag worker elem)] }

/-- The delete jobs counted between the two states of a buffer. -/
def countedJobs (before after : DeleteBuf) : List Hash.DElem :=
  (List.range' before.numDeleteJob (after.numDeleteJob - before.numDeleteJob)).map after.deleteIn

/-- What `item_alloc_batch` has changed. -/
def Node.refill (s : Node workers) (worker : Worker workers) (size : Nat) (itList : Option Ptr) (m : Memory)
    (bufs : DeleteBufs) : Node workers :=
  let id := s.receiverBufId worker
  let recorded := (countedJobs ((s.batch worker).buf id) (bufs id)).foldl (Node.queueDelete worker) s
  { recorded with
    memory := m
    localSlab := Function.update s.localSlab worker
      (Function.update (s.localSlab worker) (pickList size) itList) }

def Node.locOf (s : Node workers) (it : Ptr) : BitVec 32 := BitVec.ofNat 32 (s.memory.heap it).loc

def Node.setFlags (s : Node workers) (it : Ptr) (flags : Nat) : Node workers :=
  { s with
    memory := { s.memory with heap := Function.update s.memory.heap it { s.memory.heap it with flags := flags } } }

def Node.refuse (s : Node workers) (worker : Worker workers) (it : Ptr) : Node workers :=
  { s.setFlags it 0 with history := s.history ++ [.handedOut worker (s.locOf it) none] }

def Node.queueInsert (s : Node workers) (worker : Worker workers) (it : Ptr) (elem : Hash.IElem) : Node workers :=
  { s with
    jobs := s.jobs.queueInsert worker elem
    history := s.history ++ [.handedOut worker (s.locOf it) (some (s.jobs.tag worker elem))] }

def Node.storeItem (s : Node workers) (it : Ptr) (nkey nbyte : Nat) (data : Nat → Byte) : Node workers :=
  { s with
    memory := { s.memory with
      heap := Function.update s.memory.heap it
        { s.memory.heap it with nkey := nkey, nbytes := nbyte, data := data } } }

instance (buf : JobBuf) (elem : Hash.IElem) : Decidable (InsertFits buf elem) :=
  inferInstanceAs (Decidable (_ ∧ _))

/-- The end of a SET, from the check of the lengths on. -/
def Node.insertJob (build : Receiver.Build) (s : Node workers) (worker : Worker workers) (it : Ptr) (nkey nbyte : Nat)
    (sig : BitVec 64) : Node workers :=
  let elem : Hash.IElem := { hash := Receiver.sigHash sig, sig := Receiver.sigSign sig, loc := s.locOf it }
  if nkey ≠ build.maxKeyLength ∨ nbyte ≠ build.maxValueLength then s.refuse worker it
  else if InsertFits (s.jobs.own worker) elem then s.queueInsert worker it elem
  else s.refuse worker it

def Node.set (build : Receiver.Build) (s : Node workers) (worker : Worker workers) (nkey nbyte : Nat)
    (bytes : Nat → Byte) (sig : BitVec 64) (it : Ptr) (m : Memory) (batch : Slab.Batch) : Node workers :=
  let size := (nkey + nbyte) % 2 ^ 32
  let taken := { s with memory := m, localSlab := Function.update s.localSlab worker batch.localSlab }
  let data := fun k => if k < size then bytes k else (m.heap it).data k
  (taken.storeItem it nkey nbyte data).insertJob build worker it nkey nbyte sig

end Requests

def Node.touch (s : Node workers) (id pos : Nat) : Node workers :=
  let p := s.memory.slabclass id
  { s with memory := s.memory.setClass id { p with bitmap := bitmapTouch p.bitmap pos } }

def Node.launch (numSchedInsDel : Nat) (s : Node workers) (gpuBufId : Int) : Node workers :=
  { s with
    jobs := s.jobs.kernels numSchedInsDel gpuBufId
    kernels := s.kernels ++ roundKernels s.jobs gpuBufId numSchedInsDel }

/-- The refill of a worker's list and the rest of its request are one step each; the steps of the
    hand-off come between them in any order. -/
inductive NodeStep (numSchedInsDel : Nat) : Node workers → Node workers → Prop where
  | refill (s : Node workers) (worker : Worker workers) (supply : Supply) (size : Nat) (itList : Option Ptr)
      (m : Memory) (bufs : DeleteBufs) (empty : s.localSlab worker (pickList size) = none)
      (result : itemAllocBatch supply (s.attempts worker) size s.memory (s.batch worker).buf = .ok (itList, m, bufs)) :
      NodeStep numSchedInsDel s (s.refill worker size itList m bufs)
  | set (s : Node workers) (worker : Worker workers) (build : Receiver.Build) (v : View) (key nkey nbyte : Nat)
      (bytes : Nat → Byte) (sig : BitVec 64) (it : Ptr) (m : Memory) (batch : Slab.Batch)
      (read : v.read key ((nkey + nbyte) % 2 ^ 32) = (.ok bytes : Receiver.Reading _))
      (signature : nkey = build.maxKeyLength → nbyte = build.maxValueLength → Receiver.keySig build v key nkey = .ok sig)
      (taken : takeItem (pickList ((nkey + nbyte) % 2 ^ 32)) s.memory (s.batch worker) = .ok (it, m, batch)) :
      NodeStep numSchedInsDel s (s.set build worker nkey nbyte bytes sig it m batch)
  | touch (s : Node workers) (id pos : Nat) (bound : pos < 2 ^ 32) : NodeStep numSchedInsDel s (s.touch id pos)
  | hand (s : Node workers) (t : Scheduler.State workers) (step : Scheduler.Step numSchedInsDel s.jobs.hand t)
      (noKernels : ∀ gpuBufId, s.jobs.hand.pc = .kernels gpuBufId → t.pc = .kernels gpuBufId)
      (noPush : ∀ worker, s.jobs.hand.senders worker = .holding → t.senders worker = .holding) :
      NodeStep numSchedInsDel s { s with jobs := { s.jobs with hand := t } }
  | launch (s : Node workers) (gpuBufId : Int) (turn : s.jobs.hand.pc = .kernels gpuBufId) :
      NodeStep numSchedInsDel s (s.launch numSchedInsDel gpuBufId)
  | refresh (s : Node workers) (worker : Worker workers) (turn : s.jobs.hand.senders worker = .holding)
      (before : s.jobs.refreshed worker = false) :
      NodeStep numSchedInsDel s { s with jobs := s.jobs.refresh worker }
  | push (s : Node workers) (worker : Worker workers) (batch : Scheduler.Batch)
      (turn : s.jobs.hand.senders worker = .holding) (before : s.jobs.refreshed worker = true)
      (pushed : megaSenderPushBuffer (s.jobs.hand.batchSet worker) = some batch) :
      NodeStep numSchedInsDel s { s with jobs := s.jobs.push worker batch }

def node (workers numSchedInsDel : Nat) : TransitionSystem (Node workers) :=
  { initial := fun s =>
      (jobs workers numSchedInsDel).initial s.jobs ∧
        (∃ bitmap heap, bitmapInit slabclassMaxElemNum = some bitmap ∧ s.memory = slabsInit bitmap heap) ∧
        (∀ worker i, s.localSlab worker i = none) ∧ s.kernels = [] ∧ s.history = []
    step := NodeStep numSchedInsDel }

end MegaKV.Store
