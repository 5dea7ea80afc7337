import MegaKV.Library.Transition

namespace MegaKV.Scheduler

/-- The ids through which receiver, scheduler and sender of one worker hand on three buffers. -/
structure Batch where
  receiverBufId : Int
  senderBufId : Int
  availableBufId0 : Int
  availableBufId1 : Int
  gpuBufId : Int
  delay : Int
  deriving DecidableEq, Repr

/-- The end of `mega_receiver_batch_init`, which `mega_sender_init` leaves as it is. -/
def megaReceiverBatchInit : Batch :=
  { receiverBufId := 0, senderBufId := -1, availableBufId0 := 1, availableBufId1 := 2,
    gpuBufId := -1, delay := -1 }

/-- The locked pop of `mega_gpu_get_available_buf_id`. -/
def megaGpuGetAvailableBufId (batch : Batch) : Int × Batch :=
  (batch.availableBufId0,
    { batch with availableBufId0 := batch.availableBufId1, availableBufId1 := -1 })

/-- The part of `mega_gpu_get_batch` after the pop. -/
def megaGpuTakeBatch (batch : Batch) (availableBufId : Int) : Batch :=
  { batch with gpuBufId := batch.receiverBufId, receiverBufId := availableBufId }

/-- `mega_gpu_give_to_sender` for one worker, once its sender slot is free. -/
def megaGpuGiveToSender (batch : Batch) (numSchedInsDel schedInsDel : Nat) : Batch :=
  { batch with
    delay := if schedInsDel = numSchedInsDel then 0 else 1
    senderBufId := batch.gpuBufId
    gpuBufId := -1 }

/-- The locked push of `mega_sender_give_available_buffer`; `none` is its assertion. -/
def megaSenderPushBuffer (batch : Batch) : Option Batch :=
  if batch.availableBufId0 = -1 then some { batch with availableBufId0 := batch.senderBufId }
  else if batch.availableBufId1 = -1 then some { batch with availableBufId1 := batch.senderBufId }
  else none

def megaSenderClear (batch : Batch) : Batch := { batch with senderBufId := -1 }

/-- `sched_ins_del` after a round: counted down, and reset in the round that inserts and deletes. -/
def nextSchedInsDel (numSchedInsDel schedInsDel : Nat) : Nat :=
  if 0 < schedInsDel then schedInsDel - 1 else numSchedInsDel

inductive SenderPc where
  | waiting
  | holding
  | pushed
  deriving DecidableEq, Repr

section System

variable (workers : Nat)

abbrev Worker := Fin (workers + 1)

inductive SchedulerPc where
  | pop (worker : Worker workers)
  | take (worker : Worker workers) (availableBufId : Int)
  | kernels (gpuBufId : Int)
  | give (worker : Worker workers)

structure State where
  batchSet : Worker workers → Batch
  senders : Worker workers → SenderPc
  pc : SchedulerPc workers
  schedInsDel : Nat
  round : Nat

/-- `g->bufs[i][j] = &(batch_set[j].buf[i])`. -/
def bufs (gpuBufId : Int) (worker : Worker workers) : Worker workers × Int := (worker, gpuBufId)

end System

variable {workers : Nat}

def State.setBatch (s : State workers) (worker : Worker workers) (batch : Batch) : State workers :=
  { s with batchSet := Function.update s.batchSet worker batch }

def State.setSender (s : State workers) (worker : Worker workers) (pc : SenderPc) : State workers :=
  { s with senders := Function.update s.senders worker pc }

def following (worker : Worker workers) : Option (Worker workers) :=
  if inside : worker.val + 1 < workers + 1 then some ⟨worker.val + 1, inside⟩ else none

/-- After the last worker `mega_gpu_get_batch` returns that worker's `gpu_buf_id`. -/
def afterTake (worker : Worker workers) (batch : Batch) : SchedulerPc workers :=
  match following worker with
  | some next => .pop next
  | none => .kernels batch.gpuBufId

def State.afterGive (s : State workers) (worker : Worker workers) : State workers :=
  match following worker with
  | some next => { s with pc := .give next }
  | none => { s with pc := .pop 0, round := s.round + 1 }

inductive Step (numSchedInsDel : Nat) : State workers → State workers → Prop where
  | pop (s : State workers) (worker : Worker workers) (turn : s.pc = .pop worker)
      (idle : (s.batchSet worker).gpuBufId = -1) :
      Step numSchedInsDel s
        { s.setBatch worker (megaGpuGetAvailableBufId (s.batchSet worker)).2 with
          pc := .take worker (megaGpuGetAvailableBufId (s.batchSet worker)).1 }
  | take (s : State workers) (worker : Worker workers) (availableBufId : Int)
      (turn : s.pc = .take worker availableBufId) :
      Step numSchedInsDel s
        { s.setBatch worker (megaGpuTakeBatch (s.batchSet worker) availableBufId) with
          pc := afterTake worker (megaGpuTakeBatch (s.batchSet worker) availableBufId) }
  | kernels (s : State workers) (gpuBufId : Int) (turn : s.pc = .kernels gpuBufId) :
      Step numSchedInsDel s
        { s with pc := .give 0, schedInsDel := nextSchedInsDel numSchedInsDel s.schedInsDel }
  | give (s : State workers) (worker : Worker workers) (turn : s.pc = .give worker)
      (free : (s.batchSet worker).senderBufId = -1) :
      Step numSchedInsDel s
        ((s.setBatch worker
          (megaGpuGiveToSender (s.batchSet worker) numSchedInsDel s.schedInsDel)).afterGive worker)
  | get (s : State workers) (worker : Worker workers) (turn : s.senders worker = .waiting)
      (given : (s.batchSet worker).senderBufId ≠ -1) :
      Step numSchedInsDel s (s.setSender worker .holding)
  | push (s : State workers) (worker : Worker workers) (batch : Batch) (turn : s.senders worker = .holding)
      (pushed : megaSenderPushBuffer (s.batchSet worker) = some batch) :
      Step numSchedInsDel s ((s.setBatch worker batch).setSender worker .pushed)
  | clear (s : State workers) (worker : Worker workers) (turn : s.senders worker = .pushed) :
      Step numSchedInsDel s
        ((s.setBatch worker (megaSenderClear (s.batchSet worker))).setSender worker .waiting)

def initialState (workers numSchedInsDel : Nat) : State workers :=
  { batchSet := fun _ => megaReceiverBatchInit
    senders := fun _ => .waiting
    pc := .pop 0
    schedInsDel := numSchedInsDel
    round := 0 }

def handOff (workers numSchedInsDel : Nat) : Library.TransitionSystem (State workers) :=
  { initial := fun s => s = initialState workers numSchedInsDel
    step := Step numSchedInsDel }

section Pairs

theorem pairWorkers : NeZero (1 + 1) := ⟨Nat.succ_ne_zero 1⟩

def pairOf {Value : Type} (first second : Value) (worker : Worker 1) : Value := if worker = 0 then first else second

theorem pair_cases : ∀ worker : Worker 1, worker = 0 ∨ worker = 1 := by decide

theorem pairOf_first {Value : Type} (first second value : Value) :
    Function.update (pairOf first second) 0 value = pairOf value second := by
  funext worker
  by_cases same : worker = 0
  · rw [same, Function.update_self]
    rfl
  · rw [Function.update_of_ne same, pairOf, pairOf, if_neg same, if_neg same]

theorem pairOf_second {Value : Type} (first second value : Value) :
    Function.update (pairOf first second) 1 value = pairOf first value := by
  funext worker
  by_cases same : worker = 1
  · rw [same, Function.update_self]
    rfl
  · rw [(pair_cases worker).resolve_right same]
    rfl

theorem pairOf_same {Value : Type} (value : Value) : pairOf value value = fun _ => value := by
  funext worker
  rw [pairOf, ite_self]

theorem pairOf_ne {Value : Type} {first second value : Value} (left : first ≠ value) (right : second ≠ value)
    (worker : Worker 1) : pairOf first second worker ≠ value := by
  unfold pairOf
  split
  · exact left
  · exact right

theorem following_first : following (0 : Worker 1) = some 1 := rfl

theorem following_second : following (1 : Worker 1) = none := rfl

def duo (first second : Batch) (left right : SenderPc) (pc : SchedulerPc 1) (round : Nat) : State 1 :=
  { batchSet := pairOf first second, senders := pairOf left right, pc := pc, schedInsDel := 0, round := round }

theorem duo_initial :
    initialState 1 0 = duo megaReceiverBatchInit megaReceiverBatchInit .waiting .waiting (.pop 0) 0 := by
  rw [duo, pairOf_same, pairOf_same]
  rfl

variable {first second : Batch} {left right : SenderPc} {pc : SchedulerPc 1} {round : Nat} {availableBufId : Int}

theorem duo_popFirst (idle : first.gpuBufId = -1) :
    Step 0 (duo first second left right (.pop 0) round)
      (duo (megaGpuGetAvailableBufId first).2 second left right (.take 0 (megaGpuGetAvailableBufId first).1) round) := by
  have step : Step 0 _ _ := .pop (duo first second left right (.pop 0) round) 0 rfl idle
  simp only [duo, State.setBatch, pairOf_first] at step
  exact step

theorem duo_takeFirst :
    Step 0 (duo first second left right (.take 0 availableBufId) round)
      (duo (megaGpuTakeBatch first availableBufId) second left right (.pop 1) round) := by
  have step : Step 0 _ _ := .take (duo first second left right (.take 0 availableBufId) round) 0 _ rfl
  simp only [duo, State.setBatch, pairOf_first, afterTake, following_first] at step
  exact step

theorem duo_popSecond (idle : second.gpuBufId = -1) :
    Step 0 (duo first second left right (.pop 1) round)
      (duo first (megaGpuGetAvailableBufId second).2 left right (.take 1 (megaGpuGetAvailableBufId second).1) round) := by
  have step : Step 0 _ _ := .pop (duo first second left right (.pop 1) round) 1 rfl idle
  simp only [duo, State.setBatch, pairOf_second] at step
  exact step

theorem duo_takeSecond :
    Step 0 (duo first second left right (.take 1 availableBufId) round)
      (duo first (megaGpuTakeBatch second availableBufId) left right (.kernels second.receiverBufId) round) := by
  have step : Step 0 _ _ := .take (duo first second left right (.take 1 availableBufId) round) 1 _ rfl
  simp only [duo, State.setBatch, pairOf_second, afterTake, following_second, megaGpuTakeBatch] at step
  exact step

theorem duo_giveFirst (free : first.senderBufId = -1) :
    Step 0 (duo first second left right (.give 0) round)
      (duo (megaGpuGiveToSender first 0 0) second left right (.give 1) round) := by
  have step : Step 0 _ _ := .give (duo first second left right (.give 0) round) 0 rfl free
  simp only [duo, State.setBatch, pairOf_first, State.afterGive, following_first] at step
  exact step

theorem duo_giveSecond (free : second.senderBufId = -1) :
    Step 0 (duo first second left right (.give 1) round)
      (duo first (megaGpuGiveToSender second 0 0) left right (.pop 0) (round + 1)) := by
  have step : Step 0 _ _ := .give (duo first second left right (.give 1) round) 1 rfl free
  simp only [duo, State.setBatch, pairOf_second, State.afterGive, following_second] at step
  exact step

theorem duo_getFirst (given : first.senderBufId ≠ -1) :
    Step 0 (duo first second .waiting right pc round) (duo first second .holding right pc round) := by
  have step : Step 0 _ _ := .get (duo first second .waiting right pc round) 0 rfl given
  simp only [duo, State.setSender, pairOf_first] at step
  exact step

theorem duo_pushFirst (pushed : Batch) :
    ((duo first second left right pc round).setBatch 0 pushed).setSender 0 .pushed =
      duo pushed second .pushed right pc round := by
  simp only [duo, State.setBatch, State.setSender, pairOf_first]

theorem duo_clearFirst :
    Step 0 (duo first second .pushed right pc round) (duo (megaSenderClear first) second .waiting right pc round) := by
  have step : Step 0 _ _ := .clear (duo first second .pushed right pc round) 0 rfl
  simp only [duo, State.setBatch, State.setSender, pairOf_first] at step
  exact step

end Pairs

end MegaKV.Scheduler
