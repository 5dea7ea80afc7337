import MegaKV.Scheduler.HandOff

namespace MegaKV.Scheduler

open Library

def slot (r : Nat) : Int := ((r % 3 : Nat) : Int)

theorem slot_ne_neg_one (r : Nat) : slot r ≠ -1 := by
  unfold slot
  omega

theorem slot_add_three (r : Nat) : slot (r + 3) = slot r := by
  unfold slot
  omega

theorem slot_distinct (r : Nat) :
    slot r ≠ slot (r + 1) ∧ slot (r + 1) ≠ slot (r + 2) ∧ slot r ≠ slot (r + 2) := by
  unfold slot
  omega

theorem slot_cover (r : Nat) (id : Fin 3) :
    (id.val : Int) = slot r ∨ (id.val : Int) = slot (r + 1) ∨ (id.val : Int) = slot (r + 2) := by
  unfold slot
  omega

inductive Phase where
  | idle
  | popped
  | taken

/-- The buffer given in the last round: still with the sender, pushed but not cleared, or back. -/
inductive Trailing (r : Nat) : (available sender : Int) → SenderPc → Prop where
  | back : Trailing r (slot (r + 2)) (-1) .waiting
  | waiting : Trailing r (-1) (slot (r + 2)) .waiting
  | holding : Trailing r (-1) (slot (r + 2)) .holding
  | pushed : Trailing r (slot (r + 2)) (slot (r + 2)) .pushed

inductive Fits (r : Nat) : Phase → Batch → SenderPc → Prop where
  | idle (available sender delay : Int) (pc : SenderPc) (trailing : Trailing r available sender pc) :
      Fits r .idle ⟨slot r, sender, slot (r + 1), available, -1, delay⟩ pc
  | popped (available sender delay : Int) (pc : SenderPc) (trailing : Trailing r available sender pc) :
      Fits r .popped ⟨slot r, sender, available, -1, -1, delay⟩ pc
  | taken (available sender delay : Int) (pc : SenderPc) (trailing : Trailing r available sender pc) :
      Fits r .taken ⟨slot (r + 1), sender, available, -1, slot r, delay⟩ pc

theorem fits_initial : Fits 0 .idle megaReceiverBatchInit .waiting :=
  .idle (slot 2) (-1) (-1) .waiting .back

section Local

variable {r : Nat} {batch : Batch} {pc : SenderPc}

theorem Fits.pop (fits : Fits r .idle batch pc) :
    (megaGpuGetAvailableBufId batch).1 = slot (r + 1) ∧
      Fits r .popped (megaGpuGetAvailableBufId batch).2 pc := by
  cases fits with
  | idle available sender delay _ trailing => exact ⟨rfl, .popped available sender delay pc trailing⟩

theorem Fits.take (fits : Fits r .popped batch pc) :
    Fits r .taken (megaGpuTakeBatch batch (slot (r + 1))) pc := by
  cases fits with
  | popped available sender delay _ trailing => exact .taken available sender delay pc trailing

theorem Fits.taken_gpu (fits : Fits r .taken batch pc) : batch.gpuBufId = slot r := by
  cases fits with
  | taken available sender delay _ trailing => rfl

theorem Fits.idle_gpu (fits : Fits r .idle batch pc) : batch.gpuBufId = -1 := by
  cases fits with
  | idle available sender delay _ trailing => rfl

theorem Trailing.of_free {available sender : Int} (trailing : Trailing r available sender pc)
    (free : sender = -1) : available = slot (r + 2) ∧ pc = .waiting := by
  cases trailing with
  | back => exact ⟨rfl, rfl⟩
  | waiting => exact absurd free (slot_ne_neg_one _)
  | holding => exact absurd free (slot_ne_neg_one _)
  | pushed => exact absurd free (slot_ne_neg_one _)

/-- The sender slot is free only once the buffer of the last round is back in the list. -/
theorem Fits.give (fits : Fits r .taken batch pc) (free : batch.senderBufId = -1)
    (numSchedInsDel schedInsDel : Nat) :
    Fits (r + 1) .idle (megaGpuGiveToSender batch numSchedInsDel schedInsDel) pc := by
  cases fits with
  | taken available sender delay _ trailing =>
    obtain ⟨rfl, rfl⟩ := trailing.of_free free
    have given : Trailing (r + 1) (-1) (slot r) .waiting := by
      rw [← slot_add_three r]
      exact .waiting
    exact .idle (-1) (slot r) _ .waiting given

theorem Fits.get {phase : Phase} (fits : Fits r phase batch .waiting) (given : batch.senderBufId ≠ -1) :
    Fits r phase batch .holding := by
  cases fits with
  | idle available sender delay _ trailing =>
    cases trailing with
    | back => exact absurd rfl given
    | waiting => exact .idle _ _ _ _ .holding
  | popped available sender delay _ trailing =>
    cases trailing with
    | back => exact absurd rfl given
    | waiting => exact .popped _ _ _ _ .holding
  | taken available sender delay _ trailing =>
    cases trailing with
    | back => exact absurd rfl given
    | waiting => exact .taken _ _ _ _ .holding

theorem Fits.push {phase : Phase} (fits : Fits r phase batch .holding) :
    ∃ after, megaSenderPushBuffer batch = some after ∧ Fits r phase after .pushed := by
  have occupied := slot_ne_neg_one (r + 1)
  cases fits with
  | idle available sender delay _ trailing =>
    cases trailing with
    | holding =>
      refine ⟨_, ?_, .idle (slot (r + 2)) (slot (r + 2)) delay _ .pushed⟩
      simp only [megaSenderPushBuffer, occupied, ite_false, ite_true]
  | popped available sender delay _ trailing =>
    cases trailing with
    | holding => exact ⟨_, rfl, .popped _ _ _ _ .pushed⟩
  | taken available sender delay _ trailing =>
    cases trailing with
    | holding => exact ⟨_, rfl, .taken _ _ _ _ .pushed⟩

theorem Fits.clear {phase : Phase} (fits : Fits r phase batch .pushed) :
    Fits r phase (megaSenderClear batch) .waiting := by
  cases fits with
  | idle available sender delay _ trailing => cases trailing; exact .idle _ _ _ _ .back
  | popped available sender delay _ trailing => cases trailing; exact .popped _ _ _ _ .back
  | taken available sender delay _ trailing => cases trailing; exact .taken _ _ _ _ .back

end Local

section Global

variable {workers : Nat}

def phase (pc : SchedulerPc workers) (worker : Worker workers) : Phase :=
  match pc with
  | .pop current => if worker < current then .taken else .idle
  | .take current _ => if worker < current then .taken else if worker = current then .popped else .idle
  | .kernels _ => .taken
  | .give current => if worker < current then .idle else .taken

def localRound (pc : SchedulerPc workers) (round : Nat) (worker : Worker workers) : Nat :=
  match pc with
  | .give current => if worker < current then round + 1 else round
  | _ => round

def PcFits (pc : SchedulerPc workers) (round : Nat) : Prop :=
  match pc with
  | .take _ availableBufId => availableBufId = slot (round + 1)
  | .kernels gpuBufId => gpuBufId = slot round
  | _ => True

/-- All workers rotate in lockstep, whatever their senders do. -/
structure Lockstep (s : State workers) : Prop where
  worker : ∀ worker, Fits (localRound s.pc s.round worker) (phase s.pc worker) (s.batchSet worker) (s.senders worker)
  scheduler : PcFits s.pc s.round

theorem following_some {worker next : Worker workers} (more : following worker = some next) :
    next.val = worker.val + 1 := by
  unfold following at more
  split at more
  · cases more; rfl
  · cases more

theorem following_none {worker : Worker workers} (last : following worker = none) : worker.val = workers := by
  unfold following at last
  split at last
  · cases last
  · have := worker.isLt
    omega

theorem lockstep_initial (numSchedInsDel : Nat) : Lockstep (initialState workers numSchedInsDel) :=
  ⟨fun _ => fits_initial, trivial⟩

theorem Lockstep.local_step {s t : State workers} (lock : Lockstep s) (worker : Worker workers)
    (view : ∀ other, other ≠ worker → localRound t.pc t.round other = localRound s.pc s.round other ∧
      phase t.pc other = phase s.pc other)
    (frame : ∀ other, other ≠ worker → t.batchSet other = s.batchSet other ∧ t.senders other = s.senders other)
    (own : Fits (localRound t.pc t.round worker) (phase t.pc worker) (t.batchSet worker) (t.senders worker))
    (scheduler : PcFits t.pc t.round) : Lockstep t := by
  refine ⟨?_, scheduler⟩
  intro other
  by_cases same : other = worker
  · subst same
    exact own
  · rw [(view other same).1, (view other same).2, (frame other same).1, (frame other same).2]
    exact lock.worker other

theorem lockstep_pop {s : State workers} (lock : Lockstep s) (worker : Worker workers) (turn : s.pc = .pop worker) :
    Lockstep { s.setBatch worker (megaGpuGetAvailableBufId (s.batchSet worker)).2 with
      pc := .take worker (megaGpuGetAvailableBufId (s.batchSet worker)).1 } := by
  have fits := lock.worker worker
  simp only [turn, localRound, phase, Fin.lt_irrefl, ite_false] at fits
  obtain ⟨value, after⟩ := fits.pop
  apply lock.local_step worker
  · intro other different
    simp only [turn, localRound, phase, different, ite_false, State.setBatch, and_self]
  · intro other different
    simp [State.setBatch, different]
  · simpa [localRound, phase, State.setBatch] using after
  · exact value

theorem view_afterTake {worker other : Worker workers} (different : other ≠ worker) (batch : Batch)
    (availableBufId : Int) (round : Nat) :
    localRound (afterTake worker batch) round other = localRound (.take worker availableBufId) round other ∧
      phase (afterTake worker batch) other = phase (.take worker availableBufId) other := by
  have apart : other.val ≠ worker.val := fun same => different (Fin.ext same)
  unfold afterTake
  split
  · rename_i next more
    have position := following_some more
    have order : other < next ↔ other < worker := by
      simp only [Fin.lt_def]
      omega
    simp only [localRound, phase, order, different, ite_false, and_self]
  · rename_i last
    have position := following_none last
    have order : other < worker := by
      have bound := other.isLt
      simp only [Fin.lt_def]
      omega
    simp only [localRound, phase, order, ite_true, and_self]

theorem view_afterTake_self (worker : Worker workers) (batch : Batch) (round : Nat) :
    localRound (afterTake worker batch) round worker = round ∧ phase (afterTake worker batch) worker = .taken := by
  unfold afterTake
  split
  · rename_i next more
    have position := following_some more
    have order : worker < next := by
      simp only [Fin.lt_def]
      omega
    simp only [localRound, phase, order, ite_true, and_self]
  · exact ⟨rfl, rfl⟩

theorem lockstep_take {s : State workers} (lock : Lockstep s) (worker : Worker workers) (availableBufId : Int)
    (turn : s.pc = .take worker availableBufId) :
    Lockstep { s.setBatch worker (megaGpuTakeBatch (s.batchSet worker) availableBufId) with
      pc := afterTake worker (megaGpuTakeBatch (s.batchSet worker) availableBufId) } := by
  have fits := lock.worker worker
  have value := lock.scheduler
  simp only [turn, PcFits] at value
  subst value
  simp only [turn, localRound, phase, Fin.lt_irrefl, ite_false, ite_true] at fits
  have after := fits.take
  apply lock.local_step worker
  · intro other different
    rw [turn]
    exact view_afterTake different _ _ s.round
  · intro other different
    simp [State.setBatch, different]
  · have self := view_afterTake_self worker (megaGpuTakeBatch (s.batchSet worker) (slot (s.round + 1))) s.round
    change Fits (localRound (afterTake worker _) s.round worker) (phase (afterTake worker _) worker) _ _
    rw [self.1, self.2]
    simpa [State.setBatch] using after
  · unfold afterTake
    split
    · trivial
    · exact after.taken_gpu

theorem lockstep_kernels {s : State workers} (lock : Lockstep s) (gpuBufId : Int) (turn : s.pc = .kernels gpuBufId)
    (schedInsDel : Nat) : Lockstep { s with pc := .give 0, schedInsDel := schedInsDel } := by
  refine ⟨?_, trivial⟩
  intro worker
  have fits := lock.worker worker
  simp only [turn, localRound, phase] at fits
  simpa [localRound, phase] using fits

theorem lockstep_give {s : State workers} (lock : Lockstep s) (worker : Worker workers) (turn : s.pc = .give worker)
    (free : (s.batchSet worker).senderBufId = -1) (numSchedInsDel schedInsDel : Nat) :
    Lockstep ((s.setBatch worker
      (megaGpuGiveToSender (s.batchSet worker) numSchedInsDel schedInsDel)).afterGive worker) := by
  have fits := lock.worker worker
  simp only [turn, localRound, phase, Fin.lt_irrefl, ite_false] at fits
  have after := fits.give free numSchedInsDel schedInsDel
  unfold State.afterGive
  split
  · rename_i next more
    have position := following_some more
    apply lock.local_step worker
    · intro other different
      have apart : other.val ≠ worker.val := fun same => different (Fin.ext same)
      have order : other < next ↔ other < worker := by
        simp only [Fin.lt_def]
        omega
      simp only [turn, localRound, phase, order, State.setBatch, and_self]
    · intro other different
      simp [State.setBatch, different]
    · have order : worker < next := by
        simp only [Fin.lt_def]
        omega
      simp only [localRound, phase, order, ite_true, State.setBatch, Function.update_self]
      exact after
    · trivial
  · rename_i last
    have position := following_none last
    apply lock.local_step worker
    · intro other different
      have apart : other.val ≠ worker.val := fun same => different (Fin.ext same)
      have bound := other.isLt
      have order : other < worker := by
        simp only [Fin.lt_def]
        omega
      simp [turn, localRound, phase, order, State.setBatch]
    · intro other different
      simp [State.setBatch, different]
    · simpa [localRound, phase, State.setBatch] using after
    · trivial

theorem lockstep_sender {s : State workers} (lock : Lockstep s) (worker : Worker workers) (batch : Batch)
    (pc : SenderPc) (own : Fits (localRound s.pc s.round worker) (phase s.pc worker) batch pc) :
    Lockstep ((s.setBatch worker batch).setSender worker pc) := by
  apply lock.local_step worker
  · intro other different
    exact ⟨rfl, rfl⟩
  · intro other different
    simp [State.setBatch, State.setSender, different]
  · simpa [State.setBatch, State.setSender] using own
  · exact lock.scheduler

theorem lockstep_step {numSchedInsDel : Nat} (s t : State workers) (lock : Lockstep s)
    (step : Step numSchedInsDel s t) : Lockstep t := by
  cases step with
  | pop worker turn _ => exact lockstep_pop lock worker turn
  | take worker availableBufId turn => exact lockstep_take lock worker availableBufId turn
  | kernels gpuBufId turn => exact lockstep_kernels lock gpuBufId turn _
  | give worker turn free => exact lockstep_give lock worker turn free _ _
  | get worker turn given =>
    have fits := lock.worker worker
    rw [turn] at fits
    have same : s.setSender worker .holding = (s.setBatch worker (s.batchSet worker)).setSender worker .holding := by
      simp [State.setBatch]
    rw [same]
    exact lockstep_sender lock worker _ _ (fits.get given)
  | push worker batch turn pushed =>
    have fits := lock.worker worker
    rw [turn] at fits
    obtain ⟨after, stored, fitsAfter⟩ := fits.push
    rw [stored] at pushed
    cases pushed
    exact lockstep_sender lock worker _ _ fitsAfter
  | clear worker turn =>
    have fits := lock.worker worker
    rw [turn] at fits
    exact lockstep_sender lock worker _ _ fits.clear

theorem lockstep_reachable {numSchedInsDel : Nat} {s : State workers}
    (reached : (handOff workers numSchedInsDel).Reachable s) : Lockstep s :=
  reached.invariant (fun _ start => start ▸ lockstep_initial numSchedInsDel) lockstep_step

def ReceiverOwns (batch : Batch) (sender : SenderPc) : Prop :=
  batch.receiverBufId ≠ -1 ∧ batch.receiverBufId ≠ batch.gpuBufId ∧
    batch.receiverBufId ≠ batch.availableBufId0 ∧ batch.receiverBufId ≠ batch.availableBufId1 ∧
    (sender ≠ .pushed → batch.receiverBufId ≠ batch.senderBufId)

/-- The places a buffer can be in; a pushed buffer still named by the sender slot is in the list. -/
def Kept (s : State workers) (worker : Worker workers) (id : Int) : Prop :=
  (s.batchSet worker).receiverBufId = id ∨ (s.batchSet worker).gpuBufId = id ∨
    (s.batchSet worker).availableBufId0 = id ∨ (s.batchSet worker).availableBufId1 = id ∨
    ((s.batchSet worker).senderBufId = id ∧ s.senders worker ≠ .pushed) ∨ s.pc = .take worker id

section Views

variable {r : Nat} {batch : Batch} {pc : SenderPc} {current : Phase}

theorem Fits.receiver_owns (fits : Fits r current batch pc) : ReceiverOwns batch pc := by
  have valid := slot_ne_neg_one r
  have validNext := slot_ne_neg_one (r + 1)
  obtain ⟨first, second, third⟩ := slot_distinct r
  cases fits with
  | idle available sender delay _ trailing =>
    cases trailing <;> simp [ReceiverOwns, valid, first, third]
  | popped available sender delay _ trailing =>
    cases trailing <;> simp [ReceiverOwns, valid, third]
  | taken available sender delay _ trailing =>
    cases trailing <;> simp [ReceiverOwns, validNext, first.symm, second]

theorem Trailing.kept {available sender : Int} (trailing : Trailing r available sender pc) :
    available = slot (r + 2) ∨ (sender = slot (r + 2) ∧ pc ≠ .pushed) := by
  cases trailing with
  | back => exact .inl rfl
  | waiting => exact .inr ⟨rfl, by decide⟩
  | holding => exact .inr ⟨rfl, by decide⟩
  | pushed => exact .inl rfl

theorem Fits.gpu_cases (fits : Fits r current batch pc) : batch.gpuBufId = -1 ∨ batch.gpuBufId = slot r := by
  cases fits with
  | idle => exact .inl rfl
  | popped => exact .inl rfl
  | taken => exact .inr rfl

end Views

theorem Lockstep.kept {s : State workers} (lock : Lockstep s) (worker : Worker workers) (id : Fin 3) :
    Kept s worker (id.val : Int) := by
  have fits := lock.worker worker
  have cover := slot_cover (localRound s.pc s.round worker) id
  generalize view : phase s.pc worker = current at fits
  generalize turn : localRound s.pc s.round worker = r at fits cover
  generalize named : s.batchSet worker = batch at fits
  generalize place : s.senders worker = sender at fits
  unfold Kept
  rw [named, place]
  cases fits with
  | idle available held delay _ trailing =>
    rcases cover with equal | equal | equal
    · simp [equal]
    · simp [equal]
    · rcases trailing.kept with back | with_sender
      · simp [equal, back]
      · simp [equal, with_sender]
  | popped available held delay _ trailing =>
    rcases cover with equal | equal | equal
    · simp [equal]
    · have taking : s.pc = .take worker (slot (r + 1)) := by
        have value := lock.scheduler
        cases pc : s.pc with
        | pop current =>
          simp only [pc, phase] at view
          split at view <;> cases view
        | take current availableBufId =>
          simp only [pc, phase] at view
          simp only [pc, PcFits] at value
          simp only [pc, localRound] at turn
          split at view
          · cases view
          · split at view
            · rename_i same
              rw [same, value, turn]
            · cases view
        | kernels => simp only [pc, phase] at view; cases view
        | give current =>
          simp only [pc, phase] at view
          split at view <;> cases view
      simp [equal, taking]
    · rcases trailing.kept with back | with_sender
      · simp [equal, back]
      · simp [equal, with_sender]
  | taken available held delay _ trailing =>
    rcases cover with equal | equal | equal
    · simp [equal]
    · simp [equal]
    · rcases trailing.kept with back | with_sender
      · simp [equal, back]
      · simp [equal, with_sender]

theorem Lockstep.gpu_cases {s : State workers} (lock : Lockstep s) (worker : Worker workers) :
    (s.batchSet worker).gpuBufId = -1 ∨ (s.batchSet worker).gpuBufId = slot s.round := by
  have fits := lock.worker worker
  cases pc : s.pc with
  | pop current =>
    rw [pc] at fits
    exact fits.gpu_cases
  | take current availableBufId =>
    rw [pc] at fits
    exact fits.gpu_cases
  | kernels gpuBufId =>
    rw [pc] at fits
    exact fits.gpu_cases
  | give current =>
    rw [pc] at fits
    by_cases given : worker < current
    · simp only [phase, given, ite_true] at fits
      exact .inl fits.idle_gpu
    · simp only [localRound, given, ite_false] at fits
      exact fits.gpu_cases

/-- Over every interleaving of the scheduler with any number of senders: the pop finds a buffer,
    the push finds a place, the receiver's buffer is its own, no buffer is lost, and all workers
    have the buffer of the round with the scheduler. -/
theorem buffers_rotate {numSchedInsDel : Nat} {s : State workers}
    (reached : (handOff workers numSchedInsDel).Reachable s) :
    (∀ worker, s.pc = .pop worker → (megaGpuGetAvailableBufId (s.batchSet worker)).1 ≠ -1 ∧
      (s.batchSet worker).gpuBufId = -1) ∧
    (∀ worker, s.senders worker = .holding → megaSenderPushBuffer (s.batchSet worker) ≠ none) ∧
    (∀ worker, ReceiverOwns (s.batchSet worker) (s.senders worker)) ∧
    (∀ worker (id : Fin 3), Kept s worker (id.val : Int)) ∧
    (∀ worker, (s.batchSet worker).gpuBufId = -1 ∨ (s.batchSet worker).gpuBufId = slot s.round) ∧
    (∀ gpuBufId, s.pc = .kernels gpuBufId → gpuBufId = slot s.round ∧
      ∀ worker, bufs workers gpuBufId worker = (worker, (s.batchSet worker).gpuBufId)) := by
  have lock := lockstep_reachable reached
  refine ⟨?_, ?_, fun worker => (lock.worker worker).receiver_owns, lock.kept, lock.gpu_cases, ?_⟩
  · intro worker turn
    have fits := lock.worker worker
    simp only [turn, localRound, phase, Fin.lt_irrefl, ite_false] at fits
    rw [fits.pop.1]
    exact ⟨slot_ne_neg_one _, fits.idle_gpu⟩
  · intro worker turn
    have fits := lock.worker worker
    rw [turn] at fits
    obtain ⟨after, stored, _⟩ := fits.push
    rw [stored]
    exact Option.some_ne_none after
  · intro gpuBufId turn
    have value := lock.scheduler
    simp only [turn, PcFits] at value
    refine ⟨value, ?_⟩
    intro worker
    have fits := lock.worker worker
    simp only [turn, localRound, phase] at fits
    rw [bufs, value, fits.taken_gpu]

attribute [local instance (high)] pairWorkers in
/-- In round 1 the sender of worker 0 has its buffer, and the scheduler is at worker 1. -/
def heldPair : State 1 := duo ⟨2, 0, -1, -1, 1, 0⟩ ⟨1, 0, 2, -1, -1, 0⟩ .holding .waiting (.pop 1) 1

theorem heldPair_reached : (handOff 1 0).Reachable heldPair := by
  have start : (handOff 1 0).Reachable (duo megaReceiverBatchInit megaReceiverBatchInit .waiting .waiting (.pop 0) 0) :=
    .initial duo_initial.symm
  have taken := (start.step (duo_popFirst rfl)).step duo_takeFirst
  have both := (taken.step (duo_popSecond rfl)).step duo_takeSecond
  have ran := both.step (.kernels _ 0 rfl)
  have given := (ran.step (duo_giveFirst rfl)).step (duo_giveSecond rfl)
  have held := given.step (duo_getFirst (by decide))
  exact (held.step (duo_popFirst rfl)).step duo_takeFirst

theorem buffers_rotate_held : (megaGpuGetAvailableBufId (heldPair.batchSet 1)).1 ≠ -1 ∧
    megaSenderPushBuffer (heldPair.batchSet 0) ≠ none ∧ (∀ worker, ReceiverOwns (heldPair.batchSet worker) (heldPair.senders worker)) ∧
    ∀ worker (id : Fin 3), Kept heldPair worker (id.val : Int) :=
  have views := buffers_rotate heldPair_reached
  ⟨(views.1 1 rfl).1, views.2.1 0 rfl, views.2.2.1, views.2.2.2.1⟩

end Global

end MegaKV.Scheduler
