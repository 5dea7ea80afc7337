import MegaKV.Scheduler.Jobs

namespace MegaKV.Scheduler

open Library

/-- What a round puts on a worker's stream. -/
inductive StreamOp where
  | copySearchIn
  | clearSearchOut
  | search
  | copySearchOut
  | copyDeleteIn
  | delete
  | copyInsertIn (block : Nat)
  | copyInsertNum
  | insert
  deriving DecidableEq

structure Launch where
  op : StreamOp
  round : Nat
  bufId : Int
  deriving DecidableEq

/-- The counters of `mega_batch_buf_t` that decide what is launched. -/
structure Counts where
  numSearchJob : Nat
  numDeleteJob : Nat
  numInsertJob : Nat
  insertBuf : Nat → Nat

section Launches

variable (counts : Counts) (round : Nat) (bufId : Int)

def launchAll (ops : List StreamOp) : List Launch := ops.map fun op => ⟨op, round, bufId⟩

def searchLaunches : List Launch :=
  if counts.numSearchJob = 0 then []
  else launchAll round bufId [.copySearchIn, .clearSearchOut, .search, .copySearchOut]

def deleteLaunches : List Launch :=
  if counts.numDeleteJob = 0 then [] else launchAll round bufId [.copyDeleteIn, .delete]

def insertLaunches : List Launch :=
  if counts.numInsertJob = 0 then []
  else
    launchAll round bufId
      ((((List.range numInsertBuf).filter fun i => counts.insertBuf i ≠ 0).map .copyInsertIn) ++
        [.copyInsertNum, .insert])

end Launches

def refreshCounts (batch : Batch) (counts : Counts) : Counts :=
  if batch.delay = 0 then
    { numSearchJob := 0, numDeleteJob := 0, numInsertJob := 0,
      insertBuf := fun i => if i < numInsertBuf then 0 else counts.insertBuf i }
  else { counts with numSearchJob := 0 }

section System

variable (workers : Nat)

/-- The scheduler between taking the buffers and giving them on. -/
inductive Stage where
  | search (worker : Worker workers)
  | decide
  | delete (worker : Worker workers)
  | insert (worker : Worker workers)
  | synchronize
  | done

structure StreamState where
  hand : State workers
  counts : Worker workers → Int → Counts
  stream : Worker workers → List Launch
  stage : Stage workers

end System

variable {workers numSchedInsDel : Nat}

def Stage.nextWorker (worker : Worker workers) (again : Worker workers → Stage workers) (next : Stage workers) :
    Stage workers :=
  match following worker with
  | some worker => again worker
  | none => next

def StreamState.launch (s : StreamState workers) (worker : Worker workers) (launches : List Launch)
    (stage : Stage workers) : StreamState workers :=
  { s with stream := Function.update s.stream worker (s.stream worker ++ launches), stage := stage }

def StreamState.setCounts (s : StreamState workers) (worker : Worker workers) (id : Int) (counts : Counts) :
    StreamState workers :=
  { s with counts := Function.update s.counts worker (Function.update (s.counts worker) id counts) }

/-- Launches wait on their stream, in order, and complete at any moment; `cudaDeviceSynchronize`
    waits for all of them. -/
inductive StreamStep (numSchedInsDel : Nat) : StreamState workers → StreamState workers → Prop where
  | hand (s : StreamState workers) (t : State workers) (step : Step numSchedInsDel s.hand t)
      (noKernels : ∀ gpuBufId, s.hand.pc = .kernels gpuBufId → t.pc = .kernels gpuBufId) :
      StreamStep numSchedInsDel s { s with hand := t }
  | receive (s : StreamState workers) (worker : Worker workers) (counts : Counts) :
      StreamStep numSchedInsDel s (s.setCounts worker (s.hand.batchSet worker).receiverBufId counts)
  | refresh (s : StreamState workers) (worker : Worker workers) (turn : s.hand.senders worker = .holding) :
      StreamStep numSchedInsDel s
        (s.setCounts worker (s.hand.batchSet worker).senderBufId
          (refreshCounts (s.hand.batchSet worker) (s.counts worker (s.hand.batchSet worker).senderBufId)))
  | search (s : StreamState workers) (gpuBufId : Int) (worker : Worker workers)
      (turn : s.hand.pc = .kernels gpuBufId) (stage : s.stage = .search worker) :
      StreamStep numSchedInsDel s
        (s.launch worker (searchLaunches (s.counts worker gpuBufId) s.hand.round gpuBufId)
          (.nextWorker worker .search .decide))
  | decide (s : StreamState workers) (gpuBufId : Int) (turn : s.hand.pc = .kernels gpuBufId)
      (stage : s.stage = .decide) :
      StreamStep numSchedInsDel s
        { s with stage := if insertsDeletes numSchedInsDel s.hand.schedInsDel then .delete 0 else .done }
  | delete (s : StreamState workers) (gpuBufId : Int) (worker : Worker workers)
      (turn : s.hand.pc = .kernels gpuBufId) (stage : s.stage = .delete worker) :
      StreamStep numSchedInsDel s
        (s.launch worker (deleteLaunches (s.counts worker gpuBufId) s.hand.round gpuBufId)
          (.nextWorker worker .delete (.insert 0)))
  | insert (s : StreamState workers) (gpuBufId : Int) (worker : Worker workers)
      (turn : s.hand.pc = .kernels gpuBufId) (stage : s.stage = .insert worker) :
      StreamStep numSchedInsDel s
        (s.launch worker (insertLaunches (s.counts worker gpuBufId) s.hand.round gpuBufId)
          (.nextWorker worker .insert .synchronize))
  | synchronize (s : StreamState workers) (gpuBufId : Int) (turn : s.hand.pc = .kernels gpuBufId)
      (stage : s.stage = .synchronize) (drained : ∀ worker, s.stream worker = []) :
      StreamStep numSchedInsDel s { s with stage := .done }
  | kernels (s : StreamState workers) (gpuBufId : Int) (turn : s.hand.pc = .kernels gpuBufId)
      (stage : s.stage = .done) :
      StreamStep numSchedInsDel s
        { s with
          hand := { s.hand with pc := .give 0, schedInsDel := nextSchedInsDel numSchedInsDel s.hand.schedInsDel }
          stage := .search 0 }
  | complete (s : StreamState workers) (worker : Worker workers) (first : Launch) (rest : List Launch)
      (waiting : s.stream worker = first :: rest) :
      StreamStep numSchedInsDel s { s with stream := Function.update s.stream worker rest }

attribute [local instance (high)] Nat.instNeZeroSucc in
def streams (workers numSchedInsDel : Nat) : TransitionSystem (StreamState workers) :=
  { initial := fun s =>
      s.hand = initialState workers numSchedInsDel ∧ (∀ worker, s.stream worker = []) ∧ s.stage = .search 0
    step := StreamStep numSchedInsDel }

/-- A buffer about to be given to its sender is not waiting for its search results of this round. -/
def ResultsArrived (s : StreamState workers) : Prop :=
  ∀ worker, s.hand.pc = .give worker → (s.hand.batchSet worker).senderBufId = -1 →
    ⟨.copySearchOut, s.hand.round, (s.hand.batchSet worker).gpuBufId⟩ ∉ s.stream worker

def Drained (s : StreamState workers) : Prop :=
  s.stage = .done ∨ (∀ gpuBufId, s.hand.pc ≠ .kernels gpuBufId) → ∀ worker, s.stream worker = []

theorem nextWorker_ne_done (worker : Worker workers) {again : Worker workers → Stage workers} {next : Stage workers}
    (runs : ∀ worker, again worker ≠ .done) (goesOn : next ≠ .done) : Stage.nextWorker worker again next ≠ .done := by
  unfold Stage.nextWorker
  cases following worker with
  | none => exact goesOn
  | some worker => exact runs worker

/-- A state in the middle of the kernels claims nothing yet. -/
theorem drained_busy {s : StreamState workers} {gpuBufId : Int} (turn : s.hand.pc = .kernels gpuBufId)
    (busy : s.stage ≠ .done) : Drained s := by
  intro outside
  rcases outside with done | elsewhere
  · exact absurd done busy
  · exact absurd turn (elsewhere gpuBufId)

theorem drained_step {s t : StreamState workers} (drained : Drained s) (step : StreamStep 0 s t) : Drained t := by
  cases step with
  | hand hand step noKernels =>
    intro outside
    apply drained
    rcases outside with done | elsewhere
    · exact .inl done
    · exact .inr fun gpuBufId turn => elsewhere gpuBufId (noKernels gpuBufId turn)
  | receive worker counts => exact drained
  | refresh worker turn => exact drained
  | search gpuBufId worker turn stage =>
    exact drained_busy turn (nextWorker_ne_done worker (by intro _ equal; cases equal) (by intro equal; cases equal))
  | decide gpuBufId turn stage => exact drained_busy turn (by intro equal; cases equal)
  | delete gpuBufId worker turn stage =>
    exact drained_busy turn (nextWorker_ne_done worker (by intro _ equal; cases equal) (by intro equal; cases equal))
  | insert gpuBufId worker turn stage =>
    exact drained_busy turn (nextWorker_ne_done worker (by intro _ equal; cases equal) (by intro equal; cases equal))
  | synchronize gpuBufId turn stage empty => exact fun _ => empty
  | kernels gpuBufId turn stage => exact fun _ => drained (.inl stage)
  | complete worker first rest waiting =>
    intro outside
    have none := drained outside worker
    rw [waiting] at none
    cases none

theorem drained_reachable {s : StreamState workers} (reached : (streams workers 0).Reachable s) : Drained s := by
  apply reached.invariant
  · intro s start _
    exact start.2.1
  · intro s t drained step
    exact drained_step drained step

section Lone

variable {hand next : State 0} {counts : Worker 0 → Int → Counts} {stream : Worker 0 → List Launch} {stage : Stage 0}

theorem streams_hand (reached : (streams 0 numSchedInsDel).Reachable ⟨hand, counts, stream, stage⟩)
    (step : Step numSchedInsDel hand next)
    (noKernels : ∀ gpuBufId, hand.pc = .kernels gpuBufId → next.pc = .kernels gpuBufId) :
    (streams 0 numSchedInsDel).Reachable ⟨next, counts, stream, stage⟩ :=
  reached.step (.hand _ _ step noKernels)

def oneSearch : Counts := { numSearchJob := 1, numDeleteJob := 0, numInsertJob := 0, insertBuf := fun _ => 0 }

/-- Round 0 is skipped, and its results may still be on their way. -/
theorem results_late (numSchedInsDel : Nat) :
    ∃ s : StreamState 0, (streams 0 (numSchedInsDel + 1)).Reachable s ∧ ¬ ResultsArrived s := by
  have start : (streams 0 (numSchedInsDel + 1)).Reachable
      ⟨restingHand (numSchedInsDel + 1) 0 (-1), fun _ _ => oneSearch, fun _ => [], .search 0⟩ :=
    .initial ⟨rfl, fun _ => rfl, rfl⟩
  have popped := streams_hand start (lone_pop rfl) (by intro _ turn; cases turn)
  have taken := streams_hand popped lone_take (by intro _ turn; cases turn)
  have searched := taken.step (.search _ _ 0 rfl rfl)
  have decided := searched.step (.decide _ _ rfl rfl)
  have given := decided.step (.kernels _ _ rfl rfl)
  refine ⟨_, given, ?_⟩
  intro arrived
  apply arrived 0 rfl rfl
  show (⟨.copySearchOut, 0, slot 0⟩ : Launch) ∈
    Function.update (fun _ : Worker 0 => ([] : List Launch)) 0 ([] ++ searchLaunches oneSearch 0 (slot 0)) 0
  rw [Function.update_self]
  decide

end Lone

/-- The results are there whenever a buffer is published exactly when no round skips the synchronization. -/
theorem results_arrived_iff (numSchedInsDel : Nat) :
    (∀ (workers : Nat) (s : StreamState workers), (streams workers numSchedInsDel).Reachable s → ResultsArrived s) ↔
      numSchedInsDel = 0 := by
  constructor
  · intro arrived
    cases numSchedInsDel with
    | zero => rfl
    | succ fewer =>
      obtain ⟨s, reached, late⟩ := results_late fewer
      exact absurd (arrived 0 s reached) late
  · intro none workers s reached worker turn _ waiting
    subst none
    have outside : ∀ gpuBufId, s.hand.pc ≠ .kernels gpuBufId := by
      intro gpuBufId equal
      cases equal.symm.trans turn
    rw [drained_reachable reached (.inr outside) worker] at waiting
    cases waiting

theorem results_late_one : ∃ s : StreamState 0, (streams 0 1).Reachable s ∧ ¬ ResultsArrived s :=
  results_late 0

end MegaKV.Scheduler
