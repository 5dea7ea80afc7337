import MegaKV.Scheduler.Jobs

namespace MegaKV.Scheduler

open Library

variable {workers numSchedInsDel : Nat}

theorem jobs_hand {s : JobState workers} (reached : (jobs workers numSchedInsDel).Reachable s) :
    (handOff workers numSchedInsDel).Reachable s.hand := by
  induction reached with
  | initial start => exact .initial start.1
  | step _ next before =>
    cases next with
    | queueDelete worker elem _ => exact before
    | queueInsert worker elem _ => exact before
    | hand t step _ _ => exact .step before step
    | kernels gpuBufId turn => exact .step before (.kernels _ gpuBufId turn)
    | refresh worker turn _ => exact before
    | push worker batch turn _ pushed => exact .step before (.push _ worker batch turn pushed)

/-- The kernels of the round are over, and the worker's buffer is still with the scheduler. -/
def KernelsDone (pc : SchedulerPc workers) (worker : Worker workers) : Prop :=
  match pc with
  | .give current => ¬ worker < current
  | _ => False

/-- The sender has the buffer of the last round and has not made it look like new. -/
def Unrefreshed (s : JobState workers) (worker : Worker workers) : Prop :=
  (s.hand.batchSet worker).senderBufId ≠ -1 ∧ s.hand.senders worker ≠ .pushed ∧ s.refreshed worker = false

def roundOf (s : JobState workers) (worker : Worker workers) : Nat := localRound s.hand.pc s.hand.round worker

/-- The buffer's jobs have been executed in round `r`, or in the one before it. -/
def Executed (numSchedInsDel : Nat) (s : JobState workers) (worker : Worker workers) (id : Int) : Prop :=
  id = slot (roundOf s worker) ∧ KernelsDone s.hand.pc worker ∧ RunsInsDel numSchedInsDel (roundOf s worker) ∨
    id = slot (roundOf s worker + 2) ∧ Unrefreshed s worker ∧ RunsInsDel numSchedInsDel (roundOf s worker - 1)

instance (pc : SchedulerPc workers) (worker : Worker workers) : Decidable (KernelsDone pc worker) :=
  match pc with
  | .pop _ => .isFalse id
  | .take _ _ => .isFalse id
  | .kernels _ => .isFalse id
  | .give current => inferInstanceAs (Decidable (¬ worker < current))

instance (r : Nat) : Decidable (RunsInsDel numSchedInsDel r) :=
  inferInstanceAs (Decidable (_ = true))

instance (s : JobState workers) (worker : Worker workers) : Decidable (Unrefreshed s worker) :=
  inferInstanceAs (Decidable (_ ∧ _))

instance (s : JobState workers) (worker : Worker workers) (id : Int) : Decidable (Executed numSchedInsDel s worker id) :=
  inferInstanceAs (Decidable (_ ∨ _))

def pending (numSchedInsDel : Nat) (s : JobState workers) (worker : Worker workers) (id : Int) : List Job :=
  if Executed numSchedInsDel s worker id then [] else (s.buf worker id).content

def bufIds : List Int := [0, 1, 2]

def executed (s : JobState workers) (worker : Worker workers) : List Job := (s.passes worker).flatMap Pass.jobs

structure Accounted (numSchedInsDel : Nat) (s : JobState workers) : Prop where
  clean : ∀ worker, s.refreshed worker = true → s.hand.senders worker = .holding
  counted : ∀ worker id, (s.buf worker id).Counted
  ledger : ∀ worker,
    Balanced bufIds (s.queued worker) (executed s worker) (pending numSchedInsDel s worker)
  serials : ∀ worker, (s.queued worker).map Job.serial = List.range (s.queued worker).length
  rounds : ∀ worker, ∀ pass ∈ s.passes worker,
    RunsInsDel numSchedInsDel pass.round ∧ pass.round < countedRound s.hand
  taken : ∀ worker, KernelsDone s.hand.pc worker → RunsInsDel numSchedInsDel (roundOf s worker) →
    ⟨roundOf s worker, slot (roundOf s worker), (s.buf worker (slot (roundOf s worker))).content⟩ ∈ s.passes worker
  given : ∀ worker, Unrefreshed s worker → RunsInsDel numSchedInsDel (roundOf s worker - 1) →
    ⟨roundOf s worker - 1, slot (roundOf s worker + 2), (s.buf worker (slot (roundOf s worker + 2))).content⟩ ∈
      s.passes worker

/-- What a step of the hand-off means for one worker: nothing, or its buffer goes to the sender. -/
inductive Sees (s t : JobState workers) (worker : Worker workers) : Prop where
  | same (round : roundOf t worker = roundOf s worker)
      (kernels : KernelsDone t.hand.pc worker ↔ KernelsDone s.hand.pc worker)
      (unrefreshed : Unrefreshed t worker ↔ Unrefreshed s worker)
  | given (round : roundOf t worker = roundOf s worker + 1) (before : KernelsDone s.hand.pc worker)
      (after : ¬ KernelsDone t.hand.pc worker) (free : ¬ Unrefreshed s worker) (unrefreshed : Unrefreshed t worker)

theorem kernelsDone_afterTake (worker current : Worker workers) (batch : Batch) :
    ¬ KernelsDone (afterTake current batch) worker := by
  unfold afterTake
  cases following current with
  | none => exact id
  | some next => exact id

theorem kernelsDone_afterGive {s : State workers} {worker other : Worker workers} (turn : s.pc = .give worker)
    (different : other ≠ worker) : KernelsDone (s.afterGive worker).pc other ↔ KernelsDone s.pc other := by
  have apart : other.val ≠ worker.val := fun same => different (Fin.ext same)
  rw [turn]
  unfold State.afterGive
  cases more : following worker with
  | some next =>
    have position := following_some more
    have order : other < next ↔ other < worker := by
      simp only [Fin.lt_def]
      omega
    simp only [KernelsDone, order]
  | none =>
    have position := following_none more
    have order : other < worker := by
      have bound := other.isLt
      simp only [Fin.lt_def]
      omega
    simp only [KernelsDone, order, not_true_eq_false]

theorem kernelsDone_afterGive_self (s : State workers) (worker : Worker workers) :
    ¬ KernelsDone (s.afterGive worker).pc worker := by
  unfold State.afterGive
  cases more : following worker with
  | some next =>
    have position := following_some more
    have order : worker < next := by
      simp only [Fin.lt_def]
      omega
    simp only [KernelsDone, order, not_true_eq_false, not_false_eq_true]
  | none => exact id

theorem phase_of_kernelsDone {pc : SchedulerPc workers} {worker : Worker workers} (done : KernelsDone pc worker) :
    phase pc worker = .taken := by
  cases pc with
  | pop current => cases done
  | take current availableBufId => cases done
  | kernels gpuBufId => cases done
  | give current => exact if_neg done

theorem Lockstep.gpu_of_kernelsDone {s : State workers} (lock : Lockstep s) {worker : Worker workers}
    (done : KernelsDone s.pc worker) :
    (s.batchSet worker).gpuBufId = slot (localRound s.pc s.round worker) := by
  have fits := lock.worker worker
  rw [phase_of_kernelsDone done] at fits
  exact fits.taken_gpu

theorem Fits.free_waiting {r : Nat} {batch : Batch} {pc : SenderPc} (fits : Fits r .taken batch pc)
    (free : batch.senderBufId = -1) : pc = .waiting := by
  cases fits with
  | taken available sender delay _ trailing => exact (trailing.of_free free).2

theorem sees_hand {s : JobState workers} {t : State workers} (lock : Lockstep s.hand)
    (clean : ∀ worker, s.refreshed worker = true → s.hand.senders worker = .holding)
    (step : Step numSchedInsDel s.hand t)
    (noKernels : ∀ gpuBufId, s.hand.pc = .kernels gpuBufId → t.pc = .kernels gpuBufId)
    (noPush : ∀ worker, s.hand.senders worker = .holding → t.senders worker = .holding) (worker : Worker workers) :
    Sees s { s with hand := t } worker := by
  cases step with
  | pop current turn _ =>
    apply Sees.same
    · simp [roundOf, turn, localRound, State.setBatch]
    · simp [turn, KernelsDone]
    · by_cases same : worker = current
      · subst same
        simp [Unrefreshed, State.setBatch, megaGpuGetAvailableBufId]
      · simp [Unrefreshed, State.setBatch, Function.update_of_ne same]
  | take current availableBufId turn =>
    apply Sees.same
    · rw [roundOf, roundOf, localRound_take, turn]
      rfl
    · exact iff_of_false (kernelsDone_afterTake _ _ _) (by simp [turn, KernelsDone])
    · by_cases same : worker = current
      · subst same
        simp [Unrefreshed, State.setBatch, megaGpuTakeBatch]
      · simp [Unrefreshed, State.setBatch, Function.update_of_ne same]
  | kernels gpuBufId turn => cases noKernels gpuBufId turn
  | give current turn free =>
    by_cases same : worker = current
    · subst same
      have done : KernelsDone s.hand.pc worker := by simp [turn, KernelsDone]
      have buffer := lock.gpu_of_kernelsDone done
      have waiting := (phase_of_kernelsDone done ▸ lock.worker worker).free_waiting free
      have valid := slot_ne_neg_one (localRound s.hand.pc s.hand.round worker)
      have fresh : s.refreshed worker = false := by
        rw [Bool.eq_false_iff]
        intro refreshed
        exact absurd ((clean worker refreshed).symm.trans waiting) (by decide)
      apply Sees.given
      · rw [roundOf, localRound_afterGive_self, roundOf, turn, localRound_give _ (lt_irrefl worker)]
        rfl
      · exact done
      · exact kernelsDone_afterGive_self _ _
      · exact fun unrefreshed => unrefreshed.1 free
      · simp [Unrefreshed, afterGive_batchSet, afterGive_senders, State.setBatch, megaGpuGiveToSender, buffer, valid,
          waiting, fresh]
    · apply Sees.same
      · exact localRound_afterGive (s := s.hand.setBatch current _) turn same
      · exact kernelsDone_afterGive (s := s.hand.setBatch current _) turn same
      · simp [Unrefreshed, afterGive_batchSet, afterGive_senders, State.setBatch, Function.update_of_ne same]
  | get current turn given =>
    apply Sees.same
    · rfl
    · exact Iff.rfl
    · by_cases same : worker = current
      · subst same
        simp [Unrefreshed, State.setSender, turn]
      · simp [Unrefreshed, State.setSender, Function.update_of_ne same]
  | push current batch turn _ => 
    have stays := noPush current turn
    simp [State.setSender] at stays
  | clear current turn =>
    apply Sees.same
    · rfl
    · exact Iff.rfl
    · by_cases same : worker = current
      · subst same
        simp [Unrefreshed, State.setBatch, State.setSender, turn, megaSenderClear]
      · simp [Unrefreshed, State.setBatch, State.setSender, Function.update_of_ne same]

theorem Sees.executed_iff {s t : JobState workers} {worker : Worker workers} (sees : Sees s t worker) (id : Int) :
    Executed numSchedInsDel t worker id ↔ Executed numSchedInsDel s worker id := by
  cases sees with
  | same round kernels unrefreshed => rw [Executed, Executed, round, kernels, unrefreshed]
  | given round before after free unrefreshed =>
    rw [Executed, Executed, round, Nat.add_sub_cancel, slot_add_three]
    simp only [before, after, free, unrefreshed, false_and, and_false, true_and, or_false, false_or]

theorem interval_taken {s : State workers} {worker : Worker workers} (taken : phase s.pc worker = .taken) :
    interval s worker = localRound s.pc s.round worker + 1 := by
  unfold interval
  unfold phase at taken
  unfold localRound
  cases pc : s.pc with
  | pop current =>
    simp only [pc] at taken ⊢
    split at taken
    · rename_i before
      rw [if_pos before]
    · cases taken
  | take current availableBufId =>
    simp only [pc] at taken ⊢
    split at taken
    · rename_i before
      rw [if_pos before]
    · split at taken <;> cases taken
  | kernels gpuBufId => rfl
  | give current =>
    simp only [pc] at taken ⊢
    split at taken
    · cases taken
    · rename_i later
      rw [if_neg later]

theorem interval_ready {s : State workers} {worker : Worker workers} (ready : phase s.pc worker ≠ .taken) :
    interval s worker = localRound s.pc s.round worker := by
  unfold interval
  unfold phase at ready
  unfold localRound
  cases pc : s.pc with
  | pop current =>
    simp only [pc] at ready ⊢
    split at ready
    · exact absurd rfl ready
    · rename_i later
      rw [if_neg later]
  | take current availableBufId =>
    simp only [pc] at ready ⊢
    split at ready
    · exact absurd rfl ready
    · rename_i later
      rw [if_neg later]
  | kernels gpuBufId =>
    simp only [pc] at ready
    exact absurd rfl ready
  | give current =>
    simp only [pc] at ready ⊢
    split at ready
    · rename_i before
      rw [if_pos before]
    · exact absurd rfl ready

theorem Lockstep.receiver_slot {s : State workers} (lock : Lockstep s) (worker : Worker workers) :
    (s.batchSet worker).receiverBufId = slot (interval s worker) := by
  have fits := lock.worker worker
  cases view : phase s.pc worker with
  | idle =>
    rw [interval_ready (by rw [view]; intro other; cases other)]
    rw [view] at fits
    generalize s.batchSet worker = batch at fits ⊢
    cases fits with
    | idle => rfl
  | popped =>
    rw [interval_ready (by rw [view]; intro other; cases other)]
    rw [view] at fits
    generalize s.batchSet worker = batch at fits ⊢
    cases fits with
    | popped => rfl
  | taken =>
    rw [interval_taken view]
    rw [view] at fits
    generalize s.batchSet worker = batch at fits ⊢
    cases fits with
    | taken => rfl

theorem own_not_executed (numSchedInsDel : Nat) {s : JobState workers} (lock : Lockstep s.hand)
    (worker : Worker workers) : ¬ Executed numSchedInsDel s worker (s.hand.batchSet worker).receiverBufId := by
  obtain ⟨first, second, third⟩ := slot_distinct (roundOf s worker)
  rw [lock.receiver_slot]
  intro executed
  rcases executed with ⟨same, done, _⟩ | ⟨same, _, _⟩
  · rw [interval_taken (phase_of_kernelsDone done)] at same
    exact first same.symm
  · by_cases view : phase s.hand.pc worker = .taken
    · rw [interval_taken view] at same
      exact second same
    · rw [interval_ready view] at same
      exact third same

theorem slot_mem (r : Nat) : slot r ∈ bufIds := by
  unfold slot bufIds
  have bound := Nat.mod_lt r (show 0 < 3 by decide)
  interval_cases r % 3 <;> simp

theorem bufIds_nodup : bufIds.Nodup := by decide

theorem pending_executed {s : JobState workers} {worker : Worker workers} {id : Int}
    (executed : Executed numSchedInsDel s worker id) : pending numSchedInsDel s worker id = [] :=
  if_pos executed

theorem pending_waiting {s : JobState workers} {worker : Worker workers} {id : Int}
    (waiting : ¬ Executed numSchedInsDel s worker id) :
    pending numSchedInsDel s worker id = (s.buf worker id).content :=
  if_neg waiting

theorem pending_congr {s t : JobState workers} {worker : Worker workers} {id : Int}
    (same : Executed numSchedInsDel t worker id ↔ Executed numSchedInsDel s worker id)
    (content : (t.buf worker id).content = (s.buf worker id).content) :
    pending numSchedInsDel t worker id = pending numSchedInsDel s worker id := by
  simp only [pending, same, content]

section Queue

variable {s : JobState workers} {worker : Worker workers} {id : Int} {buf : JobBuf} {job : Job}

theorem setBuf_self : (s.setBuf worker id buf).buf worker id = buf := by
  simp only [JobState.setBuf, Function.update_self]

theorem setBuf_other {current : Worker workers} {other : Int} (different : current ≠ worker ∨ other ≠ id) :
    (s.setBuf worker id buf).buf current other = s.buf current other := by
  unfold JobState.setBuf
  by_cases same : current = worker
  · subst same
    have apart : other ≠ id := different.resolve_left (fun differs => differs rfl)
    simp only [Function.update_self, Function.update_of_ne apart]
  · simp only [Function.update_of_ne same]

theorem log_self : ((s.setBuf worker id buf).log worker job).queued worker = s.queued worker ++ [job] := by
  simp only [JobState.log, JobState.setBuf, Function.update_self]

theorem log_other {current : Worker workers} (different : current ≠ worker) :
    ((s.setBuf worker id buf).log worker job).queued current = s.queued current := by
  simp only [JobState.log, JobState.setBuf, Function.update_of_ne different]

theorem setBuf_counted (counted : ∀ worker id, (s.buf worker id).Counted) (fresh : buf.Counted)
    (current : Worker workers) (other : Int) : ((s.setBuf worker id buf).buf current other).Counted := by
  by_cases here : current = worker ∧ other = id
  · rw [here.1, here.2, setBuf_self]
    exact fresh
  · rw [setBuf_other (not_and_or.mp here)]
    exact counted current other

theorem Accounted.queue (accounted : Accounted numSchedInsDel s) (lock : Lockstep s.hand)
    (place : id = (s.hand.batchSet worker).receiverBufId) (counted : buf.Counted)
    (grown : buf.content.Perm ((s.buf worker id).content ++ [job])) (serial : job.serial = (s.queued worker).length) :
    Accounted numSchedInsDel ((s.setBuf worker id buf).log worker job) := by
  have waiting := own_not_executed numSchedInsDel lock worker
  rw [← place] at waiting
  have member : id ∈ bufIds := by
    rw [place, lock.receiver_slot]
    exact slot_mem _
  have frame : ∀ current other, current ≠ worker ∨ other ≠ id →
      (((s.setBuf worker id buf).log worker job).buf current other).content = (s.buf current other).content := by
    intro current other different
    exact congrArg JobBuf.content (setBuf_other different)
  refine ⟨accounted.clean, setBuf_counted accounted.counted counted, ?_, ?_, accounted.rounds, ?_, ?_⟩
  · intro current
    by_cases same : current = worker
    · subst same
      rw [log_self]
      apply (accounted.ledger current).enter bufIds_nodup member job
      · have waitsAfter : ¬ Executed numSchedInsDel ((s.setBuf current id buf).log current job) current id := waiting
        have held : ((s.setBuf current id buf).log current job).buf current id = buf := setBuf_self
        rw [pending_waiting waiting, pending_waiting waitsAfter, held]
        exact grown
      · intro other _ different
        exact pending_congr Iff.rfl (frame current other (.inr different))
    · rw [log_other same]
      apply (accounted.ledger current).congr
      intro other _
      exact pending_congr Iff.rfl (frame current other (.inl same))
  · intro current
    by_cases same : current = worker
    · subst same
      rw [log_self, List.map_append, accounted.serials current, List.map_singleton, serial, List.length_append,
        List.length_singleton, List.range_succ]
    · rw [log_other same]
      exact accounted.serials current
  · intro current done runs
    have apart : current ≠ worker ∨ slot (roundOf s current) ≠ id := by
      by_contra both
      rw [not_or, not_not, not_not] at both
      obtain ⟨rfl, same⟩ := both
      exact waiting (.inl ⟨same.symm, done, runs⟩)
    have held := accounted.taken current done runs
    rw [← frame current _ apart] at held
    exact held
  · intro current unrefreshed runs
    have apart : current ≠ worker ∨ slot (roundOf s current + 2) ≠ id := by
      by_contra both
      rw [not_or, not_not, not_not] at both
      obtain ⟨rfl, same⟩ := both
      exact waiting (.inr ⟨same.symm, unrefreshed, runs⟩)
    have held := accounted.given current unrefreshed runs
    rw [← frame current _ apart] at held
    exact held

theorem log_mem {current : Worker workers} {other : Job} (queued : other ∈ s.queued current) :
    other ∈ ((s.setBuf worker id buf).log worker job).queued current := by
  by_cases here : current = worker
  · subst here
    rw [log_self]
    exact List.mem_append_left [job] queued
  · rw [log_other here]
    exact queued

end Queue

theorem JobStep.queued_mem {s t : JobState workers} (step : JobStep numSchedInsDel s t) {worker : Worker workers}
    {job : Job} (queued : job ∈ s.queued worker) : job ∈ t.queued worker := by
  cases step with
  | queueDelete current elem _ => exact log_mem queued
  | queueInsert current elem _ => exact log_mem queued
  | hand t step _ _ => exact queued
  | kernels gpuBufId turn => exact queued
  | refresh current _ _ => exact queued
  | push current batch turn _ pushed => exact queued

theorem countedRound_hand {s t : State workers} (step : Step numSchedInsDel s t)
    (noKernels : ∀ gpuBufId, s.pc = .kernels gpuBufId → t.pc = .kernels gpuBufId) :
    countedRound t = countedRound s := by
  unfold countedRound
  cases step with
  | pop worker turn _ => rw [turn]; rfl
  | take worker availableBufId turn =>
    rw [turn]
    unfold afterTake
    cases following worker with
    | none => rfl
    | some next => rfl
  | kernels gpuBufId turn => cases noKernels gpuBufId turn
  | give worker turn _ =>
    rw [turn]
    unfold State.afterGive
    cases following worker with
    | none => rfl
    | some next => rfl
  | get worker turn _ => rfl
  | push worker batch turn _ => rfl
  | clear worker turn => rfl

theorem Accounted.hand {s : JobState workers} {t : State workers} (accounted : Accounted numSchedInsDel s)
    (lock : Lockstep s.hand) (step : Step numSchedInsDel s.hand t)
    (noKernels : ∀ gpuBufId, s.hand.pc = .kernels gpuBufId → t.pc = .kernels gpuBufId)
    (noPush : ∀ worker, s.hand.senders worker = .holding → t.senders worker = .holding) :
    Accounted numSchedInsDel { s with hand := t } := by
  have sees := sees_hand lock accounted.clean step noKernels noPush
  refine ⟨?_, accounted.counted, ?_, accounted.serials, ?_, ?_, ?_⟩
  · intro worker refreshed
    exact noPush worker (accounted.clean worker refreshed)
  · intro worker
    apply (accounted.ledger worker).congr
    intro id _
    exact pending_congr ((sees worker).executed_iff id) rfl
  · intro worker pass member
    rw [countedRound_hand step noKernels]
    exact accounted.rounds worker pass member
  · intro worker done runs
    cases sees worker with
    | same round kernels _ =>
      rw [round] at runs ⊢
      exact accounted.taken worker (kernels.mp done) runs
    | given _ _ after _ _ => exact absurd done after
  · intro worker unrefreshed runs
    cases sees worker with
    | same round _ same =>
      rw [round] at runs ⊢
      exact accounted.given worker (same.mp unrefreshed) runs
    | given round before _ _ _ =>
      rw [round, Nat.add_sub_cancel] at runs ⊢
      rw [slot_add_three]
      exact accounted.taken worker before runs

section Kernels

variable {s : JobState workers} {gpuBufId : Int}

theorem kernels_round (numSchedInsDel : Nat) (turn : s.hand.pc = .kernels gpuBufId) (worker : Worker workers) :
    roundOf (s.kernels numSchedInsDel gpuBufId) worker = s.hand.round ∧ roundOf s worker = s.hand.round := by
  constructor
  · exact localRound_give s.hand.round (Fin.not_lt_zero worker)
  · rw [roundOf, turn]
    rfl

theorem kernels_executed_iff (numSchedInsDel : Nat) (turn : s.hand.pc = .kernels gpuBufId) (worker : Worker workers) (id : Int) :
    Executed numSchedInsDel (s.kernels numSchedInsDel gpuBufId) worker id ↔
      id = slot s.hand.round ∧ RunsInsDel numSchedInsDel s.hand.round ∨ Executed numSchedInsDel s worker id := by
  obtain ⟨after, before⟩ := kernels_round numSchedInsDel turn worker
  have done : KernelsDone (s.kernels numSchedInsDel gpuBufId).hand.pc worker := Fin.not_lt_zero worker
  have notDone : ¬ KernelsDone s.hand.pc worker := by
    rw [turn]
    exact fun never => never
  have same : Unrefreshed (s.kernels numSchedInsDel gpuBufId) worker ↔ Unrefreshed s worker := Iff.rfl
  rw [Executed, Executed, after, before, same]
  simp only [done, notDone, true_and, false_and, and_false, false_or]

theorem kernels_passes_run (counted : s.hand.schedInsDel = schedInsDelAt numSchedInsDel s.hand.round)
    (runs : RunsInsDel numSchedInsDel s.hand.round) (worker : Worker workers) :
    (s.kernels numSchedInsDel gpuBufId).passes worker =
      s.passes worker ++ [⟨s.hand.round, gpuBufId, (s.buf worker gpuBufId).launched⟩] := by
  rw [RunsInsDel, ← counted] at runs
  exact if_pos runs

theorem kernels_passes_skip (counted : s.hand.schedInsDel = schedInsDelAt numSchedInsDel s.hand.round)
    (skips : ¬ RunsInsDel numSchedInsDel s.hand.round) (worker : Worker workers) :
    (s.kernels numSchedInsDel gpuBufId).passes worker = s.passes worker := by
  rw [RunsInsDel, ← counted] at skips
  exact if_neg skips

theorem kernels_passes_mono {pass : Pass} {worker : Worker workers} (member : pass ∈ s.passes worker) :
    pass ∈ (s.kernels numSchedInsDel gpuBufId).passes worker := by
  simp only [JobState.kernels]
  split
  · exact List.mem_append_left _ member
  · exact member

theorem executed_append (worker : Worker workers) (pass : Pass) {t : JobState workers}
    (passes : t.passes worker = s.passes worker ++ [pass]) : executed t worker = executed s worker ++ pass.jobs := by
  rw [executed, passes, List.flatMap_append, List.flatMap_singleton, executed]

/-- The buffer of the round has not been executed when its kernels begin. -/
theorem kernels_waiting (numSchedInsDel : Nat) (turn : s.hand.pc = .kernels (slot s.hand.round))
    (worker : Worker workers) : ¬ Executed numSchedInsDel s worker (slot s.hand.round) := by
  intro already
  have here := (kernels_round numSchedInsDel turn worker).2
  rw [Executed, here, turn] at already
  rcases already with ⟨_, done, _⟩ | ⟨same, _, _⟩
  · exact done
  · exact (slot_distinct s.hand.round).2.2 same

theorem kernels_ledger (accounted : Accounted numSchedInsDel s) (turn : s.hand.pc = .kernels (slot s.hand.round))
    (counted : s.hand.schedInsDel = schedInsDelAt numSchedInsDel s.hand.round) (worker : Worker workers) :
    Balanced bufIds (s.queued worker) (executed (s.kernels numSchedInsDel (slot s.hand.round)) worker)
      (pending numSchedInsDel (s.kernels numSchedInsDel (slot s.hand.round)) worker) := by
  have executed_iff := kernels_executed_iff numSchedInsDel turn worker
  by_cases runs : RunsInsDel numSchedInsDel s.hand.round
  · have waiting := kernels_waiting numSchedInsDel turn worker
    rw [executed_append worker _ (kernels_passes_run counted runs worker), (accounted.counted worker _).launched,
      ← pending_waiting waiting]
    apply (accounted.ledger worker).leave bufIds_nodup (slot_mem _)
    · exact pending_executed ((executed_iff _).mpr (.inl ⟨rfl, runs⟩))
    · intro other _ different
      refine pending_congr ((executed_iff other).trans ?_) rfl
      exact or_iff_right fun here => different here.1
  · rw [executed, kernels_passes_skip counted runs]
    apply (accounted.ledger worker).congr
    intro id _
    refine pending_congr ((executed_iff id).trans ?_) rfl
    exact or_iff_right fun here => runs here.2

theorem Accounted.kernels (accounted : Accounted numSchedInsDel s) (lock : Lockstep s.hand)
    (counted : CountedDown numSchedInsDel s.hand) (turn : s.hand.pc = .kernels gpuBufId) :
    Accounted numSchedInsDel (s.kernels numSchedInsDel gpuBufId) := by
  have place := lock.scheduler
  simp only [turn, PcFits] at place
  subst place
  simp only [CountedDown, countedRound, turn] at counted
  refine ⟨accounted.clean, accounted.counted, kernels_ledger accounted turn counted, accounted.serials, ?_, ?_, ?_⟩
  · intro worker pass member
    have next : countedRound (s.kernels numSchedInsDel (slot s.hand.round)).hand = s.hand.round + 1 := rfl
    have now : countedRound s.hand = s.hand.round := by
      rw [countedRound, turn]
    have earlier : ∀ pass ∈ s.passes worker, RunsInsDel numSchedInsDel pass.round ∧ pass.round < s.hand.round + 1 := by
      intro pass member
      obtain ⟨runs, bound⟩ := accounted.rounds worker pass member
      rw [now] at bound
      exact ⟨runs, Nat.lt_succ_of_lt bound⟩
    rw [next]
    by_cases runs : RunsInsDel numSchedInsDel s.hand.round
    · rw [kernels_passes_run counted runs] at member
      rcases List.mem_append.mp member with old | new
      · exact earlier pass old
      · rw [List.mem_singleton.mp new]
        exact ⟨runs, Nat.lt_succ_self _⟩
    · rw [kernels_passes_skip counted runs] at member
      exact earlier pass member
  · intro worker _ runs
    rw [(kernels_round numSchedInsDel turn worker).1] at runs ⊢
    rw [kernels_passes_run counted runs, (accounted.counted worker _).launched]
    exact List.mem_append_right _ (List.mem_singleton.mpr rfl)
  · intro worker unrefreshed runs
    have same : roundOf (s.kernels numSchedInsDel (slot s.hand.round)) worker = roundOf s worker := by
      obtain ⟨after, before⟩ := kernels_round numSchedInsDel turn worker
      rw [after, before]
    rw [same] at runs ⊢
    exact kernels_passes_mono (accounted.given worker unrefreshed runs)

end Kernels

section Sender

variable {s : JobState workers} {worker : Worker workers}

theorem Lockstep.sender_slot {s : State workers} (lock : Lockstep s) {worker : Worker workers}
    (holding : s.senders worker = .holding) :
    (s.batchSet worker).senderBufId = slot (localRound s.pc s.round worker + 2) := by
  have fits := lock.worker worker
  rw [holding] at fits
  generalize s.batchSet worker = batch at fits ⊢
  generalize phase s.pc worker = current at fits
  cases fits with
  | idle available sender delay _ trailing => cases trailing; rfl
  | popped available sender delay _ trailing => cases trailing; rfl
  | taken available sender delay _ trailing => cases trailing; rfl

theorem unrefreshed_holding (lock : Lockstep s.hand) (holding : s.hand.senders worker = .holding)
    (before : s.refreshed worker = false) : Unrefreshed s worker := by
  refine ⟨?_, ?_, before⟩
  · rw [lock.sender_slot holding]
    exact slot_ne_neg_one _
  · rw [holding]
    decide

theorem refresh_other {current : Worker workers} {id : Int}
    (different : current ≠ worker ∨ id ≠ (s.hand.batchSet worker).senderBufId) :
    (s.refresh worker).buf current id = s.buf current id :=
  setBuf_other different

theorem refresh_unrefreshed_self : ¬ Unrefreshed (s.refresh worker) worker := by
  intro unrefreshed
  exact absurd ((refresh_refreshed s worker).symm.trans unrefreshed.2.2) (by decide)

theorem refresh_unrefreshed_other {current : Worker workers} (different : current ≠ worker) :
    Unrefreshed (s.refresh worker) current ↔ Unrefreshed s current := by
  have same : (s.refresh worker).refreshed current = s.refreshed current := Function.update_of_ne different _ _
  rw [Unrefreshed, Unrefreshed, same]
  rfl

theorem refresh_pending (lock : Lockstep s.hand) (delays : DelayFits numSchedInsDel s.hand)
    (holding : s.hand.senders worker = .holding) (before : s.refreshed worker = false) (current : Worker workers)
    (id : Int) : pending numSchedInsDel (s.refresh worker) current id = pending numSchedInsDel s current id := by
  by_cases same : current = worker
  · subst same
    have place := lock.sender_slot holding
    have unrefreshed := unrefreshed_holding lock holding before
    have reset := delays current unrefreshed.1
    by_cases here : id = (s.hand.batchSet current).senderBufId
    · subst here
      have held : (s.refresh current).buf current (s.hand.batchSet current).senderBufId =
          megaSenderRefreshBuffer (s.hand.batchSet current)
            (s.buf current (s.hand.batchSet current).senderBufId) := setBuf_self
      by_cases done : (s.hand.batchSet current).delay = 0
      · have emptied : pending numSchedInsDel (s.refresh current) current (s.hand.batchSet current).senderBufId = [] := by
          rw [pending, held, (refresh_empty done).content, ite_self]
        rw [emptied, pending_executed (.inr ⟨place, unrefreshed, reset.mp done⟩)]
      · apply pending_congr
        · have apart := (slot_distinct (roundOf s current)).2.2
          constructor
          · intro executed
            rcases executed with ⟨there, _, _⟩ | ⟨_, again, _⟩
            · exact absurd (there.symm.trans place) apart
            · exact absurd again refresh_unrefreshed_self
          · intro executed
            rcases executed with ⟨there, _, _⟩ | ⟨_, _, runs⟩
            · exact absurd (there.symm.trans place) apart
            · exact absurd (reset.mpr runs) done
        · rw [held, refresh_delayed done]
    · apply pending_congr
      · apply or_congr
        · exact Iff.rfl
        · have apart : id ≠ slot (roundOf s current + 2) := fun there => here (there.trans place.symm)
          constructor
          · intro executed
            exact absurd executed.1 apart
          · intro executed
            exact absurd executed.1 apart
      · rw [refresh_other (.inr here)]
  · apply pending_congr
    · rw [Executed, Executed, refresh_unrefreshed_other same]
      exact Iff.rfl
    · rw [refresh_other (.inl same)]

theorem Accounted.refresh (accounted : Accounted numSchedInsDel s) (lock : Lockstep s.hand)
    (delays : DelayFits numSchedInsDel s.hand) (holding : s.hand.senders worker = .holding)
    (before : s.refreshed worker = false) : Accounted numSchedInsDel (s.refresh worker) := by
  have place := lock.sender_slot holding
  refine ⟨?_, ?_, ?_, accounted.serials, accounted.rounds, ?_, ?_⟩
  · intro current refreshed
    by_cases same : current = worker
    · rw [same]
      exact holding
    · have kept : (s.refresh worker).refreshed current = s.refreshed current := Function.update_of_ne same _ _
      exact accounted.clean current (kept ▸ refreshed)
  · apply setBuf_counted accounted.counted
    by_cases done : (s.hand.batchSet worker).delay = 0
    · exact (refresh_empty done).counted
    · rw [refresh_delayed done]
      exact accounted.counted worker _
  · intro current
    apply (accounted.ledger current).congr
    intro id _
    exact refresh_pending lock delays holding before current id
  · intro current done runs
    have apart : current ≠ worker ∨ slot (roundOf s current) ≠ (s.hand.batchSet worker).senderBufId := by
      by_cases same : current = worker
      · subst same
        rw [place]
        exact .inr (slot_distinct _).2.2
      · exact .inl same
    have held := accounted.taken current done runs
    rw [← refresh_other apart] at held
    exact held
  · intro current unrefreshed runs
    have different : current ≠ worker := by
      intro same
      subst same
      exact refresh_unrefreshed_self unrefreshed
    have held := accounted.given current ((refresh_unrefreshed_other different).mp unrefreshed) runs
    rw [← refresh_other (.inl different)] at held
    exact held

theorem sees_push (batch : Batch) (refreshed : s.refreshed worker = true) (current : Worker workers) :
    Sees s (s.push worker batch) current := by
  apply Sees.same
  · rfl
  · exact Iff.rfl
  · by_cases same : current = worker
    · subst same
      simp [Unrefreshed, JobState.push, State.setSender, refreshed]
    · simp [Unrefreshed, JobState.push, State.setBatch, State.setSender, Function.update_of_ne same]

theorem Accounted.push (accounted : Accounted numSchedInsDel s) (batch : Batch) (before : s.refreshed worker = true) :
    Accounted numSchedInsDel (s.push worker batch) := by
  have sees := sees_push batch before
  refine ⟨?_, accounted.counted, ?_, accounted.serials, accounted.rounds, ?_, ?_⟩
  · intro current refreshed
    by_cases same : current = worker
    · subst same
      simp only [JobState.push, Function.update_self, Bool.false_eq_true] at refreshed
    · simp only [JobState.push, Function.update_of_ne same] at refreshed
      simpa only [JobState.push, State.setSender, State.setBatch, Function.update_of_ne same] using
        accounted.clean current refreshed
  · intro current
    apply (accounted.ledger current).congr
    intro id _
    exact pending_congr ((sees current).executed_iff id) rfl
  · exact accounted.taken
  · intro current unrefreshed runs
    cases sees current with
    | same _ _ same => exact accounted.given current (same.mp unrefreshed) runs
    | given round _ _ _ _ => exact absurd round (Nat.succ_ne_self _).symm

end Sender

theorem accounted_initial {s : JobState workers} (start : (jobs workers numSchedInsDel).initial s) :
    Accounted numSchedInsDel s := by
  obtain ⟨hand, empty, fresh⟩ := start
  have noKernels : ∀ worker : Worker workers, ¬ KernelsDone s.hand.pc worker := by
    intro worker
    rw [hand]
    exact fun never => never
  have free : ∀ worker : Worker workers, ¬ Unrefreshed s worker := by
    intro worker unrefreshed
    rw [Unrefreshed, hand] at unrefreshed
    exact unrefreshed.1 rfl
  refine ⟨?_, fun worker id => (empty worker id).counted, ?_, ?_, ?_, ?_, ?_⟩
  · intro worker refreshed
    exact absurd ((fresh worker).1.symm.trans refreshed) (by decide)
  · intro worker
    rw [(fresh worker).2.1, executed, (fresh worker).2.2]
    apply balanced_vacant
    intro id
    rw [pending, (empty worker id).content, ite_self]
  · intro worker
    rw [(fresh worker).2.1]
    rfl
  · intro worker pass member
    rw [(fresh worker).2.2] at member
    cases member
  · intro worker done
    exact absurd done (noKernels worker)
  · intro worker unrefreshed
    exact absurd unrefreshed (free worker)

theorem accounted_reachable {s : JobState workers} (reached : (jobs workers numSchedInsDel).Reachable s) :
    Accounted numSchedInsDel s := by
  induction reached with
  | initial start => exact accounted_initial start
  | step before next accounted =>
    have lock := lockstep_reachable (jobs_hand before)
    cases next with
    | queueDelete worker elem fits =>
      exact accounted.queue lock rfl ((accounted.counted worker _).addDelete _ fits)
        (JobBuf.addDelete_content _) rfl
    | queueInsert worker elem fits =>
      exact accounted.queue lock rfl ((accounted.counted worker _).addInsert _ fits)
        (JobBuf.addInsert_content _) rfl
    | hand t step noKernels noPush => exact accounted.hand lock step noKernels noPush
    | kernels gpuBufId turn => exact accounted.kernels lock (countedDown_reachable (jobs_hand before)) turn
    | refresh worker turn unrefreshed =>
      exact accounted.refresh lock (delayFits_reachable (jobs_hand before)) turn unrefreshed
    | push worker batch turn refreshed pushed => exact accounted.push batch refreshed

def givenRound (s : JobState workers) (worker : Worker workers) : Nat := roundOf s worker - 1

theorem refresh_decides {s : JobState workers} (reached : (jobs workers numSchedInsDel).Reachable s)
    {worker : Worker workers} (holding : s.hand.senders worker = .holding) (before : s.refreshed worker = false) :
    (s.hand.batchSet worker).delay = 0 ↔
      ⟨givenRound s worker, (s.hand.batchSet worker).senderBufId,
        (s.buf worker (s.hand.batchSet worker).senderBufId).content⟩ ∈ s.passes worker := by
  have lock := lockstep_reachable (jobs_hand reached)
  have accounted := accounted_reachable reached
  have unrefreshed := unrefreshed_holding lock holding before
  rw [delayFits_reachable (jobs_hand reached) worker unrefreshed.1, lock.sender_slot holding]
  constructor
  · exact accounted.given worker unrefreshed
  · intro member
    exact (accounted.rounds worker _ member).1

theorem executed_once {s : JobState workers} (reached : (jobs workers numSchedInsDel).Reachable s)
    (worker : Worker workers) : ((executed s worker).map Job.serial).Nodup := by
  have accounted := accounted_reachable reached
  have serials : (((executed s worker) ++ bufIds.flatMap (pending numSchedInsDel s worker)).map Job.serial).Nodup := by
    rw [← ((accounted.ledger worker).map Job.serial).nodup_iff, accounted.serials worker]
    exact List.nodup_range
  rw [List.map_append] at serials
  exact (List.nodup_append.mp serials).1

theorem queued_kept {s : JobState workers} (reached : (jobs workers numSchedInsDel).Reachable s)
    {worker : Worker workers} {job : Job} (queued : job ∈ s.queued worker) :
    job ∈ executed s worker ∨ ∃ id ∈ bufIds, job ∈ (s.buf worker id).content := by
  rcases ((accounted_reachable reached).ledger worker).left_or_held queued with gone | ⟨id, member, held⟩
  · exact .inl gone
  · unfold pending at held
    split at held
    · cases held
    · exact .inr ⟨id, member, held⟩

/-- The sender's reset and the scheduler's kernels agree in every round, for every period of the
    countdown: a buffer is emptied exactly when all of it has just been executed, so each queued job
    is executed once or still in its buffer. -/
theorem jobs_applied_once {s : JobState workers} (reached : (jobs workers numSchedInsDel).Reachable s) :
    (∀ worker, s.hand.senders worker = .holding → s.refreshed worker = false →
      ((s.hand.batchSet worker).delay = 0 ↔
        ⟨givenRound s worker, (s.hand.batchSet worker).senderBufId,
          (s.buf worker (s.hand.batchSet worker).senderBufId).content⟩ ∈ s.passes worker) ∧
      (if (s.hand.batchSet worker).delay = 0 then
        ((s.refresh worker).buf worker (s.hand.batchSet worker).senderBufId).Empty
      else (s.refresh worker).buf = s.buf)) ∧
    (∀ worker, ∀ job ∈ s.queued worker, job ∈ executed s worker ∨ ∃ id ∈ bufIds, job ∈ (s.buf worker id).content) ∧
    (∀ worker, ∀ job ∈ executed s worker, job ∈ s.queued worker) ∧
    (∀ worker, ((s.queued worker).map Job.serial).Nodup ∧ ((executed s worker).map Job.serial).Nodup) := by
  have accounted := accounted_reachable reached
  refine ⟨?_, fun worker job queued => queued_kept reached queued, ?_, ?_⟩
  · intro worker holding before
    refine ⟨refresh_decides reached holding before, ?_⟩
    have held : (s.refresh worker).buf = (s.setBuf worker (s.hand.batchSet worker).senderBufId
        (megaSenderRefreshBuffer (s.hand.batchSet worker)
          (s.buf worker (s.hand.batchSet worker).senderBufId))).buf := rfl
    split
    · rename_i done
      rw [held, setBuf_self]
      exact refresh_empty done
    · rename_i delayed
      rw [held, refresh_delayed delayed]
      simp only [JobState.setBuf, Function.update_eq_self]
  · intro worker job gone
    exact (accounted.ledger worker).entered_of_left gone
  · intro worker
    rw [accounted.serials worker]
    exact ⟨List.nodup_range, executed_once reached worker⟩

theorem jobs_applied_once_lone : ∃ s : JobState 0, (jobs 0 0).Reachable s ∧ s.queued 0 ≠ [] ∧
    ((s.hand.batchSet 0).delay = 0 ↔
      ⟨givenRound s 0, (s.hand.batchSet 0).senderBufId,
        (s.buf 0 (s.hand.batchSet 0).senderBufId).content⟩ ∈ s.passes 0) := by
  have reached := loneJobs_held (loneJobs_insert ⟨0, 0, 0⟩ (vacantBuf_fits _) (@loneJobs_start 0))
  exact ⟨_, reached, List.cons_ne_nil _ _, ((jobs_applied_once reached).1 0 rfl rfl).1⟩

end MegaKV.Scheduler
