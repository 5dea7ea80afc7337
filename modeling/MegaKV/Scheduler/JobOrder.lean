import MegaKV.Scheduler.JobLedger

namespace MegaKV.Scheduler

open Library

variable {workers numSchedInsDel : Nat}

/-- Of two jobs of one worker, the one of an earlier interval is executed no later than the other. -/
def InOrder (s : JobState workers) : Prop :=
  ∀ worker, ∀ first ∈ s.queued worker, ∀ second ∈ s.queued worker, first.interval < second.interval →
    ∀ later ∈ s.passes worker, second ∈ later.jobs →
      ∃ earlier ∈ s.passes worker, first ∈ earlier.jobs ∧ earlier.round ≤ later.round

section Intervals

theorem countedRound_le_interval (s : State workers) (worker : Worker workers) :
    countedRound s ≤ interval s worker := by
  unfold countedRound interval
  cases s.pc with
  | pop current =>
    show s.round ≤ if worker < current then s.round + 1 else s.round
    split <;> omega
  | take current availableBufId =>
    show s.round ≤ if worker < current then s.round + 1 else s.round
    split <;> omega
  | kernels gpuBufId => exact Nat.le_succ _
  | give current => exact Nat.le_refl _

theorem interval_le_counted (s : State workers) (worker : Worker workers) :
    interval s worker ≤ countedRound s + 1 := by
  unfold countedRound interval
  cases s.pc with
  | pop current =>
    show (if worker < current then s.round + 1 else s.round) ≤ s.round + 1
    split <;> omega
  | take current availableBufId =>
    show (if worker < current then s.round + 1 else s.round) ≤ s.round + 1
    split <;> omega
  | kernels gpuBufId => exact Nat.le_refl _
  | give current => exact Nat.le_succ _

/-- Only a take begins a new interval, and no step goes back. -/
theorem interval_mono {s t : State workers} (step : Step numSchedInsDel s t) (worker : Worker workers) :
    interval s worker ≤ interval t worker := by
  cases step with
  | pop current turn _ =>
    apply le_of_eq
    simp only [interval, turn, State.setBatch]
  | take current availableBufId turn =>
    unfold interval afterTake
    rw [turn]
    cases more : following current with
    | none =>
      show (if worker < current then s.round + 1 else s.round) ≤ s.round + 1
      split <;> omega
    | some next =>
      have position := following_some more
      show (if worker < current then s.round + 1 else s.round) ≤ if worker < next then s.round + 1 else s.round
      by_cases before : worker < current
      · have still : worker < next := by
          simp only [Fin.lt_def] at before ⊢
          omega
        rw [if_pos before, if_pos still]
      · rw [if_neg before]
        split <;> omega
  | kernels gpuBufId turn =>
    apply le_of_eq
    simp only [interval, turn]
  | give current turn _ =>
    unfold interval State.afterGive
    rw [turn]
    cases following current with
    | none =>
      show s.round + 1 ≤ if worker < 0 then s.round + 1 + 1 else s.round + 1
      split <;> omega
    | some next => exact Nat.le_refl _
  | get current turn _ => exact Nat.le_refl _
  | push current batch turn _ => exact Nat.le_refl _
  | clear current turn => exact Nat.le_refl _

theorem JobStep.interval_le {s t : JobState workers} (step : JobStep numSchedInsDel s t) (worker : Worker workers) :
    interval s.hand worker ≤ interval t.hand worker := by
  cases step with
  | queueDelete current elem _ => exact Nat.le_refl _
  | queueInsert current elem _ => exact Nat.le_refl _
  | hand t step _ _ => exact interval_mono step worker
  | kernels gpuBufId turn => exact interval_mono (.kernels s.hand gpuBufId turn) worker
  | refresh current _ _ => exact Nat.le_refl _
  | push current batch turn _ pushed =>
    have moved : Step numSchedInsDel s.hand (s.push current batch).hand := .push s.hand current batch turn pushed
    exact interval_mono moved worker

end Intervals

section Prompt

/-- Without a countdown each job is executed in the round its interval ends with. -/
structure Prompt (s : JobState workers) : Prop where
  placed : ∀ worker id, ∀ job ∈ (s.buf worker id).content,
    slot job.interval = id ∧ job.interval ≤ interval s.hand worker
  punctual : ∀ worker, ∀ pass ∈ s.passes worker, ∀ job ∈ pass.jobs, job.interval = pass.round
  waiting : ∀ worker id, ∀ job ∈ pending 0 s worker id, countedRound s.hand ≤ job.interval

variable {s : JobState workers} {worker : Worker workers}

theorem pending_subset {id : Int} {job : Job} (member : job ∈ pending numSchedInsDel s worker id) :
    job ∈ (s.buf worker id).content := by
  unfold pending at member
  split at member
  · cases member
  · exact member

theorem Prompt.queue (prompt : Prompt s) (lock : Lockstep s.hand) {id : Int} {buf : JobBuf} {job : Job}
    (place : id = (s.hand.batchSet worker).receiverBufId)
    (grown : buf.content.Perm ((s.buf worker id).content ++ [job])) (now : job.interval = interval s.hand worker) :
    Prompt ((s.setBuf worker id buf).log worker job) := by
  have members : ∀ other ∈ buf.content, other ∈ (s.buf worker id).content ∨ other = job := by
    intro other member
    rcases List.mem_append.mp (grown.mem_iff.mp member) with old | new
    · exact .inl old
    · exact .inr (List.mem_singleton.mp new)
  refine ⟨?_, prompt.punctual, ?_⟩
  · intro current other queued member
    by_cases here : current = worker ∧ other = id
    · obtain ⟨rfl, rfl⟩ := here
      have held : ((s.setBuf current other buf).log current job).buf current other = buf := setBuf_self
      rw [held] at member
      rcases members queued member with old | rfl
      · exact prompt.placed current other queued old
      · rw [now, place, lock.receiver_slot]
        exact ⟨rfl, Nat.le_refl _⟩
    · have held : ((s.setBuf worker id buf).log worker job).buf current other = s.buf current other :=
        setBuf_other (not_and_or.mp here)
      rw [held] at member
      exact prompt.placed current other queued member
  · intro current other queued member
    have same : Executed 0 ((s.setBuf worker id buf).log worker job) current other ↔ Executed 0 s current other := Iff.rfl
    by_cases here : current = worker ∧ other = id
    · obtain ⟨rfl, rfl⟩ := here
      have held : ((s.setBuf current other buf).log current job).buf current other = buf := setBuf_self
      have waits := own_not_executed 0 lock current
      rw [← place] at waits
      rw [pending_waiting (same.not.mpr waits), held] at member
      rcases members queued member with old | rfl
      · rw [← pending_waiting waits] at old
        exact prompt.waiting current other queued old
      · rw [now]
        exact countedRound_le_interval s.hand current
    · have held : ((s.setBuf worker id buf).log worker job).buf current other = s.buf current other :=
        setBuf_other (not_and_or.mp here)
      rw [pending_congr same (congrArg JobBuf.content held)] at member
      exact prompt.waiting current other queued member

theorem Prompt.hand {t : State workers} (prompt : Prompt s) (lock : Lockstep s.hand) (accounted : Accounted 0 s)
    (step : Step 0 s.hand t) (noKernels : ∀ gpuBufId, s.hand.pc = .kernels gpuBufId → t.pc = .kernels gpuBufId)
    (noPush : ∀ worker, s.hand.senders worker = .holding → t.senders worker = .holding) :
    Prompt { s with hand := t } := by
  refine ⟨?_, prompt.punctual, ?_⟩
  · intro worker id job member
    obtain ⟨place, bound⟩ := prompt.placed worker id job member
    exact ⟨place, bound.trans (interval_mono step worker)⟩
  · intro worker id job member
    have sees := sees_hand lock accounted.clean step noKernels noPush worker
    rw [pending_congr (sees.executed_iff id) rfl] at member
    rw [countedRound_hand step noKernels]
    exact prompt.waiting worker id job member

theorem runsInsDel_zero (r : Nat) : RunsInsDel 0 r := by
  rw [runsInsDel_iff]
  exact Nat.mod_one r

theorem Prompt.kernels {gpuBufId : Int} (prompt : Prompt s) (lock : Lockstep s.hand) (accounted : Accounted 0 s)
    (counted : CountedDown 0 s.hand) (turn : s.hand.pc = .kernels gpuBufId) : Prompt (s.kernels 0 gpuBufId) := by
  have place := lock.scheduler
  simp only [turn, PcFits] at place
  subst place
  simp only [CountedDown, countedRound, turn] at counted
  have executed_iff := kernels_executed_iff 0 turn
  have now : countedRound s.hand = s.hand.round := by
    rw [countedRound, turn]
  have intervals : ∀ worker, interval (s.kernels 0 (slot s.hand.round)).hand worker = interval s.hand worker := by
    intro worker
    simp only [interval, turn]
    rfl
  refine ⟨?_, ?_, ?_⟩
  · intro worker id job member
    rw [intervals]
    exact prompt.placed worker id job member
  · intro worker pass member job inside
    rw [kernels_passes_run counted (runsInsDel_zero _)] at member
    rcases List.mem_append.mp member with old | new
    · exact prompt.punctual worker pass old job inside
    · rw [List.mem_singleton.mp new] at inside ⊢
      rw [(accounted.counted worker _).launched] at inside
      have waits : ¬ Executed 0 s worker (slot s.hand.round) := kernels_waiting 0 turn worker
      obtain ⟨same, bound⟩ := prompt.placed worker _ job inside
      rw [← pending_waiting waits] at inside
      have lower := prompt.waiting worker _ job inside
      have upper := bound.trans (interval_le_counted s.hand worker)
      rw [now] at lower upper
      rw [slot_eq_iff] at same
      unfold Nat.ModEq at same
      show job.interval = s.hand.round
      omega
  · intro worker id job member
    have waits : ¬ Executed 0 (s.kernels 0 (slot s.hand.round)) worker id := by
      intro executed
      rw [pending_executed executed] at member
      cases member
    rw [executed_iff, not_or] at waits
    have inside := pending_subset member
    obtain ⟨same, _⟩ := prompt.placed worker id job inside
    have held : job ∈ pending 0 s worker id := by
      rw [pending_waiting waits.2]
      exact inside
    have lower := prompt.waiting worker id job held
    have next : countedRound (s.kernels 0 (slot s.hand.round)).hand = s.hand.round + 1 := rfl
    have different : job.interval ≠ s.hand.round := by
      intro equal
      rw [equal] at same
      exact waits.1 ⟨same.symm, runsInsDel_zero _⟩
    rw [now] at lower
    omega

theorem Prompt.refresh (prompt : Prompt s) (lock : Lockstep s.hand) (delays : DelayFits 0 s.hand)
    (holding : s.hand.senders worker = .holding) (before : s.refreshed worker = false) : Prompt (s.refresh worker) := by
  refine ⟨?_, prompt.punctual, ?_⟩
  · intro current id job member
    by_cases here : current = worker ∧ id = (s.hand.batchSet worker).senderBufId
    · obtain ⟨rfl, rfl⟩ := here
      have held : (s.refresh current).buf current (s.hand.batchSet current).senderBufId =
          megaSenderRefreshBuffer (s.hand.batchSet current)
            (s.buf current (s.hand.batchSet current).senderBufId) := setBuf_self
      rw [held] at member
      by_cases done : (s.hand.batchSet current).delay = 0
      · rw [(refresh_empty done).content] at member
        cases member
      · rw [refresh_delayed done] at member
        exact prompt.placed current _ job member
    · rw [refresh_other (not_and_or.mp here)] at member
      exact prompt.placed current id job member
  · intro current id job member
    rw [refresh_pending lock delays holding before] at member
    exact prompt.waiting current id job member

theorem Prompt.push (prompt : Prompt s) (batch : Batch) (before : s.refreshed worker = true) :
    Prompt (s.push worker batch) := by
  refine ⟨prompt.placed, prompt.punctual, ?_⟩
  intro current id job member
  rw [pending_congr ((sees_push batch before current).executed_iff id) rfl] at member
  exact prompt.waiting current id job member

end Prompt

theorem prompt_reachable {s : JobState workers} (reached : (jobs workers 0).Reachable s) : Prompt s := by
  induction reached with
  | initial start =>
    obtain ⟨_, empty, fresh⟩ := start
    refine ⟨?_, ?_, ?_⟩
    · intro worker id job member
      rw [(empty worker id).content] at member
      cases member
    · intro worker pass member
      rw [(fresh worker).2.2] at member
      cases member
    · intro worker id job member
      have inside := pending_subset member
      rw [(empty worker id).content] at inside
      cases inside
  | step before next prompt =>
    have lock := lockstep_reachable (jobs_hand before)
    have accounted := accounted_reachable before
    cases next with
    | queueDelete worker elem _ => exact prompt.queue lock rfl (JobBuf.addDelete_content _) rfl
    | queueInsert worker elem _ => exact prompt.queue lock rfl (JobBuf.addInsert_content _) rfl
    | hand t step noKernels noPush => exact prompt.hand lock accounted step noKernels noPush
    | kernels gpuBufId turn => exact prompt.kernels lock accounted (countedDown_reachable (jobs_hand before)) turn
    | refresh worker turn unrefreshed =>
      exact prompt.refresh lock (delayFits_reachable (jobs_hand before)) turn unrefreshed
    | push worker batch turn refreshed _ => exact prompt.push batch refreshed

/-- A job whose interval ends no later than a round with a pass has been executed at the end of its interval. -/
theorem executed_by {s : JobState workers} (reached : (jobs workers 0).Reachable s) {worker : Worker workers}
    {first : Job} (queued : first ∈ s.queued worker) {later : Pass} (passed : later ∈ s.passes worker)
    (due : first.interval ≤ later.round) :
    ∃ earlier ∈ s.passes worker, first ∈ earlier.jobs ∧ earlier.round = first.interval := by
  have prompt := prompt_reachable reached
  have accounted := accounted_reachable reached
  have bound := (accounted.rounds worker later passed).2
  rcases (accounted.ledger worker).left_or_held queued with gone | ⟨id, _, held⟩
  · obtain ⟨earlier, member, ran⟩ := List.mem_flatMap.mp gone
    exact ⟨earlier, member, ran, (prompt.punctual worker earlier member first ran).symm⟩
  · have lower := prompt.waiting worker id first held
    omega

theorem in_order_zero {s : JobState workers} (reached : (jobs workers 0).Reachable s) : InOrder s := by
  intro worker first queuedFirst second _ before later passed inside
  have onTime := (prompt_reachable reached).punctual worker later passed second inside
  obtain ⟨earlier, member, ran, round⟩ := executed_by reached queuedFirst passed (by omega)
  exact ⟨earlier, member, ran, by omega⟩

section Overtaken

variable {r : Nat} {delay : Int} {buf : Int → JobBuf} {queued : List Job} {passes : List Pass}

theorem loneJobs_skip (skips : ¬ RunsInsDel numSchedInsDel r)
    (reached : (jobs 0 numSchedInsDel).Reachable (loneJobs (restingHand numSchedInsDel r delay) buf queued passes)) :
    (jobs 0 numSchedInsDel).Reachable
      (loneJobs (restingHand numSchedInsDel (r + 1) (delayAfter numSchedInsDel r)) buf queued passes) := by
  have round := loneJobs_round reached
  have delayed : (heldBatch numSchedInsDel r).delay ≠ 0 := by
    rw [heldBatch, delayAfter, if_neg ((schedInsDelAt_succ_iff r).not.mpr skips)]
    exact one_ne_zero
  have kept : passesAfter numSchedInsDel r buf passes = passes := if_neg skips
  rw [refresh_delayed delayed, Function.update_eq_self, kept] at round
  exact round

/-- The rounds before the first one that inserts and deletes leave nothing behind. -/
theorem quiet_rounds (numSchedInsDel r : Nat) (early : r ≤ numSchedInsDel) : ∃ delay, (jobs 0 numSchedInsDel).Reachable
    (loneJobs (restingHand numSchedInsDel r delay) (fun _ => vacantBuf) [] []) := by
  induction r with
  | zero => exact ⟨-1, loneJobs_start⟩
  | succ r before =>
    obtain ⟨delay, reached⟩ := before (Nat.le_of_succ_le early)
    have skips : ¬ RunsInsDel numSchedInsDel r := by
      rw [runsInsDel_iff, Nat.mod_eq_of_lt (Nat.lt_of_lt_of_le early (Nat.le_succ _))]
      exact Nat.ne_of_lt early
    exact ⟨_, loneJobs_skip skips reached⟩

def setJob (serial interval : Nat) : Queued Hash.IElem := ⟨⟨0, 0, 0⟩, serial, interval⟩

theorem vacantBuf_launched (job : Queued Hash.IElem) {other : Job} :
    other ∈ (vacantBuf.addInsert job).launched ↔ other = .insert job := by
  have counted := vacantBuf_empty.counted.addInsert job (vacantBuf_fits job.elem)
  rw [counted.launched, (JobBuf.addInsert_content job).mem_iff, vacantBuf_empty.content, List.nil_append,
    List.mem_singleton]

/-- The job of the last delayed interval waits while that of the next one is executed. -/
theorem overtaken (numSchedInsDel : Nat) :
    ∃ s : JobState 0, (jobs 0 (numSchedInsDel + 1)).Reachable s ∧ ¬ InOrder s := by
  obtain ⟨delay, quiet⟩ := quiet_rounds (numSchedInsDel + 1) numSchedInsDel (Nat.le_succ _)
  have firstQueued := loneJobs_insert ⟨0, 0, 0⟩ (vacantBuf_fits _) quiet
  have skips : ¬ RunsInsDel (numSchedInsDel + 1) numSchedInsDel := by
    rw [runsInsDel_iff, Nat.mod_eq_of_lt (by omega)]
    omega
  have runs : RunsInsDel (numSchedInsDel + 1) (numSchedInsDel + 1) := by
    rw [runsInsDel_iff]
    exact Nat.mod_eq_of_lt (Nat.lt_succ_self _)
  have apart : slot (numSchedInsDel + 1) ≠ slot numSchedInsDel := (slot_distinct numSchedInsDel).1.symm
  have other : ∀ buf : JobBuf,
      Function.update (fun _ => vacantBuf) (slot numSchedInsDel) buf (slot (numSchedInsDel + 1)) = vacantBuf :=
    fun buf => Function.update_of_ne apart _ _
  have secondQueued := loneJobs_insert ⟨0, 0, 0⟩ (by rw [other]; exact vacantBuf_fits _)
    (loneJobs_skip skips firstQueued)
  rw [other] at secondQueued
  refine ⟨_, loneJobs_ran secondQueued, ?_⟩
  intro ordered
  have passes : ∀ buf : Int → JobBuf, passesAfter (numSchedInsDel + 1) (numSchedInsDel + 1) buf [] =
      [⟨numSchedInsDel + 1, slot (numSchedInsDel + 1), (buf (slot (numSchedInsDel + 1))).launched⟩] :=
    fun buf => if_pos runs
  rw [passes, Function.update_self] at ordered
  obtain ⟨earlier, member, ran, _⟩ := ordered 0
    (.insert (setJob 0 numSchedInsDel)) (List.mem_cons_self)
    (.insert (setJob 1 (numSchedInsDel + 1))) (List.mem_cons_of_mem _ List.mem_cons_self)
    (Nat.lt_succ_self _) _ (List.mem_singleton.mpr rfl) ((vacantBuf_launched _).mpr rfl)
  rw [List.mem_singleton.mp member] at ran
  have same := (vacantBuf_launched _).mp ran
  cases same

end Overtaken

/-- Every run keeps the order of the intervals exactly when nothing is ever delayed. -/
theorem jobs_in_order_iff (numSchedInsDel : Nat) :
    (∀ (workers : Nat) (s : JobState workers), (jobs workers numSchedInsDel).Reachable s → InOrder s) ↔
      numSchedInsDel = 0 := by
  constructor
  · intro ordered
    cases numSchedInsDel with
    | zero => rfl
    | succ fewer =>
      obtain ⟨s, reached, disordered⟩ := overtaken fewer
      exact absurd (ordered 0 s reached) disordered
  · intro none workers s reached
    subst none
    exact in_order_zero reached

theorem jobs_overtaken_one : ∃ s : JobState 0, (jobs 0 1).Reachable s ∧ ¬ InOrder s :=
  overtaken 0

end MegaKV.Scheduler
