import MegaKV.Library.Period
import MegaKV.Scheduler.Rotation

namespace MegaKV.Scheduler

open Library

/-- Whether the round goes on past `goto skip_gpu`; with NUM_SCHED_INS_DEL = 0 there is no such jump. -/
def insertsDeletes (numSchedInsDel schedInsDel : Nat) : Bool :=
  !(decide (0 < numSchedInsDel) && decide (0 < schedInsDel))

/-- `mega_gpu_get_batch` for one worker. -/
def megaGpuGetBatch (batch : Batch) : Batch :=
  megaGpuTakeBatch (megaGpuGetAvailableBufId batch).2 (megaGpuGetAvailableBufId batch).1

/-- A round of one worker, with the sender done before the next one; `none` is the sender's assertion. -/
def rotateBatch (numSchedInsDel schedInsDel : Nat) (batch : Batch) : Option Batch :=
  (megaSenderPushBuffer (megaGpuGiveToSender (megaGpuGetBatch batch) numSchedInsDel schedInsDel)).map megaSenderClear

def schedInsDelAt (numSchedInsDel : Nat) : Nat → Nat
  | 0 => numSchedInsDel
  | r + 1 => nextSchedInsDel numSchedInsDel (schedInsDelAt numSchedInsDel r)

def batchAt (numSchedInsDel : Nat) : Nat → Option Batch
  | 0 => some megaReceiverBatchInit
  | r + 1 => (batchAt numSchedInsDel r).bind (rotateBatch numSchedInsDel (schedInsDelAt numSchedInsDel (r + 1)))

def bufferTaken (numSchedInsDel r : Nat) : Option Int :=
  (batchAt numSchedInsDel r).map fun batch => (megaGpuGetBatch batch).gpuBufId

def RunsInsDel (numSchedInsDel r : Nat) : Prop :=
  insertsDeletes numSchedInsDel (schedInsDelAt numSchedInsDel r) = true

section Closed

variable (numSchedInsDel : Nat)

theorem schedInsDelAt_eq (r : Nat) : schedInsDelAt numSchedInsDel r = numSchedInsDel - r % (numSchedInsDel + 1) := by
  induction r with
  | zero => simp [schedInsDelAt]
  | succ r before =>
    have inside : r % (numSchedInsDel + 1) < numSchedInsDel + 1 := Nat.mod_lt r (Nat.succ_pos numSchedInsDel)
    rw [schedInsDelAt, before, nextSchedInsDel, succ_mod_period]
    split
    · rw [if_neg (by omega)]
      omega
    · rw [if_pos (by omega), Nat.sub_zero]

theorem runsInsDel_iff (r : Nat) : RunsInsDel numSchedInsDel r ↔ r % (numSchedInsDel + 1) = numSchedInsDel := by
  have inside : r % (numSchedInsDel + 1) < numSchedInsDel + 1 := Nat.mod_lt r (Nat.succ_pos numSchedInsDel)
  simp only [RunsInsDel, insertsDeletes, schedInsDelAt_eq, Bool.not_eq_true', Bool.and_eq_false_iff,
    decide_eq_false_iff_not]
  omega

theorem rotateBatch_slots (schedInsDel r : Nat) (delay : Int) :
    rotateBatch numSchedInsDel schedInsDel ⟨slot r, -1, slot (r + 1), slot (r + 2), -1, delay⟩ =
      some ⟨slot (r + 1), -1, slot (r + 2), slot (r + 3), -1,
        if schedInsDel = numSchedInsDel then 0 else 1⟩ := by
  have occupied := slot_ne_neg_one (r + 2)
  simp [rotateBatch, megaGpuGetBatch, megaGpuGetAvailableBufId, megaGpuTakeBatch, megaGpuGiveToSender,
    megaSenderPushBuffer, megaSenderClear, occupied, slot_add_three]

theorem batchAt_slots (r : Nat) :
    ∃ delay, batchAt numSchedInsDel r = some ⟨slot r, -1, slot (r + 1), slot (r + 2), -1, delay⟩ := by
  induction r with
  | zero => exact ⟨-1, rfl⟩
  | succ r before =>
    obtain ⟨delay, held⟩ := before
    rw [batchAt, held, Option.bind_some, rotateBatch_slots]
    exact ⟨_, rfl⟩

theorem bufferTaken_eq (r : Nat) : bufferTaken numSchedInsDel r = some (slot r) := by
  obtain ⟨delay, held⟩ := batchAt_slots numSchedInsDel r
  rw [bufferTaken, held]
  rfl

theorem slot_eq_iff (r t : Nat) : slot r = slot t ↔ r ≡ t [MOD 3] := by
  unfold slot Nat.ModEq
  omega

end Closed

section Runs

variable {workers numSchedInsDel : Nat}

/-- The countdown's round: in the give loop it is already that of the next one. -/
def countedRound (s : State workers) : Nat :=
  match s.pc with
  | .give _ => s.round + 1
  | _ => s.round

def CountedDown (numSchedInsDel : Nat) (s : State workers) : Prop :=
  s.schedInsDel = schedInsDelAt numSchedInsDel (countedRound s)

theorem countedDown_step (s t : State workers) (counted : CountedDown numSchedInsDel s)
    (step : Step numSchedInsDel s t) : CountedDown numSchedInsDel t := by
  unfold CountedDown countedRound at counted ⊢
  cases step with
  | pop worker turn _ => simpa [turn, State.setBatch] using counted
  | take worker availableBufId turn =>
    rw [turn] at counted
    unfold afterTake
    cases following worker with
    | none => exact counted
    | some next => exact counted
  | kernels gpuBufId turn =>
    rw [turn] at counted
    simp only [schedInsDelAt, counted]
  | give worker turn _ =>
    rw [turn] at counted
    unfold State.afterGive
    cases following worker with
    | none => exact counted
    | some next => exact counted
  | get worker turn _ => exact counted
  | push worker batch turn _ => exact counted
  | clear worker turn => exact counted

theorem countedDown_reachable {s : State workers} (reached : (handOff workers numSchedInsDel).Reachable s) :
    CountedDown numSchedInsDel s := by
  apply reached.invariant
  · intro s start
    rw [start]
    rfl
  · exact countedDown_step

theorem round_taken {s : State workers} (reached : (handOff workers numSchedInsDel).Reachable s) (gpuBufId : Int)
    (turn : s.pc = .kernels gpuBufId) :
    bufferTaken numSchedInsDel s.round = some gpuBufId ∧
      (∀ worker, (s.batchSet worker).gpuBufId = gpuBufId) ∧
      s.schedInsDel = schedInsDelAt numSchedInsDel s.round := by
  have lock := lockstep_reachable reached
  have counted := countedDown_reachable reached
  have value := lock.scheduler
  simp only [turn, PcFits] at value
  simp only [CountedDown, countedRound, turn] at counted
  refine ⟨by rw [bufferTaken_eq, value], ?_, counted⟩
  intro worker
  have fits := lock.worker worker
  simp only [turn, localRound, phase] at fits
  rw [fits.taken_gpu, value]

theorem nextSchedInsDel_eq_iff {schedInsDel : Nat} (bound : schedInsDel ≤ numSchedInsDel) :
    nextSchedInsDel numSchedInsDel schedInsDel = numSchedInsDel ↔
      insertsDeletes numSchedInsDel schedInsDel = true := by
  simp only [nextSchedInsDel, insertsDeletes, Bool.not_eq_true', Bool.and_eq_false_iff, decide_eq_false_iff_not]
  split <;> omega

theorem schedInsDelAt_le (r : Nat) : schedInsDelAt numSchedInsDel r ≤ numSchedInsDel := by
  rw [schedInsDelAt_eq]
  exact Nat.sub_le _ _

theorem schedInsDelAt_succ_iff (r : Nat) :
    schedInsDelAt numSchedInsDel (r + 1) = numSchedInsDel ↔ RunsInsDel numSchedInsDel r :=
  nextSchedInsDel_eq_iff (schedInsDelAt_le r)

/-- `delay` tells the sender what became of the jobs in the round that handed the buffer to it. -/
def DelayFits (numSchedInsDel : Nat) (s : State workers) : Prop :=
  ∀ worker, (s.batchSet worker).senderBufId ≠ -1 →
    ((s.batchSet worker).delay = 0 ↔ RunsInsDel numSchedInsDel (localRound s.pc s.round worker - 1))

theorem localRound_give {worker current : Worker workers} (round : Nat) (later : ¬ worker < current) :
    localRound (.give current) round worker = round := by
  simp only [localRound, later, ite_false]

/-- What a step of the scheduler leaves as it is for the other workers. -/
theorem localRound_afterGive {s : State workers} {worker other : Worker workers} (turn : s.pc = .give worker)
    (different : other ≠ worker) :
    localRound (s.afterGive worker).pc (s.afterGive worker).round other = localRound s.pc s.round other := by
  have apart : other.val ≠ worker.val := fun same => different (Fin.ext same)
  unfold State.afterGive
  cases more : following worker with
  | some next =>
    have position := following_some more
    have order : other < next ↔ other < worker := by
      simp only [Fin.lt_def]
      omega
    simp only [turn, localRound, order]
  | none =>
    have position := following_none more
    have order : other < worker := by
      have bound := other.isLt
      simp only [Fin.lt_def]
      omega
    simp only [turn, localRound, order, ite_true]

theorem localRound_afterGive_self {s : State workers} {worker : Worker workers} :
    localRound (s.afterGive worker).pc (s.afterGive worker).round worker = s.round + 1 := by
  unfold State.afterGive
  cases more : following worker with
  | some next =>
    have position := following_some more
    have order : worker < next := by
      simp only [Fin.lt_def]
      omega
    simp only [localRound, order, ite_true]
  | none => rfl

theorem localRound_take (worker current : Worker workers) (batch : Batch) (round : Nat) :
    localRound (afterTake current batch) round worker = round := by
  unfold afterTake
  cases following current with
  | none => rfl
  | some next => rfl

theorem afterGive_batchSet (s : State workers) (worker : Worker workers) :
    (s.afterGive worker).batchSet = s.batchSet := by
  unfold State.afterGive
  cases following worker with
  | none => rfl
  | some next => rfl

theorem afterGive_senders (s : State workers) (worker : Worker workers) :
    (s.afterGive worker).senders = s.senders := by
  unfold State.afterGive
  cases following worker with
  | none => rfl
  | some next => rfl

theorem delayFits_step {s t : State workers} (counted : CountedDown numSchedInsDel s)
    (fits : DelayFits numSchedInsDel s) (step : Step numSchedInsDel s t) : DelayFits numSchedInsDel t := by
  intro worker given
  cases step with
  | pop current turn _ =>
    by_cases same : worker = current
    · subst same
      simp only [State.setBatch, Function.update_self, megaGpuGetAvailableBufId] at given ⊢
      have kept := fits worker given
      rw [turn] at kept
      exact kept
    · simp only [State.setBatch, Function.update_of_ne same] at given ⊢
      have kept := fits worker given
      rw [turn] at kept
      exact kept
  | take current availableBufId turn =>
    by_cases same : worker = current
    · subst same
      simp only [State.setBatch, Function.update_self, megaGpuTakeBatch, localRound_take] at given ⊢
      have kept := fits worker given
      rw [turn] at kept
      exact kept
    · simp only [State.setBatch, Function.update_of_ne same, localRound_take] at given ⊢
      have kept := fits worker given
      rw [turn] at kept
      exact kept
  | kernels gpuBufId turn =>
    have kept := fits worker given
    have first : ¬ worker < 0 := by simp
    rw [turn] at kept
    rw [localRound_give _ first]
    exact kept
  | give current turn _ =>
    by_cases same : worker = current
    · subst same
      simp only [CountedDown, countedRound, turn] at counted
      rw [localRound_afterGive_self, Nat.add_sub_cancel]
      simp only [afterGive_batchSet, State.setBatch, Function.update_self, megaGpuGiveToSender]
      rw [← schedInsDelAt_succ_iff, ← counted]
      by_cases full : s.schedInsDel = numSchedInsDel
      · rw [if_pos full]
        exact iff_of_true rfl full
      · rw [if_neg full]
        exact iff_of_false (by decide) full
    · rw [localRound_afterGive (s := s.setBatch current _) turn same]
      simp only [afterGive_batchSet, State.setBatch, Function.update_of_ne same] at given ⊢
      exact fits worker given
  | get current turn _ => exact fits worker given
  | push current batch turn pushed =>
    by_cases same : worker = current
    · subst same
      simp only [State.setBatch, State.setSender, Function.update_self] at given ⊢
      unfold megaSenderPushBuffer at pushed
      split at pushed
      · cases pushed
        exact fits worker given
      · split at pushed
        · cases pushed
          exact fits worker given
        · cases pushed
    · simp only [State.setBatch, State.setSender, Function.update_of_ne same] at given ⊢
      exact fits worker given
  | clear current turn =>
    by_cases same : worker = current
    · subst same
      simp only [State.setBatch, State.setSender, Function.update_self, megaSenderClear] at given
      exact absurd rfl given
    · simp only [State.setBatch, State.setSender, Function.update_of_ne same] at given ⊢
      exact fits worker given

theorem delayFits_reachable {s : State workers} (reached : (handOff workers numSchedInsDel).Reachable s) :
    DelayFits numSchedInsDel s := by
  induction reached with
  | initial start =>
    rw [start]
    intro worker given
    exact absurd rfl given
  | step before next fits => exact delayFits_step (countedDown_reachable before) fits next

end Runs

/-- The buffer of round `r` is inserted and deleted from within three periods. -/
def ServedInTime (numSchedInsDel : Nat) : Prop :=
  ∀ r, ∃ served, r ≤ served ∧ served < r + 3 * (numSchedInsDel + 1) ∧
    bufferTaken numSchedInsDel served = bufferTaken numSchedInsDel r ∧ RunsInsDel numSchedInsDel served

theorem served_of_coprime {numSchedInsDel : Nat} (apart : Nat.Coprime 3 (numSchedInsDel + 1)) :
    ServedInTime numSchedInsDel := by
  intro r
  have positive : 0 < 3 * (numSchedInsDel + 1) := by omega
  obtain ⟨served, after, bound, turn, runs⟩ := periods_meet apart positive r numSchedInsDel r
  refine ⟨served, after, bound, ?_, ?_⟩
  · rw [bufferTaken_eq, bufferTaken_eq, (slot_eq_iff served r).mpr turn]
  · rw [runsInsDel_iff, runs]
    exact Nat.mod_eq_of_lt (Nat.lt_succ_self _)

/-- Where three divides the period, only the buffer of round NUM_SCHED_INS_DEL is ever served. -/
theorem served_buffer {numSchedInsDel served : Nat} (divides : 3 ∣ numSchedInsDel + 1)
    (runs : RunsInsDel numSchedInsDel served) : bufferTaken numSchedInsDel served = some 2 := by
  rw [runsInsDel_iff] at runs
  have whole : served ≡ numSchedInsDel [MOD numSchedInsDel + 1] := by
    rw [Nat.ModEq, runs, Nat.mod_eq_of_lt (Nat.lt_succ_self _)]
  have turn := whole.of_dvd divides
  rw [bufferTaken_eq, slot]
  unfold Nat.ModEq at turn
  congr 1
  omega

theorem starved_of_dvd {numSchedInsDel : Nat} (divides : 3 ∣ numSchedInsDel + 1) : ¬ ServedInTime numSchedInsDel := by
  intro inTime
  obtain ⟨served, _, _, same, runs⟩ := inTime 0
  rw [served_buffer divides runs, bufferTaken_eq] at same
  exact absurd (Option.some.inj same) (by decide)

/-- Every buffer gets its insert and delete rounds exactly when three does not divide the period,
    with the rounds as functions of their number being those of every run. -/
theorem buffers_served_iff (numSchedInsDel : Nat) :
    (ServedInTime numSchedInsDel ↔ ¬ 3 ∣ numSchedInsDel + 1) ∧
      ∀ (workers : Nat) (s : State workers) (gpuBufId : Int), (handOff workers numSchedInsDel).Reachable s →
        s.pc = .kernels gpuBufId →
          bufferTaken numSchedInsDel s.round = some gpuBufId ∧
            (∀ worker, (s.batchSet worker).gpuBufId = gpuBufId) ∧
            s.schedInsDel = schedInsDelAt numSchedInsDel s.round := by
  constructor
  · constructor
    · intro inTime divides
      exact starved_of_dvd divides inTime
    · intro free
      exact served_of_coprime ((Nat.Prime.coprime_iff_not_dvd Nat.prime_three).mpr free)
  · intro workers s gpuBufId reached turn
    exact round_taken reached gpuBufId turn

theorem buffers_starved_two : ¬ ServedInTime 2 :=
  starved_of_dvd ⟨1, rfl⟩

end MegaKV.Scheduler
