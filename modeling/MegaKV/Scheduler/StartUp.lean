import MegaKV.Scheduler.Lone

namespace MegaKV.Scheduler

open Library

section System

variable (workers : Nat)

/-- The hand-off with the threads that come up one by one. -/
structure StartState where
  hand : State workers
  receiverReady : Worker workers → Bool
  senderReady : Worker workers → Bool
  launched : Bool

end System

variable {workers numSchedInsDel : Nat}

/-- `mega_sender_init`, of the fields of the batch. -/
def megaSenderInit (batch : Batch) : Batch := { batch with senderBufId := -1 }

def StartState.receiverInit (s : StartState workers) (worker : Worker workers) : StartState workers :=
  { s with
    hand := s.hand.setBatch worker megaReceiverBatchInit
    receiverReady := Function.update s.receiverReady worker true }

def StartState.senderInit (s : StartState workers) (worker : Worker workers) : StartState workers :=
  { s with
    hand := s.hand.setBatch worker (megaSenderInit (s.hand.batchSet worker))
    senderReady := Function.update s.senderReady worker true }

/-- `main` launches the scheduler when all receivers are ready; it does not wait for the senders. -/
inductive StartStep (numSchedInsDel : Nat) : StartState workers → StartState workers → Prop where
  | receiverInit (s : StartState workers) (worker : Worker workers) (fresh : s.receiverReady worker = false) :
      StartStep numSchedInsDel s (s.receiverInit worker)
  | senderInit (s : StartState workers) (worker : Worker workers) (fresh : s.senderReady worker = false) :
      StartStep numSchedInsDel s (s.senderInit worker)
  | launch (s : StartState workers) (fresh : s.launched = false) (ready : ∀ worker, s.receiverReady worker = true) :
      StartStep numSchedInsDel s { s with launched := true }
  | hand (s : StartState workers) (t : State workers) (step : Step numSchedInsDel s.hand t)
      (scheduler : t.pc ≠ s.hand.pc → s.launched = true)
      (sender : ∀ worker, t.senders worker ≠ s.hand.senders worker → s.senderReady worker = true) :
      StartStep numSchedInsDel s { s with hand := t }

/-- The batches come from `malloc`. -/
def startUp (workers numSchedInsDel : Nat) : TransitionSystem (StartState workers) :=
  { initial := fun s =>
      (∃ batchSet, s.hand = { initialState workers numSchedInsDel with batchSet := batchSet }) ∧
        (∀ worker, s.receiverReady worker = false ∧ s.senderReady worker = false) ∧ s.launched = false
    step := StartStep numSchedInsDel }

/-- A sender comes up while nothing has been handed over to it. -/
def Timely (s t : StartState workers) : Prop :=
  ∀ worker, s.senderReady worker = false → t.senderReady worker = true → s.launched = true →
    (s.hand.batchSet worker).senderBufId = -1

/-- No buffer is forgotten, and the scheduler never takes -1 for one. -/
def NoneForgotten (s : StartState workers) : Prop :=
  s.launched = true → (∀ worker (id : Fin 3), Kept s.hand worker (id.val : Int)) ∧
    ∀ worker, s.hand.pc = .pop worker → (megaGpuGetAvailableBufId (s.hand.batchSet worker)).1 ≠ -1

/-- A buffer that has been handed over is reset only by its sender, which has pushed it. -/
def ResetByPush (s t : StartState workers) : Prop :=
  s.launched = true → ∀ worker, (s.hand.batchSet worker).senderBufId ≠ -1 →
    (t.hand.batchSet worker).senderBufId = -1 → s.hand.senders worker = .pushed ∧
      ((s.hand.batchSet worker).availableBufId0 = (s.hand.batchSet worker).senderBufId ∨
        (s.hand.batchSet worker).availableBufId1 = (s.hand.batchSet worker).senderBufId)

structure Booted (numSchedInsDel : Nat) (s : StartState workers) : Prop where
  down : s.launched = false → s.hand.pc = .pop 0 ∧ s.hand.schedInsDel = numSchedInsDel ∧ s.hand.round = 0 ∧
    ∀ worker, s.hand.senders worker = .waiting
  receivers : s.launched = false → ∀ worker, s.receiverReady worker = true →
    s.hand.batchSet worker = megaReceiverBatchInit
  senders : s.launched = false → ∀ worker, s.senderReady worker = true → (s.hand.batchSet worker).senderBufId = -1
  up : s.launched = true → Lockstep s.hand ∧ ∀ worker, s.receiverReady worker = true

theorem Booted.receiverInit {s : StartState workers} (booted : Booted numSchedInsDel s) {worker : Worker workers}
    (fresh : s.receiverReady worker = false) : Booted numSchedInsDel (s.receiverInit worker) := by
  have notUp : s.launched = true → False := by
    intro launched
    exact absurd (fresh.symm.trans ((booted.up launched).2 worker)) (by decide)
  refine ⟨booted.down, ?_, ?_, fun launched => (notUp launched).elim⟩
  · intro down current ready
    by_cases same : current = worker
    · subst same
      simp only [StartState.receiverInit, State.setBatch, Function.update_self]
    · simp only [StartState.receiverInit, State.setBatch, Function.update_of_ne same] at ready ⊢
      exact booted.receivers down current ready
  · intro down current ready
    by_cases same : current = worker
    · subst same
      simp only [StartState.receiverInit, State.setBatch, Function.update_self, megaReceiverBatchInit]
    · simp only [StartState.receiverInit, State.setBatch, Function.update_of_ne same] at ready ⊢
      exact booted.senders down current ready

theorem Booted.senderInit {s : StartState workers} (booted : Booted numSchedInsDel s) {worker : Worker workers}
    (fresh : s.senderReady worker = false) (timely : Timely s (s.senderInit worker)) :
    Booted numSchedInsDel (s.senderInit worker) := by
  refine ⟨booted.down, ?_, ?_, ?_⟩
  · intro down current ready
    have held := booted.receivers down current ready
    by_cases same : current = worker
    · subst same
      simp only [StartState.senderInit, State.setBatch, Function.update_self, held]
      rfl
    · simpa only [StartState.senderInit, State.setBatch, Function.update_of_ne same] using held
  · intro down current ready
    by_cases same : current = worker
    · subst same
      simp only [StartState.senderInit, State.setBatch, Function.update_self, megaSenderInit]
    · simp only [StartState.senderInit, State.setBatch, Function.update_of_ne same] at ready ⊢
      exact booted.senders down current ready
  · intro launched
    have ready : (s.senderInit worker).senderReady worker = true := Function.update_self _ _ _
    have free := timely worker fresh ready launched
    have same : megaSenderInit (s.hand.batchSet worker) = s.hand.batchSet worker := by
      rw [megaSenderInit, ← free]
    have unchanged : (s.senderInit worker).hand = s.hand := by
      simp only [StartState.senderInit, same, State.setBatch, Function.update_eq_self]
    rw [unchanged]
    exact booted.up launched

theorem Booted.launch {s : StartState workers} (booted : Booted numSchedInsDel s) (fresh : s.launched = false)
    (ready : ∀ worker, s.receiverReady worker = true) : Booted numSchedInsDel { s with launched := true } := by
  obtain ⟨pc, countdown, round, senders⟩ := booted.down fresh
  have start : s.hand = initialState workers numSchedInsDel := by
    have batches : s.hand.batchSet = fun _ => megaReceiverBatchInit := by
      funext worker
      exact booted.receivers fresh worker (ready worker)
    have waiting : s.hand.senders = fun _ => .waiting := by
      funext worker
      exact senders worker
    cases hand : s.hand
    simp only [hand] at pc countdown round batches waiting
    rw [initialState, pc, countdown, round, batches, waiting]
  refine ⟨fun down => ?_, fun down => ?_, fun down => ?_, fun _ => ⟨?_, ready⟩⟩
  · cases down
  · cases down
  · cases down
  · rw [start]
    exact lockstep_initial numSchedInsDel

/-- Before the launch no thread of the hand-off can move. -/
theorem Booted.hand_down {s : StartState workers} {t : State workers} (booted : Booted numSchedInsDel s)
    (step : Step numSchedInsDel s.hand t) (scheduler : t.pc ≠ s.hand.pc → s.launched = true)
    (sender : ∀ worker, t.senders worker ≠ s.hand.senders worker → s.senderReady worker = true) :
    s.launched = true := by
  by_contra notUp
  have down : s.launched = false := by
    rw [Bool.eq_false_iff]
    exact notUp
  obtain ⟨pc, _, _, senders⟩ := booted.down down
  have still : t.pc = s.hand.pc := by
    by_contra moves
    exact notUp (scheduler moves)
  cases step with
  | pop worker turn _ =>
    rw [turn] at still
    cases still
  | take worker availableBufId turn => cases pc.symm.trans turn
  | kernels gpuBufId turn => cases pc.symm.trans turn
  | give worker turn _ => cases pc.symm.trans turn
  | get worker turn given =>
    have changed : (s.hand.setSender worker .holding).senders worker ≠ s.hand.senders worker := by
      rw [turn]
      simp only [State.setSender, Function.update_self]
      decide
    exact given (booted.senders down worker (sender worker changed))
  | push worker batch turn _ => cases (senders worker).symm.trans turn
  | clear worker turn => cases (senders worker).symm.trans turn

theorem booted_step {s t : StartState workers} (booted : Booted numSchedInsDel s)
    (step : StartStep numSchedInsDel s t) (timely : Timely s t) : Booted numSchedInsDel t := by
  cases step with
  | receiverInit worker fresh => exact booted.receiverInit fresh
  | senderInit worker fresh => exact booted.senderInit fresh timely
  | launch fresh ready => exact booted.launch fresh ready
  | hand t step scheduler sender =>
    have launched := booted.hand_down step scheduler sender
    obtain ⟨lock, ready⟩ := booted.up launched
    refine ⟨fun down => ?_, fun down => ?_, fun down => ?_, fun _ => ⟨lockstep_step _ _ lock step, ready⟩⟩
    · cases launched.symm.trans down
    · cases launched.symm.trans down
    · cases launched.symm.trans down

theorem booted_reachable {s : StartState workers}
    (reached : ((startUp workers numSchedInsDel).within Timely).Reachable s) : Booted numSchedInsDel s := by
  induction reached with
  | initial start =>
    obtain ⟨⟨batchSet, hand⟩, notReady, down⟩ := start
    refine ⟨fun _ => ?_, fun _ worker ready => ?_, fun _ worker ready => ?_, fun launched => ?_⟩
    · rw [hand]
      exact ⟨rfl, rfl, rfl, fun _ => rfl⟩
    · cases (notReady worker).1.symm.trans ready
    · cases (notReady worker).2.symm.trans ready
    · cases down.symm.trans launched
  | step _ next booted => exact booted_step booted next.1 next.2

theorem Fits.pushed_back {r : Nat} {current : Phase} {batch : Batch} (fits : Fits r current batch .pushed) :
    batch.availableBufId0 = batch.senderBufId ∨ batch.availableBufId1 = batch.senderBufId := by
  cases fits with
  | idle available sender delay _ trailing => cases trailing; exact .inr rfl
  | popped available sender delay _ trailing => cases trailing; exact .inl rfl
  | taken available sender delay _ trailing => cases trailing; exact .inl rfl

theorem Fits.pushed_sender {r : Nat} {current : Phase} {batch : Batch} (fits : Fits r current batch .pushed) :
    batch.senderBufId ≠ -1 := by
  cases fits with
  | idle available sender delay _ trailing => cases trailing; exact slot_ne_neg_one _
  | popped available sender delay _ trailing => cases trailing; exact slot_ne_neg_one _
  | taken available sender delay _ trailing => cases trailing; exact slot_ne_neg_one _

/-- Of the steps of the hand-off only the sender's clear resets its slot. -/
theorem reset_hand {s t : State workers} (lock : Lockstep s) (step : Step numSchedInsDel s t) (worker : Worker workers)
    (given : (s.batchSet worker).senderBufId ≠ -1) (reset : (t.batchSet worker).senderBufId = -1) :
    s.senders worker = .pushed := by
  cases step with
  | pop current turn _ =>
    by_cases same : worker = current
    · subst same
      simp only [State.setBatch, Function.update_self, megaGpuGetAvailableBufId] at reset
      exact absurd reset given
    · simp only [State.setBatch, Function.update_of_ne same] at reset
      exact absurd reset given
  | take current availableBufId turn =>
    by_cases same : worker = current
    · subst same
      simp only [State.setBatch, Function.update_self, megaGpuTakeBatch] at reset
      exact absurd reset given
    · simp only [State.setBatch, Function.update_of_ne same] at reset
      exact absurd reset given
  | kernels gpuBufId turn => exact absurd reset given
  | give current turn free =>
    rw [afterGive_batchSet] at reset
    by_cases same : worker = current
    · subst same
      exact absurd free given
    · simp only [State.setBatch, Function.update_of_ne same] at reset
      exact absurd reset given
  | get current turn _ => exact absurd reset given
  | push current batch turn pushed =>
    by_cases same : worker = current
    · subst same
      have fits := lock.worker worker
      rw [turn] at fits
      obtain ⟨after, stored, fitsAfter⟩ := fits.push
      rw [stored] at pushed
      cases pushed
      have back := fitsAfter.pushed_sender
      simp only [State.setSender, State.setBatch, Function.update_self] at reset
      exact absurd reset back
    · simp only [State.setSender, State.setBatch, Function.update_of_ne same] at reset
      exact absurd reset given
  | clear current turn =>
    by_cases same : worker = current
    · subst same
      exact turn
    · simp only [State.setSender, State.setBatch, Function.update_of_ne same] at reset
      exact absurd reset given

theorem reset_step {s t : StartState workers} (booted : Booted numSchedInsDel s)
    (step : StartStep numSchedInsDel s t) (timely : Timely s t) : ResetByPush s t := by
  intro launched worker given reset
  obtain ⟨lock, ready⟩ := booted.up launched
  cases step with
  | receiverInit current fresh => cases fresh.symm.trans (ready current)
  | senderInit current fresh =>
    by_cases same : worker = current
    · subst same
      have woken : (s.senderInit worker).senderReady worker = true := Function.update_self _ _ _
      exact absurd (timely worker fresh woken launched) given
    · simp only [StartState.senderInit, State.setBatch, Function.update_of_ne same] at reset
      exact absurd reset given
  | launch fresh _ => cases fresh.symm.trans launched
  | hand t step _ _ =>
    have pushed := reset_hand lock step worker given reset
    have fits := lock.worker worker
    rw [pushed] at fits
    exact ⟨pushed, fits.pushed_back⟩

theorem none_forgotten {s : StartState workers} (booted : Booted numSchedInsDel s) : NoneForgotten s := by
  intro launched
  obtain ⟨lock, _⟩ := booted.up launched
  refine ⟨lock.kept, ?_⟩
  intro worker turn
  have fits := lock.worker worker
  simp only [turn, localRound, phase, Fin.lt_irrefl, ite_false] at fits
  rw [fits.pop.1]
  exact slot_ne_neg_one _

/-- Start-up loses no buffer in any run in which each sender comes up while nothing has been
    handed over to it. -/
theorem start_up_keeps_buffers {s : StartState workers}
    (reached : ((startUp workers numSchedInsDel).within Timely).Reachable s) :
    NoneForgotten s ∧ ∀ t, StartStep numSchedInsDel s t → Timely s t → ResetByPush s t := by
  have booted := booted_reachable reached
  refine ⟨none_forgotten booted, ?_⟩
  intro t step timely
  exact reset_step booted step timely

section Lone

theorem timely_same {s t : StartState workers} (same : t.senderReady = s.senderReady) : Timely s t := by
  intro worker asleep awake
  rw [same] at awake
  cases asleep.symm.trans awake

variable {hand next : State 0} {receiverReady senderReady : Worker 0 → Bool}

theorem startUp_hand
    (reached : ((startUp 0 numSchedInsDel).within Timely).Reachable ⟨hand, receiverReady, senderReady, true⟩)
    (step : Step numSchedInsDel hand next) (asleep : next.senders = hand.senders) :
    ((startUp 0 numSchedInsDel).within Timely).Reachable ⟨next, receiverReady, senderReady, true⟩ := by
  refine reached.step ⟨.hand _ _ step (fun _ => rfl) ?_, timely_same rfl⟩
  intro worker changed
  exact absurd (congrFun asleep worker) changed

/-- The receiver of a single worker is ready; its sender may still be asleep. -/
def readyState (numSchedInsDel : Nat) (launched : Bool) : StartState 0 :=
  { hand := restingHand numSchedInsDel 0 (-1)
    receiverReady := fun _ => true
    senderReady := fun _ => false
    launched := launched }

theorem readyState_reachable (numSchedInsDel : Nat) (launched : Bool) :
    ((startUp 0 numSchedInsDel).within Timely).Reachable (readyState numSchedInsDel launched) := by
  have start : ((startUp 0 numSchedInsDel).within Timely).Reachable
      ⟨restingHand numSchedInsDel 0 (-1), fun _ => false, fun _ => false, false⟩ :=
    .initial ⟨⟨_, rfl⟩, fun _ => ⟨rfl, rfl⟩, rfl⟩
  have received := start.step ⟨.receiverInit _ 0 rfl, timely_same rfl⟩
  have ready : ((startUp 0 numSchedInsDel).within Timely).Reachable (readyState numSchedInsDel false) := by
    simp only [StartState.receiverInit, State.setBatch, update_lone] at received
    exact received
  cases launched with
  | false => exact ready
  | true => exact ready.step ⟨.launch _ rfl fun _ => rfl, timely_same rfl⟩

/-- The buffer of round 0 has been given to a sender that is not there yet. -/
theorem givenState_reachable : ((startUp 0 0).within Timely).Reachable
    ⟨lone ⟨1, 0, 2, -1, -1, 0⟩ .waiting (.pop 0) 0 1, fun _ => true, fun _ => false, true⟩ := by
  have popped := startUp_hand (readyState_reachable 0 true) (lone_pop rfl) rfl
  have taken := startUp_hand popped lone_take rfl
  have ran := startUp_hand taken lone_kernels rfl
  exact startUp_hand ran (lone_give rfl) rfl

theorem start_up_keeps_buffers_given :
    Kept (lone ⟨1, 0, 2, -1, -1, 0⟩ .waiting (.pop 0) 0 1) 0 0 :=
  ((start_up_keeps_buffers givenState_reachable).1 rfl).1 0 0

/-- A late sender wipes out what has been handed over to it. -/
theorem late_sender_forgets : ∃ s : StartState 0, (startUp 0 0).Reachable s ∧ ¬ NoneForgotten s := by
  have woken := givenState_reachable.forget.step (.senderInit _ 0 rfl)
  have state : (startUp 0 0).Reachable
      ⟨lone ⟨1, -1, 2, -1, -1, 0⟩ .waiting (.pop 0) 0 1, fun _ => true, fun _ => true, true⟩ := by
    simpa only [StartState.senderInit, State.setBatch, megaSenderInit, update_lone, lone] using woken
  refine ⟨_, state, ?_⟩
  intro kept
  have place := (kept rfl).1 0 0
  simp [Kept, lone] at place

end Lone

end MegaKV.Scheduler
