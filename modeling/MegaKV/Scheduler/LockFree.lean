import MegaKV.Scheduler.Lone

namespace MegaKV.Scheduler

open Library

/-- `mega_gpu_get_available_buf_id` without USE_LOCK; `none` is its assertion. -/
def megaGpuGetAvailableBufIdFree (batch : Batch) : Option (Int × Batch) :=
  if batch.availableBufId0 ≠ -1 then some (batch.availableBufId0, { batch with availableBufId0 := -1 })
  else if batch.availableBufId1 ≠ -1 then some (batch.availableBufId1, { batch with availableBufId1 := -1 })
  else none

def senderReturned (batch : Batch) (sender : SenderPc) : Bool :=
  decide (sender = .pushed) || decide (batch.senderBufId = -1)

section System

variable (workers : Nat)

/-- The hand-off with its history: by round and worker whether the last buffer was back at the pop,
    the buffer taken, and by round the buffer processed. -/
structure FreeState where
  hand : State workers
  returned : Worker workers → Nat → Bool
  taken : Nat → Worker workers → Int
  processed : Nat → Int

end System

variable {workers numSchedInsDel : Nat}

def FreeState.pop (s : FreeState workers) (worker : Worker workers) (availableBufId : Int) (batch : Batch) :
    FreeState workers :=
  { s with
    hand := { s.hand.setBatch worker batch with pc := .take worker availableBufId }
    returned := Function.update s.returned worker
      (Function.update (s.returned worker) s.hand.round
        (senderReturned (s.hand.batchSet worker) (s.hand.senders worker))) }

attribute [local instance (high)] Nat.instNeZeroSucc in
def FreeState.kernels (numSchedInsDel : Nat) (s : FreeState workers) (gpuBufId : Int) : FreeState workers :=
  { s with
    hand := { s.hand with pc := .give 0, schedInsDel := nextSchedInsDel numSchedInsDel s.hand.schedInsDel }
    taken := Function.update s.taken s.hand.round fun worker => (s.hand.batchSet worker).gpuBufId
    processed := Function.update s.processed s.hand.round gpuBufId }

/-- All but the pop is as in the build with USE_LOCK. -/
inductive FreeStep (numSchedInsDel : Nat) : FreeState workers → FreeState workers → Prop where
  | pop (s : FreeState workers) (worker : Worker workers) (availableBufId : Int) (batch : Batch)
      (turn : s.hand.pc = .pop worker) (idle : (s.hand.batchSet worker).gpuBufId = -1)
      (popped : megaGpuGetAvailableBufIdFree (s.hand.batchSet worker) = some (availableBufId, batch)) :
      FreeStep numSchedInsDel s (s.pop worker availableBufId batch)
  | kernels (s : FreeState workers) (gpuBufId : Int) (turn : s.hand.pc = .kernels gpuBufId) :
      FreeStep numSchedInsDel s (s.kernels numSchedInsDel gpuBufId)
  | hand (s : FreeState workers) (t : State workers) (step : Step numSchedInsDel s.hand t)
      (noPop : ∀ worker, s.hand.pc = .pop worker → t.pc = .pop worker)
      (noKernels : ∀ gpuBufId, s.hand.pc = .kernels gpuBufId → t.pc = .kernels gpuBufId) :
      FreeStep numSchedInsDel s { s with hand := t }

def freeHandOff (workers numSchedInsDel : Nat) : TransitionSystem (FreeState workers) :=
  { initial := fun s => s.hand = initialState workers numSchedInsDel
    step := FreeStep numSchedInsDel }

/-- In every round so far the buffer processed for a worker is the one taken from it. -/
def Together (s : FreeState workers) : Prop :=
  ∀ r < countedRound s.hand, ∀ worker, bufs workers (s.processed r) worker = (worker, s.taken r worker)

section Spin

/-- The three buffers of one worker before a round: at the receiver, given last, and the third one,
    which may be in the second slot of the list. -/
structure Spin where
  current : Int
  previous : Int
  third : Int
  second : Bool

def Spin.start : Spin := { current := 0, previous := 2, third := 1, second := false }

def Spin.next (spin : Spin) (returned : Bool) : Spin :=
  if spin.second && returned then ⟨spin.previous, spin.current, spin.third, returned⟩
  else ⟨spin.third, spin.current, spin.previous, returned⟩

def spinAt (returned : Nat → Bool) : Nat → Spin
  | 0 => .start
  | r + 1 => (spinAt returned r).next (returned r)

/-- The pop of round `r` takes the buffer given last: it was back, as the one before had been at the pop before. -/
def backward (returned : Nat → Bool) : Nat → Bool
  | 0 => false
  | r + 1 => returned r && returned (r + 1)

structure Spin.Valid (spin : Spin) : Prop where
  current : spin.current ≠ -1
  previous : spin.previous ≠ -1
  third : spin.third ≠ -1
  apart : spin.previous ≠ spin.third
  fromPrevious : spin.current ≠ spin.previous
  fromThird : spin.current ≠ spin.third

structure Spin.Same (left right : Spin) : Prop where
  current : left.current = right.current
  previous : left.previous = right.previous
  third : left.third = right.third

variable {returned other : Nat → Bool}

theorem spin_next_second (spin : Spin) (back : Bool) : (spin.next back).second = back := by
  unfold Spin.next
  split <;> rfl

theorem spin_next_previous (spin : Spin) (back : Bool) : (spin.next back).previous = spin.current := by
  unfold Spin.next
  split <;> rfl

theorem spinAt_backward (returned : Nat → Bool) (r : Nat) :
    ((spinAt returned r).second && returned r) = backward returned r := by
  cases r with
  | zero => rfl
  | succ r => rw [spinAt, spin_next_second, backward]

theorem spinAt_succ (returned : Nat → Bool) (r : Nat) : spinAt returned (r + 1) =
    if backward returned r then
      ⟨(spinAt returned r).previous, (spinAt returned r).current, (spinAt returned r).third, returned r⟩
    else ⟨(spinAt returned r).third, (spinAt returned r).current, (spinAt returned r).previous, returned r⟩ := by
  rw [← spinAt_backward]
  rfl

theorem spinAt_congr (r : Nat) (same : ∀ i < r, returned i = other i) : spinAt returned r = spinAt other r := by
  induction r with
  | zero => rfl
  | succ r before =>
    rw [spinAt, spinAt, before fun i inside => same i (Nat.lt_succ_of_lt inside), same r (Nat.lt_succ_self r)]

theorem spinAt_same (r : Nat) (alike : ∀ i < r, backward returned i = backward other i) :
    (spinAt returned r).Same (spinAt other r) := by
  induction r with
  | zero => exact ⟨rfl, rfl, rfl⟩
  | succ r before =>
    obtain ⟨current, previous, third⟩ := before fun i inside => alike i (Nat.lt_succ_of_lt inside)
    rw [spinAt_succ, spinAt_succ, alike r (Nat.lt_succ_self r)]
    split
    · exact ⟨previous, current, third⟩
    · exact ⟨third, current, previous⟩

theorem spinAt_valid (returned : Nat → Bool) (r : Nat) : (spinAt returned r).Valid := by
  induction r with
  | zero =>
    have start : spinAt returned 0 = .start := rfl
    rw [start]
    exact ⟨by decide, by decide, by decide, by decide, by decide, by decide⟩
  | succ r before =>
    obtain ⟨current, previous, third, apart, fromPrevious, fromThird⟩ := before
    rw [spinAt_succ]
    split
    · exact ⟨previous, current, third, fromThird, fromPrevious.symm, apart⟩
    · exact ⟨third, current, previous, fromPrevious, fromThird.symm, apart.symm⟩

/-- Where two workers turn differently, they are apart in the next round. -/
theorem spinAt_apart (r : Nat) (same : (spinAt returned r).Same (spinAt other r))
    (differ : backward returned r ≠ backward other r) :
    (spinAt returned (r + 1)).current ≠ (spinAt other (r + 1)).current := by
  have apart := (spinAt_valid returned r).apart
  rw [spinAt_succ, spinAt_succ]
  cases left : backward returned r with
  | false =>
    cases right : backward other r with
    | false => exact absurd (left.trans right.symm) differ
    | true =>
      intro equal
      exact apart (same.previous.trans equal.symm)
  | true =>
    cases right : backward other r with
    | false =>
      intro equal
      exact apart (equal.trans same.third.symm)
    | true => exact absurd (left.trans right.symm) differ

end Spin

section Local

/-- The buffer given last: with the sender, pushed but not cleared, or back in its slot. -/
inductive Back (id : Int) : (available sender : Int) → SenderPc → Prop where
  | back : Back id id (-1) .waiting
  | waiting : Back id (-1) id .waiting
  | holding : Back id (-1) id .holding
  | pushed : Back id id id .pushed

inductive Quiet : (sender : Int) → SenderPc → Prop where
  | cleared : Quiet (-1) .waiting
  | pushed (sender : Int) (valid : sender ≠ -1) : Quiet sender .pushed

inductive Before (spin : Spin) : Batch → SenderPc → Prop where
  | first (available sender delay : Int) (pc : SenderPc) (second : spin.second = false)
      (trailing : Back spin.previous available sender pc) :
      Before spin ⟨spin.current, sender, spin.third, available, -1, delay⟩ pc
  | second (available sender delay : Int) (pc : SenderPc) (second : spin.second = true)
      (trailing : Back spin.previous available sender pc) :
      Before spin ⟨spin.current, sender, available, spin.third, -1, delay⟩ pc

inductive After (spin : Spin) (receiverBufId gpuBufId : Int) : Batch → SenderPc → Prop where
  | early (sender delay : Int) (pc : SenderPc) (second : spin.second = true) (quiet : Quiet sender pc) :
      After spin receiverBufId gpuBufId ⟨receiverBufId, sender, -1, spin.third, gpuBufId, delay⟩ pc
  | late (available sender delay : Int) (pc : SenderPc) (second : spin.second = false)
      (trailing : Back spin.third available sender pc) :
      After spin receiverBufId gpuBufId ⟨receiverBufId, sender, available, -1, gpuBufId, delay⟩ pc

variable {spin : Spin} {batch : Batch} {pc : SenderPc} {receiverBufId gpuBufId : Int}

theorem pop_first {batch : Batch} (filled : batch.availableBufId0 ≠ -1) :
    megaGpuGetAvailableBufIdFree batch = some (batch.availableBufId0, { batch with availableBufId0 := -1 }) :=
  if_pos filled

theorem pop_second {batch : Batch} (vacant : batch.availableBufId0 = -1) (filled : batch.availableBufId1 ≠ -1) :
    megaGpuGetAvailableBufIdFree batch = some (batch.availableBufId1, { batch with availableBufId1 := -1 }) := by
  rw [megaGpuGetAvailableBufIdFree, if_neg (not_not.mpr vacant), if_pos filled]

theorem Back.returned {id available sender : Int} (valid : id ≠ -1) (trailing : Back id available sender pc) :
    (available = id ∧ Quiet sender pc ∧ (decide (pc = .pushed) || decide (sender = -1)) = true) ∨
      (available = -1 ∧ (decide (pc = .pushed) || decide (sender = -1)) = false) := by
  cases trailing with
  | back => exact .inl ⟨rfl, .cleared, rfl⟩
  | waiting => exact .inr ⟨rfl, by simp [valid]⟩
  | holding => exact .inr ⟨rfl, by simp [valid]⟩
  | pushed => exact .inl ⟨rfl, .pushed id valid, rfl⟩

theorem Before.pop (valid : spin.Valid) (before : Before spin batch pc) :
    ∃ after, megaGpuGetAvailableBufIdFree batch = some ((spin.next (senderReturned batch pc)).current, after) ∧
      After (spin.next (senderReturned batch pc)) spin.current (-1) after pc := by
  cases before with
  | first available sender delay _ second trailing =>
    have popped : megaGpuGetAvailableBufIdFree ⟨spin.current, sender, spin.third, available, -1, delay⟩ = _ :=
      pop_first valid.third
    have next : ∀ returned, spin.next returned = ⟨spin.third, spin.current, spin.previous, returned⟩ := by
      intro returned
      rw [Spin.next, second]
      rfl
    refine ⟨_, popped.trans (by rw [next]), ?_⟩
    rw [next]
    rcases trailing.returned valid.previous with ⟨rfl, quiet, returned⟩ | ⟨rfl, returned⟩
    · exact .early sender delay pc returned quiet
    · exact .late (-1) sender delay pc returned trailing
  | second available sender delay _ second trailing =>
    rcases trailing.returned valid.previous with ⟨rfl, quiet, returned⟩ | ⟨rfl, returned⟩
    · have next : spin.next true = ⟨spin.previous, spin.current, spin.third, true⟩ := by
        rw [Spin.next, second]
        rfl
      have value : senderReturned ⟨spin.current, sender, spin.previous, spin.third, -1, delay⟩ pc = true := returned
      rw [value, next]
      exact ⟨_, pop_first valid.previous, .early sender delay pc rfl quiet⟩
    · have next : spin.next false = ⟨spin.third, spin.current, spin.previous, false⟩ := by
        rw [Spin.next, Bool.and_false]
        rfl
      have value : senderReturned ⟨spin.current, sender, -1, spin.third, -1, delay⟩ pc = false := returned
      rw [value, next]
      exact ⟨_, pop_second rfl valid.third, .late (-1) sender delay pc rfl trailing⟩

theorem After.take (after : After spin receiverBufId gpuBufId batch pc) (availableBufId : Int) :
    After spin availableBufId receiverBufId (megaGpuTakeBatch batch availableBufId) pc := by
  cases after with
  | early sender delay _ second quiet => exact .early sender delay pc second quiet
  | late available sender delay _ second trailing => exact .late available sender delay pc second trailing

theorem After.gpu (after : After spin receiverBufId gpuBufId batch pc) : batch.gpuBufId = gpuBufId := by
  cases after with
  | early => rfl
  | late => rfl

theorem Before.gpu (before : Before spin batch pc) : batch.gpuBufId = -1 := by
  cases before with
  | first => rfl
  | second => rfl

theorem After.give (valid : spin.Valid) (after : After spin spin.current spin.previous batch pc)
    (free : batch.senderBufId = -1) (numSchedInsDel schedInsDel : Nat) :
    Before spin (megaGpuGiveToSender batch numSchedInsDel schedInsDel) pc := by
  cases after with
  | early sender delay _ second quiet =>
    cases quiet with
    | cleared => exact .second (-1) spin.previous _ .waiting second .waiting
    | pushed _ given => exact absurd free given
  | late available sender delay _ second trailing =>
    cases trailing with
    | back => exact .first (-1) spin.previous _ .waiting second .waiting
    | waiting => exact absurd free valid.third
    | holding => exact absurd free valid.third
    | pushed => exact absurd free valid.third

theorem Before.get (before : Before spin batch .waiting) (given : batch.senderBufId ≠ -1) :
    Before spin batch .holding := by
  cases before with
  | first available sender delay _ second trailing =>
    cases trailing with
    | back => exact absurd rfl given
    | waiting => exact .first _ _ _ _ second .holding
  | second available sender delay _ second trailing =>
    cases trailing with
    | back => exact absurd rfl given
    | waiting => exact .second _ _ _ _ second .holding

theorem After.get (after : After spin receiverBufId gpuBufId batch .waiting) (given : batch.senderBufId ≠ -1) :
    After spin receiverBufId gpuBufId batch .holding := by
  cases after with
  | early sender delay _ second quiet =>
    cases quiet with
    | cleared => exact absurd rfl given
  | late available sender delay _ second trailing =>
    cases trailing with
    | back => exact absurd rfl given
    | waiting => exact .late _ _ _ _ second .holding

theorem Before.push {pushed : Batch} (valid : spin.Valid) (before : Before spin batch .holding)
    (stored : megaSenderPushBuffer batch = some pushed) : Before spin pushed .pushed := by
  cases before with
  | first available sender delay _ second trailing =>
    cases trailing with
    | holding =>
      rw [megaSenderPushBuffer, if_neg valid.third, if_pos rfl] at stored
      cases stored
      exact .first _ _ _ _ second .pushed
  | second available sender delay _ second trailing =>
    cases trailing with
    | holding =>
      rw [megaSenderPushBuffer, if_pos rfl] at stored
      cases stored
      exact .second _ _ _ _ second .pushed

theorem After.push {pushed : Batch} (after : After spin receiverBufId gpuBufId batch .holding)
    (stored : megaSenderPushBuffer batch = some pushed) : After spin receiverBufId gpuBufId pushed .pushed := by
  cases after with
  | early sender delay _ second quiet => cases quiet
  | late available sender delay _ second trailing =>
    cases trailing with
    | holding =>
      rw [megaSenderPushBuffer, if_pos rfl] at stored
      cases stored
      exact .late _ _ _ _ second .pushed

theorem Before.clear (before : Before spin batch .pushed) : Before spin (megaSenderClear batch) .waiting := by
  cases before with
  | first available sender delay _ second trailing => cases trailing; exact .first _ _ _ _ second .back
  | second available sender delay _ second trailing => cases trailing; exact .second _ _ _ _ second .back

theorem After.clear (after : After spin receiverBufId gpuBufId batch .pushed) :
    After spin receiverBufId gpuBufId (megaSenderClear batch) .waiting := by
  cases after with
  | early sender delay _ second quiet => exact .early _ _ _ second .cleared
  | late available sender delay _ second trailing => cases trailing; exact .late _ _ _ _ second .back

end Local

section Global

def Spins (returned : Nat → Bool) (r : Nat) (current : Phase) (batch : Batch) (pc : SenderPc) : Prop :=
  match current with
  | .idle => Before (spinAt returned r) batch pc
  | .popped => After (spinAt returned (r + 1)) (spinAt returned (r + 1)).previous (-1) batch pc
  | .taken =>
    After (spinAt returned (r + 1)) (spinAt returned (r + 1)).current (spinAt returned (r + 1)).previous batch pc

def PcSpins (s : FreeState workers) : Prop :=
  match s.hand.pc with
  | .take worker availableBufId => availableBufId = (spinAt (s.returned worker) (s.hand.round + 1)).current
  | .kernels gpuBufId => gpuBufId = (spinAt (s.returned (Fin.last workers)) s.hand.round).current
  | _ => True

/-- Each worker rotates by its own history, and the scheduler follows the last worker. -/
structure Spun (s : FreeState workers) : Prop where
  worker : ∀ worker, Spins (s.returned worker) (localRound s.hand.pc s.hand.round worker) (phase s.hand.pc worker)
    (s.hand.batchSet worker) (s.hand.senders worker)
  scheduler : PcSpins s
  history : ∀ r < countedRound s.hand, s.processed r = (spinAt (s.returned (Fin.last workers)) r).current ∧
    ∀ worker, s.taken r worker = (spinAt (s.returned worker) r).current

section Spins

variable {returned : Nat → Bool} {r : Nat} {current : Phase} {batch : Batch}

theorem Spins.get (spins : Spins returned r current batch .waiting) (given : batch.senderBufId ≠ -1) :
    Spins returned r current batch .holding := by
  cases current with
  | idle => exact Before.get spins given
  | popped => exact After.get spins given
  | taken => exact After.get spins given

theorem Spins.push {pushed : Batch} (spins : Spins returned r current batch .holding)
    (stored : megaSenderPushBuffer batch = some pushed) : Spins returned r current pushed .pushed := by
  cases current with
  | idle => exact Before.push (spinAt_valid _ _) spins stored
  | popped => exact After.push spins stored
  | taken => exact After.push spins stored

theorem Spins.clear (spins : Spins returned r current batch .pushed) :
    Spins returned r current (megaSenderClear batch) .waiting := by
  cases current with
  | idle => exact Before.clear spins
  | popped => exact After.clear spins
  | taken => exact After.clear spins

end Spins

variable {s : FreeState workers} {worker : Worker workers}

theorem Spun.local_step {t : FreeState workers} (spun : Spun s) (worker : Worker workers)
    (view : ∀ other, other ≠ worker →
      localRound t.hand.pc t.hand.round other = localRound s.hand.pc s.hand.round other ∧
        phase t.hand.pc other = phase s.hand.pc other)
    (frame : ∀ other, other ≠ worker → t.hand.batchSet other = s.hand.batchSet other ∧
      t.hand.senders other = s.hand.senders other ∧ t.returned other = s.returned other)
    (own : Spins (t.returned worker) (localRound t.hand.pc t.hand.round worker) (phase t.hand.pc worker)
      (t.hand.batchSet worker) (t.hand.senders worker))
    (scheduler : PcSpins t)
    (history : ∀ r < countedRound t.hand, t.processed r = (spinAt (t.returned (Fin.last workers)) r).current ∧
      ∀ worker, t.taken r worker = (spinAt (t.returned worker) r).current) : Spun t := by
  refine ⟨?_, scheduler, history⟩
  intro other
  by_cases same : other = worker
  · subst same
    exact own
  · obtain ⟨batch, sender, returned⟩ := frame other same
    rw [(view other same).1, (view other same).2, batch, sender, returned]
    exact spun.worker other

theorem pop_returned_before (s : FreeState workers) (worker : Worker workers) (availableBufId : Int) (batch : Batch)
    (other : Worker workers) {r : Nat} (before : r ≤ s.hand.round) :
    spinAt ((s.pop worker availableBufId batch).returned other) r = spinAt (s.returned other) r := by
  apply spinAt_congr
  intro i inside
  by_cases same : other = worker
  · subst same
    have earlier : i ≠ s.hand.round := Nat.ne_of_lt (Nat.lt_of_lt_of_le inside before)
    simp only [FreeState.pop, Function.update_self, Function.update_of_ne earlier]
  · simp only [FreeState.pop, Function.update_of_ne same]

theorem Spun.pop (spun : Spun s) {availableBufId : Int} {batch : Batch} (turn : s.hand.pc = .pop worker)
    (popped : megaGpuGetAvailableBufIdFree (s.hand.batchSet worker) = some (availableBufId, batch)) :
    Spun (s.pop worker availableBufId batch) := by
  have spins := spun.worker worker
  simp only [turn, localRound, phase, Fin.lt_irrefl, ite_false] at spins
  obtain ⟨after, value, result⟩ := Before.pop (spinAt_valid _ _) spins
  rw [value] at popped
  obtain ⟨chosen, rfl⟩ := Prod.mk.inj (Option.some.inj popped)
  have now : (s.pop worker availableBufId after).returned worker s.hand.round =
      senderReturned (s.hand.batchSet worker) (s.hand.senders worker) := by
    simp only [FreeState.pop, Function.update_self]
  have next : spinAt ((s.pop worker availableBufId after).returned worker) (s.hand.round + 1) =
      (spinAt (s.returned worker) s.hand.round).next
        (senderReturned (s.hand.batchSet worker) (s.hand.senders worker)) := by
    rw [spinAt, now, pop_returned_before s worker availableBufId after worker (Nat.le_refl _)]
  apply spun.local_step worker
  · intro other different
    simp only [FreeState.pop, State.setBatch, turn, localRound, phase, different, ite_false, and_self]
  · intro other different
    simp only [FreeState.pop, State.setBatch, Function.update_of_ne different, and_self]
  · have own : Spins ((s.pop worker availableBufId after).returned worker) s.hand.round .popped after (s.hand.senders worker) := by
      rw [Spins, next, spin_next_previous]
      exact result
    simpa [FreeState.pop, localRound, phase, State.setBatch] using own
  · exact chosen.symm.trans (congrArg Spin.current next.symm)
  · intro r inside
    have before : r < s.hand.round := inside
    have old := spun.history r (by rw [countedRound, turn]; exact before)
    rw [pop_returned_before s worker availableBufId after _ (Nat.le_of_lt before)]
    refine ⟨old.1, ?_⟩
    intro other
    rw [pop_returned_before s worker availableBufId after _ (Nat.le_of_lt before)]
    exact old.2 other

theorem phase_afterGive {s : State workers} {worker other : Worker workers} (turn : s.pc = .give worker)
    (different : other ≠ worker) : phase (s.afterGive worker).pc other = phase s.pc other := by
  have apart : other.val ≠ worker.val := fun same => different (Fin.ext same)
  rw [turn]
  unfold State.afterGive
  cases more : following worker with
  | some next =>
    have position := following_some more
    have order : other < next ↔ other < worker := by
      simp only [Fin.lt_def]
      omega
    simp only [phase, order]
  | none =>
    have position := following_none more
    have order : other < worker := by
      have bound := other.isLt
      simp only [Fin.lt_def]
      omega
    simp only [phase, order, ite_true, Fin.not_lt_zero, ite_false]

theorem phase_afterGive_self (s : State workers) (worker : Worker workers) :
    phase (s.afterGive worker).pc worker = .idle := by
  unfold State.afterGive
  cases more : following worker with
  | some next =>
    have position := following_some more
    have order : worker < next := by
      simp only [Fin.lt_def]
      omega
    simp only [phase, order, ite_true]
  | none => simp only [phase, Fin.not_lt_zero, ite_false]

theorem following_last {worker : Worker workers} (last : following worker = none) : worker = Fin.last workers :=
  Fin.ext (following_none last)

theorem Spun.take (spun : Spun s) {availableBufId : Int} (turn : s.hand.pc = .take worker availableBufId) :
    Spun { s with
      hand := { s.hand.setBatch worker (megaGpuTakeBatch (s.hand.batchSet worker) availableBufId) with
        pc := afterTake worker (megaGpuTakeBatch (s.hand.batchSet worker) availableBufId) } } := by
  have spins := spun.worker worker
  have value := spun.scheduler
  simp only [PcSpins, turn] at value
  simp only [turn, localRound, phase, Fin.lt_irrefl, ite_false, ite_true] at spins
  have after := After.take spins availableBufId
  apply spun.local_step worker
  · intro other different
    rw [turn]
    exact view_afterTake different _ _ s.hand.round
  · intro other different
    simp only [State.setBatch, Function.update_of_ne different, and_self]
  · have self := view_afterTake_self worker (megaGpuTakeBatch (s.hand.batchSet worker) availableBufId) s.hand.round
    change Spins _ (localRound (afterTake worker _) s.hand.round worker) (phase (afterTake worker _) worker) _ _
    rw [self.1, self.2, Spins, ← value]
    simpa only [State.setBatch, Function.update_self] using after
  · unfold PcSpins afterTake
    cases last : following worker with
    | none =>
      show (megaGpuTakeBatch (s.hand.batchSet worker) availableBufId).gpuBufId = _
      rw [after.gpu, spinAt, spin_next_previous, following_last last]
      rfl
    | some next => trivial
  · have same : countedRound { s.hand.setBatch worker (megaGpuTakeBatch (s.hand.batchSet worker) availableBufId) with
        pc := afterTake worker (megaGpuTakeBatch (s.hand.batchSet worker) availableBufId) } = s.hand.round := by
      unfold countedRound afterTake
      cases following worker with
      | none => rfl
      | some next => rfl
    intro r inside
    rw [same] at inside
    exact spun.history r (by rw [countedRound, turn]; exact inside)

theorem Spun.kernels (spun : Spun s) {gpuBufId : Int} (turn : s.hand.pc = .kernels gpuBufId) :
    Spun (s.kernels numSchedInsDel gpuBufId) := by
  have value := spun.scheduler
  simp only [PcSpins, turn] at value
  have spins : ∀ worker, After (spinAt (s.returned worker) (s.hand.round + 1))
      (spinAt (s.returned worker) (s.hand.round + 1)).current
      (spinAt (s.returned worker) (s.hand.round + 1)).previous (s.hand.batchSet worker) (s.hand.senders worker) := by
    intro worker
    have spins := spun.worker worker
    simp only [turn, localRound, phase] at spins
    exact spins
  refine ⟨?_, trivial, ?_⟩
  · intro worker
    have first : ¬ worker < 0 := Fin.not_lt_zero worker
    simp only [FreeState.kernels, localRound, phase, first, ite_false]
    exact spins worker
  · intro r inside
    have bound : r < s.hand.round + 1 := inside
    by_cases now : r = s.hand.round
    · subst now
      simp only [FreeState.kernels, Function.update_self]
      refine ⟨value, ?_⟩
      intro worker
      rw [(spins worker).gpu, spinAt, spin_next_previous]
    · simp only [FreeState.kernels, Function.update_of_ne now]
      exact spun.history r (by rw [countedRound, turn]; show r < s.hand.round; omega)

theorem Spun.give (spun : Spun s) (turn : s.hand.pc = .give worker) (free : (s.hand.batchSet worker).senderBufId = -1) :
    Spun { s with
      hand := (s.hand.setBatch worker
        (megaGpuGiveToSender (s.hand.batchSet worker) numSchedInsDel s.hand.schedInsDel)).afterGive worker } := by
  have spins := spun.worker worker
  simp only [turn, localRound, phase, Fin.lt_irrefl, ite_false] at spins
  have before := After.give (spinAt_valid _ _) spins free numSchedInsDel s.hand.schedInsDel
  apply spun.local_step worker
  · intro other different
    exact ⟨localRound_afterGive (s := s.hand.setBatch worker _) turn different,
      phase_afterGive (s := s.hand.setBatch worker _) turn different⟩
  · intro other different
    rw [afterGive_batchSet, afterGive_senders]
    simp only [State.setBatch, Function.update_of_ne different, and_self]
  · rw [localRound_afterGive_self, phase_afterGive_self, afterGive_batchSet, afterGive_senders]
    simpa only [Spins, State.setBatch, Function.update_self] using before
  · unfold PcSpins State.afterGive
    cases following worker with
    | none => trivial
    | some next => trivial
  · have same : countedRound ((s.hand.setBatch worker
        (megaGpuGiveToSender (s.hand.batchSet worker) numSchedInsDel s.hand.schedInsDel)).afterGive worker) =
          s.hand.round + 1 := by
      unfold countedRound State.afterGive
      cases following worker with
      | none => rfl
      | some next => rfl
    intro r inside
    rw [same] at inside
    exact spun.history r (by rw [countedRound, turn]; exact inside)

theorem Spun.sender (spun : Spun s) (batch : Batch) (pc : SenderPc)
    (own : Spins (s.returned worker) (localRound s.hand.pc s.hand.round worker) (phase s.hand.pc worker) batch pc) :
    Spun { s with hand := (s.hand.setBatch worker batch).setSender worker pc } := by
  apply spun.local_step worker
  · intro other _
    exact ⟨rfl, rfl⟩
  · intro other different
    simp only [State.setBatch, State.setSender, Function.update_of_ne different, and_self]
  · simpa only [State.setBatch, State.setSender, Function.update_self] using own
  · exact spun.scheduler
  · exact spun.history

theorem spun_step {t : FreeState workers} (spun : Spun s) (step : FreeStep numSchedInsDel s t) : Spun t := by
  cases step with
  | pop worker availableBufId batch turn _ popped => exact spun.pop turn popped
  | kernels gpuBufId turn => exact spun.kernels turn
  | hand t step noPop noKernels =>
    cases step with
    | pop worker turn _ => cases noPop worker turn
    | take worker availableBufId turn => exact spun.take turn
    | kernels gpuBufId turn => cases noKernels gpuBufId turn
    | give worker turn free => exact spun.give turn free
    | get worker turn given =>
      have spins := spun.worker worker
      rw [turn] at spins
      have same : s.hand.setSender worker .holding =
          (s.hand.setBatch worker (s.hand.batchSet worker)).setSender worker .holding := by
        simp only [State.setBatch, Function.update_eq_self]
      rw [same]
      exact spun.sender _ _ (spins.get given)
    | push worker batch turn pushed =>
      have spins := spun.worker worker
      rw [turn] at spins
      exact spun.sender _ _ (spins.push pushed)
    | clear worker turn =>
      have spins := spun.worker worker
      rw [turn] at spins
      exact spun.sender _ _ spins.clear

theorem spun_reachable {s : FreeState workers} (reached : (freeHandOff workers numSchedInsDel).Reachable s) :
    Spun s := by
  apply reached.invariant
  · intro s start
    have hand : s.hand = initialState workers numSchedInsDel := start
    refine ⟨?_, ?_, ?_⟩
    · intro worker
      rw [hand]
      exact Before.first 2 (-1) (-1) .waiting rfl .back
    · rw [PcSpins, hand]
      trivial
    · intro r inside
      rw [hand] at inside
      cases inside
  · intro s t spun step
    exact spun_step spun step

end Global

/-- The workers stay together exactly as long as in each round all of them or none turn backward:
    had the last buffer back at the pop, as the one before at the pop before. -/
theorem lock_free_together_iff {s : FreeState workers}
    (reached : (freeHandOff workers numSchedInsDel).Reachable s) :
    Together s ↔ ∀ r, r + 1 < countedRound s.hand → ∀ left right : Worker workers,
      backward (s.returned left) r = backward (s.returned right) r := by
  have history := (spun_reachable reached).history
  have together_iff : Together s ↔ ∀ r < countedRound s.hand, ∀ worker,
      (spinAt (s.returned worker) r).current = (spinAt (s.returned (Fin.last workers)) r).current := by
    unfold Together
    refine forall_congr' fun r => forall_congr' fun inside => forall_congr' fun worker => ?_
    rw [bufs, (history r inside).1, (history r inside).2 worker, Prod.mk.injEq, eq_comm (a := worker)]
    simp only [true_and, eq_comm]
  rw [together_iff]
  constructor
  · intro together r
    induction r using Nat.strong_induction_on with
    | _ r alike =>
      intro inside left right
      by_contra differ
      have same := spinAt_same r fun i earlier => alike i earlier (by omega) left right
      apply spinAt_apart r same differ
      rw [together (r + 1) inside left, together (r + 1) inside right]
  · intro alike r inside worker
    exact (spinAt_same r fun i earlier => alike i (by omega) worker _).current

section Duo

def DuoReaches (hand : State 1) : Prop :=
  ∃ returned taken processed, (freeHandOff 1 0).Reachable ⟨hand, returned, taken, processed⟩

variable {first second firstPopped secondPopped pushed : Batch} {left right : SenderPc} {pc : SchedulerPc 1} {round : Nat}
  {firstId secondId gpuBufId : Int} {held next : State 1}

theorem DuoReaches.hand (reached : DuoReaches held) (step : Step 0 held next)
    (noPop : ∀ worker, held.pc = .pop worker → next.pc = .pop worker)
    (noKernels : ∀ gpuBufId, held.pc = .kernels gpuBufId → next.pc = .kernels gpuBufId) : DuoReaches next := by
  obtain ⟨returned, taken, processed, run⟩ := reached
  exact ⟨_, _, _, run.step (.hand _ _ step noPop noKernels)⟩

theorem DuoReaches.popFirst (reached : DuoReaches (duo first second left right (.pop 0) round))
    (idle : first.gpuBufId = -1) (pop : megaGpuGetAvailableBufIdFree first = some (firstId, firstPopped)) :
    DuoReaches (duo (megaGpuTakeBatch firstPopped firstId) second left right (.pop 1) round) := by
  obtain ⟨returned, taken, processed, run⟩ := reached
  have popped := run.step (.pop _ 0 firstId firstPopped rfl idle pop)
  simp only [FreeState.pop, duo, State.setBatch, pairOf_first] at popped
  exact .hand ⟨_, _, _, popped⟩ duo_takeFirst (by intro _ turn; cases turn) (by intro _ turn; cases turn)

theorem DuoReaches.popSecond (reached : DuoReaches (duo first second left right (.pop 1) round))
    (idle : second.gpuBufId = -1) (pop : megaGpuGetAvailableBufIdFree second = some (secondId, secondPopped)) :
    DuoReaches (duo first (megaGpuTakeBatch secondPopped secondId) left right
      (.kernels secondPopped.receiverBufId) round) := by
  obtain ⟨returned, taken, processed, run⟩ := reached
  have popped := run.step (.pop _ 1 secondId secondPopped rfl idle pop)
  simp only [FreeState.pop, duo, State.setBatch, pairOf_second] at popped
  exact .hand ⟨_, _, _, popped⟩ duo_takeSecond (by intro _ turn; cases turn) (by intro _ turn; cases turn)

theorem DuoReaches.finish (reached : DuoReaches (duo first second left right (.kernels gpuBufId) round))
    (firstFree : first.senderBufId = -1) (secondFree : second.senderBufId = -1) :
    DuoReaches (duo (megaGpuGiveToSender first 0 0) (megaGpuGiveToSender second 0 0) left right (.pop 0)
      (round + 1)) := by
  obtain ⟨returned, taken, processed, run⟩ := reached
  have ran : DuoReaches (duo first second left right (.give 0) round) := ⟨_, _, _, run.step (.kernels _ gpuBufId rfl)⟩
  have given := ran.hand (duo_giveFirst firstFree) (by intro _ turn; cases turn) (by intro _ turn; cases turn)
  exact given.hand (duo_giveSecond secondFree) (by intro _ turn; cases turn) (by intro _ turn; cases turn)

theorem DuoReaches.returnFirst (reached : DuoReaches (duo first second .waiting right pc round))
    (given : first.senderBufId ≠ -1) (push : megaSenderPushBuffer first = some pushed) :
    DuoReaches (duo (megaSenderClear pushed) second .waiting right pc round) := by
  have got := reached.hand (duo_getFirst given) (fun _ turn => turn) (fun _ turn => turn)
  have back := got.hand (.push _ 0 pushed rfl push) (fun _ turn => turn) (fun _ turn => turn)
  simp only [duo, State.setBatch, State.setSender, pairOf_first] at back
  exact back.hand duo_clearFirst (fun _ turn => turn) (fun _ turn => turn)

theorem DuoReaches.returnSecond (reached : DuoReaches (duo first second left .waiting pc round))
    (given : second.senderBufId ≠ -1) (push : megaSenderPushBuffer second = some pushed) :
    DuoReaches (duo first (megaSenderClear pushed) left .waiting pc round) := by
  have got := reached.hand (.get _ 1 rfl given) (fun _ turn => turn) (fun _ turn => turn)
  simp only [duo, State.setSender, pairOf_second] at got
  have back := got.hand (.push _ 1 pushed rfl push) (fun _ turn => turn) (fun _ turn => turn)
  simp only [State.setBatch, State.setSender, pairOf_second] at back
  have cleared := back.hand (.clear _ 1 rfl) (fun _ turn => turn) (fun _ turn => turn)
  simp only [State.setBatch, State.setSender, pairOf_second] at cleared
  exact cleared

/-- One sender is back before the second pop, the other is not; in round 2 their workers are apart. -/
theorem duo_apart : DuoReaches
    (duo ⟨2, 1, -1, -1, 0, 0⟩ ⟨0, 1, -1, -1, 2, 0⟩ .waiting .waiting (.kernels 2) 2) := by
  have start : DuoReaches (duo megaReceiverBatchInit megaReceiverBatchInit .waiting .waiting (.pop 0) 0) :=
    ⟨fun _ _ => false, fun _ _ => 0, fun _ => 0, .initial duo_initial.symm⟩
  have zeroth := ((start.popFirst rfl (pop_first (by decide))).popSecond rfl (pop_first (by decide))).finish rfl rfl
  have early := zeroth.returnFirst (by decide) rfl
  have taken := (early.popFirst rfl (pop_first (by decide))).popSecond rfl (pop_second rfl (by decide))
  have first := (taken.returnSecond (by decide) rfl).finish rfl rfl
  exact (first.popFirst rfl (pop_second rfl (by decide))).popSecond rfl (pop_first (by decide))

/-- In round 2 the two have processed different buffers. -/
theorem duo_processed : ∃ s : FreeState 1, (freeHandOff 1 0).Reachable s ∧ countedRound s.hand = 3 ∧ ¬Together s := by
  obtain ⟨returned, taken, processed, run⟩ := duo_apart
  refine ⟨_, run.step (.kernels _ 2 rfl), rfl, ?_⟩
  intro together
  have apart := together 2 (Nat.lt_succ_self 2) 0
  simp only [FreeState.kernels, duo, Function.update_self, bufs, pairOf, ite_true, Prod.mk.injEq, true_and] at apart
  exact absurd apart (by decide)

theorem lock_free_together_iff_apart : ∃ s : FreeState 1, (freeHandOff 1 0).Reachable s ∧ ¬Together s ∧
    ∃ r < 2, ∃ left right : Worker 1, backward (s.returned left) r ≠ backward (s.returned right) r := by
  obtain ⟨s, run, rounds, apart⟩ := duo_processed
  refine ⟨s, run, apart, ?_⟩
  by_contra alike
  apply apart
  apply (lock_free_together_iff run).mpr
  intro r inside left right
  rw [rounds] at inside
  by_contra different
  exact alike ⟨r, Nat.lt_of_succ_lt_succ inside, left, right, different⟩

theorem lock_free_diverges : ∃ s : FreeState 1, (freeHandOff 1 0).Reachable s ∧ ¬ Together s := by
  obtain ⟨s, run, _, apart⟩ := duo_processed
  exact ⟨s, run, apart⟩

end Duo

end MegaKV.Scheduler
