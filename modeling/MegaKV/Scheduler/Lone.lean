import MegaKV.Scheduler.Countdown

namespace MegaKV.Scheduler

def lone (batch : Batch) (sender : SenderPc) (pc : SchedulerPc 0) (schedInsDel round : Nat) : State 0 :=
  { batchSet := fun _ => batch, senders := fun _ => sender, pc := pc, schedInsDel := schedInsDel, round := round }

theorem update_lone {Value : Type} (f : Worker 0 → Value) (value : Value) :
    Function.update f 0 value = fun _ => value := by
  funext worker
  have only : worker = 0 := Fin.ext (Nat.lt_one_iff.mp worker.isLt)
  rw [only, Function.update_self]

theorem following_lone : following (0 : Worker 0) = none := rfl

section Steps

variable {numSchedInsDel : Nat} {batch pushed : Batch} {sender : SenderPc} {pc : SchedulerPc 0} {schedInsDel round : Nat}

theorem lone_pop (idle : batch.gpuBufId = -1) :
    Step numSchedInsDel (lone batch sender (.pop 0) schedInsDel round)
      (lone (megaGpuGetAvailableBufId batch).2 sender (.take 0 (megaGpuGetAvailableBufId batch).1)
        schedInsDel round) := by
  have step : Step numSchedInsDel _ _ := .pop (lone batch sender (.pop 0) schedInsDel round) 0 rfl idle
  simpa only [lone, State.setBatch, update_lone] using step

theorem lone_take {availableBufId : Int} :
    Step numSchedInsDel (lone batch sender (.take 0 availableBufId) schedInsDel round)
      (lone (megaGpuTakeBatch batch availableBufId) sender (.kernels batch.receiverBufId) schedInsDel round) := by
  have step : Step numSchedInsDel _ _ := .take (lone batch sender (.take 0 availableBufId) schedInsDel round) 0 _ rfl
  simpa only [lone, State.setBatch, update_lone, afterTake, following_lone, megaGpuTakeBatch] using step

theorem lone_kernels {gpuBufId : Int} :
    Step numSchedInsDel (lone batch sender (.kernels gpuBufId) schedInsDel round)
      (lone batch sender (.give 0) (nextSchedInsDel numSchedInsDel schedInsDel) round) :=
  .kernels _ gpuBufId rfl

theorem lone_give (free : batch.senderBufId = -1) :
    Step numSchedInsDel (lone batch sender (.give 0) schedInsDel round)
      (lone (megaGpuGiveToSender batch numSchedInsDel schedInsDel) sender (.pop 0) schedInsDel (round + 1)) := by
  have step : Step numSchedInsDel _ _ := .give (lone batch sender (.give 0) schedInsDel round) 0 rfl free
  simpa only [lone, State.setBatch, update_lone, State.afterGive, following_lone] using step

theorem lone_get (given : batch.senderBufId ≠ -1) :
    Step numSchedInsDel (lone batch .waiting pc schedInsDel round) (lone batch .holding pc schedInsDel round) := by
  have step : Step numSchedInsDel _ _ := .get (lone batch .waiting pc schedInsDel round) 0 rfl given
  simpa only [lone, State.setSender, update_lone] using step

theorem lone_clear :
    Step numSchedInsDel (lone batch .pushed pc schedInsDel round)
      (lone (megaSenderClear batch) .waiting pc schedInsDel round) := by
  have step : Step numSchedInsDel _ _ := .clear (lone batch .pushed pc schedInsDel round) 0 rfl
  simpa only [lone, State.setBatch, State.setSender, update_lone] using step

end Steps

section Rounds

variable (numSchedInsDel r : Nat)

def delayAfter : Int := if schedInsDelAt numSchedInsDel (r + 1) = numSchedInsDel then 0 else 1

def restingHand (delay : Int) : State 0 :=
  lone ⟨slot r, -1, slot (r + 1), slot (r + 2), -1, delay⟩ .waiting (.pop 0) (schedInsDelAt numSchedInsDel r) r

def takenHand (delay : Int) : State 0 :=
  lone ⟨slot (r + 1), -1, slot (r + 2), -1, slot r, delay⟩ .waiting (.kernels (slot r))
    (schedInsDelAt numSchedInsDel r) r

def ranHand (delay : Int) : State 0 :=
  lone ⟨slot (r + 1), -1, slot (r + 2), -1, slot r, delay⟩ .waiting (.give 0)
    (schedInsDelAt numSchedInsDel (r + 1)) r

def heldBatch : Batch := ⟨slot (r + 1), slot r, slot (r + 2), -1, -1, delayAfter numSchedInsDel r⟩

def heldHand : State 0 := lone (heldBatch numSchedInsDel r) .holding (.pop 0) (schedInsDelAt numSchedInsDel (r + 1)) (r + 1)

theorem heldBatch_push : megaSenderPushBuffer (heldBatch numSchedInsDel r) =
    some { heldBatch numSchedInsDel r with availableBufId1 := slot r } := by
  rw [megaSenderPushBuffer, heldBatch, if_neg (slot_ne_neg_one _), if_pos rfl]

end Rounds

end MegaKV.Scheduler
