import MegaKV.Receiver.Compact

namespace MegaKV.Receiver

open Library Slab

section Transparency

variable (build : Build) (v : View) (key nkey : Nat) (ip : BitVec 32) (port : BitVec 16)

structure Restored (buf left : BatchBuf) : Prop where
  numSearchJob : left.numSearchJob = buf.numSearchJob
  numCompactSearchJob : left.numCompactSearchJob = buf.numCompactSearchJob
  num : ∀ k, 1 ≤ k → k ≤ buf.numCompactSearchJob → left.num k = buf.num k

structure HasSearch (buf left : BatchBuf) : Prop where
  numSearchJob : left.numSearchJob = buf.numSearchJob + 1
  searchIn : ∃ sig, keySig build v key nkey = .ok sig ∧
    left.searchIn buf.numSearchJob = { hash := sigHash sig, sig := sigSign sig }

/-- A GET whose first attempt reads `old`, and `new` behind it, ends as if there had been no first attempt. -/
def Transparent (old new kk : Nat) (r : State) : Prop :=
  ∃ after, searchAttempts build v key nkey ip port [old, new] kk r = .ok (.goesOn nkey (kk + 1) after) ∧
    Restored (r.bufs old) (after.bufs old) ∧ HasSearch build v key nkey (r.bufs new) (after.bufs new) ∧
    after.numSearchJob = r.numSearchJob + 1

end Transparency

section Counts

variable {build : Build} {v : View} {key nkey body last : Nat} {ip : BitVec 32} {port : BitVec 16}

/-- Each attempt counts the request again. -/
theorem searchAttempts_counts {ids : List Nat} {kk : Nat} {r after : State}
    (result : searchAttempts build v key nkey ip port ids kk r = .ok (.goesOn body last after)) :
    last = kk + ids.length ∧ after.numSearchJob = r.numSearchJob + ids.length := by
  induction ids generalizing kk r with
  | nil =>
    cases result
    exact ⟨rfl, rfl⟩
  | cons id again ih =>
    simp only [searchAttempts] at result
    split at result
    · cases result
    · cases read : addSearch build v key nkey ip port (r.bufs id) with
      | error stop =>
        rw [read] at result
        cases result
      | ok added =>
        rw [read] at result
        obtain ⟨returned, counted⟩ := ih result
        rw [List.length_cons, returned, counted]
        exact ⟨by omega, Nat.add_assoc _ _ _ |>.trans (congrArg _ (Nat.add_comm 1 _))⟩

end Counts

section Rollback

variable {build : Build} {v : View} {key nkey : Nat} {ip : BitVec 32} {port : BitVec 16} {buf added : BatchBuf}

def lowered (num : Nat) : Nat := (num + (2 ^ 16 - 1)) % 2 ^ 16

/-- What the rollback leaves, with `num` counted down in the entry `mark` it was given. -/
structure Undone (mark num : Nat) (buf left : BatchBuf) : Prop where
  numSearchJob : left.numSearchJob = buf.numSearchJob - 1
  numCompactSearchJob :
    left.numCompactSearchJob = if num = 0 then buf.numCompactSearchJob - 1 else buf.numCompactSearchJob
  marked : left.num mark = num
  num : ∀ k ≠ mark, left.num k = buf.num k

theorem undoSearch_compact (compact : build.compactJob = true) (mark : Nat) (buf : BatchBuf) :
    Undone mark (lowered (buf.num mark)) buf (undoSearch build mark buf) := by
  have low : ((buf.searchJobList mark).num + (2 ^ 16 - 1)) % 2 ^ 16 = lowered (buf.num mark) := rfl
  rw [undoSearch, if_pos compact]
  simp only [low]
  generalize lowered (buf.num mark) = num
  constructor
  · rfl
  · rfl
  · rw [BatchBuf.num]
    dsimp only
    rw [Function.update_self]
  · intro k other
    rw [BatchBuf.num]
    dsimp only
    rw [Function.update_of_ne other]
    rfl

theorem lowered_raised {num : Nat} (word : num < 2 ^ 16) : lowered ((num + 1) % 2 ^ 16) = num := by
  unfold lowered
  omega

theorem lowered_zero {num : Nat} (word : num < 2 ^ 16) : lowered num = 0 ↔ num = 1 := by
  unfold lowered
  omega

/-- When the rollback does what it is for: an entry of the list has been extended that had a search before,
    or there is no list yet, and the slot in front of it happens to count one search. -/
def RollsBack (buf : BatchBuf) (client : Client) : Prop :=
  if buf.client buf.numCompactSearchJob = client then buf.num buf.numCompactSearchJob ≠ 0 ∨ buf.numCompactSearchJob = 0
  else buf.numCompactSearchJob = 0 ∧ buf.num 0 = 1

theorem extended_undone (compact : build.compactJob = true) (word : buf.num buf.numCompactSearchJob < 2 ^ 16)
    (place : AddedAt buf added buf.numCompactSearchJob (extended buf)) :
    Restored buf (undoSearch build buf.numCompactSearchJob added) ↔
      buf.num buf.numCompactSearchJob ≠ 0 ∨ buf.numCompactSearchJob = 0 := by
  have undone := undoSearch_compact compact buf.numCompactSearchJob added
  have marked := undone.marked
  have count := undone.numCompactSearchJob
  have raised : added.num buf.numCompactSearchJob = (buf.num buf.numCompactSearchJob + 1) % 2 ^ 16 := by
    rw [BatchBuf.num, place.list, Function.update_self]
    rfl
  rw [raised, lowered_raised word] at marked count
  rw [place.numCompactSearchJob] at count
  constructor
  · intro restored
    rw [restored.numCompactSearchJob] at count
    split at count
    · right
      omega
    · left
      assumption
  · intro kept
    constructor
    · rw [undone.numSearchJob, place.numSearchJob, Nat.add_sub_cancel]
    · rw [count]
      split
      · omega
      · rfl
    · intro k _ _
      by_cases here : k = buf.numCompactSearchJob
      · rw [here, marked]
      · rw [undone.num k here, BatchBuf.num, place.list, Function.update_of_ne here]
        rfl

theorem opened_undone (compact : build.compactJob = true) (word : buf.num buf.numCompactSearchJob < 2 ^ 16)
    {ethAddr : BitVec 48} (place : AddedAt buf added (buf.numCompactSearchJob + 1) (opened buf ethAddr ip port)) :
    Restored buf (undoSearch build buf.numCompactSearchJob added) ↔
      buf.numCompactSearchJob = 0 ∧ buf.num 0 = 1 := by
  have undone := undoSearch_compact compact buf.numCompactSearchJob added
  have marked := undone.marked
  have count := undone.numCompactSearchJob
  have kept : added.num buf.numCompactSearchJob = buf.num buf.numCompactSearchJob := by
    rw [BatchBuf.num, place.list, Function.update_of_ne (Nat.succ_ne_self _).symm]
    rfl
  rw [kept] at marked count
  simp only [place.numCompactSearchJob, Nat.add_sub_cancel, lowered_zero word] at count
  constructor
  · intro restored
    rw [restored.numCompactSearchJob] at count
    have one : buf.num buf.numCompactSearchJob = 1 := by
      by_contra other
      rw [if_neg other] at count
      omega
    have empty : buf.numCompactSearchJob = 0 := by
      by_contra some
      have last := restored.num buf.numCompactSearchJob (Nat.pos_of_ne_zero some) (Nat.le_refl _)
      rw [marked, one] at last
      cases last
    rw [empty] at one
    exact ⟨empty, one⟩
  · intro first
    obtain ⟨empty, one⟩ := first
    constructor
    · rw [undone.numSearchJob, place.numSearchJob, Nat.add_sub_cancel]
    · rw [count, empty, if_pos one]
    · intro k positive inside
      omega

theorem rollback_restores_iff (compact : build.compactJob = true) (word : buf.num buf.numCompactSearchJob < 2 ^ 16)
    (result : addSearch build v key nkey ip port buf = .ok added) :
    Restored buf (undoSearch build buf.numCompactSearchJob added) ↔ RollsBack buf (ip, port) := by
  rcases addSearch_compact compact result with ⟨same, place⟩ | ⟨differs, ethAddr, place⟩
  · rw [RollsBack, if_pos same]
    exact extended_undone compact word place
  · rw [RollsBack, if_neg differs]
    exact opened_undone compact word place

end Rollback

section Retry

variable {build : Build} {v : View} {key nkey old new kk : Nat} {ip : BitVec 32} {port : BitVec 16} {r : State}
  {added : BatchBuf}

theorem not_transparent : ¬Transparent build v key nkey ip port old new kk r := by
  intro transparent
  obtain ⟨after, result, _, _, _⟩ := transparent
  have returned := (searchAttempts_counts result).1
  rw [List.length_cons, List.length_singleton] at returned
  omega

/-- The second attempt behind a first one that has been rolled back. -/
theorem searchAttempts_swapped (room : (r.bufs old).numSearchJob < batchMaxSearchJob - 1)
    (result : addSearch build v key nkey ip port (r.bufs old) = .ok added) :
    searchAttempts build v key nkey ip port [old, new] kk r =
      searchAttempts build v key nkey ip port [new] (kk + 1)
        { r.setBuf old (undoSearch build (r.bufs old).numCompactSearchJob added) with
          numSearchJob := r.numSearchJob + 1 } := by
  rw [searchAttempts, if_neg (Nat.not_le.mpr room), result]
  rfl

/-- The retry counts the request twice, whether it finds room or not; only the rollback may succeed. -/
theorem swap_never_transparent (compact : build.compactJob = true)
    (word : (r.bufs old).num (r.bufs old).numCompactSearchJob < 2 ^ 16)
    (room : (r.bufs old).numSearchJob < batchMaxSearchJob - 1)
    (result : addSearch build v key nkey ip port (r.bufs old) = .ok added) :
    ¬Transparent build v key nkey ip port old new kk r ∧
      (Restored (r.bufs old) (undoSearch build (r.bufs old).numCompactSearchJob added) ↔
        RollsBack (r.bufs old) (ip, port)) ∧
      ∀ outcome, searchAttempts build v key nkey ip port [old, new] kk r = .ok outcome →
        (∃ after, outcome = .returns (-1) after ∧ after.numSearchJob = r.numSearchJob + 1) ∨
          ∃ after, outcome = .goesOn nkey (kk + 2) after ∧ after.numSearchJob = r.numSearchJob + 2 := by
  refine ⟨not_transparent, rollback_restores_iff compact word result, ?_⟩
  intro outcome attempted
  rw [searchAttempts_swapped room result] at attempted
  rcases searchAttempts_once attempted with ⟨_, full⟩ | ⟨_, again, _, taken⟩
  · exact .inl ⟨_, full, rfl⟩
  · exact .inr ⟨_, taken, rfl⟩

/-- Two buffers, each with one search of another client. -/
def searchedBuf : BatchBuf :=
  { emptyBuf with
    searchJobList := fun k => if k = 1 then { emptyBuf.searchJobList 1 with ip := 2, port := 2, num := 1 }
      else emptyBuf.searchJobList k
    numCompactSearchJob := 1
    numSearchJob := 1 }

def oneGet : Nat → Byte := fun k => if k = 0 then 8 else 0

def searchedState : State := { askedState with bufs := fun _ => searchedBuf }

theorem searchedState_added : ∃ added,
    addSearch defaultBuild (.whole oneGet) 2 8 1 1 (searchedState.bufs 0) = .ok added := ⟨_, rfl⟩

theorem swap_never_transparent_stranger : ¬Transparent defaultBuild (.whole oneGet) 2 8 1 1 0 1 0 searchedState := by
  obtain ⟨added, result⟩ := searchedState_added
  exact (@swap_never_transparent defaultBuild (.whole oneGet) 2 8 0 1 0 1 1 searchedState added rfl
    (by decide) (by decide) result).1

theorem stranger_not_transparent :
    (searchedState.bufs 0).numSearchJob < batchMaxSearchJob - 1 ∧
      ¬Transparent defaultBuild (.whole oneGet) 2 8 1 1 0 1 0 searchedState ∧
      ∀ added, addSearch defaultBuild (.whole oneGet) 2 8 1 1 (searchedState.bufs 0) = .ok added →
        ¬Restored (searchedState.bufs 0) (undoSearch defaultBuild 1 added) := by
  refine ⟨by decide, not_transparent, ?_⟩
  intro added result
  change ¬Restored _ (undoSearch defaultBuild (searchedState.bufs 0).numCompactSearchJob added)
  rw [rollback_restores_iff rfl (by decide) result, RollsBack, if_neg (by decide)]
  decide

end Retry

end MegaKV.Receiver
