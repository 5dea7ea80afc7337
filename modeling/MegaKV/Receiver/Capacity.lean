import MegaKV.Receiver.Compact

namespace MegaKV.Receiver

open Library Slab
open Scheduler (numInsertBuf insertBlockId_lt)

section Jobs

variable (build : Build)

/-- The buffers of a worker as far as they hold jobs. -/
structure JobBufs where
  bufs : Nat → BatchBuf
  deletes : DeleteBufs

def State.jobBufs (r : State) : JobBufs := { bufs := r.bufs, deletes := r.batch.buf }

def JobBufs.refresh (s : JobBufs) (id : Nat) (delay : Int) : JobBufs :=
  { bufs := Function.update s.bufs id ((s.bufs id).refresh delay)
    deletes := if delay = 0 then Function.update s.deletes id { s.deletes id with numDeleteJob := 0 } else s.deletes }

/-- One job is added with one attempt, or a buffer is refreshed. -/
inductive JobStep : JobBufs → JobBufs → Prop where
  | search (v : View) (key nkey : Nat) (ip : BitVec 32) (port : BitVec 16) (id kk : Nat) (r : State) (outcome : Outcome)
      (result : searchAttempts build v key nkey ip port [id] kk r = .ok outcome) :
      JobStep r.jobBufs outcome.state.jobBufs
  | delete (s : JobBufs) (offset : Nat) (it : Item) (id : Nat) (deletes : DeleteBufs) (left : Bool)
      (result : recordDelete offset it [id] s.deletes = .ok (deletes, left)) :
      JobStep s { s with deletes := deletes }
  | insert (body : Nat) (it : Ptr) (hash : Hash.HashWord) (sig : Hash.Sign) (id kk : Nat) (r : State) :
      JobStep r.jobBufs (insertAttempts body it hash sig [id] kk r).state.jobBufs
  | refresh (s : JobBufs) (id : Nat) (delay : Int) : JobStep s (s.refresh id delay)

def jobSystem : TransitionSystem JobBufs :=
  { initial := fun s => ∀ id, (s.bufs id).numSearchJob = 0 ∧ (s.bufs id).numCompactSearchJob = 0 ∧
      (s.bufs id).numInsertJob = 0 ∧ (∀ j, ((s.bufs id).insertBuf j).numInsertJob = 0) ∧
      (s.deletes id).numDeleteJob = 0
    step := JobStep build }

end Jobs

section Capacity

structure Counted (buf : BatchBuf) (deletes : DeleteBuf) : Prop where
  search : buf.numSearchJob ≤ batchMaxSearchJob - 1
  compact : buf.numCompactSearchJob ≤ buf.numSearchJob
  delete : deletes.numDeleteJob ≤ batchMaxDeleteJob - 1
  block : ∀ j < numInsertBuf, (buf.insertBuf j).numInsertJob ≤ batchMaxInsertJob - 1
  total : buf.numInsertJob = ∑ j ∈ Finset.range numInsertBuf, (buf.insertBuf j).numInsertJob

def JobBufs.Within (s : JobBufs) : Prop := ∀ id, Counted (s.bufs id) (s.deletes id)

/-- The assertions on the numbers of jobs, as the three functions make them. -/
structure Asserted (buf : BatchBuf) (deletes : DeleteBuf) : Prop where
  delete : deletes.numDeleteJob < batchMaxDeleteJob
  block : ∀ j < numInsertBuf, (buf.insertBuf j).numInsertJob ≤ batchMaxInsertJob
  total : buf.numInsertJob ≤ batchMaxInsertJob * numInsertBuf

structure InBounds (buf buf' : BatchBuf) (deletes deletes' : DeleteBuf) : Prop where
  searchIn : ∀ k, batchMaxSearchJob ≤ k → buf'.searchIn k = buf.searchIn k
  searchJobList : ∀ k, batchMaxSearchJob ≤ k → buf'.searchJobList k = buf.searchJobList k
  deleteIn : ∀ k, batchMaxDeleteJob ≤ k → deletes'.deleteIn k = deletes.deleteIn k
  insertIn : ∀ j k, batchMaxInsertJob ≤ k → (buf'.insertBuf j).insertIn k = (buf.insertBuf j).insertIn k
  insertBuf : ∀ j, numInsertBuf ≤ j → buf'.insertBuf j = buf.insertBuf j
  insertJobList : ∀ k, batchMaxInsertJob * numInsertBuf ≤ k → buf'.insertJobList k = buf.insertJobList k

theorem InBounds.refl (buf : BatchBuf) (deletes : DeleteBuf) : InBounds buf buf deletes deletes :=
  ⟨fun _ _ => rfl, fun _ _ => rfl, fun _ _ => rfl, fun _ _ _ => rfl, fun _ _ => rfl, fun _ _ => rfl⟩

variable {buf added : BatchBuf} {deletes : DeleteBuf}

theorem Counted.asserted (counted : Counted buf deletes) : Asserted buf deletes where
  delete := by
    have bound := counted.delete
    have size : batchMaxDeleteJob ≠ 0 := by decide
    omega
  block := by
    intro j inside
    have bound := counted.block j inside
    omega
  total := by
    rw [counted.total, Nat.mul_comm, ← smul_eq_mul]
    apply Finset.sum_le_card_nsmul _ _ _ _ |>.trans_eq
    · rw [Finset.card_range]
    · intro j inside
      have bound := counted.block j (Finset.mem_range.mp inside)
      omega

end Capacity

section Search

variable {build : Build} {v : View} {key nkey : Nat} {ip : BitVec 32} {port : BitVec 16} {buf added : BatchBuf}
  {deletes : DeleteBuf}

structure SearchAdded (buf added : BatchBuf) : Prop where
  numSearchJob : added.numSearchJob = buf.numSearchJob + 1
  numCompactSearchJob : added.numCompactSearchJob ≤ buf.numCompactSearchJob + 1
  searchJobList : ∃ k job, k ≤ buf.numCompactSearchJob + 1 ∧
    added.searchJobList = Function.update buf.searchJobList k job
  searchIn : ∃ elem, added.searchIn = Function.update buf.searchIn buf.numSearchJob elem
  insertBuf : added.insertBuf = buf.insertBuf
  insertJobList : added.insertJobList = buf.insertJobList
  numInsertJob : added.numInsertJob = buf.numInsertJob

structure JobAdded (buf joined : BatchBuf) : Prop where
  numCompactSearchJob : joined.numCompactSearchJob ≤ buf.numCompactSearchJob + 1
  searchJobList : ∃ k job, k ≤ buf.numCompactSearchJob + 1 ∧
    joined.searchJobList = Function.update buf.searchJobList k job
  searchIn : joined.searchIn = buf.searchIn
  numSearchJob : joined.numSearchJob = buf.numSearchJob
  insertBuf : joined.insertBuf = buf.insertBuf
  insertJobList : joined.insertJobList = buf.insertJobList
  numInsertJob : joined.numInsertJob = buf.numInsertJob

theorem addCompactJob_added (result : addCompactJob v ip port buf = .ok added) : JobAdded buf added := by
  simp only [addCompactJob] at result
  split at result
  · cases result
    exact ⟨Nat.le_succ _, ⟨_, _, Nat.le_succ _, rfl⟩, rfl, rfl, rfl, rfl, rfl⟩
  · cases read : readEthAddr v with
    | error stop =>
      rw [read] at result
      cases result
    | ok ethAddr =>
      rw [read] at result
      cases result
      exact ⟨Nat.le_refl _, ⟨_, _, Nat.le_refl _, rfl⟩, rfl, rfl, rfl, rfl, rfl⟩

theorem addPlainJob_added (result : addPlainJob build v key nkey ip port buf = .ok added) : JobAdded buf added := by
  unfold addPlainJob at result
  cases read : readEthAddr v with
  | error stop =>
    rw [read] at result
    cases result
  | ok ethAddr =>
    simp only [read, bind, Except.bind] at result
    split at result
    · cases result
    · cases result
      exact ⟨Nat.le_refl _, ⟨_, _, Nat.le_succ _, rfl⟩, rfl, rfl, rfl, rfl, rfl⟩

theorem addSearch_added (result : addSearch build v key nkey ip port buf = .ok added) : SearchAdded buf added := by
  obtain ⟨joined, sig, job, rfl⟩ := addSearch_split result
  have entry : JobAdded buf joined := by
    unfold addJob at job
    split at job
    · exact addCompactJob_added job
    · exact addPlainJob_added job
  constructor
  · exact congrArg (· + 1) entry.numSearchJob
  · exact entry.numCompactSearchJob
  · exact entry.searchJobList
  · refine ⟨{ hash := sigHash sig, sig := sigSign sig }, ?_⟩
    rw [← entry.searchIn, ← entry.numSearchJob]
  · exact entry.insertBuf
  · exact entry.insertJobList
  · exact entry.numInsertJob

theorem SearchAdded.counted (step : SearchAdded buf added) (room : buf.numSearchJob < batchMaxSearchJob - 1)
    (counted : Counted buf deletes) : Counted added deletes where
  search := by
    rw [step.numSearchJob]
    exact room
  compact := by
    have entries := counted.compact
    have grown := step.numCompactSearchJob
    rw [step.numSearchJob]
    omega
  delete := counted.delete
  block := by
    rw [step.insertBuf]
    exact counted.block
  total := by
    rw [step.numInsertJob, step.insertBuf]
    exact counted.total

theorem SearchAdded.inBounds (step : SearchAdded buf added) (room : buf.numSearchJob < batchMaxSearchJob - 1)
    (counted : Counted buf deletes) : InBounds buf added deletes deletes where
  searchIn := by
    intro k outside
    obtain ⟨elem, written⟩ := step.searchIn
    rw [written, Function.update_of_ne (by omega)]
  searchJobList := by
    intro k outside
    obtain ⟨place, job, last, written⟩ := step.searchJobList
    have entries := counted.compact
    rw [written, Function.update_of_ne (by omega)]
  deleteIn := fun _ _ => rfl
  insertIn := by
    intro j k _
    rw [step.insertBuf]
  insertBuf := by
    intro j _
    rw [step.insertBuf]
  insertJobList := by
    intro k _
    rw [step.insertJobList]

end Search

section Insert

variable {buf : BatchBuf} {deletes : DeleteBuf} {it : Ptr} {block : Nat} {elem : Hash.IElem}

theorem addInsert_block (j : Nat) :
    ((addInsert buf it block elem).insertBuf j).numInsertJob =
      if j = block then (buf.insertBuf j).numInsertJob + 1 else (buf.insertBuf j).numInsertJob := by
  unfold addInsert
  split
  · rename_i here
    subst here
    dsimp only
    rw [Function.update_self]
  · rename_i other
    dsimp only
    rw [Function.update_of_ne other]

theorem addInsert_counted (inside : block < numInsertBuf)
    (room : (buf.insertBuf block).numInsertJob + 1 < batchMaxInsertJob) (counted : Counted buf deletes) :
    Counted (addInsert buf it block elem) deletes where
  search := counted.search
  compact := counted.compact
  delete := counted.delete
  block := by
    intro j valid
    rw [addInsert_block]
    have bound := counted.block j valid
    split
    · rename_i here
      subst here
      omega
    · exact bound
  total := by
    have sum : ∀ j, ((addInsert buf it block elem).insertBuf j).numInsertJob =
        (buf.insertBuf j).numInsertJob + if j = block then 1 else 0 := by
      intro j
      rw [addInsert_block]
      split <;> rfl
    simp only [sum, Finset.sum_add_distrib, Finset.sum_ite_eq', Finset.mem_range, inside, if_true]
    rw [← counted.total]
    rfl

theorem addInsert_inBounds (inside : block < numInsertBuf)
    (room : buf.numInsertJob < (batchMaxInsertJob - 1) <<< bitsInsertBuf)
    (slot : (buf.insertBuf block).numInsertJob + 1 < batchMaxInsertJob) :
    InBounds buf (addInsert buf it block elem) deletes deletes where
  searchIn := fun _ _ => rfl
  searchJobList := fun _ _ => rfl
  deleteIn := fun _ _ => rfl
  insertIn := by
    intro j k outside
    unfold addInsert
    dsimp only
    by_cases here : j = block
    · subst here
      rw [Function.update_self]
      dsimp only
      rw [Function.update_of_ne (by omega)]
    · rw [Function.update_of_ne here]
  insertBuf := by
    intro j outside
    exact Function.update_of_ne (by omega) _ _
  insertJobList := by
    intro k outside
    have size : (batchMaxInsertJob - 1) <<< bitsInsertBuf ≤ batchMaxInsertJob * numInsertBuf := by decide
    exact Function.update_of_ne (by omega) _ _

end Insert

section Delete

variable {offset id : Nat} {it : Item} {before after : DeleteBufs} {left : Bool}

theorem recordDelete_counts (result : recordDelete offset it [id] before = .ok (after, left)) :
    (∀ other ≠ id, after other = before other) ∧ (∀ k, batchMaxDeleteJob ≤ k → (after id).deleteIn k = (before id).deleteIn k) ∧
      ((before id).numDeleteJob ≤ batchMaxDeleteJob - 1 → (after id).numDeleteJob ≤ batchMaxDeleteJob - 1) := by
  simp only [recordDelete] at result
  split at result
  · cases result
    exact ⟨fun _ _ => rfl, fun _ _ => rfl, fun bound => bound⟩
  · rename_i room
    split at result
    · split at result
      · cases result
        refine ⟨fun _ other => Function.update_of_ne other _ _, ?_, ?_⟩
        · intro k outside
          rw [Function.update_self]
          exact Function.update_of_ne (by omega) _ _
        · intro bound
          rw [Function.update_self]
          exact bound
      · cases result
        refine ⟨fun _ other => Function.update_of_ne other _ _, ?_, ?_⟩
        · intro k outside
          rw [Function.update_self]
          exact Function.update_of_ne (by omega) _ _
        · intro bound
          rw [Function.update_self]
          dsimp only
          omega
    · contradiction

end Delete

section Steps

variable {build : Build} {s t : JobBufs}

theorem refresh_counted {buf : BatchBuf} {deletes : DeleteBuf} (counted : Counted buf deletes) (delay : Int) :
    Counted (buf.refresh delay) (if delay = 0 then { deletes with numDeleteJob := 0 } else deletes) := by
  obtain ⟨searches, entries⟩ := refresh_empty buf delay
  by_cases done : delay = 0
  · have blocks : ∀ j < numInsertBuf, ((buf.refresh delay).insertBuf j).numInsertJob = 0 := by
      intro j inside
      simp only [BatchBuf.refresh, if_pos done, if_pos inside]
    rw [if_pos done]
    constructor
    · rw [searches]
      exact Nat.zero_le _
    · rw [entries]
      exact Nat.zero_le _
    · exact Nat.zero_le _
    · intro j inside
      rw [blocks j inside]
      exact Nat.zero_le _
    · rw [Finset.sum_eq_zero (fun j inside => blocks j (Finset.mem_range.mp inside))]
      simp only [BatchBuf.refresh, if_pos done]
  · rw [if_neg done]
    have kept : buf.refresh delay = { buf with numCompactSearchJob := 0, numSearchJob := 0 } := by
      rw [BatchBuf.refresh, if_neg done]
    rw [kept]
    exact ⟨Nat.zero_le _, Nat.le_refl _, counted.delete, counted.block, counted.total⟩

theorem refresh_deletes (s : JobBufs) (id other : Nat) (delay : Int) :
    (s.refresh id delay).deletes other =
      if other = id then (if delay = 0 then { s.deletes id with numDeleteJob := 0 } else s.deletes id) else s.deletes other := by
  unfold JobBufs.refresh
  by_cases here : other = id
  · subst here
    rw [if_pos rfl]
    split
    · exact Function.update_self _ _ _
    · rfl
  · rw [if_neg here]
    split
    · exact Function.update_of_ne here _ _
    · rfl

/-- A step that changes one buffer at most. -/
theorem within_at (within : s.Within) (id : Nat) (others : ∀ other ≠ id, t.bufs other = s.bufs other)
    (deletes : ∀ other ≠ id, t.deletes other = s.deletes other) (here : Counted (t.bufs id) (t.deletes id)) : t.Within := by
  intro other
  by_cases same : other = id
  · rw [same]
    exact here
  · rw [others other same, deletes other same]
    exact within other

theorem within_step (within : s.Within) (step : JobStep build s t) : t.Within := by
  cases step with
  | search v key nkey ip port id kk r outcome result =>
    rcases searchAttempts_once result with ⟨_, full⟩ | ⟨room, added, read, taken⟩
    · rw [full]
      exact within
    · rw [taken]
      apply within_at within id
      · exact fun other differs => setBuf_other r added differs
      · exact fun _ _ => rfl
      · change Counted ((r.setBuf id added).bufs id) _
        rw [setBuf_self]
        exact (addSearch_added read).counted room (within id)
  | delete _ offset it id deletes left result =>
    obtain ⟨others, _, bound⟩ := recordDelete_counts result
    apply within_at within id
    · exact fun _ _ => rfl
    · exact others
    · have counted := within id
      exact ⟨counted.search, counted.compact, bound counted.delete, counted.block, counted.total⟩
  | insert body it hash sig id kk r =>
    simp only [insertAttempts, List.isEmpty_nil, if_true]
    split
    · exact within
    · split
      · exact within
      · rename_i slot
        apply within_at within id
        · exact fun other differs => setBuf_other r _ differs
        · exact fun _ _ => rfl
        · change Counted ((r.setBuf id _).bufs id) _
          rw [setBuf_self]
          exact addInsert_counted (insertBlockId_lt hash) (Nat.not_le.mp slot) (within id)
  | refresh _ id delay =>
    apply within_at within id
    · exact fun other differs => Function.update_of_ne differs _ _
    · intro other differs
      rw [refresh_deletes, if_neg differs]
    · rw [refresh_deletes, if_pos rfl]
      change Counted (Function.update s.bufs id _ id) _
      rw [Function.update_self]
      exact refresh_counted (within id) delay

theorem inBounds_at (id : Nat) (others : ∀ other ≠ id, t.bufs other = s.bufs other)
    (deletes : ∀ other ≠ id, t.deletes other = s.deletes other)
    (here : InBounds (s.bufs id) (t.bufs id) (s.deletes id) (t.deletes id)) (other : Nat) :
    InBounds (s.bufs other) (t.bufs other) (s.deletes other) (t.deletes other) := by
  by_cases same : other = id
  · rw [same]
    exact here
  · rw [others other same, deletes other same]
    exact InBounds.refl _ _

theorem refresh_inBounds (buf : BatchBuf) (deletes : DeleteBuf) (delay : Int) :
    InBounds buf (buf.refresh delay) deletes (if delay = 0 then { deletes with numDeleteJob := 0 } else deletes) := by
  unfold BatchBuf.refresh
  split
  · refine ⟨fun _ _ => rfl, fun _ _ => rfl, fun _ _ => rfl, ?_, ?_, fun _ _ => rfl⟩
    · intro j k _
      dsimp only
      split <;> rfl
    · intro j outside
      exact if_neg (by omega)
  · exact ⟨fun _ _ => rfl, fun _ _ => rfl, fun _ _ => rfl, fun _ _ _ => rfl, fun _ _ => rfl, fun _ _ => rfl⟩

theorem inBounds_step (within : s.Within) (step : JobStep build s t) (id : Nat) :
    InBounds (s.bufs id) (t.bufs id) (s.deletes id) (t.deletes id) := by
  revert id
  cases step with
  | search v key nkey ip port id kk r outcome result =>
    rcases searchAttempts_once result with ⟨_, full⟩ | ⟨room, added, read, taken⟩
    · rw [full]
      exact fun _ => InBounds.refl _ _
    · rw [taken]
      apply inBounds_at id
      · exact fun other differs => setBuf_other r added differs
      · exact fun _ _ => rfl
      · change InBounds _ ((r.setBuf id added).bufs id) _ _
        rw [setBuf_self]
        exact (addSearch_added read).inBounds room (within id)
  | delete _ offset it id deletes left result =>
    obtain ⟨others, written, _⟩ := recordDelete_counts result
    apply inBounds_at id
    · exact fun _ _ => rfl
    · exact others
    · exact ⟨fun _ _ => rfl, fun _ _ => rfl, written, fun _ _ _ => rfl, fun _ _ => rfl, fun _ _ => rfl⟩
  | insert body it hash sig id kk r =>
    simp only [insertAttempts, List.isEmpty_nil, if_true]
    split
    · exact fun _ => InBounds.refl _ _
    · rename_i room
      split
      · exact fun _ => InBounds.refl _ _
      · rename_i slot
        apply inBounds_at id
        · exact fun other differs => setBuf_other r _ differs
        · exact fun _ _ => rfl
        · change InBounds _ ((r.setBuf id _).bufs id) _ _
          rw [setBuf_self]
          exact addInsert_inBounds (insertBlockId_lt hash) (Nat.not_le.mp room) (Nat.not_le.mp slot)
  | refresh _ id delay =>
    apply inBounds_at id
    · exact fun other differs => Function.update_of_ne differs _ _
    · intro other differs
      rw [refresh_deletes, if_neg differs]
    · rw [refresh_deletes, if_pos rfl]
      change InBounds _ (Function.update s.bufs id _ id) _ _
      rw [Function.update_self]
      exact refresh_inBounds _ _ _

theorem within_reachable (reached : (jobSystem build).Reachable s) : s.Within := by
  apply reached.invariant
  · intro s start id
    obtain ⟨searches, entries, inserts, blocks, deletes⟩ := start id
    constructor
    · rw [searches]
      exact Nat.zero_le _
    · rw [entries]
      exact Nat.zero_le _
    · rw [deletes]
      exact Nat.zero_le _
    · intro j _
      rw [blocks]
      exact Nat.zero_le _
    · rw [inserts, Finset.sum_eq_zero (fun j _ => blocks j)]
  · intro s t within step
    exact within_step within step

end Steps

section Evictions

variable {build : Build} {bufs : Nat → BatchBuf}

def Single (attempts : Attempts) : Prop := attempts.again = []

theorem Single.ids {attempts : Attempts} (single : Single attempts) : attempts.ids = [attempts.first] := by
  rw [Attempts.ids, single]

def Deletes (build : Build) (bufs : Nat → BatchBuf) (before after : DeleteBufs) : Prop :=
  (jobSystem build).Reachable ⟨bufs, before⟩ → (jobSystem build).Reachable ⟨bufs, after⟩

theorem recordDelete_run {offset : Nat} {it : Item} {attempts : Attempts} {before after : DeleteBufs} {left : Bool}
    (single : Single attempts) (result : recordDelete offset it attempts.ids before = .ok (after, left)) :
    Deletes build bufs before after := by
  intro reached
  rw [single.ids] at result
  exact reached.step (.delete ⟨bufs, before⟩ offset it attempts.first after left result)

theorem evictLoop_run {p : Slabclass} {id i : Nat} {evictions : Nat → Attempts} {offsets : List Nat}
    {eviction after : Eviction} (single : ∀ n, Single (evictions n))
    (result : evictLoop p id evictions i offsets eviction = .ok after) : Deletes build bufs eviction.bufs after.bufs := by
  induction offsets generalizing i eviction with
  | nil =>
    cases result
    exact fun reached => reached
  | cons offset rest ih =>
    simp only [evictLoop] at result
    split at result
    · split at result
      · exact ih result
      · split at result
        · contradiction
        · rename_i recorded
          cases result
          exact recordDelete_run (single i) recorded
        · rename_i recorded
          intro reached
          exact ih result (recordDelete_run (single i) recorded reached)
    · contradiction

theorem evictItems_run {id : Nat} {evictions : Nat → Attempts} {m m' : Memory} {before after : DeleteBufs}
    {itList : Option Ptr} (single : ∀ n, Single (evictions n))
    (result : evictItems id evictions m before = .ok (itList, m', after)) : Deletes build bufs before after := by
  simp only [evictItems] at result
  split at result
  · contradiction
  · split at result
    · contradiction
    · rename_i loop
      split at result
      · contradiction
      · cases result
        exact evictLoop_run single loop

theorem itemAllocRounds_run {supply : Supply} {id rounds : Nat} {evictions : Nat → Attempts} {m m' : Memory}
    {before after : DeleteBufs} {itList : Option Ptr} (single : ∀ n, Single (evictions n))
    (result : itemAllocRounds supply evictions id rounds m before = .ok (itList, m', after)) :
    Deletes build bufs before after := by
  induction rounds generalizing m before with
  | zero => contradiction
  | succ rounds ih =>
    simp only [itemAllocRounds] at result
    split at result
    · split at result
      · contradiction
      · rename_i evicted
        intro reached
        exact ih result (evictItems_run single evicted reached)
      · rename_i evicted
        cases result
        exact evictItems_run single evicted
    · split at result
      · contradiction
      · exact ih result
      · cases result
        exact fun reached => reached

theorem batchAlloc_run {supply : Supply} {evictions : Nat → Attempts} {size : Nat} {m m' : Memory} {batch after : Batch}
    {it : Ptr} (single : ∀ n, Single (evictions n))
    (result : batchAlloc supply evictions size m batch = .ok (it, m', after)) :
    Deletes build bufs batch.buf after.buf := by
  unfold batchAlloc at result
  split at result
  · contradiction
  · rename_i refilled
    have taken : ∀ {m : Memory} {middle : Batch}, takeItem (pickList size) m middle = .ok (it, m', after) →
        after.buf = middle.buf := by
      intro m middle took
      simp only [takeItem] at took
      split at took
      · contradiction
      · cases took
        rfl
    rw [taken result]
    unfold refill at refilled
    split at refilled
    · cases refilled
      exact fun reached => reached
    · split at refilled
      · contradiction
      · rename_i alloc
        cases refilled
        simp only [itemAllocBatch] at alloc
        split at alloc
        · contradiction
        · cases alloc
          exact fun reached => reached
        · exact itemAllocRounds_run single alloc

end Evictions

section Packets

variable {build : Build} {memcpy : Memcpy} {env : Env} {v : View} {s : JobBufs}

structure Steady (env : Env) : Prop where
  attempts : ∀ n, Single (env.attempts n)
  evictions : ∀ n k, Single (env.evictions n k)

theorem request_run {ip : BitVec 32} {port : BitVec 16} {n ptr kk : Nat} {r : State} {outcome : Outcome}
    (steady : Steady env) (result : request build memcpy env v ip port n ptr kk r = .ok outcome)
    (reached : (jobSystem build).Reachable r.jobBufs) : (jobSystem build).Reachable outcome.state.jobBufs := by
  rcases request_cases result with same | got | stored
  · rw [same]
    exact reached
  · rcases getRequest_cases got with ⟨nkey, refused⟩ | ⟨nkey, attempted⟩
    · rw [refused]
      exact reached
    · rw [(steady.attempts n).ids] at attempted
      exact reached.step (.search _ _ _ _ _ _ _ _ _ attempted)
  · obtain ⟨size, it, m, batch, prepared, alloc, same, ends⟩ := setRequest_cases stored
    have evicted : (jobSystem build).Reachable prepared.jobBufs := by
      rw [State.jobBufs, same.bufs, same.batch]
      exact batchAlloc_run (steady.evictions n) alloc reached
    cases ends with
    | inl ends =>
      rw [ends]
      exact evicted
    | inr ends =>
      obtain ⟨body, hash, sig, rfl⟩ := ends
      rw [(steady.attempts n).ids]
      exact evicted.step (.insert body it hash sig (env.attempts n).first (kk + 1) prepared)

theorem processPacket_run {pktLen : Nat} {r last : State} {value : Int} (steady : Steady env)
    (result : processPacket build memcpy env v pktLen r = .ok (value, last))
    (reached : (jobSystem build).Reachable r.jobBufs) : (jobSystem build).Reachable last.jobBufs := by
  rcases processPacket_requests result with same | ⟨ip, port, _, looped⟩
  · rw [same]
    exact reached
  · apply @requests_rule build memcpy env v ip port
      (fun r t => (jobSystem build).Reachable r.jobBufs → (jobSystem build).Reachable t.jobBufs) _ _ _ _ _ _ _ _ _ looped
      reached
    · intro r middle last first second reached
      exact second (first reached)
    · intro n ptr kk r outcome served
      exact request_run steady served

/-- In every run all buffers count right, each job is written inside the arrays, and calls are such runs. -/
theorem job_counts_bounded (reached : (jobSystem build).Reachable s) :
    (∀ id, Counted (s.bufs id) (s.deletes id)) ∧ (∀ id, Asserted (s.bufs id) (s.deletes id)) ∧
      (∀ t, JobStep build s t → ∀ id, InBounds (s.bufs id) (t.bufs id) (s.deletes id) (t.deletes id)) ∧
      ∀ memcpy env v pktLen r value last, r.jobBufs = s → Steady env →
        processPacket build memcpy env v pktLen r = .ok (value, last) → (jobSystem build).Reachable last.jobBufs := by
  have within := within_reachable reached
  refine ⟨within, fun id => (within id).asserted, fun t step => inBounds_step within step, ?_⟩
  intro memcpy env v pktLen r value last started steady result
  apply processPacket_run steady result
  rw [started]
  exact reached

section Filled

def storedJob : State := (insertAttempts 16 ⟨0, 0⟩ 0 1 [0] 0 askedState).state

/-- A SET and an eviction have added their jobs. -/
def evictedJob (deletes : DeleteBufs) : State := { storedJob with batch := { storedJob.batch with buf := deletes } }

theorem storedJob_evicts : ∃ deletes left,
    recordDelete 1 Sender.plainItem [0] storedJob.jobBufs.deletes = .ok (deletes, left) ∧
      (deletes 0).numDeleteJob = 1 := by
  refine ⟨_, _, rfl, ?_⟩
  rfl

theorem storedJob_room : Room twoGets (storedJob.bufs 0) := by
  refine ⟨by decide, by decide, ?_⟩
  intro block
  have empty : (emptyBuf.insertBuf block).numInsertJob = 0 := rfl
  have few : 1 ≤ batchMaxInsertJob - 1 := by decide
  change ((addInsert emptyBuf ⟨0, 0⟩ 0 _).insertBuf block).numInsertJob ≤ batchMaxInsertJob - 1
  rw [addInsert_block, empty]
  split
  · exact few
  · exact Nat.zero_le _

theorem job_counts_bounded_filled : ∃ deletes last,
    processPacket defaultBuild memcpyData calmEnv (.whole (getsPacket 1)) 70 (evictedJob deletes) = .ok (2, last) ∧
      (deletes 0).numDeleteJob = 1 ∧ (last.bufs 0).numSearchJob = 2 ∧ (last.bufs 0).numInsertJob = 1 ∧
      (∀ id, Counted (last.bufs id) (last.batch.buf id)) ∧
      ∀ id, InBounds (last.bufs id) ((last.jobBufs.refresh 0 0).bufs id) (last.batch.buf id)
        ((last.jobBufs.refresh 0 0).deletes id) := by
  obtain ⟨deletes, left, recorded, count⟩ := storedJob_evicts
  obtain ⟨last, result, served⟩ := @twoGets_served 1 (evictedJob deletes) storedJob_room (fun _ => rfl)
  have steady : Steady calmEnv := ⟨fun _ => rfl, fun _ _ => rfl⟩
  have start : (jobSystem defaultBuild).Reachable askedState.jobBufs :=
    .initial fun _ => ⟨rfl, rfl, rfl, fun _ => rfl, rfl⟩
  have stored := start.step (.insert 16 ⟨0, 0⟩ 0 1 0 0 askedState)
  have evicted := stored.step (.delete storedJob.jobBufs 1 Sender.plainItem 0 deletes left recorded)
  have filled := (job_counts_bounded evicted).2.2.2 _ _ _ _ (evictedJob deletes) _ _ rfl steady result
  obtain ⟨counted, _, inBounds, _⟩ := job_counts_bounded filled
  exact ⟨deletes, last, result, count, served.numSearchJob, served.numInsertJob, counted, inBounds _ (.refresh _ 0 0)⟩

end Filled

end Packets

end MegaKV.Receiver
