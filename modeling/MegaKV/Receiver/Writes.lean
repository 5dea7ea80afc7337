import MegaKV.Receiver.Requests
import MegaKV.Receiver.Served
import MegaKV.Slab.Lengths

namespace MegaKV.Receiver

open Library Slab

section Whole

variable {build : Build} {memcpy : Memcpy} {env : Env} {packet : Nat → Byte} {ip : BitVec 32} {port : BitVec 16}

theorem request_whole (n ptr kk : Nat) (r : State) :
    request build memcpy env (.whole packet) ip port n ptr kk r =
      if jobTypeAt packet ptr = endMark then .ok (.returns kk r)
      else if jobTypeAt packet ptr = megaJobGet then
        getRequest build (.whole packet) (env.attempts n) ip port (ptr + 2) kk r
      else if jobTypeAt packet ptr = megaJobSet then
        setRequest build memcpy (.whole packet) (env.supply n) (env.evictions n) (env.attempts n) (ptr + 2) kk r
      else .ok (.returns (-1) r) := by
  rw [request, View.read_whole]
  rfl

theorem getRequest_whole (attempts : Attempts) (ptr kk : Nat) (r : State) :
    getRequest build (.whole packet) attempts ip port ptr kk r =
      if keyLengthAt packet ptr ≠ build.maxKeyLength then .ok (.goesOn (keyLengthAt packet ptr) kk r)
      else searchAttempts build (.whole packet) (ptr + 2) (keyLengthAt packet ptr) ip port attempts.ids kk r := by
  rw [getRequest, View.read_whole]
  rfl

theorem setRequest_whole (supply : Supply) (evictions : Nat → Attempts) (attempts : Attempts) (ptr kk : Nat)
    (r : State) :
    setRequest build memcpy (.whole packet) supply evictions attempts ptr kk r =
      setItem build memcpy (.whole packet) supply evictions attempts (keyLengthAt packet ptr)
        (valueLengthAt packet (ptr + 2)) (ptr + 6) kk r := by
  rw [setRequest, View.read_whole, View.read_whole]
  rfl

theorem keySig_shown (key nkey : Nat) : ∃ sig, keySig build (.whole packet) key nkey = .ok sig :=
  (keySig_extent build key nkey).whole (keySig_stable build key nkey) packet

theorem addSearch_whole {key : Nat} (header : 12 ≤ key) (nkey : Nat) (buf : BatchBuf) :
    ∃ added, addSearch build (.whole packet) key nkey ip port buf = .ok added :=
  (addSearch_extent build ip port header nkey buf).whole (addSearch_stable build ip port key nkey buf) packet

end Whole

section Effects

variable {build : Build} {env : Env} {v : View} {packet : Nat → Byte} {ip : BitVec 32} {port : BitVec 16}
  {ptr kk n : Nat} {r : State} {outcome : Outcome}

theorem searchAttempts_memory {key nkey : Nat} {ids : List Nat}
    (result : searchAttempts build v key nkey ip port ids kk r = .ok outcome) :
    outcome.state.memory = r.memory ∧ outcome.state.batch = r.batch := by
  induction ids generalizing kk r with
  | nil =>
    cases result
    exact ⟨rfl, rfl⟩
  | cons id again ih =>
    simp only [searchAttempts] at result
    split at result
    · cases result
      exact ⟨rfl, rfl⟩
    · cases added : addSearch build v key nkey ip port (r.bufs id) with
      | error stop =>
        rw [added] at result
        cases result
      | ok buf =>
        rw [added] at result
        have kept := ih result
        exact kept

theorem getRequest_memory {attempts : Attempts} (result : getRequest build v attempts ip port ptr kk r = .ok outcome) :
    outcome.state.memory = r.memory ∧ outcome.state.batch = r.batch := by
  rcases getRequest_cases result with ⟨nkey, rfl⟩ | ⟨nkey, searched⟩
  · exact ⟨rfl, rfl⟩
  · exact searchAttempts_memory searched

theorem insertAttempts_memory (body : Nat) (it : Ptr) (hash : Hash.HashWord) (sig : Hash.Sign) (ids : List Nat)
    (kk : Nat) (r : State) :
    (insertAttempts body it hash sig ids kk r).state.batch = r.batch ∧
      ((insertAttempts body it hash sig ids kk r).state.memory = r.memory ∨
        (insertAttempts body it hash sig ids kk r).state.memory = (r.clearFlags it).memory) := by
  induction ids generalizing kk r with
  | nil => exact ⟨rfl, .inl rfl⟩
  | cons id again ih =>
    simp only [insertAttempts]
    split
    · exact ⟨rfl, .inr rfl⟩
    · split
      · exact ⟨rfl, .inr rfl⟩
      · exact ih _ _

/-- An item with a key and a value of these lengths, its links and its place unchanged. -/
structure Filed (nkey nbyte : Nat) (old item : Item) : Prop where
  nkey : item.nkey = nkey
  nbytes : item.nbytes = nbyte
  next : item.next = old.next
  clsid : item.slabsClsid = old.slabsClsid
  loc : item.loc = old.loc
  flags : item.flags = old.flags ∨ item.flags = 0

/-- What a SET with these lengths does to the memory: the item of `BATCH_ALLOC` is written, and no other. -/
structure Wrote (nkey nbyte : Nat) (it : Ptr) (m : Memory) (batch : Batch) (r' : State) : Prop where
  batch : r'.batch = batch
  memory : ∃ item, Filed nkey nbyte (m.heap it) item ∧
    r'.memory = { m with heap := Function.update m.heap it item }

theorem Wrote.clear {nkey nbyte : Nat} {it : Ptr} {m : Memory} {batch : Batch} {prepared : State}
    (wrote : Wrote nkey nbyte it m batch prepared) : Wrote nkey nbyte it m batch (prepared.clearFlags it) := by
  obtain ⟨same, item, filed, memory⟩ := wrote
  refine ⟨same, { item with flags := 0 }, ?_, ?_⟩
  · exact { filed with flags := .inr rfl }
  · simp only [State.clearFlags, State.setItem, memory, Function.update_self, Function.update_idem]

theorem Wrote.of_same {nkey nbyte : Nat} {it : Ptr} {m : Memory} {batch : Batch} {prepared r' : State}
    (wrote : Wrote nkey nbyte it m batch prepared) (batches : r'.batch = prepared.batch)
    (memory : r'.memory = prepared.memory) : Wrote nkey nbyte it m batch r' := by
  obtain ⟨same, item, filed, written⟩ := wrote
  exact ⟨batches.trans same, item, filed, memory.trans written⟩

theorem insertJob_wrote {attempts : Attempts} {it : Ptr} {nkey nbyte key : Nat} {m : Memory} {batch : Batch}
    (wrote : Wrote nkey nbyte it m batch r)
    (result : insertJob build v attempts it nkey nbyte key kk r = .ok outcome) :
    Wrote nkey nbyte it m batch outcome.state := by
  unfold insertJob at result
  split at result
  · cases result
    exact wrote.clear
  · cases signed : keySig build v key nkey with
    | error stop =>
      rw [signed] at result
      cases result
    | ok sig =>
      rw [signed] at result
      cases result
      have counted : Wrote nkey nbyte it m batch { r with numInsertJob := r.numInsertJob + 1 } :=
        wrote.of_same rfl rfl
      obtain ⟨batches, kept | cleared⟩ := insertAttempts_memory (4 + (nkey + nbyte) % 2 ^ 32) it (sigHash sig)
        (sigSign sig) attempts.ids (kk + 1) { r with numInsertJob := r.numInsertJob + 1 }
      · exact counted.of_same batches kept
      · exact counted.clear.of_same batches cleared

theorem setItem_wrote {supply : Supply} {evictions : Nat → Attempts} {attempts : Attempts} {nkey nbyte key : Nat}
    (result : setItem build memcpyData v supply evictions attempts nkey nbyte key kk r = .ok outcome) :
    ∃ it m batch, batchAlloc supply evictions ((nkey + nbyte) % 2 ^ 32) r.memory r.batch = .ok (it, m, batch) ∧
      Wrote nkey nbyte it m batch outcome.state := by
  unfold setItem at result
  cases allocated : batchAlloc supply evictions ((nkey + nbyte) % 2 ^ 32) r.memory r.batch with
  | error halt =>
    simp only [allocated] at result
    cases result
  | ok taken =>
    obtain ⟨it, m, batch⟩ := taken
    cases read : (v.read key ((nkey + nbyte) % 2 ^ 32) : Reading (Nat → Byte)) with
    | error stop =>
      simp only [allocated, read] at result
      cases result
    | ok bytes =>
      simp only [allocated, read] at result
      refine ⟨it, m, batch, rfl, insertJob_wrote ⟨rfl, ?_⟩ result⟩
      refine ⟨{ m.heap it with
        nkey := nkey
        nbytes := nbyte
        data := fun k => if k < (nkey + nbyte) % 2 ^ 32 then bytes k else (m.heap it).data k },
        ⟨rfl, rfl, rfl, rfl, rfl, .inl rfl⟩, ?_⟩
      simp only [memcpyData, State.setItem, Function.update_self, Function.update_idem]

/-- A request leaves memory and free lists alone, or it is a SET that has written its item. -/
theorem request_effect (result : request build memcpyData env (.whole packet) ip port n ptr kk r = .ok outcome) :
    jobTypeAt packet ptr ≠ megaJobSet ∧ outcome.state.memory = r.memory ∧ outcome.state.batch = r.batch ∨
      jobTypeAt packet ptr = megaJobSet ∧ ∃ it m batch,
        batchAlloc (env.supply n) (env.evictions n)
            ((keyLengthAt packet (ptr + 2) + valueLengthAt packet (ptr + 4)) % 2 ^ 32) r.memory r.batch =
          .ok (it, m, batch) ∧
        Wrote (keyLengthAt packet (ptr + 2)) (valueLengthAt packet (ptr + 4)) it m batch outcome.state := by
  rw [request_whole] at result
  split at result
  · rename_i isEnd
    cases result
    exact .inl ⟨fun isSet => not_endMark_set (isSet.symm.trans isEnd), rfl, rfl⟩
  · split at result
    · rename_i isGet
      exact .inl ⟨fun isSet => not_get_set (isSet.symm.trans isGet), getRequest_memory result⟩
    · split at result
      · rename_i isSet
        rw [setRequest_whole] at result
        exact .inr ⟨isSet, setItem_wrote result⟩
      · rename_i notSet
        cases result
        exact .inl ⟨notSet, rfl, rfl⟩

end Effects

end MegaKV.Receiver
