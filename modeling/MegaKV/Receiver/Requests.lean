import MegaKV.Receiver.Bounds

namespace MegaKV.Receiver

open Library Slab

def Outcome.state : Outcome → State
  | .returns _ r => r
  | .goesOn _ _ r => r

section Cases

variable {build : Build} {memcpy : Memcpy} {v : View} {ip : BitVec 32} {port : BitVec 16} {ptr kk : Nat} {r : State}
  {outcome : Outcome}

theorem getRequest_cases {attempts : Attempts} (result : getRequest build v attempts ip port ptr kk r = .ok outcome) :
    (∃ nkey, outcome = .goesOn nkey kk r) ∨
      ∃ nkey, searchAttempts build v (ptr + 2) nkey ip port attempts.ids kk r = .ok outcome := by
  unfold getRequest at result
  cases read : (v.read ptr 2 : Reading (Nat → Byte)) with
  | error stop =>
    rw [read] at result
    cases result
  | ok bytes =>
    rw [read] at result
    simp only [bind, Except.bind] at result
    split at result
    · cases result
      exact .inl ⟨_, rfl⟩
    · exact .inr ⟨_, result⟩

/-- Between the allocation and the insert job of a SET only memory is written. -/
structure Prepared (r : State) (batch : Batch) (prepared : State) : Prop where
  batch : prepared.batch = batch
  bufs : prepared.bufs = r.bufs
  numSearchJob : prepared.numSearchJob = r.numSearchJob

theorem insertJob_cases {attempts : Attempts} {it : Ptr} {nkey nbyte key : Nat}
    (result : insertJob build v attempts it nkey nbyte key kk r = .ok outcome) :
    ∃ prepared, Prepared r r.batch prepared ∧ (outcome.state = prepared ∨
      ∃ body hash sig, outcome = insertAttempts body it hash sig attempts.ids (kk + 1) prepared) := by
  unfold insertJob at result
  split at result
  · cases result
    exact ⟨r.clearFlags it, ⟨rfl, rfl, rfl⟩, .inl rfl⟩
  · cases signed : keySig build v key nkey with
    | error stop =>
      rw [signed] at result
      cases result
    | ok sig =>
      rw [signed] at result
      cases result
      exact ⟨{ r with numInsertJob := r.numInsertJob + 1 }, ⟨rfl, rfl, rfl⟩, .inr ⟨_, _, _, rfl⟩⟩

theorem setItem_cases {supply : Supply} {evictions : Nat → Attempts} {attempts : Attempts} {nkey nbyte key : Nat}
    (result : setItem build memcpy v supply evictions attempts nkey nbyte key kk r = .ok outcome) :
    ∃ size it m batch prepared, batchAlloc supply evictions size r.memory r.batch = .ok (it, m, batch) ∧
      Prepared r batch prepared ∧ (outcome.state = prepared ∨
        ∃ body hash sig, outcome = insertAttempts body it hash sig attempts.ids (kk + 1) prepared) := by
  unfold setItem at result
  cases allocated : batchAlloc supply evictions ((nkey + nbyte) % 2 ^ 32) r.memory r.batch with
  | error halt =>
    simp only [allocated] at result
    cases result
  | ok taken =>
    obtain ⟨it, m, batch⟩ := taken
    cases read : (v.read key ((nkey + nbyte) % 2 ^ 32) : Reading (Nat → Byte)) with
    | error stop =>
      simp only [allocated, read] at result
      cases result
    | ok bytes =>
      simp only [allocated, read] at result
      obtain ⟨prepared, same, ends⟩ := insertJob_cases result
      exact ⟨_, it, m, batch, prepared, allocated, ⟨same.batch, same.bufs, same.numSearchJob⟩, ends⟩

theorem setRequest_cases {supply : Supply} {evictions : Nat → Attempts} {attempts : Attempts}
    (result : setRequest build memcpy v supply evictions attempts ptr kk r = .ok outcome) :
    ∃ size it m batch prepared, batchAlloc supply evictions size r.memory r.batch = .ok (it, m, batch) ∧
      Prepared r batch prepared ∧ (outcome.state = prepared ∨
        ∃ body hash sig, outcome = insertAttempts body it hash sig attempts.ids (kk + 1) prepared) := by
  unfold setRequest at result
  cases keyRead : (v.read ptr 2 : Reading (Nat → Byte)) with
  | error stop =>
    rw [keyRead] at result
    cases result
  | ok keyBytes =>
    cases valueRead : (v.read (ptr + 2) 4 : Reading (Nat → Byte)) with
    | error stop =>
      simp only [keyRead, bind, Except.bind, valueRead] at result
      cases result
    | ok valueBytes =>
      simp only [keyRead, bind, Except.bind, valueRead] at result
      exact setItem_cases result

theorem request_cases {env : Env} {n : Nat} (result : request build memcpy env v ip port n ptr kk r = .ok outcome) :
    outcome.state = r ∨ getRequest build v (env.attempts n) ip port (ptr + 2) kk r = .ok outcome ∨
      setRequest build memcpy v (env.supply n) (env.evictions n) (env.attempts n) (ptr + 2) kk r = .ok outcome := by
  unfold request at result
  cases read : (v.read ptr 2 : Reading (Nat → Byte)) with
  | error stop =>
    rw [read] at result
    cases result
  | ok bytes =>
    simp only [read, bind, Except.bind] at result
    split at result
    · cases result
      exact .inl rfl
    · split at result
      · exact .inr (.inl result)
      · split at result
        · exact .inr (.inr result)
        · cases result
          exact .inl rfl

end Cases

section Loop

variable {build : Build} {memcpy : Memcpy} {env : Env} {v : View} {ip : BitVec 32} {port : BitVec 16}

/-- What holds over each request, and from one to the next, holds over the whole loop. -/
theorem requests_rule {holds : State → State → Prop}
    (chained : ∀ r middle last, holds r middle → holds middle last → holds r last)
    (each : ∀ n ptr kk r outcome, request build memcpy env v ip port n ptr kk r = .ok outcome → holds r outcome.state)
    {pktLen n ptr kk : Nat} {r last : State} {value : Int}
    (result : requests build memcpy env v pktLen ip port n ptr kk r = .ok (value, last)) : holds r last := by
  generalize left : pktLen - ptr = rounds
  induction rounds using Nat.strong_induction_on generalizing n ptr kk r with
  | h rounds ih =>
    rw [requests_step] at result
    cases once : request build memcpy env v ip port n ptr kk r with
    | error stop =>
      rw [once] at result
      cases result
    | ok outcome =>
      rw [once] at result
      have first := each n ptr kk r outcome once
      cases outcome with
      | returns value middle =>
        cases result
        exact first
      | goesOn body kk middle =>
        simp only [bind, Except.bind] at result
        split at result
        · cases result
          exact first
        · exact chained _ _ _ first (ih (pktLen - (ptr + 4 + body)) (by omega) result rfl)

def packetClient (packet : Nat → Byte) : BitVec 32 × BitVec 16 :=
  (dataWord (View.window packet 26 4) 0, word16 (View.window packet 34 2))

theorem processPacket_requests {pktLen : Nat} {r last : State} {value : Int}
    (result : processPacket build memcpy env v pktLen r = .ok (value, last)) :
    last = r ∨ ∃ ip port, (∀ packet, v = .whole packet → (ip, port) = packetClient packet) ∧
      requests build memcpy env v pktLen ip port 0 (Sender.eiuHdrLen + 2) 0 r = .ok (value, last) := by
  unfold processPacket at result
  cases ipRead : (v.read 26 4 : Reading (Nat → Byte)) with
  | error stop =>
    rw [ipRead] at result
    cases result
  | ok ipBytes =>
    cases portRead : (v.read 34 2 : Reading (Nat → Byte)) with
    | error stop =>
      simp only [ipRead, bind, Except.bind, portRead] at result
      cases result
    | ok portBytes =>
      cases magicRead : (v.read Sender.eiuHdrLen 2 : Reading (Nat → Byte)) with
      | error stop =>
        simp only [ipRead, bind, Except.bind, portRead, magicRead] at result
        cases result
      | ok magic =>
        simp only [ipRead, bind, Except.bind, portRead, magicRead] at result
        split at result
        · cases result
          exact .inl rfl
        · refine .inr ⟨_, _, ?_, result⟩
          intro packet whole
          rw [whole, View.read_whole] at ipRead portRead
          cases ipRead
          cases portRead
          rfl

end Loop

end MegaKV.Receiver
