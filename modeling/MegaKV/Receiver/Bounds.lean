import MegaKV.Receiver.Packet

namespace MegaKV.Receiver

open Library Slab

section Stability

variable (build : Build) (memcpy : Memcpy) (env : Env) (ip : BitVec 32) (port : BitVec 16)

theorem xorWords_stable (key rounds i : Nat) (sig : BitVec 64) : Stable (fun v => xorWords v key rounds i sig) := by
  induction rounds generalizing i sig with
  | zero => exact Stable.const _
  | succ rounds ih => exact (read_stable (key + i) 8).bind fun bytes => ih _ _

theorem xorTail_stable (key nkey i : Nat) (sig : BitVec 64) : Stable (fun v => xorTail v key nkey i sig) :=
  Stable.ite (fun _ => (read_stable (key + i) 8).bind fun _ => Stable.const _) (fun _ => Stable.const _)

theorem keySig_stable (key nkey : Nat) : Stable (fun v => keySig build v key nkey) := by
  apply (read_stable key 8).bind
  intro bytes
  apply Stable.ite
  · intro _
    exact (xorWords_stable _ _ _ _).bind fun sig => xorTail_stable _ _ _ _
  · intro _
    exact Stable.const _

theorem readEthAddr_stable : Stable readEthAddr := (read_stable 6 6).bind fun _ => Stable.const _

theorem addCompactJob_stable (buf : BatchBuf) : Stable (fun v => addCompactJob v ip port buf) :=
  Stable.ite (fun _ => Stable.const _) (fun _ => readEthAddr_stable.bind fun _ => Stable.const _)

theorem addKey_stable (key nkey : Nat) (job : Sender.SearchJob) : Stable (fun v => addKey build v key nkey job) :=
  Stable.ite (fun _ => (read_stable key nkey).bind fun _ => Stable.const _) (fun _ => Stable.const _)

theorem addPlainJob_stable (key nkey : Nat) (buf : BatchBuf) :
    Stable (fun v => addPlainJob build v key nkey ip port buf) := by
  apply readEthAddr_stable.bind
  intro ethAddr
  exact (addKey_stable build key nkey _).bind fun job => Stable.const _

theorem addJob_stable (key nkey : Nat) (buf : BatchBuf) : Stable (fun v => addJob build v key nkey ip port buf) :=
  Stable.ite (fun _ => addCompactJob_stable ip port buf) (fun _ => addPlainJob_stable build ip port key nkey buf)

theorem addSearch_stable (key nkey : Nat) (buf : BatchBuf) :
    Stable (fun v => addSearch build v key nkey ip port buf) := by
  apply (addJob_stable build ip port key nkey buf).bind
  intro added
  exact (keySig_stable build key nkey).bind fun sig => Stable.const _

theorem searchAttempts_stable (key nkey : Nat) (ids : List Nat) (kk : Nat) (r : State) :
    Stable (fun v => searchAttempts build v key nkey ip port ids kk r) := by
  induction ids generalizing kk r with
  | nil => exact Stable.const _
  | cons id again ih =>
    apply Stable.ite
    · intro _
      exact Stable.const _
    · intro _
      exact (addSearch_stable build ip port key nkey _).bind fun added => ih _ _

theorem getRequest_stable (attempts : Attempts) (ptr kk : Nat) (r : State) :
    Stable (fun v => getRequest build v attempts ip port ptr kk r) := by
  apply (read_stable ptr 2).bind
  intro bytes
  exact Stable.ite (fun _ => Stable.const _) (fun _ => searchAttempts_stable _ _ _ _ _ _ _ _)

theorem insertJob_stable (attempts : Attempts) (it : Ptr) (nkey nbyte key kk : Nat) (r : State) :
    Stable (fun v => insertJob build v attempts it nkey nbyte key kk r) :=
  Stable.ite (fun _ => Stable.const _) (fun _ => (keySig_stable build key nkey).bind fun _ => Stable.const _)

theorem setItem_stable (supply : Supply) (evictions : Nat → Attempts) (attempts : Attempts) (nkey nbyte key kk : Nat)
    (r : State) : Stable (fun v => setItem build memcpy v supply evictions attempts nkey nbyte key kk r) := by
  simp only [setItem]
  cases batchAlloc supply evictions ((nkey + nbyte) % 2 ^ 32) r.memory r.batch with
  | error halt => exact Stable.const _
  | ok allocated => exact (read_stable key _).bind fun bytes => insertJob_stable _ _ _ _ _ _ _ _

theorem setRequest_stable (supply : Supply) (evictions : Nat → Attempts) (attempts : Attempts) (ptr kk : Nat)
    (r : State) : Stable (fun v => setRequest build memcpy v supply evictions attempts ptr kk r) := by
  apply (read_stable ptr 2).bind
  intro keyBytes
  exact (read_stable (ptr + 2) 4).bind fun valueBytes => setItem_stable _ _ _ _ _ _ _ _ _ _

theorem request_stable (n ptr kk : Nat) (r : State) :
    Stable (fun v => request build memcpy env v ip port n ptr kk r) := by
  apply (read_stable ptr 2).bind
  intro bytes
  apply Stable.ite
  · intro _
    exact Stable.const _
  · intro _
    apply Stable.ite
    · intro _
      exact getRequest_stable _ _ _ _ _ _ _
    · intro _
      apply Stable.ite
      · intro _
        exact setRequest_stable _ _ _ _ _ _ _ _
      · intro _
        exact Stable.const _

theorem requests_step (v : View) (pktLen n ptr kk : Nat) (r : State) :
    requests build memcpy env v pktLen ip port n ptr kk r =
      request build memcpy env v ip port n ptr kk r >>= fun outcome =>
        match outcome with
        | .returns value r => .ok (value, r)
        | .goesOn body kk r =>
          if pktLen ≤ ptr + 4 + body then .ok (-1, r)
          else requests build memcpy env v pktLen ip port (n + 1) (ptr + 4 + body) kk r := by
  rw [requests]
  cases request build memcpy env v ip port n ptr kk r with
  | error stop => rfl
  | ok outcome => cases outcome <;> rfl

theorem requests_stable (pktLen n ptr kk : Nat) (r : State) :
    Stable (fun v => requests build memcpy env v pktLen ip port n ptr kk r) := by
  generalize left : pktLen - ptr = rounds
  induction rounds using Nat.strong_induction_on generalizing n ptr kk r with
  | h rounds ih =>
    rw [funext fun v => requests_step build memcpy env ip port v pktLen n ptr kk r]
    apply (request_stable build memcpy env ip port n ptr kk r).bind
    intro outcome
    cases outcome with
    | returns value r => exact Stable.const _
    | goesOn body kk r =>
      apply Stable.ite
      · intro _
        exact Stable.const _
      · intro more
        exact ih (pktLen - (ptr + 4 + body)) (by omega) _ _ _ _ rfl

theorem processPacket_stable (pktLen : Nat) (r : State) :
    Stable (fun v => processPacket build memcpy env v pktLen r) := by
  apply (read_stable 26 4).bind
  intro ipBytes
  apply (read_stable 34 2).bind
  intro portBytes
  apply (read_stable Sender.eiuHdrLen 2).bind
  intro magic
  exact Stable.ite (fun _ => Stable.const _) (fun _ => requests_stable _ _ _ _ _ _ _ _ _ _)

end Stability

section Extents

variable (build : Build) (ip : BitVec 32) (port : BitVec 16)

def sigSpan (nkey : Nat) : Nat :=
  if build.signature then
    if 8 + 8 * signatureRounds nkey < nkey then 8 + 8 * signatureRounds nkey + 8 else 8 + 8 * signatureRounds nkey
  else 8

def keySpan (nkey : Nat) : Nat :=
  if build.compactJob = false ∧ build.keyMatch then max nkey (sigSpan build nkey) else sigSpan build nkey

theorem sigSpan_pos (nkey : Nat) : 8 ≤ sigSpan build nkey := by
  unfold sigSpan
  split
  · split <;> omega
  · omega

theorem xorWords_extent (key rounds i : Nat) (sig : BitVec 64) :
    Extent (fun v => xorWords v key rounds i sig) (if rounds = 0 then 0 else key + i + 8 * rounds) := by
  induction rounds generalizing i sig with
  | zero => exact Extent.const _
  | succ rounds ih =>
    apply ((word_extent (key + i) (by decide : 8 ≠ 0)).bind fun bytes => ih (i + 8) (sig ^^^ word64 bytes)).congr
    rw [if_neg (Nat.succ_ne_zero rounds)]
    split <;> omega

theorem xorTail_extent (key nkey i : Nat) (sig : BitVec 64) :
    Extent (fun v => xorTail v key nkey i sig) (if i < nkey then key + i + 8 else 0) :=
  (Extent.ite ((word_extent (key + i) (by decide : 8 ≠ 0)).bind fun _ => Extent.const _) (Extent.const _)).congr
    (by rw [Nat.max_zero])

theorem keySig_extent (key nkey : Nat) : Extent (fun v => keySig build v key nkey) (key + sigSpan build nkey) := by
  apply ((word_extent key (by decide : 8 ≠ 0)).bind fun bytes => Extent.ite
    ((xorWords_extent key (signatureRounds nkey) 8 (word64 bytes)).bind fun sig =>
      xorTail_extent key nkey (8 + 8 * signatureRounds nkey) sig) (Extent.const _)).congr
  unfold sigSpan
  split
  · split <;> split <;> omega
  · omega

theorem readEthAddr_extent : Extent readEthAddr 12 := (word_extent 6 (by decide : 6 ≠ 0)).bind fun _ => Extent.const _

theorem addKey_extent (key nkey : Nat) (job : Sender.SearchJob) :
    Extent (fun v => addKey build v key nkey job)
      (if build.keyMatch then max (if nkey = 0 then 0 else key + nkey) 0 else 0) :=
  Extent.ite ((read_extent key nkey).bind fun _ => Extent.const _) (Extent.const _)

theorem addSearch_extent {key : Nat} (header : 12 ≤ key) (nkey : Nat) (buf : BatchBuf) :
    Extent (fun v => addSearch build v key nkey ip port buf) (key + keySpan build nkey) := by
  have span := sigSpan_pos build nkey
  have last : ∀ added : BatchBuf, Extent (fun v => keySig build v key nkey >>= fun sig =>
      (.ok { added with
        searchIn := Function.update added.searchIn added.numSearchJob { hash := sigHash sig, sig := sigSign sig }
        numSearchJob := added.numSearchJob + 1 } : Reading BatchBuf)) (max (key + sigSpan build nkey) 0) :=
    fun added => (keySig_extent build key nkey).bind fun sig => Extent.const _
  by_cases compact : build.compactJob
  · have job : Extent (fun v => addJob build v key nkey ip port buf)
        (if (buf.searchJobList buf.numCompactSearchJob).ip = ip ∧ (buf.searchJobList buf.numCompactSearchJob).port = port
          then 0 else max 12 0) := by
      simp only [addJob, if_pos compact]
      exact Extent.ite (Extent.const _) (readEthAddr_extent.bind fun _ => Extent.const _)
    apply (job.bind last).congr
    simp only [keySpan, compact, Bool.true_eq_false, false_and, ite_false]
    split <;> omega
  · have job : Extent (fun v => addJob build v key nkey ip port buf)
        (max 12 (max (if build.keyMatch then max (if nkey = 0 then 0 else key + nkey) 0 else 0) 0)) := by
      simp only [addJob, if_neg compact]
      exact readEthAddr_extent.bind fun _ => (addKey_extent build key nkey _).bind fun _ => Extent.const _
    apply (job.bind last).congr
    simp only [Bool.not_eq_true] at compact
    simp only [keySpan, compact, true_and]
    split
    · split <;> omega
    · omega

end Extents

end MegaKV.Receiver
