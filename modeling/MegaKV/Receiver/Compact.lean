import MegaKV.Library.Runs
import MegaKV.Receiver.Requests
import MegaKV.Receiver.RoundTrip
import MegaKV.Scheduler.Jobs
import MegaKV.Sender.Destination

namespace MegaKV.Receiver

open Library Slab

/-- Where the requests of a packet come from: its (ip, port). -/
abbrev Client := BitVec 32 × BitVec 16

def BatchBuf.client (buf : BatchBuf) (k : Nat) : Client := Sender.client buf.toSearchBuf k

def BatchBuf.num (buf : BatchBuf) (k : Nat) : Nat := (buf.searchJobList k).num

section Adding

variable {build : Build} {v : View} {key nkey id kk : Nat} {ip : BitVec 32} {port : BitVec 16} {buf added : BatchBuf}

/-- The search part is the same but for one more search, which has the entry `k` now. -/
structure AddedAt (buf added : BatchBuf) (k : Nat) (job : Sender.SearchJob) : Prop where
  list : added.searchJobList = Function.update buf.searchJobList k job
  numCompactSearchJob : added.numCompactSearchJob = k
  numSearchJob : added.numSearchJob = buf.numSearchJob + 1

def extended (buf : BatchBuf) : Sender.SearchJob :=
  { buf.searchJobList buf.numCompactSearchJob with num := (buf.num buf.numCompactSearchJob + 1) % 2 ^ 16 }

def opened (buf : BatchBuf) (ethAddr : BitVec 48) (ip : BitVec 32) (port : BitVec 16) : Sender.SearchJob :=
  { buf.searchJobList (buf.numCompactSearchJob + 1) with
    ethAddr := ethAddr, ip := ip, port := port, num := 1, index := buf.numSearchJob }

theorem addCompactJob_cases (result : addCompactJob v ip port buf = .ok added) :
    added.numSearchJob = buf.numSearchJob ∧
      (buf.client buf.numCompactSearchJob = (ip, port) ∧
          added.searchJobList = Function.update buf.searchJobList buf.numCompactSearchJob (extended buf) ∧
          added.numCompactSearchJob = buf.numCompactSearchJob ∨
        buf.client buf.numCompactSearchJob ≠ (ip, port) ∧ ∃ ethAddr,
          added.searchJobList =
            Function.update buf.searchJobList (buf.numCompactSearchJob + 1) (opened buf ethAddr ip port) ∧
          added.numCompactSearchJob = buf.numCompactSearchJob + 1) := by
  simp only [addCompactJob] at result
  split at result
  · rename_i same
    cases result
    exact ⟨rfl, .inl ⟨Prod.ext same.1 same.2, rfl, rfl⟩⟩
  · rename_i differs
    cases read : readEthAddr v with
    | error stop =>
      rw [read] at result
      cases result
    | ok ethAddr =>
      rw [read] at result
      cases result
      refine ⟨rfl, .inr ⟨?_, ethAddr, rfl, rfl⟩⟩
      intro same
      exact differs ⟨congrArg Prod.fst same, congrArg Prod.snd same⟩

theorem addSearch_split (result : addSearch build v key nkey ip port buf = .ok added) :
    ∃ joined sig, addJob build v key nkey ip port buf = .ok joined ∧
      added = { joined with
        searchIn := Function.update joined.searchIn joined.numSearchJob { hash := sigHash sig, sig := sigSign sig }
        numSearchJob := joined.numSearchJob + 1 } := by
  unfold addSearch at result
  cases job : addJob build v key nkey ip port buf with
  | error stop =>
    rw [job] at result
    cases result
  | ok joined =>
    rw [job] at result
    cases signed : keySig build v key nkey with
    | error stop =>
      simp only [bind, Except.bind, signed] at result
      cases result
    | ok sig =>
      simp only [bind, Except.bind, signed] at result
      cases result
      exact ⟨joined, sig, rfl, rfl⟩

theorem addSearch_compact (compact : build.compactJob = true)
    (result : addSearch build v key nkey ip port buf = .ok added) :
    buf.client buf.numCompactSearchJob = (ip, port) ∧ AddedAt buf added buf.numCompactSearchJob (extended buf) ∨
      buf.client buf.numCompactSearchJob ≠ (ip, port) ∧
        ∃ ethAddr, AddedAt buf added (buf.numCompactSearchJob + 1) (opened buf ethAddr ip port) := by
  obtain ⟨joined, sig, job, rfl⟩ := addSearch_split result
  rw [addJob, if_pos compact] at job
  obtain ⟨searches, ⟨same, list, count⟩ | ⟨differs, ethAddr, list, count⟩⟩ := addCompactJob_cases job
  · exact .inl ⟨same, ⟨list, count, congrArg (· + 1) searches⟩⟩
  · exact .inr ⟨differs, ethAddr, ⟨list, count, congrArg (· + 1) searches⟩⟩

/-- One attempt: there is no room, or the search is added. -/
theorem searchAttempts_once {r : State} {outcome : Outcome}
    (result : searchAttempts build v key nkey ip port [id] kk r = .ok outcome) :
    batchMaxSearchJob - 1 ≤ (r.bufs id).numSearchJob ∧ outcome = .returns (-1) r ∨
      (r.bufs id).numSearchJob < batchMaxSearchJob - 1 ∧
        ∃ added, addSearch build v key nkey ip port (r.bufs id) = .ok added ∧
          outcome = .goesOn nkey (kk + 1) { r.setBuf id added with numSearchJob := r.numSearchJob + 1 } := by
  simp only [searchAttempts, List.isEmpty_nil, if_true] at result
  split at result
  · cases result
    exact .inl ⟨by assumption, rfl⟩
  · cases read : addSearch build v key nkey ip port (r.bufs id) with
    | error stop =>
      rw [read] at result
      cases result
    | ok added =>
      rw [read] at result
      cases result
      exact .inr ⟨by omega, added, rfl, rfl⟩

end Adding

section Encoding

def numSum (buf : BatchBuf) (n : Nat) : Nat := ((List.range' 1 n).map buf.num).sum

def entriesTo (buf : BatchBuf) (n : Nat) : Runs Client := (List.range' 1 n).map (fun k => (buf.client k, buf.num k))

def entries (buf : BatchBuf) : Runs Client := entriesTo buf buf.numCompactSearchJob

/-- The entries are a run-length encoding of the clients, in the order of the search indexes. -/
structure Encodes (buf : BatchBuf) (clients : List Client) : Prop where
  starts : ∀ k, 1 ≤ k → k ≤ buf.numCompactSearchJob → (buf.searchJobList k).index = numSum buf (k - 1)
  sums : numSum buf buf.numCompactSearchJob = buf.numSearchJob
  expands : Runs.expand (entries buf) = clients
  room : buf.numSearchJob ≤ batchMaxSearchJob - 1

variable {buf added : BatchBuf} {clients : List Client}

theorem entriesTo_succ (buf : BatchBuf) (n : Nat) :
    entriesTo buf (n + 1) = entriesTo buf n ++ [(buf.client (n + 1), buf.num (n + 1))] := by
  rw [entriesTo, List.range'_1_concat, List.map_append, Nat.add_comm 1 n]
  rfl

theorem total_entriesTo (buf : BatchBuf) (n : Nat) : Runs.total (entriesTo buf n) = numSum buf n := by
  rw [Runs.total, entriesTo, List.map_map]
  rfl

theorem entriesTo_congr {n : Nat}
    (same : ∀ k ≤ n, 1 ≤ k → added.searchJobList k = buf.searchJobList k) : entriesTo added n = entriesTo buf n := by
  apply List.map_congr_left
  intro k member
  obtain ⟨first, last⟩ := List.mem_range'_1.mp member
  simp only [BatchBuf.client, Sender.client, BatchBuf.num, same k (by omega) first]

theorem entriesTo_last {n : Nat} {run : Client × Nat} (last : (entriesTo buf n).getLast? = some run) :
    run.1 = buf.client n := by
  cases n with
  | zero => cases last
  | succ n =>
    rw [entriesTo_succ, List.getLast?_concat] at last
    cases last
    rfl

theorem AddedAt.before {k : Nat} {job : Sender.SearchJob} (place : AddedAt buf added k job) {n : Nat} (below : n < k) :
    entriesTo added n = entriesTo buf n := by
  apply entriesTo_congr
  intro j inside _
  rw [place.list, Function.update_of_ne (by omega)]

theorem AddedAt.entries {k : Nat} {job : Sender.SearchJob} (place : AddedAt buf added (k + 1) job) :
    entries added = entriesTo buf k ++ [((job.ip, job.port), job.num)] := by
  rw [Receiver.entries, place.numCompactSearchJob, entriesTo_succ, place.before (Nat.lt_succ_self k)]
  simp only [BatchBuf.client, Sender.client, BatchBuf.num, place.list, Function.update_self]

theorem entries_extended {mark : Nat} {client : Client} (marked : buf.numCompactSearchJob = mark + 1)
    (same : buf.client (mark + 1) = client) (small : buf.num (mark + 1) + 1 < 2 ^ 16)
    (place : AddedAt buf added (mark + 1) (extended buf)) : entries added = Runs.push (entries buf) client := by
  have count : (extended buf).num = buf.num (mark + 1) + 1 := by
    rw [extended, marked]
    exact Nat.mod_eq_of_lt small
  have owner : ((extended buf).ip, (extended buf).port) = client := by
    rw [← same, extended, marked]
    rfl
  rw [place.entries, count, owner, entries, marked, entriesTo_succ, same, Runs.push_same]

theorem entries_opened {ethAddr : BitVec 48} {ip : BitVec 32} {port : BitVec 16}
    (differs : buf.client buf.numCompactSearchJob ≠ (ip, port))
    (place : AddedAt buf added (buf.numCompactSearchJob + 1) (opened buf ethAddr ip port)) :
    entries added = Runs.push (entries buf) (ip, port) := by
  rw [place.entries, Runs.push_other]
  · rfl
  · intro run last
    rw [entriesTo_last last]
    exact differs

theorem Encodes.empty (searches : buf.numSearchJob = 0) (marked : buf.numCompactSearchJob = 0) : Encodes buf [] where
  starts := by
    intro k first last
    omega
  sums := by
    rw [marked, searches]
    rfl
  expands := by
    rw [entries, marked]
    rfl
  room := by
    rw [searches]
    exact Nat.zero_le _

theorem Encodes.total (encodes : Encodes buf clients) : Runs.total (entries buf) = buf.numSearchJob := by
  rw [entries, total_entriesTo, encodes.sums]

theorem Encodes.length (encodes : Encodes buf clients) : clients.length = buf.numSearchJob := by
  rw [← encodes.expands, Runs.expand_length, encodes.total]

theorem Encodes.small (encodes : Encodes buf clients) : buf.numSearchJob < 2 ^ 16 := by
  have room := encodes.room
  have bound : batchMaxSearchJob = 32768 := rfl
  omega

/-- One more search is one more value of the encoding. -/
theorem Encodes.pushed (encodes : Encodes buf clients) {client : Client} {k : Nat} {job : Sender.SearchJob}
    (place : AddedAt buf added (k + 1) job) (start : job.index = numSum buf k) (grown : k ≤ buf.numCompactSearchJob)
    (pushed : entries added = Runs.push (entries buf) client) (room : buf.numSearchJob < batchMaxSearchJob - 1) :
    Encodes added (clients ++ [client]) where
  starts := by
    intro j first last
    rw [place.numCompactSearchJob] at last
    rw [← total_entriesTo, place.before (by omega), total_entriesTo, place.list]
    by_cases newest : j = k + 1
    · subst newest
      rw [Function.update_self]
      exact start
    · rw [Function.update_of_ne newest]
      exact encodes.starts j first (by omega)
  sums := by
    rw [← total_entriesTo, place.numSearchJob, ← encodes.total, ← Runs.total_push, ← pushed]
    rfl
  expands := by rw [pushed, Runs.expand_push, encodes.expands]
  room := by
    rw [place.numSearchJob]
    exact room

theorem Encodes.search {build : Build} {v : View} {key nkey : Nat} {ip : BitVec 32} {port : BitVec 16}
    (encodes : Encodes buf clients) (compact : build.compactJob = true) (stranger : buf.client 0 ≠ (ip, port))
    (room : buf.numSearchJob < batchMaxSearchJob - 1) (result : addSearch build v key nkey ip port buf = .ok added) :
    Encodes added (clients ++ [(ip, port)]) ∧ added.client 0 = buf.client 0 := by
  obtain ⟨same, place⟩ | ⟨differs, ethAddr, place⟩ := addSearch_compact compact result
  · -- slot 0 belongs to no client, so the entry at hand is one of the list
    obtain ⟨mark, marked⟩ : ∃ mark, buf.numCompactSearchJob = mark + 1 := by
      apply Nat.exists_eq_succ_of_ne_zero
      intro none
      rw [none] at same
      exact stranger same
    rw [marked] at place same
    have start : (extended buf).index = numSum buf mark := by
      rw [extended, marked]
      exact encodes.starts (mark + 1) (Nat.succ_pos mark) (Nat.le_of_eq marked.symm)
    have sums := encodes.sums
    rw [marked, ← total_entriesTo, entriesTo_succ, Runs.total_append, Runs.total_single] at sums
    have small : buf.num (mark + 1) + 1 < 2 ^ 16 := by
      have bound : batchMaxSearchJob = 32768 := rfl
      omega
    constructor
    · exact encodes.pushed place start (by omega) (entries_extended marked same small place) room
    · simp only [BatchBuf.client, Sender.client, place.list, Function.update_of_ne (Nat.succ_ne_zero mark).symm]
  · constructor
    · exact encodes.pushed place encodes.sums.symm (Nat.le_refl _) (entries_opened differs place) room
    · simp only [BatchBuf.client, Sender.client, place.list, Function.update_of_ne (Nat.succ_ne_zero _).symm]

end Encoding

section Filling

/-- `mega_sender_refresh_buffer`, without the count of delete jobs. -/
def BatchBuf.refresh (buf : BatchBuf) (delay : Int) : BatchBuf :=
  let buf := { buf with numCompactSearchJob := 0, numSearchJob := 0 }
  if delay = 0 then
    { buf with
      numInsertJob := 0
      insertBuf := fun i =>
        if i < Scheduler.numInsertBuf then { buf.insertBuf i with numInsertJob := 0 } else buf.insertBuf i }
  else buf

/-- The sender counts `num` down and `index` up, of the entries behind position 0. -/
structure Consumed (buf consumed : BatchBuf) : Prop where
  entry : ∀ k, 1 ≤ k → ∃ num index, consumed.searchJobList k = { buf.searchJobList k with num := num, index := index }
  sentinel : consumed.searchJobList 0 = buf.searchJobList 0

/-- A buffer with the clients that have sent the GETs it holds, since its last refresh. -/
structure Filling where
  buf : BatchBuf
  clients : List Client

inductive FillStep (build : Build) (id : Nat) (sentinel : Client) : Filling → Filling → Prop where
  | get (s : Filling) (v : View) (ip : BitVec 32) (port : BitVec 16) (ptr kk body : Nat) (r after : State)
      (received : r.bufs id = s.buf) (stranger : sentinel ≠ (ip, port))
      (result : getRequest build v ⟨id, []⟩ ip port ptr kk r = .ok (.goesOn body (kk + 1) after)) :
      FillStep build id sentinel s ⟨after.bufs id, s.clients ++ [(ip, port)]⟩
  | set (s : Filling) (memcpy : Memcpy) (v : View) (supply : Supply) (evictions : Nat → Attempts) (attempts : Attempts)
      (ptr kk : Nat) (r : State) (outcome : Outcome) (received : r.bufs id = s.buf)
      (result : setRequest build memcpy v supply evictions attempts ptr kk r = .ok outcome) :
      FillStep build id sentinel s ⟨outcome.state.bufs id, s.clients⟩
  | reuse (s : Filling) (consumed : BatchBuf) (changed : Consumed s.buf consumed) (delay : Int) :
      FillStep build id sentinel s ⟨consumed.refresh delay, []⟩

def filling (build : Build) (id : Nat) (sentinel : Client) : TransitionSystem Filling :=
  { initial := fun s =>
      s.buf.numSearchJob = 0 ∧ s.buf.numCompactSearchJob = 0 ∧ s.buf.client 0 = sentinel ∧ s.clients = []
    step := FillStep build id sentinel }

end Filling

section Steps

variable {build : Build} {id : Nat} {sentinel : Client} {s : Filling}

@[simp] theorem setBuf_self (r : State) (id : Nat) (buf : BatchBuf) : (r.setBuf id buf).bufs id = buf :=
  Function.update_self _ _ _

theorem setBuf_other {other : Nat} (r : State) (buf : BatchBuf) (differs : other ≠ id) :
    (r.setBuf id buf).bufs other = r.bufs other := Function.update_of_ne differs _ _

def SameSearch (r r' : State) : Prop := ∀ id, (r'.bufs id).toSearchBuf = (r.bufs id).toSearchBuf

theorem insertAttempts_search {body : Nat} {it : Ptr} {hash : Hash.HashWord} {sig : Hash.Sign} {ids : List Nat}
    {kk : Nat} {r : State} : SameSearch r (insertAttempts body it hash sig ids kk r).state := by
  induction ids generalizing r with
  | nil => exact fun _ => rfl
  | cons first again ih =>
    simp only [insertAttempts]
    split
    · exact fun _ => rfl
    · split
      · exact fun _ => rfl
      · intro id
        rw [ih]
        by_cases here : id = first
        · subst here
          rw [setBuf_self]
          split <;> rfl
        · rw [setBuf_other r _ here]

theorem setRequest_search {memcpy : Memcpy} {v : View} {supply : Supply} {evictions : Nat → Attempts}
    {attempts : Attempts} {ptr kk : Nat} {r : State} {outcome : Outcome}
    (result : setRequest build memcpy v supply evictions attempts ptr kk r = .ok outcome) :
    SameSearch r outcome.state := by
  obtain ⟨_, _, _, _, prepared, _, same, ends⟩ := setRequest_cases result
  cases ends with
  | inl ends =>
    intro id
    rw [ends, same.bufs]
  | inr ends =>
    obtain ⟨body, hash, sig, rfl⟩ := ends
    intro id
    rw [insertAttempts_search, same.bufs]

theorem Encodes.congr {buf other : BatchBuf} {clients : List Client} (encodes : Encodes buf clients)
    (same : other.toSearchBuf = buf.toSearchBuf) : Encodes other clients := by
  have list : other.searchJobList = buf.searchJobList := congrArg Sender.SearchBuf.searchJobList same
  have count : other.numCompactSearchJob = buf.numCompactSearchJob :=
    congrArg Sender.SearchBuf.numCompactSearchJob same
  have searches : other.numSearchJob = buf.numSearchJob := congrArg Sender.SearchBuf.numSearchJob same
  have sums : ∀ n, numSum other n = numSum buf n := by
    intro n
    rw [numSum, numSum, show other.num = buf.num from funext fun k => by rw [BatchBuf.num, BatchBuf.num, list]]
  constructor
  · intro k first last
    rw [count] at last
    rw [list, sums]
    exact encodes.starts k first last
  · rw [count, searches, sums]
    exact encodes.sums
  · rw [← encodes.expands]
    simp only [entries, entriesTo, BatchBuf.client, BatchBuf.num, same]
  · rw [searches]
    exact encodes.room

structure Sound (sentinel : Client) (s : Filling) : Prop where
  encodes : Encodes s.buf s.clients
  sentinel : s.buf.client 0 = sentinel

theorem Sound.get {v : View} {ip : BitVec 32} {port : BitVec 16} {ptr kk body : Nat} {r after : State}
    (sound : Sound sentinel s) (compact : build.compactJob = true) (received : r.bufs id = s.buf)
    (stranger : sentinel ≠ (ip, port))
    (result : getRequest build v ⟨id, []⟩ ip port ptr kk r = .ok (.goesOn body (kk + 1) after)) :
    Sound sentinel ⟨after.bufs id, s.clients ++ [(ip, port)]⟩ := by
  cases getRequest_cases result with
  | inl refused =>
    obtain ⟨nkey, refused⟩ := refused
    injection refused with _ count
    exact absurd count (Nat.succ_ne_self kk)
  | inr attempted =>
    obtain ⟨nkey, attempted⟩ := attempted
    change searchAttempts build v (ptr + 2) nkey ip port [id] kk r = _ at attempted
    cases searchAttempts_once attempted with
    | inl full => cases full.2
    | inr taken =>
      obtain ⟨room, added, searched, ends⟩ := taken
      cases ends
      rw [received] at searched room
      have new : s.buf.client 0 ≠ (ip, port) := by
        rw [sound.sentinel]
        exact stranger
      obtain ⟨encodes, slot⟩ := sound.encodes.search compact new room searched
      constructor
      · change Encodes ((r.setBuf id added).bufs id) _
        rw [setBuf_self]
        exact encodes
      · change ((r.setBuf id added).bufs id).client 0 = sentinel
        rw [setBuf_self, slot]
        exact sound.sentinel

theorem Consumed.refreshed {buf consumed : BatchBuf} (changed : Consumed buf consumed) (delay : Int) :
    (consumed.refresh delay).client 0 = buf.client 0 := by
  have kept : (consumed.refresh delay).searchJobList = consumed.searchJobList := by
    unfold BatchBuf.refresh
    split <;> rfl
  simp only [BatchBuf.client, Sender.client, kept, changed.sentinel]

theorem refresh_empty (buf : BatchBuf) (delay : Int) :
    (buf.refresh delay).numSearchJob = 0 ∧ (buf.refresh delay).numCompactSearchJob = 0 := by
  unfold BatchBuf.refresh
  split <;> exact ⟨rfl, rfl⟩

theorem sound_reachable (compact : build.compactJob = true) (reached : (filling build id sentinel).Reachable s) :
    Sound sentinel s := by
  induction reached with
  | initial start =>
    obtain ⟨searches, marked, slot, none⟩ := start
    refine ⟨?_, slot⟩
    rw [none]
    exact Encodes.empty searches marked
  | step _ next before =>
    cases next with
    | get v ip port ptr kk body r after received stranger result => exact before.get compact received stranger result
    | set memcpy v supply evictions attempts ptr kk r outcome received result =>
      have same := setRequest_search result id
      rw [received] at same
      refine ⟨before.encodes.congr same, ?_⟩
      rw [← before.sentinel]
      simp only [BatchBuf.client, same]
    | reuse consumed changed delay =>
      obtain ⟨searches, marked⟩ := refresh_empty consumed delay
      refine ⟨Encodes.empty searches marked, ?_⟩
      rw [changed.refreshed]
      exact before.sentinel

end Steps

section Packets

variable {build : Build} {id : Nat} {sentinel : Client} {s : Filling}

/-- A state of the receiver is reached with the clients of a run, and some more GETs of one client. -/
def Follows (build : Build) (id : Nat) (sentinel client : Client) (r r' : State) : Prop :=
  ∀ clients, (filling build id sentinel).Reachable ⟨r.bufs id, clients⟩ →
    ∃ n, (filling build id sentinel).Reachable ⟨r'.bufs id, clients ++ List.replicate n client⟩

theorem Follows.refl (client : Client) (r : State) : Follows build id sentinel client r r := by
  intro clients reached
  refine ⟨0, ?_⟩
  rw [List.replicate_zero, List.append_nil]
  exact reached

theorem Follows.trans {client : Client} {r middle last : State} (first : Follows build id sentinel client r middle)
    (second : Follows build id sentinel client middle last) : Follows build id sentinel client r last := by
  intro clients reached
  obtain ⟨n, reached⟩ := first clients reached
  obtain ⟨k, reached⟩ := second _ reached
  refine ⟨n + k, ?_⟩
  rw [← List.replicate_append_replicate, ← List.append_assoc]
  exact reached

theorem request_follows {memcpy : Memcpy} {env : Env} {v : View} {ip : BitVec 32} {port : BitVec 16}
    {n ptr kk : Nat} {r : State} {outcome : Outcome} (once : env.attempts n = ⟨id, []⟩)
    (stranger : sentinel ≠ (ip, port)) (result : request build memcpy env v ip port n ptr kk r = .ok outcome) :
    Follows build id sentinel (ip, port) r outcome.state := by
  rcases request_cases result with same | got | stored
  · rw [same]
    exact Follows.refl _ _
  · rw [once] at got
    rcases getRequest_cases got with ⟨nkey, refused⟩ | ⟨nkey, attempted⟩
    · rw [refused]
      exact Follows.refl _ _
    · rcases searchAttempts_once attempted with ⟨_, full⟩ | ⟨_, added, _, taken⟩
      · rw [full]
        exact Follows.refl _ _
      · rw [taken] at got ⊢
        intro clients reached
        exact ⟨1, reached.step (.get _ v ip port (ptr + 2) kk nkey r _ rfl stranger got)⟩
  · intro clients reached
    refine ⟨0, ?_⟩
    rw [List.replicate_zero, List.append_nil]
    exact reached.step (.set _ memcpy v _ _ _ _ _ r outcome rfl stored)

theorem processPacket_follows {memcpy : Memcpy} {env : Env} {packet : Nat → Byte} {pktLen : Nat} {r last : State}
    {value : Int} (once : ∀ n, env.attempts n = ⟨id, []⟩) (stranger : sentinel ≠ packetClient packet)
    (result : processPacket build memcpy env (.whole packet) pktLen r = .ok (value, last)) :
    Follows build id sentinel (packetClient packet) r last := by
  cases processPacket_requests result with
  | inl same =>
    rw [same]
    exact Follows.refl _ _
  | inr looped =>
    obtain ⟨ip, port, sender, looped⟩ := looped
    rw [← sender packet rfl] at stranger ⊢
    apply @requests_rule build memcpy env _ _ _ (Follows build id sentinel (ip, port)) _ _ _ _ _ _ _ _ _ looped
    · intro r middle last first second
      exact first.trans second
    · intro n ptr kk r outcome served
      exact request_follows (once n) stranger served

theorem Follows.grown {client : Client} {r last : State} (follows : Follows build id sentinel client r last)
    (compact : build.compactJob = true) {clients : List Client}
    (reached : (filling build id sentinel).Reachable ⟨r.bufs id, clients⟩) :
    ∃ n, (last.bufs id).numSearchJob = (r.bufs id).numSearchJob + n ∧
      (filling build id sentinel).Reachable ⟨last.bufs id, clients ++ List.replicate n client⟩ := by
  obtain ⟨n, goesOn⟩ := follows clients reached
  have before := (sound_reachable compact reached).encodes.length
  have behind := (sound_reachable compact goesOn).encodes.length
  change clients.length = (r.bufs id).numSearchJob at before
  change (clients ++ List.replicate n client).length = (last.bufs id).numSearchJob at behind
  rw [List.length_append, List.length_replicate, before] at behind
  exact ⟨n, behind.symm, goesOn⟩

/-- In every run the entries encode the clients, and each packet goes on with such a run. -/
theorem compact_list_encodes (compact : build.compactJob = true) (reached : (filling build id sentinel).Reachable s) :
    Encodes s.buf s.clients ∧ s.buf.numSearchJob < 2 ^ 16 ∧
      ∀ memcpy env packet pktLen r value last, r.bufs id = s.buf → (∀ n, env.attempts n = ⟨id, []⟩) →
        sentinel ≠ packetClient packet →
        processPacket build memcpy env (.whole packet) pktLen r = .ok (value, last) →
        ∃ n, (last.bufs id).numSearchJob = s.buf.numSearchJob + n ∧
          (filling build id sentinel).Reachable
            ⟨last.bufs id, s.clients ++ List.replicate n (packetClient packet)⟩ := by
  have sound := sound_reachable compact reached
  refine ⟨sound.encodes, sound.encodes.small, ?_⟩
  intro memcpy env packet pktLen r value last received once stranger result
  rw [← received]
  apply (processPacket_follows once stranger result).grown compact
  rw [received]
  exact reached

section Clients

def twoGets : List (Request defaultBuild) := [.get pairKey, .get pairKey]

/-- The packet of the two requests from the client with this first byte of the port. -/
def getsPacket (port : Byte) : Nat → Byte := fun k =>
  if k = 34 then port else (encodePayload twoGets).getD (k - Sender.eiuHdrLen) 0

def askedState : State :=
  { memory := Sender.uniformMemory Sender.plainItem
    batch := { localSlab := fun _ => none, buf := fun _ => { numDeleteJob := 0, deleteIn := fun _ => ⟨0, 0, 0⟩ } }
    bufs := fun _ => emptyBuf
    numSearchJob := 0
    numInsertJob := 0 }

def asked (buf : BatchBuf) : State := { askedState with bufs := fun _ => buf }

def BatchBuf.answered (buf : BatchBuf) : BatchBuf :=
  { buf with
    searchJobList := fun k =>
      if k = 0 then buf.searchJobList 0 else { buf.searchJobList k with num := 0, index := buf.numSearchJob } }

theorem answered_consumed (buf : BatchBuf) : Consumed buf buf.answered := by
  constructor
  · intro k first
    exact ⟨0, buf.numSearchJob, if_neg (Nat.ne_of_gt first)⟩
  · rfl

theorem twoGets_served (port : Byte) {r : State} (room : Room twoGets (r.bufs 0))
    (vacant : ∀ i, r.batch.localSlab i = none) :
    ∃ last, processPacket defaultBuild memcpyData calmEnv (.whole (getsPacket port)) 70 r = .ok (2, last) ∧
      Served 0 twoGets [] r last := by
  have payload : Stands (getsPacket port) Sender.eiuHdrLen (encodePayload twoGets) := by
    apply (Stands.shifted (encodePayload twoGets) Sender.eiuHdrLen 0).congr
    intro k _
    have header : Sender.eiuHdrLen = 42 := rfl
    exact if_neg (by omega)
  have length : 70 = Sender.eiuHdrLen + (encodePayload twoGets).length := by decide
  have ready : Ready defaultBuild (setHashes twoGets) [] [] r :=
    ⟨rfl, List.nodup_nil, vacant _, fun _ member => absurd member List.not_mem_nil⟩
  have small : defaultBuild.Small := ⟨rfl, rfl, rfl⟩
  exact packet_served small.plain small.lengths (fun _ _ _ _ _ => rfl) (fun _ => rfl) payload length room ready

theorem Room.front {first second : List (Request build)} {buf : BatchBuf} (room : Room (first ++ second) buf) :
    Room first buf := by
  have search := room.search
  have insert := room.insert
  rw [searches_append, List.length_append] at search
  rw [setHashes_append, List.length_append] at insert
  refine ⟨by omega, by omega, ?_⟩
  intro block
  have slots := room.block block
  rw [setHashes_append, List.countP_append] at slots
  omega

theorem Room.refreshed {requests : List (Request build)} {buf : BatchBuf} (room : Room requests buf) :
    Room requests (buf.answered.refresh 0) := by
  refine ⟨Nat.le_trans (Nat.add_le_add_right (Nat.zero_le _) _) room.search,
    Nat.le_trans (Nat.add_le_add_right (Nat.zero_le _) _) room.insert, ?_⟩
  intro block
  have fewer : ((buf.answered.refresh 0).insertBuf block).numInsertJob ≤ (buf.insertBuf block).numInsertJob := by
    simp only [BatchBuf.refresh, if_true, BatchBuf.answered]
    split
    · exact Nat.zero_le _
    · exact Nat.le_refl _
  exact Nat.le_trans (Nat.add_le_add_right fewer _) (room.block block)

theorem emptyBuf_room : Room (twoGets ++ (twoGets ++ twoGets)) emptyBuf :=
  ⟨by decide, by decide, fun _ => Nat.zero_le _⟩

theorem compact_list_encodes_clients : ∃ first second again : State,
    processPacket defaultBuild memcpyData calmEnv (.whole (getsPacket 1)) 70 (asked emptyBuf) = .ok (2, first) ∧
      processPacket defaultBuild memcpyData calmEnv (.whole (getsPacket 2)) 70 (asked (first.bufs 0)) = .ok (2, second) ∧
      Encodes (second.bufs 0) (List.replicate 2 (packetClient (getsPacket 1)) ++
        List.replicate 2 (packetClient (getsPacket 2))) ∧
      processPacket defaultBuild memcpyData calmEnv (.whole (getsPacket 2)) 70
        (asked ((second.bufs 0).answered.refresh 0)) = .ok (2, again) ∧
      Encodes (again.bufs 0) (List.replicate 2 (packetClient (getsPacket 2))) := by
  have turn : ∀ port : Byte, ((0, 0) : Client) ≠ packetClient (getsPacket port) → ∀ buf clients,
      (filling defaultBuild 0 (0, 0)).Reachable ⟨buf, clients⟩ → Room twoGets buf →
      ∃ last, processPacket defaultBuild memcpyData calmEnv (.whole (getsPacket port)) 70 (asked buf) = .ok (2, last) ∧
        Served 0 twoGets [] (asked buf) last ∧ (filling defaultBuild 0 (0, 0)).Reachable
          ⟨last.bufs 0, clients ++ List.replicate 2 (packetClient (getsPacket port))⟩ := by
    intro port stranger buf clients reached room
    obtain ⟨last, result, served⟩ := @twoGets_served port (asked buf) room (fun _ => rfl)
    obtain ⟨_, _, goesOn⟩ := compact_list_encodes rfl reached
    obtain ⟨n, grown, more⟩ := goesOn _ _ _ _ (asked buf) _ _ rfl (fun _ => rfl) stranger result
    have count : n = 2 := Nat.add_left_cancel (grown.symm.trans served.numSearchJob)
    subst count
    exact ⟨last, result, served, more⟩
  have start : (filling defaultBuild 0 (0, 0)).Reachable ⟨emptyBuf, []⟩ := .initial ⟨rfl, rfl, rfl, rfl⟩
  have room := emptyBuf_room
  obtain ⟨first, packet, served, reached⟩ := turn 1 (by decide) _ _ start room.front
  have next : Room (twoGets ++ twoGets) (first.bufs 0) := @Room.rest _ _ _ _ _ (asked emptyBuf) _ room rfl served
  obtain ⟨second, other, followed, both⟩ := turn 2 (by decide) _ _ reached next.front
  have last : Room twoGets (second.bufs 0) := @Room.rest _ _ _ _ _ (asked (first.bufs 0)) _ next rfl followed
  have reused := both.step (.reuse _ _ (answered_consumed _) 0)
  obtain ⟨again, repeated, _, refilled⟩ := turn 2 (by decide) _ _ reused last.refreshed
  exact ⟨first, second, again, packet, other, (compact_list_encodes rfl both).1, repeated,
    (compact_list_encodes rfl refilled).1⟩

end Clients

end Packets

section Attribution

variable {buf : BatchBuf} {clients : List Client}

theorem Encodes.indexes (encodes : Encodes buf clients) {n : Nat} (inside : n ≤ buf.numCompactSearchJob) :
    (Sender.ownedFrom buf.toSearchBuf 1 n).map Prod.fst = List.range (numSum buf n) := by
  induction n with
  | zero => rfl
  | succ n ih =>
    have start := encodes.starts (n + 1) (Nat.succ_pos n) inside
    rw [Nat.add_sub_cancel] at start
    have grown : numSum buf (n + 1) = numSum buf n + buf.num (n + 1) := by
      rw [← total_entriesTo, entriesTo_succ, Runs.total_append, Runs.total_single, total_entriesTo]
    have last : ((List.range' (buf.searchJobList (n + 1)).index (buf.searchJobList (n + 1)).num).map
        (fun i => (i, n + 1))).map Prod.fst = List.range' (numSum buf n) (buf.num (n + 1)) := by
      rw [List.map_map, start]
      exact List.map_id' _
    rw [Sender.ownedFrom, List.range'_1_concat, List.flatMap_append, List.map_append, Nat.add_comm 1 n, List.flatMap_singleton,
      last, grown, List.range_add]
    change (Sender.ownedFrom buf.toSearchBuf 1 n).map Prod.fst ++ _ = _
    rw [ih (by omega), List.range'_eq_map_range]

/-- What the sender assumes of a list with searches. -/
theorem Encodes.attributed (encodes : Encodes buf clients) (some : 0 < buf.numSearchJob) :
    Sender.Attributed buf.toSearchBuf where
  start := by
    have sums := encodes.sums
    have marked : 1 ≤ buf.numCompactSearchJob := by
      rcases Nat.eq_zero_or_pos buf.numCompactSearchJob with empty | marked
      · rw [empty] at sums
        change 0 = _ at sums
        omega
      · exact marked
    exact encodes.starts 1 (Nat.le_refl 1) marked
  indexes := by
    rw [← encodes.sums]
    exact encodes.indexes (Nat.le_refl _)

end Attribution

end MegaKV.Receiver
