import MegaKV.Receiver.RoundTrip
import MegaKV.Receiver.Writes

namespace MegaKV.Receiver

open Library Slab

section Sent

variable (build : Build)

structure WrongSet where
  nkey : BitVec 16
  nbyte : BitVec 32
  body : List Byte
  wrong : ¬(nkey.toNat = build.maxKeyLength ∧ nbyte.toNat = build.maxValueLength)
  declared : body.length = nkey.toNat + nbyte.toNat ∨ slabSize powerLargest < nkey.toNat + nbyte.toNat

inductive Sent where
  | proper (request : Request build)
  | wrong (set : WrongSet build)

variable {build}

def WrongSet.encode (set : WrongSet build) : List Byte :=
  bytes16 megaJobSet ++ bytes16 set.nkey ++ bytes32 set.nbyte ++ set.body

def Sent.encode : Sent build → List Byte
  | .proper request => request.encode
  | .wrong set => set.encode

def propers : List (Sent build) → List (Request build)
  | [] => []
  | .proper request :: rest => request :: propers rest
  | .wrong _ :: rest => propers rest

/-- The number that the `n`-th proper request has in the packet. -/
def place : List (Sent build) → Nat → Nat
  | [], n => n
  | .proper _ :: _, 0 => 0
  | .proper _ :: rest, n + 1 => place rest n + 1
  | .wrong _ :: rest, n => place rest n + 1

def sentPayload (sent : List (Sent build)) : List Byte :=
  bytes16 protocolMagic ++ (sent.flatMap Sent.encode ++ bytes16 endMark)

/-- A packet with this payload; `frame` is the header and what lies behind the packet. -/
def datagram (frame : Nat → Byte) (payload : List Byte) : Nat → Byte :=
  fun k => if k < Sender.eiuHdrLen then frame k else payload.getD (k - Sender.eiuHdrLen) (frame k)

def Env.renumber (env : Env) (number : Nat → Nat) : Env :=
  { supply := fun n => env.supply (number n)
    evictions := fun n => env.evictions (number n)
    attempts := fun n => env.attempts (number n) }

def processPayload (build : Build) (memcpy : Memcpy) (env : Env) (frame : Nat → Byte) (payload : List Byte) (r : State) :
    Reading (Int × State) :=
  processPacket build memcpy env (.whole (datagram frame payload)) (Sender.eiuHdrLen + payload.length) r

/-- The same local free lists, items and insert buffers. -/
structure SameEffect (left right : State) : Prop where
  localSlab : left.batch.localSlab = right.batch.localSlab
  heap : left.memory.heap = right.memory.heap
  insertJobList : ∀ id, (left.bufs id).insertJobList = (right.bufs id).insertJobList
  numInsertJob : ∀ id, (left.bufs id).numInsertJob = (right.bufs id).numInsertJob
  insertBuf : ∀ id, (left.bufs id).insertBuf = (right.bufs id).insertBuf

variable {Worker : Type} [DecidableEq Worker]

def NoEffect (worker : Worker) (sent : List (Sent build)) : Prop :=
  ∀ memcpy, Copies memcpy → ∀ s : Slab.State Worker, (allocation Worker).Reachable s →
    ∀ r : State, r.memory = s.memory → r.batch = s.batchSet worker → ∀ env frame value last,
      processPayload build memcpy (env.renumber (place sent)) frame (encodePayload (propers sent)) r = .ok (value, last) →
        ∃ value' last', processPayload build memcpy env frame (sentPayload sent) r = .ok (value', last') ∧
          SameEffect last last'

end Sent

section Lists

variable {build : Build}

theorem place_strictMono (sent : List (Sent build)) : StrictMono (place sent) := by
  induction sent with
  | nil => exact strictMono_id
  | cons element rest ih =>
    cases element with
    | proper request =>
      intro a b before
      cases b with
      | zero => exact absurd before (Nat.not_lt_zero a)
      | succ b =>
        cases a with
        | zero => exact Nat.succ_pos _
        | succ a => exact Nat.succ_lt_succ (ih (Nat.lt_of_succ_lt_succ before))
    | wrong set => exact fun a b before => Nat.succ_lt_succ (ih before)

theorem place_proper {sent : List (Sent build)} (proper : ∀ set, Sent.wrong set ∉ sent) (n : Nat) : place sent n = n := by
  induction sent generalizing n with
  | nil => rfl
  | cons element rest ih =>
    have later := ih (fun set member => proper set (List.mem_cons_of_mem element member))
    cases element with
    | proper request =>
      cases n with
      | zero => rfl
      | succ n => exact congrArg Nat.succ (later n)
    | wrong set => exact absurd List.mem_cons_self (proper set)

theorem payload_proper {sent : List (Sent build)} (proper : ∀ set, Sent.wrong set ∉ sent) :
    sentPayload sent = encodePayload (propers sent) := by
  have requests : sent.flatMap Sent.encode = encodeRequests (propers sent) := by
    induction sent with
    | nil => rfl
    | cons element rest ih =>
      have later := ih (fun set member => proper set (List.mem_cons_of_mem element member))
      cases element with
      | proper request => exact congrArg (request.encode ++ ·) later
      | wrong set => exact absurd List.mem_cons_self (proper set)
  rw [sentPayload, requests]
  rfl

/-- A packet with a wrong SET has a first one. -/
theorem first_wrong {sent : List (Sent build)} {set : WrongSet build} (member : Sent.wrong set ∈ sent) :
    ∃ (before : List (Request build)) (first : WrongSet build) (rest : List (Sent build)),
      sent = before.map Sent.proper ++ .wrong first :: rest := by
  induction sent with
  | nil => exact absurd member List.not_mem_nil
  | cons element rest ih =>
    cases element with
    | wrong first => exact ⟨[], first, rest, rfl⟩
    | proper request =>
      rcases List.mem_cons.mp member with same | later
      · cases same
      · obtain ⟨before, first, behind, split⟩ := ih later
        exact ⟨request :: before, first, behind, congrArg (List.cons (.proper request)) split⟩

theorem noEffect_proper {Worker : Type} [DecidableEq Worker] (worker : Worker) {sent : List (Sent build)}
    (proper : ∀ set, Sent.wrong set ∉ sent) : NoEffect worker sent := by
  intro memcpy _ s _ r _ _ env frame value last result
  have same : env.renumber (place sent) = env := by
    rw [funext (place_proper proper)]
    rfl
  rw [same, ← payload_proper proper] at result
  exact ⟨value, last, result, rfl, rfl, fun _ => rfl, fun _ => rfl, fun _ => rfl⟩

end Lists

section Stock

variable {build : Build} {r r' : State} {lists : Unit × Nat → List Ptr} {stock : Nat}

def ownList (build : Build) : Nat := pickList (build.maxKeyLength + build.maxValueLength)

def Proper (build : Build) (item : Item) : Prop :=
  item.nkey = build.maxKeyLength ∧ item.nbytes = build.maxValueLength

def State.alone (r : State) : Slab.State Unit := { memory := r.memory, batchSet := fun _ => r.batch }

structure Stocked (build : Build) (stock : Nat) (lists : Unit × Nat → List Ptr) (r : State) : Prop where
  held : ∃ classes, Held r.alone lists classes
  enough : stock ≤ (lists ((), ownList build)).length

/-- An item that no SET of the build will take has wrong lengths. -/
def Marred (build : Build) (lists : Unit × Nat → List Ptr) (r : State) : Prop :=
  ∃ x, x ∉ lists ((), ownList build) ∧ ¬Proper build (r.memory.heap x)

theorem Stocked.head (stocked : Stocked build (stock + 1) lists r) :
    ∃ it, r.batch.localSlab (ownList build) = some it := by
  obtain ⟨classes, held⟩ := stocked.held
  have chain := held.held.chain ((), ownList build)
  have enough := stocked.enough
  cases list : lists ((), ownList build) with
  | nil =>
    rw [list] at enough
    exact absurd enough (Nat.not_succ_le_zero stock)
  | cons it rest =>
    rw [list] at chain
    exact ⟨it, chain.1⟩

theorem Stocked.of_same (stocked : Stocked build stock lists r) (memory : r'.memory = r.memory)
    (batch : r'.batch = r.batch) : Stocked build stock lists r' := by
  have same : r'.alone = r.alone := by
    rw [State.alone, memory, batch]
    rfl
  exact ⟨same ▸ stocked.held, stocked.enough⟩

variable {supply : Supply} {evictions : Nat → Attempts} {nkey nbyte : Nat} {it : Ptr} {m : Memory} {batch : Batch}

theorem Wrote.held {classes : Unit × Nat → Nat} (wrote : Wrote nkey nbyte it m batch r') (used : (m.heap it).flags = 0)
    (held : Held { memory := m, batchSet := fun _ => batch } lists classes) : Held r'.alone lists classes := by
  obtain ⟨batches, item, filed, memory⟩ := wrote
  have kept : ∀ {Value : Type} (field : Item → Value), field item = field (m.heap it) →
      ∀ q, field (Function.update m.heap it item q) = field (m.heap q) := by
    intro Value field same q
    by_cases here : q = it
    · rw [here, Function.update_self, same]
    · rw [Function.update_of_ne here]
  have flags : item.flags = (m.heap it).flags := by
    rcases filed.flags with same | cleared
    · exact same
    · rw [cleared, used]
  have written := held.rewrite (kept Item.next filed.next) (kept Item.flags flags) (kept Item.loc filed.loc)
    (kept Item.slabsClsid filed.clsid)
  rw [State.alone, memory, batches]
  exact written

/-- A SET takes at most one item of the list, and what it writes is on none. -/
theorem Stocked.set (stocked : Stocked build (stock + 1) lists r)
    (allocated : batchAlloc supply evictions ((nkey + nbyte) % 2 ^ 32) r.memory r.batch = .ok (it, m, batch))
    (wrote : Wrote nkey nbyte it m batch r') :
    ∃ after, Stocked build stock after r' ∧ it ∉ after ((), ownList build) ∧
      (∀ x, x ∉ lists ((), ownList build) → x ∉ after ((), ownList build)) ∧
      (pickList ((nkey + nbyte) % 2 ^ 32) = ownList build → it ∈ lists ((), ownList build)) := by
  obtain ⟨first, present⟩ := stocked.head
  obtain ⟨classes, held⟩ := stocked.held
  have enough := stocked.enough
  obtain ⟨middle, refilled, between, filled, rest, _, _, origin, list, used, _, _, off, taken⟩ :=
    @batchAlloc_held Unit _ r.alone lists classes held () supply evictions _ it m batch allocated
  have single : ({ r.alone with memory := m } : Slab.State Unit).setBatch () batch =
      { memory := m, batchSet := fun _ => batch } := by
    unfold Slab.State.setBatch
    congr 1
  rw [single] at taken
  refine ⟨Function.update between ((), pickList ((nkey + nbyte) % 2 ^ 32)) rest, ?_⟩
  by_cases picked : pickList ((nkey + nbyte) % 2 ^ 32) = ownList build
  · -- The list is not empty, so there is no refill and its head is the item.
    rcases origin with ⟨rfl, _, _⟩ | ⟨_, _, _, empty, _, _⟩
    · rw [picked] at list taken off ⊢
      rw [list] at enough ⊢
      rw [Function.update_self]
      refine ⟨⟨⟨filled, wrote.held used taken⟩, ?_⟩, ?_, ?_, ?_⟩
      · rw [Function.update_self]
        exact Nat.le_of_succ_le_succ enough
      · have outside := off ((), ownList build)
        rw [Function.update_self] at outside
        exact outside
      · exact fun x outside member => outside (List.mem_cons_of_mem it member)
      · exact fun _ => List.mem_cons_self
    · rw [picked] at empty
      exact absurd (empty.symm.trans present) (by simp)
  · have other : ((), ownList build) ≠ ((), pickList ((nkey + nbyte) % 2 ^ 32)) :=
      fun same => picked (Prod.mk.inj same).2.symm
    have kept : Function.update between ((), pickList ((nkey + nbyte) % 2 ^ 32)) rest ((), ownList build) =
        lists ((), ownList build) := by
      rw [Function.update_of_ne other]
      rcases origin with ⟨rfl, _, _⟩ | ⟨_, _, _, _, rfl, _⟩
      · rfl
      · exact Function.update_of_ne other _ _
    refine ⟨⟨⟨filled, wrote.held used taken⟩, ?_⟩, off _, ?_, ?_⟩
    · rw [kept]
      exact Nat.le_of_succ_le enough
    · rw [kept]
      exact fun x outside => outside
    · exact fun same => absurd same picked

theorem Wrote.proper_iff (wrote : Wrote nkey nbyte it m batch r') :
    Proper build (r'.memory.heap it) ↔ nkey = build.maxKeyLength ∧ nbyte = build.maxValueLength := by
  obtain ⟨_, item, filed, memory⟩ := wrote
  have here : r'.memory.heap it = item := by
    rw [memory]
    exact Function.update_self _ _ _
  rw [Proper, here, filed.nkey, filed.nbytes]

theorem Wrote.proper_other (wrote : Wrote nkey nbyte it m batch r')
    (allocated : batchAlloc supply evictions ((nkey + nbyte) % 2 ^ 32) r.memory r.batch = .ok (it, m, batch)) {q : Ptr}
    (other : q ≠ it) : Proper build (r'.memory.heap q) ↔ Proper build (r.memory.heap q) := by
  obtain ⟨_, item, _, memory⟩ := wrote
  obtain ⟨nkey, nbytes⟩ := batchAlloc_lengths allocated q
  have kept : r'.memory.heap q = m.heap q := by
    rw [memory]
    exact Function.update_of_ne other _ _
  rw [Proper, Proper, kept, nkey, nbytes]

end Stock

section Marred

variable {build : Build} {env : Env} {packet : Nat → Byte} {pktLen n ptr kk stock : Nat} {ip : BitVec 32}
  {port : BitVec 16} {r : State} {lists : Unit × Nat → List Ptr}

def WrongAt (build : Build) (packet : Nat → Byte) (ptr : Nat) : Prop :=
  jobTypeAt packet ptr = megaJobSet ∧
    ¬(keyLengthAt packet (ptr + 2) = build.maxKeyLength ∧ valueLengthAt packet (ptr + 4) = build.maxValueLength)

theorem Stocked.weaken {less : Nat} (stocked : Stocked build stock lists r) (le : less ≤ stock) :
    Stocked build less lists r := ⟨stocked.held, le.trans stocked.enough⟩

/-- A SET with wrong lengths leaves an item marred, and every later request leaves one so. -/
theorem request_marred (lengths : build.Lengths) (stocked : Stocked build (stock + 1) lists r)
    (mark : Marred build lists r ∨ WrongAt build packet ptr) {outcome : Outcome}
    (result : request build memcpyData env (.whole packet) ip port n ptr kk r = .ok outcome) :
    ∃ after, Stocked build stock after outcome.state ∧ Marred build after outcome.state := by
  rcases request_effect result with ⟨notSet, memory, batch⟩ | ⟨_, it, m, batch, allocated, wrote⟩
  · rcases mark with marred | wrong
    · refine ⟨lists, (stocked.of_same memory batch).weaken (Nat.le_succ stock), ?_⟩
      rw [Marred, memory]
      exact marred
    · exact absurd wrong.1 notSet
  · obtain ⟨after, left, off, outside, taken⟩ := stocked.set allocated wrote
    refine ⟨after, left, ?_⟩
    by_cases right : keyLengthAt packet (ptr + 2) = build.maxKeyLength ∧
        valueLengthAt packet (ptr + 4) = build.maxValueLength
    · rcases mark with marred | wrong
      · -- A SET of the build takes its item from the list, so not the marred one.
        obtain ⟨x, elsewhere, bad⟩ := marred
        have picked : pickList ((keyLengthAt packet (ptr + 2) + valueLengthAt packet (ptr + 4)) % 2 ^ 32) =
            ownList build := by
          rw [right.1, right.2, Nat.mod_eq_of_lt lengths.body]
          rfl
        have other : x ≠ it := fun same => elsewhere (same ▸ taken picked)
        exact ⟨x, outside x elsewhere, fun proper => bad ((wrote.proper_other allocated other).mp proper)⟩
      · exact absurd right wrong.2
    · exact ⟨it, off, fun proper => right (wrote.proper_iff.mp proper)⟩

theorem requests_marred (lengths : build.Lengths) (stocked : Stocked build stock lists r)
    (enough : pktLen ≤ ptr + 4 * stock) (inside : ptr < pktLen) (mark : Marred build lists r ∨ WrongAt build packet ptr)
    {value : Int} {last : State}
    (result : requests build memcpyData env (.whole packet) pktLen ip port n ptr kk r = .ok (value, last)) :
    ∃ q, ¬Proper build (last.memory.heap q) := by
  generalize left : pktLen - ptr = rounds
  induction rounds using Nat.strong_induction_on generalizing n ptr kk r lists stock with
  | h rounds ih =>
    rw [requests_step] at result
    cases stock with
    | zero => omega
    | succ stock =>
      cases once : request build memcpyData env (.whole packet) ip port n ptr kk r with
      | error stop =>
        rw [once] at result
        cases result
      | ok outcome =>
        rw [once] at result
        obtain ⟨after, remaining, marred⟩ := request_marred lengths stocked mark once
        obtain ⟨x, _, bad⟩ := marred
        cases outcome with
        | returns value middle =>
          cases result
          exact ⟨x, bad⟩
        | goesOn body kk middle =>
          simp only [bind, Except.bind] at result
          split at result
          · cases result
            exact ⟨x, bad⟩
          · exact ih (pktLen - (ptr + 4 + body)) (by omega) remaining (by omega) (by omega) (.inl ⟨x, ‹_›, bad⟩) result rfl

end Marred

section ProperRun

variable {build : Build} {env : Env} {packet : Nat → Byte} {pktLen n ptr kk stock : Nat} {ip : BitVec 32}
  {port : BitVec 16} {r : State} {lists : Unit × Nat → List Ptr} {slot : Nat → Nat}

def Fresh (slot : Nat → Nat) (n : Nat) (r : State) : Prop := ∀ k, n ≤ k → JobsEmpty (r.bufs (slot k))

theorem Fresh.setBuf (distinct : Function.Injective slot) (fresh : Fresh slot n r) (buf : BatchBuf) :
    Fresh slot (n + 1) (r.setBuf (slot n) buf) := by
  intro k behind
  have other : slot k ≠ slot n := fun same => Nat.ne_of_gt behind (distinct same)
  have kept : (r.setBuf (slot n) buf).bufs (slot k) = r.bufs (slot k) := Function.update_of_ne other _ _
  rw [kept]
  exact fresh k (Nat.le_of_succ_le behind)

theorem get_proper (distinct : Function.Injective slot) (once : env.attempts n = ⟨slot n, []⟩) (fresh : Fresh slot n r)
    (lengths : build.Lengths) (header : 12 ≤ ptr) {key : List.Vector Byte build.maxKeyLength}
    (stands : Stands packet ptr (Request.get key).encode) :
    ∃ last after, request build memcpyData env (.whole packet) ip port n ptr kk r =
        .ok (.goesOn build.maxKeyLength last after) ∧ Fresh slot (n + 1) after := by
  obtain ⟨jobType, keyLength, _⟩ := get_fields lengths stands
  have room : ¬batchMaxSearchJob - 1 ≤ (r.bufs (slot n)).numSearchJob := by
    rw [(fresh n (Nat.le_refl n)).1]
    decide
  obtain ⟨added, search⟩ := @addSearch_whole build packet ip port (ptr + 2 + 2) (by omega) build.maxKeyLength (r.bufs (slot n))
  rw [request_whole, jobType, if_neg not_endMark_get, if_pos rfl, getRequest_whole, keyLength, if_neg (not_not.mpr rfl),
    once]
  simp only [Attempts.ids, searchAttempts, if_neg room, search]
  exact ⟨_, _, rfl, fresh.setBuf distinct added⟩

theorem insertJob_proper (distinct : Function.Injective slot) (fresh : Fresh slot n r) (lengths : build.Lengths)
    (it : Ptr) (key : Nat) :
    ∃ last after, insertJob build (.whole packet) ⟨slot n, []⟩ it build.maxKeyLength build.maxValueLength key kk r =
        .ok (.goesOn (4 + (build.maxKeyLength + build.maxValueLength)) last after) ∧ Fresh slot (n + 1) after := by
  obtain ⟨_, inserts, blocks⟩ := fresh n (Nat.le_refl n)
  obtain ⟨sig, signed⟩ := @keySig_shown build packet key build.maxKeyLength
  have right : ¬(build.maxKeyLength ≠ build.maxKeyLength ∨ build.maxValueLength ≠ build.maxValueLength) := by simp
  have total : (r.bufs (slot n)).numInsertJob < (batchMaxInsertJob - 1) <<< bitsInsertBuf := by
    rw [inserts]
    decide
  have room : ((r.bufs (slot n)).insertBuf (insertBlockId (sigHash sig))).numInsertJob + 1 < batchMaxInsertJob := by
    rw [blocks]
    decide
  have added := @insertAttempts_once (slot n) (kk + 1) { r with numInsertJob := r.numInsertJob + 1 }
    (4 + (build.maxKeyLength + build.maxValueLength)) it (sigHash sig) (sigSign sig) total room
  have counted : Fresh slot n { r with numInsertJob := r.numInsertJob + 1 } := fresh
  simp only [insertJob, if_neg right, signed, Nat.mod_eq_of_lt lengths.body]
  exact ⟨_, _, congrArg Except.ok added, counted.setBuf distinct _⟩

theorem setItem_proper (lengths : build.Lengths) {it : Ptr} (head : r.batch.localSlab (ownList build) = some it)
    (supply : Supply) (evictions : Nat → Attempts) (attempts : Attempts) (key : Nat) :
    ∃ stored, setItem build memcpyData (.whole packet) supply evictions attempts build.maxKeyLength build.maxValueLength
        key kk r = insertJob build (.whole packet) attempts it build.maxKeyLength build.maxValueLength key kk stored ∧
      stored.bufs = r.bufs := by
  have allocated := batchAlloc_refilled rfl (@refill_some supply evictions (build.maxKeyLength + build.maxValueLength) _
    r.memory _ _ head) head
  simp only [setItem, Nat.mod_eq_of_lt lengths.body, allocated, View.read_whole]
  exact ⟨_, rfl, rfl⟩

theorem set_proper (distinct : Function.Injective slot) (once : env.attempts n = ⟨slot n, []⟩) (fresh : Fresh slot n r)
    (lengths : build.Lengths) {key : List.Vector Byte build.maxKeyLength} {value : List.Vector Byte build.maxValueLength}
    (stands : Stands packet ptr (Request.set key value).encode) {it : Ptr}
    (head : r.batch.localSlab (ownList build) = some it) :
    ∃ last after, request build memcpyData env (.whole packet) ip port n ptr kk r =
        .ok (.goesOn (4 + (build.maxKeyLength + build.maxValueLength)) last after) ∧ Fresh slot (n + 1) after := by
  obtain ⟨jobType, keyLength, valueLength, _⟩ := set_fields lengths stands
  obtain ⟨stored, written, bufs⟩ := @setItem_proper build packet kk r lengths it head (env.supply n) (env.evictions n)
    ⟨slot n, []⟩ (ptr + 8)
  have kept : Fresh slot n stored := by
    rw [Fresh, bufs]
    exact fresh
  rw [request_whole, jobType, if_neg not_endMark_set, if_neg not_get_set, if_pos rfl, setRequest_whole, keyLength,
    valueLength, once, written]
  exact insertJob_proper distinct kept lengths it (ptr + 8)

def AllProper (build : Build) (r : State) : Prop := ∀ q, Proper build (r.memory.heap q)

/-- A request of the protocol goes on to the next one and takes at most one item. -/
theorem request_proper (distinct : Function.Injective slot) (once : env.attempts n = ⟨slot n, []⟩)
    (fresh : Fresh slot n r) (lengths : build.Lengths) (header : 12 ≤ ptr) {sent : Request build}
    (stands : Stands packet ptr sent.encode) (stocked : Stocked build (stock + 1) lists r) :
    ∃ body last after left, request build memcpyData env (.whole packet) ip port n ptr kk r =
        .ok (.goesOn body last after) ∧ 4 + body = sent.encode.length ∧ Fresh slot (n + 1) after ∧
      Stocked build stock left after ∧ (AllProper build r → AllProper build after) := by
  cases sent with
  | get key =>
    obtain ⟨last, after, result, later⟩ := @get_proper build env packet n ptr kk ip port r slot distinct once fresh lengths
      header key stands
    have isGet := (get_fields lengths stands).1
    rcases request_effect result with ⟨_, memory, batch⟩ | ⟨isSet, _⟩
    · refine ⟨_, last, after, lists, result, ?_, later, (stocked.of_same memory batch).weaken (Nat.le_succ stock), ?_⟩
      · exact (encode_get_length key).symm
      · intro proper q
        rw [show after.memory = r.memory from memory]
        exact proper q
    · exact absurd (isSet.symm.trans isGet) not_get_set
  | set key value =>
    obtain ⟨it, head⟩ := stocked.head
    obtain ⟨last, after, result, later⟩ := @set_proper build env packet n ptr kk ip port r slot distinct once fresh lengths
      key value stands it head
    obtain ⟨isSet, keyLength, valueLength, _⟩ := set_fields lengths stands
    rcases request_effect result with ⟨notSet, _, _⟩ | ⟨_, used, m, batch, allocated, wrote⟩
    · exact absurd isSet notSet
    · obtain ⟨left, remaining, _⟩ := stocked.set allocated wrote
      refine ⟨_, last, after, left, result, ?_, later, remaining, ?_⟩
      · rw [encode_set_length]
        omega
      · intro proper q
        by_cases here : q = used
        · rw [here]
          exact wrote.proper_iff.mpr ⟨keyLength, valueLength⟩
        · exact (wrote.proper_other allocated here).mpr (proper q)

theorem requests_proper (distinct : Function.Injective slot) (once : ∀ k, env.attempts k = ⟨slot k, []⟩)
    (lengths : build.Lengths) {sent : List (Request build)} (header : 12 ≤ ptr) (fresh : Fresh slot n r)
    (stands : Stands packet ptr (encodeRequests sent)) (more : ptr + (encodeRequests sent).length < pktLen)
    (stocked : Stocked build (sent.length + stock) lists r) :
    ∃ last after left, requests build memcpyData env (.whole packet) pktLen ip port n ptr kk r =
        requests build memcpyData env (.whole packet) pktLen ip port (n + sent.length) (ptr + (encodeRequests sent).length)
          last after ∧
      Stocked build stock left after ∧ (AllProper build r → AllProper build after) := by
  induction sent generalizing n ptr kk r lists with
  | nil =>
    rw [List.length_nil, Nat.zero_add] at stocked
    exact ⟨kk, r, lists, rfl, stocked, fun proper => proper⟩
  | cons request rest ih =>
    rw [encodeRequests_cons] at stands
    rw [encodeRequests_cons, List.length_append] at more
    rw [List.length_cons, Nat.add_right_comm] at stocked
    obtain ⟨body, later, middle, between, result, size, fresh', stocked', kept⟩ := @request_proper build env packet n ptr kk
      (rest.length + stock) ip port r lists slot distinct (once n) fresh lengths header request stands.left stocked
    have next : ptr + 4 + body = ptr + request.encode.length := by omega
    have further := stands.right
    obtain ⟨last, after, left, run, remaining, kept'⟩ := @ih (n + 1) (ptr + 4 + body) later middle between (by omega) fresh'
      (next ▸ further) (by omega) stocked'
    refine ⟨last, after, left, ?_, remaining, fun proper => kept' (kept proper)⟩
    rw [requests_step, result]
    have inside : ¬pktLen ≤ ptr + 4 + body := by omega
    change (if pktLen ≤ ptr + 4 + body then _ else _) = _
    rw [if_neg inside, run, encodeRequests_cons, List.length_cons, List.length_append, next]
    congr 1
    · omega
    · omega

end ProperRun

section Packets

variable {build : Build}

theorem datagram_stands (frame : Nat → Byte) (payload : List Byte) :
    Stands (datagram frame payload) Sender.eiuHdrLen payload := by
  intro k byte found
  have behind : ¬Sender.eiuHdrLen + k < Sender.eiuHdrLen := Nat.not_lt.mpr (Nat.le_add_right _ _)
  rw [datagram, if_neg behind, Nat.add_sub_cancel_left, List.getD_eq_getElem?_getD, found, Option.getD_some]

theorem processPayload_requests (memcpy : Memcpy) (env : Env) (frame : Nat → Byte) (body : List Byte) (r : State) :
    ∃ ip port, processPayload build memcpy env frame (bytes16 protocolMagic ++ body) r =
      requests build memcpy env (.whole (datagram frame (bytes16 protocolMagic ++ body)))
        (Sender.eiuHdrLen + 2 + body.length) ip port 0 (Sender.eiuHdrLen + 2) 0 r := by
  have magic : word16 (fun k => datagram frame (bytes16 protocolMagic ++ body) (Sender.eiuHdrLen + k)) = protocolMagic :=
    word16_bytes16 (datagram_stands frame (bytes16 protocolMagic ++ body)).left
  refine ⟨dataWord (View.window (datagram frame (bytes16 protocolMagic ++ body)) 26 4) 0,
    word16 (View.window (datagram frame (bytes16 protocolMagic ++ body)) 34 2), ?_⟩
  rw [processPayload, processPacket, View.read_whole, View.read_whole, View.read_whole]
  have length : Sender.eiuHdrLen + (bytes16 protocolMagic ++ body).length = Sender.eiuHdrLen + 2 + body.length := by
    rw [List.length_append, Nat.add_assoc]
    rfl
  rw [length]
  exact if_neg (not_not_intro magic)

theorem requests_long (sent : List (Request build)) : 4 * sent.length ≤ (encodeRequests sent).length := by
  induction sent with
  | nil => exact Nat.zero_le _
  | cons request rest ih =>
    rw [encodeRequests_cons, List.length_append, List.length_cons]
    cases request with
    | get key =>
      rw [encode_get_length]
      omega
    | set key value =>
      rw [encode_set_length]
      omega

theorem propers_shorter (sent : List (Sent build)) :
    (encodeRequests (propers sent)).length ≤ (sent.flatMap Sent.encode).length := by
  induction sent with
  | nil => exact Nat.le_refl _
  | cons element rest ih =>
    rw [List.flatMap_cons, List.length_append]
    cases element with
    | proper request =>
      rw [propers, encodeRequests_cons, List.length_append]
      exact Nat.add_le_add_left ih _
    | wrong set => exact ih.trans (Nat.le_add_left _ _)

theorem wrong_fields {packet : Nat → Byte} {ptr : Nat} {set : WrongSet build} (stands : Stands packet ptr set.encode) :
    jobTypeAt packet ptr = megaJobSet ∧ keyLengthAt packet (ptr + 2) = set.nkey.toNat ∧
      valueLengthAt packet (ptr + 4) = set.nbyte.toNat := by
  have fields := stands.left
  have keyField : Stands packet (ptr + 2) (bytes16 set.nkey) := fields.left.right
  have valueField : Stands packet (ptr + 4) (bytes32 set.nbyte) := fields.right
  exact ⟨word16_bytes16 fields.left.left, congrArg BitVec.toNat (word16_bytes16 keyField),
    congrArg BitVec.toNat (dataWord_bytes32 valueField)⟩

theorem wrongAt_encode {packet : Nat → Byte} {ptr : Nat} {set : WrongSet build}
    (stands : Stands packet ptr set.encode) : WrongAt build packet ptr := by
  obtain ⟨isSet, keyLength, valueLength⟩ := wrong_fields stands
  refine ⟨isSet, ?_⟩
  rw [keyLength, valueLength]
  exact set.wrong

variable {memcpy : Memcpy} {env : Env} {packet : Nat → Byte} {pktLen n ptr kk : Nat} {ip : BitVec 32} {port : BitVec 16}
  {r : State}

theorem request_wrong {set : WrongSet build} (stands : Stands packet ptr set.encode) :
    request build memcpy env (.whole packet) ip port n ptr kk r =
      setItem build memcpy (.whole packet) (env.supply n) (env.evictions n) (env.attempts n) set.nkey.toNat
        set.nbyte.toNat (ptr + 8) kk r := by
  obtain ⟨isSet, keyLength, valueLength⟩ := wrong_fields stands
  rw [request_whole, isSet, if_neg not_endMark_set, if_neg not_get_set, if_pos rfl, setRequest_whole, keyLength,
    valueLength]

/-- The item is gone from its list before the lengths are looked at. -/
theorem setItem_wrong (set : WrongSet build) {supply : Supply} {evictions : Nat → Attempts} {key : Nat} {it : Ptr}
    (head : r.batch.localSlab (pickList ((set.nkey.toNat + set.nbyte.toNat) % 2 ^ 32)) = some it) (attempts : Attempts) :
    ∃ left, setItem build memcpyData (.whole packet) supply evictions attempts set.nkey.toNat set.nbyte.toNat key kk r =
        .ok (.goesOn (4 + (set.nkey.toNat + set.nbyte.toNat) % 2 ^ 32) kk left) ∧
      left.batch.localSlab (pickList ((set.nkey.toNat + set.nbyte.toNat) % 2 ^ 32)) = (r.memory.heap it).next := by
  have wrong : set.nkey.toNat ≠ build.maxKeyLength ∨ set.nbyte.toNat ≠ build.maxValueLength :=
    not_and_or.mp set.wrong
  have allocated := batchAlloc_refilled rfl (@refill_some supply evictions _ _ r.memory _ _ head) head
  simp only [setItem, allocated, View.read_whole, insertJob, if_pos wrong]
  exact ⟨_, rfl, handOut_head _ _ _ _⟩

theorem requests_ended (mark : jobTypeAt packet ptr = endMark) :
    requests build memcpy env (.whole packet) pktLen ip port n ptr kk r = .ok ((kk : Int), r) := by
  rw [requests_step, request_whole, mark, if_pos rfl]
  rfl

end Packets

section Harm

variable {build : Build} {Worker : Type} [DecidableEq Worker] {s : Slab.State Worker} {worker : Worker}

def properItem (build : Build) : Item :=
  { emptyItem with nkey := build.maxKeyLength, nbytes := build.maxValueLength }

def idleReceiver (s : Slab.State Worker) (worker : Worker) : State :=
  { memory := s.memory
    batch := s.batchSet worker
    bufs := fun _ => emptyBuf
    numSearchJob := 0
    numInsertJob := 0 }

omit [DecidableEq Worker] in
theorem idle_fresh (slot : Nat → Nat) : Fresh slot 0 (idleReceiver s worker) := fun _ _ => ⟨rfl, rfl, fun _ => rfl⟩

omit [DecidableEq Worker] in
theorem idle_held {lists : Worker × Nat → List Ptr} {classes : Worker × Nat → Nat} (held : Held s lists classes) :
    Held (idleReceiver s worker).alone (fun k => lists (worker, k.2)) (fun k => classes (worker, k.2)) := by
  have apart : ∀ k l : Unit × Nat, k ≠ l → (worker, k.2) ≠ (worker, l.2) :=
    fun k l different same => different (Prod.ext rfl (Prod.mk.inj same).2)
  exact ⟨held.sound, fun k => held.held.chain (worker, k.2), fun k => held.held.nodup (worker, k.2),
    fun k l different => held.held.disjoint _ _ (apart k l different), fun k => held.held.free (worker, k.2),
    fun k => held.held.inside (worker, k.2)⟩

theorem idle_stocked (reached : (allocation Worker).Reachable s) {nodes : List Ptr}
    (chain : Chain (fun q => (s.memory.heap q).next) ((s.batchSet worker).localSlab (ownList build)) nodes) :
    ∃ lists, Stocked build nodes.length lists (idleReceiver s worker) := by
  obtain ⟨lists, classes, held⟩ := held_reachable reached
  have same : nodes = lists (worker, ownList build) := chain.unique (held.held.chain (worker, ownList build))
  exact ⟨_, ⟨_, idle_held held⟩, (congrArg List.length same).le⟩

/-- A worker with a long list, where all items have the lengths of the build. -/
theorem idle_reachable (build : Build) (fits : sizeofItem + (build.maxKeyLength + build.maxValueLength) ≤ slabSize powerLargest)
    (worker : Worker) :
    ∃ s lists, (allocation Worker).Reachable s ∧ AllProper build (idleReceiver s worker) ∧
      Stocked build (perslab - 2) lists (idleReceiver s worker) := by
  obtain ⟨s, nodes, reached, same, chain, long⟩ := @stock_reachable (build.maxKeyLength + build.maxValueLength) Worker _
    worker (fun _ => properItem build) (Nat.add_pos_left (by decide) _) fits
  obtain ⟨lists, stocked⟩ := @idle_stocked build Worker _ s worker reached nodes chain
  exact ⟨s, lists, reached, same, stocked.weaken (by omega)⟩

/-- Without its wrong SETs a packet runs and keeps the lengths of all items. -/
theorem propers_run (lengths : build.Lengths) {lists : Unit × Nat → List Ptr} {r : State} {slot : Nat → Nat}
    (distinct : Function.Injective slot) (fresh : Fresh slot 0 r) {env : Env} (once : ∀ k, env.attempts k = ⟨slot k, []⟩)
    {requests : List (Request build)} (stocked : Stocked build requests.length lists r) (proper : AllProper build r)
    (frame : Nat → Byte) :
    ∃ value last, processPayload build memcpyData env frame (encodePayload requests) r = .ok (value, last) ∧
      AllProper build last := by
  obtain ⟨ip, port, result⟩ := @processPayload_requests build memcpyData env frame (encodeRequests requests ++ bytes16 endMark) r
  have stands := (datagram_stands frame (encodePayload requests)).right
  have length : (encodeRequests requests ++ bytes16 endMark).length = (encodeRequests requests).length + 2 := List.length_append
  obtain ⟨last, after, left, run, _, kept⟩ := @requests_proper build env (datagram frame (encodePayload requests))
    (Sender.eiuHdrLen + 2 + (encodeRequests requests ++ bytes16 endMark).length) 0 (Sender.eiuHdrLen + 2) 0 0 ip port r lists
    slot distinct once lengths requests (by decide) fresh stands.left (by omega) stocked
  have mark : jobTypeAt (datagram frame (encodePayload requests)) (Sender.eiuHdrLen + 2 + (encodeRequests requests).length) =
      endMark := word16_bytes16 stands.right
  refine ⟨last, after, ?_, kept proper⟩
  rw [encodePayload, result]
  exact run.trans (requests_ended mark)

theorem encoded_split (before : List (Request build)) (first : WrongSet build) (rest : List (Sent build)) :
    (before.map Sent.proper ++ .wrong first :: rest).flatMap Sent.encode =
      encodeRequests before ++ (first.encode ++ rest.flatMap Sent.encode) := by
  rw [List.flatMap_append, List.flatMap_cons, List.flatMap_map]
  rfl

/-- With its first wrong SET a packet ends the process or leaves an item with wrong lengths. -/
theorem wrong_run (lengths : build.Lengths) {lists : Unit × Nat → List Ptr} {r last : State} {value : Int}
    (fresh : Fresh id 0 r) {before : List (Request build)} {first : WrongSet build} {rest : List (Sent build)} {stock : Nat}
    (stocked : Stocked build (before.length + stock) lists r)
    (enough : (sentPayload (before.map Sent.proper ++ .wrong first :: rest)).length ≤ 4 * stock) {frame : Nat → Byte}
    (result : processPayload build memcpyData roomyEnv frame
      (sentPayload (before.map Sent.proper ++ .wrong first :: rest)) r = .ok (value, last)) :
    ∃ q, ¬Proper build (last.memory.heap q) := by
  rw [sentPayload, encoded_split, List.append_assoc, List.append_assoc] at result enough
  obtain ⟨ip, port, parsed⟩ := @processPayload_requests build memcpyData roomyEnv frame
    (encodeRequests before ++ (first.encode ++ (rest.flatMap Sent.encode ++ bytes16 endMark))) r
  have stands := (datagram_stands frame (bytes16 protocolMagic ++
    (encodeRequests before ++ (first.encode ++ (rest.flatMap Sent.encode ++ bytes16 endMark))))).right
  have length : (encodeRequests before ++ (first.encode ++ (rest.flatMap Sent.encode ++ bytes16 endMark))).length =
      (encodeRequests before).length + (first.encode ++ (rest.flatMap Sent.encode ++ bytes16 endMark)).length :=
    List.length_append
  have behind : 0 < (first.encode ++ (rest.flatMap Sent.encode ++ bytes16 endMark)).length := by
    rw [List.length_append, List.length_append]
    exact Nat.add_pos_right _ (Nat.add_pos_right _ (by decide))
  have magic : (bytes16 protocolMagic).length = 2 := rfl
  rw [List.length_append] at enough
  obtain ⟨kk, after, left, run, remaining, _⟩ := @requests_proper build roomyEnv _ (Sender.eiuHdrLen + 2 +
    (encodeRequests before ++ (first.encode ++ (rest.flatMap Sent.encode ++ bytes16 endMark))).length) 0
    (Sender.eiuHdrLen + 2) 0 stock ip port r lists id Function.injective_id (fun _ => rfl) lengths before (by decide) fresh
    stands.left (by omega) stocked
  rw [parsed] at result
  exact requests_marred lengths remaining (by omega) (by omega) (.inr (wrongAt_encode stands.right.left)) (run.symm.trans result)

theorem not_noEffect (lengths : build.Lengths)
    (fits : sizeofItem + (build.maxKeyLength + build.maxValueLength) ≤ slabSize powerLargest) (worker : Worker)
    {sent : List (Sent build)} (short : (sentPayload sent).length < 2 ^ 16) {set : WrongSet build}
    (member : Sent.wrong set ∈ sent) : ¬NoEffect worker sent := by
  intro harmless
  obtain ⟨s, lists, reached, proper, stocked⟩ := idle_reachable build fits worker
  have length : (sentPayload sent).length = 2 + ((sent.flatMap Sent.encode).length + 2) := by
    rw [sentPayload, List.length_append, List.length_append]
    rfl
  have slab : perslab = 2 ^ 15 := rfl
  have few := (requests_long (propers sent)).trans (propers_shorter sent)
  obtain ⟨value, last, result, kept⟩ := propers_run lengths (place_strictMono sent).injective (idle_fresh (place sent))
    (fun _ => rfl : ∀ k, (roomyEnv.renumber (place sent)).attempts k = ⟨place sent k, []⟩)
    (stocked.weaken (by omega : (propers sent).length ≤ perslab - 2)) proper (fun _ => 0)
  obtain ⟨value', last', result', same⟩ := harmless memcpyData (fun _ _ _ _ _ => rfl) s reached (idleReceiver s worker)
    rfl rfl roomyEnv (fun _ => 0) value last result
  obtain ⟨before, first, rest, split⟩ := first_wrong member
  have earlier : 4 * before.length ≤ (sent.flatMap Sent.encode).length := by
    rw [split, encoded_split, List.length_append]
    exact (requests_long before).trans (Nat.le_add_right _ _)
  have size : (sentPayload (before.map Sent.proper ++ .wrong first :: rest)).length < 2 ^ 16 := split ▸ short
  rw [split] at result'
  obtain ⟨q, bad⟩ := wrong_run lengths (idle_fresh id)
    (stocked.weaken (by omega : before.length + (perslab - 2 - before.length) ≤ perslab - 2)) (by omega) result'
  apply bad
  rw [← same.heap]
  exact kept q

end Harm

section Main

variable {build : Build} {Worker : Type} [DecidableEq Worker]

theorem wrong_sets_harmless_iff (lengths : build.Lengths)
    (fits : sizeofItem + (build.maxKeyLength + build.maxValueLength) ≤ slabSize powerLargest) (worker : Worker)
    (sent : List (Sent build)) (short : (sentPayload sent).length < 2 ^ 16) :
    NoEffect worker sent ↔ ∀ set, Sent.wrong set ∉ sent := by
  constructor
  · intro harmless set member
    exact not_noEffect lengths fits worker short member harmless
  · intro proper
    exact noEffect_proper worker proper

end Main

section Start

/-- A key of the right length with a value of four bytes. -/
def shortSet : WrongSet defaultBuild := ⟨8, 4, List.replicate 12 0, by decide, .inl (by decide)⟩

theorem wrong_sets_harmless_iff_short :
    (defaultBuild.Lengths ∧ sizeofItem + (defaultBuild.maxKeyLength + defaultBuild.maxValueLength) ≤ slabSize powerLargest ∧
      (sentPayload [Sent.wrong shortSet]).length < 2 ^ 16) ∧
    (NoEffect (0 : Fin 2) [Sent.wrong shortSet] ↔ ∀ set, Sent.wrong set ∉ [Sent.wrong shortSet]) := by
  have lengths : defaultBuild.Lengths := ⟨by decide, by decide, by decide⟩
  have fits : sizeofItem + (defaultBuild.maxKeyLength + defaultBuild.maxValueLength) ≤ slabSize powerLargest := by
    rw [largest_size]
    decide
  exact ⟨⟨lengths, fits, by decide⟩, wrong_sets_harmless_iff lengths fits 0 [Sent.wrong shortSet] (by decide)⟩

/-- A value that no class has room for, of which no byte is sent. -/
def hugeSet : WrongSet defaultBuild := ⟨8, 5113, [], by decide, .inr (by rw [largest_size]; decide)⟩

theorem empty_run (env : Env) (frame : Nat → Byte) (set : WrongSet defaultBuild) :
    processPayload defaultBuild memcpyData env frame (encodePayload (propers [Sent.wrong set])) pairState =
      .ok (0, pairState) := by
  obtain ⟨ip, port, parsed⟩ := @processPayload_requests defaultBuild memcpyData env frame (bytes16 endMark) pairState
  have stands := (datagram_stands frame (bytes16 protocolMagic ++ bytes16 endMark)).right
  exact parsed.trans (requests_ended (word16_bytes16 stands))

theorem pairState_next : (pairState.memory.heap ⟨0, 80⟩).next = some ⟨0, 120⟩ := by
  have other : (⟨0, 80⟩ : Ptr) ≠ ⟨0, 40⟩ := by decide
  have memory : pairState.memory = (handOut 0 ⟨0, 40⟩ firstMemory firstBatch).1 := rfl
  have taken : pairState.memory.heap ⟨0, 80⟩ = firstMemory.heap ⟨0, 80⟩ := by
    rw [memory]
    simp only [handOut]
    rw [Function.update_of_ne other]
  have address : (⟨startMemory.blocks, 0⟩ : Ptr).add (slabSize 0 * 2) = ⟨0, 80⟩ := rfl
  have header := @newSlab_heap startMemory 0 firstClass (by decide) 2 (by decide)
  rw [address] at header
  rw [taken, firstMemory, header]
  rfl

theorem short_run (frame : Nat → Byte) : ∃ last,
    processPayload defaultBuild memcpyData calmEnv frame (sentPayload [Sent.wrong shortSet]) pairState = .ok (0, last) ∧
      last.batch.localSlab 0 = some ⟨0, 120⟩ := by
  obtain ⟨ip, port, parsed⟩ := @processPayload_requests defaultBuild memcpyData calmEnv frame
    (shortSet.encode ++ bytes16 endMark) pairState
  have stands : Stands (datagram frame (bytes16 protocolMagic ++ (shortSet.encode ++ bytes16 endMark)))
      (Sender.eiuHdrLen + 2) (shortSet.encode ++ bytes16 endMark) := (datagram_stands frame _).right
  have mark := word16_bytes16 stands.right
  have picked : pickList ((shortSet.nkey.toNat + shortSet.nbyte.toNat) % 2 ^ 32) = 0 := pickList_first (by decide)
  obtain ⟨left, stored, next⟩ := @setItem_wrong defaultBuild
    (datagram frame (bytes16 protocolMagic ++ (shortSet.encode ++ bytes16 endMark))) 0 pairState shortSet (calmEnv.supply 0)
    (calmEnv.evictions 0) (Sender.eiuHdrLen + 2 + 8) ⟨0, 80⟩ (by rw [picked]; exact smallState_head) (calmEnv.attempts 0)
  rw [picked, pairState_next] at next
  refine ⟨left, parsed.trans ?_, next⟩
  rw [requests_step, request_wrong stands.left, stored]
  exact requests_ended mark

theorem huge_run (frame : Nat → Byte) :
    processPayload defaultBuild memcpyData calmEnv frame (sentPayload [Sent.wrong hugeSet]) pairState =
      .error (.halt .exit) := by
  obtain ⟨ip, port, parsed⟩ := @processPayload_requests defaultBuild memcpyData calmEnv frame
    (hugeSet.encode ++ bytes16 endMark) pairState
  have stands : Stands (datagram frame (bytes16 protocolMagic ++ (hugeSet.encode ++ bytes16 endMark)))
      (Sender.eiuHdrLen + 2) (hugeSet.encode ++ bytes16 endMark) := (datagram_stands frame _).right
  have picked : pickList 5121 = 7 := by decide
  have found : slabsClsid ((sizeofItem + 5121) % 2 ^ 32) = .error .exit := by decide
  have empty : pairState.batch.localSlab 7 = none := by decide
  have failed : batchAlloc (calmEnv.supply 0) (calmEnv.evictions 0)
      ((hugeSet.nkey.toNat + hugeSet.nbyte.toNat) % 2 ^ 32) pairState.memory pairState.batch = .error .exit := by
    change batchAlloc _ _ 5121 _ _ = _
    simp only [batchAlloc, refill, picked, empty, itemAllocBatch, found]
  refine parsed.trans ?_
  rw [requests_step, request_wrong stands.left, setItem, failed]
  rfl

theorem wrong_sets_harm : ¬NoEffect (0 : Fin 2) [Sent.wrong shortSet] ∧ ¬NoEffect (0 : Fin 2) [Sent.wrong hugeSet] := by
  have alone := fun set => empty_run (calmEnv.renumber (place [Sent.wrong set])) (fun _ => 0) set
  constructor
  · intro harmless
    obtain ⟨value', last', result', same⟩ := harmless memcpyData (fun _ _ _ _ _ => rfl) smallState smallState_reachable
      pairState rfl rfl calmEnv (fun _ => 0) 0 pairState (alone shortSet)
    obtain ⟨last, result, next⟩ := short_run (fun _ => 0)
    rw [result] at result'
    cases result'
    have lists : (smallState.batchSet 0).localSlab 0 = last'.batch.localSlab 0 := congrFun same.localSlab 0
    rw [next, smallState_head] at lists
    exact absurd lists (by decide)
  · intro harmless
    obtain ⟨value', last', result', _⟩ := harmless memcpyData (fun _ _ _ _ _ => rfl) smallState smallState_reachable
      pairState rfl rfl calmEnv (fun _ => 0) 0 pairState (alone hugeSet)
    rw [huge_run] at result'
    cases result'

end Start

end MegaKV.Receiver
