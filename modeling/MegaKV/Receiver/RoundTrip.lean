import MegaKV.Receiver.Served
import MegaKV.Sender.Codec
import MegaKV.Slab.ChunkSize

namespace MegaKV.Receiver

open Library Slab

section Sequences

variable {build : Build} (first second : List (Request build))

theorem searches_append : searches (first ++ second) = searches first ++ searches second := by
  induction first with
  | nil => rfl
  | cons request rest ih =>
    cases request with
    | get key => exact congrArg (List.cons _) ih
    | set key value => exact ih

theorem setHashes_append : setHashes (first ++ second) = setHashes first ++ setHashes second := by
  induction first with
  | nil => rfl
  | cons request rest ih =>
    cases request with
    | get key => exact ih
    | set key value => exact congrArg (List.cons _) ih

variable {first} {items : List Ptr}

theorem stores_append (count : items.length = (setHashes first).length) (others : List Ptr) :
    stores (first ++ second) (items ++ others) = stores first items ++ stores second others := by
  induction first generalizing items with
  | nil =>
    have none : items = [] := List.length_eq_zero_iff.mp count
    rw [none]
    rfl
  | cons request rest ih =>
    cases request with
    | get key => exact ih count
    | set key value =>
      cases items with
      | nil => exact absurd count.symm (Nat.succ_ne_zero _)
      | cons it items => exact congrArg (List.cons _) (ih (Nat.succ.inj count))

theorem stores_items (count : items.length = (setHashes first).length) : (stores first items).map Stored.it = items := by
  induction first generalizing items with
  | nil => exact (List.length_eq_zero_iff.mp count).symm
  | cons request rest ih =>
    cases request with
    | get key => exact ih count
    | set key value =>
      cases items with
      | nil => exact absurd count.symm (Nat.succ_ne_zero _)
      | cons it items => exact congrArg (List.cons it) (ih (Nat.succ.inj count))

theorem stores_hashes (count : items.length = (setHashes first).length) :
    (stores first items).map (fun stored => keyHash stored.key.toList) = setHashes first := by
  induction first generalizing items with
  | nil => rfl
  | cons request rest ih =>
    cases request with
    | get key => exact ih count
    | set key value =>
      cases items with
      | nil => exact absurd count.symm (Nat.succ_ne_zero _)
      | cons it items => exact congrArg (List.cons _) (ih (Nat.succ.inj count))

theorem mem_stores (count : items.length = (setHashes first).length) {stored : Stored build}
    (member : stored ∈ stores first items) : stored.it ∈ items := by
  have located := List.mem_map_of_mem (f := Stored.it) member
  rw [stores_items count] at located
  exact located

theorem inserts_length (m : Memory) (count : items.length = (setHashes first).length) (block : Nat) :
    (inserts m first items block).length = (setHashes first).countP (fun hash => insertBlockId hash == block) := by
  rw [inserts, ← List.countP_eq_length_filter, List.countP_map, ← stores_hashes count, List.countP_map]
  rfl

theorem inserts_append (m : Memory) (count : items.length = (setHashes first).length) (others : List Ptr) (block : Nat) :
    inserts m (first ++ second) (items ++ others) block =
      inserts m first items block ++ inserts m second others block := by
  rw [inserts, stores_append second count, List.map_append, List.filter_append]
  rfl

theorem inserts_congr {m m' : Memory} (same : ∀ q, (m'.heap q).loc = (m.heap q).loc) (requests : List (Request build))
    (items : List Ptr) (block : Nat) : inserts m' requests items block = inserts m requests items block := by
  have elems : ∀ stored : Stored build, stored.elem m' = stored.elem m := by
    intro stored
    rw [Stored.elem, same]
    rfl
  rw [inserts, inserts, funext elems]

theorem encodeRequests_cons (request : Request build) (rest : List (Request build)) :
    encodeRequests (request :: rest) = request.encode ++ encodeRequests rest := List.flatMap_cons

end Sequences

section Composition

variable {build : Build} {first second : List (Request build)} {items others : List Ptr} {id : Nat} {r middle r' : State}

theorem Served.append (count : items.length = (setHashes first).length) (apart : ∀ q ∈ items, q ∉ others)
    (earlier : Served id first items r middle) (later : Served id second others middle r') :
    Served id (first ++ second) (items ++ others) r r' := by
  have jobs : ∀ block, inserts r.memory (first ++ second) (items ++ others) block =
      inserts r.memory first items block ++ inserts middle.memory second others block := by
    intro block
    rw [inserts_append second r.memory count, inserts_congr earlier.loc]
  constructor
  · rw [searches_append]
    apply earlier.search.append
    rw [← earlier.numSearchJob]
    exact later.search
  · rw [later.numSearchJob, earlier.numSearchJob, searches_append, List.length_append, Nat.add_assoc]
  · intro block
    rw [jobs]
    apply (earlier.insert block).append
    rw [← earlier.numInsert]
    exact later.insert block
  · intro block
    rw [later.numInsert, earlier.numInsert, jobs, List.length_append, Nat.add_assoc]
  · rw [later.numInsertJob, earlier.numInsertJob, setHashes_append, List.length_append, Nat.add_assoc]
  · intro other different
    rw [later.bufs other different, earlier.bufs other different]
  · intro stored member
    rw [stores_append second count] at member
    rcases List.mem_append.mp member with before | behind
    · have kept := later.heap stored.it (apart _ (mem_stores count before))
      have held := earlier.holds stored before
      exact ⟨kept ▸ held.nkey, kept ▸ held.nbytes, kept ▸ held.data⟩
    · exact later.holds stored behind
  · intro q
    rw [later.loc, earlier.loc]
  · intro q outside
    rw [List.mem_append, not_or] at outside
    rw [later.heap q outside.2, earlier.heap q outside.1]
  · rw [later.slabclass, earlier.slabclass]

theorem Room.rest (room : Room (first ++ second) (r.bufs id)) (count : items.length = (setHashes first).length)
    (served : Served id first items r r') : Room second (r'.bufs id) := by
  have search := room.search
  have insert := room.insert
  rw [searches_append, List.length_append] at search
  rw [setHashes_append, List.length_append] at insert
  constructor
  · rw [served.numSearchJob]
    omega
  · rw [served.numInsertJob]
    omega
  · intro block
    have slots := room.block block
    rw [setHashes_append, List.countP_append] at slots
    rw [served.numInsert, inserts_length r.memory count]
    omega

end Composition

section Decoding

variable {build : Build} {memcpy : Memcpy} {env : Env} {packet : Nat → Byte} {pktLen id ptr : Nat} {ip : BitVec 32}
  {port : BitVec 16} {requests : List (Request build)} {items spare : List Ptr} {r : State}

/-- The local free list has an item with room for a key and a value for each SET. -/
structure Ready (build : Build) (hashes : List Hash.HashWord) (items spare : List Ptr) (r : State) : Prop where
  count : items.length = hashes.length
  nodup : (items ++ spare).Nodup
  chain : Chain (fun q => (r.memory.heap q).next)
    (r.batch.localSlab (pickList (build.maxKeyLength + build.maxValueLength))) (items ++ spare)
  slotted : ∀ it ∈ items, Slotted r.memory (build.maxKeyLength + build.maxValueLength) it

theorem requests_goesOn {n kk body last : Nat} {after : State}
    (served : request build memcpy env (.cut packet pktLen) ip port n ptr kk r = .ok (.goesOn body last after))
    (more : ptr + 4 + body < pktLen) :
    Receiver.requests build memcpy env (.cut packet pktLen) pktLen ip port n ptr kk r =
      Receiver.requests build memcpy env (.cut packet pktLen) pktLen ip port (n + 1) (ptr + 4 + body) last after := by
  rw [requests_step, served]
  exact if_neg (Nat.not_le.mpr more)

theorem requests_end {n kk : Nat} (stands : Stands packet ptr (bytes16 endMark)) (inside : ptr + 2 ≤ pktLen) :
    Receiver.requests build memcpy env (.cut packet pktLen) pktLen ip port n ptr kk r = .ok ((kk : Int), r) := by
  have jobType : jobTypeAt packet ptr = endMark := word16_bytes16 stands
  rw [requests_step, request_read inside, if_pos jobType]
  rfl

theorem Served.none (id : Nat) (r : State) : Served id ([] : List (Request build)) [] r r :=
  { search := Appended.nil _ _
    numSearchJob := rfl
    insert := fun _ => Appended.nil _ _
    numInsert := fun _ => rfl
    numInsertJob := rfl
    bufs := fun _ _ => rfl
    holds := fun _ member => absurd member List.not_mem_nil
    loc := fun _ => rfl
    heap := fun _ _ => rfl
    slabclass := rfl }

theorem Ready.uncons {hash : Hash.HashWord} {hashes : List Hash.HashWord} (ready : Ready build (hash :: hashes) items spare r) :
    ∃ it left, items = it :: left ∧
      r.batch.localSlab (pickList (build.maxKeyLength + build.maxValueLength)) = some it := by
  have count := ready.count
  cases items with
  | nil => exact absurd count.symm (Nat.succ_ne_zero _)
  | cons it left => exact ⟨it, left, rfl, ready.chain.1⟩

/-- A SET takes the first item and leaves the rest of the list as it was. -/
theorem Ready.tail {hash : Hash.HashWord} {hashes : List Hash.HashWord} {it : Ptr} {middle : State}
    {served : List (Request build)} (ready : Ready build (hash :: hashes) (it :: items) spare r)
    (next : middle.batch.localSlab (pickList (build.maxKeyLength + build.maxValueLength)) = (r.memory.heap it).next)
    (stored : Served id served [it] r middle) : Ready build hashes items spare middle := by
  have off := List.nodup_cons.mp ready.nodup
  refine ⟨Nat.succ.inj ready.count, off.2, ?_, ?_⟩
  · rw [next]
    apply ready.chain.2.congr
    intro q member
    have other : q ≠ it := fun same => off.1 (same ▸ member)
    rw [stored.heap q (fun here => other (List.mem_singleton.mp here))]
  · intro q member
    exact (ready.slotted q (List.mem_cons_of_mem it member)).congr stored.slabclass

theorem request_served (plain : build.signature = false) (lengths : build.Lengths) (copies : Copies memcpy)
    (once : ∀ n, env.attempts n = ⟨id, []⟩) (header : 12 ≤ ptr) {request : Request build}
    (stands : Stands packet ptr request.encode) (inside : ptr + request.encode.length ≤ pktLen)
    (room : Room (request :: requests) (r.bufs id))
    (ready : Ready build (setHashes (request :: requests)) items spare r) (n kk : Nat) :
    ∃ used left body middle, items = used ++ left ∧ used.length = (setHashes [request]).length ∧
      4 + body = request.encode.length ∧
      Receiver.request build memcpy env (.cut packet pktLen) ip port n ptr kk r = .ok (.goesOn body (kk + 1) middle) ∧
      Served id [request] used r middle ∧ Ready build (setHashes requests) left spare middle := by
  cases request with
  | get key =>
    rw [encode_get_length] at inside
    have search := room.search
    simp only [searches, List.length_cons] at search
    obtain ⟨middle, goesOn, memory, batch, served⟩ := @get_served build packet pktLen ip port env memcpy n id ptr kk r
      plain (by omega) lengths key stands (by omega) (once n) (by omega)
    refine ⟨[], items, _, middle, rfl, rfl, (encode_get_length key).symm, goesOn, served, ready.count, ready.nodup, ?_, ?_⟩
    · rw [memory, batch]
      exact ready.chain
    · rw [memory]
      exact ready.slotted
  | set key value =>
    rw [encode_set_length] at inside
    have insert := room.insert
    have block := room.block (insertBlockId (keyHash key.toList))
    simp only [setHashes, List.length_cons] at insert
    simp only [setHashes, List.countP_cons, beq_self_eq_true, ite_true] at block
    obtain ⟨it, left, list, head⟩ := ready.uncons
    subst list
    obtain ⟨middle, goesOn, next, served⟩ := @set_served build memcpy env packet pktLen n id ptr kk ip port r plain lengths
      copies key value it stands (by omega) (once n) head (ready.slotted it List.mem_cons_self) (by omega) (by omega)
    refine ⟨[it], left, _, middle, rfl, rfl, ?_, goesOn, served, ready.tail next served⟩
    rw [encode_set_length]
    omega

theorem requests_served (plain : build.signature = false) (lengths : build.Lengths) (copies : Copies memcpy)
    (once : ∀ n, env.attempts n = ⟨id, []⟩) (header : 12 ≤ ptr)
    (stands : Stands packet ptr (encodeRequests requests ++ bytes16 endMark))
    (length : pktLen = ptr + (encodeRequests requests).length + 2) (room : Room requests (r.bufs id))
    (ready : Ready build (setHashes requests) items spare r) (n kk : Nat) :
    ∃ r', Receiver.requests build memcpy env (.cut packet pktLen) pktLen ip port n ptr kk r =
        .ok (((kk + requests.length : Nat) : Int), r') ∧ Served id requests items r r' := by
  induction requests generalizing ptr n kk r items with
  | nil =>
    have none : items = [] := List.length_eq_zero_iff.mp ready.count
    rw [none]
    exact ⟨r, requests_end stands (by rw [length]; omega), Served.none id r⟩
  | cons request rest ih =>
    rw [encodeRequests_cons, List.append_assoc] at stands
    rw [encodeRequests_cons, List.length_append] at length
    obtain ⟨used, left, body, middle, split, count, size, goesOn, served, remaining⟩ :=
      @request_served build memcpy env packet pktLen id ptr ip port rest items spare r plain lengths copies once header
        request stands.left (by omega) room ready n kk
    -- What the request leaves of the packet, of the list and of the room meets the same conditions.
    have next : ptr + 4 + body = ptr + request.encode.length := by omega
    have apart : ∀ q ∈ used, q ∉ left := by
      have nodup := ready.nodup
      rw [split, List.append_assoc] at nodup
      intro q member behind
      exact (List.nodup_append.mp nodup).2.2 q member q (List.mem_append_left spare behind) rfl
    obtain ⟨r', result, later⟩ := ih (by omega) stands.right (by omega)
      (@Room.rest build [request] rest used id r middle room count served) remaining (n + 1) (kk + 1)
    refine ⟨r', ?_, ?_⟩
    · rw [requests_goesOn goesOn (by omega), next, result, List.length_cons, Nat.add_assoc, Nat.add_comm 1]
    · rw [split]
      exact @Served.append build [request] rest used left id r middle r' count apart served later

end Decoding

section Packet

variable {build : Build} {memcpy : Memcpy} {env : Env} {packet : Nat → Byte} {pktLen id : Nat}
  {requests : List (Request build)} {items free : List Ptr} {r : State}

theorem processPacket_whole {result : Int × State}
    (cut : processPacket build memcpy env (.cut packet pktLen) pktLen r = .ok result) :
    processPacket build memcpy env (.whole packet) pktLen r = .ok result := by
  have inside : Inside (processPacket build memcpy env (.cut packet pktLen) pktLen r) := by
    rw [cut]
    exact Inside.ok result
  exact (processPacket_stable build memcpy env pktLen r _ _ (View.cut_le_whole packet pktLen) inside).trans cut

theorem packet_served (plain : build.signature = false) (lengths : build.Lengths) (copies : Copies memcpy)
    (once : ∀ n, env.attempts n = ⟨id, []⟩) (payload : Stands packet Sender.eiuHdrLen (encodePayload requests))
    (length : pktLen = Sender.eiuHdrLen + (encodePayload requests).length) (room : Room requests (r.bufs id))
    {spare : List Ptr} (ready : Ready build (setHashes requests) items spare r) :
    ∃ r', processPacket build memcpy env (.whole packet) pktLen r = .ok ((requests.length : Int), r') ∧
      Served id requests items r r' := by
  have magic : word16 (fun k => packet (Sender.eiuHdrLen + k)) = protocolMagic := word16_bytes16 payload.left
  have size : (encodePayload requests).length = 2 + ((encodeRequests requests).length + 2) := by
    rw [encodePayload, List.length_append, List.length_append]
    rfl
  have behind : pktLen = Sender.eiuHdrLen + 2 + (encodeRequests requests).length + 2 := by omega
  obtain ⟨r', result, served⟩ := @requests_served build memcpy env packet pktLen id (Sender.eiuHdrLen + 2)
    (dataWord (fun k => packet (26 + k)) 0) (word16 (fun k => packet (34 + k))) requests items spare r plain lengths
    copies once (by decide) payload.right behind room ready 0 0
  rw [Nat.zero_add] at result
  refine ⟨r', processPacket_whole ?_, served⟩
  rw [processPacket_read (by omega), if_neg (not_not_intro magic), result]

/-- KVSIZE 0 without SIGNATURE. -/
structure Build.Small (build : Build) : Prop where
  plain : build.signature = false
  key : build.maxKeyLength = 8
  value : build.maxValueLength = 8

theorem Build.Small.lengths (small : build.Small) : build.Lengths := by
  refine ⟨?_, ?_, ?_⟩
  · rw [small.key]
  · rw [small.key]
    decide
  · rw [small.key, small.value]
    decide

theorem Build.Small.least (small : build.Small) : sizeofItem + (build.maxKeyLength + build.maxValueLength) ≤ slabSize 0 := by
  rw [small.key, small.value]
  decide

theorem slotted_of_least {m : Memory} {clsid o size : Nat} (least : sizeofItem + size ≤ slabSize 0) (inside : m.Inside clsid o) :
    Slotted m size (m.item clsid o) :=
  ⟨clsid, o, inside, rfl, Nat.le_trans least (slabSize_mono (Nat.zero_le clsid))⟩

section Reached

variable {Worker : Type} [DecidableEq Worker] {s : Slab.State Worker} {worker : Worker}

/-- What the allocator keeps of a local free list makes it ready for as many SETs as it has items. -/
theorem ready_of_reached (large : sizeofItem + (build.maxKeyLength + build.maxValueLength) ≤ slabSize 0 ∨
      ∀ it ∈ free, Slotted r.memory (build.maxKeyLength + build.maxValueLength) it)
    (reached : (allocation Worker).Reachable s) (memory : r.memory = s.memory) (batch : r.batch = s.batchSet worker)
    (list : Chain (fun q => (r.memory.heap q).next)
      (r.batch.localSlab (pickList (build.maxKeyLength + build.maxValueLength))) free)
    (hashes : List Hash.HashWord) (supplied : hashes.length ≤ free.length) :
    Ready build hashes (free.take hashes.length) (free.drop hashes.length) r ∧
      ∀ it ∈ free, Sender.slabLocToPtrAsserts r.memory (BitVec.ofNat 32 (r.memory.heap it).loc) = .ok it := by
  obtain ⟨lists, classes, held⟩ := held_reachable reached
  rw [memory, batch] at list
  have same : free = lists (worker, pickList (build.maxKeyLength + build.maxValueLength)) :=
    list.unique (held.held.chain (worker, _))
  have nodup := held.held.nodup (worker, pickList (build.maxKeyLength + build.maxValueLength))
  rw [← same] at nodup
  have inside : ∀ it ∈ free, ∃ clsid o, s.memory.Inside clsid o ∧ it = s.memory.item clsid o := by
    intro it member
    rw [same] at member
    obtain ⟨o, inside, item, _⟩ := held.held.inside _ it member
    exact ⟨_, o, inside, item⟩
  refine ⟨⟨List.length_take_of_le supplied, ?_, ?_, ?_⟩, ?_⟩
  · rw [List.take_append_drop]
    exact nodup
  · rw [List.take_append_drop, memory, batch]
    exact list
  · intro it member
    have listed := List.mem_of_mem_take member
    rcases large with least | slotted
    · obtain ⟨clsid, o, present, item⟩ := inside it listed
      rw [memory, item]
      exact slotted_of_least least present
    · exact slotted it listed
  · intro it member
    obtain ⟨clsid, o, present, item⟩ := inside it member
    rw [memory, item]
    exact (Sender.item_coded held.sound present).ptr

variable (worker) in
theorem packet_round_trip (plain : build.signature = false) (lengths : build.Lengths)
    (large : sizeofItem + (build.maxKeyLength + build.maxValueLength) ≤ slabSize 0 ∨
      ∀ it ∈ free, Slotted r.memory (build.maxKeyLength + build.maxValueLength) it)
    (copies : Copies memcpy) (once : ∀ n, env.attempts n = ⟨id, []⟩)
    (payload : Stands packet Sender.eiuHdrLen (encodePayload requests))
    (length : pktLen = Sender.eiuHdrLen + (encodePayload requests).length) (reached : (allocation Worker).Reachable s)
    (memory : r.memory = s.memory) (batch : r.batch = s.batchSet worker) (room : Room requests (r.bufs id))
    (list : Chain (fun q => (r.memory.heap q).next)
      (r.batch.localSlab (pickList (build.maxKeyLength + build.maxValueLength))) free)
    (supplied : (setHashes requests).length ≤ free.length) :
    ∃ r' items, processPacket build memcpy env (.whole packet) pktLen r = .ok ((requests.length : Int), r') ∧
      Served id requests items r r' ∧ items.Nodup ∧ items.length = (setHashes requests).length ∧
      ∀ it ∈ items, Sender.slabLocToPtrAsserts r'.memory (BitVec.ofNat 32 (r'.memory.heap it).loc) = .ok it := by
  obtain ⟨ready, coded⟩ := ready_of_reached large reached memory batch list (setHashes requests) supplied
  obtain ⟨r', result, served⟩ := packet_served plain lengths copies once payload length room ready
  refine ⟨r', _, result, served, (List.nodup_append.mp ready.nodup).1, ready.count, ?_⟩
  intro it member
  have address := coded it (List.mem_of_mem_take member)
  unfold Sender.slabLocToPtrAsserts Sender.slabLocToPtr at address ⊢
  rw [served.slabclass, served.loc]
  exact address

end Reached

end Packet

section Pair

def pairKey : List.Vector Byte defaultBuild.maxKeyLength := ⟨[1, 0, 0, 0, 2, 0, 0, 0], rfl⟩
def pairValue : List.Vector Byte defaultBuild.maxValueLength := ⟨[9, 9, 9, 9, 9, 9, 9, 9], rfl⟩
def pairRequests : List (Request defaultBuild) := [.set pairKey pairValue, .get pairKey]

def pairPacket : Nat → Byte := fun k => (encodePayload pairRequests).getD (k - Sender.eiuHdrLen) 0

attribute [local instance] twoWorkers in
def pairState : State :=
  { memory := smallState.memory
    batch := smallState.batchSet 0
    bufs := fun _ => emptyBuf
    numSearchJob := 0
    numInsertJob := 0 }

def calmEnv : Env := { supply := fun _ => ⟨true, true⟩, evictions := fun _ _ => ⟨0, []⟩, attempts := fun _ => ⟨0, []⟩ }

theorem smallState_reachable : (allocation (Fin 2)).Reachable smallState :=
  .step startState_reachable (.alloc startState 0 ampleSupply calm 16 _ _ _ startBatch_alloc)

theorem packet_round_trip_pair :
    ∃ r' items, processPacket defaultBuild memcpyData calmEnv (.whole pairPacket) 82 pairState = .ok (2, r') ∧
      Served 0 pairRequests items pairState r' ∧ items.Nodup ∧ items.length = 1 ∧
      ∀ it ∈ items, Sender.slabLocToPtrAsserts r'.memory (BitVec.ofNat 32 (r'.memory.heap it).loc) = .ok it := by
  obtain ⟨lists, classes, held⟩ := held_reachable smallState_reachable
  have list := held.freeLists.finite 0 0
  rw [smallState_head] at list
  obtain ⟨rest, same, _⟩ := list.uncons
  have payload : Stands pairPacket Sender.eiuHdrLen (encodePayload pairRequests) := Stands.shifted _ _ _
  have length : 82 = Sender.eiuHdrLen + (encodePayload pairRequests).length := by decide
  have room : Room pairRequests (pairState.bufs 0) := by
    refine ⟨by decide, by decide, ?_⟩
    intro block
    have hashes := @List.countP_le_length _ (fun hash => insertBlockId hash == block) (setHashes pairRequests)
    change 0 + _ ≤ batchMaxInsertJob - 1
    exact Nat.le_trans (Nat.add_le_add_left hashes 0) (by decide)
  have picked : pickList (defaultBuild.maxKeyLength + defaultBuild.maxValueLength) = 0 := pickList_first (by decide)
  have chain : Chain (fun q => (pairState.memory.heap q).next)
      (pairState.batch.localSlab (pickList (defaultBuild.maxKeyLength + defaultBuild.maxValueLength))) (lists (0, 0)) := by
    rw [picked]
    exact held.freeLists.finite 0 0
  have supplied : (setHashes pairRequests).length ≤ (lists (0, 0)).length := by
    rw [same]
    exact Nat.le_add_left 1 rest.length
  have small : defaultBuild.Small := ⟨rfl, rfl, rfl⟩
  exact packet_round_trip 0 small.plain small.lengths (.inl small.least) (fun _ _ _ _ _ => rfl) (fun _ => rfl) payload length
    smallState_reachable rfl rfl room chain supplied

end Pair

end MegaKV.Receiver
