import MegaKV.Receiver.Encode
import MegaKV.Slab.FreeLists

namespace MegaKV.Receiver

open Library Slab

section Requests

variable {build : Build}

/-- A key and a value in the item that was taken for them. -/
structure Stored (build : Build) where
  key : List.Vector Byte build.maxKeyLength
  value : List.Vector Byte build.maxValueLength
  it : Ptr

def Stored.elem (m : Memory) (stored : Stored build) : Hash.IElem :=
  { sig := keySign stored.key.toList, hash := keyHash stored.key.toList, loc := BitVec.ofNat 32 (m.heap stored.it).loc }

structure Stored.Holds (stored : Stored build) (m : Memory) : Prop where
  nkey : (m.heap stored.it).nkey = build.maxKeyLength
  nbytes : (m.heap stored.it).nbytes = build.maxValueLength
  data : Stands (m.heap stored.it).data 0 (stored.key.toList ++ stored.value.toList)

def searches : List (Request build) → List Hash.SElem
  | [] => []
  | .get key :: rest => { sig := keySign key.toList, hash := keyHash key.toList } :: searches rest
  | .set _ _ :: rest => searches rest

def stores : List (Request build) → List Ptr → List (Stored build)
  | [], _ => []
  | .get _ :: rest, items => stores rest items
  | .set _ _ :: _, [] => []
  | .set key value :: rest, it :: items => ⟨key, value, it⟩ :: stores rest items

def setHashes : List (Request build) → List Hash.HashWord
  | [] => []
  | .get _ :: rest => setHashes rest
  | .set key _ :: rest => keyHash key.toList :: setHashes rest

def inBlock (block : Nat) (elem : Hash.IElem) : Bool := insertBlockId elem.hash == block

def inserts (m : Memory) (requests : List (Request build)) (items : List Ptr) (block : Nat) : List Hash.IElem :=
  ((stores requests items).map (Stored.elem m)).filter (inBlock block)

structure Room (requests : List (Request build)) (buf : BatchBuf) : Prop where
  search : buf.numSearchJob + (searches requests).length ≤ batchMaxSearchJob - 1
  insert : buf.numInsertJob + (setHashes requests).length ≤ (batchMaxInsertJob - 1) <<< bitsInsertBuf
  block : ∀ block, (buf.insertBuf block).numInsertJob +
    (setHashes requests).countP (fun hash => insertBlockId hash == block) ≤ batchMaxInsertJob - 1

/-- What the requests have done to the state, with the buffer `id` and the items they took. -/
structure Served (id : Nat) (requests : List (Request build)) (items : List Ptr) (r r' : State) : Prop where
  search : Appended (r.bufs id).searchIn (r'.bufs id).searchIn (r.bufs id).numSearchJob (searches requests)
  numSearchJob : (r'.bufs id).numSearchJob = (r.bufs id).numSearchJob + (searches requests).length
  insert : ∀ block, Appended ((r.bufs id).insertBuf block).insertIn ((r'.bufs id).insertBuf block).insertIn
    ((r.bufs id).insertBuf block).numInsertJob (inserts r.memory requests items block)
  numInsert : ∀ block, ((r'.bufs id).insertBuf block).numInsertJob =
    ((r.bufs id).insertBuf block).numInsertJob + (inserts r.memory requests items block).length
  numInsertJob : (r'.bufs id).numInsertJob = (r.bufs id).numInsertJob + (setHashes requests).length
  bufs : ∀ other ≠ id, r'.bufs other = r.bufs other
  holds : ∀ stored ∈ stores requests items, stored.Holds r'.memory
  loc : ∀ q, (r'.memory.heap q).loc = (r.memory.heap q).loc
  heap : ∀ q ∉ items, r'.memory.heap q = r.memory.heap q
  slabclass : r'.memory.slabclass = r.memory.slabclass

end Requests

section Search

variable {build : Build} {packet : Nat → Byte} {pktLen key : Nat} {ip : BitVec 32} {port : BitVec 16}

/-- The entry of a client in the list of jobs changes nothing else. -/
structure SameJobs (buf added : BatchBuf) : Prop where
  searchIn : added.searchIn = buf.searchIn
  numSearchJob : added.numSearchJob = buf.numSearchJob
  insertBuf : added.insertBuf = buf.insertBuf
  numInsertJob : added.numInsertJob = buf.numInsertJob

theorem readEthAddr_read (header : 12 ≤ pktLen) : ∃ ethAddr, readEthAddr (.cut packet pktLen) = .ok ethAddr := by
  rw [readEthAddr, View.read_cut packet header]
  exact ⟨_, rfl⟩

theorem addKey_read {nkey : Nat} (inside : key + nkey ≤ pktLen) (job : Sender.SearchJob) :
    ∃ added, addKey build (.cut packet pktLen) key nkey job = .ok added := by
  unfold addKey
  rw [View.read_cut packet inside]
  split
  · exact ⟨_, rfl⟩
  · exact ⟨_, rfl⟩

theorem addJob_read (header : 12 ≤ pktLen) {nkey : Nat} (inside : key + nkey ≤ pktLen) (buf : BatchBuf) :
    ∃ added, addJob build (.cut packet pktLen) key nkey ip port buf = .ok added ∧ SameJobs buf added := by
  obtain ⟨ethAddr, address⟩ := @readEthAddr_read packet pktLen header
  simp only [addJob, addCompactJob, addPlainJob, address]
  split
  · split
    · exact ⟨_, rfl, rfl, rfl, rfl, rfl⟩
    · exact ⟨_, rfl, rfl, rfl, rfl, rfl⟩
  · obtain ⟨job, keyed⟩ := @addKey_read build packet pktLen key nkey inside
      { buf.searchJobList buf.numCompactSearchJob with
        ethAddr := ethAddr, ip := ip, port := port, num := 1, index := buf.numSearchJob }
    change ∃ added, ((addKey _ _ _ _ _ : Reading Sender.SearchJob) >>= _) = _ ∧ _
    rw [keyed]
    exact ⟨_, rfl, rfl, rfl, rfl, rfl⟩

theorem addSearch_read (plain : build.signature = false) (header : 12 ≤ pktLen) (lengths : build.Lengths)
    {bytes : List.Vector Byte build.maxKeyLength} (inside : key + build.maxKeyLength ≤ pktLen)
    (stands : Stands packet key bytes.toList) (buf : BatchBuf) :
    ∃ added, addSearch build (.cut packet pktLen) key build.maxKeyLength ip port buf = .ok added ∧
      added.searchIn = Function.update buf.searchIn buf.numSearchJob
        { sig := keySign bytes.toList, hash := keyHash bytes.toList } ∧
      added.numSearchJob = buf.numSearchJob + 1 ∧ added.insertBuf = buf.insertBuf ∧
      added.numInsertJob = buf.numInsertJob := by
  have words := lengths.words
  have long : 8 ≤ bytes.toList.length := by
    rw [List.Vector.toList_length]
    exact words
  obtain ⟨job, jobs, same⟩ := @addJob_read build packet pktLen key ip port header build.maxKeyLength inside buf
  obtain ⟨sig, read, hash, sign⟩ := keySig_read plain build.maxKeyLength long (by omega : key + 8 ≤ pktLen) stands
  simp only [addSearch, jobs, read]
  refine ⟨_, rfl, ?_, ?_, same.insertBuf, same.numInsertJob⟩
  · simp only [same.searchIn, same.numSearchJob, hash, sign]
  · simp only [same.numSearchJob]

/-- What `addSearch` adds to a buffer is a GET that has been served. -/
theorem search_served {id : Nat} {r r' : State} {added : BatchBuf} {bytes : List.Vector Byte build.maxKeyLength}
    (memory : r'.memory = r.memory) (bufs : r'.bufs = Function.update r.bufs id added)
    (searchIn : added.searchIn = Function.update (r.bufs id).searchIn (r.bufs id).numSearchJob
      { sig := keySign bytes.toList, hash := keyHash bytes.toList })
    (numSearchJob : added.numSearchJob = (r.bufs id).numSearchJob + 1)
    (insertBuf : added.insertBuf = (r.bufs id).insertBuf) (numInsertJob : added.numInsertJob = (r.bufs id).numInsertJob) :
    Served id [Request.get bytes] [] r r' := by
  have here : r'.bufs id = added := by
    rw [bufs, Function.update_self]
  constructor
  · rw [here, searchIn]
    exact Appended.push _ _ _
  · rw [here, numSearchJob]
    rfl
  · intro block
    rw [here, insertBuf]
    exact Appended.nil _ _
  · intro block
    rw [here, insertBuf]
    rfl
  · rw [here, numInsertJob]
    rfl
  · intro other different
    rw [bufs]
    exact Function.update_of_ne different _ _
  · intro stored member
    cases member
  · intro q
    rw [memory]
  · intro q _
    rw [memory]
  · rw [memory]

theorem get_served {env : Env} {memcpy : Memcpy} {n id ptr kk : Nat} {r : State} (plain : build.signature = false)
    (header : 12 ≤ pktLen) (lengths : build.Lengths) {bytes : List.Vector Byte build.maxKeyLength}
    (stands : Stands packet ptr (Request.get bytes).encode) (inside : ptr + 4 + build.maxKeyLength ≤ pktLen)
    (once : env.attempts n = ⟨id, []⟩) (room : (r.bufs id).numSearchJob < batchMaxSearchJob - 1) :
    ∃ r', request build memcpy env (.cut packet pktLen) ip port n ptr kk r =
        .ok (.goesOn build.maxKeyLength (kk + 1) r') ∧
      r'.memory = r.memory ∧ r'.batch = r.batch ∧ Served id [Request.get bytes] [] r r' := by
  obtain ⟨jobType, keyLength, keyed⟩ := get_fields lengths stands
  rw [request_read (by omega), jobType, if_neg not_endMark_get, if_pos rfl, getRequest_read (by omega), keyLength,
    if_neg (not_not.mpr rfl), once]
  obtain ⟨added, result, searchIn, numSearchJob, insertBuf, numInsertJob⟩ :=
    @addSearch_read build packet pktLen (ptr + 4) ip port plain header lengths bytes inside keyed (r.bufs id)
  have free : ¬batchMaxSearchJob - 1 ≤ (r.bufs id).numSearchJob := Nat.not_le.mpr room
  simp only [Attempts.ids, searchAttempts, if_neg free, result]
  exact ⟨_, rfl, rfl, rfl, search_served rfl rfl searchIn numSearchJob insertBuf numInsertJob⟩

end Search

section Insert

variable {build : Build} {memcpy : Memcpy} {env : Env} {packet : Nat → Byte} {pktLen n id ptr kk : Nat} {ip : BitVec 32}
  {port : BitVec 16} {r : State}

/-- An item of a slab with room for `size` bytes behind its header. -/
def Slotted (m : Memory) (size : Nat) (it : Ptr) : Prop :=
  ∃ id o, m.Inside id o ∧ it = m.item id o ∧ sizeofItem + size ≤ slabSize id

/-- Into a large enough item `rte_memcpy` copies the bytes and changes nothing else. -/
def Copies (memcpy : Memcpy) : Prop :=
  ∀ (m : Memory) (size : Nat) (it : Ptr) (bytes : Nat → Byte), Slotted m size it →
    memcpy it size bytes m = memcpyData it size bytes m

theorem Slotted.congr {m m' : Memory} {size : Nat} {it : Ptr} (slotted : Slotted m size it)
    (same : m'.slabclass = m.slabclass) : Slotted m' size it := by
  obtain ⟨id, o, inside, item, fits⟩ := slotted
  refine ⟨id, o, ⟨inside.1, ?_⟩, ?_, fits⟩
  · rw [same]
    exact inside.2
  · unfold Memory.item
    rw [same]
    exact item

def storedItem (build : Build) (item : Item) (bytes : Nat → Byte) : Item :=
  { item with
    flags := 0
    nkey := build.maxKeyLength
    nbytes := build.maxValueLength
    data := fun k => if k < build.maxKeyLength + build.maxValueLength then bytes k else item.data k }

def State.stored (build : Build) (r : State) (it : Ptr) (bytes : Nat → Byte) : State :=
  { r.setItem it (storedItem build (r.memory.heap it) bytes) with
    batch := { r.batch with
      localSlab := Function.update r.batch.localSlab (pickList (build.maxKeyLength + build.maxValueLength))
        (r.memory.heap it).next } }

theorem setItem_stored (lengths : build.Lengths) (copies : Copies memcpy) {key : Nat} {it : Ptr}
    (inside : key + (build.maxKeyLength + build.maxValueLength) ≤ pktLen)
    (head : r.batch.localSlab (pickList (build.maxKeyLength + build.maxValueLength)) = some it)
    (slotted : Slotted r.memory (build.maxKeyLength + build.maxValueLength) it) (supply : Supply)
    (evictions : Nat → Attempts) (attempts : Attempts) :
    setItem build memcpy (.cut packet pktLen) supply evictions attempts build.maxKeyLength build.maxValueLength key kk r =
      insertJob build (.cut packet pktLen) attempts it build.maxKeyLength build.maxValueLength key kk
        (r.stored build it (View.window packet key (build.maxKeyLength + build.maxValueLength))) := by
  have size : (build.maxKeyLength + build.maxValueLength) % 2 ^ 32 = build.maxKeyLength + build.maxValueLength :=
    Nat.mod_eq_of_lt lengths.body
  have allocated := batchAlloc_refilled rfl (@refill_some supply evictions
    (build.maxKeyLength + build.maxValueLength) _ r.memory _ _ head) head
  unfold setItem
  simp only [size, allocated, View.read_cut packet inside]
  apply congrArg (insertJob build (.cut packet pktLen) attempts it build.maxKeyLength build.maxValueLength key kk)
  -- The flags, the lengths and the data go to one item, so the updates of the heap are one.
  have written : ∀ heap bytes, memcpy it (build.maxKeyLength + build.maxValueLength) bytes { r.memory with heap := heap } =
      memcpyData it (build.maxKeyLength + build.maxValueLength) bytes { r.memory with heap := heap } :=
    fun heap bytes => copies _ _ it bytes (slotted.congr rfl)
  simp only [State.setItem, handOut, Function.update_self, written, memcpyData, State.stored, storedItem,
    Function.update_idem]

theorem stored_heap (it : Ptr) (bytes : Nat → Byte) :
    (r.stored build it bytes).memory.heap =
      Function.update r.memory.heap it (storedItem build (r.memory.heap it) bytes) := rfl

theorem stored_loc (it q : Ptr) (bytes : Nat → Byte) :
    ((r.stored build it bytes).memory.heap q).loc = (r.memory.heap q).loc := by
  rw [stored_heap]
  by_cases here : q = it
  · rw [here, Function.update_self]
    rfl
  · rw [Function.update_of_ne here]

theorem stored_holds {key : List.Vector Byte build.maxKeyLength}
    {value : List.Vector Byte build.maxValueLength} (it : Ptr) (stands : Stands packet ptr (key.toList ++ value.toList)) :
    (Stored.mk key value it).Holds
      (r.stored build it (View.window packet ptr (build.maxKeyLength + build.maxValueLength))).memory := by
  have written : (r.stored build it (View.window packet ptr (build.maxKeyLength + build.maxValueLength))).memory.heap it =
      storedItem build (r.memory.heap it) (View.window packet ptr (build.maxKeyLength + build.maxValueLength)) := by
    rw [stored_heap, Function.update_self]
  refine ⟨congrArg Item.nkey written, congrArg Item.nbytes written, ?_⟩
  rw [written]
  apply stands.congr
  intro k inside
  rw [List.length_append, List.Vector.toList_length, List.Vector.toList_length] at inside
  simp only [storedItem, View.window, Nat.zero_add, if_pos inside]

theorem addInsert_appended (buf : BatchBuf) (it : Ptr) (elem : Hash.IElem) (block : Nat) :
    Appended (buf.insertBuf block).insertIn ((addInsert buf it (insertBlockId elem.hash) elem).insertBuf block).insertIn
      (buf.insertBuf block).numInsertJob ([elem].filter (inBlock block)) ∧
    ((addInsert buf it (insertBlockId elem.hash) elem).insertBuf block).numInsertJob =
      (buf.insertBuf block).numInsertJob + ([elem].filter (inBlock block)).length := by
  by_cases here : block = insertBlockId elem.hash
  · have chosen : [elem].filter (inBlock block) = [elem] := by
      rw [List.filter_singleton, inBlock, here, beq_self_eq_true]
      rfl
    rw [chosen]
    simp only [addInsert, here, Function.update_self]
    exact ⟨Appended.push _ _ _, rfl⟩
  · have other : [elem].filter (inBlock block) = [] := by
      rw [List.filter_singleton, inBlock, beq_eq_false_iff_ne.mpr (Ne.symm here)]
      rfl
    rw [other]
    simp only [addInsert, Function.update_of_ne here]
    exact ⟨Appended.nil _ _, rfl⟩

/-- With room for one more insert, the job goes to the block of its hash. -/
theorem insertAttempts_once {body : Nat} {it : Ptr} {hash : Hash.HashWord} {sig : Hash.Sign}
    (total : (r.bufs id).numInsertJob < (batchMaxInsertJob - 1) <<< bitsInsertBuf)
    (slot : ((r.bufs id).insertBuf (insertBlockId hash)).numInsertJob + 1 < batchMaxInsertJob) :
    insertAttempts body it hash sig [id] kk r =
      .goesOn body kk (r.setBuf id (addInsert (r.bufs id) it (insertBlockId hash)
        { hash := hash, sig := sig, loc := BitVec.ofNat 32 (r.memory.heap it).loc })) := by
  simp only [insertAttempts, if_neg (Nat.not_le.mpr total), if_neg (Nat.not_le.mpr slot), List.isEmpty_nil, ite_true]

theorem insertJob_read (plain : build.signature = false) (lengths : build.Lengths)
    {bytes : List.Vector Byte build.maxKeyLength} {key : Nat} (stands : Stands packet key bytes.toList)
    (inside : key + build.maxKeyLength ≤ pktLen) (attempts : Attempts) (it : Ptr) :
    insertJob build (.cut packet pktLen) attempts it build.maxKeyLength build.maxValueLength key kk r =
      .ok (insertAttempts (4 + (build.maxKeyLength + build.maxValueLength)) it (keyHash bytes.toList)
        (keySign bytes.toList) attempts.ids (kk + 1) { r with numInsertJob := r.numInsertJob + 1 }) := by
  have words := lengths.words
  have long : 8 ≤ bytes.toList.length := by
    rw [List.Vector.toList_length]
    exact words
  have right : ¬(build.maxKeyLength ≠ build.maxKeyLength ∨ build.maxValueLength ≠ build.maxValueLength) := by simp
  obtain ⟨sig, read, hash, sign⟩ := keySig_read plain build.maxKeyLength long (by omega : key + 8 ≤ pktLen) stands
  simp only [insertJob, if_neg right, read, Nat.mod_eq_of_lt lengths.body]
  rw [← hash, ← sign]
  rfl

/-- A stored item whose job has been added is a SET that has been served. -/
theorem insert_served {key : List.Vector Byte build.maxKeyLength} {value : List.Vector Byte build.maxValueLength}
    {it : Ptr} {r' : State} (stands : Stands packet ptr (key.toList ++ value.toList))
    (memory : r'.memory =
      (r.stored build it (View.window packet ptr (build.maxKeyLength + build.maxValueLength))).memory)
    (bufs : r'.bufs = Function.update r.bufs id
      (addInsert (r.bufs id) it (insertBlockId (keyHash key.toList)) ((Stored.mk key value it).elem r.memory))) :
    Served id [Request.set key value] [it] r r' := by
  have added := addInsert_appended (r.bufs id) it ((Stored.mk key value it).elem r.memory)
  have here : r'.bufs id =
      addInsert (r.bufs id) it (insertBlockId (keyHash key.toList)) ((Stored.mk key value it).elem r.memory) := by
    rw [bufs, Function.update_self]
  constructor
  · rw [here]
    exact Appended.nil _ _
  · rw [here]
    rfl
  · intro block
    rw [here]
    exact (added block).1
  · intro block
    rw [here]
    exact (added block).2
  · rw [here]
    rfl
  · intro other different
    rw [bufs]
    exact Function.update_of_ne different _ _
  · intro stored member
    rw [List.mem_singleton.mp member, memory]
    exact stored_holds it stands
  · intro q
    rw [memory]
    exact stored_loc it q _
  · intro q outside
    rw [memory, stored_heap]
    exact Function.update_of_ne (List.ne_of_not_mem_cons outside) _ _
  · rw [memory]
    rfl

theorem set_served (plain : build.signature = false) (lengths : build.Lengths) (copies : Copies memcpy)
    {key : List.Vector Byte build.maxKeyLength} {value : List.Vector Byte build.maxValueLength} {it : Ptr}
    (stands : Stands packet ptr (Request.set key value).encode)
    (inside : ptr + 8 + (build.maxKeyLength + build.maxValueLength) ≤ pktLen) (once : env.attempts n = ⟨id, []⟩)
    (head : r.batch.localSlab (pickList (build.maxKeyLength + build.maxValueLength)) = some it)
    (slotted : Slotted r.memory (build.maxKeyLength + build.maxValueLength) it)
    (total : (r.bufs id).numInsertJob < (batchMaxInsertJob - 1) <<< bitsInsertBuf)
    (slot : ((r.bufs id).insertBuf (insertBlockId (keyHash key.toList))).numInsertJob + 1 < batchMaxInsertJob) :
    ∃ r', request build memcpy env (.cut packet pktLen) ip port n ptr kk r =
        .ok (.goesOn (4 + (build.maxKeyLength + build.maxValueLength)) (kk + 1) r') ∧
      r'.batch.localSlab (pickList (build.maxKeyLength + build.maxValueLength)) = (r.memory.heap it).next ∧
      Served id [Request.set key value] [it] r r' := by
  obtain ⟨jobType, keyLength, valueLength, body⟩ := set_fields lengths stands
  rw [request_read (by omega), jobType, if_neg not_endMark_set, if_neg not_get_set, if_pos rfl,
    setRequest_read (by omega), keyLength, valueLength, once, setItem_stored lengths copies inside head slotted,
    insertJob_read plain lengths body.left (by omega)]
  have job := @insertAttempts_once id (kk + 1)
    { r.stored build it (View.window packet (ptr + 8) (build.maxKeyLength + build.maxValueLength)) with
      numInsertJob := r.numInsertJob + 1 } (4 + (build.maxKeyLength + build.maxValueLength)) it
    (keyHash key.toList) (keySign key.toList) total slot
  have elem : ({ hash := keyHash key.toList, sig := keySign key.toList, loc := BitVec.ofNat 32 ((r.stored build it
      (View.window packet (ptr + 8) (build.maxKeyLength + build.maxValueLength))).memory.heap it).loc } : Hash.IElem) =
      (Stored.mk key value it).elem r.memory := by
    rw [stored_loc]
    rfl
  simp only [elem] at job
  refine ⟨_, congrArg Except.ok job, ?_, ?_⟩
  · exact Function.update_self _ _ _
  · exact insert_served body rfl rfl

end Insert

end MegaKV.Receiver
