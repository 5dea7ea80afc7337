import MegaKV.Library.View
import MegaKV.Sender.Prefetch
import MegaKV.Slab.BatchAlloc

namespace MegaKV.Receiver

open Library Slab

def protocolMagic : BitVec 16 := 0x1234
def megaJobGet : BitVec 16 := 0x2
def megaJobSet : BitVec 16 := 0x3
def endMark : BitVec 16 := 0xFFFF

section Config

def batchMaxSearchJob : Nat := 32768
def batchMaxInsertJob : Nat := batchMaxSearchJob >>> Hash.iblockP
def bitsInsertBuf : Nat := Hash.iblockP

end Config

structure Build extends Sender.Build where
  signature : Bool
  maxKeyLength : Nat
  maxValueLength : Nat

def defaultBuild : Build :=
  { compactJob := true, keyMatch := false, signature := false, maxKeyLength := 8, maxValueLength := 8 }

structure InsertBuf where
  insertIn : Nat → Hash.IElem
  numInsertJob : Nat

/-- `mega_batch_buf_t` without its delete jobs, which `Batch` has. -/
structure BatchBuf extends Sender.SearchBuf where
  searchIn : Nat → Hash.SElem
  insertJobList : Nat → Ptr
  numInsertJob : Nat
  insertBuf : Nat → InsertBuf

/-- What `process_packet` works on. An id stands for one time a buffer is with the receiver. -/
structure State where
  memory : Memory
  batch : Batch
  bufs : Nat → BatchBuf
  numSearchJob : Nat
  numInsertJob : Nat

def State.setBuf (r : State) (id : Nat) (buf : BatchBuf) : State :=
  { r with bufs := Function.update r.bufs id buf }

def State.setItem (r : State) (it : Ptr) (item : Item) : State :=
  { r with memory := { r.memory with heap := Function.update r.memory.heap it item } }

/-- What a request ends with: the return value, or the number of bytes behind its key length. -/
inductive Outcome where
  | returns (value : Int) (r : State)
  | goesOn (body kk : Nat) (r : State)

abbrev Reading (α : Type) := Except (Stop Halt) α

/-- The outside of one call, by request: memory, and the reads of `receiver_buf_id`. -/
structure Env where
  supply : Nat → Supply
  evictions : Nat → Nat → Attempts
  attempts : Nat → Attempts

section Signature

def word16 (bytes : Nat → Byte) : BitVec 16 := bytes 1 ++ bytes 0
def word64 (bytes : Nat → Byte) : BitVec 64 := dataWord bytes 4 ++ dataWord bytes 0

def xorWords (v : View) (key : Nat) : Nat → Nat → BitVec 64 → Reading (BitVec 64)
  | 0, _, sig => .ok sig
  | rounds + 1, i, sig => do
    let bytes ← v.read (key + i) 8
    xorWords v key rounds (i + 8) (sig ^^^ word64 bytes)

def xorTail (v : View) (key nkey i : Nat) (sig : BitVec 64) : Reading (BitVec 64) :=
  if i < nkey then do
    let bytes ← v.read (key + i) 8
    .ok (sig ^^^ (word64 bytes &&& ((1 <<< ((nkey - i) * 8)) - 1)))
  else .ok sig

def signatureRounds (nkey : Nat) : Nat := (nkey - 8) / 8

def keySig (build : Build) (v : View) (key nkey : Nat) : Reading (BitVec 64) := do
  let bytes ← v.read key 8
  if build.signature then do
    let sig ← xorWords v key (signatureRounds nkey) 8 (word64 bytes)
    xorTail v key nkey (8 + 8 * signatureRounds nkey) sig
  else .ok (word64 bytes)

def sigHash (sig : BitVec 64) : Hash.HashWord := (sig >>> 32).setWidth 32
def sigSign (sig : BitVec 64) : Hash.Sign := ((sig <<< 32) >>> 32).setWidth 32

end Signature

section Search

def readEthAddr (v : View) : Reading (BitVec 48) := do
  let bytes ← v.read 6 6
  .ok (bytes 5 ++ bytes 4 ++ bytes 3 ++ bytes 2 ++ bytes 1 ++ bytes 0)

/-- The entry at hand counts the search if it is of the same client, else a new one begins. -/
def addCompactJob (v : View) (ip : BitVec 32) (port : BitVec 16) (buf : BatchBuf) : Reading BatchBuf :=
  let mark := buf.numCompactSearchJob
  let job := buf.searchJobList mark
  if job.ip = ip ∧ job.port = port then
    .ok { buf with searchJobList := Function.update buf.searchJobList mark { job with num := (job.num + 1) % 2 ^ 16 } }
  else do
    let ethAddr ← readEthAddr v
    let job := { buf.searchJobList (mark + 1) with
      ethAddr := ethAddr, ip := ip, port := port, num := 1, index := buf.numSearchJob }
    .ok { buf with
      numCompactSearchJob := mark + 1
      searchJobList := Function.update buf.searchJobList (mark + 1) job }

def addKey (build : Build) (v : View) (key nkey : Nat) (job : Sender.SearchJob) : Reading Sender.SearchJob :=
  if build.keyMatch then do
    let bytes ← v.read key nkey
    .ok { job with nkey := nkey, key := fun k => if k < nkey then bytes k else job.key k }
  else .ok job

/-- Without COMPACT_JOB each search has an entry of its own. -/
def addPlainJob (build : Build) (v : View) (key nkey : Nat) (ip : BitVec 32) (port : BitVec 16) (buf : BatchBuf) :
    Reading BatchBuf := do
  let mark := buf.numCompactSearchJob
  let ethAddr ← readEthAddr v
  let job ← addKey build v key nkey { buf.searchJobList mark with
    ethAddr := ethAddr, ip := ip, port := port, num := 1, index := buf.numSearchJob }
  .ok { buf with
    numCompactSearchJob := mark + 1
    searchJobList := Function.update buf.searchJobList mark job }

def addJob (build : Build) (v : View) (key nkey : Nat) (ip : BitVec 32) (port : BitVec 16) (buf : BatchBuf) :
    Reading BatchBuf :=
  if build.compactJob then addCompactJob v ip port buf else addPlainJob build v key nkey ip port buf

def addSearch (build : Build) (v : View) (key nkey : Nat) (ip : BitVec 32) (port : BitVec 16) (buf : BatchBuf) :
    Reading BatchBuf := do
  let buf ← addJob build v key nkey ip port buf
  let sig ← keySig build v key nkey
  .ok { buf with
    searchIn := Function.update buf.searchIn buf.numSearchJob { hash := sigHash sig, sig := sigSign sig }
    numSearchJob := buf.numSearchJob + 1 }

/-- The buffer has been swapped. With COMPACT_JOB `job` is still the entry `mark` of before. -/
def undoSearch (build : Build) (mark : Nat) (buf : BatchBuf) : BatchBuf :=
  if build.compactJob then
    let job := buf.searchJobList mark
    let num := (job.num + (2 ^ 16 - 1)) % 2 ^ 16
    { buf with
      searchJobList := Function.update buf.searchJobList mark { job with num := num }
      numCompactSearchJob := if num = 0 then buf.numCompactSearchJob - 1 else buf.numCompactSearchJob
      numSearchJob := buf.numSearchJob - 1 }
  else { buf with numCompactSearchJob := buf.numCompactSearchJob - 1, numSearchJob := buf.numSearchJob - 1 }

/-- The part of a GET from `again` on, one attempt for each id. -/
def searchAttempts (build : Build) (v : View) (key nkey : Nat) (ip : BitVec 32) (port : BitVec 16) :
    List Nat → Nat → State → Reading Outcome
  | [], kk, r => .ok (.goesOn nkey kk r)
  | id :: again, kk, r =>
    let buf := r.bufs id
    if batchMaxSearchJob - 1 ≤ buf.numSearchJob then .ok (.returns (-1) r)
    else do
      let added ← addSearch build v key nkey ip port buf
      let left := if again.isEmpty then added else undoSearch build buf.numCompactSearchJob added
      searchAttempts build v key nkey ip port again (kk + 1)
        { r.setBuf id left with numSearchJob := r.numSearchJob + 1 }

def getRequest (build : Build) (v : View) (attempts : Attempts) (ip : BitVec 32) (port : BitVec 16) (ptr kk : Nat)
    (r : State) : Reading Outcome := do
  let bytes ← v.read ptr 2
  let nkey := (word16 bytes).toNat
  if nkey ≠ build.maxKeyLength then .ok (.goesOn nkey kk r)
  else searchAttempts build v (ptr + 2) nkey ip port attempts.ids kk r

end Search

section Insert

def insertBlockId (hash : Hash.HashWord) : Nat :=
  if bitsInsertBuf = 0 then 0 else (hash >>> (32 - bitsInsertBuf)).toNat

/-- The two assertions behind it follow from the checks in front of it. -/
def addInsert (buf : BatchBuf) (it : Ptr) (block : Nat) (elem : Hash.IElem) : BatchBuf :=
  let insertBuf := buf.insertBuf block
  { buf with
    insertJobList := Function.update buf.insertJobList buf.numInsertJob it
    insertBuf := Function.update buf.insertBuf block
      { insertIn := Function.update insertBuf.insertIn insertBuf.numInsertJob elem
        numInsertJob := insertBuf.numInsertJob + 1 }
    numInsertJob := buf.numInsertJob + 1 }

def undoInsert (block : Nat) (buf : BatchBuf) : BatchBuf :=
  let insertBuf := buf.insertBuf block
  { buf with
    insertBuf := Function.update buf.insertBuf block { insertBuf with numInsertJob := insertBuf.numInsertJob - 1 }
    numInsertJob := buf.numInsertJob - 1 }

def State.clearFlags (r : State) (it : Ptr) : State := r.setItem it { r.memory.heap it with flags := 0 }

/-- The part of a SET from `reinsert` on, one attempt for each id. -/
def insertAttempts (body : Nat) (it : Ptr) (hash : Hash.HashWord) (sig : Hash.Sign) :
    List Nat → Nat → State → Outcome
  | [], kk, r => .goesOn body kk r
  | id :: again, kk, r =>
    let buf := r.bufs id
    let block := insertBlockId hash
    if (batchMaxInsertJob - 1) <<< bitsInsertBuf ≤ buf.numInsertJob then .returns (-1) (r.clearFlags it)
    else if batchMaxInsertJob ≤ (buf.insertBuf block).numInsertJob + 1 then .returns (-1) (r.clearFlags it)
    else
      let added := addInsert buf it block { hash := hash, sig := sig, loc := BitVec.ofNat 32 (r.memory.heap it).loc }
      let left := if again.isEmpty then added else undoInsert block added
      insertAttempts body it hash sig again kk (r.setBuf id left)

/-- The effect of `rte_memcpy` to `ITEM_key` of an item. -/
abbrev Memcpy := Ptr → Nat → (Nat → Byte) → Memory → Memory

/-- Inside the chunk it changes the item's data only. -/
def memcpyData : Memcpy := fun it size bytes m =>
  { m with
    heap := Function.update m.heap it
      { m.heap it with data := fun k => if k < size then bytes k else (m.heap it).data k } }

/-- The job of a SET whose item has been stored; wrong lengths end it. -/
def insertJob (build : Build) (v : View) (attempts : Attempts) (it : Ptr) (nkey nbyte key kk : Nat) (r : State) :
    Reading Outcome :=
  let body := 4 + (nkey + nbyte) % 2 ^ 32
  if nkey ≠ build.maxKeyLength ∨ nbyte ≠ build.maxValueLength then .ok (.goesOn body kk (r.clearFlags it))
  else do
    let sig ← keySig build v key nkey
    .ok (insertAttempts body it (sigHash sig) (sigSign sig) attempts.ids (kk + 1)
      { r with numInsertJob := r.numInsertJob + 1 })

/-- The part of a SET behind its lengths, with the key at `key`. -/
def setItem (build : Build) (memcpy : Memcpy) (v : View) (supply : Supply) (evictions : Nat → Attempts)
    (attempts : Attempts) (nkey nbyte key kk : Nat) (r : State) : Reading Outcome :=
  let size := (nkey + nbyte) % 2 ^ 32
  match batchAlloc supply evictions size r.memory r.batch with
  | .error halt => .error (.halt halt)
  | .ok (it, m, batch) => do
    let bytes ← v.read key size
    let r := { r with memory := m, batch := batch }.setItem it { m.heap it with nkey := nkey, nbytes := nbyte }
    insertJob build v attempts it nkey nbyte key kk { r with memory := memcpy it size bytes r.memory }

def setRequest (build : Build) (memcpy : Memcpy) (v : View) (supply : Supply) (evictions : Nat → Attempts)
    (attempts : Attempts) (ptr kk : Nat) (r : State) : Reading Outcome := do
  let keyBytes ← v.read ptr 2
  let valueBytes ← v.read (ptr + 2) 4
  setItem build memcpy v supply evictions attempts (word16 keyBytes).toNat (dataWord valueBytes 0).toNat (ptr + 6) kk r

end Insert

section Packet

variable (build : Build) (memcpy : Memcpy) (env : Env) (v : View)

def request (ip : BitVec 32) (port : BitVec 16) (n ptr kk : Nat) (r : State) : Reading Outcome := do
  let bytes ← v.read ptr 2
  let jobType := word16 bytes
  if jobType = endMark then .ok (.returns kk r)
  else if jobType = megaJobGet then getRequest build v (env.attempts n) ip port (ptr + 2) kk r
  else if jobType = megaJobSet then
    setRequest build memcpy v (env.supply n) (env.evictions n) (env.attempts n) (ptr + 2) kk r
  else .ok (.returns (-1) r)

/-- The loop over the requests, with the length check behind each of them. -/
def requests (pktLen : Nat) (ip : BitVec 32) (port : BitVec 16) (n ptr kk : Nat) (r : State) :
    Reading (Int × State) :=
  match request build memcpy env v ip port n ptr kk r with
  | .error stop => .error stop
  | .ok (.returns value r) => .ok (value, r)
  | .ok (.goesOn body kk r) =>
    if pktLen ≤ ptr + 4 + body then .ok (-1, r) else requests pktLen ip port (n + 1) (ptr + 4 + body) kk r
termination_by pktLen - ptr

/-- `process_packet`; offsets count from `pkt_ptr`, where the header has 42 bytes. -/
def processPacket (pktLen : Nat) (r : State) : Reading (Int × State) := do
  let ipBytes ← v.read 26 4
  let portBytes ← v.read 34 2
  let magic ← v.read Sender.eiuHdrLen 2
  if word16 magic ≠ protocolMagic then .ok (-1, r)
  else requests build memcpy env v pktLen (dataWord ipBytes 0) (word16 portBytes) 0 (Sender.eiuHdrLen + 2) 0 r

end Packet

end MegaKV.Receiver
