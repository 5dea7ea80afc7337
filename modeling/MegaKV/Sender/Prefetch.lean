import MegaKV.Slab.Slabs

namespace MegaKV.Sender

open Slab

def prefetchBatchDistance : Nat := 5
def ethernetMaxFrameLen : Nat := 1514
def maxKeyLength : Nat := 8

section Config

def eiuHdrLen : Nat := 42
def ioBatchNum : Nat := 2

end Config

structure Build where
  compactJob : Bool
  keyMatch : Bool

/-- `mega_job_search_t`; only a build with KEY_MATCH has a key in it. -/
structure SearchJob where
  ethAddr : BitVec 48
  ip : BitVec 32
  port : BitVec 16
  num : Nat
  index : Nat
  key : Nat → Byte
  nkey : Nat

/-- The search part of `mega_batch_buf_t`. -/
structure SearchBuf where
  searchJobList : Nat → SearchJob
  numCompactSearchJob : Nat
  numSearchJob : Nat
  searchOut : Nat → Hash.Loc

def slabLocToPtr (m : Memory) (loc : Hash.Loc) : Ptr :=
  let id := (loc >>> (locBits - slabIdBits)).toNat
  itemAt (m.slabclass id) id ((loc <<< slabIdBits) >>> slabIdBits).toNat

def strncmpFrom (s t : Nat → Byte) (i : Nat) : Nat → Int
  | 0 => 0
  | n + 1 =>
    if s i ≠ t i then ((s i).toNat : Int) - (t i).toNat
    else if s i = 0 then 0
    else strncmpFrom s t (i + 1) n

def strncmp (s t : Nat → Byte) (n : Nat) : Int := strncmpFrom s t 0 n

/-- A value record in a packet. `index` and `job` tell which search it answers; they are not part
    of the bytes. -/
structure Record where
  index : Nat
  job : Nat
  it : Ptr
  nbytes : Nat
  value : List Byte

structure Packet where
  ethAddr : BitVec 48
  ip : BitVec 32
  port : BitVec 16
  records : List Record
  length : Nat

/-- The packets already completed, the one being built, and the counters of the sender. -/
structure Output where
  packets : List Packet
  current : Packet
  pktMark : Nat
  totalBytes : Nat
  totalPackets : Nat
  hit : Nat
  miss : Nat

def startPacket (job : SearchJob) : Packet :=
  { ethAddr := job.ethAddr, ip := job.ip, port := job.port, records := [], length := eiuHdrLen }

def Output.complete (out : Output) : Output :=
  { out with packets := out.packets ++ [out.current], totalBytes := out.totalBytes + out.current.length }

def Output.newPacket (out : Output) (job : SearchJob) : Output :=
  if out.pktMark = ioBatchNum - 1 then
    { out.complete with current := startPacket job, pktMark := 0, totalPackets := out.totalPackets + ioBatchNum }
  else { out.complete with current := startPacket job, pktMark := out.pktMark + 1 }

/-- `WRITE_PKT`. Without KEY_MATCH it copies key and value and moves on by the value alone. -/
def Output.writePkt (out : Output) (keyMatch : Bool) (index job : Nat) (it : Ptr) (item : Item) : Output :=
  let value := if keyMatch then (List.range item.nbytes).map (fun k => item.data (item.nkey + k))
    else (List.range (item.nbytes + item.nkey)).map item.data
  { out with
    current := { out.current with
      records := out.current.records ++ [{ index := index, job := job, it := it, nbytes := item.nbytes, value := value }]
      length := out.current.length + 6 + item.nbytes }
    hit := out.hit + 1 }

/-- An entry of `item_pointer_buf`, with the job `key_buf` and `key_len_buf` are taken from. -/
structure Gathered where
  it : Ptr
  job : Nat
  index : Nat

/-- `this_job` with its `num` and `index` as counted so far, and the search index. -/
structure Cursor where
  job : Nat
  num : Nat
  jobIndex : Nat
  index : Nat

def loadJob (buf : SearchBuf) (job index : Nat) : Cursor :=
  { job := job, num := (buf.searchJobList job).num, jobIndex := (buf.searchJobList job).index, index := index }

structure Gathering where
  cursor : Cursor
  items : List Gathered
  miss : Nat
  toSend : Bool

def foundLoc (buf : SearchBuf) (index : Nat) : Hash.Loc :=
  let loc := buf.searchOut (index <<< 1)
  if loc = 0 then buf.searchOut ((index <<< 1) + 1) else loc

/-- `prefetch_loop1`. The last `job_mark ++` leaves `this_job` as it is. -/
def prefetchLoop1 (m : Memory) (buf : SearchBuf) (totalCnt : Nat) (g : Gathering) : Gathering :=
  if 0 < g.cursor.num then
    if g.cursor.index ≠ g.cursor.jobIndex then
      { g with cursor := { g.cursor with index := g.cursor.index + 1 }, toSend := true }
    else
      let cursor := { g.cursor with
        num := g.cursor.num - 1, jobIndex := g.cursor.jobIndex + 1, index := g.cursor.index + 1 }
      if foundLoc buf g.cursor.index ≠ 0 then
        let items := g.items ++
          [{ it := slabLocToPtr m (foundLoc buf g.cursor.index), job := g.cursor.job, index := g.cursor.index }]
        if items.length < prefetchBatchDistance then
          prefetchLoop1 m buf totalCnt { g with cursor := cursor, items := items }
        else { g with cursor := cursor, items := items }
      else prefetchLoop1 m buf totalCnt { g with cursor := cursor, miss := g.miss + 1 }
  else if g.cursor.job + 1 < totalCnt then
    prefetchLoop1 m buf totalCnt { g with cursor := loadJob buf (g.cursor.job + 1) g.cursor.index }
  else { g with toSend := true }
termination_by (totalCnt - g.cursor.job, g.cursor.num)
decreasing_by
  · exact Prod.Lex.right _ (Nat.sub_lt (by assumption) Nat.one_pos)
  · exact Prod.Lex.right _ (Nat.sub_lt (by assumption) Nat.one_pos)
  · exact Prod.Lex.left _ _ (Nat.sub_lt_sub_left (Nat.lt_of_succ_lt (by assumption)) (Nat.lt_succ_self _))

def Output.addMiss (out : Output) (n : Nat) : Output := { out with miss := out.miss + n }

/-- What the loop does with its packets. -/
structure Writer (Target : Type) where
  out : Target → Output
  newPacket : Target → SearchJob → Target
  writePkt : Target → Bool → Nat → Nat → Ptr → Item → Target
  addMiss : Target → Nat → Target

/-- One round of `prefetch_loop2`, all rounds of a group with the same `this_job`. -/
def Writer.write {Target : Type} (writer : Writer Target) (keyMatch : Bool) (m : Memory) (buf : SearchBuf) (thisJob : Nat)
    (s : Target) (g : Gathered) : Target :=
  let item := m.heap g.it
  let job := buf.searchJobList thisJob
  let size := if keyMatch then item.nbytes + 6 else item.nkey + item.nbytes + 6
  let current := (writer.out s).current
  let s :=
    if ethernetMaxFrameLen < current.length + size ∨ job.ip ≠ current.ip ∨ job.port ≠ current.port then
      writer.newPacket s job
    else s
  if keyMatch then
    let asked := buf.searchJobList g.job
    if item.nkey = asked.nkey ∧ strncmp item.data asked.key asked.nkey = 0 then
      writer.writePkt s keyMatch g.index g.job g.it item
    else writer.addMiss s 1
  else writer.writePkt s keyMatch g.index g.job g.it item

/-- The loop over all groups, for at most so many of them; the flag is `to_send`. -/
def Writer.groups {Target : Type} (writer : Writer Target) (keyMatch : Bool) (m : Memory) (buf : SearchBuf) (totalCnt : Nat) :
    Nat → Cursor → Target → Option (Target × Bool)
  | 0, _, _ => none
  | rounds + 1, cursor, s =>
    if cursor.index < buf.numSearchJob then
      let g := prefetchLoop1 m buf totalCnt { cursor := cursor, items := [], miss := 0, toSend := false }
      let s := writer.addMiss s g.miss
      if g.items.length = 0 then some (s, g.toSend)
      else
        let s := g.items.foldl (writer.write keyMatch m buf g.cursor.job) s
        if g.items.length ≠ prefetchBatchDistance then some (s, g.toSend)
        else writer.groups keyMatch m buf totalCnt rounds g.cursor s
    else some (s, false)

def outputWriter : Writer Output where
  out := fun out => out
  newPacket := Output.newPacket
  writePkt := Output.writePkt
  addMiss := Output.addMiss

def prefetchWrite (keyMatch : Bool) (m : Memory) (buf : SearchBuf) (thisJob : Nat) (out : Output) (g : Gathered) :
    Output := outputWriter.write keyMatch m buf thisJob out g

def prefetchGroups (keyMatch : Bool) (m : Memory) (buf : SearchBuf) (totalCnt rounds : Nat) (cursor : Cursor)
    (out : Output) : Option (Output × Bool) := outputWriter.groups keyMatch m buf totalCnt rounds cursor out

def firstJob (build : Build) : Nat := if build.compactJob then 1 else 0
def totalCnt (build : Build) (buf : SearchBuf) : Nat := firstJob build + buf.numCompactSearchJob

def startOutput (job : SearchJob) (hit miss totalBytes totalPackets : Nat) : Output :=
  { packets := [], current := startPacket job, pktMark := 0, totalBytes := totalBytes, totalPackets := totalPackets,
    hit := hit, miss := miss }

/-- What `mega_sender_sendloop` does with one batch in a build with PREFETCH_BATCH. A packet that
    `to_send` does not complete stays the current one. -/
def sendBatch (build : Build) (m : Memory) (buf : SearchBuf) (hit miss totalBytes totalPackets : Nat) : Option Output :=
  let job := firstJob build
  let out := startOutput (buf.searchJobList job) hit miss totalBytes totalPackets
  let cursor := loadJob buf job (buf.searchJobList job).index
  match prefetchGroups build.keyMatch m buf (totalCnt build buf) (buf.numSearchJob + 1) cursor out with
  | none => none
  | some (out, toSend) =>
    some (if toSend then { out.complete with totalPackets := out.totalPackets + ioBatchNum } else out)

section Uniform

def plainItem : Item :=
  { next := none, flags := 0, slabsClsid := 0, nkey := 8, nbytes := 8, loc := 1, data := fun _ => 0 }

def uniformMemory (item : Item) : Memory :=
  { slabclass := fun _ =>
      { slabs := 1, slabList := fun _ => ⟨0, 0⟩, listSize := 16,
        bitmap := { map := fun _ => 0, size := 2 ^ 22, currentSize := 512, walker := 0, offsetMask := BitVec.allOnes 64 } }
    memoryFull := false
    memMalloced := 0
    blocks := 1
    heap := fun _ => item }

end Uniform

end MegaKV.Sender
