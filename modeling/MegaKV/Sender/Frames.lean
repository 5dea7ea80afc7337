import MegaKV.Receiver.Encode
import MegaKV.Sender.Plain

namespace MegaKV.Sender

open Slab Receiver

section Mbufs

def protocolValue : BitVec 16 := 0x0001
def protocolGetNotFound : Byte := 0x02

def sizeofEtherHdr : Nat := 14
def sizeofIpv4Hdr : Nat := 20

def rteCpuToBe16 (x : BitVec 16) : BitVec 16 := x.extractLsb' 0 8 ++ x.extractLsb' 8 8

/-- An mbuf with what the send loop writes into it; `payload` stands between the header and `pkt_ptr`. -/
structure Frame where
  ethAddr : BitVec 48
  ip : BitVec 32
  port : BitVec 16
  payload : List Byte
  pktLen : Nat
  totalLength : BitVec 16
  dgramLen : BitVec 16

/-- `pkt_ptr - pkt_base_ptr`. -/
def Frame.length (frame : Frame) : Nat := eiuHdrLen + frame.payload.length

/-- What the send loop changes; `bursts` has the packets of each call of `rte_eth_tx_burst`. -/
structure TxState where
  m : Memory
  mTable : Nat → Frame
  pktMark : Nat
  bursts : List (List Frame)
  hit : Nat
  miss : Nat
  totalBytes : Nat

def TxState.current (s : TxState) : Frame := s.mTable s.pktMark

def TxState.setCurrent (s : TxState) (frame : Frame) : TxState :=
  { s with mTable := Function.update s.mTable s.pktMark frame }

def TxState.write (s : TxState) (bytes : List Byte) : TxState :=
  s.setCurrent { s.current with payload := s.current.payload ++ bytes }

end Mbufs

section Records

/-- The bytes of `WRITE_PKT` in a build with KEY_MATCH. -/
def valueRecord (item : Item) : List Byte :=
  bytes16 protocolValue ++ bytes32 (BitVec.ofNat 32 item.nbytes) ++
    (List.range item.nbytes).map (fun k => item.data (item.nkey + k))

def KeyPasses (item : Item) (job : SearchJob) : Prop :=
  item.nkey = job.nkey ∧ strncmp item.data job.key item.nkey = 0

instance (item : Item) (job : SearchJob) : Decidable (KeyPasses item job) :=
  inferInstanceAs (Decidable (_ ∧ _))

inductive Tried
  | written
  | exceeds
  | nothing

variable (buf : SearchBuf)

/-- One of the two search results of a job. -/
def tryRecord (job : Nat) (loc : Hash.Loc) (s : TxState) : Except Halt (Tried × TxState) :=
  if loc = 0 then .ok (.nothing, s)
  else
    match itemGet s.m loc with
    | none => .error .assertion
    | some (it, m) =>
      let s := { s with m := m }
      let item := m.heap it
      if ethernetMaxFrameLen < s.current.length + item.nbytes + 6 then .ok (.exceeds, s)
      else if KeyPasses item (buf.searchJobList job) then
        .ok (.written, { s.write (valueRecord item) with hit := s.hit + 1 })
      else .ok (.nothing, s)

/-- Both search results of `index` in turn; the flag tells whether the packet goes on. -/
def serveRecord (index job : Nat) (s : TxState) : Except Halt (Bool × TxState) :=
  match tryRecord buf job (buf.searchOut (index <<< 1)) s with
  | .error halt => .error halt
  | .ok (.written, s) => .ok (true, s)
  | .ok (.exceeds, s) => .ok (false, s)
  | .ok (.nothing, s) =>
    match tryRecord buf job (buf.searchOut ((index <<< 1) + 1)) s with
    | .error halt => .error halt
    | .ok (.written, s) => .ok (true, s)
    | .ok (.exceeds, s) => .ok (false, s)
    | .ok (.nothing, s) =>
      if ethernetMaxFrameLen < s.current.length + 1 then .ok (false, s)
      else .ok (true, { s.write [protocolGetNotFound] with miss := s.miss + 1 })

end Records

section Loops

variable (buf : SearchBuf) (totalCnt : Nat)

def fillFrame (cursor : Cursor) (s : TxState) : Except Halt (Cursor × TxState) :=
  let thisJob := buf.searchJobList cursor.job
  if cursor.job < totalCnt then
    if thisJob.ip ≠ s.current.ip ∨ thisJob.port ≠ s.current.port then .ok (cursor, s)
    else if 0 < cursor.num then
      match serveRecord buf cursor.jobIndex cursor.job s with
      | .error halt => .error halt
      | .ok (false, s) => .ok (cursor, s)
      | .ok (true, s) => fillFrame { cursor with num := cursor.num - 1, jobIndex := cursor.jobIndex + 1 } s
    else fillFrame (loadJob buf (cursor.job + 1) cursor.index) s
  else .ok (cursor, s)
termination_by (totalCnt - cursor.job, cursor.num)
decreasing_by
  · exact Prod.Lex.right _ (Nat.sub_lt (by assumption) Nat.one_pos)
  · exact Prod.Lex.left _ _ (Nat.sub_lt_sub_left (by assumption) (Nat.lt_succ_self _))

def startFrame (job : SearchJob) (s : TxState) : TxState :=
  s.setCurrent { s.current with ethAddr := job.ethAddr, ip := job.ip, port := job.port, payload := [] }

/-- The part behind `exceed_packet_len`. -/
def closeFrame (s : TxState) : TxState :=
  let totalLength := s.current.length
  if eiuHdrLen < totalLength then
    { s.setCurrent { s.current with
        pktLen := totalLength
        totalLength := rteCpuToBe16 (BitVec.ofNat 16 (totalLength - sizeofEtherHdr))
        dgramLen := rteCpuToBe16 (BitVec.ofNat 16 (totalLength - sizeofEtherHdr - sizeofIpv4Hdr)) } with
      pktMark := s.pktMark + 1
      totalBytes := s.totalBytes + totalLength }
  else s

/-- The loop that constructs a chunk, for at most so many packets. -/
def buildChunk : Nat → Cursor → TxState → Except Halt (Cursor × TxState)
  | 0, _, _ => .error .diverges
  | packets + 1, cursor, s =>
    if s.pktMark < ioBatchNum ∧ cursor.job < totalCnt then
      match fillFrame buf totalCnt cursor (startFrame (buf.searchJobList cursor.job) s) with
      | .error halt => .error halt
      | .ok (cursor, s) => buildChunk packets cursor (closeFrame s)
    else .ok (cursor, s)

def TxState.burst (s : TxState) : TxState :=
  { s with bursts := s.bursts ++ [(List.range s.pktMark).map s.mTable] }

/-- The loop over the chunks, for at most so many of them. -/
def sendChunks (packets : Nat) : Nat → Cursor → TxState → Except Halt TxState
  | 0, _, _ => .error .diverges
  | chunks + 1, cursor, s =>
    if cursor.job < totalCnt then
      match buildChunk buf totalCnt packets cursor { s with pktMark := 0 } with
      | .error halt => .error halt
      | .ok (cursor, s) => sendChunks packets chunks cursor s.burst
    else .ok s

end Loops

/-- What `mega_sender_sendloop` does with one batch in a build with KEY_MATCH and without COMPACT_JOB,
    PREFETCH_BATCH and LOCAL_TEST, in at most so many rounds of each loop. -/
def sendFrames (rounds : Nat) (m : Memory) (buf : SearchBuf) (mTable : Nat → Frame) (hit miss totalBytes : Nat) :
    Except Halt TxState :=
  let s : TxState :=
    { m := m, mTable := mTable, pktMark := 0, bursts := [], hit := hit, miss := miss, totalBytes := totalBytes }
  if buf.numSearchJob = 0 then .ok s
  else sendChunks buf (totalCnt ⟨false, true⟩ buf) rounds rounds (loadJob buf (firstJob ⟨false, true⟩) 0) s

end MegaKV.Sender
