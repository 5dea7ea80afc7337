import MegaKV.Sender.Writers

namespace MegaKV.Sender

open Slab

/-- What the loop without prefetching changes; `aborted` is a failed assertion. -/
structure PlainState where
  m : Memory
  out : Output
  aborted : Bool

/-- `ITEM_GET`, which also touches the bitmap; `none` is its assertion. -/
def itemGet (m : Memory) (loc : Hash.Loc) : Option (Ptr × Memory) :=
  let id := (loc >>> (locBits - slabIdBits)).toNat
  let offset := ((loc <<< slabIdBits) >>> slabIdBits).toNat
  let p := m.slabclass id
  if offset < perslab * p.slabs then
    some (slabLocToPtr m loc, m.setClass id { p with bitmap := bitmapTouch p.bitmap offset })
  else none

inductive Attempted
  | written (s : PlainState)
  | exceeds (s : PlainState)
  | nothing (s : PlainState)
  | aborts (s : PlainState)

/-- One of the two search results of `index`, for the job at position `job`. -/
def tryLoc (keyMatch : Bool) (buf : SearchBuf) (s : PlainState) (index job : Nat) (loc : Hash.Loc) : Attempted :=
  if loc = 0 then .nothing s
  else
    match itemGet s.m loc with
    | none => .aborts { s with aborted := true }
    | some (it, m) =>
      let s := { s with m := m }
      let item := m.heap it
      let size := if keyMatch then item.nbytes + 6 else item.nkey + item.nbytes + 6
      if ethernetMaxFrameLen < s.out.current.length + size then .exceeds s
      else if keyMatch then
        let asked := buf.searchJobList job
        if item.nkey = asked.nkey ∧ strncmp item.data asked.key item.nkey = 0 then
          .written { s with out := s.out.writePkt keyMatch index job it item }
        else .nothing s
      else .written { s with out := s.out.writePkt keyMatch index job it item }

def Output.notFound (out : Output) : Output :=
  { out with current := { out.current with length := out.current.length + 1 }, miss := out.miss + 1 }

/-- Both search results of `index` in turn; the flag tells whether the packet goes on. -/
def serveIndex (keyMatch : Bool) (buf : SearchBuf) (s : PlainState) (index job : Nat) : PlainState × Bool :=
  match tryLoc keyMatch buf s index job (buf.searchOut (index <<< 1)) with
  | .written s => (s, true)
  | .exceeds s => (s, false)
  | .aborts s => (s, false)
  | .nothing s =>
    match tryLoc keyMatch buf s index job (buf.searchOut ((index <<< 1) + 1)) with
    | .written s => (s, true)
    | .exceeds s => (s, false)
    | .aborts s => (s, false)
    | .nothing s =>
      if ethernetMaxFrameLen < s.out.current.length + 1 then (s, false)
      else ({ s with out := s.out.notFound }, true)

def fillPacket (keyMatch : Bool) (buf : SearchBuf) (totalCnt : Nat) (cursor : Cursor) (s : PlainState) :
    Cursor × PlainState :=
  let thisJob := buf.searchJobList cursor.job
  if cursor.job < totalCnt then
    if thisJob.ip ≠ s.out.current.ip ∨ thisJob.port ≠ s.out.current.port then (cursor, s)
    else if 0 < cursor.num then
      let served := serveIndex keyMatch buf s cursor.jobIndex cursor.job
      if served.2 then
        fillPacket keyMatch buf totalCnt
          { cursor with num := cursor.num - 1, jobIndex := cursor.jobIndex + 1 } served.1
      else (cursor, served.1)
    else fillPacket keyMatch buf totalCnt (loadJob buf (cursor.job + 1) cursor.index) s
  else (cursor, s)
termination_by (totalCnt - cursor.job, cursor.num)
decreasing_by
  · exact Prod.Lex.right _ (Nat.sub_lt (by assumption) Nat.one_pos)
  · exact Prod.Lex.left _ _ (Nat.sub_lt_sub_left (by assumption) (Nat.lt_succ_self _))

section Filling

variable {keyMatch : Bool} {buf : SearchBuf} {totalCnt : Nat} {cursor : Cursor} {s : PlainState}

theorem fillPacket_done (done : ¬cursor.job < totalCnt) : fillPacket keyMatch buf totalCnt cursor s = (cursor, s) := by
  rw [fillPacket]
  exact if_neg done

theorem fillPacket_next (inside : cursor.job < totalCnt)
    (same : (buf.searchJobList cursor.job).ip = s.out.current.ip ∧ (buf.searchJobList cursor.job).port = s.out.current.port)
    (none : ¬0 < cursor.num) :
    fillPacket keyMatch buf totalCnt cursor s =
      fillPacket keyMatch buf totalCnt (loadJob buf (cursor.job + 1) cursor.index) s := by
  rw [fillPacket]
  simp only [if_pos inside, same.1, same.2, ne_eq, not_true, or_self, ite_false, if_neg none]

theorem fillPacket_serve (inside : cursor.job < totalCnt)
    (same : (buf.searchJobList cursor.job).ip = s.out.current.ip ∧ (buf.searchJobList cursor.job).port = s.out.current.port)
    (some : 0 < cursor.num) {next : PlainState}
    (served : serveIndex keyMatch buf s cursor.jobIndex cursor.job = (next, true)) :
    fillPacket keyMatch buf totalCnt cursor s =
      fillPacket keyMatch buf totalCnt { cursor with num := cursor.num - 1, jobIndex := cursor.jobIndex + 1 } next := by
  rw [fillPacket]
  simp only [if_pos inside, same.1, same.2, ne_eq, not_true, or_self, ite_false, if_pos some, served, ite_true]

end Filling

/-- The packet is counted in its chunk, unless there is nothing in it. -/
def Output.closePacket (out : Output) : Output :=
  if eiuHdrLen < out.current.length then { out.complete with pktMark := out.pktMark + 1 } else out

def Output.closeChunk (out : Output) (jobsLeft : Bool) : Output :=
  if out.pktMark < ioBatchNum ∧ jobsLeft then out
  else { out with pktMark := 0, totalPackets := out.totalPackets + ioBatchNum }

/-- At most so many packets of the loop without prefetching. -/
def plainPackets (keyMatch : Bool) (buf : SearchBuf) (totalCnt : Nat) : Nat → Cursor → PlainState → PlainState
  | 0, _, s => s
  | packets + 1, cursor, s =>
    if cursor.job < totalCnt ∧ s.aborted = false then
      let s := { s with out := { s.out with current := startPacket (buf.searchJobList cursor.job) } }
      let filled := fillPacket keyMatch buf totalCnt cursor s
      plainPackets keyMatch buf totalCnt packets filled.1
        { filled.2 with out := filled.2.out.closePacket.closeChunk (decide (filled.1.job < totalCnt)) }
    else s

theorem plainPackets_succ {keyMatch : Bool} {buf : SearchBuf} {totalCnt packets : Nat} {cursor : Cursor} {s : PlainState}
    (more : cursor.job < totalCnt) (running : s.aborted = false) {next : Cursor × PlainState}
    (filled : fillPacket keyMatch buf totalCnt cursor
      { s with out := { s.out with current := startPacket (buf.searchJobList cursor.job) } } = next) :
    plainPackets keyMatch buf totalCnt (packets + 1) cursor s =
      plainPackets keyMatch buf totalCnt packets next.1
        { next.2 with out := next.2.out.closePacket.closeChunk (decide (next.1.job < totalCnt)) } := by
  rw [plainPackets, if_pos ⟨more, running⟩]
  simp only [filled]

/-- What `mega_sender_sendloop` has done with one batch after so many packets, in a build without
    PREFETCH_BATCH. An item too large for a frame keeps it from ever finishing. -/
def sendPlain (build : Build) (m : Memory) (buf : SearchBuf) (hit miss totalBytes totalPackets packets : Nat) :
    PlainState :=
  let out := startOutput (buf.searchJobList (firstJob build)) hit miss totalBytes totalPackets
  plainPackets build.keyMatch buf (totalCnt build buf) packets (loadJob buf (firstJob build) 0)
    { m := m, out := out, aborted := false }

end MegaKV.Sender
