import MegaKV.Library.Packing
import MegaKV.Sender.Frames
import MegaKV.Sender.PrefetchRun
import MegaKV.Sender.Records

namespace MegaKV.Sender

open Slab

section Mbufs

/-- An mbuf of `tx_mbufs.m_table` with the packet in it and the length fields. `number` tells which packet of the
    batch it is; it is not part of the bytes. -/
structure Mbuf where
  packet : Packet
  number : Nat
  pktLen : Nat
  totalLength : BitVec 16
  dgramLen : BitVec 16

def Mbuf.complete (mbuf : Mbuf) : Mbuf where
  packet := mbuf.packet
  number := mbuf.number
  pktLen := mbuf.packet.length
  totalLength := rteCpuToBe16 (BitVec.ofNat 16 (mbuf.packet.length - sizeofEtherHdr))
  dgramLen := rteCpuToBe16 (BitVec.ofNat 16 (mbuf.packet.length - sizeofEtherHdr - sizeofIpv4Hdr))

/-- What the loop changes in a build without LOCAL_TEST; `bursts` has the mbufs of each call of `rte_eth_tx_burst`.
    What the device accepts of them is left out, and so is what `total_packets` is without LOCAL_TEST. -/
structure Sending where
  out : Output
  mTable : Nat → Mbuf
  bursts : List (List Mbuf)

def Sending.current (s : Sending) : Mbuf := s.mTable s.out.pktMark

def Sending.setCurrent (s : Sending) (mbuf : Mbuf) : Sending :=
  { s with mTable := Function.update s.mTable s.out.pktMark mbuf }

/-- `tx_mbufs.len = len`, and the burst. -/
def Sending.burst (s : Sending) (len : Nat) : Sending :=
  { s with bursts := s.bursts ++ [(List.range len).map s.mTable] }

def Sending.complete (s : Sending) : Sending := s.setCurrent s.current.complete

def Sending.start (s : Sending) (job : SearchJob) : Sending :=
  s.setCurrent { s.current with packet := startPacket job, number := s.out.packets.length }

def Sending.newPacket (s : Sending) (job : SearchJob) : Sending :=
  let s := s.complete
  let s := if s.out.pktMark = ioBatchNum - 1 then s.burst s.out.pktMark else s
  { s with out := s.out.newPacket job }.start job

def Sending.writePkt (s : Sending) (keyMatch : Bool) (index job : Nat) (it : Ptr) (item : Item) : Sending :=
  let out := s.out.writePkt keyMatch index job it item
  { s with out := out }.setCurrent { s.current with packet := out.current }

end Mbufs

section Loop

def Sending.addMiss (s : Sending) (n : Nat) : Sending := { s with out := s.out.addMiss n }

def sendWriter : Writer Sending where
  out := Sending.out
  newPacket := Sending.newPacket
  writePkt := Sending.writePkt
  addMiss := Sending.addMiss

def sendGroups (keyMatch : Bool) (m : Memory) (buf : SearchBuf) (totalCnt rounds : Nat) (cursor : Cursor) (s : Sending) :
    Option (Sending × Bool) := sendWriter.groups keyMatch m buf totalCnt rounds cursor s

def sendLoop (build : Build) (m : Memory) (buf : SearchBuf) (mTable : Nat → Mbuf) (hit miss totalBytes totalPackets : Nat) :
    Option (Sending × Bool) :=
  let job := buf.searchJobList (firstJob build)
  let out := startOutput job hit miss totalBytes totalPackets
  sendGroups build.keyMatch m buf (totalCnt build buf) (buf.numSearchJob + 1)
    (loadJob buf (firstJob build) job.index) (Sending.start { out := out, mTable := mTable, bursts := [] } job)

def Sending.flush (s : Sending) (toSend : Bool) : Sending :=
  if toSend then { s.complete with out := s.out.complete }.burst (s.out.pktMark + 1) else s

end Loop

section Follow

/-- Packet number `k` of the batch, as far as it is written. -/
def packetAt (out : Output) (k : Nat) : Packet := out.packets.getD k out.current

def completed (packet : Packet) (number : Nat) : Mbuf :=
  Mbuf.complete { packet := packet, number := number, pktLen := 0, totalLength := 0, dgramLen := 0 }

def sentAs (out : Output) (k : Nat) : Mbuf := completed (packetAt out k) k

/-- The mbufs follow the packets, and one burst stands for each second packet. -/
structure Follows (s : Sending) : Prop where
  mark : s.out.pktMark = s.out.packets.length % ioBatchNum
  packet : s.current.packet = s.out.current
  number : s.current.number = s.out.packets.length
  before : s.out.pktMark = 1 → s.mTable 0 = sentAs s.out (s.out.packets.length - 1)
  bursts : s.bursts = (List.range (s.out.packets.length / ioBatchNum)).map (fun j => [sentAs s.out (ioBatchNum * j)])

variable {keyMatch : Bool} {m : Memory} {buf : SearchBuf} {s s' : Sending} {out other : Output}

theorem setCurrent_self (s : Sending) (mbuf : Mbuf) : (s.setCurrent mbuf).mTable s.out.pktMark = mbuf :=
  Function.update_self _ _ _

theorem setCurrent_others (s : Sending) (mbuf : Mbuf) {k : Nat} (elsewhere : k ≠ s.out.pktMark) :
    (s.setCurrent mbuf).mTable k = s.mTable k := Function.update_of_ne elsewhere _ _

theorem complete_self (follows : Follows s) :
    s.complete.mTable s.out.pktMark = completed s.out.current s.out.packets.length := by
  rw [Sending.complete, setCurrent_self, ← follows.packet, ← follows.number]
  rfl

theorem packetAt_current (out : Output) : packetAt out out.packets.length = out.current :=
  List.getD_eq_default _ _ (Nat.le_refl _)

theorem sentAs_before {later : List Packet} {k : Nat} (same : other.packets = out.packets ++ later)
    (before : k < out.packets.length) : sentAs other k = sentAs out k := by
  rw [sentAs, sentAs, packetAt, packetAt, same, List.getD_append _ _ _ _ before, List.getD_eq_getElem _ _ before,
    List.getD_eq_getElem _ _ before]

/-- The bursts so far, as they look from a later output. -/
theorem Follows.bursts_later {later : List Packet} (follows : Follows s) (same : other.packets = s.out.packets ++ later) :
    s.bursts = (List.range (s.out.packets.length / ioBatchNum)).map (fun j => [sentAs other (ioBatchNum * j)]) := by
  rw [follows.bursts]
  apply List.map_congr_left
  intro j member
  have bound := List.mem_range.mp member
  rw [sentAs_before same]
  simp only [ioBatchNum] at *
  omega

/-- Nothing but the mbuf of the current packet changes. -/
theorem Follows.keep (follows : Follows s) (packets : s'.out.packets = s.out.packets) (mark : s'.out.pktMark = s.out.pktMark)
    (bursts : s'.bursts = s.bursts) (others : ∀ k ≠ s.out.pktMark, s'.mTable k = s.mTable k)
    (packet : s'.current.packet = s'.out.current) (number : s'.current.number = s.out.packets.length) : Follows s' := by
  have extended : s'.out.packets = s.out.packets ++ [] := by rw [packets, List.append_nil]
  refine ⟨?_, packet, ?_, ?_, ?_⟩
  · rw [mark, packets, follows.mark]
  · rw [number, packets]
  · intro last
    rw [mark] at last
    have some : s.out.packets.length % ioBatchNum = 1 := by rw [← follows.mark, last]
    rw [others 0 (by omega), follows.before last, packets, sentAs_before extended]
    simp only [ioBatchNum] at some
    omega
  · rw [bursts, follows.bursts_later extended, packets]

theorem Follows.writePkt (follows : Follows s) (index job : Nat) (it : Ptr) (item : Item) :
    Follows (s.writePkt keyMatch index job it item) := by
  apply @Follows.keep s (s.writePkt keyMatch index job it item) follows rfl rfl rfl
  · exact fun k elsewhere => Function.update_of_ne elsewhere _ _
  · change (Function.update s.mTable s.out.pktMark _ s.out.pktMark).packet = _
    rw [Function.update_self]
    rfl
  · change (Function.update s.mTable s.out.pktMark _ s.out.pktMark).number = _
    rw [Function.update_self]
    exact follows.number

theorem Follows.addMiss (follows : Follows s) (n : Nat) : Follows (s.addMiss n) :=
  follows.keep rfl rfl rfl (fun _ _ => rfl) follows.packet follows.number

theorem newPacket_out (s : Sending) (job : SearchJob) : (s.newPacket job).out = s.out.newPacket job := by
  unfold Sending.newPacket
  dsimp only
  split <;> rfl

theorem outPacket_full (full : out.pktMark = ioBatchNum - 1) (job : SearchJob) : (out.newPacket job).pktMark = 0 := by
  rw [Output.newPacket, if_pos full]

theorem outPacket_short (short : out.pktMark ≠ ioBatchNum - 1) (job : SearchJob) :
    (out.newPacket job).pktMark = out.pktMark + 1 := by
  rw [Output.newPacket, if_neg short]

theorem newPacket_full (full : s.out.pktMark = ioBatchNum - 1) (job : SearchJob) :
    s.newPacket job = Sending.start { s.complete.burst 1 with out := s.out.newPacket job } job := by
  have marked : s.complete.out.pktMark = ioBatchNum - 1 := full
  unfold Sending.newPacket
  dsimp only
  rw [if_pos marked, marked]
  rfl

theorem newPacket_short (short : s.out.pktMark ≠ ioBatchNum - 1) (job : SearchJob) :
    s.newPacket job = Sending.start { s.complete with out := s.out.newPacket job } job := by
  have marked : s.complete.out.pktMark ≠ ioBatchNum - 1 := short
  unfold Sending.newPacket
  dsimp only
  rw [if_neg marked]
  rfl

theorem start_current (s : Sending) (job : SearchJob) :
    (s.start job).current.packet = startPacket job ∧ (s.start job).current.number = s.out.packets.length := by
  have self : (s.start job).current = { s.current with packet := startPacket job, number := s.out.packets.length } :=
    setCurrent_self _ _
  rw [self]
  exact ⟨rfl, rfl⟩

/-- The packet is completed, and the one before it sent where this one fills the chunk. -/
theorem Follows.newPacket (follows : Follows s) (job : SearchJob) : Follows (s.newPacket job) := by
  obtain ⟨packets, current⟩ := s.out.newPacket_packets job
  have length : (s.out.newPacket job).packets.length = s.out.packets.length + 1 := by
    rw [packets, List.length_append, List.length_singleton]
  have mark := follows.mark
  have bursts := follows.bursts_later packets
  by_cases full : s.out.pktMark = 1
  · have odd : s.out.packets.length % 2 = 1 := by rw [← full]; exact mark.symm
    have last : s.complete.mTable 0 = sentAs (s.out.newPacket job) (ioBatchNum * (s.out.packets.length / ioBatchNum)) := by
      have index : ioBatchNum * (s.out.packets.length / ioBatchNum) = s.out.packets.length - 1 := by
        simp only [ioBatchNum]
        omega
      rw [index, sentAs_before packets (by omega), ← follows.before full]
      exact setCurrent_others _ _ (by omega)
    rw [newPacket_full full]
    obtain ⟨packet, number⟩ := start_current { s.complete.burst 1 with out := s.out.newPacket job } job
    refine ⟨?_, packet.trans current.symm, number, ?_, ?_⟩
    · change (s.out.newPacket job).pktMark = (s.out.newPacket job).packets.length % 2
      rw [outPacket_full full, length]
      omega
    · intro one
      change (s.out.newPacket job).pktMark = 1 at one
      rw [outPacket_full full] at one
      cases one
    · change s.bursts ++ [[s.complete.mTable 0]] =
        (List.range ((s.out.newPacket job).packets.length / 2)).map (fun j => [sentAs (s.out.newPacket job) (ioBatchNum * j)])
      have half : (s.out.packets.length + 1) / 2 = s.out.packets.length / 2 + 1 := by omega
      rw [bursts, last, length, half, List.range_succ, List.map_append]
      rfl
  · have even : s.out.packets.length % 2 = 0 := by
      simp only [ioBatchNum] at mark
      omega
    have zero : s.out.pktMark = 0 := mark.trans even
    rw [newPacket_short full]
    obtain ⟨packet, number⟩ := start_current { s.complete with out := s.out.newPacket job } job
    refine ⟨?_, packet.trans current.symm, number, ?_, ?_⟩
    · change (s.out.newPacket job).pktMark = (s.out.newPacket job).packets.length % 2
      rw [outPacket_short full, length]
      omega
    · intro _
      have self := complete_self follows
      rw [zero] at self
      change (Sending.start { s.complete with out := s.out.newPacket job } job).mTable 0 =
        sentAs (s.out.newPacket job) ((s.out.newPacket job).packets.length - 1)
      rw [length, Nat.add_sub_cancel, sentAs, packetAt, packets, List.getD_append_right _ _ _ _ (Nat.le_refl _), Nat.sub_self]
      have elsewhere : 0 ≠ (s.out.newPacket job).pktMark := by
        rw [outPacket_short full]
        omega
      rw [Sending.start, setCurrent_others _ _ elsewhere]
      exact self
    · change s.bursts =
        (List.range ((s.out.newPacket job).packets.length / 2)).map (fun j => [sentAs (s.out.newPacket job) (ioBatchNum * j)])
      have half : (s.out.packets.length + 1) / 2 = s.out.packets.length / 2 := by omega
      rw [bursts, length, half]
      rfl

end Follow

section Simulation

variable {keyMatch : Bool} {m : Memory} {buf : SearchBuf}

/-- The loop with its mbufs goes with the loop over packets. -/
theorem sendWriter_simulates :
    Simulates keyMatch m buf sendWriter outputWriter (fun s out => Follows s ∧ s.out = out) := by
  refine ⟨?_, ?_, ?_, ?_⟩
  · exact fun s out both => both.2
  · rintro s out job ⟨follows, rfl⟩
    exact ⟨follows.newPacket job, newPacket_out s job⟩
  · rintro s out g ⟨follows, rfl⟩ _
    exact ⟨follows.writePkt g.index g.job g.it (m.heap g.it), rfl⟩
  · rintro s out n ⟨follows, rfl⟩
    exact ⟨follows.addMiss n, rfl⟩

end Simulation

section Batch

variable {build : Build} {m : Memory} {buf : SearchBuf} {hit miss totalBytes totalPackets : Nat} {mTable : Nat → Mbuf}
  {s : Sending}

theorem start_follows (job : SearchJob) :
    Follows (Sending.start { out := startOutput job hit miss totalBytes totalPackets, mTable := mTable, bursts := [] } job) := by
  obtain ⟨packet, number⟩ := start_current
    { out := startOutput job hit miss totalBytes totalPackets, mTable := mTable, bursts := [] } job
  refine ⟨rfl, packet, number, (fun one => by cases one), ?_⟩
  change ([] : List (List Mbuf)) = (List.range (0 / ioBatchNum)).map _
  rw [Nat.zero_div]
  rfl

theorem sendLoop_run (entries : Entries build buf) :
    ∃ s flag, sendLoop build m buf mTable hit miss totalBytes totalPackets = some (s, flag) ∧ Follows s ∧
      s.out = writtenOut build buf m hit miss totalBytes totalPackets ∧
      (flag = true ↔ Flushes buf (ownedIn build buf)) := by
  obtain ⟨flag, written, flushes⟩ := @Entries.loop_run build buf m hit miss totalBytes totalPackets entries
  have ran := @Simulates.groups _ _ _ _ build.keyMatch m buf _ _ _ (totalCnt build buf) sendWriter_simulates
    (buf.numSearchJob + 1) (prefetchStart build buf)
    ⟨@start_follows hit miss totalBytes totalPackets mTable (buf.searchJobList (firstJob build)), rfl⟩
  change Option.Rel _ (sendLoop build m buf mTable hit miss totalBytes totalPackets)
    (prefetchLoop build buf m hit miss totalBytes totalPackets) at ran
  rw [written] at ran
  cases result : sendLoop build m buf mTable hit miss totalBytes totalPackets with
  | none =>
    rw [result] at ran
    cases ran
  | some both =>
    rw [result] at ran
    cases ran with
    | some related => exact ⟨both.1, flag, congrArg some (Prod.ext rfl related.2), related.1.1, related.1.2, flushes⟩

def sentNumbers (packets : Nat) (flag : Bool) : List Nat :=
  (List.range (packets / ioBatchNum)).map (fun j => ioBatchNum * j) ++
    if flag then List.range' (packets - packets % ioBatchNum) (packets % ioBatchNum + 1) else []

theorem flush_bursts (follows : Follows s) (flag : Bool) :
    (s.flush flag).bursts.flatten = (sentNumbers s.out.packets.length flag).map (sentAs s.out) := by
  have singles : s.bursts.flatten =
      ((List.range (s.out.packets.length / ioBatchNum)).map (fun j => ioBatchNum * j)).map (sentAs s.out) := by
    rw [follows.bursts, List.map_map]
    induction List.range (s.out.packets.length / ioBatchNum) with
    | nil => rfl
    | cons j rest ih =>
      rw [List.map_cons, List.flatten_cons, ih]
      rfl
  cases flag with
  | false =>
    rw [sentNumbers, if_neg Bool.false_ne_true, List.append_nil]
    exact singles
  | true =>
    have chunk : (List.range (s.out.pktMark + 1)).map s.complete.mTable =
        (List.range' (s.out.packets.length - s.out.packets.length % ioBatchNum)
          (s.out.packets.length % ioBatchNum + 1)).map (sentAs s.out) := by
      have self := complete_self follows
      rw [← packetAt_current] at self
      have mark := follows.mark
      have cases : s.out.pktMark = 0 ∨ s.out.pktMark = 1 := by
        simp only [ioBatchNum] at mark
        omega
      rw [← mark]
      rcases cases with zero | one
      · rw [zero] at self ⊢
        change [s.complete.mTable 0] = [sentAs s.out (s.out.packets.length - 0)]
        rw [self]
        rfl
      · have last := follows.before one
        have some : 0 < s.out.packets.length := by
          rw [one] at mark
          simp only [ioBatchNum] at mark
          omega
        rw [one] at self ⊢
        change [s.complete.mTable 0, s.complete.mTable 1] =
          [sentAs s.out (s.out.packets.length - 1), sentAs s.out (s.out.packets.length - 1 + 1)]
        rw [self, Nat.sub_add_cancel some, ← last, Sending.complete, setCurrent_others _ _ (by omega)]
        rfl
    rw [sentNumbers, if_pos rfl, List.map_append, ← singles, ← chunk, Sending.flush, if_pos rfl]
    change (s.bursts ++ [_]).flatten = _
    rw [List.flatten_append, List.flatten_singleton]

theorem sentNumbers_nodup (packets : Nat) (flag : Bool) : (sentNumbers packets flag).Nodup := by
  unfold sentNumbers
  simp only [ioBatchNum]
  apply List.Nodup.append
  · exact List.nodup_range.map fun first second same => by omega
  · split
    · exact List.nodup_range'
    · exact List.nodup_nil
  · intro k front back
    obtain ⟨j, range, rfl⟩ := List.mem_map.mp front
    have bound := List.mem_range.mp range
    split at back
    · have behind := (List.mem_range'_1.mp back).1
      omega
    · cases back

theorem sentNumbers_mem {packets k : Nat} {flag : Bool} :
    k ∈ sentNumbers packets flag ↔
      k % 2 = 0 ∧ k + 1 < packets ∨ flag = true ∧ (k = packets ∨ packets % 2 = 1 ∧ k + 1 = packets) := by
  unfold sentNumbers
  simp only [ioBatchNum]
  rw [List.mem_append]
  apply or_congr
  · constructor
    · intro listed
      obtain ⟨j, range, rfl⟩ := List.mem_map.mp listed
      have bound := List.mem_range.mp range
      omega
    · rintro ⟨even, less⟩
      exact List.mem_map.mpr ⟨k / 2, List.mem_range.mpr (by omega), by omega⟩
  · cases flag with
    | false =>
      rw [if_neg Bool.false_ne_true]
      constructor
      · intro none
        cases none
      · rintro ⟨impossible, _⟩
        cases impossible
    | true =>
      rw [if_pos rfl, List.mem_range'_1]
      simp only [true_and]
      omega

/-- A packet is in the bursts once where its number is sent, and in none of them otherwise. -/
theorem flush_filter (follows : Follows s) (flag : Bool) (k : Nat) :
    (s.flush flag).bursts.flatten.filter (fun mbuf => mbuf.number = k) =
      if k ∈ sentNumbers s.out.packets.length flag then [sentAs s.out k] else [] := by
  have numbers : ∀ i, (sentAs s.out i).number = i := fun i => rfl
  rw [flush_bursts follows, List.filter_map]
  have distinct := sentNumbers_nodup s.out.packets.length flag
  generalize sentNumbers s.out.packets.length flag = list at distinct ⊢
  induction list with
  | nil => rfl
  | cons i rest ih =>
    obtain ⟨fresh, distinct⟩ := List.nodup_cons.mp distinct
    have later := ih distinct
    by_cases here : i = k
    · subst here
      rw [if_neg fresh] at later
      rw [List.filter_cons_of_pos (by simp [numbers]), List.map_cons, later, if_pos List.mem_cons_self]
    · rw [List.filter_cons_of_neg (by simp [numbers, here]), later]
      simp only [List.mem_cons, Ne.symm here, false_or]

end Batch

end MegaKV.Sender
