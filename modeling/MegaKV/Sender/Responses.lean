import MegaKV.Sender.SameAnswers
import MegaKV.Sender.Transmission

namespace MegaKV.Sender

open Slab Library

section Packing

variable (keyMatch : Bool) (m : Memory) (buf : SearchBuf)

/-- A hit goes into a packet of its group's client, given with the length so far, if there is room. -/
def roomFor (packet : (BitVec 32 × BitVec 16) × Nat) (h : Nat × (Nat × Nat)) : Prop :=
  client buf h.1 = packet.1 ∧ packet.2 + recordSize keyMatch (m.heap (gathered m buf h.2).it) ≤ ethernetMaxFrameLen

/-- What `WRITE_PKT` moves the pointer on by, if it is done for the hit. -/
def moved (h : Nat × (Nat × Nat)) : Nat :=
  if Matches keyMatch m buf (gathered m buf h.2) then 6 + (m.heap (gathered m buf h.2).it).nbytes else 0

def behind (packet : (BitVec 32 × BitVec 16) × Nat) (h : Nat × (Nat × Nat)) : (BitVec 32 × BitVec 16) × Nat :=
  (packet.1, packet.2 + moved keyMatch m buf h)

def freshFor (h : Nat × (Nat × Nat)) : (BitVec 32 × BitVec 16) × Nat :=
  (client buf h.1, eiuHdrLen + moved keyMatch m buf h)

def recordsOf (part : List (Nat × (Nat × Nat))) : List Record :=
  (((part.map Prod.snd).map (gathered m buf)).filter (fun g => Matches keyMatch m buf g)).map (recordOf keyMatch m)

/-- No hit of the packet passes the comparison of keys. -/
def Silent (part : List (Nat × (Nat × Nat))) : Prop := ∀ h ∈ part, ¬Matches keyMatch m buf (gathered m buf h.2)

structure Packs (done : List (List (Nat × (Nat × Nat)))) (current : List (Nat × (Nat × Nat)))
    (packet : (BitVec 32 × BitVec 16) × Nat) (out : Output) : Prop where
  packets : out.packets.map Packet.records = done.map (recordsOf keyMatch m buf)
  records : out.current.records = recordsOf keyMatch m buf current
  address : (out.current.ip, out.current.port) = packet.1
  length : out.current.length = packet.2

variable {keyMatch m buf} {done : List (List (Nat × (Nat × Nat)))} {current part : List (Nat × (Nat × Nat))}
  {packet : (BitVec 32 × BitVec 16) × Nat} {out : Output} {h : Nat × (Nat × Nat)}

theorem recordsOf_append (first second : List (Nat × (Nat × Nat))) :
    recordsOf keyMatch m buf (first ++ second) = recordsOf keyMatch m buf first ++ recordsOf keyMatch m buf second := by
  simp only [recordsOf, List.map_append, List.filter_append]

theorem recordsOf_single (h : Nat × (Nat × Nat)) :
    recordsOf keyMatch m buf [h] =
      if Matches keyMatch m buf (gathered m buf h.2) then [recordOf keyMatch m (gathered m buf h.2)] else [] := by
  unfold recordsOf
  rw [List.map_singleton, List.map_singleton]
  by_cases passes : Matches keyMatch m buf (gathered m buf h.2)
  · rw [if_pos passes, List.filter_cons_of_pos (by simpa using passes)]
    rfl
  · rw [if_neg passes, List.filter_cons_of_neg (by simpa using passes)]
    rfl

theorem silent_iff : Silent keyMatch m buf part ↔ recordsOf keyMatch m buf part = [] := by
  unfold Silent recordsOf
  rw [List.map_eq_nil_iff, List.filter_eq_nil_iff]
  constructor
  · intro silent g member
    obtain ⟨e, listed, rfl⟩ := List.mem_map.mp member
    obtain ⟨h, present, rfl⟩ := List.mem_map.mp listed
    rw [decide_eq_true_eq]
    exact silent h present
  · intro none h present
    have differs := none _ (List.mem_map_of_mem (List.mem_map_of_mem present))
    rw [decide_eq_true_eq] at differs
    exact differs

theorem breaks_iff (packs : Packs keyMatch m buf done current packet out) :
    Breaks keyMatch m buf h.1 out (gathered m buf h.2) ↔ ¬roomFor keyMatch m buf packet h := by
  obtain ⟨ip, port⟩ := Prod.mk.inj packs.address
  unfold Breaks roomFor client
  rw [← packs.length, ← packs.address, Prod.mk.injEq]
  change ethernetMaxFrameLen < out.current.length + recordSize keyMatch (m.heap (gathered m buf h.2).it) ∨ _ ↔ _
  rw [not_and_or, not_and_or, Nat.not_le]
  constructor
  · rintro (long | other)
    · exact .inr long
    · exact .inl other
  · rintro (other | long)
    · exact .inr other
    · exact .inl long

/-- The hit is written behind what the packet has. -/
theorem Packs.write (packs : Packs keyMatch m buf done current packet out) :
    Packs keyMatch m buf done (current ++ [h]) (behind keyMatch m buf packet h)
      (if Matches keyMatch m buf (gathered m buf h.2) then
        out.writePkt keyMatch (gathered m buf h.2).index (gathered m buf h.2).job (gathered m buf h.2).it
          (m.heap (gathered m buf h.2).it)
      else out.addMiss 1) := by
  by_cases passes : Matches keyMatch m buf (gathered m buf h.2)
  · rw [if_pos passes]
    refine ⟨packs.packets, ?_, packs.address, ?_⟩
    · rw [recordsOf_append, recordsOf_single, if_pos passes, ← packs.records]
      rfl
    · change out.current.length + 6 + _ = packet.2 + moved keyMatch m buf h
      rw [packs.length, moved, if_pos passes, Nat.add_assoc]
  · rw [if_neg passes]
    refine ⟨packs.packets, ?_, packs.address, ?_⟩
    · rw [recordsOf_append, recordsOf_single, if_neg passes, List.append_nil, ← packs.records]
      rfl
    · change out.current.length = packet.2 + moved keyMatch m buf h
      rw [packs.length, moved, if_neg passes, Nat.add_zero]

theorem Packs.joined (packs : Packs keyMatch m buf done current packet out) (room : roomFor keyMatch m buf packet h) :
    Packs keyMatch m buf done (current ++ [h]) (behind keyMatch m buf packet h)
      (prefetchWrite keyMatch m buf h.1 out (gathered m buf h.2)) := by
  have stays : opened keyMatch m buf h.1 out (gathered m buf h.2) = out :=
    if_neg fun breaks => (breaks_iff packs).mp breaks room
  rw [prefetchWrite_eq, stays]
  exact packs.write

theorem Packs.opened (packs : Packs keyMatch m buf done current packet out) (full : ¬roomFor keyMatch m buf packet h) :
    Packs keyMatch m buf (done ++ [current]) [h] (freshFor keyMatch m buf h)
      (prefetchWrite keyMatch m buf h.1 out (gathered m buf h.2)) := by
  obtain ⟨packets, start⟩ := out.newPacket_packets (buf.searchJobList h.1)
  have opens : MegaKV.Sender.opened keyMatch m buf h.1 out (gathered m buf h.2) = out.newPacket (buf.searchJobList h.1) :=
    if_pos ((breaks_iff packs).mpr full)
  have fresh : Packs keyMatch m buf (done ++ [current]) [] (client buf h.1, eiuHdrLen)
      (out.newPacket (buf.searchJobList h.1)) := by
    refine ⟨?_, ?_, ?_, ?_⟩
    · rw [packets, List.map_append, List.map_append, packs.packets, List.map_singleton, List.map_singleton, packs.records]
    · rw [start]
      rfl
    · rw [start]
      rfl
    · rw [start]
      rfl
  rw [prefetchWrite_eq, opens]
  exact fresh.write

end Packing

section Sent

variable (build : Build) (m : Memory) (buf : SearchBuf) (mTable : Nat → Mbuf) (hit miss totalBytes totalPackets : Nat)

/-- Each packet with a value record is completed and in exactly one burst. -/
def ResponsesSent : Prop :=
  ∃ s flag, sendLoop build m buf mTable hit miss totalBytes totalPackets = some (s, flag) ∧
    ∀ k ≤ s.out.packets.length, (packetAt s.out k).records ≠ [] →
      (s.flush flag).bursts.flatten.filter (fun mbuf => mbuf.number = k) = [completed (packetAt s.out k) k]

/-- The hits of the batch, cut where the client changes or a frame is full. The first packet is one for the first job. -/
def Cut (parts : List (List (Nat × (Nat × Nat)))) : Prop :=
  Parts (roomFor build.keyMatch m buf) (behind build.keyMatch m buf) (freshFor build.keyMatch m buf)
    (client buf (firstJob build), eiuHdrLen) parts (served (totalCnt build buf - 1) (hits buf (ownedIn build buf)))

/-- Each second packet is silent unless it is the last one, and the loop flushes unless the last chunk is silent. -/
structure AllSent (parts : List (List (Nat × (Nat × Nat)))) : Prop where
  chunks : ∀ k part, parts[k]? = some part → k % 2 = 1 → k + 1 < parts.length → Silent build.keyMatch m buf part
  flush : Flushes buf (ownedIn build buf) ∨
    ∀ k part, parts[k]? = some part → k + 1 = parts.length ∨ k % 2 = 0 ∧ k + 2 = parts.length → Silent build.keyMatch m buf part

variable {build m buf} {mTable hit miss totalBytes totalPackets} {parts : List (List (Nat × (Nat × Nat)))}

theorem writtenOut_parts (cut : Cut build m buf parts) :
    (writtenOut build buf m hit miss totalBytes totalPackets).packets.length + 1 = parts.length ∧
      ∀ k part, parts[k]? = some part →
        (packetAt (writtenOut build buf m hit miss totalBytes totalPackets) k).records =
          recordsOf build.keyMatch m buf part := by
  obtain ⟨part, later, rfl⟩ := Parts.first cut
  have start : Packs build.keyMatch m buf [] [] (client buf (firstJob build), eiuHdrLen)
      (startOutput (buf.searchJobList (firstJob build)) hit miss totalBytes totalPackets) := ⟨rfl, rfl, rfl, rfl⟩
  obtain ⟨before, last, _, split, packs⟩ :=
    Parts.run (fun _ _ _ _ _ => Packs.joined) (fun _ _ _ _ _ => Packs.opened) cut start
  rw [List.nil_append, List.nil_append] at split
  change Packs build.keyMatch m buf before last _ (writeServed build.keyMatch m buf _ _) at packs
  have length := congrArg List.length packs.packets
  rw [List.length_map, List.length_map] at length
  rw [split]
  refine ⟨?_, ?_⟩
  · rw [List.length_append, List.length_singleton, ← length]
    rfl
  · intro k part here
    by_cases earlier : k < before.length
    · have records := congrArg (fun list => list[k]?) packs.packets
      rw [List.getElem?_append_left earlier] at here
      simp only [List.getElem?_map, here, Option.map_some] at records
      obtain ⟨packet, found, same⟩ := Option.map_eq_some_iff.mp records
      have stands : packetAt (writtenOut build buf m hit miss totalBytes totalPackets) k = packet := by
        rw [packetAt, List.getD_eq_getElem?_getD]
        change ((writeServed build.keyMatch m buf _ _).packets[k]?).getD _ = _
        rw [found]
        rfl
      rw [stands, same]
    · have index : k = before.length := by
        have inside := (List.getElem?_eq_some_iff.mp here).1
        rw [List.length_append, List.length_singleton] at inside
        omega
      rw [index, List.getElem?_append_right (Nat.le_refl _), Nat.sub_self] at here
      cases here
      have current : k = (writtenOut build buf m hit miss totalBytes totalPackets).packets.length := by
        rw [index, ← length]
        rfl
      rw [current, packetAt_current]
      exact packs.records

/-- The bursts have each packet with a record exactly if the parts of the hits meet the condition. -/
theorem responsesSent_iff_allSent (entries : Entries build buf) (cut : Cut build m buf parts) :
    ResponsesSent build m buf mTable hit miss totalBytes totalPackets ↔ AllSent build m buf parts := by
  obtain ⟨s, flag, result, follows, out, flushes⟩ :=
    @sendLoop_run build m buf hit miss totalBytes totalPackets mTable entries
  obtain ⟨length, records⟩ := @writtenOut_parts build m buf hit miss totalBytes totalPackets parts cut
  rw [← out] at length records
  have sent : ∀ k, (s.flush flag).bursts.flatten.filter (fun mbuf => mbuf.number = k) = [completed (packetAt s.out k) k] ↔
      k ∈ sentNumbers s.out.packets.length flag := by
    intro k
    rw [flush_filter follows]
    by_cases listed : k ∈ sentNumbers s.out.packets.length flag
    · rw [if_pos listed]
      exact ⟨fun _ => listed, fun _ => rfl⟩
    · rw [if_neg listed]
      exact ⟨(fun impossible => by cases impossible), fun member => absurd member listed⟩
  constructor
  · rintro ⟨t, toSend, again, all⟩
    rw [result] at again
    cases again
    have silent : ∀ k part, parts[k]? = some part → k ∉ sentNumbers s.out.packets.length flag →
        Silent build.keyMatch m buf part := by
      intro k part here lost
      rw [silent_iff, ← records k part here]
      by_contra some
      have inside := (List.getElem?_eq_some_iff.mp here).1
      exact lost ((sent k).mp (all k (by omega) some))
    constructor
    · intro k part here odd inner
      apply silent k part here
      rw [sentNumbers_mem]
      omega
    · cases flag with
      | true => exact .inl (flushes.mp rfl)
      | false =>
        right
        intro k part here last
        apply silent k part here
        rw [sentNumbers_mem]
        simp only [Bool.false_eq_true, false_and, or_false]
        omega
  · intro allSent
    refine ⟨s, flag, result, ?_⟩
    intro k inside some
    rw [sent, sentNumbers_mem]
    have bound : k < parts.length := by omega
    have here : parts[k]? = .some parts[k] := List.getElem?_eq_getElem bound
    rw [records k _ here] at some
    have loud : ¬Silent build.keyMatch m buf parts[k] := fun silent => some (silent_iff.mp silent)
    have chunks : ¬(k % 2 = 1 ∧ k + 1 < parts.length) := fun inner => loud (allSent.chunks k _ here inner.1 inner.2)
    cases flag with
    | true =>
      simp only [true_and]
      omega
    | false =>
      rcases allSent.flush with flushed | silent
      · exact absurd (flushes.mpr flushed) (by decide)
      · have unsent : ¬(k + 1 = parts.length ∨ k % 2 = 0 ∧ k + 2 = parts.length) := fun last => loud (silent k _ here last)
        omega

theorem cut_exists (build : Build) (m : Memory) (buf : SearchBuf) : ∃ parts, Cut build m buf parts := by
  obtain ⟨part, later, cut⟩ := parts_exist (roomFor build.keyMatch m buf) (behind build.keyMatch m buf)
    (freshFor build.keyMatch m buf) (client buf (firstJob build), eiuHdrLen)
    (served (totalCnt build buf - 1) (hits buf (ownedIn build buf)))
  exact ⟨_, cut⟩

theorem silent_plain (plain : build.keyMatch = false) {part : List (Nat × (Nat × Nat))} :
    Silent build.keyMatch m buf part ↔ part = [] := by
  constructor
  · intro silent
    rw [List.eq_nil_iff_forall_not_mem]
    intro h present
    exact silent h present fun keyed => absurd (plain.symm.trans keyed) (by decide)
  · rintro rfl
    exact List.forall_mem_nil _

/-- Without a comparison of keys two packets are sent if the loop flushes, and nothing else is. -/
theorem allSent_plain (plain : build.keyMatch = false) (cut : Cut build m buf parts) :
    AllSent build m buf parts ↔ hits buf (ownedIn build buf) = [] ∨ parts.length ≤ 2 ∧ Flushes buf (ownedIn build buf) := by
  have all := Parts.flatten cut
  have found := @served_snd (totalCnt build buf - 1) (hits buf (ownedIn build buf))
  rw [← all] at found
  obtain ⟨part, later, rfl⟩ := Parts.first cut
  have some := Parts.later_some cut
  have filled : ∀ k other, (part :: later)[k + 1]? = .some other → ¬Silent build.keyMatch m buf other := by
    intro k other here silent
    rw [List.getElem?_cons_succ] at here
    exact some other (List.mem_of_getElem? here) ((silent_plain plain).mp silent)
  constructor
  · intro allSent
    by_cases none : hits buf (ownedIn build buf) = []
    · exact .inl none
    · right
      constructor
      · by_contra long
        obtain ⟨other, second⟩ : ∃ other, (part :: later)[1]? = .some other := ⟨_, List.getElem?_eq_getElem (by omega)⟩
        exact filled 0 _ second (allSent.chunks 1 _ second rfl (by omega))
      · rcases allSent.flush with flushes | silent
        · exact flushes
        · cases later with
          | nil =>
            have empty := (silent_plain plain).mp (silent 0 part rfl (.inl rfl))
            rw [empty] at found
            exact absurd found.symm none
          | cons other rest =>
            have last : (part :: other :: rest)[rest.length + 1]? = .some ((part :: other :: rest)[rest.length + 1]) :=
              List.getElem?_eq_getElem _
            exact absurd (silent _ _ last (.inl rfl)) (filled _ _ last)
  · rintro (none | ⟨short, flushes⟩)
    · rw [none, List.map_eq_nil_iff, List.flatten_eq_nil_iff] at found
      have silent : ∀ k other, (part :: later)[k]? = .some other → Silent build.keyMatch m buf other :=
        fun k other here => (silent_plain plain).mpr (found other (List.mem_of_getElem? here))
      exact ⟨fun k other here _ _ => silent k other here, .inr fun k other here _ => silent k other here⟩
    · exact ⟨fun k other here odd inner => by omega, .inl flushes⟩

theorem responses_sent_iff (entries : Entries build buf) (m : Memory) (mTable : Nat → Mbuf)
    (hit miss totalBytes totalPackets : Nat) :
    ResponsesSent build m buf mTable hit miss totalBytes totalPackets ↔
      ∃ parts, Cut build m buf parts ∧ AllSent build m buf parts := by
  constructor
  · intro sent
    obtain ⟨parts, cut⟩ := cut_exists build m buf
    exact ⟨parts, cut, (responsesSent_iff_allSent entries cut).mp sent⟩
  · rintro ⟨parts, cut, allSent⟩
    exact (responsesSent_iff_allSent entries cut).mpr allSent

end Sent

section FiveSearches

def fiveSearches : SearchBuf :=
  { searchJobList := fun _ => { ethAddr := 0, ip := 7, port := 9, num := 5, index := 0, key := fun _ => 0, nkey := 8 }
    numCompactSearchJob := 1
    numSearchJob := 5
    searchOut := fun _ => 1 }

theorem fiveSearches_entries : Entries ⟨true, false⟩ fiveSearches := ⟨fun _ => rfl, rfl⟩

def anyMbuf : Mbuf where
  packet := startPacket (fiveSearches.searchJobList 0)
  number := 0
  pktLen := 0
  totalLength := 0
  dgramLen := 0

theorem responses_sent_iff_one :
    ResponsesSent ⟨true, false⟩ (uniformMemory plainItem) (loneSearch 1 0) (fun _ => anyMbuf) 0 0 0 0 ↔
      ∃ parts, Cut ⟨true, false⟩ (uniformMemory plainItem) (loneSearch 1 0) parts ∧
        AllSent ⟨true, false⟩ (uniformMemory plainItem) (loneSearch 1 0) parts :=
  responses_sent_iff (loneSearch_entries ⟨true, false⟩ 1 0) (uniformMemory plainItem) (fun _ => anyMbuf) 0 0 0 0

/-- The group of the five hits is the last one, so that the loop ends without a flush. -/
theorem five_responses_lost : Entries ⟨true, false⟩ fiveSearches ∧
    ¬ResponsesSent ⟨true, false⟩ (uniformMemory plainItem) fiveSearches (fun _ => anyMbuf) 0 0 0 0 := by
  refine ⟨fiveSearches_entries, ?_⟩
  intro sent
  obtain ⟨parts, cut⟩ := cut_exists ⟨true, false⟩ (uniformMemory plainItem) fiveSearches
  have allSent := (responsesSent_iff_allSent fiveSearches_entries cut).mp sent
  have found : hits fiveSearches (ownedIn ⟨true, false⟩ fiveSearches) = [(0, 1), (1, 1), (2, 1), (3, 1), (4, 1)] := by decide
  rcases (allSent_plain rfl cut).mp allSent with none | ⟨_, last, present, unfilled⟩
  · rw [found] at none
    cases none
  · cases present
    apply unfilled
    rw [found]
    decide

end FiveSearches

end MegaKV.Sender
