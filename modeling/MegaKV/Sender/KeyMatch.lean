import MegaKV.Sender.Plain

namespace MegaKV.Sender

open Slab

section Compare

theorem strncmpFrom_eq_zero_iff (s t : Nat → Byte) (i n : Nat) :
    strncmpFrom s t i n = 0 ↔ ∀ k, i ≤ k → k < i + n → (∀ j, i ≤ j → j < k → t j ≠ 0) → s k = t k := by
  induction n generalizing i with
  | zero => exact ⟨fun _ k low high => absurd high (by omega), fun _ => rfl⟩
  | succ n ih =>
    rw [strncmpFrom]
    by_cases same : s i = t i
    · rw [if_neg (not_not_intro same)]
      by_cases nul : s i = 0
      · rw [if_pos nul]
        refine ⟨fun _ k low high nonzero => ?_, fun _ => rfl⟩
        by_cases first : k = i
        · rw [first]
          exact same
        · exact absurd (same.symm.trans nul) (nonzero i (Nat.le_refl i) (by omega))
      · rw [if_neg nul, ih]
        constructor
        · intro rest k low high nonzero
          by_cases first : k = i
          · rw [first]
            exact same
          · exact rest k (by omega) (by omega) (fun j after before => nonzero j (by omega) before)
        · intro all k low high nonzero
          refine all k (by omega) (by omega) ?_
          intro j after before
          by_cases first : j = i
          · rw [first, ← same]
            exact nul
          · exact nonzero j (by omega) before
    · rw [if_pos same]
      constructor
      · intro zero
        apply absurd _ same
        apply BitVec.eq_of_toNat_eq
        omega
      · intro all
        exact absurd (all i (Nat.le_refl i) (by omega) (fun j after before => absurd before (by omega))) same

theorem strncmp_eq_zero_iff (s t : Nat → Byte) (n : Nat) :
    strncmp s t n = 0 ↔ ∀ k < n, (∀ j < k, t j ≠ 0) → s k = t k := by
  rw [strncmp, strncmpFrom_eq_zero_iff]
  simp only [Nat.zero_le, Nat.zero_add, true_implies]

end Compare

section Records

def Output.All (holds : Record → Prop) (out : Output) : Prop :=
  ∀ packet ∈ out.packets ++ [out.current], ∀ record ∈ packet.records, holds record

variable {holds : Record → Prop} {out : Output}

theorem Output.All.of_packets {other : Output} (all : out.All holds)
    (packets : ∀ packet ∈ other.packets ++ [other.current], packet ∈ out.packets ++ [out.current] ∨ packet.records = []) :
    other.All holds := by
  intro packet member record present
  rcases packets packet member with older | empty
  · exact all packet older record present
  · rw [empty] at present
    contradiction

theorem Output.All.complete (all : out.All holds) : out.complete.All holds := by
  apply all.of_packets
  intro packet member
  left
  simp only [Output.complete, List.append_assoc, List.mem_append, List.mem_singleton] at member ⊢
  tauto

theorem Output.All.newPacket (all : out.All holds) (job : SearchJob) : (out.newPacket job).All holds := by
  apply all.of_packets
  intro packet member
  rw [Output.newPacket] at member
  split at member <;> (
    rcases List.mem_append.mp member with older | last
    · exact .inl older
    · rw [List.mem_singleton.mp last]
      exact .inr rfl)

theorem Output.All.writePkt {index job : Nat} {it : Ptr} {item : Item} (keyMatch : Bool) (all : out.All holds)
    (written : ∀ record, record.index = index → record.job = job → record.it = it → record.nbytes = item.nbytes →
      (keyMatch = true → record.value = (List.range item.nbytes).map (fun k => item.data (item.nkey + k))) →
      holds record) :
    (out.writePkt keyMatch index job it item).All holds := by
  intro packet member record present
  rcases List.mem_append.mp member with older | last
  · exact all packet (List.mem_append_left _ older) record present
  · rw [List.mem_singleton.mp last] at present
    rcases List.mem_append.mp present with before | new
    · exact all out.current (List.mem_append_right _ List.mem_cons_self) record before
    · rw [List.mem_singleton.mp new]
      exact written _ rfl rfl rfl rfl (fun matching => by rw [if_pos matching])

end Records

/-- The comparison the sender makes found no difference, and the record holds the item's value. -/
structure Compared (heap : Ptr → Item) (buf : SearchBuf) (record : Record) : Prop where
  nkey : (heap record.it).nkey = (buf.searchJobList record.job).nkey
  equal : strncmp (heap record.it).data (buf.searchJobList record.job).key (heap record.it).nkey = 0
  nbytes : record.nbytes = (heap record.it).nbytes
  value : record.value = (List.range (heap record.it).nbytes).map
    (fun k => (heap record.it).data ((heap record.it).nkey + k))

section Prefetching

variable {m : Memory} {buf : SearchBuf}

theorem Output.All.writeItem {index job : Nat} {it : Ptr} {heap : Ptr → Item} {out : Output}
    (all : out.All (Compared heap buf)) (nkey : (heap it).nkey = (buf.searchJobList job).nkey)
    (equal : strncmp (heap it).data (buf.searchJobList job).key (heap it).nkey = 0) :
    (out.writePkt true index job it (heap it)).All (Compared heap buf) := by
  apply all.writePkt
  intro record _ owner item nbytes value
  constructor
  · rw [item, owner]
    exact nkey
  · rw [item, owner]
    exact equal
  · rw [item]
    exact nbytes
  · rw [item]
    exact value rfl

theorem outputWriter_compared : Writer.Keeps true m buf outputWriter (fun out => out.All (Compared m.heap buf)) := by
  refine ⟨?_, ?_, ?_⟩
  · exact fun out job all => all.newPacket job
  · intro out g all passes
    obtain ⟨nkey, equal⟩ := passes rfl
    rw [← nkey] at equal
    exact all.writeItem nkey equal
  · exact fun out n all => all

theorem startOutput_all (holds : Record → Prop) (job : SearchJob) (hit miss totalBytes totalPackets : Nat) :
    (startOutput job hit miss totalBytes totalPackets).All holds := by
  intro packet member record present
  rw [List.mem_singleton.mp member] at present
  contradiction

theorem sendBatch_compared (m : Memory) (buf : SearchBuf) (hit miss totalBytes totalPackets : Nat) :
    ∃ out, sendBatch ⟨false, true⟩ m buf hit miss totalBytes totalPackets = some out ∧
      out.All (Compared m.heap buf) := by
  obtain ⟨after, flag, result⟩ := @Writer.groups_ends _ true m buf outputWriter (totalCnt ⟨false, true⟩ buf)
    (buf.numSearchJob + 1) (loadJob buf 0 (buf.searchJobList 0).index)
    (startOutput (buf.searchJobList 0) hit miss totalBytes totalPackets) (by omega)
  have all := outputWriter_compared.groups
    (startOutput_all (Compared m.heap buf) (buf.searchJobList 0) hit miss totalBytes totalPackets) result
  refine ⟨if flag then { after.complete with totalPackets := after.totalPackets + ioBatchNum } else after, ?_, ?_⟩
  · simp only [sendBatch, firstJob, Bool.false_eq_true, ite_false, prefetchGroups, result]
  · cases flag
    · exact all
    · exact all.complete

end Prefetching

section Plain

variable {heap : Ptr → Item} {buf : SearchBuf}

def PlainState.Compared (heap : Ptr → Item) (buf : SearchBuf) (s : PlainState) : Prop :=
  s.m.heap = heap ∧ s.out.All (Sender.Compared heap buf)

def Attempted.state : Attempted → PlainState
  | .written s => s
  | .exceeds s => s
  | .nothing s => s
  | .aborts s => s

theorem itemGet_heap {m after : Memory} {loc : Hash.Loc} {it : Ptr} (got : itemGet m loc = some (it, after)) :
    after.heap = m.heap := by
  simp only [itemGet] at got
  split at got
  · obtain ⟨_, rfl⟩ := Prod.mk.inj (Option.some.inj got)
    rfl
  · contradiction

theorem tryLoc_compared (index job : Nat) (loc : Hash.Loc) {s : PlainState} (compared : s.Compared heap buf) :
    (tryLoc true buf s index job loc).state.Compared heap buf := by
  rw [tryLoc]
  split
  · exact compared
  · split
    · exact compared
    · rename_i it m got
      have same : m.heap = heap := (itemGet_heap got).trans compared.1
      simp only [ite_true]
      split
      · exact ⟨same, compared.2⟩
      · split
        · rename_i matching
          rw [same] at matching
          refine ⟨same, ?_⟩
          simp only [same]
          exact compared.2.writeItem matching.1 matching.2
        · exact ⟨same, compared.2⟩

theorem Output.All.sameRecords {holds : Record → Prop} {out other : Output} (all : out.All holds)
    (packets : other.packets = out.packets) (current : other.current.records = out.current.records) :
    other.All holds := by
  intro packet member record present
  rw [packets] at member
  rcases List.mem_append.mp member with older | last
  · exact all packet (List.mem_append_left _ older) record present
  · rw [List.mem_singleton.mp last, current] at present
    exact all out.current (List.mem_append_right _ List.mem_cons_self) record present

theorem serveIndex_compared (index job : Nat) {s : PlainState} (compared : s.Compared heap buf) :
    (serveIndex true buf s index job).1.Compared heap buf := by
  have first := tryLoc_compared index job (buf.searchOut (index <<< 1)) compared
  rw [serveIndex]
  split <;> rename_i between result <;> rw [result] at first
  · exact first
  · exact first
  · exact first
  · have second := tryLoc_compared index job (buf.searchOut ((index <<< 1) + 1)) first
    simp only [Attempted.state] at second
    split <;> rename_i last result <;> rw [result] at second
    · exact second
    · exact second
    · exact second
    · split
      · exact second
      · exact ⟨second.1, second.2.sameRecords rfl rfl⟩

theorem fillPacket_compared (totalCnt : Nat) (cursor : Cursor) {s : PlainState} (compared : s.Compared heap buf) :
    (fillPacket true buf totalCnt cursor s).2.Compared heap buf := by
  fun_induction fillPacket true buf totalCnt cursor s with
  | case1 => exact compared
  | case2 cursor s thisJob inside same more served goes ih =>
    exact ih (serveIndex_compared cursor.jobIndex cursor.job compared)
  | case3 cursor s thisJob inside same more served stops =>
    exact serveIndex_compared cursor.jobIndex cursor.job compared
  | case4 cursor s thisJob inside same none ih => exact ih compared
  | case5 => exact compared

theorem Output.All.startPacket {holds : Record → Prop} {out : Output} (all : out.All holds) (job : SearchJob) :
    ({ out with current := Sender.startPacket job } : Output).All holds := by
  apply all.of_packets
  intro packet member
  rcases List.mem_append.mp member with older | last
  · exact .inl (List.mem_append_left _ older)
  · rw [List.mem_singleton.mp last]
    exact .inr rfl

theorem Output.All.closePacket {holds : Record → Prop} {out : Output} (all : out.All holds) :
    out.closePacket.All holds := by
  rw [Output.closePacket]
  split
  · exact all.complete
  · exact all

theorem Output.All.closeChunk {holds : Record → Prop} {out : Output} (all : out.All holds) (jobsLeft : Bool) :
    (out.closeChunk jobsLeft).All holds := by
  rw [Output.closeChunk]
  split <;> exact all

theorem plainPackets_compared (totalCnt packets : Nat) (cursor : Cursor) {s : PlainState}
    (compared : s.Compared heap buf) : (plainPackets true buf totalCnt packets cursor s).Compared heap buf := by
  induction packets generalizing cursor s with
  | zero => exact compared
  | succ packets ih =>
    rw [plainPackets]
    split
    · have started : PlainState.Compared heap buf
          { s with out := { s.out with current := startPacket (buf.searchJobList cursor.job) } } :=
        ⟨compared.1, compared.2.startPacket _⟩
      have filled := fillPacket_compared totalCnt cursor started
      apply ih
      exact ⟨filled.1, filled.2.closePacket.closeChunk _⟩
    · exact compared

theorem sendPlain_compared (m : Memory) (buf : SearchBuf) (hit miss totalBytes totalPackets packets : Nat) :
    (sendPlain ⟨false, true⟩ m buf hit miss totalBytes totalPackets packets).Compared m.heap buf := by
  apply plainPackets_compared
  exact ⟨rfl, startOutput_all _ _ _ _ _ _⟩

end Plain

section Soundness

def Asks (job : SearchJob) (key : Nat → Byte) : Prop :=
  job.nkey = maxKeyLength ∧ ∀ k < maxKeyLength, job.key k = key k

/-- The record is the value of an item with exactly this key. -/
structure Answers (heap : Ptr → Item) (key : Nat → Byte) (record : Record) : Prop where
  nkey : (heap record.it).nkey = maxKeyLength
  equal : ∀ k < maxKeyLength, (heap record.it).data k = key k
  nbytes : record.nbytes = (heap record.it).nbytes
  value : record.value = (List.range (heap record.it).nbytes).map
    (fun k => (heap record.it).data ((heap record.it).nkey + k))

def Sound (heap : Ptr → Item) (buf : SearchBuf) (key : Nat → Byte) (record : Record) : Prop :=
  Asks (buf.searchJobList record.job) key → Answers heap key record

def PrefetchMatches (key : Nat → Byte) : Prop :=
  ∀ (m : Memory) (buf : SearchBuf) (hit miss totalBytes totalPackets : Nat),
    ∃ out, sendBatch ⟨false, true⟩ m buf hit miss totalBytes totalPackets = some out ∧ out.All (Sound m.heap buf key)

def PlainMatches (key : Nat → Byte) : Prop :=
  ∀ (m : Memory) (buf : SearchBuf) (hit miss totalBytes totalPackets packets : Nat),
    (sendPlain ⟨false, true⟩ m buf hit miss totalBytes totalPackets packets).out.All (Sound m.heap buf key)

def NulFree (key : Nat → Byte) : Prop := ∀ j < maxKeyLength - 1, key j ≠ 0

theorem NulFree.sound {key : Nat → Byte} {heap : Ptr → Item} {buf : SearchBuf} {record : Record}
    (free : NulFree key) (compared : Compared heap buf record) : Sound heap buf key record := by
  intro ⟨nkey, asked⟩
  have length : (heap record.it).nkey = maxKeyLength := compared.nkey.trans nkey
  refine ⟨length, ?_, compared.nbytes, compared.value⟩
  intro k inside
  have equal := compared.equal
  rw [length, strncmp_eq_zero_iff] at equal
  rw [← asked k inside]
  apply equal k inside
  intro j before
  rw [asked j (Nat.lt_trans before inside)]
  exact free j (by omega)

theorem Output.All.mono {holds other : Record → Prop} {out : Output} (all : out.All holds)
    (weaker : ∀ record, holds record → other record) : out.All other :=
  fun packet member record present => weaker record (all packet member record present)

def otherKey (key : Nat → Byte) : Nat → Byte := Function.update key (maxKeyLength - 1) (key (maxKeyLength - 1) + 1)

def otherItem (key : Nat → Byte) : Item := { plainItem with data := otherKey key }

def oneSearch (key : Nat → Byte) : SearchBuf :=
  { searchJobList := fun _ => { ethAddr := 0, ip := 7, port := 0, num := 1, index := 0, key := key, nkey := maxKeyLength }
    numCompactSearchJob := 1
    numSearchJob := 1
    searchOut := fun _ => 1 }

variable {key : Nat → Byte}

theorem otherKey_compares (nul : ¬NulFree key) : strncmp (otherKey key) key 8 = 0 := by
  rw [strncmp_eq_zero_iff]
  intro k inside nonzero
  by_cases last : k = maxKeyLength - 1
  · exact absurd (fun j before => nonzero j (by omega)) nul
  · exact Function.update_of_ne last _ _

theorem otherItem_unsound (record : Record) :
    ¬Sound (uniformMemory (otherItem key)).heap (oneSearch key) key record := by
  intro sound
  have answers := sound ⟨rfl, fun k inside => rfl⟩
  have same := answers.equal (maxKeyLength - 1) (by decide)
  simp [uniformMemory, otherItem, otherKey] at same

theorem not_all_of_current {out : Output} {holds : Record → Prop} (nonempty : out.current.records ≠ [])
    (none : ∀ record, ¬holds record) : ¬out.All holds := by
  intro all
  obtain ⟨record, present⟩ := List.exists_mem_of_ne_nil _ nonempty
  exact none record (all out.current (List.mem_append_right _ List.mem_cons_self) record present)

theorem prefetch_sends_other (nul : ¬NulFree key) :
    ∃ out, sendBatch ⟨false, true⟩ (uniformMemory (otherItem key)) (oneSearch key) 0 0 0 0 = some out ∧
      out.current.records ≠ [] := by
  have compares := otherKey_compares nul
  simp [sendBatch, firstJob, totalCnt, prefetchGroups, Writer.groups, prefetchLoop1, loadJob, oneSearch, foundLoc,
    prefetchBatchDistance, Writer.write, outputWriter, Output.addMiss, ethernetMaxFrameLen, eiuHdrLen, uniformMemory, otherItem, plainItem,
    Output.writePkt, Output.complete, startOutput, startPacket, maxKeyLength, compares]

theorem itemGet_uniform (item : Item) :
    ∃ it after, itemGet (uniformMemory item) 1 = some (it, after) ∧ after.heap = fun _ => item := by
  have inside : (((1 : Hash.Loc) <<< slabIdBits) >>> slabIdBits).toNat < perslab := by decide
  simp only [itemGet, uniformMemory, Nat.mul_one]
  rw [if_pos inside]
  exact ⟨_, _, rfl, rfl⟩

theorem tryLoc_other (nul : ¬NulFree key) {s : PlainState} (m : s.m = uniformMemory (otherItem key))
    (room : s.out.current.length = eiuHdrLen) :
    ∃ it after, tryLoc true (oneSearch key) s 0 0 1 =
      .written { s with m := after, out := s.out.writePkt true 0 0 it (otherItem key) } := by
  obtain ⟨it, after, got, heap⟩ := itemGet_uniform (otherItem key)
  have compares := otherKey_compares nul
  refine ⟨it, after, ?_⟩
  rw [tryLoc, if_neg (by decide), m, got]
  have fits : ¬ethernetMaxFrameLen < eiuHdrLen + ((otherItem key).nbytes + 6) := by
    show ¬ethernetMaxFrameLen < eiuHdrLen + (8 + 6)
    decide
  simp only [heap, room, ite_true]
  rw [if_neg fits, if_pos ⟨rfl, compares⟩]

theorem serveIndex_other (nul : ¬NulFree key) {s : PlainState} (m : s.m = uniformMemory (otherItem key))
    (room : s.out.current.length = eiuHdrLen) :
    ∃ it after, serveIndex true (oneSearch key) s 0 0 =
      ({ s with m := after, out := s.out.writePkt true 0 0 it (otherItem key) }, true) := by
  obtain ⟨it, after, written⟩ := tryLoc_other nul m room
  refine ⟨it, after, ?_⟩
  have first : (oneSearch key).searchOut (0 <<< 1) = 1 := rfl
  rw [serveIndex, first, written]

theorem fillPacket_other (nul : ¬NulFree key) {s : PlainState} (m : s.m = uniformMemory (otherItem key))
    (current : s.out.current = startPacket ((oneSearch key).searchJobList 0)) :
    ∃ cursor it after, fillPacket true (oneSearch key) 1 (loadJob (oneSearch key) 0 0) s =
      (cursor, { s with m := after, out := s.out.writePkt true 0 0 it (otherItem key) }) := by
  obtain ⟨it, after, served⟩ := serveIndex_other nul m (by rw [current]; rfl)
  have ip : (7 : BitVec 32) = s.out.current.ip := by rw [current]; rfl
  have port : (0 : BitVec 16) = s.out.current.port := by rw [current]; rfl
  refine ⟨loadJob (oneSearch key) 1 0, it, after, ?_⟩
  rw [fillPacket_serve Nat.one_pos ⟨ip, port⟩ Nat.one_pos served, fillPacket_next Nat.one_pos ⟨ip, port⟩ (Nat.lt_irrefl 0)]
  exact fillPacket_done (Nat.lt_irrefl 1)

theorem Output.close_current (out : Output) (jobsLeft : Bool) :
    (out.closePacket.closeChunk jobsLeft).current = out.current := by
  simp only [Output.closeChunk, Output.closePacket, Output.complete]
  split <;> split <;> rfl

theorem plain_sends_other (nul : ¬NulFree key) :
    (sendPlain ⟨false, true⟩ (uniformMemory (otherItem key)) (oneSearch key) 0 0 0 0 1).out.current.records ≠ [] := by
  obtain ⟨cursor, it, after, filled⟩ := @fillPacket_other key nul
    { m := uniformMemory (otherItem key), out := startOutput ((oneSearch key).searchJobList 0) 0 0 0 0, aborted := false }
    rfl rfl
  rw [sendPlain]
  simp only [firstJob, Bool.false_eq_true, ite_false]
  rw [show totalCnt ⟨false, true⟩ (oneSearch key) = 1 from rfl, plainPackets_succ Nat.one_pos rfl filled, plainPackets,
    Output.close_current]
  exact List.append_ne_nil_of_right_ne_nil _ (List.cons_ne_nil _ _)

theorem key_match_sound_iff (key : Nat → Byte) :
    (PrefetchMatches key ↔ NulFree key) ∧ (PlainMatches key ↔ NulFree key) := by
  constructor
  · constructor
    · intro matching
      by_contra nul
      obtain ⟨out, result, nonempty⟩ := prefetch_sends_other nul
      obtain ⟨after, same, all⟩ := matching (uniformMemory (otherItem key)) (oneSearch key) 0 0 0 0
      obtain rfl := Option.some.inj (result.symm.trans same)
      exact not_all_of_current nonempty otherItem_unsound all
    · intro free m buf hit miss totalBytes totalPackets
      obtain ⟨out, result, all⟩ := sendBatch_compared m buf hit miss totalBytes totalPackets
      exact ⟨out, result, all.mono fun _ => free.sound⟩
  · constructor
    · intro matching
      by_contra nul
      exact not_all_of_current (plain_sends_other nul) otherItem_unsound (matching _ _ 0 0 0 0 1)
    · intro free m buf hit miss totalBytes totalPackets packets
      exact (sendPlain_compared m buf hit miss totalBytes totalPackets packets).2.mono fun _ => free.sound

def shortKey : Nat → Byte := fun k => if k = 0 then 1 else 0

theorem different_key_answered :
    (∃ out, sendBatch ⟨false, true⟩ (uniformMemory (otherItem shortKey)) (oneSearch shortKey) 0 0 0 0 = some out ∧
      ¬out.All (Sound (uniformMemory (otherItem shortKey)).heap (oneSearch shortKey) shortKey)) ∧
    ¬(sendPlain ⟨false, true⟩ (uniformMemory (otherItem shortKey)) (oneSearch shortKey) 0 0 0 0 1).out.All
      (Sound (uniformMemory (otherItem shortKey)).heap (oneSearch shortKey) shortKey) := by
  have nul : ¬NulFree shortKey := fun free => free 1 (by decide) rfl
  constructor
  · obtain ⟨out, result, nonempty⟩ := prefetch_sends_other nul
    exact ⟨out, result, not_all_of_current nonempty otherItem_unsound⟩
  · exact not_all_of_current (plain_sends_other nul) otherItem_unsound

end Soundness

end MegaKV.Sender
