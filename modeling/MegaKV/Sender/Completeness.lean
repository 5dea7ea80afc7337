import MegaKV.Sender.Frames

namespace MegaKV.Sender

open Library Slab Receiver

section Answers

def candidate (m : Memory) (buf : SearchBuf) (index : Nat) (loc : Hash.Loc) : Option Item :=
  if loc = 0 then none
  else if KeyPasses (m.heap (slabLocToPtr m loc)) (buf.searchJobList index) then some (m.heap (slabLocToPtr m loc))
  else none

def answer (m : Memory) (buf : SearchBuf) (index : Nat) : List Byte :=
  match (candidate m buf index (buf.searchOut (index <<< 1))).or
      (candidate m buf index (buf.searchOut ((index <<< 1) + 1))) with
  | some item => valueRecord item
  | none => [protocolGetNotFound]

structure GetJobs (buf : SearchBuf) : Prop where
  count : buf.numCompactSearchJob = buf.numSearchJob
  num : ∀ k < buf.numSearchJob, (buf.searchJobList k).num = 1
  index : ∀ k < buf.numSearchJob, (buf.searchJobList k).index = k

/-- The location is that of an item in a slab, with a value that fits one frame. -/
def Fits (m : Memory) (loc : Hash.Loc) : Prop :=
  ((loc <<< slabIdBits) >>> slabIdBits).toNat < perslab * (m.slabclass (loc >>> (locBits - slabIdBits)).toNat).slabs ∧
    eiuHdrLen + (m.heap (slabLocToPtr m loc)).nbytes + 6 ≤ ethernetMaxFrameLen

def Located (m : Memory) (buf : SearchBuf) : Prop :=
  ∀ k < 2 * buf.numSearchJob, buf.searchOut k ≠ 0 → Fits m (buf.searchOut k)

/-- The frame has the answers to a group of searches of one client. -/
structure Answered (m : Memory) (buf : SearchBuf) (group : List Nat) (frame : Frame) : Prop where
  some : group ≠ []
  payload : frame.payload = group.flatMap (answer m buf)
  addressed : ∀ index ∈ group,
    (buf.searchJobList index).ip = frame.ip ∧ (buf.searchJobList index).port = frame.port
  station : ∃ index ∈ group, (buf.searchJobList index).ethAddr = frame.ethAddr
  length : frame.pktLen = frame.length
  short : frame.pktLen ≤ ethernetMaxFrameLen
  totalLength : (rteCpuToBe16 frame.totalLength).toNat = frame.pktLen - sizeofEtherHdr
  dgramLen : (rteCpuToBe16 frame.dgramLen).toNat = frame.pktLen - sizeofEtherHdr - sizeofIpv4Hdr

/-- The frames have the answers to the searches from `first` to `last`, each once and in order. -/
def Covers (m : Memory) (buf : SearchBuf) (first last : Nat) (frames : List Frame) : Prop :=
  ∃ groups : List (List Nat),
    groups.flatten = List.range' first (last - first) ∧ List.Forall₂ (Answered m buf) groups frames

end Answers

section Slabs

structure SameSlabs (m m' : Memory) : Prop where
  heap : m'.heap = m.heap
  slabs : ∀ id, (m'.slabclass id).slabs = (m.slabclass id).slabs
  slabList : ∀ id, (m'.slabclass id).slabList = (m.slabclass id).slabList

variable {m m' last : Memory} {buf : SearchBuf} {loc : Hash.Loc}

theorem SameSlabs.refl (m : Memory) : SameSlabs m m := ⟨rfl, fun _ => rfl, fun _ => rfl⟩

theorem SameSlabs.trans (first : SameSlabs m m') (second : SameSlabs m' last) : SameSlabs m last :=
  ⟨second.heap.trans first.heap, fun id => (second.slabs id).trans (first.slabs id),
    fun id => (second.slabList id).trans (first.slabList id)⟩

theorem SameSlabs.setBitmap (m : Memory) (id : Nat) (bitmap : Bitmap) :
    SameSlabs m (m.setClass id { m.slabclass id with bitmap := bitmap }) := by
  refine ⟨rfl, ?_, ?_⟩
  all_goals
    intro other
    simp only [Memory.setClass]
    by_cases here : other = id
    · rw [here, Function.update_self]
    · rw [Function.update_of_ne here]

theorem SameSlabs.ptr (same : SameSlabs m m') (loc : Hash.Loc) : slabLocToPtr m' loc = slabLocToPtr m loc := by
  simp only [slabLocToPtr, itemAt, same.slabList]

theorem SameSlabs.fits (same : SameSlabs m m') (fits : Fits m loc) : Fits m' loc := by
  unfold Fits
  rw [same.slabs, same.ptr, same.heap]
  exact fits

theorem itemGet_fits (fits : Fits m loc) :
    ∃ after, itemGet m loc = some (slabLocToPtr m loc, after) ∧ SameSlabs m after :=
  ⟨_, if_pos fits.1, SameSlabs.setBitmap m _ _⟩

end Slabs

section Serve

variable {m : Memory} {buf : SearchBuf} {s s' : TxState} {index : Nat} {loc : Hash.Loc}

/-- Only the packet at hand and the counters of the sender may differ. -/
structure Elsewhere (s s' : TxState) : Prop where
  pktMark : s'.pktMark = s.pktMark
  mTable : ∀ k ≠ s.pktMark, s'.mTable k = s.mTable k
  bursts : s'.bursts = s.bursts

theorem Elsewhere.refl (s : TxState) : Elsewhere s s := ⟨rfl, fun _ _ => rfl, rfl⟩

theorem Elsewhere.trans {last : TxState} (first : Elsewhere s s') (second : Elsewhere s' last) : Elsewhere s last := by
  refine ⟨second.pktMark.trans first.pktMark, ?_, second.bursts.trans first.bursts⟩
  intro k other
  have apart : k ≠ s'.pktMark := by
    rw [first.pktMark]
    exact other
  exact (second.mTable k apart).trans (first.mTable k other)

theorem Elsewhere.setCurrent (s : TxState) (frame : Frame) : Elsewhere s (s.setCurrent frame) :=
  ⟨rfl, fun _ other => Function.update_of_ne other _ _, rfl⟩

@[simp] theorem setCurrent_current (s : TxState) (frame : Frame) : (s.setCurrent frame).current = frame :=
  Function.update_self _ _ _

structure Wrote (m : Memory) (s s' : TxState) (bytes : List Byte) : Prop where
  slabs : SameSlabs m s'.m
  elsewhere : Elsewhere s s'
  current : s'.current = { s.current with payload := s.current.payload ++ bytes }
  short : s'.current.length ≤ ethernetMaxFrameLen

structure Untouched (m : Memory) (s s' : TxState) : Prop where
  slabs : SameSlabs m s'.m
  elsewhere : Elsewhere s s'
  current : s'.current = s.current

theorem valueRecord_length (item : Item) : (valueRecord item).length = 6 + item.nbytes := by
  simp only [valueRecord, bytes16, bytes32, List.length_append, List.length_cons, List.length_nil, List.length_map,
    List.length_range]

theorem write_wrote (same : Untouched m s s') (bytes : List Byte)
    (fits : s'.current.length + bytes.length ≤ ethernetMaxFrameLen) (hit miss : Nat) :
    Wrote m s { s'.write bytes with hit := hit, miss := miss } bytes := by
  have current : (TxState.current { s'.write bytes with hit := hit, miss := miss }) =
      { s'.current with payload := s'.current.payload ++ bytes } := Function.update_self _ _ _
  refine ⟨same.slabs, same.elsewhere.trans ⟨rfl, fun _ other => Function.update_of_ne other _ _, rfl⟩, ?_, ?_⟩
  · rw [current, same.current]
  · rw [current]
    simp only [Frame.length, List.length_append] at fits ⊢
    omega

inductive TriedTo (m : Memory) (buf : SearchBuf) (index : Nat) (loc : Hash.Loc) (s : TxState) :
    Tried → TxState → Prop
  | written {s' : TxState} (item : Item) (found : candidate m buf index loc = some item)
      (wrote : Wrote m s s' (valueRecord item)) : TriedTo m buf index loc s .written s'
  | exceeds {s' : TxState} (full : s.current.payload ≠ []) (same : Untouched m s s') :
      TriedTo m buf index loc s .exceeds s'
  | nothing {s' : TxState} (missed : candidate m buf index loc = none) (same : Untouched m s s') :
      TriedTo m buf index loc s .nothing s'

theorem tryRecord_tried (slabs : SameSlabs m s.m) (fits : loc ≠ 0 → Fits m loc) :
    ∃ tried s', tryRecord buf index loc s = .ok (tried, s') ∧ TriedTo m buf index loc s tried s' := by
  unfold tryRecord
  by_cases zero : loc = 0
  · rw [if_pos zero]
    exact ⟨_, _, rfl, .nothing (if_pos zero) ⟨slabs, Elsewhere.refl s, rfl⟩⟩
  · obtain ⟨after, got, touched⟩ := itemGet_fits (slabs.fits (fits zero))
    have kept := slabs.trans touched
    have untouched : Untouched m s { s with m := after } := ⟨kept, ⟨rfl, fun _ _ => rfl, rfl⟩, rfl⟩
    have item : after.heap (slabLocToPtr s.m loc) = m.heap (slabLocToPtr m loc) := by
      rw [slabs.ptr, kept.heap]
    simp only [if_neg zero, got, item]
    by_cases long : ethernetMaxFrameLen < s.current.length + (m.heap (slabLocToPtr m loc)).nbytes + 6
    · have full : s.current.payload ≠ [] := by
        intro empty
        have room := (fits zero).2
        rw [Frame.length, empty, List.length_nil, Nat.add_zero] at long
        omega
      refine ⟨_, _, if_pos long, ?_⟩
      exact .exceeds full untouched
    · by_cases passes : KeyPasses (m.heap (slabLocToPtr m loc)) (buf.searchJobList index)
      · have found : candidate m buf index loc = some (m.heap (slabLocToPtr m loc)) := by
          rw [candidate, if_neg zero, if_pos passes]
        refine ⟨_, _, (if_neg long).trans (if_pos passes), ?_⟩
        apply TriedTo.written _ found
        apply write_wrote untouched
        rw [untouched.current, valueRecord_length]
        omega
      · have none : candidate m buf index loc = none := by
          rw [candidate, if_neg zero, if_neg passes]
        exact ⟨_, _, (if_neg long).trans (if_neg passes), .nothing none untouched⟩

inductive ServedTo (m : Memory) (buf : SearchBuf) (index : Nat) (s : TxState) : Bool → TxState → Prop
  | answered {s' : TxState} (wrote : Wrote m s s' (answer m buf index)) : ServedTo m buf index s true s'
  | full {s' : TxState} (some : s.current.payload ≠ []) (same : Untouched m s s') : ServedTo m buf index s false s'

theorem Untouched.trans {last : TxState} (first : Untouched m s s') (second : Untouched m s' last) :
    Untouched m s last :=
  ⟨second.slabs, first.elsewhere.trans second.elsewhere, second.current.trans first.current⟩

theorem Wrote.after {last : TxState} {bytes : List Byte} (first : Untouched m s s') (wrote : Wrote m s' last bytes) :
    Wrote m s last bytes := by
  refine ⟨wrote.slabs, first.elsewhere.trans wrote.elsewhere, ?_, wrote.short⟩
  rw [wrote.current, first.current]

theorem answer_first {item : Item} (found : candidate m buf index (buf.searchOut (index <<< 1)) = some item) :
    answer m buf index = valueRecord item := by
  rw [answer, found]
  rfl

theorem answer_second {item : Item} (missed : candidate m buf index (buf.searchOut (index <<< 1)) = none)
    (found : candidate m buf index (buf.searchOut ((index <<< 1) + 1)) = some item) :
    answer m buf index = valueRecord item := by
  rw [answer, missed, found]
  rfl

theorem answer_notFound (missed : candidate m buf index (buf.searchOut (index <<< 1)) = none)
    (nor : candidate m buf index (buf.searchOut ((index <<< 1) + 1)) = none) :
    answer m buf index = [protocolGetNotFound] := by
  rw [answer, missed, nor]
  rfl

theorem serveRecord_served (slabs : SameSlabs m s.m) (located : Located m buf) (inside : index < buf.numSearchJob) :
    ∃ goesOn s', serveRecord buf index index s = .ok (goesOn, s') ∧ ServedTo m buf index s goesOn s' := by
  have double : index <<< 1 = 2 * index := by
    rw [Nat.shiftLeft_eq, pow_one, Nat.mul_comm]
  obtain ⟨tried, middle, result, first⟩ := @tryRecord_tried m buf s index (buf.searchOut (index <<< 1)) slabs
    (located (index <<< 1) (by omega))
  rw [serveRecord, result]
  cases first with
  | written item found wrote =>
    rw [← answer_first found] at wrote
    exact ⟨true, middle, rfl, .answered wrote⟩
  | exceeds full same => exact ⟨false, middle, rfl, .full full same⟩
  | nothing missed same =>
    obtain ⟨again, last, result, second⟩ := @tryRecord_tried m buf middle index (buf.searchOut ((index <<< 1) + 1))
      same.slabs (located ((index <<< 1) + 1) (by omega))
    simp only [result]
    cases second with
    | written item found wrote =>
      rw [← answer_second missed found] at wrote
      exact ⟨true, last, rfl, .answered (wrote.after same)⟩
    | exceeds full unchanged =>
      rw [same.current] at full
      exact ⟨false, last, rfl, .full full (same.trans unchanged)⟩
    | nothing nor unchanged =>
      have both := same.trans unchanged
      by_cases long : ethernetMaxFrameLen < last.current.length + 1
      · have full : s.current.payload ≠ [] := by
          intro empty
          have header : eiuHdrLen + 1 ≤ ethernetMaxFrameLen := by decide
          rw [both.current, Frame.length, empty, List.length_nil] at long
          omega
        exact ⟨false, last, if_pos long, .full full both⟩
      · refine ⟨true, _, if_neg long, .answered ?_⟩
        rw [answer_notFound missed nor]
        apply write_wrote both
        rw [List.length_singleton]
        omega

end Serve

section Packet

variable {m : Memory} {buf : SearchBuf} {s s' : TxState} {first last : Nat}

/-- The packet at hand has the answers from `first` on to `last`, all of one client. -/
structure Filling (m : Memory) (buf : SearchBuf) (first last : Nat) (s : TxState) : Prop where
  slabs : SameSlabs m s.m
  order : first ≤ last
  payload : s.current.payload = (List.range' first (last - first)).flatMap (answer m buf)
  addressed : ∀ index, first ≤ index → index < last →
    (buf.searchJobList index).ip = s.current.ip ∧ (buf.searchJobList index).port = s.current.port
  short : s.current.length ≤ ethernetMaxFrameLen

theorem Filling.answered (filling : Filling m buf first last s)
    (same : (buf.searchJobList last).ip = s.current.ip ∧ (buf.searchJobList last).port = s.current.port)
    (wrote : Wrote m s s' (answer m buf last)) : Filling m buf first (last + 1) s' := by
  have order := filling.order
  have count : last + 1 - first = last - first + 1 := by omega
  have place : first + 1 * (last - first) = last := by omega
  refine ⟨wrote.slabs, Nat.le_succ_of_le order, ?_, ?_, wrote.short⟩
  · rw [wrote.current, count, List.range'_concat, place, List.flatMap_append, List.flatMap_singleton]
    exact congrArg (· ++ answer m buf last) filling.payload
  · intro index after before
    rw [wrote.current]
    by_cases older : index < last
    · exact filling.addressed index after older
    · have newest : index = last := by omega
      rw [newest]
      exact same

theorem Filling.untouched (filling : Filling m buf first last s) (same : Untouched m s s') :
    Filling m buf first last s' := by
  refine ⟨same.slabs, filling.order, ?_, ?_, ?_⟩
  · rw [same.current]
    exact filling.payload
  · rw [same.current]
    exact filling.addressed
  · rw [same.current]
    exact filling.short

theorem Filling.some (filling : Filling m buf first last s) (full : s.current.payload ≠ []) : first < last := by
  have order := filling.order
  by_contra none
  apply full
  have empty : last - first = 0 := by omega
  rw [filling.payload, empty]
  rfl

theorem fillFrame_answer (jobs : GetJobs buf) {job : Nat} (inside : job < buf.numSearchJob)
    (same : (buf.searchJobList job).ip = s.current.ip ∧ (buf.searchJobList job).port = s.current.port)
    (served : serveRecord buf job job s = .ok (true, s')) (address : s'.current.ip = s.current.ip)
    (port : s'.current.port = s.current.port) :
    fillFrame buf buf.numSearchJob (loadJob buf job 0) s = fillFrame buf buf.numSearchJob (loadJob buf (job + 1) 0) s' := by
  have here : loadJob buf job 0 = ⟨job, 1, job, 0⟩ := by
    rw [loadJob, jobs.num job inside, jobs.index job inside]
  have apart : ¬((buf.searchJobList job).ip ≠ s.current.ip ∨ (buf.searchJobList job).port ≠ s.current.port) := by
    simp [same]
  have still : ¬((buf.searchJobList job).ip ≠ s'.current.ip ∨ (buf.searchJobList job).port ≠ s'.current.port) := by
    simp [same, address, port]
  rw [here, fillFrame]
  simp only [if_pos inside, if_neg apart, if_pos Nat.one_pos, served, Nat.sub_self]
  rw [fillFrame]
  simp only [if_pos inside, if_neg still, if_neg (Nat.lt_irrefl 0)]

/-- The packet is filled up to a search it has no room for, a search of another client or the end. -/
theorem fillFrame_fills (jobs : GetJobs buf) (located : Located m buf) (count : Nat) :
    ∀ s last, buf.numSearchJob - last = count → last ≤ buf.numSearchJob → Filling m buf first last s →
      ∃ stop s', fillFrame buf buf.numSearchJob (loadJob buf last 0) s = .ok (loadJob buf stop 0, s') ∧
        last ≤ stop ∧ stop ≤ buf.numSearchJob ∧ Filling m buf first stop s' ∧ Elsewhere s s' ∧
        s'.current.ethAddr = s.current.ethAddr ∧
        (last < buf.numSearchJob → (buf.searchJobList last).ip = s.current.ip →
          (buf.searchJobList last).port = s.current.port → first < stop) := by
  induction count with
  | zero =>
    intro s last left bound filling
    have done : ¬(loadJob buf last 0).job < buf.numSearchJob := by
      change ¬last < buf.numSearchJob
      omega
    refine ⟨last, s, ?_, Nat.le_refl last, bound, filling, Elsewhere.refl s, rfl, ?_⟩
    · rw [fillFrame]
      exact if_neg done
    · intro more
      omega
  | succ count ih =>
    intro s last left bound filling
    have inside : last < buf.numSearchJob := by omega
    by_cases other : (buf.searchJobList last).ip ≠ s.current.ip ∨ (buf.searchJobList last).port ≠ s.current.port
    · refine ⟨last, s, ?_, Nat.le_refl last, bound, filling, Elsewhere.refl s, rfl, ?_⟩
      · rw [fillFrame]
        exact (if_pos inside).trans (if_pos other)
      · intro _ ip port
        simp [ip, port] at other
    · obtain ⟨goesOn, middle, result, served⟩ := serveRecord_served filling.slabs located inside
      have same : (buf.searchJobList last).ip = s.current.ip ∧ (buf.searchJobList last).port = s.current.port := by
        simpa only [not_or, not_not] using other
      cases served with
      | answered wrote =>
        have ip : middle.current.ip = s.current.ip := by rw [wrote.current]
        have port : middle.current.port = s.current.port := by rw [wrote.current]
        have ethAddr : middle.current.ethAddr = s.current.ethAddr := by rw [wrote.current]
        obtain ⟨stop, after, filled, later, within, complete, elsewhere, station, _⟩ :=
          ih middle (last + 1) (by omega) inside (filling.answered same wrote)
        have order := filling.order
        refine ⟨stop, after, ?_, by omega, within, complete, wrote.elsewhere.trans elsewhere, station.trans ethAddr, ?_⟩
        · rw [fillFrame_answer jobs inside same result ip port]
          exact filled
        · intro _ _ _
          omega
      | full some unchanged =>
        refine ⟨last, middle, ?_, Nat.le_refl last, bound, filling.untouched unchanged, unchanged.elsewhere, ?_, ?_⟩
        · have here : loadJob buf last 0 = ⟨last, 1, last, 0⟩ := by
            rw [loadJob, jobs.num last inside, jobs.index last inside]
          rw [here, fillFrame]
          simp only [if_pos inside, if_neg other, if_pos Nat.one_pos, result]
        · rw [unchanged.current]
        · intro _ _ _
          exact filling.some some

theorem rteCpuToBe16_back (x : BitVec 16) : rteCpuToBe16 (rteCpuToBe16 x) = x := by
  have low : (rteCpuToBe16 x).extractLsb' 0 8 = x.extractLsb' 8 8 := BitVec.extractLsb'_append_eq_right
  have high : (rteCpuToBe16 x).extractLsb' 8 8 = x.extractLsb' 0 8 := BitVec.extractLsb'_append_eq_left
  rw [rteCpuToBe16, low, high]
  exact @BitVec.extractLsb'_append_extractLsb' 8 8 x

theorem answer_some (m : Memory) (buf : SearchBuf) (index : Nat) : answer m buf index ≠ [] := by
  unfold answer
  split
  · apply List.ne_nil_of_length_pos
    rw [valueRecord_length]
    exact Nat.add_pos_left (by decide) _
  · exact List.cons_ne_nil _ _

theorem Filling.long (filling : Filling m buf first last s) (some : first < last) : eiuHdrLen < s.current.length := by
  obtain ⟨count, more⟩ : ∃ count, last - first = count + 1 := ⟨last - first - 1, by omega⟩
  have bytes := List.length_pos_of_ne_nil (answer_some m buf first)
  rw [Frame.length, filling.payload, more, List.range'_succ, List.flatMap_cons, List.length_append]
  omega

/-- A packet with an answer is completed and counted in its chunk. -/
theorem closeFrame_answered (filling : Filling m buf first last s) (some : first < last)
    (station : s.current.ethAddr = (buf.searchJobList first).ethAddr) :
    (closeFrame s).m = s.m ∧ (closeFrame s).pktMark = s.pktMark + 1 ∧ (closeFrame s).bursts = s.bursts ∧
      (∀ k ≠ s.pktMark, (closeFrame s).mTable k = s.mTable k) ∧
      Answered m buf (List.range' first (last - first)) ((closeFrame s).mTable s.pktMark) := by
  have short := filling.short
  have order := filling.order
  simp only [closeFrame, if_pos (filling.long some), TxState.setCurrent]
  refine ⟨trivial, trivial, trivial, ?_, ?_⟩
  · intro k other
    exact Function.update_of_ne other _ _
  · rw [Function.update_self]
    have bounded : ethernetMaxFrameLen < 2 ^ 16 := by decide
    constructor
    · apply List.ne_nil_of_length_pos
      rw [List.length_range']
      omega
    · exact filling.payload
    · intro index member
      have inside := List.mem_range'_1.mp member
      exact filling.addressed index inside.1 (by omega)
    · exact ⟨first, List.mem_range'_1.mpr (by omega), station.symm⟩
    · rfl
    · exact short
    · rw [rteCpuToBe16_back, BitVec.toNat_ofNat, Nat.mod_eq_of_lt (by omega)]
    · rw [rteCpuToBe16_back, BitVec.toNat_ofNat, Nat.mod_eq_of_lt (by omega)]

theorem startFrame_filling (slabs : SameSlabs m s.m) (job : SearchJob) (first : Nat) :
    Filling m buf first first (startFrame job s) := by
  have current : (startFrame job s).current =
      { s.current with ethAddr := job.ethAddr, ip := job.ip, port := job.port, payload := [] } :=
    Function.update_self _ _ _
  refine ⟨slabs, Nat.le_refl first, ?_, ?_, ?_⟩
  · rw [current, Nat.sub_self]
    rfl
  · intro index after before
    omega
  · have header : eiuHdrLen ≤ ethernetMaxFrameLen := by decide
    rw [current]
    exact header

structure Packed (m : Memory) (buf : SearchBuf) (first last : Nat) (s s' : TxState) : Prop where
  slabs : SameSlabs m s'.m
  some : first < last
  within : last ≤ buf.numSearchJob
  pktMark : s'.pktMark = s.pktMark + 1
  bursts : s'.bursts = s.bursts
  mTable : ∀ k ≠ s.pktMark, s'.mTable k = s.mTable k
  answered : Answered m buf (List.range' first (last - first)) (s'.mTable s.pktMark)

theorem packet_packed (jobs : GetJobs buf) (located : Located m buf) (slabs : SameSlabs m s.m)
    (inside : first < buf.numSearchJob) :
    ∃ last s', fillFrame buf buf.numSearchJob (loadJob buf first 0) (startFrame (buf.searchJobList first) s) =
        .ok (loadJob buf last 0, s') ∧ Packed m buf first last s (closeFrame s') := by
  have started : Elsewhere s (startFrame (buf.searchJobList first) s) := Elsewhere.setCurrent s _
  have current : (startFrame (buf.searchJobList first) s).current =
      { s.current with
        ethAddr := (buf.searchJobList first).ethAddr
        ip := (buf.searchJobList first).ip
        port := (buf.searchJobList first).port
        payload := [] } := Function.update_self _ _ _
  obtain ⟨last, filled, result, _, within, filling, elsewhere, station, progress⟩ :=
    fillFrame_fills jobs located _ (startFrame (buf.searchJobList first) s) first rfl (Nat.le_of_lt inside)
      (startFrame_filling slabs _ first)
  have some := progress inside (by rw [current]) (by rw [current])
  have whole := started.trans elsewhere
  rw [current] at station
  obtain ⟨memory, pktMark, bursts, mTable, answered⟩ := closeFrame_answered filling some station
  refine ⟨last, filled, result, ?_, some, within, ?_, bursts.trans whole.bursts, ?_, ?_⟩
  · rw [memory]
    exact filling.slabs
  · rw [pktMark, whole.pktMark]
  · intro k other
    have apart : k ≠ filled.pktMark := by
      rw [whole.pktMark]
      exact other
    exact (mTable k apart).trans (whole.mTable k other)
  · rw [whole.pktMark] at answered
    exact answered

end Packet

section Chunks

variable {m : Memory} {buf : SearchBuf} {s s' : TxState} {first middle last : Nat} {frames more : List Frame}

theorem Covers.nil (m : Memory) (buf : SearchBuf) (first : Nat) : Covers m buf first first [] := by
  refine ⟨[], ?_, List.Forall₂.nil⟩
  rw [Nat.sub_self]
  rfl

theorem Covers.append (left : first ≤ middle) (right : middle ≤ last) (before : Covers m buf first middle frames)
    (behind : Covers m buf middle last more) : Covers m buf first last (frames ++ more) := by
  obtain ⟨groups, order, answered⟩ := before
  obtain ⟨rest, later, others⟩ := behind
  refine ⟨groups ++ rest, ?_, List.rel_append answered others⟩
  have count : last - first = middle - first + (last - middle) := by omega
  have place : first + 1 * (middle - first) = middle := by omega
  rw [List.flatten_append, order, later, count, ← List.range'_append, place]

theorem Covers.single (answered : Answered m buf (List.range' first (last - first)) frame) :
    Covers m buf first last [frame] := by
  refine ⟨[List.range' first (last - first)], ?_, List.Forall₂.cons answered List.Forall₂.nil⟩
  rw [List.flatten_cons, List.flatten_nil, List.append_nil]

def TxState.chunk (s : TxState) : List Frame := (List.range s.pktMark).map s.mTable

theorem Packed.chunk (packed : Packed m buf first last s s') : s'.chunk = s.chunk ++ [s'.mTable s.pktMark] := by
  unfold TxState.chunk
  rw [packed.pktMark, List.range_succ, List.map_append, List.map_singleton]
  congr 1
  apply List.map_congr_left
  intro k member
  exact packed.mTable k (Nat.ne_of_lt (List.mem_range.mp member))

theorem buildChunk_step {totalCnt rounds : Nat} {cursor next : Cursor}
    (more : s.pktMark < ioBatchNum ∧ cursor.job < totalCnt)
    (filled : fillFrame buf totalCnt cursor (startFrame (buf.searchJobList cursor.job) s) = .ok (next, s')) :
    buildChunk buf totalCnt (rounds + 1) cursor s = buildChunk buf totalCnt rounds next (closeFrame s') := by
  rw [buildChunk, if_pos more, filled]

theorem sendChunks_step {totalCnt packets chunks : Nat} {cursor next : Cursor} (more : cursor.job < totalCnt)
    (built : buildChunk buf totalCnt packets cursor { s with pktMark := 0 } = .ok (next, s')) :
    sendChunks buf totalCnt packets (chunks + 1) cursor s = sendChunks buf totalCnt packets chunks next s'.burst := by
  rw [sendChunks, if_pos more, built]

structure Chunked (m : Memory) (buf : SearchBuf) (first last : Nat) (s s' : TxState) : Prop where
  slabs : SameSlabs m s'.m
  order : first ≤ last
  within : last ≤ buf.numSearchJob
  room : s'.pktMark ≤ ioBatchNum
  bursts : s'.bursts = s.bursts
  chunk : ∃ frames, s'.chunk = s.chunk ++ frames ∧ Covers m buf first last frames
  some : s.pktMark < ioBatchNum → first < buf.numSearchJob → first < last

theorem buildChunk_builds (jobs : GetJobs buf) (located : Located m buf) (rounds : Nat) :
    ∀ s first, SameSlabs m s.m → first ≤ buf.numSearchJob → s.pktMark ≤ ioBatchNum →
      buf.numSearchJob - first < rounds →
      ∃ last s', buildChunk buf buf.numSearchJob rounds (loadJob buf first 0) s = .ok (loadJob buf last 0, s') ∧
        Chunked m buf first last s s' := by
  induction rounds with
  | zero =>
    intro s first _ _ _ few
    omega
  | succ rounds ih =>
    intro s first slabs bound room few
    by_cases more : s.pktMark < ioBatchNum ∧ first < buf.numSearchJob
    · obtain ⟨middle, filled, result, packed⟩ := packet_packed jobs located slabs more.2
      have some := packed.some
      have mark : (closeFrame filled).pktMark ≤ ioBatchNum := by
        rw [packed.pktMark]
        exact more.1
      obtain ⟨last, s', built, chunked⟩ := ih (closeFrame filled) middle packed.slabs packed.within mark (by omega)
      have order := chunked.order
      obtain ⟨frames, chunk, covers⟩ := chunked.chunk
      refine ⟨last, s', (buildChunk_step more result).trans built, chunked.slabs, by omega, chunked.within, chunked.room,
        chunked.bursts.trans packed.bursts, ?_, fun _ _ => by omega⟩
      refine ⟨(closeFrame filled).mTable s.pktMark :: frames, ?_, ?_⟩
      · rw [chunk, packed.chunk, List.append_assoc]
        rfl
      · exact (Covers.single packed.answered).append (Nat.le_of_lt some) order covers
    · refine ⟨first, s, if_neg more, slabs, Nat.le_refl first, bound, room, rfl, ?_, ?_⟩
      · exact ⟨[], (List.append_nil _).symm, Covers.nil m buf first⟩
      · intro left right
        exact absurd ⟨left, right⟩ more

/-- The calls of `rte_eth_tx_burst` so far pass the answers up to `last`. -/
structure Passed (m : Memory) (buf : SearchBuf) (last : Nat) (s : TxState) : Prop where
  slabs : SameSlabs m s.m
  within : last ≤ buf.numSearchJob
  covers : Covers m buf 0 last s.bursts.flatten
  short : ∀ burst ∈ s.bursts, burst.length ≤ ioBatchNum

theorem Passed.burst (passed : Passed m buf first s) (chunked : Chunked m buf first last { s with pktMark := 0 } s') :
    Passed m buf last s'.burst := by
  obtain ⟨frames, chunk, covers⟩ := chunked.chunk
  have whole : s'.chunk = frames := chunk
  refine ⟨chunked.slabs, chunked.within, ?_, ?_⟩
  · have joined : s'.burst.bursts.flatten = s.bursts.flatten ++ frames := by
      change (s'.bursts ++ [s'.chunk]).flatten = _
      rw [chunked.bursts, whole, List.flatten_append, List.flatten_singleton]
    rw [joined]
    exact passed.covers.append (Nat.zero_le first) chunked.order covers
  · intro burst member
    change burst ∈ s'.bursts ++ [s'.chunk] at member
    rw [chunked.bursts] at member
    rcases List.mem_append.mp member with older | newest
    · exact passed.short burst older
    · rw [List.mem_singleton.mp newest, TxState.chunk, List.length_map, List.length_range]
      exact chunked.room

theorem sendChunks_passes (jobs : GetJobs buf) (located : Located m buf) {packets : Nat}
    (enough : buf.numSearchJob < packets) (chunks : Nat) :
    ∀ s first, Passed m buf first s → buf.numSearchJob - first < chunks →
      ∃ s', sendChunks buf buf.numSearchJob packets chunks (loadJob buf first 0) s = .ok s' ∧
        Passed m buf buf.numSearchJob s' := by
  induction chunks with
  | zero =>
    intro s first _ few
    omega
  | succ chunks ih =>
    intro s first passed few
    by_cases more : first < buf.numSearchJob
    · obtain ⟨last, s', built, chunked⟩ :=
        buildChunk_builds jobs located packets { s with pktMark := 0 } first passed.slabs passed.within (Nat.zero_le _)
          (by omega)
      have further := chunked.some Nat.two_pos more
      have next := passed.burst chunked
      obtain ⟨final, sent, complete⟩ := ih s'.burst last next (by omega)
      exact ⟨final, (sendChunks_step more built).trans sent, complete⟩
    · have done : first = buf.numSearchJob := Nat.le_antisymm passed.within (Nat.le_of_not_lt more)
      refine ⟨s, if_neg more, ?_⟩
      rw [← done]
      exact passed

/-- Every search is answered once, in order, in packets for its client that are passed on once. -/
theorem plain_sender_complete {m : Memory} {buf : SearchBuf} (jobs : GetJobs buf) (located : Located m buf)
    (mTable : Nat → Frame) (hit miss totalBytes : Nat) {rounds : Nat} (enough : buf.numSearchJob < rounds) :
    ∃ s, sendFrames rounds m buf mTable hit miss totalBytes = .ok s ∧
      Covers m buf 0 buf.numSearchJob s.bursts.flatten ∧ ∀ burst ∈ s.bursts, burst.length ≤ ioBatchNum := by
  have start : Passed m buf 0
      { m := m, mTable := mTable, pktMark := 0, bursts := [], hit := hit, miss := miss, totalBytes := totalBytes } :=
    ⟨SameSlabs.refl m, Nat.zero_le _, Covers.nil m buf 0, fun burst member => absurd member List.not_mem_nil⟩
  by_cases none : buf.numSearchJob = 0
  · refine ⟨_, if_pos none, ?_, start.short⟩
    rw [none]
    exact start.covers
  · obtain ⟨s, sent, passed⟩ := sendChunks_passes jobs located enough rounds _ 0 start enough
    have total : totalCnt ⟨false, true⟩ buf = buf.numSearchJob := by
      change 0 + buf.numCompactSearchJob = _
      rw [Nat.zero_add, jobs.count]
    refine ⟨s, ?_, passed.covers, passed.short⟩
    rw [← sent, ← total]
    exact if_neg none

end Chunks

section Batches

theorem addKey_job {build : Receiver.Build} {v : Library.View} {key nkey : Nat} {job keyed : SearchJob}
    (result : addKey build v key nkey job = .ok keyed) : keyed.num = job.num ∧ keyed.index = job.index := by
  unfold addKey at result
  split at result
  · obtain ⟨bytes, _, last⟩ := ok_of_bind result
    cases last
    exact ⟨rfl, rfl⟩
  · cases result
    exact ⟨rfl, rfl⟩

/-- Without COMPACT_JOB the receiver adds a job of its own for each GET. -/
theorem addSearch_getJobs {build : Receiver.Build} (plain : build.compactJob = false) {v : Library.View} {key nkey : Nat}
    {ip : BitVec 32} {port : BitVec 16} {buf added : BatchBuf}
    (result : addSearch build v key nkey ip port buf = .ok added) (jobs : GetJobs buf.toSearchBuf) :
    GetJobs added.toSearchBuf := by
  obtain ⟨one, addedJob, rest⟩ := ok_of_bind result
  obtain ⟨sig, _, last⟩ := ok_of_bind rest
  rw [addJob, plain] at addedJob
  obtain ⟨ethAddr, _, behind⟩ := ok_of_bind addedJob
  obtain ⟨job, keyed, newest⟩ := ok_of_bind behind
  cases newest
  cases last
  have count := jobs.count
  have fields := addKey_job keyed
  have every : ∀ k < buf.numSearchJob + 1,
      (Function.update buf.searchJobList buf.numCompactSearchJob job k).num = 1 ∧
        (Function.update buf.searchJobList buf.numCompactSearchJob job k).index = k := by
    intro k before
    by_cases here : k = buf.numCompactSearchJob
    · rw [here, Function.update_self]
      exact ⟨fields.1, fields.2.trans count.symm⟩
    · have older : k < buf.numSearchJob := by omega
      rw [Function.update_of_ne here]
      exact ⟨jobs.num k older, jobs.index k older⟩
  exact ⟨congrArg (· + 1) count, fun k before => (every k before).1, fun k before => (every k before).2⟩

def twoGets : SearchBuf :=
  { searchJobList := fun job =>
      { ethAddr := 0, ip := if job = 0 then 7 else 9, port := 0, num := 1, index := job, key := fun _ => 0, nkey := 8 }
    numCompactSearchJob := 2
    numSearchJob := 2
    searchOut := fun k => if k = 1 then 1 else 0 }

theorem twoGets_jobs : GetJobs twoGets := ⟨rfl, fun _ _ => rfl, fun _ _ => rfl⟩

theorem twoGets_located : Located (uniformMemory plainItem) twoGets := by
  intro k _ found
  have location : twoGets.searchOut k = 1 := by
    simp only [twoGets] at found ⊢
    split at found
    · exact if_pos ‹_›
    · exact absurd rfl found
  rw [location]
  exact ⟨by decide, by decide⟩

def emptyFrame : Frame :=
  { ethAddr := 0, ip := 0, port := 0, payload := [], pktLen := 0, totalLength := 0, dgramLen := 0 }

theorem plain_sender_complete_two : GetJobs twoGets ∧ Located (uniformMemory plainItem) twoGets ∧
    ∃ s, sendFrames 3 (uniformMemory plainItem) twoGets (fun _ => emptyFrame) 0 0 0 = .ok s ∧
      Covers (uniformMemory plainItem) twoGets 0 twoGets.numSearchJob s.bursts.flatten ∧
        ∀ burst ∈ s.bursts, burst.length ≤ ioBatchNum :=
  ⟨twoGets_jobs, twoGets_located,
    plain_sender_complete twoGets_jobs twoGets_located (fun _ => emptyFrame) 0 0 0 (by decide)⟩

end Batches

end MegaKV.Sender
