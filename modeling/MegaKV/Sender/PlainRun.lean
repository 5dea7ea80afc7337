import MegaKV.Sender.Codec
import MegaKV.Sender.Completeness
import MegaKV.Sender.PrefetchRun
import MegaKV.Sender.Records
import MegaKV.Slab.ClockRefinement

namespace MegaKV.Sender

open Slab

section Bits

/-- The CLOCK bit of the item at a location, by class and offset. -/
def locBit (loc : Hash.Loc) : Nat × Nat := (locClass loc, locOffset loc)

def bitOf (m : Memory) (b : Nat × Nat) : Bool := (clock (m.slabclass b.1).bitmap).bits b.2

structure Touched (m : Memory) (list : List (Nat × Nat)) (m' : Memory) : Prop where
  slabs : SameSlabs m m'
  bits : ∀ b, bitOf m' b = (bitOf m b && decide (b ∉ list))

variable {m m' last : Memory} {list others : List (Nat × Nat)} {loc : Hash.Loc}

theorem Touched.refl (m : Memory) : Touched m [] m := by
  refine ⟨SameSlabs.refl m, ?_⟩
  intro b
  rw [decide_eq_true List.not_mem_nil, Bool.and_true]

theorem Touched.trans (first : Touched m list m') (second : Touched m' others last) : Touched m (list ++ others) last := by
  refine ⟨first.slabs.trans second.slabs, ?_⟩
  intro b
  rw [second.bits, first.bits, Bool.and_assoc]
  congr 1
  rw [← Bool.decide_and]
  congr 1
  rw [List.mem_append, not_or]

theorem bitOf_touch (m : Memory) (loc : Hash.Loc) (b : Nat × Nat) :
    bitOf (m.setClass (locClass loc) { m.slabclass (locClass loc) with
      bitmap := bitmapTouch (m.slabclass (locClass loc)).bitmap (locOffset loc) }) b =
      (bitOf m b && decide (b ∉ [locBit loc])) := by
  obtain ⟨id, pos⟩ := b
  have listed : (id, pos) ∉ [locBit loc] ↔ ¬(id = locClass loc ∧ pos = locOffset loc) := by
    rw [List.mem_singleton, locBit, Prod.mk.injEq]
  simp only [bitOf, Memory.setClass, listed]
  by_cases here : id = locClass loc
  · subst here
    rw [Function.update_self, clock_bitmapTouch]
    simp only [true_and, ne_eq]
  · rw [Function.update_of_ne here]
    simp only [here, false_and, not_false_eq_true, decide_true, Bool.and_true]

theorem itemGet_inside (inside : locOffset loc < perslab * (m.slabclass (locClass loc)).slabs) :
    ∃ after, itemGet m loc = some (slabLocToPtr m loc, after) ∧ Touched m [locBit loc] after :=
  ⟨_, if_pos inside, SameSlabs.setBitmap m _ _, bitOf_touch m loc⟩

theorem itemGet_outside (outside : ¬locOffset loc < perslab * (m.slabclass (locClass loc)).slabs) :
    itemGet m loc = none := if_neg outside

end Bits

section Tries

variable (keyMatch : Bool) (m : Memory) (buf : SearchBuf)

def firstLoc (index : Nat) : Hash.Loc := buf.searchOut (index <<< 1)

def secondLoc (index : Nat) : Hash.Loc := buf.searchOut ((index <<< 1) + 1)

def itemFor (e : Nat × Nat) (loc : Hash.Loc) : Gathered := { it := slabLocToPtr m loc, job := e.2, index := e.1 }

def Finds (e : Nat × Nat) (loc : Hash.Loc) : Prop := loc ≠ 0 ∧ Matches keyMatch m buf (itemFor m e loc)

instance (e : Nat × Nat) (loc : Hash.Loc) : Decidable (Finds keyMatch m buf e loc) :=
  inferInstanceAs (Decidable (_ ∧ _))

def looked (loc : Hash.Loc) : List Hash.Loc := if loc ≠ 0 then [loc] else []

def tries (e : Nat × Nat) : List Hash.Loc :=
  looked (firstLoc buf e.1) ++ if Finds keyMatch m buf e (firstLoc buf e.1) then [] else looked (secondLoc buf e.1)

def plainAnswer (e : Nat × Nat) : Option Gathered :=
  if Finds keyMatch m buf e (firstLoc buf e.1) then some (itemFor m e (firstLoc buf e.1))
  else if Finds keyMatch m buf e (secondLoc buf e.1) then some (itemFor m e (secondLoc buf e.1))
  else none

/-- The location is inside its class, and its item fits behind so many bytes of a packet. -/
structure Room (length : Nat) (loc : Hash.Loc) : Prop where
  inside : locOffset loc < perslab * (m.slabclass (locClass loc)).slabs
  short : length + recordSize keyMatch (m.heap (slabLocToPtr m loc)) ≤ ethernetMaxFrameLen

/-- A record of the item fits an empty packet. -/
def FitsFrame (loc : Hash.Loc) : Prop := Room keyMatch m eiuHdrLen loc

variable {keyMatch m}

theorem Room.less {length bound : Nat} {loc : Hash.Loc} (room : Room keyMatch m length loc) (less : bound ≤ length) :
    Room keyMatch m bound loc := by
  have short := room.short
  exact ⟨room.inside, by omega⟩

end Tries

section TryLoc

variable {keyMatch : Bool} {m : Memory} {buf : SearchBuf} {s : PlainState} {index job : Nat} {loc : Hash.Loc}

theorem plainMatches_iff {g : Gathered} :
    Matches keyMatch m buf g ↔ (keyMatch = true → (m.heap g.it).nkey = (buf.searchJobList g.job).nkey ∧
      strncmp (m.heap g.it).data (buf.searchJobList g.job).key (m.heap g.it).nkey = 0) := by
  unfold Matches
  apply imp_congr_right
  intro _
  apply and_congr_right
  intro same
  rw [same]

/-- What an attempt leaves but for the bit it clears. -/
structure Kept (s s' : PlainState) : Prop where
  out : s'.out = s.out
  aborted : s'.aborted = s.aborted

inductive TriedAt (keyMatch : Bool) (m : Memory) (buf : SearchBuf) (s : PlainState) (index job : Nat) (loc : Hash.Loc) :
    Attempted → Prop
  | aborts (s' : PlainState) (aborted : s'.aborted = true)
      (outside : ¬∀ l ∈ looked loc, Room keyMatch m eiuHdrLen l) : TriedAt keyMatch m buf s index job loc (.aborts s')
  | exceeds (s' : PlainState) (kept : Kept s s') (touched : Touched s.m ((looked loc).map locBit) s'.m)
      (long : ¬∀ l ∈ looked loc, Room keyMatch m s.out.current.length l) :
      TriedAt keyMatch m buf s index job loc (.exceeds s')
  | nothing (s' : PlainState) (kept : Kept s s') (touched : Touched s.m ((looked loc).map locBit) s'.m)
      (room : ∀ l ∈ looked loc, Room keyMatch m s.out.current.length l)
      (differs : ¬Finds keyMatch m buf (index, job) loc) : TriedAt keyMatch m buf s index job loc (.nothing s')
  | written (s' : PlainState) (aborted : s'.aborted = s.aborted) (touched : Touched s.m ((looked loc).map locBit) s'.m)
      (out : s'.out = s.out.writePkt keyMatch index job (slabLocToPtr m loc) (m.heap (slabLocToPtr m loc)))
      (room : ∀ l ∈ looked loc, Room keyMatch m s.out.current.length l)
      (finds : Finds keyMatch m buf (index, job) loc) : TriedAt keyMatch m buf s index job loc (.written s')

theorem looked_some (some : loc ≠ 0) : looked loc = [loc] := if_pos some

theorem looked_none : looked 0 = [] := rfl

theorem tryLoc_tried (slabs : SameSlabs m s.m) :
    TriedAt keyMatch m buf s index job loc (tryLoc keyMatch buf s index job loc) := by
  by_cases none : loc = 0
  · rw [tryLoc, if_pos none]
    subst none
    exact .nothing s ⟨rfl, rfl⟩ (.refl s.m) (fun _ empty => by cases empty) fun finds => finds.1 rfl
  have listed := looked_some none
  rw [tryLoc, if_neg none]
  by_cases inside : locOffset loc < perslab * (s.m.slabclass (locClass loc)).slabs
  · obtain ⟨after, got, touched⟩ := itemGet_inside inside
    rw [← List.map_singleton (f := locBit), ← listed] at touched
    have ptr : slabLocToPtr s.m loc = slabLocToPtr m loc := slabs.ptr loc
    have heap : after.heap = m.heap := touched.slabs.heap.trans slabs.heap
    have here : locOffset loc < perslab * (m.slabclass (locClass loc)).slabs := by
      rw [← slabs.slabs]
      exact inside
    simp only [got]
    rw [ptr, heap]
    change TriedAt keyMatch m buf s index job loc
      (if ethernetMaxFrameLen < s.out.current.length + recordSize keyMatch (m.heap (slabLocToPtr m loc)) then _ else _)
    by_cases long : ethernetMaxFrameLen < s.out.current.length + recordSize keyMatch (m.heap (slabLocToPtr m loc))
    · rw [if_pos long]
      have narrow : ¬∀ l ∈ looked loc, Room keyMatch m s.out.current.length l := by
        intro room
        exact absurd (room loc (by rw [listed]; exact List.mem_singleton_self loc)).short (Nat.not_le.mpr long)
      exact .exceeds _ ⟨rfl, rfl⟩ touched narrow
    · rw [if_neg long]
      have room : ∀ l ∈ looked loc, Room keyMatch m s.out.current.length l := by
        intro l member
        rw [listed, List.mem_singleton] at member
        subst member
        exact ⟨here, Nat.not_lt.mp long⟩
      cases keyMatch with
      | false => exact .written _ rfl touched rfl room ⟨none, fun impossible => by cases impossible⟩
      | true =>
        rw [if_pos rfl]
        by_cases same : (m.heap (slabLocToPtr m loc)).nkey = (buf.searchJobList job).nkey ∧
            strncmp (m.heap (slabLocToPtr m loc)).data (buf.searchJobList job).key (m.heap (slabLocToPtr m loc)).nkey = 0
        · rw [if_pos same]
          exact .written _ rfl touched rfl room ⟨none, plainMatches_iff.mpr fun _ => same⟩
        · rw [if_neg same]
          exact .nothing _ ⟨rfl, rfl⟩ touched room fun finds => same (plainMatches_iff.mp finds.2 rfl)
  · rw [itemGet_outside inside]
    apply TriedAt.aborts _ rfl
    intro room
    have here := (room loc (by rw [listed]; exact List.mem_singleton_self loc)).inside
    rw [← slabs.slabs] at here
    exact inside here

end TryLoc

section Serve

variable {keyMatch : Bool} {m : Memory} {buf : SearchBuf} {s : PlainState} {e : Nat × Nat}

def answered (keyMatch : Bool) (m : Memory) (buf : SearchBuf) (out : Output) (e : Nat × Nat) : Output :=
  match plainAnswer keyMatch m buf e with
  | some g => out.writePkt keyMatch g.index g.job g.it (m.heap g.it)
  | none => out.notFound

inductive Serves (keyMatch : Bool) (m : Memory) (buf : SearchBuf) (s : PlainState) (e : Nat × Nat) :
    PlainState × Bool → Prop
  | aborts (s' : PlainState) (aborted : s'.aborted = true) (outside : ¬∀ l ∈ tries keyMatch m buf e, FitsFrame keyMatch m l) :
      Serves keyMatch m buf s e (s', false)
  | exceeds (s' : PlainState) (kept : Kept s s') (front : List Hash.Loc) (some : ∀ l ∈ front, l ∈ tries keyMatch m buf e)
      (touched : Touched s.m (front.map locBit) s'.m)
      (long : s.out.current.length = eiuHdrLen → ¬∀ l ∈ tries keyMatch m buf e, FitsFrame keyMatch m l) :
      Serves keyMatch m buf s e (s', false)
  | answers (s' : PlainState) (aborted : s'.aborted = s.aborted)
      (touched : Touched s.m ((tries keyMatch m buf e).map locBit) s'.m)
      (out : s'.out = answered keyMatch m buf s.out e)
      (room : ∀ l ∈ tries keyMatch m buf e, Room keyMatch m s.out.current.length l) :
      Serves keyMatch m buf s e (s', true)

theorem tries_first (finds : Finds keyMatch m buf e (firstLoc buf e.1)) :
    tries keyMatch m buf e = looked (firstLoc buf e.1) := by
  rw [tries, if_pos finds, List.append_nil]

theorem tries_both (differs : ¬Finds keyMatch m buf e (firstLoc buf e.1)) :
    tries keyMatch m buf e = looked (firstLoc buf e.1) ++ looked (secondLoc buf e.1) := by
  rw [tries, if_neg differs]

theorem tries_front (l : Hash.Loc) (member : l ∈ looked (firstLoc buf e.1)) : l ∈ tries keyMatch m buf e :=
  List.mem_append_left _ member

theorem serveIndex_serves (slabs : SameSlabs m s.m) :
    Serves keyMatch m buf s e (serveIndex keyMatch buf s e.1 e.2) := by
  unfold serveIndex
  have first : TriedAt keyMatch m buf s e.1 e.2 (firstLoc buf e.1)
      (tryLoc keyMatch buf s e.1 e.2 (buf.searchOut (e.1 <<< 1))) := tryLoc_tried slabs
  generalize tryLoc keyMatch buf s e.1 e.2 (buf.searchOut (e.1 <<< 1)) = attempted at first ⊢
  cases first with
  | aborts s' aborted outside =>
    exact .aborts s' aborted fun fits => outside fun l member => fits l (tries_front l member)
  | exceeds s' kept touched long =>
    apply Serves.exceeds s' kept (looked (firstLoc buf e.1)) tries_front touched
    intro fresh fits
    rw [fresh] at long
    exact long fun l member => fits l (tries_front l member)
  | written s' aborted touched out room finds =>
    have all := tries_first finds
    apply Serves.answers s' aborted
    · rw [all]
      exact touched
    · rw [out, answered, plainAnswer, if_pos finds]
      rfl
    · rw [all]
      exact room
  | nothing s' kept touched room differs =>
    have all := tries_both differs
    have second : TriedAt keyMatch m buf s' e.1 e.2 (secondLoc buf e.1)
        (tryLoc keyMatch buf s' e.1 e.2 (buf.searchOut ((e.1 <<< 1) + 1))) := tryLoc_tried (slabs.trans touched.slabs)
    dsimp only
    generalize tryLoc keyMatch buf s' e.1 e.2 (buf.searchOut ((e.1 <<< 1) + 1)) = attempted at second ⊢
    cases second with
    | aborts last aborted outside =>
      apply Serves.aborts last aborted
      rw [all]
      exact fun fits => outside fun l member => fits l (List.mem_append_right _ member)
    | exceeds last keptToo touchedToo long =>
      have both := touched.trans touchedToo
      rw [← List.map_append] at both
      apply Serves.exceeds last ⟨keptToo.out.trans kept.out, keptToo.aborted.trans kept.aborted⟩ _ _ both
      · intro fresh
        rw [kept.out, fresh] at long
        rw [all]
        exact fun fits => long fun l member => fits l (List.mem_append_right _ member)
      · rw [all]
        exact fun l member => member
    | written last aborted touchedToo out roomToo finds =>
      have both := touched.trans touchedToo
      rw [← List.map_append] at both
      rw [kept.out] at roomToo
      apply Serves.answers last (aborted.trans kept.aborted)
      · rw [all]
        exact both
      · rw [out, kept.out, answered, plainAnswer, if_neg differs, if_pos finds]
        rfl
      · rw [all]
        exact List.forall_mem_append.mpr ⟨room, roomToo⟩
    | nothing last keptToo touchedToo roomToo differsToo =>
      have both := touched.trans touchedToo
      rw [← List.map_append] at both
      rw [kept.out] at roomToo
      have out := keptToo.out.trans kept.out
      have aborted := keptToo.aborted.trans kept.aborted
      dsimp only
      split
      · rename_i long
        apply Serves.exceeds last ⟨out, aborted⟩ _ _ both
        · intro fresh
          rw [out, fresh] at long
          exact absurd long (by decide)
        · rw [all]
          exact fun l member => member
      · apply @Serves.answers keyMatch m buf s e { last with out := last.out.notFound } aborted
        · rw [all]
          exact both
        · rw [answered, plainAnswer, if_neg differs, if_neg differsToo, ← out]
        · rw [all]
          exact List.forall_mem_append.mpr ⟨room, roomToo⟩

end Serve

section Trace

/-- The answer to a search: the item whose value is sent, or GET_NOT_FOUND. -/
inductive Answer
  | value (it : Ptr)
  | notFound

def answerOf (given : Option Gathered) : Answer :=
  match given with
  | some g => .value g.it
  | none => .notFound

def answerGiven (s s' : PlainState) : Answer :=
  match s'.out.current.records[s.out.current.records.length]? with
  | some record => .value record.it
  | none => .notFound

variable (keyMatch : Bool) (buf : SearchBuf) (jobs : Nat)

def fillTrace (cursor : Cursor) (s : PlainState) : List (Nat × Answer) :=
  let thisJob := buf.searchJobList cursor.job
  if cursor.job < jobs then
    if thisJob.ip ≠ s.out.current.ip ∨ thisJob.port ≠ s.out.current.port then []
    else if 0 < cursor.num then
      let served := serveIndex keyMatch buf s cursor.jobIndex cursor.job
      if served.2 then
        (cursor.jobIndex, answerGiven s served.1) ::
          fillTrace { cursor with num := cursor.num - 1, jobIndex := cursor.jobIndex + 1 } served.1
      else []
    else fillTrace (loadJob buf (cursor.job + 1) cursor.index) s
  else []
termination_by (jobs - cursor.job, cursor.num)
decreasing_by
  · exact Prod.Lex.right _ (Nat.sub_lt (by assumption) Nat.one_pos)
  · exact Prod.Lex.left _ _ (Nat.sub_lt_sub_left (by assumption) (Nat.lt_succ_self _))

/-- `plainPackets` with the position it stops at and the answers it gives. -/
structure PlainRun where
  cursor : Cursor
  state : PlainState
  answers : List (Nat × Answer)

def PlainRun.packet (run : PlainRun) : PlainRun :=
  let s := { run.state with out := { run.state.out with current := startPacket (buf.searchJobList run.cursor.job) } }
  let filled := fillPacket keyMatch buf jobs run.cursor s
  { cursor := filled.1
    state := { filled.2 with out := filled.2.out.closePacket.closeChunk (decide (filled.1.job < jobs)) }
    answers := run.answers ++ fillTrace keyMatch buf jobs run.cursor s }

def plainRun : Nat → PlainRun → PlainRun
  | 0, run => run
  | packets + 1, run =>
    if run.cursor.job < jobs ∧ run.state.aborted = false then plainRun packets (run.packet keyMatch buf jobs) else run

def PlainRun.ended (run : PlainRun) : Prop := jobs ≤ run.cursor.job ∧ run.state.aborted = false

theorem plainRun_state (packets : Nat) (run : PlainRun) :
    (plainRun keyMatch buf jobs packets run).state = plainPackets keyMatch buf jobs packets run.cursor run.state := by
  induction packets generalizing run with
  | zero => rfl
  | succ packets ih =>
    rw [plainRun, plainPackets]
    split
    · exact ih _
    · rfl

end Trace

section Sofar

variable {keyMatch : Bool} {m : Memory} {buf : SearchBuf} {s s' : PlainState} {e : Nat × Nat}
  {all done : List (Nat × Nat)} {records : List Record}

def given (keyMatch : Bool) (m : Memory) (buf : SearchBuf) (e : Nat × Nat) : Nat × Answer :=
  (e.1, answerOf (plainAnswer keyMatch m buf e))

structure Sofar (keyMatch : Bool) (m : Memory) (buf : SearchBuf) (all done : List (Nat × Nat)) (records : List Record)
    (after : Memory) : Prop where
  touched : ∃ list, Touched m list after ∧ (∀ b ∈ list, ∃ e ∈ all, b ∈ (tries keyMatch m buf e).map locBit) ∧
    ∀ e ∈ done, ∀ b ∈ (tries keyMatch m buf e).map locBit, b ∈ list
  records : records = (done.filterMap (plainAnswer keyMatch m buf)).map (recordOf keyMatch m)
  fits : ∀ e ∈ done, ∀ l ∈ tries keyMatch m buf e, FitsFrame keyMatch m l

theorem Sofar.slabs (sofar : Sofar keyMatch m buf all done records s.m) : SameSlabs m s.m := by
  obtain ⟨_, touched, _⟩ := sofar.touched
  exact touched.slabs

theorem Sofar.none (keyMatch : Bool) (m : Memory) (buf : SearchBuf) (all : List (Nat × Nat)) :
    Sofar keyMatch m buf all [] [] m :=
  ⟨⟨[], .refl m, List.forall_mem_nil _, List.forall_mem_nil _⟩, rfl, List.forall_mem_nil _⟩

theorem Sofar.exceeds (sofar : Sofar keyMatch m buf all done records s.m) (member : e ∈ all) {front : List Hash.Loc}
    (some : ∀ l ∈ front, l ∈ tries keyMatch m buf e) (touched : Touched s.m (front.map locBit) s'.m) :
    Sofar keyMatch m buf all done records s'.m := by
  obtain ⟨list, before, only, every⟩ := sofar.touched
  refine ⟨⟨_, before.trans touched, ?_, ?_⟩, sofar.records, sofar.fits⟩
  · intro b listed
    rcases List.mem_append.mp listed with earlier | now
    · exact only b earlier
    · obtain ⟨l, inFront, rfl⟩ := List.mem_map.mp now
      exact ⟨e, member, List.mem_map_of_mem (some l inFront)⟩
  · exact fun other answered b tried => List.mem_append_left _ (every other answered b tried)

theorem Sofar.answers (sofar : Sofar keyMatch m buf all done records s.m) (member : e ∈ all)
    (touched : Touched s.m ((tries keyMatch m buf e).map locBit) s'.m)
    (fits : ∀ l ∈ tries keyMatch m buf e, FitsFrame keyMatch m l) :
    Sofar keyMatch m buf all (done ++ [e]) (records ++ ((plainAnswer keyMatch m buf e).toList.map (recordOf keyMatch m)))
      s'.m := by
  obtain ⟨list, before, only, every⟩ := sofar.touched
  refine ⟨⟨_, before.trans touched, ?_, ?_⟩, ?_, ?_⟩
  · intro b listed
    rcases List.mem_append.mp listed with earlier | now
    · exact only b earlier
    · exact ⟨e, member, now⟩
  · intro other answered b tried
    rcases List.mem_append.mp answered with earlier | now
    · exact List.mem_append_left _ (every other earlier b tried)
    · cases List.mem_singleton.mp now
      exact List.mem_append_right _ tried
  · rw [sofar.records, List.filterMap_append, List.map_append]
    congr 1
  · intro other answered
    rcases List.mem_append.mp answered with earlier | now
    · exact sofar.fits other earlier
    · cases List.mem_singleton.mp now
      exact fits

/-- Each answer in the packet takes a byte at least. -/
def Filled (s : PlainState) : Prop := eiuHdrLen + s.out.current.records.length ≤ s.out.current.length

theorem answered_filled {out : Output} (long : eiuHdrLen + out.current.records.length ≤ out.current.length) :
    eiuHdrLen + (answered keyMatch m buf out e).current.records.length ≤ (answered keyMatch m buf out e).current.length := by
  unfold answered
  cases plainAnswer keyMatch m buf e with
  | none => exact Nat.le_succ_of_le long
  | some g =>
    change eiuHdrLen + (out.current.records ++ [_]).length ≤ out.current.length + 6 + (m.heap g.it).nbytes
    rw [List.length_append, List.length_singleton]
    omega

theorem answered_records (out : Output) :
    (answered keyMatch m buf out e).records =
      out.records ++ (plainAnswer keyMatch m buf e).toList.map (recordOf keyMatch m) := by
  unfold answered
  cases plainAnswer keyMatch m buf e with
  | none =>
    change out.notFound.records = out.records ++ []
    rw [List.append_nil, Output.records_eq, Output.records_eq]
    rfl
  | some g => exact writePkt_records out g

theorem answered_given (out : s'.out = answered keyMatch m buf s.out e) :
    (e.1, answerGiven s s') = given keyMatch m buf e := by
  unfold answerGiven given
  rw [out, answered]
  cases plainAnswer keyMatch m buf e with
  | none =>
    change (e.1, match s.out.current.records[s.out.current.records.length]? with
      | .some record => Answer.value record.it | .none => Answer.notFound) = _
    rw [List.getElem?_eq_none (Nat.le_refl _)]
    rfl
  | some g =>
    change (e.1, match (s.out.current.records ++ [recordOf keyMatch m g])[s.out.current.records.length]? with
      | .some record => Answer.value record.it | .none => Answer.notFound) = _
    rw [List.getElem?_append_right (Nat.le_refl _), Nat.sub_self]
    rfl

end Sofar

section Fill

variable {keyMatch : Bool} {m : Memory} {buf : SearchBuf} {jobs : Nat} {all done : List (Nat × Nat)}

def restOf (buf : SearchBuf) (jobs : Nat) (c : Cursor) : List (Nat × Nat) :=
  if c.job < jobs then
    (List.range' c.jobIndex c.num).map (fun i => (i, c.job)) ++ ownedFrom buf (c.job + 1) (jobs - (c.job + 1))
  else []

theorem restOf_serve {c : Cursor} (inside : c.job < jobs) (some : 0 < c.num) :
    restOf buf jobs c =
      (c.jobIndex, c.job) :: restOf buf jobs { c with num := c.num - 1, jobIndex := c.jobIndex + 1 } := by
  obtain ⟨num, more⟩ : ∃ num, c.num = num + 1 := ⟨c.num - 1, by omega⟩
  rw [restOf, restOf, if_pos inside, if_pos inside, more, List.range'_succ]
  rfl

theorem ownedFrom_succ (job count : Nat) :
    ownedFrom buf job (count + 1) =
      (List.range' (buf.searchJobList job).index (buf.searchJobList job).num).map (fun i => (i, job)) ++
        ownedFrom buf (job + 1) count := by
  rw [ownedFrom, List.range'_succ, List.flatMap_cons]
  rfl

theorem restOf_loaded (job index : Nat) :
    restOf buf jobs (loadJob buf job index) = ownedFrom buf job (jobs - job) := by
  change (if job < jobs then _ else _) = _
  by_cases inside : job < jobs
  · rw [if_pos inside, show jobs - job = jobs - (job + 1) + 1 by omega, ownedFrom_succ]
    rfl
  · rw [if_neg inside, show jobs - job = 0 by omega]
    rfl

theorem restOf_load {c : Cursor} (inside : c.job < jobs) (none : ¬0 < c.num) :
    restOf buf jobs c = restOf buf jobs (loadJob buf (c.job + 1) c.index) := by
  rw [restOf_loaded, restOf, if_pos inside, show c.num = 0 by omega]
  rfl

theorem restOf_done {c : Cursor} (done : ¬c.job < jobs) : restOf buf jobs c = [] := if_neg done

structure Fills (keyMatch : Bool) (m : Memory) (buf : SearchBuf) (jobs : Nat) (all done : List (Nat × Nat)) (c : Cursor)
    (s : PlainState) (next : Cursor × PlainState) (answers : List (Nat × Answer)) : Prop where
  moved : c.job ≤ next.1.job
  result : ∃ front, restOf buf jobs c = front ++ restOf buf jobs next.1 ∧ answers = front.map (given keyMatch m buf) ∧
    (next.2.aborted = true ∧ (¬∀ e ∈ all, ∀ l ∈ tries keyMatch m buf e, FitsFrame keyMatch m l) ∨
      next.2.aborted = s.aborted ∧ Sofar keyMatch m buf all (done ++ front) next.2.out.records next.2.m ∧ Filled next.2)

theorem Fills.stay {c : Cursor} {s next : PlainState} (aborted : next.aborted = s.aborted)
    (sofar : Sofar keyMatch m buf all done next.out.records next.m) (long : Filled next) :
    Fills keyMatch m buf jobs all done c s (c, next) [] := by
  refine ⟨Nat.le_refl _, [], rfl, rfl, .inr ⟨aborted, ?_, long⟩⟩
  rw [List.append_nil]
  exact sofar

theorem Fills.serve {c : Cursor} {s served : PlainState} (inside : c.job < jobs) (some : 0 < c.num)
    (same : served.aborted = s.aborted) (out : served.out = answered keyMatch m buf s.out (c.jobIndex, c.job))
    {next : Cursor × PlainState} {answers : List (Nat × Answer)}
    (fills : Fills keyMatch m buf jobs all (done ++ [(c.jobIndex, c.job)])
      { c with num := c.num - 1, jobIndex := c.jobIndex + 1 } served next answers) :
    Fills keyMatch m buf jobs all done c s next ((c.jobIndex, answerGiven s served) :: answers) := by
  obtain ⟨front, rest, answers, result⟩ := fills.result
  refine ⟨fills.moved, (c.jobIndex, c.job) :: front, ?_, ?_, ?_⟩
  · rw [restOf_serve inside some, rest]
    rfl
  · rw [answers, List.map_cons, ← answered_given out]
  · rw [same, List.append_assoc] at result
    exact result

theorem Fills.load {c : Cursor} {s : PlainState} (inside : c.job < jobs) (none : ¬0 < c.num)
    {next : Cursor × PlainState} {answers : List (Nat × Answer)}
    (fills : Fills keyMatch m buf jobs all done (loadJob buf (c.job + 1) c.index) s next answers) :
    Fills keyMatch m buf jobs all done c s next answers := by
  obtain ⟨front, rest, result⟩ := fills.result
  refine ⟨Nat.le_of_succ_le fills.moved, front, ?_, result⟩
  rw [restOf_load inside none, rest]

theorem fillPacket_fills (c : Cursor) (s : PlainState) (sofar : Sofar keyMatch m buf all done s.out.records s.m)
    (long : Filled s) (left : all = done ++ restOf buf jobs c) :
    Fills keyMatch m buf jobs all done c s (fillPacket keyMatch buf jobs c s) (fillTrace keyMatch buf jobs c s) := by
  induction c, s using fillPacket.induct keyMatch buf jobs generalizing done with
  | case1 c s _ inside =>
    rename_i other
    rw [fillPacket, fillTrace, if_pos inside, if_pos inside, if_pos other, if_pos other]
    exact .stay rfl sofar long
  | case2 c s _ inside same some served goesOn =>
    rename_i ih
    have rest := @restOf_serve buf jobs c inside some
    have member : (c.jobIndex, c.job) ∈ all := by
      rw [left, rest]
      exact List.mem_append_right _ List.mem_cons_self
    have serves := @serveIndex_serves keyMatch m buf s (c.jobIndex, c.job) sofar.slabs
    dsimp only at serves
    rw [fillPacket, fillTrace, if_pos inside, if_pos inside, if_neg same, if_neg same, if_pos some, if_pos some]
    generalize result : serveIndex keyMatch buf s c.jobIndex c.job = next at serves
    rw [show served = next from result] at goesOn ih
    simp only [if_pos goesOn]
    cases serves with
    | aborts => cases goesOn
    | exceeds => cases goesOn
    | answers s' aborted touched out room =>
      have header : eiuHdrLen ≤ s.out.current.length := Nat.le_of_add_right_le long
      apply Fills.serve inside some aborted out
      apply ih
      · dsimp only
        rw [out, answered_records]
        exact sofar.answers member touched fun l tried => (room l tried).less header
      · unfold Filled
        dsimp only
        rw [out]
        exact answered_filled long
      · rw [left, rest, List.append_assoc]
        rfl
  | case3 c s _ inside same some served =>
    rename_i stops
    have member : (c.jobIndex, c.job) ∈ all := by
      rw [left, @restOf_serve buf jobs c inside some]
      exact List.mem_append_right _ List.mem_cons_self
    have serves := @serveIndex_serves keyMatch m buf s (c.jobIndex, c.job) sofar.slabs
    dsimp only at serves
    rw [fillPacket, fillTrace, if_pos inside, if_pos inside, if_neg same, if_neg same, if_pos some, if_pos some]
    generalize result : serveIndex keyMatch buf s c.jobIndex c.job = next at serves
    rw [show served = next from result] at stops
    simp only [if_neg stops]
    cases serves with
    | aborts s' aborted outside =>
      exact ⟨Nat.le_refl _, [], rfl, rfl, .inl ⟨aborted, fun fits => outside (fits _ member)⟩⟩
    | exceeds s' kept front some touched long' =>
      have sofar := sofar.exceeds member some touched
      rw [← kept.out] at sofar
      apply Fills.stay kept.aborted sofar
      unfold Filled
      rw [kept.out]
      exact long
    | answers => exact absurd rfl stops
  | case4 c s _ inside same none =>
    rename_i ih
    rw [fillPacket, fillTrace, if_pos inside, if_pos inside, if_neg same, if_neg same, if_neg none, if_neg none]
    apply Fills.load inside none
    apply ih sofar long
    rw [left, restOf_load inside none]
  | case5 c s outside =>
    rw [fillPacket, fillTrace, if_neg outside, if_neg outside]
    exact .stay rfl sofar long

def toGo (buf : SearchBuf) (jobs : Nat) (c : Cursor) : Nat := (restOf buf jobs c).length + (jobs - c.job)

theorem Fills.toGo_le {c : Cursor} {s : PlainState} {next : Cursor × PlainState} {answers : List (Nat × Answer)}
    (fills : Fills keyMatch m buf jobs all done c s next answers) : toGo buf jobs next.1 ≤ toGo buf jobs c := by
  obtain ⟨front, rest, _⟩ := fills.result
  have moved := fills.moved
  rw [toGo, toGo, rest, List.length_append]
  omega

/-- An empty packet takes a search of its client at least, or all searches of the job have been answered. -/
theorem fillPacket_moves {c : Cursor} {s : PlainState} (sofar : Sofar keyMatch m buf all done s.out.records s.m)
    (long : Filled s) (left : all = done ++ restOf buf jobs c) (inside : c.job < jobs)
    (fits : ∀ e ∈ all, ∀ l ∈ tries keyMatch m buf e, FitsFrame keyMatch m l)
    (fresh : s.out.current = startPacket (buf.searchJobList c.job)) :
    toGo buf jobs (fillPacket keyMatch buf jobs c s).1 < toGo buf jobs c := by
  have same : (buf.searchJobList c.job).ip = s.out.current.ip ∧ (buf.searchJobList c.job).port = s.out.current.port := by
    rw [fresh]
    exact ⟨rfl, rfl⟩
  have header : s.out.current.length = eiuHdrLen := by
    rw [fresh]
    rfl
  by_cases some : 0 < c.num
  · have rest := @restOf_serve buf jobs c inside some
    have member : (c.jobIndex, c.job) ∈ all := by
      rw [left, rest]
      exact List.mem_append_right _ List.mem_cons_self
    have serves := @serveIndex_serves keyMatch m buf s (c.jobIndex, c.job) sofar.slabs
    dsimp only at serves
    generalize result : serveIndex keyMatch buf s c.jobIndex c.job = next at serves
    cases serves with
    | aborts s' aborted outside => exact absurd (fits _ member) outside
    | exceeds s' kept front some touched long' => exact absurd (fits _ member) (long' header)
    | answers s' aborted touched out room =>
      have step := sofar.answers member touched (fits _ member)
      rw [← answered_records, ← out] at step
      rw [fillPacket_serve inside same some result]
      have fills := fillPacket_fills { c with num := c.num - 1, jobIndex := c.jobIndex + 1 } s' step
        (by
          unfold Filled
          rw [out]
          exact answered_filled long)
        (by
          rw [left, rest, List.append_assoc]
          rfl)
      apply Nat.lt_of_le_of_lt fills.toGo_le
      rw [toGo, toGo, rest, List.length_cons]
      dsimp only
      omega
  · rw [fillPacket_next inside same some]
    have rest := @restOf_load buf jobs c inside some
    have fills := fillPacket_fills (loadJob buf (c.job + 1) c.index) s sofar long (by rw [left, rest])
    apply Nat.lt_of_le_of_lt fills.toGo_le
    rw [toGo, toGo, rest]
    exact Nat.add_lt_add_left (Nat.sub_lt_sub_left inside (Nat.lt_succ_self _)) _

end Fill

section Run

variable {keyMatch : Bool} {m : Memory} {buf : SearchBuf} {jobs : Nat} {all done : List (Nat × Nat)} {run : PlainRun}

structure RunSofar (keyMatch : Bool) (m : Memory) (buf : SearchBuf) (jobs : Nat) (all done : List (Nat × Nat))
    (run : PlainRun) : Prop where
  left : all = done ++ restOf buf jobs run.cursor
  sofar : Sofar keyMatch m buf all done (run.state.out.packets.flatMap Packet.records) run.state.m
  answers : run.answers = done.map (given keyMatch m buf)

theorem closed_packets {out : Output} {jobsLeft : Bool}
    (long : eiuHdrLen + out.current.records.length ≤ out.current.length) :
    (out.closePacket.closeChunk jobsLeft).packets.flatMap Packet.records = out.records := by
  have chunk : (out.closePacket.closeChunk jobsLeft).packets = out.closePacket.packets := by
    unfold Output.closeChunk
    split <;> rfl
  rw [chunk, Output.closePacket]
  by_cases content : eiuHdrLen < out.current.length
  · rw [if_pos content]
    rfl
  · have none : out.current.records = [] := List.length_eq_zero_iff.mp (by omega)
    rw [if_neg content, Output.records_eq, none, List.append_nil]

theorem opened_sofar (sofar : RunSofar keyMatch m buf jobs all done run) (job : SearchJob) :
    Sofar keyMatch m buf all done { run.state.out with current := startPacket job }.records run.state.m := by
  have records : { run.state.out with current := startPacket job }.records =
      run.state.out.packets.flatMap Packet.records := by
    rw [Output.records_eq]
    exact List.append_nil _
  rw [records]
  exact sofar.sofar

/-- One more packet: a failed assertion, or more entries answered. -/
theorem packet_sofar (sofar : RunSofar keyMatch m buf jobs all done run) :
    (run.packet keyMatch buf jobs).state.aborted = true ∧ (¬∀ e ∈ all, ∀ l ∈ tries keyMatch m buf e, FitsFrame keyMatch m l) ∨
      (run.packet keyMatch buf jobs).state.aborted = run.state.aborted ∧
        ∃ front, RunSofar keyMatch m buf jobs all (done ++ front) (run.packet keyMatch buf jobs) := by
  have fills := fillPacket_fills run.cursor
    { run.state with out := { run.state.out with current := startPacket (buf.searchJobList run.cursor.job) } }
    (opened_sofar sofar _) (Nat.le_refl _) sofar.left
  obtain ⟨front, rest, answers, stopped | ⟨running, sofar', long⟩⟩ := fills.result
  · exact .inl stopped
  · refine .inr ⟨running, front, ?_, ?_, ?_⟩
    · rw [sofar.left, rest, List.append_assoc]
      rfl
    · rw [← closed_packets long] at sofar'
      exact sofar'
    · rw [List.map_append, ← sofar.answers, ← answers]
      rfl

theorem packet_toGo (sofar : RunSofar keyMatch m buf jobs all done run) (inside : run.cursor.job < jobs)
    (fits : ∀ e ∈ all, ∀ l ∈ tries keyMatch m buf e, FitsFrame keyMatch m l) :
    toGo buf jobs (run.packet keyMatch buf jobs).cursor < toGo buf jobs run.cursor :=
  fillPacket_moves (opened_sofar sofar _) (Nat.le_refl _) sofar.left inside fits rfl

theorem plainRun_sofar (packets : Nat) (sofar : RunSofar keyMatch m buf jobs all done run) :
    (plainRun keyMatch buf jobs packets run).state.aborted = true ∨
      ∃ front, RunSofar keyMatch m buf jobs all (done ++ front) (plainRun keyMatch buf jobs packets run) := by
  induction packets generalizing run done with
  | zero => exact .inr ⟨[], by rw [List.append_nil]; exact sofar⟩
  | succ packets ih =>
    rw [plainRun]
    by_cases more : run.cursor.job < jobs ∧ run.state.aborted = false
    · rw [if_pos more]
      rcases packet_sofar sofar with ⟨stopped, _⟩ | ⟨running, front, next⟩
      · left
        cases packets with
        | zero => exact stopped
        | succ packets =>
          rw [plainRun, if_neg (fun goes => by rw [stopped] at goes; cases goes.2)]
          exact stopped
      · rcases ih next with stopped | ⟨later, final⟩
        · exact .inl stopped
        · rw [List.append_assoc] at final
          exact .inr ⟨_, final⟩
    · rw [if_neg more]
      exact .inr ⟨[], by rw [List.append_nil]; exact sofar⟩

/-- Where each item fits an empty packet, the loop ends. -/
theorem plainRun_ends (bound : Nat) (sofar : RunSofar keyMatch m buf jobs all done run)
    (fits : ∀ e ∈ all, ∀ l ∈ tries keyMatch m buf e, FitsFrame keyMatch m l) (running : run.state.aborted = false)
    (few : toGo buf jobs run.cursor ≤ bound) : (plainRun keyMatch buf jobs bound run).ended jobs := by
  induction bound generalizing run done with
  | zero =>
    have near : jobs - run.cursor.job = 0 := Nat.eq_zero_of_add_eq_zero_left (Nat.le_zero.mp few)
    exact ⟨Nat.sub_eq_zero_iff_le.mp near, running⟩
  | succ bound ih =>
    rw [plainRun]
    by_cases inside : run.cursor.job < jobs
    · rw [if_pos ⟨inside, running⟩]
      have less := packet_toGo sofar inside fits
      rcases packet_sofar sofar with ⟨_, unfit⟩ | ⟨same, front, next⟩
      · exact absurd fits unfit
      · exact ih next (same.trans running) (by omega)
    · rw [if_neg (fun more => inside more.1)]
      exact ⟨Nat.not_lt.mp inside, running⟩

end Run

section Batch

variable (build : Build) (m : Memory) (buf : SearchBuf) (hit miss totalBytes totalPackets : Nat)

/-- `sendPlain` with the position it stops at and the answers it gives. -/
def plainBatch (packets : Nat) : PlainRun :=
  plainRun build.keyMatch buf (totalCnt build buf) packets
    { cursor := loadJob buf (firstJob build) 0
      state := { m := m, out := startOutput (buf.searchJobList (firstJob build)) hit miss totalBytes totalPackets, aborted := false }
      answers := [] }

variable {build m buf hit miss totalBytes totalPackets} {packets : Nat}

theorem plainBatch_state :
    (plainBatch build m buf hit miss totalBytes totalPackets packets).state =
      sendPlain build m buf hit miss totalBytes totalPackets packets := plainRun_state _ _ _ _ _

theorem plainBatch_start :
    RunSofar build.keyMatch m buf (totalCnt build buf) (ownedIn build buf) []
      (plainBatch build m buf hit miss totalBytes totalPackets 0) := by
  refine ⟨?_, .none _ m buf _, rfl⟩
  change ownedIn build buf = restOf buf (totalCnt build buf) (loadJob buf (firstJob build) 0)
  rw [restOf_loaded, totalCnt, Nat.add_sub_cancel_left]
  rfl

/-- When the loop has ended, each entry has got its answer. -/
theorem plainBatch_ended
    (ended : (plainBatch build m buf hit miss totalBytes totalPackets packets).ended (totalCnt build buf)) :
    Sofar build.keyMatch m buf (ownedIn build buf) (ownedIn build buf)
        ((plainBatch build m buf hit miss totalBytes totalPackets packets).state.out.packets.flatMap Packet.records)
        (plainBatch build m buf hit miss totalBytes totalPackets packets).state.m ∧
      (plainBatch build m buf hit miss totalBytes totalPackets packets).answers =
        (ownedIn build buf).map (given build.keyMatch m buf) := by
  have reached := plainRun_sofar packets (@plainBatch_start build m buf hit miss totalBytes totalPackets)
  change (plainBatch build m buf hit miss totalBytes totalPackets packets).state.aborted = true ∨
    ∃ front, RunSofar _ m buf _ _ _ (plainBatch build m buf hit miss totalBytes totalPackets packets) at reached
  rcases reached with stopped | ⟨front, final⟩
  · exact absurd (stopped.symm.trans ended.2) (by decide)
  · have all := final.left
    rw [restOf_done (Nat.not_lt.mpr ended.1), List.append_nil] at all
    rw [← all] at final
    exact ⟨final.sofar, final.answers⟩

theorem plainBatch_ends
    (fits : ∀ e ∈ ownedIn build buf, ∀ l ∈ tries build.keyMatch m buf e, FitsFrame build.keyMatch m l) :
    ∃ packets, (plainBatch build m buf hit miss totalBytes totalPackets packets).ended (totalCnt build buf) :=
  ⟨_, plainRun_ends _ plainBatch_start fits rfl (Nat.le_refl _)⟩

end Batch

end MegaKV.Sender
