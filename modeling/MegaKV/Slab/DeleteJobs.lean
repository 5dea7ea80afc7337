import MegaKV.Slab.FreeLists

namespace MegaKV.Slab

open Library

section Jobs

def counts (bufs : DeleteBufs) (id : Nat) : Nat := (bufs id).numDeleteJob

def Counted (bufs : DeleteBufs) (job : Hash.DElem) : Prop :=
  ∃ id k, k < (bufs id).numDeleteJob ∧ (bufs id).deleteIn k = job

def DeleteBuf.write (buf : DeleteBuf) (job : Hash.DElem) : DeleteBuf :=
  { buf with deleteIn := Function.update buf.deleteIn buf.numDeleteJob job }

def DeleteBuf.count (buf : DeleteBuf) : DeleteBuf := { buf with numDeleteJob := buf.numDeleteJob + 1 }

variable {bufs : DeleteBufs}

theorem counted_write (id : Nat) (written job : Hash.DElem) :
    Counted (Function.update bufs id ((bufs id).write written)) job ↔ Counted bufs job := by
  have same : ∀ other k, k < (bufs other).numDeleteJob →
      (Function.update bufs id ((bufs id).write written) other).deleteIn k = (bufs other).deleteIn k := by
    intro other k below
    by_cases here : other = id
    · subst here
      rw [Function.update_self]
      exact Function.update_of_ne (Nat.ne_of_lt below) _ _
    · rw [Function.update_of_ne here]
  have size : ∀ other, (Function.update bufs id ((bufs id).write written) other).numDeleteJob =
      (bufs other).numDeleteJob := by
    intro other
    by_cases here : other = id
    · subst here
      rw [Function.update_self]
      rfl
    · rw [Function.update_of_ne here]
  constructor
  · intro given
    rcases given with ⟨other, k, below, equal⟩
    rw [size] at below
    exact ⟨other, k, below, (same other k below).symm.trans equal⟩
  · intro given
    rcases given with ⟨other, k, below, equal⟩
    exact ⟨other, k, (size other).symm ▸ below, (same other k below).trans equal⟩

theorem counted_count (id : Nat) (recorded job : Hash.DElem) :
    Counted (Function.update bufs id ((bufs id).write recorded).count) job ↔ Counted bufs job ∨ job = recorded := by
  constructor
  · intro given
    rcases given with ⟨other, k, below, equal⟩
    by_cases here : other = id
    · subst here
      rw [Function.update_self] at below equal
      by_cases last : k = (bufs other).numDeleteJob
      · subst last
        exact .inr (equal.symm.trans (Function.update_self _ _ _))
      · have older : k < (bufs other).numDeleteJob := Nat.lt_of_le_of_ne (Nat.lt_succ_iff.mp below) last
        exact .inl ⟨other, k, older, (Function.update_of_ne last _ _).symm.trans equal⟩
    · rw [Function.update_of_ne here] at below equal
      exact .inl ⟨other, k, below, equal⟩
  · intro either
    rcases either with ⟨other, k, below, equal⟩ | rfl
    · by_cases here : other = id
      · subst here
        refine ⟨other, k, ?_, ?_⟩
        · rw [Function.update_self]
          exact Nat.lt_succ_of_lt below
        · rw [Function.update_self]
          exact (Function.update_of_ne (Nat.ne_of_lt below) _ _).trans equal
      · refine ⟨other, k, ?_, ?_⟩ <;> rw [Function.update_of_ne here]
        · exact below
        · exact equal
    · refine ⟨id, (bufs id).numDeleteJob, ?_, ?_⟩
      · rw [Function.update_self]
        exact Nat.lt_succ_self _
      · rw [Function.update_self]
        exact Function.update_self _ _ _

theorem counts_count (id : Nat) (recorded : Hash.DElem) :
    counts (Function.update bufs id ((bufs id).write recorded).count) =
      Function.update (counts bufs) id (counts bufs id + 1) := by
  funext other
  by_cases here : other = id
  · subst here
    simp [counts, DeleteBuf.count, DeleteBuf.write]
  · simp [counts, here]

end Jobs

section Attempts

/-- One attempt to record a delete job: the offset of the item at its first attempt, and the
    buffer. -/
abbrev Attempt := Option Nat × Nat

def attemptList (p : Slabclass) (id : Nat) (heap : Ptr → Item) (attempts : Nat → Attempts) :
    Nat → List Nat → List Attempt
  | _, [] => []
  | i, offset :: rest =>
    if (heap (itemAt p id offset)).flags = 0 then
      (some offset, (attempts i).first) ::
        ((attempts i).again.map (fun b => (none, b)) ++ attemptList p id heap attempts (i + 1) rest)
    else attemptList p id heap attempts (i + 1) rest

def RoomAfter (counts : Nat → Nat) (before : List Attempt) (b : Nat) : Prop :=
  counts b + (before.map Prod.snd).count b + 1 < batchMaxDeleteJob

/-- The first attempt without room, if there is one, is no item's first attempt, except where
    the job of that item is counted already. -/
def Covered (counts : Nat → Nat) (already : Nat → Prop) (list : List Attempt) : Prop :=
  ∀ before o b after, list = before ++ (some o, b) :: after →
    (∀ front c rest, before = front ++ c :: rest → RoomAfter counts front c.2) →
    RoomAfter counts before b ∨ already o

variable {already : Nat → Prop}

theorem roomAfter_cons (counts : Nat → Nat) (attempt : Attempt) (before : List Attempt) (b : Nat) :
    RoomAfter counts (attempt :: before) b ↔
      RoomAfter (Function.update counts attempt.2 (counts attempt.2 + 1)) before b := by
  simp only [RoomAfter, List.map_cons, List.count_cons]
  by_cases here : attempt.2 = b
  · subst here
    simp only [BEq.rfl, ite_true, Function.update_self]
    omega
  · have other : b ≠ attempt.2 := fun same => here same.symm
    simp only [Function.update_of_ne other, beq_eq_false_iff_ne.mpr here]
    simp

theorem roomAfter_nil (counts : Nat → Nat) (b : Nat) :
    RoomAfter counts [] b ↔ counts b + 1 < batchMaxDeleteJob := by
  simp [RoomAfter]

theorem covered_nil (counts : Nat → Nat) : Covered counts already [] := by
  intro before o b after split
  simp at split

theorem covered_cons (counts : Nat → Nat) (victim : Option Nat) (b : Nat) (rest : List Attempt) :
    Covered counts already ((victim, b) :: rest) ↔
      (∀ o, victim = some o → counts b + 1 < batchMaxDeleteJob ∨ already o) ∧
        (counts b + 1 < batchMaxDeleteJob → Covered (Function.update counts b (counts b + 1)) already rest) := by
  constructor
  · intro covered
    constructor
    · intro o same
      subst same
      have first := covered [] o b rest rfl (by simp)
      rwa [roomAfter_nil] at first
    · intro room before o c after split roomy
      have later := covered ((victim, b) :: before) o c after (by rw [split, List.cons_append]) ?_
      · rwa [roomAfter_cons] at later
      · intro front attempt tail halves
        cases front with
        | nil =>
          cases halves
          exact (roomAfter_nil counts b).mpr room
        | cons head front =>
          cases halves
          exact (roomAfter_cons counts (victim, b) front attempt.2).mpr (roomy front attempt tail rfl)
  · intro given before o c after split roomy
    rcases given with ⟨first, later⟩
    cases before with
    | nil =>
      cases split
      exact (first o rfl).imp_left (roomAfter_nil counts b).mpr
    | cons head before =>
      cases split
      have room := (roomAfter_nil counts b).mp (roomy [] (victim, b) before rfl)
      have covered := later room before o c after rfl ?_
      · exact covered.imp_left (roomAfter_cons counts (victim, b) before c).mpr
      · intro front attempt tail halves
        exact (roomAfter_cons counts (victim, b) front attempt.2).mp
          (roomy ((victim, b) :: front) attempt tail (by rw [halves, List.cons_append]))

end Attempts

section Record

variable {bufs bufs' : DeleteBufs} {offset : Nat} {it : Item} {already : Nat → Prop}

theorem recordDelete_room {b : Nat} {again : List Nat} (located : offset = ((it.loc <<< slabIdBits) % 2 ^ 32) >>> slabIdBits)
    (room : counts bufs b + 1 < batchMaxDeleteJob) :
    recordDelete offset it (b :: again) bufs =
      recordDelete offset it again (Function.update bufs b ((bufs b).write (deleteJob it)).count) := by
  have open1 : ¬batchMaxDeleteJob ≤ (bufs b).numDeleteJob := Nat.not_le.mpr (Nat.lt_of_succ_lt room)
  have open2 : ¬batchMaxDeleteJob ≤ (bufs b).numDeleteJob + 1 := Nat.not_le.mpr room
  rw [recordDelete, if_neg open1, if_pos located, if_neg open2]
  rfl

theorem recordDelete_full {b : Nat} (again : List Nat) (located : offset = ((it.loc <<< slabIdBits) % 2 ^ 32) >>> slabIdBits)
    (full : ¬counts bufs b + 1 < batchMaxDeleteJob) :
    ∃ bufs', recordDelete offset it (b :: again) bufs = .ok (bufs', true) ∧
      ∀ job, Counted bufs' job ↔ Counted bufs job := by
  by_cases saturated : batchMaxDeleteJob ≤ (bufs b).numDeleteJob
  · exact ⟨bufs, by rw [recordDelete, if_pos saturated], fun _ => Iff.rfl⟩
  · have last : batchMaxDeleteJob ≤ (bufs b).numDeleteJob + 1 := Nat.not_lt.mp full
    refine ⟨Function.update bufs b ((bufs b).write (deleteJob it)), ?_, counted_write b (deleteJob it)⟩
    rw [recordDelete, if_neg saturated, if_pos located, if_pos last]
    rfl

/-- The retries record the same job again and never leave the list of attempts uncovered. -/
theorem recordDelete_again (already : Nat → Prop) (rest : List Attempt) {ids : List Nat} {broke : Bool}
    (located : offset = ((it.loc <<< slabIdBits) % 2 ^ 32) >>> slabIdBits)
    (result : recordDelete offset it ids bufs = .ok (bufs', broke)) :
    (∀ job, Counted bufs job → Counted bufs' job) ∧
      (∀ job, Counted bufs' job → Counted bufs job ∨ job = deleteJob it) ∧
      (broke = true → Covered (counts bufs) already (ids.map (fun b => (none, b)) ++ rest)) ∧
      (broke = false → (Covered (counts bufs) already (ids.map (fun b => (none, b)) ++ rest) ↔
        Covered (counts bufs') already rest)) := by
  induction ids generalizing bufs with
  | nil =>
    cases result
    exact ⟨fun _ counted => counted, fun _ counted => .inl counted, by simp, fun _ => Iff.rfl⟩
  | cons b again ih =>
    rw [List.map_cons, List.cons_append, covered_cons]
    by_cases room : counts bufs b + 1 < batchMaxDeleteJob
    · rw [recordDelete_room located room] at result
      obtain ⟨grows, only, stopped, went⟩ := ih result
      rw [counts_count] at stopped went
      refine ⟨?_, ?_, ?_, ?_⟩
      · intro job counted
        exact grows job ((counted_count b _ job).mpr (.inl counted))
      · intro job counted
        rcases only job counted with before | same
        · exact (counted_count b _ job).mp before
        · exact .inr same
      · exact fun left => ⟨by simp, fun _ => stopped left⟩
      · intro left
        rw [← went left]
        exact ⟨fun covered => covered.2 room, fun covered => ⟨by simp, fun _ => covered⟩⟩
    · obtain ⟨unchanged, full, same⟩ := recordDelete_full again located room
      rw [full] at result
      cases result
      exact ⟨fun job => (same job).mpr, fun job counted => .inl ((same job).mp counted),
        fun _ => ⟨by simp, fun impossible => absurd impossible room⟩, by simp⟩

theorem recordDelete_victim (rest : List Attempt) {tries : Attempts} {broke : Bool}
    (located : offset = ((it.loc <<< slabIdBits) % 2 ^ 32) >>> slabIdBits)
    (known : Counted bufs (deleteJob it) ↔ already offset)
    (result : recordDelete offset it tries.ids bufs = .ok (bufs', broke)) :
    (∀ job, Counted bufs job → Counted bufs' job) ∧
      (∀ job, Counted bufs' job → Counted bufs job ∨ job = deleteJob it) ∧
      (broke = true → (Counted bufs' (deleteJob it) ↔ Covered (counts bufs) already
        ((some offset, tries.first) :: (tries.again.map (fun b => (none, b)) ++ rest)))) ∧
      (broke = false → Counted bufs' (deleteJob it) ∧ (Covered (counts bufs) already
        ((some offset, tries.first) :: (tries.again.map (fun b => (none, b)) ++ rest)) ↔
          Covered (counts bufs') already rest)) := by
  rw [Attempts.ids] at result
  rw [covered_cons]
  by_cases room : counts bufs tries.first + 1 < batchMaxDeleteJob
  · rw [recordDelete_room located room] at result
    obtain ⟨grows, only, stopped, went⟩ := recordDelete_again already rest located result
    have recorded := grows _ ((counted_count tries.first (deleteJob it) _).mpr (.inr rfl))
    rw [counts_count] at stopped went
    refine ⟨?_, ?_, ?_, ?_⟩
    · intro job counted
      exact grows job ((counted_count _ _ job).mpr (.inl counted))
    · intro job counted
      rcases only job counted with before | same
      · exact (counted_count _ _ job).mp before
      · exact .inr same
    · exact fun left => ⟨fun _ => ⟨fun _ _ => .inl room, fun _ => stopped left⟩, fun _ => recorded⟩
    · intro left
      rw [← went left]
      exact ⟨recorded, fun covered => covered.2 room, fun covered => ⟨fun _ _ => .inl room, fun _ => covered⟩⟩
  · obtain ⟨unchanged, full, same⟩ := recordDelete_full tries.again located room
    rw [full] at result
    cases result
    refine ⟨fun job => (same job).mpr, fun job counted => .inl ((same job).mp counted), fun _ => ?_, by simp⟩
    rw [same, known]
    constructor
    · intro counted
      refine ⟨?_, fun impossible => absurd impossible room⟩
      intro o equal
      cases equal
      exact .inr counted
    · exact fun covered => (covered.1 offset rfl).resolve_left room

end Record

section Loop

variable {p : Slabclass} {id : Nat} {before : Ptr → Item} {attempts : Nat → Attempts} {already : Nat → Prop}

theorem deleteJob_congr {left right : Item} (loc : left.loc = right.loc) (data : left.data = right.data) :
    deleteJob left = deleteJob right := by
  simp only [deleteJob, loc, data]

/-- Offset `o` is the offset of an item whose location is as the allocator assigned it. -/
def Located (p : Slabclass) (id : Nat) (heap : Ptr → Item) (o : Nat) : Prop :=
  (heap (itemAt p id o)).loc = id * 2 ^ 29 + o ∧ o < 2 ^ 28

theorem Located.offset {o : Nat} (located : Located p id before o) :
    o = (((before (itemAt p id o)).loc <<< slabIdBits) % 2 ^ 32) >>> slabIdBits := by
  obtain ⟨loc, bound⟩ := located
  rw [loc, slabIdBits, Nat.shiftLeft_eq, Nat.shiftRight_eq_div_pow]
  omega

theorem Located.job_inj {o other : Nat} (valid : id ≤ powerLargest) (left : Located p id before o)
    (right : Located p id before other)
    (same : deleteJob (before (itemAt p id o)) = deleteJob (before (itemAt p id other))) : o = other := by
  have small : id ≤ 7 := valid
  have locs := congrArg (fun job => job.loc.toNat) same
  simp only [deleteJob, BitVec.toNat_ofNat, left.1, right.1] at locs
  have low := left.2
  have high := right.2
  omega

structure Pending (p : Slabclass) (id : Nat) (before : Ptr → Item) (already : Nat → Prop) (offsets : List Nat)
    (eviction : Eviction) (nodes : List Ptr) : Prop where
  evicted : Evicted p id before eviction nodes
  distinct : offsets.Nodup
  located : ∀ o ∈ offsets, o < perslab * p.slabs → Located p id before o
  fresh : ∀ o ∈ offsets, o < perslab * p.slabs → itemAt p id o ∉ nodes
  known : ∀ o ∈ offsets, o < perslab * p.slabs →
    (Counted eviction.bufs (deleteJob (before (itemAt p id o))) ↔ already o)

variable {offset : Nat} {offsets : List Nat} {eviction : Eviction} {nodes : List Ptr}

theorem Pending.tail (pending : Pending p id before already (offset :: offsets) eviction nodes) :
    Pending p id before already offsets eviction nodes :=
  ⟨pending.evicted, (List.nodup_cons.mp pending.distinct).2,
    fun o member => pending.located o (List.mem_cons_of_mem offset member),
    fun o member => pending.fresh o (List.mem_cons_of_mem offset member),
    fun o member => pending.known o (List.mem_cons_of_mem offset member)⟩

theorem Pending.record (valid : id ≤ powerLargest)
    (pending : Pending p id before already (offset :: offsets) eviction nodes) (inside : offset < perslab * p.slabs)
    (used : (eviction.heap (itemAt p id offset)).flags = 0) {bufs : DeleteBufs}
    (grows : ∀ job, Counted eviction.bufs job → Counted bufs job)
    (only : ∀ job, Counted bufs job →
      Counted eviction.bufs job ∨ job = deleteJob (before (itemAt p id offset))) :
    Pending p id before already offsets { eviction.free (itemAt p id offset) with bufs := bufs }
      (itemAt p id offset :: nodes) := by
  have here := pending.located offset List.mem_cons_self inside
  have others : ∀ o ∈ offsets, o < perslab * p.slabs →
      deleteJob (before (itemAt p id o)) ≠ deleteJob (before (itemAt p id offset)) := by
    intro o member bound equal
    have same := (pending.tail.located o member bound).job_inj valid here equal
    exact (List.nodup_cons.mp pending.distinct).1 (same ▸ member)
  refine ⟨(pending.evicted.add inside used).record bufs, pending.tail.distinct, pending.tail.located, ?_, ?_⟩
  · intro o member bound listed
    rcases List.mem_cons.mp listed with equal | older
    · exact others o member bound (by rw [equal])
    · exact pending.tail.fresh o member bound older
  · intro o member bound
    rw [← pending.tail.known o member bound]
    constructor
    · intro afterwards
      rcases only _ afterwards with before | equal
      · exact before
      · exact absurd equal (others o member bound)
    · exact grows _

/-- One victim of the loop: its job ends up counted unless its first attempt finds no room. -/
theorem Pending.victim (pending : Pending p id before already (offset :: offsets) eviction nodes)
    (inside : offset < perslab * p.slabs) (used : (eviction.heap (itemAt p id offset)).flags = 0)
    (rest : List Attempt) {tries : Attempts} {bufs : DeleteBufs} {broke : Bool}
    (result : recordDelete offset ((eviction.free (itemAt p id offset)).heap (itemAt p id offset)) tries.ids
      eviction.bufs = .ok (bufs, broke)) :
    (∀ job, Counted eviction.bufs job → Counted bufs job) ∧
      (∀ job, Counted bufs job → Counted eviction.bufs job ∨ job = deleteJob (before (itemAt p id offset))) ∧
      (broke = true → (Counted bufs (deleteJob (before (itemAt p id offset))) ↔ Covered (counts eviction.bufs) already
        ((some offset, tries.first) :: (tries.again.map (fun b => (none, b)) ++ rest)))) ∧
      (broke = false → Counted bufs (deleteJob (before (itemAt p id offset))) ∧
        (Covered (counts eviction.bufs) already
          ((some offset, tries.first) :: (tries.again.map (fun b => (none, b)) ++ rest)) ↔
            Covered (counts bufs) already rest)) := by
  have added := pending.evicted.add inside used
  have job := deleteJob_congr (added.loc (itemAt p id offset)) (added.data (itemAt p id offset))
  have place := (pending.located offset List.mem_cons_self inside).offset
  rw [← added.loc] at place
  have counted := pending.known offset List.mem_cons_self inside
  rw [← job] at counted ⊢
  exact recordDelete_victim rest place counted result

theorem evictLoop_covered (valid : id ≤ powerLargest) {i : Nat} {after : Eviction}
    (pending : Pending p id before already offsets eviction nodes)
    (result : evictLoop p id attempts i offsets eviction = .ok after) :
    ∃ later, Evicted p id before after later ∧ (∀ q ∈ nodes, q ∈ later) ∧
      (∀ job, Counted eviction.bufs job → Counted after.bufs job) ∧
      ((∀ q ∈ later, q ∉ nodes → Counted after.bufs (deleteJob (before q))) ↔
        Covered (counts eviction.bufs) already (attemptList p id before attempts i offsets)) := by
  induction offsets generalizing i eviction nodes with
  | nil =>
    cases result
    exact ⟨nodes, pending.evicted, fun _ member => member, fun _ counted => counted,
      fun _ => covered_nil _, fun _ q member other => absurd member other⟩
  | cons offset rest ih =>
    simp only [evictLoop] at result
    split at result
    · rename_i inside
      have outside := pending.fresh offset List.mem_cons_self inside
      have same := pending.evicted.frame _ outside
      split at result
      · rename_i unused
        rw [same] at unused
        rw [attemptList, if_neg unused]
        exact ih pending.tail result
      · rename_i used
        have used := Decidable.not_not.mp used
        have free := used
        rw [same] at free
        rw [attemptList, if_pos free]
        split at result
        · contradiction
        · rename_i bufs record
          cases result
          obtain ⟨grows, _, stopped, _⟩ :=
            pending.victim inside used (attemptList p id before attempts (i + 1) rest) record
          refine ⟨_, (pending.evicted.add inside used).record bufs, fun q member => List.mem_cons_of_mem _ member,
            grows, ?_⟩
          rw [← stopped rfl]
          constructor
          · exact fun all => all _ List.mem_cons_self outside
          · intro recorded q member old
            rcases List.mem_cons.mp member with rfl | listed
            · exact recorded
            · exact absurd listed old
        · rename_i bufs record
          obtain ⟨grows, only, _, went⟩ :=
            pending.victim inside used (attemptList p id before attempts (i + 1) rest) record
          obtain ⟨recorded, covered⟩ := went rfl
          obtain ⟨final, finished, kept, monotone, iff⟩ := ih (pending.record valid inside used grows only) result
          refine ⟨final, finished, fun q member => kept q (List.mem_cons_of_mem _ member),
            fun other recordedBefore => monotone other (grows other recordedBefore), ?_⟩
          rw [covered, ← iff]
          constructor
          · exact fun all q member unlisted => all q member (fun old => unlisted (List.mem_cons_of_mem _ old))
          · intro all q member old
            by_cases this : q = itemAt p id offset
            · rw [this]
              exact monotone _ recorded
            · exact all q member (fun listed => (List.mem_cons.mp listed).elim this old)
    · contradiction

end Loop

section Calls

variable {m m' : Memory} {id : Nat} {supply : Supply} {attempts : Nat → Attempts} {bufs bufs' : DeleteBufs}

theorem evictItems_covered (sound : m.Sound) (valid : id ≤ powerLargest) {offsetArray : List Nat} {bitmap : Bitmap}
    {head : Option Ptr} (batch : bitmapEvictBatch (m.slabclass id).bitmap evictBatchSize = some (offsetArray, bitmap))
    (result : evictItems id attempts m bufs = .ok (head, m', bufs')) :
    (∀ nodes, Chain (fun q => (m'.heap q).next) head nodes → ∀ q ∈ nodes, Counted bufs' (deleteJob (m.heap q))) ↔
      Covered (counts bufs) (fun o => Counted bufs (deleteJob (m.heap (m.item id o))))
        (attemptList (m.slabclass id) id m.heap attempts 0 offsetArray) := by
  simp only [evictItems, batch] at result
  split at result
  · contradiction
  · rename_i eviction loop
    split at result
    · contradiction
    · rename_i some
      cases result
      have start := Evicted.start (m.slabclass id) id m.heap bufs
      have used : 0 < (m.slabclass id).slabs := by
        obtain ⟨nodes, linked⟩ := evictLoop_evicted start loop
        rw [linked.count] at some
        obtain ⟨first, member⟩ := List.exists_mem_of_length_pos (Nat.pos_of_ne_zero some)
        obtain ⟨o, bound, _⟩ := linked.inside first member
        by_contra none
        rw [Nat.eq_zero_of_not_pos none] at bound
        exact absurd bound (Nat.not_lt_zero o)
      have current := sound.slabs id
      have distinct := (sound.reached id).evict_nodup (by omega) (by decide) (by simp only [evictBatchSize]; omega) batch
      have pending : Pending (m.slabclass id) id m.heap (fun o => Counted bufs (deleteJob (m.heap (m.item id o))))
          offsetArray { heap := m.heap, itList := none, evictCnt := 0, bufs := bufs } [] :=
        ⟨start, distinct, fun o _ bound => ⟨sound.loc id o ⟨valid, bound⟩, sound.offset_lt ⟨valid, bound⟩⟩,
          fun _ _ _ => List.not_mem_nil, fun _ _ _ => Iff.rfl⟩
      obtain ⟨later, evicted, _, _, covered⟩ := evictLoop_covered valid pending loop
      rw [← covered]
      constructor
      · exact fun all q member _ => all later evicted.chain q member
      · intro all others chain q member
        rw [chain.unique evicted.chain] at member
        exact all q member (by simp)

/-- The memory at which the eviction of a call starts: the memory is full, or a new slab cannot
    be had. -/
inductive Evicts (supply : Supply) (id : Nat) (m : Memory) : Memory → Prop
  | full (full : m.memoryFull = true) : Evicts supply id m m
  | fills {filled : Memory} (free : m.memoryFull = false)
      (result : slabsAllocBatch supply id m = .ok (none, filled)) : Evicts supply id m filled

theorem itemAllocRounds_full (sound : m.Sound) (valid : id ≤ powerLargest) (full : m.memoryFull = true) {rounds : Nat}
    {head : Ptr} (result : itemAllocRounds supply attempts id (rounds + 1) m bufs = .ok (some head, m', bufs')) :
    evictItems id attempts m bufs = .ok (some head, m', bufs') := by
  rw [itemAllocRounds, if_pos full] at result
  split at result
  · contradiction
  · rename_i evicted
    obtain ⟨nodes, nonempty, refilled⟩ := evictItems_refilled sound valid evicted
    exact absurd refilled.chain.nil_of_none nonempty
  · rename_i evicted
    rw [evicted, result]

theorem Evicts.evicted (sound : m.Sound) (valid : id ≤ powerLargest) {filled : Memory}
    (path : Evicts supply id m filled) {head : Ptr}
    (result : itemAllocRounds supply attempts id 2 m bufs = .ok (some head, m', bufs')) :
    filled.Sound ∧ evictItems id attempts filled bufs = .ok (some head, m', bufs') := by
  cases path with
  | full full => exact ⟨sound, itemAllocRounds_full sound valid full result⟩
  | fills free alloc =>
    obtain ⟨full, _, next⟩ := slabsAllocBatch_none sound valid alloc
    rw [itemAllocRounds, if_neg (by simp [free]), alloc] at result
    exact ⟨next, itemAllocRounds_full next valid full result⟩

theorem evicted_jobs_counted_iff (m filled m' : Memory) (sound : m.Sound) (supply : Supply) (attempts : Nat → Attempts)
    (kvsize id : Nat) (found : slabsClsid ((sizeofItem + kvsize) % 2 ^ 32) = .ok (some id))
    (path : Evicts supply id m filled) (offsetArray : List Nat) (bitmap : Bitmap)
    (batch : bitmapEvictBatch (filled.slabclass id).bitmap evictBatchSize = some (offsetArray, bitmap))
    (bufs bufs' : DeleteBufs) (head : Ptr)
    (result : itemAllocBatch supply attempts kvsize m bufs = .ok (some head, m', bufs')) :
    (∀ nodes, Chain (fun q => (m'.heap q).next) (some head) nodes →
      ∀ q ∈ nodes, Counted bufs' (deleteJob (filled.heap q))) ↔
      Covered (counts bufs) (fun o => Counted bufs (deleteJob (filled.heap (filled.item id o))))
        (attemptList (filled.slabclass id) id filled.heap attempts 0 offsetArray) := by
  have valid := slabsClsid_le found
  rw [itemAllocBatch, found] at result
  obtain ⟨next, evicted⟩ := path.evicted sound valid result
  exact evictItems_covered next valid batch evicted

end Calls

section Saturated

/-- One slab of the smallest class, its second chunk in use, and no memory for more slabs. -/
def fullMemory : Memory := { (handOut 0 ⟨0, 40⟩ firstMemory firstBatch).1 with memoryFull := true }

theorem fullMemory_sound : fullMemory.Sound := by
  have held := held_initial (s := startState) ⟨⟨emptyBitmap, fun _ => emptyItem, rfl, rfl⟩, fun _ _ => rfl⟩
  obtain ⟨_, _, _, _, _, _, _, _, _, _, _, _, _, after⟩ := @batchAlloc_held _ _ _ _ _ held 0 _ _ _ _ _ _ startBatch_alloc
  exact ⟨after.sound.loc, after.sound.clsid, after.sound.block, after.sound.reached, after.sound.size,
    after.sound.slabs, after.sound.zero⟩

/-- Where no bit is clear yet the hand stops at one offset after the other. -/
theorem fresh_offsets {bitmap : Bitmap} (fresh : ∀ word, bitmap.map word = BitVec.allOnes 64) (start : bitmap.walker = 0)
    (current : 0 < bitmap.currentSize) {k : Nat} (inside : k ≤ span bitmap) :
    Clock.offsets (span bitmap) k (clock bitmap) = List.range k := by
  have hand : (clock bitmap).hand = 0 := congrArg (64 * ·) start
  have positive : 0 < span bitmap := Nat.mul_pos (by decide) current
  rw [Clock.offsets_eq _ _ (hand ▸ positive), hand]
  have due : ∀ t ∈ List.range k, Clock.due (span bitmap) (clock bitmap) t = true := by
    intro t member
    have below : t < span bitmap := (List.mem_range.mp member).trans_le inside
    have bit : (clock bitmap).bits t = true := by
      simp only [clock, fresh, BitVec.getLsbD_allOnes]
      exact decide_eq_true (Nat.mod_lt t (by decide))
    rw [Clock.due, hand, Nat.zero_add, Nat.mod_eq_of_lt below, Nat.div_eq_of_lt below, bit]
    rfl
  rw [List.filter_eq_self.mpr due]
  have same : ∀ t ∈ List.range k, (0 + t) % span bitmap = id t := by
    intro t member
    rw [Nat.zero_add]
    exact Nat.mod_eq_of_lt ((List.mem_range.mp member).trans_le inside)
  rw [List.map_congr_left same, List.map_id]

/-- The first batch of a class are the first chunks of its first slab. -/
theorem fresh_evict {bitmap : Bitmap} (valid : bitmap.Valid) (fresh : ∀ word, bitmap.map word = BitVec.allOnes 64)
    (start : bitmap.walker = 0) (large : perslab ≤ span bitmap) :
    ∃ rest next, bitmapEvictBatch bitmap evictBatchSize = some (0 :: 1 :: rest, next) ∧
      ∀ o ∈ rest, o < perslab ∧ o ≠ 1 := by
  have chunks : perslab = 32768 := rfl
  have current : 0 < bitmap.currentSize := by
    simp only [span] at large
    omega
  have offsets : ∀ words ≤ 8, Clock.offsets (span bitmap) (64 * words) (clock bitmap) = List.range (64 * words) := by
    intro words few
    exact fresh_offsets fresh start current (by omega)
  have here : StopsAt bitmap evictBatchSize 8 := by
    constructor
    · rw [offsets 8 (Nat.le_refl 8), List.length_range]
      decide
    · intro earlier before
      rw [offsets earlier (Nat.le_of_lt before), List.length_range, evictBatchSize]
      omega
  have batch := bitmapEvictBatch_eq valid current (by decide) here
  rw [offsets 8 (Nat.le_refl 8), List.range_eq_range'] at batch
  refine ⟨List.range' 2 510, _, batch, ?_⟩
  intro o member
  obtain ⟨low, high⟩ := List.mem_range'_1.mp member
  omega

theorem firstClass_evict : ∃ rest next, bitmapEvictBatch firstClass.bitmap evictBatchSize = some (0 :: 1 :: rest, next) ∧
    ∀ o ∈ rest, o < perslab ∧ o ≠ 1 := by
  have reached : Reached firstClass.bitmap :=
    .step (.update perslab) (.init slabclassMaxElemNum (by decide) rfl) ⟨by decide, by decide, by decide⟩ rfl
  exact fresh_evict reached.valid (fun _ => rfl) rfl (by decide)

theorem fullMemory_other (o : Nat) (chunk : o < perslab) (other : o ≠ 1) :
    (fullMemory.heap (fullMemory.item 0 o)).flags = itemFree := by
  have item : fullMemory.item 0 o = (⟨startMemory.blocks, 0⟩ : Ptr).add (slabSize 0 * o) := by
    have slab : o / 2 ^ perslabBits = 0 := Nat.div_eq_of_lt chunk
    have position : o % 2 ^ perslabBits = o := Nat.mod_eq_of_lt chunk
    simp only [Memory.item, itemAt, slab, position]
    rfl
  have different : (⟨startMemory.blocks, 0⟩ : Ptr).add (slabSize 0 * o) ≠ ⟨0, 40⟩ := by
    intro same
    have bytes := congrArg Ptr.byte same
    simp only [Ptr.add, slabSize_zero] at bytes
    omega
  have header := @newSlab_heap startMemory 0 firstClass (by decide) o chunk
  rw [item]
  exact (congrArg Item.flags ((Function.update_of_ne different _ _).trans header))

section Steps

variable {p : Slabclass} {id i offset : Nat} {attempts : Nat → Attempts} {rest : List Nat} {eviction : Eviction}

theorem evictLoop_busy (inside : offset < perslab * p.slabs) (busy : (eviction.heap (itemAt p id offset)).flags ≠ 0) :
    evictLoop p id attempts i (offset :: rest) eviction = evictLoop p id attempts (i + 1) rest eviction := by
  rw [evictLoop, if_pos inside]
  simp only [if_pos busy]

theorem evictLoop_stopped {it : Ptr} {bufs : DeleteBufs} (inside : offset < perslab * p.slabs)
    (item : itemAt p id offset = it) (used : (eviction.heap it).flags = 0)
    (record : recordDelete offset ((eviction.free it).heap it) (attempts i).ids eviction.bufs = .ok (bufs, true)) :
    evictLoop p id attempts i (offset :: rest) eviction = .ok { eviction.free it with bufs := bufs } := by
  subst item
  have same : (eviction.free (itemAt p id offset)).bufs = eviction.bufs := rfl
  rw [evictLoop, if_pos inside]
  simp only [used, ne_eq, not_true_eq_false, ite_false, same, record]

theorem evictLoop_recorded {it : Ptr} {bufs : DeleteBufs} (inside : offset < perslab * p.slabs)
    (item : itemAt p id offset = it) (used : (eviction.heap it).flags = 0)
    (record : recordDelete offset ((eviction.free it).heap it) (attempts i).ids eviction.bufs = .ok (bufs, false)) :
    evictLoop p id attempts i (offset :: rest) eviction =
      evictLoop p id attempts (i + 1) rest { eviction.free it with bufs := bufs } := by
  subst item
  have same : (eviction.free (itemAt p id offset)).bufs = eviction.bufs := rfl
  rw [evictLoop, if_pos inside]
  simp only [used, ne_eq, not_true_eq_false, ite_false, same, record]

theorem evictLoop_skip (busy : ∀ o ∈ rest, o < perslab * p.slabs ∧ (eviction.heap (itemAt p id o)).flags ≠ 0) :
    evictLoop p id attempts i rest eviction = .ok eviction := by
  induction rest generalizing i with
  | nil => rfl
  | cons offset rest ih =>
    obtain ⟨inside, flags⟩ := busy offset List.mem_cons_self
    rw [evictLoop_busy inside flags]
    exact ih (fun o member => busy o (List.mem_cons_of_mem offset member))

end Steps

def buffered (jobs : Nat) : DeleteBufs := fun _ => { numDeleteJob := jobs, deleteIn := fun _ => ⟨0, 0, 0⟩ }

/-- Of the first slab of the smallest class only the second chunk is in use. -/
structure SecondUsed (p : Slabclass) (heap : Ptr → Item) : Prop where
  slabs : 0 < p.slabs
  item : itemAt p 0 1 = ⟨0, 40⟩
  used : (heap ⟨0, 40⟩).flags = 0
  loc : (heap ⟨0, 40⟩).loc = 1
  others : ∀ o < perslab, o ≠ 1 → (heap (itemAt p 0 o)).flags = itemFree

section SecondUsed

variable {p : Slabclass} {eviction : Eviction} {attempts : Nat → Attempts} {rest : List Nat}

theorem SecondUsed.busy {heap : Ptr → Item} (second : SecondUsed p heap) {o : Nat} (chunk : o < perslab) (other : o ≠ 1) :
    (heap (itemAt p 0 o)).flags ≠ 0 := by
  rw [second.others o chunk other]
  exact Nat.one_ne_zero

theorem SecondUsed.located (second : SecondUsed p eviction.heap) :
    1 = ((((eviction.free ⟨0, 40⟩).heap ⟨0, 40⟩).loc <<< slabIdBits) % 2 ^ 32) >>> slabIdBits := by
  simp only [Eviction.free, Function.update_self]
  rw [second.loc]
  decide

/-- The loop evicts that one item, whether it breaks off there or not. -/
theorem SecondUsed.loop (second : SecondUsed p eviction.heap) (others : ∀ o ∈ rest, o < perslab ∧ o ≠ 1)
    {bufs : DeleteBufs} {broke : Bool}
    (record : recordDelete 1 ((eviction.free ⟨0, 40⟩).heap ⟨0, 40⟩) (attempts 1).ids eviction.bufs = .ok (bufs, broke)) :
    evictLoop p 0 attempts 0 (0 :: 1 :: rest) eviction = .ok { eviction.free ⟨0, 40⟩ with bufs := bufs } := by
  have inside : ∀ o < perslab, o < perslab * p.slabs :=
    fun o chunk => chunk.trans_le (Nat.le_mul_of_pos_right perslab second.slabs)
  rw [evictLoop_busy (inside 0 (by decide)) (second.busy (by decide) (by decide))]
  cases broke with
  | true => exact evictLoop_stopped (inside 1 (by decide)) second.item second.used record
  | false =>
    rw [evictLoop_recorded (inside 1 (by decide)) second.item second.used record]
    apply evictLoop_skip
    intro o member
    obtain ⟨chunk, other⟩ := others o member
    have unused := second.busy chunk other
    have different : itemAt p 0 o ≠ ⟨0, 40⟩ := by
      intro same
      rw [same] at unused
      exact unused second.used
    refine ⟨inside o chunk, ?_⟩
    simp only [Eviction.free, Function.update_of_ne different]
    exact unused

end SecondUsed

theorem fullMemory_second : SecondUsed (fullMemory.slabclass 0) fullMemory.heap := by
  refine ⟨by decide, rfl, ?_, ?_, fullMemory_other⟩
  · simp only [fullMemory, handOut, Function.update_self]
  · simp only [fullMemory, handOut, Function.update_self, firstMemory_item]
    rfl

theorem fullMemory_loop {eviction : Eviction} (heap : eviction.heap = fullMemory.heap) (count : eviction.evictCnt = 0)
    {rest : List Nat} (others : ∀ o ∈ rest, o < perslab ∧ o ≠ 1) :
    ∃ after, evictLoop (fullMemory.slabclass 0) 0 calm 0 (0 :: 1 :: rest) eviction = .ok after ∧
      after.itList = some ⟨0, 40⟩ ∧ after.evictCnt = 1 := by
  have second : SecondUsed (fullMemory.slabclass 0) eviction.heap := heap ▸ fullMemory_second
  obtain ⟨bufs, broke, record⟩ : ∃ bufs broke,
      recordDelete 1 ((eviction.free ⟨0, 40⟩).heap ⟨0, 40⟩) (calm 1).ids eviction.bufs = .ok (bufs, broke) := by
    by_cases room : counts eviction.bufs 0 + 1 < batchMaxDeleteJob
    · exact ⟨_, _, recordDelete_room second.located room⟩
    · obtain ⟨bufs, full, _⟩ := recordDelete_full [] second.located room
      exact ⟨bufs, true, full⟩
  exact ⟨_, second.loop others record, rfl, congrArg (· + 1) count⟩

theorem evictItems_of {m : Memory} {id : Nat} {attempts : Nat → Attempts} {bufs : DeleteBufs} {offsetArray : List Nat}
    {bitmap : Bitmap} {after : Eviction}
    (batch : bitmapEvictBatch (m.slabclass id).bitmap evictBatchSize = some (offsetArray, bitmap))
    (loop : evictLoop (m.slabclass id) id attempts 0 offsetArray
      { heap := m.heap, itList := none, evictCnt := 0, bufs := bufs } = .ok after) (some : after.evictCnt ≠ 0) :
    ∃ m', evictItems id attempts m bufs = .ok (after.itList, m', after.bufs) ∧ m'.heap = after.heap := by
  refine ⟨{ m.setClass id { m.slabclass id with bitmap := bitmap } with heap := after.heap }, ?_, rfl⟩
  simp only [evictItems, batch, loop, if_neg some]

theorem SecondUsed.evicts {m : Memory} (second : SecondUsed (m.slabclass 0) m.heap) {rest : List Nat} {next : Bitmap}
    (batch : bitmapEvictBatch (m.slabclass 0).bitmap evictBatchSize = some (0 :: 1 :: rest, next))
    (others : ∀ o ∈ rest, o < perslab ∧ o ≠ 1) {bufs : DeleteBufs} (room : counts bufs 0 + 1 < batchMaxDeleteJob) :
    ∃ m', evictItems 0 calm m bufs = .ok (some ⟨0, 40⟩, m',
        Function.update bufs 0 ((bufs 0).write (deleteJob (m.heap ⟨0, 40⟩))).count) ∧
      (m'.heap ⟨0, 40⟩).loc = 1 := by
  let start : Eviction := { heap := m.heap, itList := none, evictCnt := 0, bufs := bufs }
  have freed : (start.free ⟨0, 40⟩).heap ⟨0, 40⟩ = { m.heap ⟨0, 40⟩ with flags := itemFree, next := none } := by
    simp only [start, Eviction.free, Function.update_self]
  have job : deleteJob ((start.free ⟨0, 40⟩).heap ⟨0, 40⟩) = deleteJob (m.heap ⟨0, 40⟩) := by rw [freed]; rfl
  have used : SecondUsed (m.slabclass 0) start.heap := second
  have record : recordDelete 1 ((start.free ⟨0, 40⟩).heap ⟨0, 40⟩) (calm 1).ids start.bufs = .ok (_, false) :=
    recordDelete_room used.located room
  obtain ⟨m', result, heap⟩ := evictItems_of batch (used.loop others record) Nat.one_ne_zero
  refine ⟨m', ?_, ?_⟩
  · rw [← job]
    exact result
  · rw [heap]
    exact (congrArg Item.loc freed).trans second.loc

theorem SecondUsed.kept {m m' : Memory} (second : SecondUsed (m.slabclass 0) m.heap)
    (slabs : (m'.slabclass 0).slabs = (m.slabclass 0).slabs) (slabList : (m'.slabclass 0).slabList = (m.slabclass 0).slabList)
    (flags : ∀ q, (m'.heap q).flags = (m.heap q).flags) (loc : ∀ q, (m'.heap q).loc = (m.heap q).loc) :
    SecondUsed (m'.slabclass 0) m'.heap := by
  have item : ∀ o, itemAt (m'.slabclass 0) 0 o = itemAt (m.slabclass 0) 0 o := by
    intro o
    simp only [itemAt, slabList]
  refine ⟨slabs ▸ second.slabs, (item 1).trans second.item, (flags _).trans second.used, (loc _).trans second.loc, ?_⟩
  intro o chunk other
  rw [item, flags]
  exact second.others o chunk other

theorem fullMemory_evicts (jobs : Nat) : ∃ m' bufs',
    evictItems 0 calm fullMemory (buffered jobs) = .ok (some ⟨0, 40⟩, m', bufs') ∧
      itemAllocBatch ampleSupply calm 16 fullMemory (buffered jobs) = .ok (some ⟨0, 40⟩, m', bufs') := by
  obtain ⟨rest, next, batch, others⟩ := firstClass_evict
  obtain ⟨after, loop, list, count⟩ := @fullMemory_loop
    { heap := fullMemory.heap, itList := none, evictCnt := 0, bufs := buffered jobs } rfl rfl rest others
  have found : slabsClsid ((sizeofItem + 16) % 2 ^ 32) = .ok (some 0) := slabsClsid_first (by decide) (by decide)
  have full : fullMemory.memoryFull = true := rfl
  obtain ⟨m', evicted, _⟩ := @evictItems_of fullMemory 0 calm (buffered jobs) _ next _ batch loop (by rw [count]; decide)
  rw [list] at evicted
  have round : itemAllocRounds ampleSupply calm 0 2 fullMemory (buffered jobs) = .ok (some ⟨0, 40⟩, m', after.bufs) := by
    rw [itemAllocRounds, if_pos full, evicted]
  refine ⟨m', after.bufs, evicted, ?_⟩
  rw [itemAllocBatch, found]
  exact round

theorem attemptList_busy {p : Slabclass} {id i : Nat} {heap : Ptr → Item} {attempts : Nat → Attempts} {rest : List Nat}
    (busy : ∀ o ∈ rest, (heap (itemAt p id o)).flags ≠ 0) : attemptList p id heap attempts i rest = [] := by
  induction rest generalizing i with
  | nil => rfl
  | cons offset rest ih =>
    rw [attemptList, if_neg (busy offset List.mem_cons_self)]
    exact ih (fun o member => busy o (List.mem_cons_of_mem offset member))

theorem fullMemory_attempts {rest : List Nat} (others : ∀ o ∈ rest, o < perslab ∧ o ≠ 1) :
    attemptList (fullMemory.slabclass 0) 0 fullMemory.heap calm 0 (0 :: 1 :: rest) = [(some 1, 0)] := by
  have busy : ∀ o ∈ rest, (fullMemory.heap (itemAt (fullMemory.slabclass 0) 0 o)).flags ≠ 0 :=
    fun o member => fullMemory_second.busy (others o member).1 (others o member).2
  have used : (fullMemory.heap (itemAt (fullMemory.slabclass 0) 0 1)).flags = 0 := by
    rw [fullMemory_second.item]
    exact fullMemory_second.used
  rw [attemptList, if_neg (fullMemory_second.busy (by decide) (by decide)), attemptList, if_pos used,
    attemptList_busy busy]
  rfl

theorem evicted_jobs_counted_iff_empty : fullMemory.Sound ∧ ∃ m' bufs',
    itemAllocBatch ampleSupply calm 16 fullMemory (buffered 0) = .ok (some ⟨0, 40⟩, m', bufs') ∧
      ∀ nodes, Chain (fun q => (m'.heap q).next) (some ⟨0, 40⟩) nodes →
        ∀ q ∈ nodes, Counted bufs' (deleteJob (fullMemory.heap q)) := by
  obtain ⟨m', bufs', _, result⟩ := fullMemory_evicts 0
  obtain ⟨rest, next, batch, others⟩ := firstClass_evict
  have found : slabsClsid ((sizeofItem + 16) % 2 ^ 32) = .ok (some 0) := slabsClsid_first (by decide) (by decide)
  have condition := evicted_jobs_counted_iff fullMemory fullMemory m' fullMemory_sound ampleSupply calm 16 0 found
    (.full rfl) _ next batch (buffered 0) bufs' ⟨0, 40⟩ result
  rw [fullMemory_attempts others, covered_cons] at condition
  refine ⟨fullMemory_sound, m', bufs', result, condition.mpr ⟨fun _ _ => .inl ?_, fun _ => covered_nil _⟩⟩
  decide

/-- With 4095 jobs in the buffer, its most, the one evicted item is freed and its job is not counted. -/
theorem evicted_job_lost : fullMemory.Sound ∧ ∃ m' bufs',
    itemAllocBatch ampleSupply calm 16 fullMemory (buffered 4095) = .ok (some ⟨0, 40⟩, m', bufs') ∧
      ¬∀ nodes, Chain (fun q => (m'.heap q).next) (some ⟨0, 40⟩) nodes →
        ∀ q ∈ nodes, Counted bufs' (deleteJob (fullMemory.heap q)) := by
  obtain ⟨m', bufs', evicted, result⟩ := fullMemory_evicts 4095
  obtain ⟨rest, next, batch, others⟩ := firstClass_evict
  have condition := evictItems_covered fullMemory_sound (show 0 ≤ powerLargest by decide) batch evicted
  rw [fullMemory_attempts others, covered_cons] at condition
  refine ⟨fullMemory_sound, m', bufs', result, ?_⟩
  rw [condition]
  intro given
  rcases given with ⟨first, _⟩
  rcases first 1 rfl with room | ⟨b, k, _, job⟩
  · exact absurd room (by decide)
  · have locs := congrArg (fun job => job.loc) job
    have loc : (fullMemory.heap (fullMemory.item 0 1)).loc = 1 := by
      rw [Memory.item, fullMemory_second.item]
      exact fullMemory_second.loc
    simp only [deleteJob, loc, buffered] at locs
    exact absurd locs (by decide)

end Saturated

end MegaKV.Slab
