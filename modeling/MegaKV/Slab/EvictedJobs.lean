import MegaKV.Slab.DeleteJobs

namespace MegaKV.Slab

open Library

/-- The jobs a delete kernel would read from the buffer. -/
def DeleteBuf.jobs (buf : DeleteBuf) : List Hash.DElem := (List.range buf.numDeleteJob).map buf.deleteIn

def settled (b : Nat) : Nat → Attempts := fun _ => ⟨b, []⟩

/-- The jobs counted in buffer `b` since `start` are jobs of the evicted items `nodes`. -/
structure Records (before : Ptr → Item) (b : Nat) (start now : DeleteBufs) (nodes : List Ptr)
    (jobs : List Hash.DElem) : Prop where
  counted : (now b).jobs = (start b).jobs ++ jobs
  room : jobs ≠ [] → (now b).numDeleteJob < batchMaxDeleteJob
  others : ∀ c ≠ b, now c = start c
  evicted : ∀ job ∈ jobs, ∃ q ∈ nodes, job = deleteJob (before q)

section Buffer

variable {buf : DeleteBuf} {job : Hash.DElem}

theorem DeleteBuf.jobs_length (buf : DeleteBuf) : buf.jobs.length = buf.numDeleteJob := by
  rw [jobs, List.length_map, List.length_range]

theorem DeleteBuf.written (buf : DeleteBuf) (job : Hash.DElem) :
    (List.range buf.numDeleteJob).map (Function.update buf.deleteIn buf.numDeleteJob job) = buf.jobs := by
  apply List.map_congr_left
  intro k member
  rw [Function.update_of_ne (Nat.ne_of_lt (List.mem_range.mp member))]

theorem DeleteBuf.counted_jobs (buf : DeleteBuf) (job : Hash.DElem) : (buf.write job).count.jobs = buf.jobs ++ [job] := by
  simp only [jobs, DeleteBuf.write, DeleteBuf.count, List.range_succ, List.map_append, List.map_cons, List.map_nil,
    Function.update_self]
  rw [buf.written]
  rfl

theorem recordDelete_one {offset b : Nat} {it : Item} {bufs bufs' : DeleteBufs} {left : Bool}
    (result : recordDelete offset it [b] bufs = .ok (bufs', left)) :
    (∀ c ≠ b, bufs' c = bufs c) ∧
      ((bufs' b).jobs = (bufs b).jobs ∨
        (bufs' b).jobs = (bufs b).jobs ++ [deleteJob it] ∧ (bufs' b).numDeleteJob < batchMaxDeleteJob) := by
  simp only [recordDelete] at result
  split at result
  · cases result
    exact ⟨fun _ _ => rfl, .inl rfl⟩
  · split at result
    · split at result
      · cases result
        refine ⟨fun c other => Function.update_of_ne other _ _, .inl ?_⟩
        rw [Function.update_self]
        exact (bufs b).written (deleteJob it)
      · rename_i room
        cases result
        refine ⟨fun c other => Function.update_of_ne other _ _, .inr ⟨?_, ?_⟩⟩
        · rw [Function.update_self]
          exact (bufs b).counted_jobs (deleteJob it)
        · rw [Function.update_self]
          exact Nat.not_le.mp room
    · contradiction

end Buffer

section Loop

variable {p : Slabclass} {id : Nat} {before : Ptr → Item} {b i : Nat} {start : DeleteBufs} {eviction after : Eviction}
  {nodes : List Ptr} {jobs : List Hash.DElem}

theorem Records.nothing (before : Ptr → Item) (b : Nat) (bufs : DeleteBufs) : Records before b bufs bufs [] [] :=
  ⟨(List.append_nil _).symm, fun impossible => absurd rfl impossible, fun _ _ => rfl, by simp⟩

theorem Records.evict {now bufs : DeleteBufs} (records : Records before b start now nodes jobs) {offset : Nat} {q : Ptr}
    {it : Item} {left : Bool} (same : deleteJob it = deleteJob (before q))
    (result : recordDelete offset it [b] now = .ok (bufs, left)) :
    ∃ more, Records before b start bufs (q :: nodes) more := by
  obtain ⟨others, counted⟩ := recordDelete_one result
  have older : ∀ job ∈ jobs, ∃ r ∈ q :: nodes, job = deleteJob (before r) := by
    intro job member
    obtain ⟨r, evicted, made⟩ := records.evicted job member
    exact ⟨r, List.mem_cons_of_mem q evicted, made⟩
  have kept : ∀ c ≠ b, bufs c = start c := fun c other => (others c other).trans (records.others c other)
  rcases counted with unchanged | ⟨longer, room⟩
  · have count : (bufs b).numDeleteJob = (now b).numDeleteJob := by
      rw [← (bufs b).jobs_length, unchanged, (now b).jobs_length]
    refine ⟨jobs, unchanged.trans records.counted, ?_, kept, older⟩
    rw [count]
    exact records.room
  · refine ⟨jobs ++ [deleteJob it], ?_, fun _ => room, kept, ?_⟩
    · rw [longer, records.counted, List.append_assoc]
    · intro job member
      rcases List.mem_append.mp member with old | new
      · exact older job old
      · exact ⟨q, List.mem_cons_self, (List.mem_singleton.mp new).trans same⟩

theorem evictLoop_records {offsets : List Nat} (evicted : Evicted p id before eviction nodes)
    (records : Records before b start eviction.bufs nodes jobs)
    (result : evictLoop p id (settled b) i offsets eviction = .ok after) :
    ∃ later more, Evicted p id before after later ∧ Records before b start after.bufs later more := by
  induction offsets generalizing i eviction nodes jobs with
  | nil =>
    cases result
    exact ⟨nodes, jobs, evicted, records⟩
  | cons offset rest ih =>
    simp only [evictLoop] at result
    split at result
    · rename_i inside
      split at result
      · exact ih evicted records result
      · rename_i unused
        have added := evicted.add inside (Decidable.not_not.mp unused)
        have same := deleteJob_congr (added.loc (itemAt p id offset)) (added.data (itemAt p id offset))
        split at result
        · contradiction
        · rename_i bufs recorded
          cases result
          obtain ⟨more, records⟩ := records.evict same recorded
          exact ⟨_, more, added.record bufs, records⟩
        · rename_i bufs recorded
          obtain ⟨more, records⟩ := records.evict same recorded
          exact ih (added.record bufs) records result
    · contradiction

end Loop

section Calls

variable {m m' : Memory} {id b : Nat} {bufs bufs' : DeleteBufs} {head : Option Ptr} {nodes : List Ptr}

/-- A new free list and the jobs of those of its items that were evicted for it. -/
structure RefilledFor (m m' : Memory) (id : Nat) (head : Option Ptr) (b : Nat) (bufs bufs' : DeleteBufs)
    (nodes : List Ptr) (jobs : List Hash.DElem) : Prop where
  refilled : Refilled m m' id head nodes
  records : Records m.heap b bufs bufs' nodes jobs
  loc : ∀ job ∈ jobs, ∃ q ∈ nodes, job = deleteJob (m.heap q) ∧ (m.heap q).flags = 0 ∧
    (m'.heap q).loc = (m.heap q).loc

theorem evictItems_records (sound : m.Sound) (valid : id ≤ powerLargest)
    (result : evictItems id (settled b) m bufs = .ok (head, m', bufs')) :
    ∃ nodes jobs, nodes ≠ [] ∧ RefilledFor m m' id head b bufs bufs' nodes jobs := by
  obtain ⟨nodes, nonempty, refilled⟩ := evictItems_refilled sound valid result
  simp only [evictItems] at result
  split at result
  · contradiction
  · split at result
    · contradiction
    · rename_i eviction loop
      split at result
      · contradiction
      · cases result
        obtain ⟨later, jobs, evicted, records⟩ :=
          evictLoop_records (Evicted.start _ _ _ _) (Records.nothing m.heap b bufs) loop
        have same : later = nodes := evicted.chain.unique refilled.chain
        subst same
        refine ⟨later, jobs, nonempty, refilled, records, ?_⟩
        intro job member
        obtain ⟨q, listed, made⟩ := records.evicted job member
        exact ⟨q, listed, made, evicted.used q listed, evicted.loc q⟩

theorem RefilledFor.after {m'' : Memory} {jobs : List Hash.DElem} (same : m.SameItems m')
    (refilled : RefilledFor m' m'' id head b bufs bufs' nodes jobs) :
    RefilledFor m m'' id head b bufs bufs' nodes jobs := by
  refine ⟨refilled.refilled.after same, ?_, ?_⟩
  · rw [← same.heap]
    exact refilled.records
  · rw [← same.heap]
    exact refilled.loc

theorem itemAllocRounds_records {rounds : Nat} (sound : m.Sound) (valid : id ≤ powerLargest) {supply : Supply}
    (result : itemAllocRounds supply (settled b) id rounds m bufs = .ok (head, m', bufs')) :
    ∃ nodes jobs, nodes ≠ [] ∧ RefilledFor m m' id head b bufs bufs' nodes jobs := by
  induction rounds generalizing m bufs with
  | zero => contradiction
  | succ rounds ih =>
    simp only [itemAllocRounds] at result
    split at result
    · split at result
      · contradiction
      · rename_i evicted
        obtain ⟨nodes, nonempty, refilled⟩ := evictItems_refilled sound valid evicted
        exact absurd refilled.chain.nil_of_none nonempty
      · rename_i evicted
        cases result
        exact evictItems_records sound valid evicted
    · split at result
      · contradiction
      · rename_i alloc
        obtain ⟨_, same, next⟩ := slabsAllocBatch_none sound valid alloc
        obtain ⟨nodes, jobs, nonempty, refilled⟩ := ih next result
        exact ⟨nodes, jobs, nonempty, refilled.after same⟩
      · rename_i alloc
        cases result
        obtain ⟨nodes, refilled⟩ := slabsAllocBatch_some sound valid alloc
        refine ⟨nodes, [], ?_, refilled, ⟨(List.append_nil _).symm, fun none => absurd rfl none, fun _ _ => rfl, by simp⟩,
          by simp⟩
        intro empty
        subst empty
        exact absurd refilled.chain (by simp [Chain])

theorem itemAllocBatch_records (sound : m.Sound) {supply : Supply} {kvsize : Nat}
    (result : itemAllocBatch supply (settled b) kvsize m bufs = .ok (head, m', bufs')) :
    (head = none ∧ m' = m ∧ bufs' = bufs) ∨
      ∃ id nodes jobs, nodes ≠ [] ∧ RefilledFor m m' id head b bufs bufs' nodes jobs := by
  simp only [itemAllocBatch] at result
  split at result
  · contradiction
  · cases result
    exact .inl ⟨rfl, rfl, rfl⟩
  · rename_i id found
    obtain ⟨nodes, jobs, nonempty, refilled⟩ := itemAllocRounds_records sound (slabsClsid_le found) result
    exact .inr ⟨id, nodes, jobs, nonempty, refilled⟩

end Calls

end MegaKV.Slab
