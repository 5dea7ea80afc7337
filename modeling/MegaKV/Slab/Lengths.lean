import MegaKV.Slab.Exhaustion

namespace MegaKV.Slab

open Library

section Lengths

def SameLengths (before after : Ptr → Item) : Prop :=
  ∀ q, (after q).nkey = (before q).nkey ∧ (after q).nbytes = (before q).nbytes

variable {before middle after : Ptr → Item}

theorem SameLengths.refl (heap : Ptr → Item) : SameLengths heap heap := fun _ => ⟨rfl, rfl⟩

theorem SameLengths.trans (first : SameLengths before middle) (later : SameLengths middle after) :
    SameLengths before after := by
  intro q
  rw [(later q).1, (later q).2]
  exact first q

theorem SameLengths.update (same : SameLengths before after) {it : Ptr} {item : Item}
    (nkey : item.nkey = (after it).nkey) (nbytes : item.nbytes = (after it).nbytes) :
    SameLengths before (Function.update after it item) := by
  intro q
  by_cases here : q = it
  · rw [here, Function.update_self, nkey, nbytes]
    exact same it
  · rw [Function.update_of_ne here]
    exact same q

variable {m m' : Memory} {supply : Supply} {attempts : Nat → Attempts} {id size : Nat}

theorem linkChunks_lengths (slabs : Nat) (head : Ptr) (heap : Ptr → Item) (count : Nat) :
    SameLengths heap (linkChunks id slabs head heap count) := by
  induction count with
  | zero => exact .refl heap
  | succ count ih => exact ih.update rfl rfl

theorem slabsAllocBatch_lengths {head : Option Ptr} (result : slabsAllocBatch supply id m = .ok (head, m')) :
    SameLengths m.heap m'.heap := by
  simp only [slabsAllocBatch] at result
  split at result
  · cases result
    exact .refl m.heap
  · cases made : doSlabsAllocBatch supply id m with
    | error halt =>
      rw [made] at result
      cases result
    | ok taken =>
      obtain ⟨first, filled⟩ := taken
      have same : SameLengths m.heap filled.heap := by
        cases doSlabsAllocBatch_exit made with
        | refused _ => exact .refl m.heap
        | failed p _ _ _ => exact .refl m.heap
        | grown p _ _ _ => exact linkChunks_lengths p.slabs ⟨m.blocks, 0⟩ m.heap perslab
      rw [made] at result
      cases first with
      | none =>
        cases result
        exact same
      | some it =>
        simp only at result
        split at result
        · cases result
          exact same
        · cases result
          exact same

theorem evictLoop_lengths {p : Slabclass} {i : Nat} {offsets : List Nat} {eviction left : Eviction}
    (result : evictLoop p id attempts i offsets eviction = .ok left) : SameLengths eviction.heap left.heap := by
  induction offsets generalizing i eviction with
  | nil =>
    cases result
    exact .refl _
  | cons offset rest ih =>
    simp only [evictLoop] at result
    split at result
    · split at result
      · exact ih result
      · have freed : SameLengths eviction.heap (eviction.free (itemAt p id offset)).heap :=
          (SameLengths.refl eviction.heap).update rfl rfl
        split at result
        · cases result
        · cases result
          exact freed
        · rename_i bufs _
          exact freed.trans (@ih _ { eviction.free (itemAt p id offset) with bufs := bufs } result)
    · cases result

theorem evictItems_lengths {bufs bufs' : DeleteBufs} {head : Option Ptr}
    (result : evictItems id attempts m bufs = .ok (head, m', bufs')) : SameLengths m.heap m'.heap := by
  simp only [evictItems] at result
  split at result
  · cases result
  · split at result
    · cases result
    · rename_i loop
      split at result
      · cases result
      · cases result
        exact evictLoop_lengths loop

theorem itemAllocRounds_lengths {rounds : Nat} {bufs bufs' : DeleteBufs} {head : Option Ptr}
    (result : itemAllocRounds supply attempts id rounds m bufs = .ok (head, m', bufs')) :
    SameLengths m.heap m'.heap := by
  induction rounds generalizing m bufs with
  | zero => cases result
  | succ rounds ih =>
    simp only [itemAllocRounds] at result
    split at result
    · split at result
      · cases result
      · rename_i evicted
        exact (evictItems_lengths evicted).trans (ih result)
      · rename_i evicted
        cases result
        exact evictItems_lengths evicted
    · split at result
      · cases result
      · rename_i taken
        exact (slabsAllocBatch_lengths taken).trans (ih result)
      · rename_i taken
        cases result
        exact slabsAllocBatch_lengths taken

theorem refill_lengths {i : Nat} {batch batch' : Batch}
    (result : refill supply attempts size i m batch = .ok (m', batch')) : SameLengths m.heap m'.heap := by
  simp only [refill] at result
  split at result
  · cases result
    exact .refl m.heap
  · split at result
    · cases result
    · rename_i made
      cases result
      simp only [itemAllocBatch] at made
      split at made
      · cases made
      · cases made
        exact .refl m.heap
      · exact itemAllocRounds_lengths made

/-- `BATCH_ALLOC` does not write the lengths of an item, wherever it gets it from. -/
theorem batchAlloc_lengths {it : Ptr} {batch batch' : Batch}
    (result : batchAlloc supply attempts size m batch = .ok (it, m', batch')) : SameLengths m.heap m'.heap := by
  obtain ⟨filled, refilled, first, second⟩ := batchAlloc_cases result
  have same := refill_lengths first
  simp only [takeItem] at second
  split at second
  · cases second
  · cases second
    exact same.update rfl rfl

end Lengths

section Rewrite

variable {Worker : Type} [DecidableEq Worker]

omit [DecidableEq Worker] in
/-- The free lists hold together whatever is written behind the links and the places of the items. -/
theorem Held.rewrite {s : State Worker} {lists : Worker × Nat → List Ptr} {classes : Worker × Nat → Nat}
    (start : Held s lists classes) {heap : Ptr → Item} (next : ∀ q, (heap q).next = (s.memory.heap q).next)
    (flags : ∀ q, (heap q).flags = (s.memory.heap q).flags) (loc : ∀ q, (heap q).loc = (s.memory.heap q).loc)
    (clsid : ∀ q, (heap q).slabsClsid = (s.memory.heap q).slabsClsid) :
    Held { s with memory := { s.memory with heap := heap } } lists classes :=
  ⟨start.sound.rewrite loc clsid (fun inside freed => start.sound.zero inside ((flags _).symm.trans freed)),
    start.held.congr next flags⟩

end Rewrite

section Stock

variable {m : Memory} {supply : Supply} {id size : Nat}

theorem slabsClsidFrom_fits {rounds res : Nat} (fits : size ≤ slabSize powerLargest) (valid : res ≤ powerLargest)
    (enough : powerLargest < res + rounds) : ∃ id, slabsClsidFrom size rounds res = .ok id := by
  induction rounds generalizing res with
  | zero => omega
  | succ rounds ih =>
    simp only [slabsClsidFrom]
    split
    · rename_i small
      split
      · rename_i last
        subst last
        exact absurd fits (Nat.not_le.mpr small)
      · exact ih (by omega) (by omega)
    · exact ⟨res, rfl⟩

theorem slabsClsid_fits (positive : 0 < size) (fits : size ≤ slabSize powerLargest) :
    ∃ id, slabsClsid size = .ok (some id) := by
  obtain ⟨id, found⟩ := @slabsClsidFrom_fits size (powerLargest + 1) powerSmallest fits (Nat.zero_le _)
    (Nat.lt_add_left _ (Nat.lt_succ_self _))
  refine ⟨id, ?_⟩
  rw [slabsClsid, if_neg (Nat.pos_iff_ne_zero.mp positive)]
  exact congrArg (Except.map some) found

/-- A slab that is granted makes a list of all its items, or of all but the first. -/
theorem slabsAllocBatch_stock (valid : id ≤ powerLargest) (free : m.memoryFull = false)
    (passes : ¬(m.LimitReached id ∨ (m.slabclass id).Capped)) (covers : supply.Covers (m.slabclass id)) :
    ∃ it m' nodes, slabsAllocBatch supply id m = .ok (some it, m') ∧
      Chain (fun q => (m'.heap q).next) (some it) nodes ∧ perslab ≤ nodes.length + 1 := by
  have open' : ¬m.memoryFull = true := by simp [free]
  obtain ⟨head, filled, made⟩ := doSlabsAllocBatch_ok supply id m
  cases doSlabsAllocBatch_exit made with
  | refused stops => exact absurd stops passes
  | failed _ _ missing _ => exact absurd covers missing
  | grown p _ _ longer =>
    have listed := fun start inside =>
      @linkChunks_chain id p.slabs ⟨m.blocks, 0⟩ m.heap valid start inside
    have header := @newSlab_heap m id p valid 0 (by decide)
    rw [Nat.mul_zero] at header
    have second : ((m.newSlab id p).heap ⟨m.blocks, 0⟩).next = some ((⟨m.blocks, 0⟩ : Ptr).add (slabSize id * 1)) :=
      congrArg Item.next header
    by_cases zero : ((m.newSlab id p).heap ⟨m.blocks, 0⟩).loc = 0
    · refine ⟨_, m.newSlab id p, _, ?_, listed 1 (by decide), ?_⟩
      · simp only [slabsAllocBatch, if_neg open', made, if_pos zero, second]
      · rw [List.length_map, List.length_range']
        decide
    · refine ⟨_, m.newSlab id p, _, ?_, listed 0 (by decide), ?_⟩
      · simp only [slabsAllocBatch, if_neg open', made, if_neg zero]
        rfl
      · rw [List.length_map, List.length_range']
        decide

variable (Worker : Type) [DecidableEq Worker]

/-- The state after `slabs_init` with `heap` as the contents of the memory. -/
def blankState (heap : Ptr → Item) : State Worker :=
  { memory := slabsInit emptyBitmap heap, batchSet := fun _ => startBatch }

theorem blankState_reachable (heap : Ptr → Item) : (allocation Worker).Reachable (blankState Worker heap) :=
  .initial ⟨⟨emptyBitmap, heap, rfl, rfl⟩, fun _ _ => rfl⟩

omit [DecidableEq Worker] in
theorem blankState_room (heap : Ptr → Item) (id : Nat) :
    ¬((blankState Worker heap).memory.LimitReached id ∨ ((blankState Worker heap).memory.slabclass id).Capped) := by
  intro either
  rcases either with limit | capped
  · exact absurd limit.2 (Nat.lt_irrefl 0)
  · have words : 2 ^ 22 ≤ 0 + perslab / bitsPerWord := capped
    exact absurd words (by decide)

variable {Worker}

/-- A worker can have a list of nearly a whole slab, whatever the lengths of the items are. -/
theorem stock_reachable (worker : Worker) (heap : Ptr → Item) (positive : 0 < sizeofItem + size)
    (fits : sizeofItem + size ≤ slabSize powerLargest) :
    ∃ s nodes, (allocation Worker).Reachable s ∧ SameLengths heap s.memory.heap ∧
      Chain (fun q => (s.memory.heap q).next) ((s.batchSet worker).localSlab (pickList size)) nodes ∧
      perslab ≤ nodes.length + 2 := by
  have word : (sizeofItem + size) % 2 ^ 32 = sizeofItem + size := by
    apply Nat.mod_eq_of_lt
    rw [largest_size] at fits
    omega
  obtain ⟨id, found⟩ := slabsClsid_fits positive fits
  obtain ⟨it, m, nodes, taken, chain, long⟩ := @slabsAllocBatch_stock (blankState Worker heap).memory ampleSupply id
    (slabsClsid_le found) rfl (blankState_room Worker heap id) ⟨fun _ => rfl, rfl⟩
  obtain ⟨rest, list, remaining⟩ := chain.uncons
  have made : itemAllocBatch ampleSupply calm size (blankState Worker heap).memory startBatch.buf =
      .ok (some it, m, startBatch.buf) := by
    rw [itemAllocBatch, word, found]
    simp only [itemAllocRounds, taken]
    rfl
  have allocated : batchAlloc ampleSupply calm size (blankState Worker heap).memory startBatch = .ok (it, _) :=
    batchAlloc_refilled rfl (@refill_none ampleSupply calm size (pickList size) _ m startBatch (some it) _ rfl made)
      (Function.update_self _ _ _)
  refine ⟨_, rest, (blankState_reachable Worker heap).step (.alloc _ worker ampleSupply calm size _ _ _ allocated),
    batchAlloc_lengths allocated, ?_, ?_⟩
  · simp only [setBatch_batch, Function.update_self]
    apply remaining.congr
    intro q _
    change (Function.update m.heap it { m.heap it with flags := 0 } q).next = _
    by_cases here : q = it
    · rw [here, Function.update_self]
    · rw [Function.update_of_ne here]
  · rw [list, List.length_cons] at long
    omega

end Stock

end MegaKV.Slab
