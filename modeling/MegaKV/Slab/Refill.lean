import MegaKV.Slab.Sound
import MegaKV.Slab.Items

namespace MegaKV.Slab

open Library

section Refill

variable {m : Memory}

structure Memory.Grows (m m' : Memory) : Prop where
  inside : ∀ id o, m.Inside id o → m'.Inside id o
  item : ∀ id o, m.Inside id o → m'.item id o = m.item id o
  blocks : m.blocks ≤ m'.blocks

theorem Memory.SameItems.grows {m' : Memory} (same : m.SameItems m') : m.Grows m' :=
  ⟨fun id o => (same.inside id o).mpr, fun id o _ => same.item id o, same.blocks.ge⟩

/-- A new free list `nodes` of class `id`: its items come from a new slab or were in use before. -/
structure Refilled (m m' : Memory) (id : Nat) (head : Option Ptr) (nodes : List Ptr) : Prop where
  sound : m'.Sound
  grows : m.Grows m'
  chain : Chain (fun q => (m'.heap q).next) head nodes
  nodup : nodes.Nodup
  free : ∀ q ∈ nodes, (m'.heap q).flags = itemFree
  inside : ∀ q ∈ nodes, ∃ o, m'.Inside id o ∧ q = m'.item id o ∧ ¬(id = 0 ∧ o = 0)
  origin : ∀ q ∈ nodes, m.blocks ≤ q.block ∨ (m.heap q).flags = 0
  frame : ∀ q, q ∉ nodes → q.block < m.blocks → m'.heap q = m.heap q

theorem newSlab_refilled (sound : m.Sound) {id : Nat} {p : Slabclass} (valid : id ≤ powerLargest)
    (ready : (m.slabclass id).Prepared p ((m.slabclass id).slabs + 1)) (start : Nat) (begins : start < perslab)
    (skips : id = 0 → (m.slabclass id).slabs = 0 → 0 < start) :
    Refilled m (m.newSlab id p) id (some ((⟨m.blocks, 0⟩ : Ptr).add (slabSize id * start)))
      ((List.range' start (perslab - start)).map (fun x => (⟨m.blocks, 0⟩ : Ptr).add (slabSize id * x))) := by
  have chunks : ∀ q ∈ (List.range' start (perslab - start)).map (fun x => (⟨m.blocks, 0⟩ : Ptr).add (slabSize id * x)),
      ∃ x, start ≤ x ∧ x < perslab ∧ q = (⟨m.blocks, 0⟩ : Ptr).add (slabSize id * x) := by
    intro q member
    obtain ⟨x, range, rfl⟩ := List.mem_map.mp member
    obtain ⟨low, high⟩ := List.mem_range'_1.mp range
    exact ⟨x, low, by omega, rfl⟩
  refine ⟨sound.newSlab valid ready, ⟨?_, ?_, Nat.le_succ _⟩, linkChunks_chain valid start begins, ?_, ?_, ?_, ?_, ?_⟩
  · intro other o inside
    exact (newSlab_old sound ready inside).1
  · intro other o inside
    exact (newSlab_old sound ready inside).2.1
  · exact List.Nodup.map (fun x y same => chunk_inj valid same) List.nodup_range'
  · intro q member
    obtain ⟨x, _, chunk, rfl⟩ := chunks q member
    rw [newSlab_heap valid chunk]
    rfl
  · intro q member
    obtain ⟨x, low, chunk, rfl⟩ := chunks q member
    obtain ⟨inside, item⟩ := newSlab_chunk valid ready chunk
    refine ⟨_, inside, item.symm, ?_⟩
    intro given
    rcases given with ⟨first, zero⟩
    have slabs : (m.slabclass id).slabs = 0 := by
      simp only [perslab, perslabBits] at zero
      omega
    have later := skips first slabs
    omega
  · intro q member
    obtain ⟨x, _, _, rfl⟩ := chunks q member
    exact .inl (Nat.le_refl _)
  · intro q _ old
    apply linkChunks_other
    intro x _ same
    rw [same] at old
    exact absurd old (Nat.lt_irrefl _)

theorem slabsAllocBatch_none (sound : m.Sound) {supply : Supply} {id : Nat} {m' : Memory} (valid : id ≤ powerLargest)
    (result : slabsAllocBatch supply id m = .ok (none, m')) :
    m'.memoryFull = true ∧ m.SameItems m' ∧ m'.Sound := by
  simp only [slabsAllocBatch] at result
  split at result
  · rename_i full
    cases result
    exact ⟨full, ⟨rfl, rfl, fun _ => rfl, fun _ => rfl⟩, sound⟩
  · split at result
    · contradiction
    · rename_i alloc
      cases result
      rcases doSlabsAllocBatch_cases sound alloc with ⟨p, _, rfl, ready⟩ | ⟨p, impossible, _⟩
      · exact ⟨rfl, sound.prepared ready rfl rfl rfl⟩
      · contradiction
    · rename_i it next alloc
      rcases doSlabsAllocBatch_cases sound alloc with ⟨p, impossible, _⟩ | ⟨p, head, rfl, ready⟩
      · contradiction
      · cases head
        have first := newSlab_heap (m := m) (p := p) valid (show 0 < perslab by decide)
        rw [Nat.mul_zero] at first
        simp only [Ptr.add, Nat.add_zero] at first
        split at result
        · rw [first] at result
          have linked : (0 : Nat) ≠ perslab - 1 := by decide
          simp [freshItem, linked] at result
        · cases result

theorem slabsAllocBatch_some (sound : m.Sound) {supply : Supply} {id : Nat} {it : Ptr} {m' : Memory}
    (valid : id ≤ powerLargest) (result : slabsAllocBatch supply id m = .ok (some it, m')) :
    ∃ nodes, Refilled m m' id (some it) nodes := by
  simp only [slabsAllocBatch] at result
  split at result
  · cases result
  · split at result
    · contradiction
    · cases result
    · rename_i head next alloc
      rcases doSlabsAllocBatch_cases sound alloc with ⟨p, impossible, _⟩ | ⟨p, first, rfl, ready⟩
      · contradiction
      · cases first
        have bound := ready.bound
        rw [Nat.mul_succ] at bound
        have header := newSlab_heap (m := m) (p := p) valid (show 0 < perslab by decide)
        rw [Nat.mul_zero, ready.slabs] at header
        have loc : ((m.newSlab id p).heap ⟨m.blocks, 0⟩).loc = id * 2 ^ 29 + (perslab * (m.slabclass id).slabs + 0) :=
          (congrArg Item.loc header).trans (freshItem_loc valid (by decide) bound)
        have next : ((m.newSlab id p).heap ⟨m.blocks, 0⟩).next =
            some ((⟨m.blocks, 0⟩ : Ptr).add (slabSize id * 1)) := congrArg Item.next header
        split at result
        · rw [next] at result
          cases result
          exact ⟨_, newSlab_refilled sound valid ready 1 (by decide) (fun _ _ => Nat.one_pos)⟩
        · rename_i nonzero
          cases result
          refine ⟨_, newSlab_refilled sound valid ready 0 (by decide) ?_⟩
          intro zeroClass zeroSlabs
          rw [loc, zeroSlabs, zeroClass] at nonzero
          exact absurd rfl nonzero

/-- The eviction loop has linked the items `nodes`, all in use before, and changed nothing else. -/
structure Evicted (p : Slabclass) (id : Nat) (before : Ptr → Item) (eviction : Eviction) (nodes : List Ptr) : Prop where
  chain : Chain (fun q => (eviction.heap q).next) eviction.itList nodes
  nodup : nodes.Nodup
  count : eviction.evictCnt = nodes.length
  used : ∀ q ∈ nodes, (before q).flags = 0
  free : ∀ q ∈ nodes, (eviction.heap q).flags = itemFree
  inside : ∀ q ∈ nodes, ∃ o < perslab * p.slabs, q = itemAt p id o
  frame : ∀ q, q ∉ nodes → eviction.heap q = before q
  loc : ∀ q, (eviction.heap q).loc = (before q).loc
  clsid : ∀ q, (eviction.heap q).slabsClsid = (before q).slabsClsid
  data : ∀ q, (eviction.heap q).data = (before q).data

variable {p : Slabclass} {id : Nat} {before : Ptr → Item} {eviction : Eviction} {nodes : List Ptr}

theorem Evicted.start (p : Slabclass) (id : Nat) (heap : Ptr → Item) (bufs : DeleteBufs) :
    Evicted p id heap { heap := heap, itList := none, evictCnt := 0, bufs := bufs } [] :=
  ⟨rfl, List.nodup_nil, rfl, by simp, by simp, by simp, fun _ _ => rfl, fun _ => rfl, fun _ => rfl, fun _ => rfl⟩

theorem Evicted.unlisted (evicted : Evicted p id before eviction nodes) {it : Ptr}
    (used : (eviction.heap it).flags = 0) : it ∉ nodes := by
  intro member
  have free := evicted.free it member
  rw [used] at free
  contradiction

theorem Evicted.add (evicted : Evicted p id before eviction nodes) {offset : Nat}
    (inside : offset < perslab * p.slabs) (used : (eviction.heap (itemAt p id offset)).flags = 0) :
    Evicted p id before (eviction.free (itemAt p id offset)) (itemAt p id offset :: nodes) := by
  have outside := evicted.unlisted used
  have heap : ∀ q, q ≠ itemAt p id offset → (eviction.free (itemAt p id offset)).heap q = eviction.heap q :=
    fun q other => Function.update_of_ne other _ _
  have here : (eviction.free (itemAt p id offset)).heap (itemAt p id offset) =
      { eviction.heap (itemAt p id offset) with flags := itemFree, next := eviction.itList } :=
    Function.update_self _ _ _
  refine ⟨?_, ?_, ?_, ?_, ?_, ?_, ?_, ?_, ?_, ?_⟩
  · apply (evicted.chain.push outside).congr
    intro q _
    by_cases same : q = itemAt p id offset
    · subst same
      rw [here, Function.update_self]
    · rw [heap q same, Function.update_of_ne same]
  · exact List.nodup_cons.mpr ⟨outside, evicted.nodup⟩
  · simp only [Eviction.free, evicted.count, List.length_cons]
  · intro q member
    rcases List.mem_cons.mp member with rfl | older
    · rw [← evicted.frame _ outside]
      exact used
    · exact evicted.used q older
  · intro q member
    rcases List.mem_cons.mp member with rfl | older
    · rw [here]
    · rw [heap q (fun same => outside (same ▸ older))]
      exact evicted.free q older
  · intro q member
    rcases List.mem_cons.mp member with rfl | older
    · exact ⟨offset, inside, rfl⟩
    · exact evicted.inside q older
  · intro q other
    have different : q ≠ itemAt p id offset := fun same => other (same ▸ List.mem_cons_self)
    rw [heap q different]
    exact evicted.frame q (fun older => other (List.mem_cons_of_mem _ older))
  all_goals
    intro q
    by_cases same : q = itemAt p id offset
    · subst same
      rw [here]
      first | exact evicted.loc _ | exact evicted.clsid _ | exact evicted.data _
    · rw [heap q same]
      first | exact evicted.loc _ | exact evicted.clsid _ | exact evicted.data _

theorem Evicted.record (evicted : Evicted p id before eviction nodes) (bufs : DeleteBufs) :
    Evicted p id before { eviction with bufs := bufs } nodes :=
  ⟨evicted.chain, evicted.nodup, evicted.count, evicted.used, evicted.free, evicted.inside, evicted.frame,
    evicted.loc, evicted.clsid, evicted.data⟩

theorem evictLoop_evicted {attempts : Nat → Attempts} {i : Nat} {offsets : List Nat} {after : Eviction}
    (evicted : Evicted p id before eviction nodes) (result : evictLoop p id attempts i offsets eviction = .ok after) :
    ∃ later, Evicted p id before after later := by
  induction offsets generalizing i eviction nodes with
  | nil =>
    cases result
    exact ⟨nodes, evicted⟩
  | cons offset rest ih =>
    simp only [evictLoop] at result
    split at result
    · rename_i inside
      split at result
      · exact ih evicted result
      · rename_i unused
        have added := evicted.add inside (Decidable.not_not.mp unused)
        split at result
        · contradiction
        · cases result
          exact ⟨_, added.record _⟩
        · exact ih (added.record _) result
    · contradiction

theorem evictItems_refilled (sound : m.Sound) (valid : id ≤ powerLargest) {attempts : Nat → Attempts}
    {bufs bufs' : DeleteBufs} {head : Option Ptr} {m' : Memory}
    (result : evictItems id attempts m bufs = .ok (head, m', bufs')) :
    ∃ nodes, nodes ≠ [] ∧ Refilled m m' id head nodes := by
  simp only [evictItems] at result
  split at result
  · contradiction
  · rename_i offsetArray bitmap batch
    obtain ⟨reached, size, current⟩ := (sound.reached id).evict (by decide) (by decide) batch
    split at result
    · contradiction
    · rename_i eviction loop
      split at result
      · contradiction
      · rename_i some
        cases result
        obtain ⟨nodes, evicted⟩ := evictLoop_evicted (Evicted.start _ _ _ _) loop
        have slabs := sound.slabs id
        have ready : (m.slabclass id).Prepared { m.slabclass id with bitmap := bitmap } (m.slabclass id).slabs :=
          ⟨rfl, rfl, reached, size.trans (sound.size id), by simp only [current]; exact slabs⟩
        obtain ⟨same, middle⟩ := @Memory.Sound.prepared m sound id _
          (m.setClass id { m.slabclass id with bitmap := bitmap }) ready rfl rfl rfl
        have zero : m.Inside 0 0 → m.item 0 0 ∉ nodes := by
          intro inside member
          exact sound.zero inside (evicted.used _ member)
        refine ⟨nodes, ?_, middle.rewrite evicted.loc evicted.clsid ?_, ?_, evicted.chain, evicted.nodup,
          evicted.free, ?_, ?_, ?_⟩
        · intro empty
          rw [evicted.count, empty] at some
          exact some rfl
        · intro inside
          have before := (same.inside 0 0).mp inside
          rw [same.item, evicted.frame _ (zero before)]
          exact sound.zero before
        · exact ⟨same.grows.inside, same.grows.item, same.grows.blocks⟩
        · intro q member
          obtain ⟨o, offset, rfl⟩ := evicted.inside q member
          have inside : m.Inside id o := ⟨valid, offset⟩
          refine ⟨o, (same.inside id o).mpr inside, (same.item id o).symm, ?_⟩
          intro given
          rcases given with ⟨rfl, rfl⟩
          exact zero inside member
        · intro q member
          exact .inr (evicted.used q member)
        · intro q other _
          exact evicted.frame q other

theorem Refilled.after {m m' m'' : Memory} {head : Option Ptr} (same : m.SameItems m')
    (refilled : Refilled m' m'' id head nodes) : Refilled m m'' id head nodes :=
  { refilled with
    grows := ⟨fun other o inside => refilled.grows.inside other o ((same.inside other o).mpr inside),
      fun other o inside => (refilled.grows.item other o ((same.inside other o).mpr inside)).trans (same.item other o),
      same.blocks.ge.trans refilled.grows.blocks⟩
    origin := by
      intro q member
      rw [← same.blocks, ← same.heap]
      exact refilled.origin q member
    frame := by
      intro q other old
      rw [← same.heap]
      exact refilled.frame q other (by rw [same.blocks]; exact old) }

theorem itemAllocRounds_refilled {rounds : Nat} (sound : m.Sound) (valid : id ≤ powerLargest) {supply : Supply}
    {attempts : Nat → Attempts} {bufs bufs' : DeleteBufs} {head : Option Ptr} {m' : Memory}
    (result : itemAllocRounds supply attempts id rounds m bufs = .ok (head, m', bufs')) :
    ∃ nodes, nodes ≠ [] ∧ Refilled m m' id head nodes := by
  induction rounds generalizing m bufs with
  | zero => contradiction
  | succ rounds ih =>
    simp only [itemAllocRounds] at result
    split at result
    · split at result
      · contradiction
      · rename_i evicted
        obtain ⟨nodes, nonempty, refilled⟩ := evictItems_refilled sound valid evicted
        cases nodes with
        | nil => exact absurd rfl nonempty
        | cons first rest => exact absurd refilled.chain.1 (by simp)
      · rename_i evicted
        cases result
        exact evictItems_refilled sound valid evicted
    · split at result
      · contradiction
      · rename_i alloc
        obtain ⟨_, same, next⟩ := slabsAllocBatch_none sound valid alloc
        obtain ⟨nodes, nonempty, refilled⟩ := ih next result
        exact ⟨nodes, nonempty, refilled.after same⟩
      · rename_i alloc
        cases result
        obtain ⟨nodes, refilled⟩ := slabsAllocBatch_some sound valid alloc
        refine ⟨nodes, ?_, refilled⟩
        intro same
        subst same
        exact absurd refilled.chain (by simp [Chain])

end Refill

theorem slabsClsidFrom_le {size rounds res id : Nat} (start : res ≤ powerLargest)
    (result : slabsClsidFrom size rounds res = .ok id) : id ≤ powerLargest := by
  induction rounds generalizing res with
  | zero => contradiction
  | succ rounds ih =>
    simp only [slabsClsidFrom] at result
    split at result
    · split at result
      · contradiction
      · rename_i last
        exact ih (Nat.lt_of_le_of_ne start last) result
    · cases result
      exact start

theorem slabsClsid_le {size id : Nat} (result : slabsClsid size = .ok (some id)) : id ≤ powerLargest := by
  simp only [slabsClsid] at result
  split at result
  · cases result
  · cases found : slabsClsidFrom size (powerLargest + 1) powerSmallest with
    | error halt =>
      rw [found] at result
      cases result
    | ok res =>
      rw [found] at result
      cases result
      exact slabsClsidFrom_le (Nat.zero_le _) found

end MegaKV.Slab
