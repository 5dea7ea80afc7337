import MegaKV.Slab.Refill
import MegaKV.Slab.BatchAlloc

namespace MegaKV.Slab

open Library

section Lists

variable {Owner : Type} [DecidableEq Owner]

/-- The free lists `lists` behind the heads `heads`, each of items of one class. -/
structure Lists (m : Memory) (heads : Owner → Option Ptr) (lists : Owner → List Ptr) (classes : Owner → Nat) :
    Prop where
  chain : ∀ k, Chain (fun q => (m.heap q).next) (heads k) (lists k)
  nodup : ∀ k, (lists k).Nodup
  disjoint : ∀ k l, k ≠ l → (lists k).Disjoint (lists l)
  free : ∀ k, ∀ q ∈ lists k, (m.heap q).flags ≠ 0
  inside : ∀ k, ∀ q ∈ lists k, ∃ o, m.Inside (classes k) o ∧ q = m.item (classes k) o ∧ ¬(classes k = 0 ∧ o = 0)

variable {m m' : Memory} {heads : Owner → Option Ptr} {lists : Owner → List Ptr} {classes : Owner → Nat}

omit [DecidableEq Owner] in
theorem Lists.old (held : Lists m heads lists classes) (sound : m.Sound) {k : Owner} {q : Ptr} (member : q ∈ lists k) :
    q.block < m.blocks := by
  obtain ⟨o, inside, rfl, _⟩ := held.inside k q member
  exact sound.block _ o inside

omit [DecidableEq Owner] in
theorem Lists.refill_apart (held : Lists m heads lists classes) (sound : m.Sound) {id : Nat} {head : Option Ptr}
    {nodes : List Ptr} (refilled : Refilled m m' id head nodes) {k : Owner} {q : Ptr} (member : q ∈ lists k) :
    q ∉ nodes := by
  intro fresh
  rcases refilled.origin q fresh with new | used
  · exact absurd (held.old sound member) (Nat.not_lt.mpr new)
  · exact held.free k q member used

omit [DecidableEq Owner] in
theorem Lists.refill_same (held : Lists m heads lists classes) (sound : m.Sound) {id : Nat} {head : Option Ptr}
    {nodes : List Ptr} (refilled : Refilled m m' id head nodes) {k : Owner} {q : Ptr} (member : q ∈ lists k) :
    m'.heap q = m.heap q :=
  refilled.frame q (held.refill_apart sound refilled member) (held.old sound member)

theorem Lists.refill (held : Lists m heads lists classes) (sound : m.Sound) {k : Owner} (empty : heads k = none)
    {id : Nat} {head : Option Ptr} {nodes : List Ptr} (refilled : Refilled m m' id head nodes) :
    Lists m' (Function.update heads k head) (Function.update lists k nodes) (Function.update classes k id) := by
  have apart : ∀ l, ∀ q ∈ lists l, q ∉ nodes := fun _ _ member => held.refill_apart sound refilled member
  have same : ∀ l, ∀ q ∈ lists l, m'.heap q = m.heap q := fun _ _ member => held.refill_same sound refilled member
  refine ⟨?_, ?_, ?_, ?_, ?_⟩
  · intro l
    by_cases here : l = k
    · subst here
      simpa only [Function.update_self] using refilled.chain
    · simp only [Function.update_of_ne here]
      apply (held.chain l).congr
      intro q member
      rw [same l q member]
  · intro l
    by_cases here : l = k
    · subst here
      simpa only [Function.update_self] using refilled.nodup
    · simpa only [Function.update_of_ne here] using held.nodup l
  · intro l j different
    by_cases left : l = k
    · subst left
      simp only [Function.update_self, Function.update_of_ne different.symm]
      intro q fresh member
      exact apart j q member fresh
    · by_cases right : j = k
      · subst right
        simp only [Function.update_self, Function.update_of_ne left]
        intro q member fresh
        exact apart l q member fresh
      · simpa only [Function.update_of_ne left, Function.update_of_ne right] using held.disjoint l j different
  · intro l q
    by_cases here : l = k
    · subst here
      simp only [Function.update_self]
      intro fresh
      rw [refilled.free q fresh]
      exact Nat.one_ne_zero
    · simp only [Function.update_of_ne here]
      intro member
      rw [same l q member]
      exact held.free l q member
  · intro l q
    by_cases here : l = k
    · subst here
      simpa only [Function.update_self] using refilled.inside q
    · simp only [Function.update_of_ne here]
      intro member
      obtain ⟨o, inside, item, nonzero⟩ := held.inside l q member
      exact ⟨o, refilled.grows.inside _ o inside, item.trans (refilled.grows.item _ o inside).symm, nonzero⟩

theorem Lists.take (held : Lists m heads lists classes) {k : Owner} {it : Ptr} (head : heads k = some it) :
    ∃ rest, lists k = it :: rest ∧
      (∀ l, it ∉ Function.update lists k rest l) ∧
      Lists { m with heap := Function.update m.heap it { m.heap it with flags := 0 } }
        (Function.update heads k (m.heap it).next) (Function.update lists k rest) classes := by
  have chain := held.chain k
  rw [head] at chain
  obtain ⟨rest, list, remaining⟩ := chain.uncons
  have nodup := held.nodup k
  rw [list, List.nodup_cons] at nodup
  have first : it ∈ lists k := by
    rw [list]
    exact List.mem_cons_self
  have off : ∀ l, it ∉ Function.update lists k rest l := by
    intro l
    by_cases here : l = k
    · subst here
      rw [Function.update_self]
      exact nodup.1
    · rw [Function.update_of_ne here]
      exact held.disjoint k l (Ne.symm here) first
  have sublist : ∀ l, ∀ q ∈ Function.update lists k rest l, q ∈ lists l := by
    intro l q
    by_cases here : l = k
    · subst here
      rw [Function.update_self, list]
      exact List.mem_cons_of_mem it
    · rw [Function.update_of_ne here]
      exact fun member => member
  have kept : ∀ l, ∀ q ∈ Function.update lists k rest l,
      Function.update m.heap it { m.heap it with flags := 0 } q = m.heap q := by
    intro l q member
    apply Function.update_of_ne
    intro same
    subst same
    exact off l member
  refine ⟨rest, list, off, ?_, ?_, ?_, ?_, ?_⟩
  · intro l
    have links : ∀ q ∈ Function.update lists k rest l,
        (Function.update m.heap it { m.heap it with flags := 0 } q).next = (m.heap q).next := by
      intro q member
      rw [kept l q member]
    apply Chain.congr _ links
    by_cases here : l = k
    · subst here
      simp only [Function.update_self]
      exact remaining
    · simp only [Function.update_of_ne here]
      exact held.chain l
  · intro l
    by_cases here : l = k
    · subst here
      rw [Function.update_self]
      exact nodup.2
    · rw [Function.update_of_ne here]
      exact held.nodup l
  · intro l j different q left right
    exact held.disjoint l j different (sublist l q left) (sublist j q right)
  · intro l q member
    simp only [kept l q member]
    exact held.free l q (sublist l q member)
  · intro l q member
    exact held.inside l q (sublist l q member)

omit [DecidableEq Owner] in
theorem Lists.congr (held : Lists m heads lists classes) {heap : Ptr → Item}
    (next : ∀ q, (heap q).next = (m.heap q).next) (flags : ∀ q, (heap q).flags = (m.heap q).flags) :
    Lists { m with heap := heap } heads lists classes := by
  refine ⟨?_, held.nodup, held.disjoint, ?_, held.inside⟩
  · intro k
    exact (held.chain k).congr (fun q _ => next q)
  · intro k q member
    simp only [flags q]
    exact held.free k q member

omit [DecidableEq Owner] in
theorem Lists.sameItems (held : Lists m heads lists classes) (same : m.SameItems m') : Lists m' heads lists classes := by
  refine ⟨?_, held.nodup, held.disjoint, ?_, ?_⟩
  · rw [same.heap]
    exact held.chain
  · rw [same.heap]
    exact held.free
  · intro k q member
    obtain ⟨o, inside, item, nonzero⟩ := held.inside k q member
    exact ⟨o, (same.inside _ o).mpr inside, item.trans (same.item _ o).symm, nonzero⟩

end Lists

theorem itemAllocBatch_cases {m m' : Memory} (sound : m.Sound) {supply : Supply} {attempts : Nat → Attempts}
    {kvsize : Nat} {bufs bufs' : DeleteBufs} {head : Option Ptr}
    (result : itemAllocBatch supply attempts kvsize m bufs = .ok (head, m', bufs')) :
    (head = none ∧ m' = m) ∨
    ∃ id nodes, slabsClsid ((sizeofItem + kvsize) % 2 ^ 32) = .ok (some id) ∧ nodes ≠ [] ∧
      Refilled m m' id head nodes := by
  simp only [itemAllocBatch] at result
  split at result
  · contradiction
  · cases result
    exact .inl ⟨rfl, rfl⟩
  · rename_i id found
    obtain ⟨nodes, nonempty, refilled⟩ := itemAllocRounds_refilled sound (slabsClsid_le found) result
    exact .inr ⟨id, nodes, found, nonempty, refilled⟩

section Workers

variable {Worker : Type} [DecidableEq Worker]

def State.heads (s : State Worker) (k : Worker × Nat) : Option Ptr := (s.batchSet k.1).localSlab k.2

/-- The invariant of the allocator: sound slabs and free lists `lists`, each of items of one class. -/
structure Held (s : State Worker) (lists : Worker × Nat → List Ptr) (classes : Worker × Nat → Nat) : Prop where
  sound : s.memory.Sound
  held : Lists s.memory s.heads lists classes

theorem heads_setBatch (s : State Worker) (worker : Worker) (i : Nat) (head : Option Ptr) (batch : Batch)
    (local_eq : batch.localSlab = Function.update (s.batchSet worker).localSlab i head) :
    (s.setBatch worker batch).heads = Function.update s.heads (worker, i) head := by
  funext ⟨other, j⟩
  by_cases owner : other = worker
  · subst owner
    by_cases list : j = i
    · subst list
      simp [State.heads, State.setBatch, local_eq]
    · simp [State.heads, State.setBatch, local_eq, list]
  · simp [State.heads, State.setBatch, owner]

/-- What `refill` does to list `i` of one worker: nothing, or a new list of the class of `size`. -/
theorem refill_held {s : State Worker} {lists : Worker × Nat → List Ptr} {classes : Worker × Nat → Nat}
    (start : Held s lists classes) {worker : Worker} {supply : Supply} {attempts : Nat → Attempts} {size i : Nat}
    {m : Memory} {batch : Batch} (result : refill supply attempts size i s.memory (s.batchSet worker) = .ok (m, batch)) :
    (Held ({ s with memory := m }.setBatch worker batch) lists classes ∧
      (lists (worker, i) ≠ [] ∨ batch.localSlab i = none)) ∨
    ∃ id nodes, slabsClsid ((sizeofItem + size) % 2 ^ 32) = .ok (some id) ∧
      (s.batchSet worker).localSlab i = none ∧
      Held ({ s with memory := m }.setBatch worker batch) (Function.update lists (worker, i) nodes)
        (Function.update classes (worker, i) id) := by
  simp only [refill] at result
  split at result
  · rename_i it present
    cases result
    have same : s.setBatch worker (s.batchSet worker) = s := by
      simp only [State.setBatch, Function.update_eq_self]
    refine .inl ⟨?_, .inl ?_⟩
    · change Held (s.setBatch worker (s.batchSet worker)) lists classes
      rw [same]
      exact start
    · have chain := start.held.chain (worker, i)
      simp only [State.heads, present] at chain
      obtain ⟨rest, list, _⟩ := chain.uncons
      simp [list]
  · rename_i empty
    split at result
    · contradiction
    · rename_i itList m' bufs alloc
      cases result
      have heads := heads_setBatch { s with memory := m } worker i itList
        { localSlab := Function.update (s.batchSet worker).localSlab i itList, buf := bufs } rfl
      rcases itemAllocBatch_cases start.sound alloc with ⟨rfl, rfl⟩ | ⟨id, nodes, found, _, refilled⟩
      · refine .inl ⟨⟨start.sound, ?_⟩, .inr (by simp)⟩
        rw [heads]
        have unchanged : Function.update s.heads (worker, i) none = s.heads := by
          rw [← empty]
          exact Function.update_eq_self _ _
        change Lists s.memory (Function.update s.heads (worker, i) none) lists classes
        rw [unchanged]
        exact start.held
      · refine .inr ⟨id, nodes, found, empty, refilled.sound, ?_⟩
        rw [heads]
        exact start.held.refill (k := (worker, i)) start.sound empty refilled

theorem takeItem_held {s : State Worker} {lists : Worker × Nat → List Ptr} {classes : Worker × Nat → Nat}
    (start : Held s lists classes) {worker : Worker} {i : Nat} {it : Ptr} {m : Memory} {batch : Batch}
    (result : takeItem i s.memory (s.batchSet worker) = .ok (it, m, batch)) :
    ∃ rest, lists (worker, i) = it :: rest ∧ (m.heap it).flags = 0 ∧ (m.heap it).loc = (s.memory.heap it).loc ∧
      (∃ o, m.Inside (classes (worker, i)) o ∧ it = m.item (classes (worker, i)) o) ∧
      (∀ k, it ∉ Function.update lists (worker, i) rest k) ∧
      Held ({ s with memory := m }.setBatch worker batch) (Function.update lists (worker, i) rest) classes := by
  simp only [takeItem] at result
  split at result
  · contradiction
  · rename_i head present
    cases result
    obtain ⟨rest, list, off, taken⟩ := start.held.take (k := (worker, i)) present
    have member : it ∈ lists (worker, i) := by
      rw [list]
      exact List.mem_cons_self
    obtain ⟨o, inside, item, nonzero⟩ := start.held.inside _ _ member
    refine ⟨rest, list, by simp, by simp, ⟨o, inside, item⟩, off, ?_, ?_⟩
    · apply start.sound.rewrite
      · intro q
        by_cases here : q = it
        · subst here
          rw [Function.update_self]
        · rw [Function.update_of_ne here]
      · intro q
        by_cases here : q = it
        · subst here
          rw [Function.update_self]
        · rw [Function.update_of_ne here]
      · intro zero
        have other : s.memory.item 0 0 ≠ it := by
          intro same
          subst same
          obtain ⟨first, second⟩ := start.sound.item_inj zero inside item
          exact nonzero ⟨first.symm, second.symm⟩
        rw [Function.update_of_ne other]
        exact start.sound.zero zero
    · rw [heads_setBatch _ worker i (s.memory.heap it).next _ rfl]
      exact taken

theorem batchAlloc_cases {supply : Supply} {attempts : Nat → Attempts} {size : Nat} {m m' : Memory}
    {batch batch' : Batch} {it : Ptr} (result : batchAlloc supply attempts size m batch = .ok (it, m', batch')) :
    ∃ middle refilled, refill supply attempts size (pickList size) m batch = .ok (middle, refilled) ∧
      takeItem (pickList size) middle refilled = .ok (it, m', batch') := by
  simp only [batchAlloc] at result
  split at result
  · contradiction
  · rename_i middle refilled first
    exact ⟨middle, refilled, first, result⟩

theorem setBatch_setBatch (s : State Worker) (worker : Worker) (m m' : Memory) (first second : Batch) :
    { ({ s with memory := m } : State Worker).setBatch worker first with memory := m' }.setBatch worker second =
      ({ s with memory := m' } : State Worker).setBatch worker second := by
  simp only [State.setBatch, Function.update_idem]

theorem setBatch_batch (s : State Worker) (worker : Worker) (batch : Batch) :
    (s.setBatch worker batch).batchSet worker = batch := by
  simp only [State.setBatch, Function.update_self]

/-- One `BATCH_ALLOC`: after its refill the item is the head of the picked list, then on none. -/
theorem batchAlloc_held {s : State Worker} {lists : Worker × Nat → List Ptr} {classes : Worker × Nat → Nat}
    (start : Held s lists classes) {worker : Worker} {supply : Supply} {attempts : Nat → Attempts} {size : Nat}
    {it : Ptr} {m : Memory} {batch : Batch}
    (result : batchAlloc supply attempts size s.memory (s.batchSet worker) = .ok (it, m, batch)) :
    ∃ middle refilled between filled rest,
      refill supply attempts size (pickList size) s.memory (s.batchSet worker) = .ok (middle, refilled) ∧
      Held ({ s with memory := middle }.setBatch worker refilled) between filled ∧
      ((between = lists ∧ filled = classes ∧ lists (worker, pickList size) ≠ []) ∨
        ∃ id nodes, slabsClsid ((sizeofItem + size) % 2 ^ 32) = .ok (some id) ∧
          (s.batchSet worker).localSlab (pickList size) = none ∧
          between = Function.update lists (worker, pickList size) nodes ∧
          filled = Function.update classes (worker, pickList size) id) ∧
      between (worker, pickList size) = it :: rest ∧
      (m.heap it).flags = 0 ∧ (m.heap it).loc = (middle.heap it).loc ∧
      (∃ o, m.Inside (filled (worker, pickList size)) o ∧ it = m.item (filled (worker, pickList size)) o) ∧
      (∀ k, it ∉ Function.update between (worker, pickList size) rest k) ∧
      Held ({ s with memory := m }.setBatch worker batch) (Function.update between (worker, pickList size) rest) filled := by
  obtain ⟨middle, refilled, first, second⟩ := batchAlloc_cases result
  have taken : ∀ between filled, Held ({ s with memory := middle }.setBatch worker refilled) between filled →
      ∃ rest, between (worker, pickList size) = it :: rest ∧ (m.heap it).flags = 0 ∧
        (m.heap it).loc = (middle.heap it).loc ∧
        (∃ o, m.Inside (filled (worker, pickList size)) o ∧ it = m.item (filled (worker, pickList size)) o) ∧
        (∀ k, it ∉ Function.update between (worker, pickList size) rest k) ∧
        Held ({ s with memory := m }.setBatch worker batch)
          (Function.update between (worker, pickList size) rest) filled := by
    intro between filled held
    have step : takeItem (pickList size) ({ s with memory := middle }.setBatch worker refilled).memory
        (({ s with memory := middle }.setBatch worker refilled).batchSet worker) = .ok (it, m, batch) := by
      rw [setBatch_batch]
      exact second
    obtain ⟨rest, list, flags, loc, chunk, off, after⟩ := takeItem_held held step
    rw [setBatch_setBatch] at after
    exact ⟨rest, list, flags, loc, chunk, off, after⟩
  rcases refill_held start first with ⟨held, nonempty⟩ | ⟨id, nodes, found, empty, held⟩
  · obtain ⟨rest, list, remaining⟩ := taken lists classes held
    have member : lists (worker, pickList size) ≠ [] := by
      rw [list]
      exact List.cons_ne_nil it rest
    exact ⟨middle, refilled, lists, classes, rest, first, held, .inl ⟨rfl, rfl, member⟩, list, remaining⟩
  · obtain ⟨rest, list, remaining⟩ := taken _ _ held
    exact ⟨middle, refilled, _, _, rest, first, held, .inr ⟨id, nodes, found, empty, rfl, rfl⟩, list, remaining⟩

theorem slabsInit_outside (bitmap : Bitmap) (heap : Ptr → Item) (id o : Nat) : ¬(slabsInit bitmap heap).Inside id o := by
  intro given
  rcases given with ⟨_, offset⟩
  simp only [slabsInit, Nat.mul_zero] at offset
  exact absurd offset (Nat.not_lt_zero o)

theorem slabsInit_sound {bitmap : Bitmap} (result : bitmapInit slabclassMaxElemNum = some bitmap) (heap : Ptr → Item) :
    (slabsInit bitmap heap).Sound := by
  have nothing := slabsInit_outside bitmap heap
  have size : bitmap.size = 2 ^ 22 := by
    cases result
    rfl
  refine ⟨?_, ?_, ?_, ?_, ?_, ?_, ?_⟩
  · exact fun id o inside => absurd inside (nothing id o)
  · exact fun id o inside => absurd inside (nothing id o)
  · exact fun id o inside => absurd inside (nothing id o)
  · exact fun _ => .init slabclassMaxElemNum (by decide) result
  · exact fun _ => size
  · exact fun _ => Nat.zero_le _
  · exact fun inside => absurd inside (nothing 0 0)

omit [DecidableEq Worker] in
theorem held_initial {s : State Worker} (initial : Initial s) : Held s (fun _ => []) (fun _ => 0) := by
  obtain ⟨⟨bitmap, heap, result, memory⟩, empty⟩ := initial
  refine ⟨memory ▸ slabsInit_sound result heap, ⟨?_, ?_, ?_, ?_, ?_⟩⟩
  · exact fun k => empty k.1 k.2
  · exact fun _ => List.nodup_nil
  · exact fun _ _ _ => List.disjoint_nil_left []
  · intro _ q member
    contradiction
  · intro _ q member
    contradiction

omit [DecidableEq Worker] in
theorem Held.store {s : State Worker} {lists : Worker × Nat → List Ptr} {classes : Worker × Nat → Nat}
    (start : Held s lists classes) (it : Ptr) (nkey nbytes : Nat) (data : Nat → Byte) :
    Held (s.store it nkey nbytes data) lists classes := by
  have header : ∀ q, ((s.store it nkey nbytes data).memory.heap q).next = (s.memory.heap q).next ∧
      ((s.store it nkey nbytes data).memory.heap q).flags = (s.memory.heap q).flags ∧
      ((s.store it nkey nbytes data).memory.heap q).loc = (s.memory.heap q).loc ∧
      ((s.store it nkey nbytes data).memory.heap q).slabsClsid = (s.memory.heap q).slabsClsid := by
    intro q
    by_cases here : q = it
    · subst here
      simp [State.store]
    · simp [State.store, here]
  refine ⟨start.sound.rewrite (fun q => (header q).2.2.1) (fun q => (header q).2.2.2) ?_, ?_⟩
  · exact fun inside freed => start.sound.zero inside ((header _).2.1.symm.trans freed)
  · exact start.held.congr (fun q => (header q).1) (fun q => (header q).2.1)

theorem Held.schedule {s : State Worker} {lists : Worker × Nat → List Ptr} {classes : Worker × Nat → Nat}
    (start : Held s lists classes) (worker : Worker) (buf : DeleteBufs) :
    Held (s.setBatch worker { s.batchSet worker with buf := buf }) lists classes := by
  have heads : (s.setBatch worker { s.batchSet worker with buf := buf }).heads = s.heads := by
    funext ⟨other, i⟩
    by_cases owner : other = worker
    · subst owner
      simp [State.heads, State.setBatch]
    · simp [State.heads, State.setBatch, owner]
  refine ⟨start.sound, ?_⟩
  rw [heads]
  exact start.held

omit [DecidableEq Worker] in
theorem Held.touch {s : State Worker} {lists : Worker × Nat → List Ptr} {classes : Worker × Nat → Nat}
    (start : Held s lists classes) (id : Nat) {pos : Nat} (bound : pos < 2 ^ 32) :
    Held (s.touch id pos) lists classes := by
  have touched : Reached (bitmapTouch (s.memory.slabclass id).bitmap pos) :=
    .step (.touch pos) (start.sound.reached id) bound rfl
  have ready : (s.memory.slabclass id).Prepared
      { s.memory.slabclass id with bitmap := bitmapTouch (s.memory.slabclass id).bitmap pos }
      (s.memory.slabclass id).slabs :=
    ⟨rfl, rfl, touched, start.sound.size id, start.sound.slabs id⟩
  have kept : s.memory.SameItems (s.touch id pos).memory ∧ (s.touch id pos).memory.Sound :=
    start.sound.prepared ready rfl rfl rfl
  exact ⟨kept.2, start.held.sameItems kept.1⟩

theorem held_step {s t : State Worker} (start : ∃ lists classes, Held s lists classes) (step : Step s t) :
    ∃ lists classes, Held t lists classes := by
  obtain ⟨lists, classes, held⟩ := start
  cases step with
  | alloc worker supply attempts size it m batch result =>
    obtain ⟨_, _, _, filled, _, _, _, _, _, _, _, _, _, after⟩ := batchAlloc_held held result
    exact ⟨_, filled, after⟩
  | store it nkey nbytes data => exact ⟨lists, classes, held.store it nkey nbytes data⟩
  | touch id pos bound => exact ⟨lists, classes, held.touch id bound⟩
  | schedule worker buf => exact ⟨lists, classes, held.schedule worker buf⟩

theorem held_reachable {s : State Worker} (reached : (allocation Worker).Reachable s) :
    ∃ lists classes, Held s lists classes := by
  have start : ∀ t : State Worker, Initial t → ∃ lists classes, Held t lists classes :=
    fun _ initial => ⟨_, _, held_initial initial⟩
  have preserved : ∀ t u : State Worker, (∃ lists classes, Held t lists classes) → Step t u →
      ∃ lists classes, Held u lists classes := fun _ _ before next => held_step before next
  exact reached.invariant start preserved

structure FreeLists (s : State Worker) (lists : Worker × Nat → List Ptr) : Prop where
  finite : ∀ worker i, Chain (fun q => (s.memory.heap q).next) ((s.batchSet worker).localSlab i) (lists (worker, i))
  nodup : ∀ k, (lists k).Nodup
  disjoint : ∀ k l, k ≠ l → (lists k).Disjoint (lists l)
  free : ∀ k, ∀ q ∈ lists k, (s.memory.heap q).flags ≠ 0
  used : ∀ q, (s.memory.heap q).flags = 0 → ∀ k, q ∉ lists k
  nonzero : ∀ k, ∀ q ∈ lists k, (s.memory.heap q).loc ≠ 0

omit [DecidableEq Worker] in
theorem Held.freeLists {s : State Worker} {lists : Worker × Nat → List Ptr} {classes : Worker × Nat → Nat}
    (held : Held s lists classes) : FreeLists s lists := by
  refine ⟨fun worker i => held.held.chain (worker, i), held.held.nodup, held.held.disjoint, held.held.free, ?_, ?_⟩
  · intro q used k member
    exact held.held.free k q member used
  · intro k q member zero
    obtain ⟨o, inside, rfl, nonzero⟩ := held.held.inside k q member
    rw [held.sound.loc _ o inside] at zero
    omega

theorem no_double_allocation (s : State Worker) (reached : (allocation Worker).Reachable s) :
    (∃ lists, FreeLists s lists) ∧
    ∀ worker supply attempts size it m batch,
      batchAlloc supply attempts size s.memory (s.batchSet worker) = .ok (it, m, batch) →
      (∃ middle refilled between,
        refill supply attempts size (pickList size) s.memory (s.batchSet worker) = .ok (middle, refilled) ∧
        FreeLists ({ s with memory := middle }.setBatch worker refilled) between ∧
        it ∈ between (worker, pickList size) ∧ ∀ k ≠ (worker, pickList size), it ∉ between k) ∧
      (∃ after, FreeLists ({ s with memory := m }.setBatch worker batch) after ∧ ∀ k, it ∉ after k) ∧
      (m.heap it).flags = 0 ∧ (m.heap it).loc ≠ 0 := by
  obtain ⟨lists, classes, held⟩ := held_reachable reached
  refine ⟨⟨lists, held.freeLists⟩, ?_⟩
  intro worker supply attempts size it m batch result
  obtain ⟨middle, refilled, between, filled, rest, first, during, _, list, flags, loc, _, off, after⟩ :=
    batchAlloc_held held result
  have member : it ∈ between (worker, pickList size) := by
    rw [list]
    exact List.mem_cons_self
  refine ⟨⟨middle, refilled, between, first, during.freeLists, member, ?_⟩, ⟨_, after.freeLists, off⟩, flags, ?_⟩
  · intro k other elsewhere
    exact during.held.disjoint k _ other elsewhere member
  · rw [loc]
    exact during.freeLists.nonzero _ it member

end Workers

section Start

def emptyItem : Item :=
  { next := none, flags := 0, slabsClsid := 0, nkey := 0, nbytes := 0, loc := 0, data := fun _ => 0 }

def emptyBitmap : Bitmap :=
  { map := fun _ => BitVec.allOnes 64, size := 2 ^ 22, currentSize := 0, walker := 0, offsetMask := BitVec.allOnes 64 }

def startMemory : Memory := slabsInit emptyBitmap (fun _ => emptyItem)

def startBatch : Batch :=
  { localSlab := fun _ => none, buf := fun _ => { numDeleteJob := 0, deleteIn := fun _ => ⟨0, 0, 0⟩ } }

theorem twoWorkers : NeZero 2 := ⟨two_ne_zero⟩

def startState : State (Fin 2) := { memory := startMemory, batchSet := fun _ => startBatch }

def ampleSupply : Supply := ⟨true, true⟩

def calm : Nat → Attempts := fun _ => ⟨0, []⟩

theorem startState_reachable : (allocation (Fin 2)).Reachable startState :=
  .initial ⟨⟨emptyBitmap, fun _ => emptyItem, rfl, rfl⟩, fun _ _ => rfl⟩

def firstClass : Slabclass :=
  { slabs := 0, slabList := fun _ => ⟨0, 0⟩, listSize := 16, bitmap := { emptyBitmap with currentSize := 512 } }

theorem startMemory_alloc :
    doSlabsAllocBatch ampleSupply 0 startMemory = .ok (some ⟨0, 0⟩, startMemory.newSlab 0 firstClass) := by
  have free : ¬(memLimit ≠ 0 ∧ memLimit < startMemory.memMalloced + slabSize 0 * perslab ∧
      0 < (startMemory.slabclass 0).slabs) := by decide
  have updated : bitmapUpdate (startMemory.slabclass 0).bitmap perslab =
      some (0, { emptyBitmap with currentSize := 512 }) := by rfl
  have grown : growSlabList ampleSupply { startMemory.slabclass 0 with bitmap := { emptyBitmap with currentSize := 512 } } =
      some firstClass := by rfl
  have succeeds : (0 : Int) ≠ -1 := by decide
  simp only [doSlabsAllocBatch, if_neg free, updated, if_neg succeeds, Memory.setClass_class, grown]
  simp only [ampleSupply, ite_true, Memory.newSlab, Memory.setClass, Function.update_idem]
  rfl

theorem startMemory_header : (startMemory.newSlab 0 firstClass).heap ⟨0, 0⟩ = freshItem 0 0 0 ⟨0, 0⟩ emptyItem := by
  have address : (⟨startMemory.blocks, 0⟩ : Ptr).add (slabSize 0 * 0) = ⟨0, 0⟩ := rfl
  have header := @newSlab_heap startMemory 0 firstClass (by decide) 0 (by decide)
  rw [address] at header
  rw [header]
  rfl

theorem slabSize_zero : slabSize 0 = 40 := rfl

theorem slabsClsid_first {size : Nat} (positive : 0 < size) (small : size ≤ 40) : slabsClsid size = .ok (some 0) := by
  have start : slabsClsidFrom size (powerLargest + 1) powerSmallest = .ok 0 := by
    rw [slabsClsidFrom, powerSmallest, slabSize_zero, if_neg (Nat.not_lt.mpr small)]
  rw [slabsClsid, if_neg (Nat.pos_iff_ne_zero.mp positive), start]
  rfl

theorem pickList_first {size : Nat} (small : size ≤ 40) : pickList size = 0 := by
  have range : List.range' powerSmallest (powerLargest - powerSmallest) = 0 :: List.range' 1 6 := rfl
  have fits : size ≤ localSlabSize 0 := small
  simp only [pickList, range, List.find?_cons, fits, decide_true, Option.getD_some]

def firstMemory : Memory := startMemory.newSlab 0 firstClass

theorem startMemory_slabsAlloc : slabsAllocBatch ampleSupply 0 startMemory = .ok (some ⟨0, 40⟩, firstMemory) := by
  have free : ¬startMemory.memoryFull = true := by decide
  have zero : ((startMemory.newSlab 0 firstClass).heap ⟨0, 0⟩).loc = 0 := by
    rw [startMemory_header]
    rfl
  have next : ((startMemory.newSlab 0 firstClass).heap ⟨0, 0⟩).next = some ⟨0, 40⟩ := by
    rw [startMemory_header]
    rfl
  simp only [slabsAllocBatch, if_neg free, startMemory_alloc, zero, ite_true, next]
  rfl

def firstBatch : Batch := { startBatch with localSlab := Function.update startBatch.localSlab 0 (some ⟨0, 40⟩) }

theorem startMemory_itemAlloc (bufs : DeleteBufs) :
    itemAllocBatch ampleSupply calm 16 startMemory bufs = .ok (some ⟨0, 40⟩, firstMemory, bufs) := by
  have found : slabsClsid ((sizeofItem + 16) % 2 ^ 32) = .ok (some 0) := slabsClsid_first (by decide) (by decide)
  have free : ¬startMemory.memoryFull = true := by decide
  have round : itemAllocRounds ampleSupply calm 0 2 startMemory bufs = .ok (some ⟨0, 40⟩, firstMemory, bufs) := by
    rw [itemAllocRounds, if_neg free, startMemory_slabsAlloc]
  rw [itemAllocBatch, found]
  exact round

theorem refill_none {supply : Supply} {attempts : Nat → Attempts} {size i : Nat} {m m' : Memory} {batch : Batch}
    {itList : Option Ptr} {bufs : DeleteBufs} (empty : batch.localSlab i = none)
    (alloc : itemAllocBatch supply attempts size m batch.buf = .ok (itList, m', bufs)) :
    refill supply attempts size i m batch =
      .ok (m', { localSlab := Function.update batch.localSlab i itList, buf := bufs }) := by
  simp only [refill, empty, alloc]

theorem startBatch_refill : refill ampleSupply calm 16 0 startMemory startBatch = .ok (firstMemory, firstBatch) :=
  refill_none rfl (startMemory_itemAlloc startBatch.buf)

theorem refill_some {supply : Supply} {attempts : Nat → Attempts} {size i : Nat} {m : Memory} {batch : Batch}
    {it : Ptr} (present : batch.localSlab i = some it) : refill supply attempts size i m batch = .ok (m, batch) := by
  simp only [refill, present]

theorem firstMemory_item : firstMemory.heap ⟨0, 40⟩ = freshItem 0 0 1 ⟨0, 0⟩ emptyItem := by
  have address : (⟨startMemory.blocks, 0⟩ : Ptr).add (slabSize 0 * 1) = ⟨0, 40⟩ := rfl
  have header := @newSlab_heap startMemory 0 firstClass (by decide) 1 (by decide)
  rw [address] at header
  rw [firstMemory, header]
  rfl

def handOut (i : Nat) (it : Ptr) (m : Memory) (batch : Batch) : Memory × Batch :=
  ({ m with heap := Function.update m.heap it { m.heap it with flags := 0 } },
    { batch with localSlab := Function.update batch.localSlab i (m.heap it).next })

theorem handOut_head (i : Nat) (it : Ptr) (m : Memory) (batch : Batch) :
    (handOut i it m batch).2.localSlab i = (m.heap it).next := by
  simp only [handOut, Function.update_self]

theorem takeItem_head {i : Nat} {it : Ptr} {batch : Batch} (m : Memory) (head : batch.localSlab i = some it) :
    takeItem i m batch = .ok (it, handOut i it m batch) := by
  simp only [takeItem, head, handOut]

theorem batchAlloc_refilled {supply : Supply} {attempts : Nat → Attempts} {size i : Nat} {m m' : Memory}
    {batch batch' : Batch} {it : Ptr} (picked : pickList size = i)
    (first : refill supply attempts size i m batch = .ok (m', batch')) (head : batch'.localSlab i = some it) :
    batchAlloc supply attempts size m batch = .ok (it, handOut i it m' batch') := by
  rw [batchAlloc, picked, first]
  exact takeItem_head m' head

theorem startBatch_alloc :
    batchAlloc ampleSupply calm 16 startMemory startBatch = .ok (⟨0, 40⟩, handOut 0 ⟨0, 40⟩ firstMemory firstBatch) :=
  batchAlloc_refilled (pickList_first (by decide)) startBatch_refill rfl

theorem no_double_allocation_start : (allocation (Fin 2)).Reachable startState ∧
    ∃ it m batch, batchAlloc ampleSupply calm 16 startState.memory (startState.batchSet 0) = .ok (it, m, batch) ∧
      (∃ after, FreeLists ({ startState with memory := m }.setBatch 0 batch) after ∧ ∀ k, it ∉ after k) := by
  obtain ⟨_, handed⟩ := no_double_allocation startState startState_reachable
  exact ⟨startState_reachable, _, _, _, startBatch_alloc, (handed 0 ampleSupply calm 16 _ _ _ startBatch_alloc).2.1⟩

end Start

end MegaKV.Slab
