import MegaKV.Library.LinkedList
import MegaKV.Slab.ClockRefinement
import MegaKV.Slab.Slabs

namespace MegaKV.Slab

open Library

theorem slabSize_pos (id : Nat) (valid : id ≤ powerLargest) : 0 < slabSize id := by
  have small : id ≤ 7 := valid
  interval_cases id <;> decide

section Chunks

variable {id slabs : Nat} {head : Ptr} {heap : Ptr → Item}

theorem chunk_inj {x y : Nat} (valid : id ≤ powerLargest)
    (same : head.add (slabSize id * x) = head.add (slabSize id * y)) : x = y := by
  have bytes := congrArg Ptr.byte same
  simp only [Ptr.add] at bytes
  exact Nat.eq_of_mul_eq_mul_left (slabSize_pos id valid) (by omega)

theorem linkChunks_other (count : Nat) (q : Ptr) (outside : ∀ x < count, q ≠ head.add (slabSize id * x)) :
    linkChunks id slabs head heap count q = heap q := by
  induction count with
  | zero => rfl
  | succ count ih =>
    simp only [linkChunks]
    rw [Function.update_of_ne (outside count (by omega))]
    exact ih (fun x before => outside x (by omega))

theorem linkChunks_chunk (valid : id ≤ powerLargest) (count x : Nat) (inside : x < count) :
    linkChunks id slabs head heap count (head.add (slabSize id * x)) =
      freshItem id slabs x head (heap (head.add (slabSize id * x))) := by
  induction count with
  | zero => omega
  | succ count ih =>
    simp only [linkChunks]
    by_cases last : x = count
    · subst last
      rw [Function.update_self, linkChunks_other]
      intro y before same
      have equal := chunk_inj valid same
      omega
    · have other : head.add (slabSize id * x) ≠ head.add (slabSize id * count) :=
        fun same => last (chunk_inj valid same)
      rw [Function.update_of_ne other]
      exact ih (by omega)

theorem linkChunks_chain (valid : id ≤ powerLargest) (start : Nat) (inside : start < perslab) :
    Chain (fun q => (linkChunks id slabs head heap perslab q).next) (some (head.add (slabSize id * start)))
      ((List.range' start (perslab - start)).map (fun x => head.add (slabSize id * x))) := by
  apply Chain.range (fun x => head.add (slabSize id * x)) (perslab - start) start (by omega)
  · intro x _ high
    rw [linkChunks_chunk valid perslab x (by omega)]
    have inner : x ≠ perslab - 1 := by omega
    simp only [freshItem, inner, ite_false]
  · rw [show start + (perslab - start) - 1 = perslab - 1 by omega,
      linkChunks_chunk valid perslab (perslab - 1) (by omega)]
    simp only [freshItem, ite_true]

end Chunks

/-- Offset `o` of class `id` is an item of an allocated slab. -/
def Memory.Inside (m : Memory) (id o : Nat) : Prop :=
  id ≤ powerLargest ∧ o < perslab * (m.slabclass id).slabs

def Memory.item (m : Memory) (id o : Nat) : Ptr := itemAt (m.slabclass id) id o

/-- What holds of the shared memory between two steps. -/
structure Memory.Sound (m : Memory) : Prop where
  loc : ∀ id o, m.Inside id o → (m.heap (m.item id o)).loc = id * 2 ^ 29 + o
  clsid : ∀ id o, m.Inside id o → (m.heap (m.item id o)).slabsClsid = id
  block : ∀ id o, m.Inside id o → (m.item id o).block < m.blocks
  reached : ∀ id, Reached (m.slabclass id).bitmap
  size : ∀ id, (m.slabclass id).bitmap.size = 2 ^ 22
  slabs : ∀ id, 512 * (m.slabclass id).slabs ≤ (m.slabclass id).bitmap.currentSize
  zero : m.Inside 0 0 → (m.heap (m.item 0 0)).flags ≠ 0

section Sound

variable {m : Memory}

theorem Memory.Sound.offset_lt (sound : m.Sound) {id o : Nat} (inside : m.Inside id o) : o < 2 ^ 28 := by
  have current := (sound.reached id).valid.currentSize
  have size := sound.size id
  have slabs := sound.slabs id
  have offset := inside.2
  simp only [perslab, perslabBits] at offset
  omega

theorem Memory.Sound.item_inj (sound : m.Sound) {id o other p : Nat} (left : m.Inside id o) (right : m.Inside other p)
    (same : m.item id o = m.item other p) : id = other ∧ o = p := by
  have first := sound.loc id o left
  have second := sound.loc other p right
  have low := sound.offset_lt left
  have high := sound.offset_lt right
  rw [same, second] at first
  omega

structure Memory.SameItems (m m' : Memory) : Prop where
  heap : m'.heap = m.heap
  blocks : m'.blocks = m.blocks
  slabs : ∀ id, (m'.slabclass id).slabs = (m.slabclass id).slabs
  slabList : ∀ id, (m'.slabclass id).slabList = (m.slabclass id).slabList

theorem Memory.SameItems.inside {m' : Memory} (same : m.SameItems m') (id o : Nat) :
    m'.Inside id o ↔ m.Inside id o := by
  simp only [Memory.Inside, same.slabs]

theorem Memory.SameItems.item {m' : Memory} (same : m.SameItems m') (id o : Nat) : m'.item id o = m.item id o := by
  simp only [Memory.item, itemAt, same.slabList]

/-- A class as an allocation leaves it, with room in the bitmap for `count` slabs. -/
structure Slabclass.Prepared (before p : Slabclass) (count : Nat) : Prop where
  slabs : p.slabs = before.slabs
  slabList : p.slabList = before.slabList
  reached : Reached p.bitmap
  size : p.bitmap.size = 2 ^ 22
  room : 512 * count ≤ p.bitmap.currentSize

theorem Memory.setClass_self (m : Memory) (id : Nat) : m.setClass id (m.slabclass id) = m := by
  simp only [Memory.setClass, Function.update_eq_self]

theorem Memory.setClass_class (m : Memory) (id : Nat) (p : Slabclass) : (m.setClass id p).slabclass id = p := by
  simp only [Memory.setClass, Function.update_self]

theorem Memory.setClass_other (m : Memory) {id other : Nat} (p : Slabclass) (different : other ≠ id) :
    (m.setClass id p).slabclass other = m.slabclass other := by
  simp only [Memory.setClass, Function.update_of_ne different]

theorem Memory.setClass_setClass (m : Memory) (id : Nat) (p q : Slabclass) :
    (m.setClass id p).setClass id q = m.setClass id q := by
  simp only [Memory.setClass, Function.update_idem]

theorem Memory.Sound.prepared (sound : m.Sound) {id : Nat} {p : Slabclass} {m' : Memory}
    (ready : (m.slabclass id).Prepared p (m.slabclass id).slabs) (classes : m'.slabclass = (m.setClass id p).slabclass)
    (heap : m'.heap = m.heap) (blocks : m'.blocks = m.blocks) : m.SameItems m' ∧ m'.Sound := by
  have same : m.SameItems m' := by
    refine ⟨heap, blocks, ?_, ?_⟩ <;> intro other <;> rw [classes] <;> by_cases here : other = id
    · rw [here, m.setClass_class, ready.slabs]
    · rw [m.setClass_other p here]
    · rw [here, m.setClass_class, ready.slabList]
    · rw [m.setClass_other p here]
  refine ⟨same, ?_, ?_, ?_, ?_, ?_, ?_, ?_⟩
  · intro other o inside
    rw [heap, same.item]
    exact sound.loc other o ((same.inside other o).mp inside)
  · intro other o inside
    rw [heap, same.item]
    exact sound.clsid other o ((same.inside other o).mp inside)
  · intro other o inside
    rw [blocks, same.item]
    exact sound.block other o ((same.inside other o).mp inside)
  · intro other
    rw [classes]
    by_cases here : other = id
    · rw [here, m.setClass_class]
      exact ready.reached
    · rw [m.setClass_other p here]
      exact sound.reached other
  · intro other
    rw [classes]
    by_cases here : other = id
    · rw [here, m.setClass_class]
      exact ready.size
    · rw [m.setClass_other p here]
      exact sound.size other
  · intro other
    rw [same.slabs, classes]
    by_cases here : other = id
    · rw [here, m.setClass_class]
      exact ready.room
    · rw [m.setClass_other p here]
      exact sound.slabs other
  · intro inside
    rw [heap, same.item]
    exact sound.zero ((same.inside 0 0).mp inside)

def Memory.newSlab (m : Memory) (id : Nat) (p : Slabclass) : Memory :=
  { m.setClass id { p with slabList := Function.update p.slabList p.slabs ⟨m.blocks, 0⟩, slabs := p.slabs + 1 } with
    heap := linkChunks id p.slabs ⟨m.blocks, 0⟩ m.heap perslab
    memMalloced := m.memMalloced + slabSize id * perslab
    blocks := m.blocks + 1 }

def Memory.LimitReached (m : Memory) (id : Nat) : Prop :=
  memLimit < m.memMalloced + slabSize id * perslab ∧ 0 < (m.slabclass id).slabs

def Slabclass.Capped (p : Slabclass) : Prop := p.bitmap.size ≤ p.bitmap.currentSize + perslab / bitsPerWord

def Supply.Covers (supply : Supply) (p : Slabclass) : Prop :=
  (p.slabs = p.listSize → supply.realloc = true) ∧ supply.malloc = true

/-- The class with a longer bitmap, whatever its list has grown to. -/
structure Slabclass.Longer (before p : Slabclass) : Prop where
  slabs : p.slabs = before.slabs
  slabList : p.slabList = before.slabList
  bitmap : p.bitmap = { before.bitmap with currentSize := before.bitmap.currentSize + perslab / bitsPerWord }

/-- The ways out of `do_slabs_alloc_batch`. -/
inductive SlabExit (supply : Supply) (id : Nat) (m : Memory) : Option Ptr → Memory → Prop where
  | refused (stops : m.LimitReached id ∨ (m.slabclass id).Capped) :
      SlabExit supply id m none { m with memoryFull := true }
  | failed (p : Slabclass) (passes : ¬(m.LimitReached id ∨ (m.slabclass id).Capped))
      (missing : ¬supply.Covers (m.slabclass id)) (longer : (m.slabclass id).Longer p) :
      SlabExit supply id m none { m.setClass id p with memoryFull := true }
  | grown (p : Slabclass) (passes : ¬(m.LimitReached id ∨ (m.slabclass id).Capped))
      (covers : supply.Covers (m.slabclass id)) (longer : (m.slabclass id).Longer p) :
      SlabExit supply id m (some ⟨m.blocks, 0⟩) (m.newSlab id p)

theorem bitmapUpdate_capped {p : Slabclass} (capped : p.Capped) : bitmapUpdate p.bitmap perslab = some (-1, p.bitmap) :=
  if_pos capped

theorem bitmapUpdate_room {p : Slabclass} (room : ¬p.Capped) :
    bitmapUpdate p.bitmap perslab =
      some (0, { p.bitmap with currentSize := p.bitmap.currentSize + perslab / bitsPerWord }) := by
  have whole : perslab % bitsPerWord = 0 := by decide
  exact (if_neg room).trans (if_pos whole)

theorem growSlabList_none {supply : Supply} {p : Slabclass} (result : growSlabList supply p = none) :
    ¬(p.slabs = p.listSize → supply.realloc = true) := by
  unfold growSlabList at result
  split at result
  · rename_i last
    split at result
    · cases result
    · rename_i fails
      exact fun covers => fails (covers last)
  · cases result

theorem growSlabList_some {supply : Supply} {p grown : Slabclass} (result : growSlabList supply p = some grown) :
    (p.slabs = p.listSize → supply.realloc = true) ∧
      grown.slabs = p.slabs ∧ grown.slabList = p.slabList ∧ grown.bitmap = p.bitmap := by
  unfold growSlabList at result
  split at result
  · split at result
    · rename_i succeeds
      cases result
      exact ⟨fun _ => succeeds, rfl, rfl, rfl⟩
    · cases result
  · rename_i inner
    cases result
    exact ⟨fun last => absurd last inner, rfl, rfl, rfl⟩

theorem doSlabsAllocBatch_ok (supply : Supply) (id : Nat) (m : Memory) :
    ∃ head m', doSlabsAllocBatch supply id m = .ok (head, m') := by
  have succeeds : ¬(0 : Int) = -1 := by decide
  simp only [doSlabsAllocBatch]
  split
  · exact ⟨_, _, rfl⟩
  · by_cases capped : (m.slabclass id).Capped
    · rw [bitmapUpdate_capped capped]
      exact ⟨_, _, rfl⟩
    · rw [bitmapUpdate_room capped]
      simp only [if_neg succeeds]
      split
      · exact ⟨_, _, rfl⟩
      · split
        · exact ⟨_, _, rfl⟩
        · exact ⟨_, _, rfl⟩

theorem doSlabsAllocBatch_exit {supply : Supply} {id : Nat} {head : Option Ptr} {m' : Memory}
    (result : doSlabsAllocBatch supply id m = .ok (head, m')) : SlabExit supply id m head m' := by
  have limited : memLimit ≠ 0 := by decide
  simp only [doSlabsAllocBatch] at result
  split at result
  · rename_i limit
    cases result
    exact .refused (.inl limit.2)
  · rename_i within
    by_cases capped : (m.slabclass id).Capped
    · rw [bitmapUpdate_capped capped] at result
      cases result
      rw [m.setClass_self]
      exact .refused (.inr capped)
    · rw [bitmapUpdate_room capped] at result
      have passes : ¬(m.LimitReached id ∨ (m.slabclass id).Capped) := by
        intro either
        rcases either with limit | cap
        · exact within ⟨limited, limit⟩
        · exact capped cap
      simp only [m.setClass_class, show ¬((0 : Int) = -1) by decide, ite_false] at result
      split at result
      · rename_i none
        cases result
        exact .failed _ passes (fun covers => growSlabList_none none covers.1) ⟨rfl, rfl, rfl⟩
      · rename_i p grown
        obtain ⟨listed, slabs, slabList, bitmap⟩ := growSlabList_some grown
        have longer : (m.slabclass id).Longer p := ⟨slabs, slabList, bitmap⟩
        split at result
        · rename_i provides
          cases result
          have grows : SlabExit supply id m _ _ := .grown p passes ⟨listed, provides⟩ longer
          simpa only [Memory.newSlab, Memory.setClass, Function.update_idem] using grows
        · rename_i fails
          cases result
          rw [m.setClass_setClass]
          exact .failed p passes (fun covers => fails covers.2) longer

theorem Slabclass.Longer.prepared {before p : Slabclass} (longer : before.Longer p) (room : ¬before.Capped)
    (reached : Reached before.bitmap) (size : before.bitmap.size = 2 ^ 22)
    (slabs : 512 * before.slabs ≤ before.bitmap.currentSize) : before.Prepared p (before.slabs + 1) := by
  have updated := bitmapUpdate_room room
  rw [← longer.bitmap] at updated
  have performed : (Operation.update perslab).perform before.bitmap = some p.bitmap := by
    simp only [Operation.perform, updated, Option.map_some]
  refine ⟨longer.slabs, longer.slabList, .step (.update perslab) reached ⟨by decide, by decide, by decide⟩ performed, ?_, ?_⟩
  · rw [longer.bitmap]
    exact size
  · rw [longer.bitmap]
    simp only [perslab, perslabBits, bitsPerWord]
    omega

theorem doSlabsAllocBatch_cases (sound : m.Sound) {supply : Supply} {id : Nat} {head : Option Ptr} {m' : Memory}
    (result : doSlabsAllocBatch supply id m = .ok (head, m')) :
    (∃ p, head = none ∧ m' = { m.setClass id p with memoryFull := true } ∧
      (m.slabclass id).Prepared p (m.slabclass id).slabs) ∨
    (∃ p, head = some ⟨m.blocks, 0⟩ ∧ m' = m.newSlab id p ∧
      (m.slabclass id).Prepared p ((m.slabclass id).slabs + 1)) := by
  have reached := sound.reached id
  have size := sound.size id
  have slabs := sound.slabs id
  cases doSlabsAllocBatch_exit result with
  | refused _ =>
    have kept : (m.slabclass id).Prepared (m.slabclass id) (m.slabclass id).slabs := ⟨rfl, rfl, reached, size, slabs⟩
    exact .inl ⟨m.slabclass id, rfl, by rw [m.setClass_self], kept⟩
  | failed p passes _ longer =>
    have prepared := longer.prepared (fun capped => passes (.inr capped)) reached size slabs
    exact .inl ⟨p, rfl, rfl, { prepared with room := by have room := prepared.room; omega }⟩
  | grown p passes _ longer =>
    exact .inr ⟨p, rfl, rfl, longer.prepared (fun capped => passes (.inr capped)) reached size slabs⟩

theorem newSlab_old (sound : m.Sound) {id : Nat} {p : Slabclass} {count : Nat}
    (ready : (m.slabclass id).Prepared p count) {other o : Nat} (inside : m.Inside other o) :
    (m.newSlab id p).Inside other o ∧ (m.newSlab id p).item other o = m.item other o ∧
      (m.newSlab id p).heap (m.item other o) = m.heap (m.item other o) := by
  have offset := inside.2
  have untouched : (m.newSlab id p).heap (m.item other o) = m.heap (m.item other o) := by
    apply linkChunks_other
    intro x _ same
    have fresh := congrArg Ptr.block same
    have old := sound.block other o inside
    simp only [Ptr.add] at fresh
    omega
  by_cases here : other = id
  · subst here
    have slab : o / 2 ^ perslabBits < p.slabs := by
      rw [ready.slabs, Nat.div_lt_iff_lt_mul (Nat.two_pow_pos _), Nat.mul_comm]
      exact offset
    refine ⟨⟨inside.1, ?_⟩, ?_, untouched⟩
    · simp only [Memory.newSlab, Memory.setClass, Function.update_self, ready.slabs, Nat.mul_succ]
      omega
    · simp only [Memory.item, itemAt, Memory.newSlab, Memory.setClass, Function.update_self,
        Function.update_of_ne (Nat.ne_of_lt slab), ready.slabList]
  · have class_same : (m.newSlab id p).slabclass other = m.slabclass other := m.setClass_other _ here
    refine ⟨⟨inside.1, ?_⟩, ?_, untouched⟩
    · rw [class_same]
      exact offset
    · simp only [Memory.item, class_same]

theorem newSlab_chunk {id : Nat} {p : Slabclass} {count : Nat} (valid : id ≤ powerLargest)
    (ready : (m.slabclass id).Prepared p count) {x : Nat} (chunk : x < perslab) :
    (m.newSlab id p).Inside id (perslab * (m.slabclass id).slabs + x) ∧
      (m.newSlab id p).item id (perslab * (m.slabclass id).slabs + x) =
        (⟨m.blocks, 0⟩ : Ptr).add (slabSize id * x) := by
  have slab : (perslab * (m.slabclass id).slabs + x) / 2 ^ perslabBits = p.slabs := by
    have remainder : x / 2 ^ perslabBits = 0 := Nat.div_eq_of_lt chunk
    rw [ready.slabs, perslab, Nat.mul_add_div (Nat.two_pow_pos _), remainder, Nat.add_zero]
  have position : (perslab * (m.slabclass id).slabs + x) % 2 ^ perslabBits = x :=
    (Nat.mul_add_mod _ _ _).trans (Nat.mod_eq_of_lt chunk)
  refine ⟨⟨valid, ?_⟩, ?_⟩
  · simp only [Memory.newSlab, Memory.setClass, Function.update_self, ready.slabs, Nat.mul_succ]
    omega
  · simp only [Memory.item, itemAt, slab, position, Memory.newSlab, Memory.setClass, Function.update_self]

theorem newSlab_inside {id : Nat} {p : Slabclass} {count : Nat} (ready : (m.slabclass id).Prepared p count)
    {other o : Nat} (inside : (m.newSlab id p).Inside other o) :
    m.Inside other o ∨ (other = id ∧ ∃ x < perslab, o = perslab * (m.slabclass id).slabs + x) := by
  obtain ⟨valid, offset⟩ := inside
  by_cases here : other = id
  · subst here
    simp only [Memory.newSlab, Memory.setClass, Function.update_self, ready.slabs, Nat.mul_succ] at offset
    by_cases old : o < perslab * (m.slabclass other).slabs
    · exact .inl ⟨valid, old⟩
    · exact .inr ⟨rfl, o - perslab * (m.slabclass other).slabs, by omega, by omega⟩
  · have class_same : (m.newSlab id p).slabclass other = m.slabclass other := m.setClass_other _ here
    rw [class_same] at offset
    exact .inl ⟨valid, offset⟩

theorem freshItem_loc {id slabs x : Nat} {head : Ptr} {old : Item} (valid : id ≤ powerLargest) (chunk : x < perslab)
    (room : perslab * slabs + perslab ≤ 2 ^ 28) :
    (freshItem id slabs x head old).loc = id * 2 ^ 29 + (perslab * slabs + x) := by
  have small : id ≤ 7 := valid
  have shift : id <<< (locBits - slabIdBits) = id * 2 ^ 29 := Nat.shiftLeft_eq _ _
  simp only [freshItem, shift]
  rw [Nat.mod_eq_of_lt (by omega), Nat.add_assoc]

theorem Slabclass.Prepared.bound {before p : Slabclass} {count : Nat} (ready : before.Prepared p count) :
    perslab * count ≤ 2 ^ 28 := by
  have current := ready.reached.valid.currentSize
  have size := ready.size
  have room := ready.room
  simp only [perslab, perslabBits]
  omega

theorem newSlab_heap {id : Nat} {p : Slabclass} (valid : id ≤ powerLargest) {x : Nat} (chunk : x < perslab) :
    (m.newSlab id p).heap ((⟨m.blocks, 0⟩ : Ptr).add (slabSize id * x)) =
      freshItem id p.slabs x ⟨m.blocks, 0⟩ (m.heap ((⟨m.blocks, 0⟩ : Ptr).add (slabSize id * x))) :=
  linkChunks_chunk valid perslab x chunk

theorem Memory.Sound.newSlab (sound : m.Sound) {id : Nat} {p : Slabclass} (valid : id ≤ powerLargest)
    (ready : (m.slabclass id).Prepared p ((m.slabclass id).slabs + 1)) : (m.newSlab id p).Sound := by
  have bound := ready.bound
  rw [Nat.mul_succ] at bound
  have fresh : ∀ x < perslab,
      (m.newSlab id p).heap ((m.newSlab id p).item id (perslab * (m.slabclass id).slabs + x)) =
        freshItem id (m.slabclass id).slabs x ⟨m.blocks, 0⟩ (m.heap ((⟨m.blocks, 0⟩ : Ptr).add (slabSize id * x))) := by
    intro x chunk
    rw [(newSlab_chunk valid ready chunk).2, newSlab_heap valid chunk, ready.slabs]
  refine ⟨?_, ?_, ?_, ?_, ?_, ?_, ?_⟩
  · intro other o inside
    rcases newSlab_inside ready inside with old | ⟨rfl, x, chunk, rfl⟩
    · obtain ⟨_, item, heap⟩ := newSlab_old sound ready old
      rw [item, heap]
      exact sound.loc other o old
    · rw [fresh x chunk]
      exact freshItem_loc valid chunk bound
  · intro other o inside
    rcases newSlab_inside ready inside with old | ⟨rfl, x, chunk, rfl⟩
    · obtain ⟨_, item, heap⟩ := newSlab_old sound ready old
      rw [item, heap]
      exact sound.clsid other o old
    · rw [fresh x chunk]
      rfl
  · intro other o inside
    rcases newSlab_inside ready inside with old | ⟨rfl, x, chunk, rfl⟩
    · rw [(newSlab_old sound ready old).2.1]
      exact Nat.lt_succ_of_lt (sound.block other o old)
    · rw [(newSlab_chunk valid ready chunk).2]
      exact Nat.lt_succ_self _
  · intro other
    by_cases here : other = id
    · subst here
      simp only [Memory.newSlab, Memory.setClass, Function.update_self]
      exact ready.reached
    · rw [show (m.newSlab id p).slabclass other = m.slabclass other from m.setClass_other _ here]
      exact sound.reached other
  · intro other
    by_cases here : other = id
    · subst here
      simp only [Memory.newSlab, Memory.setClass, Function.update_self]
      exact ready.size
    · rw [show (m.newSlab id p).slabclass other = m.slabclass other from m.setClass_other _ here]
      exact sound.size other
  · intro other
    by_cases here : other = id
    · subst here
      simp only [Memory.newSlab, Memory.setClass, Function.update_self, ready.slabs]
      exact ready.room
    · rw [show (m.newSlab id p).slabclass other = m.slabclass other from m.setClass_other _ here]
      exact sound.slabs other
  · intro inside
    rcases newSlab_inside ready inside with old | ⟨rfl, x, chunk, start⟩
    · obtain ⟨_, item, heap⟩ := newSlab_old sound ready old
      rw [item, heap]
      exact sound.zero old
    · have zero := fresh x chunk
      rw [← start] at zero
      rw [zero]
      exact Nat.one_ne_zero

theorem Memory.Sound.rewrite (sound : m.Sound) {heap : Ptr → Item} (loc : ∀ q, (heap q).loc = (m.heap q).loc)
    (clsid : ∀ q, (heap q).slabsClsid = (m.heap q).slabsClsid)
    (zero : m.Inside 0 0 → (heap (m.item 0 0)).flags ≠ 0) : ({ m with heap := heap } : Memory).Sound :=
  { loc := fun id o inside => (loc _).trans (sound.loc id o inside)
    clsid := fun id o inside => (clsid _).trans (sound.clsid id o inside)
    block := sound.block
    reached := sound.reached
    size := sound.size
    slabs := sound.slabs
    zero := zero }

end Sound

end MegaKV.Slab
