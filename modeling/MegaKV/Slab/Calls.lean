import MegaKV.Slab.FreeLists

namespace MegaKV.Slab

open Library

section Calls

/-- The shared memory, and the class with which a worker inside `slabs_alloc_batch` waits for the
    lock: `memory_full` was read before. -/
structure CallState (Worker : Type) where
  memory : Memory
  waiting : Worker → Option Nat

/-- One call of `do_slabs_alloc_batch`, with the memory it finds. -/
structure Call where
  supply : Supply
  id : Nat
  before : Memory

def Call.result (call : Call) : Except Halt (Option Ptr × Memory) := doSlabsAllocBatch call.supply call.id call.before

variable {Worker : Type} [DecidableEq Worker]

def CallState.wait (s : CallState Worker) (worker : Worker) (id : Option Nat) : CallState Worker :=
  { s with waiting := Function.update s.waiting worker id }

def CallState.setBitmap (s : CallState Worker) (id : Nat) (bitmap : Bitmap) : CallState Worker :=
  { s with memory := s.memory.setClass id { s.memory.slabclass id with bitmap := bitmap } }

variable (Worker) in
/-- Calls of `slabs_alloc_batch` by any workers from `slabs_init` on, among uses of the bitmaps. -/
inductive CallRun : List Call → CallState Worker → Prop where
  | init (bitmap : Bitmap) (heap : Ptr → Item) (result : bitmapInit slabclassMaxElemNum = some bitmap) :
      CallRun [] { memory := slabsInit bitmap heap, waiting := fun _ => none }
  | enter {calls : List Call} {s : CallState Worker} (worker : Worker) (size id : Nat) (run : CallRun calls s)
      (idle : s.waiting worker = none) (room : s.memory.memoryFull = false)
      (clsid : slabsClsid size = .ok (some id)) : CallRun calls (s.wait worker (some id))
  | allocate {calls : List Call} {s : CallState Worker} (worker : Worker) (supply : Supply) (id : Nat)
      (head : Option Ptr) (memory : Memory) (run : CallRun calls s) (waits : s.waiting worker = some id)
      (result : doSlabsAllocBatch supply id s.memory = .ok (head, memory)) :
      CallRun (calls ++ [⟨supply, id, s.memory⟩]) ({ s with memory := memory }.wait worker none)
  | evict {calls : List Call} {s : CallState Worker} (id : Nat) (offsetArray : List Nat) (bitmap : Bitmap)
      (run : CallRun calls s)
      (result : bitmapEvictBatch (s.memory.slabclass id).bitmap evictBatchSize = some (offsetArray, bitmap)) :
      CallRun calls (s.setBitmap id bitmap)
  | touch {calls : List Call} {s : CallState Worker} (id pos : Nat) (run : CallRun calls s) (bound : pos < 2 ^ 32) :
      CallRun calls (s.setBitmap id (bitmapTouch (s.memory.slabclass id).bitmap pos))

structure CallState.Sound (s : CallState Worker) : Prop where
  memory : s.memory.Sound
  waiting : ∀ worker id, s.waiting worker = some id → id ≤ powerLargest

theorem doSlabsAllocBatch_sound {m m' : Memory} (sound : m.Sound) {supply : Supply} {id : Nat} {head : Option Ptr}
    (valid : id ≤ powerLargest) (result : doSlabsAllocBatch supply id m = .ok (head, m')) : m'.Sound := by
  rcases doSlabsAllocBatch_cases sound result with ⟨p, _, same, ready⟩ | ⟨p, _, rfl, ready⟩
  · rw [same]
    exact (@Memory.Sound.prepared m sound id p { m.setClass id p with memoryFull := true } ready rfl rfl rfl).2
  · exact sound.newSlab valid ready

theorem CallState.Sound.wait {s : CallState Worker} (sound : s.Sound) (worker : Worker) {entered : Option Nat}
    (valid : ∀ id, entered = some id → id ≤ powerLargest) : (s.wait worker entered).Sound := by
  refine ⟨sound.memory, ?_⟩
  intro other id waits
  simp only [CallState.wait, Function.update_apply] at waits
  split at waits
  · exact valid id waits
  · exact sound.waiting other id waits

omit [DecidableEq Worker] in
theorem CallState.Sound.setBitmap {s : CallState Worker} (sound : s.Sound) {id : Nat} {bitmap : Bitmap}
    (reached : Reached bitmap) (size : bitmap.size = (s.memory.slabclass id).bitmap.size)
    (current : bitmap.currentSize = (s.memory.slabclass id).bitmap.currentSize) : (s.setBitmap id bitmap).Sound := by
  have slabs := sound.memory.slabs id
  have ready : (s.memory.slabclass id).Prepared { s.memory.slabclass id with bitmap := bitmap }
      (s.memory.slabclass id).slabs :=
    ⟨rfl, rfl, reached, size.trans (sound.memory.size id), current ▸ slabs⟩
  exact ⟨(sound.memory.prepared ready rfl rfl rfl).2, sound.waiting⟩

theorem CallRun.sound {calls : List Call} {s : CallState Worker} (run : CallRun Worker calls s) : s.Sound := by
  induction run with
  | init bitmap heap result => exact ⟨slabsInit_sound result heap, fun _ _ waits => nomatch waits⟩
  | enter worker size id _ _ _ clsid sound =>
    apply sound.wait worker
    intro other same
    cases same
    exact slabsClsid_le clsid
  | allocate worker supply id head memory _ waits result sound =>
    have after : ({ memory := memory, waiting := _ } : CallState Worker).Sound :=
      ⟨doSlabsAllocBatch_sound sound.memory (sound.waiting worker id waits) result, sound.waiting⟩
    exact after.wait worker (fun _ none => nomatch none)
  | evict id offsetArray bitmap _ result sound =>
    obtain ⟨reached, size, current⟩ := (sound.memory.reached id).evict (by decide) (by decide) result
    exact sound.setBitmap reached size current
  | touch id pos _ bound sound =>
    exact sound.setBitmap (.step (.touch pos) (sound.memory.reached id) bound rfl) rfl rfl

end Calls

section Consistency

def Memory.Consistent (m : Memory) : Prop :=
  ∀ id ≤ powerLargest, 64 * (m.slabclass id).bitmap.currentSize = perslab * (m.slabclass id).slabs

/-- Some bitmap is ahead of its slabs. -/
def Memory.Ahead (m : Memory) : Prop :=
  ∃ id ≤ powerLargest, perslab * (m.slabclass id).slabs < 64 * (m.slabclass id).bitmap.currentSize

theorem Memory.Sound.consistent_iff {m : Memory} (sound : m.Sound) : m.Consistent ↔ ¬m.Ahead := by
  constructor
  · intro consistent given
    rcases given with ⟨id, valid, ahead⟩
    exact absurd (consistent id valid) (Nat.ne_of_gt ahead)
  · intro level id valid
    have slabs := sound.slabs id
    have below : ¬perslab * (m.slabclass id).slabs < 64 * (m.slabclass id).bitmap.currentSize :=
      fun ahead => level ⟨id, valid, ahead⟩
    simp only [perslab, perslabBits] at below ⊢
    omega

def Call.Supplied (call : Call) : Prop :=
  call.before.LimitReached call.id ∨ (call.before.slabclass call.id).Capped ∨
    call.supply.Covers (call.before.slabclass call.id)

/-- A call that returns NULL has changed nothing but `memory_full`. -/
def Call.Clean (call : Call) : Prop :=
  ∀ memory, call.result = .ok (none, memory) → memory = { call.before with memoryFull := true }

variable {supply : Supply} {id : Nat} {m m' : Memory} {head : Option Ptr}

theorem Call.Supplied.covers {call : Call} (supplied : call.Supplied)
    (passes : ¬(call.before.LimitReached call.id ∨ (call.before.slabclass call.id).Capped)) :
    call.supply.Covers (call.before.slabclass call.id) := by
  rcases supplied with limit | capped | covers
  · exact absurd (.inl limit) passes
  · exact absurd (.inr capped) passes
  · exact covers

theorem Call.Supplied.clean {call : Call} (supplied : call.Supplied) : call.Clean := by
  intro memory result
  cases doSlabsAllocBatch_exit result with
  | refused _ => rfl
  | failed p passes missing _ => exact absurd (supplied.covers passes) missing

/-- The bitmap and the slabs of a class grow together, unless the call fails behind the bitmap's update. -/
theorem SlabExit.together (exit : SlabExit supply id m head m') (other : Nat) :
    64 * (m'.slabclass other).bitmap.currentSize + perslab * (m.slabclass other).slabs =
        64 * (m.slabclass other).bitmap.currentSize + perslab * (m'.slabclass other).slabs ∨
      ¬(Call.mk supply id m).Supplied ∧ (m'.slabclass other).slabs = (m.slabclass other).slabs ∧
        (m.slabclass other).bitmap.currentSize ≤ (m'.slabclass other).bitmap.currentSize := by
  cases exit with
  | refused _ => exact .inl rfl
  | failed p passes missing longer =>
    by_cases here : other = id
    · subst here
      refine .inr ⟨fun supplied => missing (supplied.covers passes), ?_, ?_⟩
      · simp only [m.setClass_class, longer.slabs]
      · simp only [m.setClass_class, longer.bitmap, Nat.le_add_right]
    · simp only [m.setClass_other p here, true_or]
  | grown p _ _ longer =>
    by_cases here : other = id
    · subst here
      simp only [Memory.newSlab, m.setClass_class, longer.slabs, longer.bitmap, perslab, perslabBits, bitsPerWord]
      omega
    · simp only [Memory.newSlab, m.setClass_other _ here, true_or]

theorem SlabExit.ahead (exit : SlabExit supply id m head m') (ahead : m.Ahead) : m'.Ahead := by
  obtain ⟨other, valid, less⟩ := ahead
  refine ⟨other, valid, ?_⟩
  rcases exit.together other with even | ⟨_, slabs, more⟩
  · omega
  · rw [slabs]
    omega

theorem SlabExit.level (exit : SlabExit supply id m head m') (supplied : (Call.mk supply id m).Supplied)
    (ahead : m'.Ahead) : m.Ahead := by
  obtain ⟨other, valid, less⟩ := ahead
  rcases exit.together other with even | ⟨unsupplied, _⟩
  · exact ⟨other, valid, by omega⟩
  · exact absurd supplied unsupplied

theorem SlabExit.fails_ahead (exit : SlabExit supply id m head m') (sound : m.Sound) (valid : id ≤ powerLargest)
    (unsupplied : ¬(Call.mk supply id m).Supplied) : m'.Ahead := by
  cases exit with
  | refused stops => exact absurd (stops.imp_right .inl) unsupplied
  | failed p _ _ longer =>
    have slabs := sound.slabs id
    refine ⟨id, valid, ?_⟩
    simp only [m.setClass_class, longer.slabs, longer.bitmap, perslab, perslabBits, bitsPerWord]
    omega
  | grown p _ covers _ => exact absurd (.inr (.inr covers)) unsupplied

variable {Worker : Type} [DecidableEq Worker]

theorem slabsInit_level {bitmap : Bitmap} (result : bitmapInit slabclassMaxElemNum = some bitmap) (heap : Ptr → Item) :
    ¬(slabsInit bitmap heap).Ahead := by
  intro given
  rcases given with ⟨id, _, less⟩
  cases result
  exact absurd less (Nat.not_lt_zero _)

omit [DecidableEq Worker] in
theorem setBitmap_ahead_iff {s : CallState Worker} {id : Nat} {bitmap : Bitmap}
    (current : bitmap.currentSize = (s.memory.slabclass id).bitmap.currentSize) :
    (s.setBitmap id bitmap).memory.Ahead ↔ s.memory.Ahead := by
  have sizes (other : Nat) :
      ((s.setBitmap id bitmap).memory.slabclass other).bitmap.currentSize =
          (s.memory.slabclass other).bitmap.currentSize ∧
        ((s.setBitmap id bitmap).memory.slabclass other).slabs = (s.memory.slabclass other).slabs := by
    unfold CallState.setBitmap
    by_cases here : other = id
    · subst here
      rw [s.memory.setClass_class]
      exact ⟨current, rfl⟩
    · rw [s.memory.setClass_other _ here]
      exact ⟨rfl, rfl⟩
  simp only [Memory.Ahead, sizes]

/-- A bitmap is ahead of its slabs from the first allocation on that failed. -/
theorem CallRun.ahead_iff {calls : List Call} {s : CallState Worker} (run : CallRun Worker calls s) :
    s.memory.Ahead ↔ ∃ call ∈ calls, ¬call.Supplied := by
  induction run with
  | init bitmap heap result =>
    have level := slabsInit_level result heap
    simp only [level, List.not_mem_nil, false_and, exists_false]
  | enter worker size id _ _ _ _ ih => exact ih
  | @allocate calls s worker supply id head memory before waits result ih =>
    have sound := before.sound
    have exit := doSlabsAllocBatch_exit result
    change memory.Ahead ↔ _
    -- A class once ahead stays ahead; the last call puts one ahead exactly where it fails.
    constructor
    · intro ahead
      by_cases supplied : (Call.mk supply id s.memory).Supplied
      · obtain ⟨call, member, unsupplied⟩ := ih.mp (exit.level supplied ahead)
        exact ⟨call, List.mem_append_left _ member, unsupplied⟩
      · exact ⟨_, List.mem_append_right _ (List.mem_singleton.mpr rfl), supplied⟩
    · intro given
      rcases given with ⟨call, member, unsupplied⟩
      rcases List.mem_append.mp member with earlier | last
      · exact exit.ahead (ih.mpr ⟨call, earlier, unsupplied⟩)
      · rw [List.mem_singleton.mp last] at unsupplied
        exact exit.fails_ahead sound.memory (sound.waiting worker id waits) unsupplied
  | evict id offsetArray bitmap before result ih =>
    have current := ((before.sound.memory.reached id).evict (by decide) (by decide) result).2.2
    exact (setBitmap_ahead_iff current).trans ih
  | @touch calls s id pos _ _ ih =>
    have current : (bitmapTouch (s.memory.slabclass id).bitmap pos).currentSize =
        (s.memory.slabclass id).bitmap.currentSize := rfl
    exact (setBitmap_ahead_iff current).trans ih

/-- The classes stay consistent as long as no allocation fails, and not beyond: the bitmap is
    updated in front of the allocations. -/
theorem consistent_iff_supplied {calls : List Call} {s : CallState Worker} (run : CallRun Worker calls s) :
    (s.memory.Consistent ∧ (∀ call ∈ calls, call.Clean) ∧
      ∀ id ≤ powerLargest, ∀ offsetArray bitmap,
        bitmapEvictBatch (s.memory.slabclass id).bitmap evictBatchSize = some (offsetArray, bitmap) →
          ∀ offset ∈ offsetArray, offset < perslab * (s.memory.slabclass id).slabs) ↔
      ∀ call ∈ calls, call.Supplied := by
  have sound := run.sound.memory
  have level : s.memory.Consistent ↔ ∀ call ∈ calls, call.Supplied := by
    rw [sound.consistent_iff, run.ahead_iff]
    simp only [not_exists, not_and, not_not]
  constructor
  · intro holds
    exact level.mp holds.1
  · intro supplied
    have consistent := level.mpr supplied
    refine ⟨consistent, fun call member => (supplied call member).clean, ?_⟩
    intro id valid offsetArray bitmap result
    rw [← consistent id valid]
    exact (sound.reached id).evict_lt (by decide) result

end Consistency

section Start

def idleState : CallState (Fin 2) := { memory := startMemory, waiting := fun _ => none }

attribute [local instance] twoWorkers in
def enteredState : CallState (Fin 2) := idleState.wait 0 (some 0)

theorem enteredState_run : CallRun (Fin 2) [] enteredState :=
  .enter 0 40 0 (.init emptyBitmap (fun _ => emptyItem) rfl) rfl rfl (slabsClsid_first (by decide) (by decide))

def failingSupply : Supply := ⟨false, true⟩

def failedMemory : Memory := { startMemory.setClass 0 firstClass with memoryFull := true }

theorem startMemory_fails : doSlabsAllocBatch failingSupply 0 startMemory = .ok (none, failedMemory) := by
  have free : ¬(memLimit ≠ 0 ∧ memLimit < startMemory.memMalloced + slabSize 0 * perslab ∧
      0 < (startMemory.slabclass 0).slabs) := by decide
  have room : ¬(startMemory.slabclass 0).Capped := by
    unfold Slabclass.Capped
    decide
  have grown : growSlabList failingSupply { startMemory.slabclass 0 with bitmap := { emptyBitmap with currentSize := 512 } } =
      some firstClass := by rfl
  have succeeds : (0 : Int) ≠ -1 := by decide
  have updated : bitmapUpdate (startMemory.slabclass 0).bitmap perslab =
      some (0, { emptyBitmap with currentSize := 512 }) := bitmapUpdate_room room
  simp only [doSlabsAllocBatch, if_neg free, updated, if_neg succeeds, Memory.setClass_class, grown]
  simp only [failingSupply, Memory.setClass_setClass]
  rfl

theorem failedState_run : CallRun (Fin 2) [Call.mk failingSupply 0 startMemory]
    ({ enteredState with memory := failedMemory }.wait 0 none) :=
  enteredState_run.allocate 0 failingSupply 0 none failedMemory rfl startMemory_fails

theorem evict_nonempty {bitmap : Bitmap} (valid : bitmap.Valid) (nonempty : 0 < bitmap.currentSize) :
    ∃ offsetArray next, bitmapEvictBatch bitmap evictBatchSize = some (offsetArray, next) ∧ offsetArray ≠ [] := by
  obtain ⟨words, _, here⟩ := stops evictBatchSize (valid.walker_lt nonempty)
  refine ⟨_, _, bitmapEvictBatch_eq valid nonempty (by decide) here, ?_⟩
  intro empty
  have enough := here.1
  rw [empty] at enough
  exact absurd enough (by decide)

theorem failedMemory_evicts : ∃ offsetArray bitmap,
    bitmapEvictBatch (failedMemory.slabclass 0).bitmap evictBatchSize = some (offsetArray, bitmap) ∧ offsetArray ≠ [] :=
  evict_nonempty (failedState_run.sound.memory.reached 0).valid (by decide)

attribute [local instance] twoWorkers in
def servedState : CallState (Fin 2) := { enteredState with memory := firstMemory }.wait 0 none

theorem servedState_run : CallRun (Fin 2) [Call.mk ampleSupply 0 startMemory] servedState :=
  enteredState_run.allocate 0 ampleSupply 0 (some ⟨0, 0⟩) firstMemory rfl startMemory_alloc

theorem servedState_unsupplied {bitmap : Bitmap} (size : bitmap.size = (firstMemory.slabclass 0).bitmap.size)
    (current : bitmap.currentSize = (firstMemory.slabclass 0).bitmap.currentSize) :
    ¬(Call.mk failingSupply 0 (servedState.setBitmap 0 bitmap).memory).Supplied := by
  have within : ¬firstMemory.LimitReached 0 := fun limit => absurd limit.1 (by decide)
  have room : ¬(firstMemory.slabclass 0).Capped := by
    unfold Slabclass.Capped
    decide
  have swept : ((servedState.setBitmap 0 bitmap).memory.slabclass 0).bitmap = bitmap :=
    congrArg Slabclass.bitmap (servedState.memory.setClass_class 0 _)
  intro supplied
  rcases supplied with limit | capped | covers
  · exact within ⟨limit.1, by decide⟩
  · change ((servedState.setBitmap 0 bitmap).memory.slabclass 0).Capped at capped
    rw [Slabclass.Capped, swept, size, current] at capped
    exact room capped
  · exact Bool.false_ne_true covers.2

/-- The first slab has been swept before the second `malloc` fails. -/
theorem consistent_iff_supplied_swept : ∃ bitmap failed,
    CallRun (Fin 2) [Call.mk ampleSupply 0 startMemory] (servedState.setBitmap 0 bitmap) ∧
      (servedState.setBitmap 0 bitmap).memory.Consistent ∧
      CallRun (Fin 2) [Call.mk ampleSupply 0 startMemory,
        Call.mk failingSupply 0 (servedState.setBitmap 0 bitmap).memory] failed ∧
      ¬(failed.memory.Consistent ∧
        (∀ call ∈ [Call.mk ampleSupply 0 startMemory, Call.mk failingSupply 0 (servedState.setBitmap 0 bitmap).memory],
          call.Clean) ∧
        ∀ id ≤ powerLargest, ∀ offsetArray bitmap,
          bitmapEvictBatch (failed.memory.slabclass id).bitmap evictBatchSize = some (offsetArray, bitmap) →
            ∀ offset ∈ offsetArray, offset < perslab * (failed.memory.slabclass id).slabs) := by
  have reached := servedState_run.sound.memory.reached 0
  obtain ⟨offsetArray, bitmap, evicted, _⟩ := evict_nonempty reached.valid (by decide)
  obtain ⟨_, size, current⟩ := reached.evict (by decide) (by decide) evicted
  have swept := servedState_run.evict 0 offsetArray bitmap evicted
  have entered := swept.enter 1 40 0 rfl rfl (slabsClsid_first (by decide) (by decide))
  obtain ⟨head, memory, result⟩ := doSlabsAllocBatch_ok failingSupply 0 (servedState.setBitmap 0 bitmap).memory
  have unsupplied := servedState_unsupplied size current
  have failed := entered.allocate 1 failingSupply 0 head memory rfl result
  have supplied : ∀ call ∈ [Call.mk ampleSupply 0 startMemory], call.Supplied := by
    intro call member
    rw [List.mem_singleton.mp member]
    exact .inr (.inr ⟨fun _ => rfl, rfl⟩)
  refine ⟨bitmap, _, swept, ((consistent_iff_supplied swept).mpr supplied).1, failed, ?_⟩
  intro holds
  exact unsupplied ((consistent_iff_supplied failed).mp holds _ (List.mem_append_right _ (List.mem_singleton.mpr rfl)))

/-- The class is ahead of its slabs after a failed `malloc`, the call that returned NULL has changed
    the bitmap, and the offsets evicted from it are beyond the slabs. -/
theorem failed_allocation_inconsistent :
    (¬ ∀ (calls : List Call) (s : CallState (Fin 2)), CallRun (Fin 2) calls s → s.memory.Consistent) ∧
      (¬ ∀ (calls : List Call) (s : CallState (Fin 2)), CallRun (Fin 2) calls s → ∀ call ∈ calls, call.Clean) ∧
      ¬ ∀ (calls : List Call) (s : CallState (Fin 2)), CallRun (Fin 2) calls s → ∀ id ≤ powerLargest, ∀ offsetArray bitmap,
        bitmapEvictBatch (s.memory.slabclass id).bitmap evictBatchSize = some (offsetArray, bitmap) →
          ∀ offset ∈ offsetArray, offset < perslab * (s.memory.slabclass id).slabs := by
  refine ⟨?_, ?_, ?_⟩
  · intro consistent
    have sizes := consistent _ _ failedState_run 0 (by decide)
    have differ : 64 * (failedMemory.slabclass 0).bitmap.currentSize ≠ perslab * (failedMemory.slabclass 0).slabs := by
      decide
    exact differ sizes
  · intro clean
    have same := clean _ _ failedState_run _ (List.mem_singleton.mpr rfl) failedMemory startMemory_fails
    have sizes := congrArg (fun m => (m.slabclass 0).bitmap.currentSize) same
    have differ : (failedMemory.slabclass 0).bitmap.currentSize ≠ (startMemory.slabclass 0).bitmap.currentSize := by decide
    exact differ sizes
  · intro inside
    obtain ⟨offsetArray, bitmap, result, some⟩ := failedMemory_evicts
    obtain ⟨offset, member⟩ := List.exists_mem_of_ne_nil offsetArray some
    have less := inside _ _ failedState_run 0 (by decide) offsetArray bitmap result offset member
    exact absurd less (Nat.not_lt_zero offset)

end Start

end MegaKV.Slab
