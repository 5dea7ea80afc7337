import MegaKV.Slab.FreeLists

namespace MegaKV.Slab

theorem slabSize_eq (i : Nat) : slabSize i = 40 * 2 ^ i := by
  induction i with
  | zero => rfl
  | succ i ih =>
    have aligned : slabSize i * factor % itemAlignBytes = 0 := by
      simp only [factor, itemAlignBytes, ih]
      omega
    simp only [slabSize, alignSize, aligned, ne_eq, not_true_eq_false, ite_false]
    rw [ih, factor, Nat.pow_succ]
    omega

theorem slabSize_mono {i j : Nat} (le : i ≤ j) : slabSize i ≤ slabSize j := by
  rw [slabSize_eq, slabSize_eq]
  exact Nat.mul_le_mul_left 40 (Nat.pow_le_pow_right (by decide) le)

theorem sizeofItem_add_le (i : Nat) : sizeofItem + slabSize i ≤ slabSize (i + 1) := by
  have positive := Nat.two_pow_pos i
  rw [slabSize_eq, slabSize_eq, Nat.pow_succ, sizeofItem]
  omega

theorem slabsClsidFrom_least {size rounds res id : Nat} (result : slabsClsidFrom size rounds res = .ok id) :
    res ≤ id ∧ size ≤ slabSize id ∧ ∀ j, res ≤ j → j < id → slabSize j < size := by
  induction rounds generalizing res with
  | zero => contradiction
  | succ rounds ih =>
    simp only [slabsClsidFrom] at result
    split at result
    · rename_i small
      split at result
      · contradiction
      · obtain ⟨later, fits, below⟩ := ih result
        refine ⟨by omega, fits, ?_⟩
        intro j from_res before
        by_cases first : j = res
        · rw [first]
          exact small
        · exact below j (by omega) before
    · rename_i fits
      cases result
      exact ⟨Nat.le_refl _, Nat.not_lt.mp fits, fun j low high => absurd high (Nat.not_lt.mpr low)⟩

theorem slabsClsid_least {size id : Nat} (result : slabsClsid size = .ok (some id)) :
    size ≤ slabSize id ∧ ∀ j < id, slabSize j < size := by
  simp only [slabsClsid] at result
  split at result
  · cases result
  · cases found : slabsClsidFrom size (powerLargest + 1) powerSmallest with
    | error halt =>
      rw [found] at result
      cases result
    | ok res =>
      rw [found] at result
      cases result
      obtain ⟨_, fits, below⟩ := slabsClsidFrom_least found
      exact ⟨fits, fun j before => below j (Nat.zero_le _) before⟩

theorem pickList_least {size : Nat} (fits : size ≤ slabSize powerLargest) :
    pickList size ≤ powerLargest ∧ size ≤ slabSize (pickList size) ∧ ∀ j < pickList size, slabSize j < size := by
  cases found : (List.range' powerSmallest (powerLargest - powerSmallest)).find? (fun i => size ≤ localSlabSize i) with
  | none =>
    have picked : pickList size = powerLargest := by rw [pickList, found, Option.getD_none]
    rw [List.find?_range'_eq_none] at found
    rw [picked]
    refine ⟨Nat.le_refl _, fits, ?_⟩
    intro j before
    have unfit : ¬size ≤ localSlabSize j := by
      simpa using found j (Nat.zero_le _) (by simpa only [powerSmallest, Nat.zero_add, Nat.sub_zero] using before)
    exact Nat.not_le.mp unfit
  | some i =>
    have picked : pickList size = i := by rw [pickList, found, Option.getD_some]
    obtain ⟨holds, range, earlier⟩ := List.find?_range'_eq_some.mp found
    have bound := (List.mem_range'_1.mp range).2
    rw [picked]
    refine ⟨by simp only [powerSmallest] at bound; omega, of_decide_eq_true holds, ?_⟩
    intro j before
    have unfit : ¬size ≤ localSlabSize j := by simpa using earlier j (Nat.zero_le _) before
    exact Nat.not_le.mp unfit

/-- The class of an item that fits its payload against the list that payload picks. -/
theorem class_fits_iff {size last id : Nat} (fits : sizeofItem + size ≤ slabSize powerLargest)
    (lastFits : sizeofItem + last ≤ slabSize powerLargest) (list : pickList last = pickList size)
    (found : slabsClsid (sizeofItem + last) = .ok (some id)) :
    sizeofItem + size ≤ slabSize id ↔
      sizeofItem + size ≤ slabSize (pickList size) ∨ slabSize (pickList size) < sizeofItem + last := by
  obtain ⟨holds, below⟩ := slabsClsid_least found
  obtain ⟨_, payload, _⟩ := pickList_least (show size ≤ slabSize powerLargest by omega)
  obtain ⟨_, _, lastBelow⟩ := pickList_least (show last ≤ slabSize powerLargest by omega)
  rw [list] at lastBelow
  by_cases large : slabSize (pickList size) < sizeofItem + last
  · have higher : pickList size + 1 ≤ id := by
      by_contra lower
      have mono := slabSize_mono (show id ≤ pickList size by omega)
      omega
    have header := sizeofItem_add_le (pickList size)
    have mono := slabSize_mono higher
    exact ⟨fun _ => .inr large, fun _ => by omega⟩
  · have same : id = pickList size := by
      rcases Nat.lt_trichotomy id (pickList size) with lower | equal | higher
      · have small := lastBelow id lower
        omega
      · exact equal
      · exact absurd (below _ higher) large
    rw [same]
    exact ⟨.inl, fun either => either.resolve_right large⟩

section Runs

variable {Worker : Type} [DecidableEq Worker]

/-- The calls of `worker`, with any steps of the others between them; `filled i` is the size of
    the call that last filled list `i` of the worker. -/
inductive Run (worker : Worker) : State Worker → (Nat → Nat) → Prop
  | start {s : State Worker} (initial : Initial s) : Run worker s (fun _ => 0)
  | own {s : State Worker} {filled : Nat → Nat} (run : Run worker s filled) (supply : Supply)
      (attempts : Nat → Attempts) (size : Nat) (fits : sizeofItem + size ≤ slabSize powerLargest) {it : Ptr}
      {m : Memory} {batch : Batch}
      (result : batchAlloc supply attempts size s.memory (s.batchSet worker) = .ok (it, m, batch)) :
      Run worker ({ s with memory := m }.setBatch worker batch)
        (if (s.batchSet worker).localSlab (pickList size) = none then Function.update filled (pickList size) size
          else filled)
  | other {s : State Worker} {filled : Nat → Nat} (run : Run worker s filled) (supply : Supply)
      (attempts : Nat → Attempts) (size : Nat) {colleague : Worker} (different : colleague ≠ worker) {it : Ptr}
      {m : Memory} {batch : Batch}
      (result : batchAlloc supply attempts size s.memory (s.batchSet colleague) = .ok (it, m, batch)) :
      Run worker ({ s with memory := m }.setBatch colleague batch) filled
  | store {s : State Worker} {filled : Nat → Nat} (run : Run worker s filled) (it : Ptr) (nkey nbytes : Nat)
      (data : Nat → Byte) : Run worker (s.store it nkey nbytes data) filled
  | touch {s : State Worker} {filled : Nat → Nat} (run : Run worker s filled) (id : Nat) {pos : Nat}
      (bound : pos < 2 ^ 32) : Run worker (s.touch id pos) filled
  | schedule {s : State Worker} {filled : Nat → Nat} (run : Run worker s filled) (colleague : Worker)
      (buf : DeleteBufs) : Run worker (s.setBatch colleague { s.batchSet colleague with buf := buf }) filled

/-- Each list of the worker that holds items holds items of the class its last filling asked for. -/
def Filled (worker : Worker) (filled : Nat → Nat) (lists : Worker × Nat → List Ptr) (classes : Worker × Nat → Nat) : Prop :=
  ∀ i, lists (worker, i) ≠ [] → pickList (filled i) = i ∧ sizeofItem + filled i ≤ slabSize powerLargest ∧
    slabsClsid (sizeofItem + filled i) = .ok (some (classes (worker, i)))

theorem largest_size : slabSize powerLargest = 5120 := by
  rw [slabSize_eq]
  rfl

omit [DecidableEq Worker] in
theorem Held.heads_none_iff {s : State Worker} {lists : Worker × Nat → List Ptr} {classes : Worker × Nat → Nat}
    (held : Held s lists classes) (worker : Worker) (i : Nat) :
    (s.batchSet worker).localSlab i = none ↔ lists (worker, i) = [] := by
  have chain := held.held.chain (worker, i)
  simp only [State.heads] at chain
  constructor
  · intro empty
    rw [empty] at chain
    exact chain.nil_of_none
  · intro empty
    rw [empty] at chain
    exact chain

theorem run_filled {worker : Worker} {s : State Worker} {filled : Nat → Nat} (run : Run worker s filled) :
    ∃ lists classes, Held s lists classes ∧ Filled worker filled lists classes := by
  induction run with
  | start initial => exact ⟨_, _, held_initial initial, fun i nonempty => absurd rfl nonempty⟩
  | @own s filled run supply attempts size fits it m batch result ih =>
    obtain ⟨lists, classes, held, before⟩ := ih
    obtain ⟨middle, refilled, between, during, rest, _, _, refill, list, _, _, _, _, after⟩ := batchAlloc_held held result
    refine ⟨_, _, after, ?_⟩
    rw [largest_size] at fits
    rcases refill with ⟨rfl, rfl, nonempty⟩ | ⟨id, nodes, found, empty, rfl, rfl⟩
    · have present := mt (held.heads_none_iff worker (pickList size)).mp nonempty
      rw [if_neg present]
      intro i member
      apply before i
      by_cases here : i = pickList size
      · rw [here, list]
        exact List.cons_ne_nil it rest
      · have other : (worker, i) ≠ (worker, pickList size) := by simp [here]
        rw [Function.update_of_ne other] at member
        exact member
    · rw [if_pos empty]
      rw [Nat.mod_eq_of_lt (by simp only [sizeofItem] at fits ⊢; omega)] at found
      intro i member
      by_cases here : i = pickList size
      · subst here
        rw [Function.update_self, Function.update_self, largest_size]
        exact ⟨rfl, fits, found⟩
      · have other : (worker, i) ≠ (worker, pickList size) := by simp [here]
        rw [Function.update_of_ne other, Function.update_of_ne other] at member
        rw [Function.update_of_ne here, Function.update_of_ne other]
        exact before i member
  | @other s filled run supply attempts size colleague different it m batch result ih =>
    obtain ⟨lists, classes, held, before⟩ := ih
    obtain ⟨middle, refilled, between, during, rest, _, _, refill, list, _, _, _, _, after⟩ := batchAlloc_held held result
    refine ⟨_, _, after, ?_⟩
    intro i member
    have other : (worker, i) ≠ (colleague, pickList size) := by simp [different.symm]
    rw [Function.update_of_ne other] at member
    rcases refill with ⟨rfl, rfl, _⟩ | ⟨id, nodes, _, _, rfl, rfl⟩
    · exact before i member
    · rw [Function.update_of_ne other] at member
      rw [Function.update_of_ne other]
      exact before i member
  | store run it nkey nbytes data ih =>
    obtain ⟨lists, classes, held, before⟩ := ih
    exact ⟨lists, classes, held.store it nkey nbytes data, before⟩
  | touch run id bound ih =>
    obtain ⟨lists, classes, held, before⟩ := ih
    exact ⟨lists, classes, held.touch id bound, before⟩
  | schedule run colleague buf ih =>
    obtain ⟨lists, classes, held, before⟩ := ih
    exact ⟨lists, classes, held.schedule colleague buf, before⟩

theorem chunk_fits_iff (worker : Worker) (s : State Worker) (filled : Nat → Nat) (run : Run worker s filled)
    (supply : Supply) (attempts : Nat → Attempts) (size : Nat) (fits : sizeofItem + size ≤ slabSize powerLargest)
    (it : Ptr) (m : Memory) (batch : Batch)
    (result : batchAlloc supply attempts size s.memory (s.batchSet worker) = .ok (it, m, batch)) :
    (∃ id o, m.Inside id o ∧ it = m.item id o ∧ sizeofItem + size ≤ slabSize id) ↔
      (s.batchSet worker).localSlab (pickList size) = none ∨
      sizeofItem + size ≤ slabSize (pickList size) ∨
      slabSize (pickList size) < sizeofItem + filled (pickList size) := by
  obtain ⟨lists, classes, held, before⟩ := run_filled run
  obtain ⟨middle, refilled, between, during, rest, _, _, refill, list, _, _, ⟨o, inside, item⟩, _, after⟩ :=
    batchAlloc_held held result
  have only : (∃ id o, m.Inside id o ∧ it = m.item id o ∧ sizeofItem + size ≤ slabSize id) ↔
      sizeofItem + size ≤ slabSize (during (worker, pickList size)) := by
    constructor
    · intro given
      rcases given with ⟨id, p, here, same, large⟩
      have unique := after.sound.item_inj here inside (same.symm.trans item)
      rw [← unique.1]
      exact large
    · exact fun large => ⟨_, o, inside, item, large⟩
  rw [only]
  rcases refill with ⟨rfl, rfl, nonempty⟩ | ⟨id, nodes, found, empty, rfl, rfl⟩
  · have present := mt (held.heads_none_iff worker (pickList size)).mp nonempty
    obtain ⟨picked, lastFits, found⟩ := before _ nonempty
    rw [class_fits_iff fits lastFits picked found]
    exact ⟨.inr, fun either => either.resolve_left present⟩
  · rw [largest_size] at fits
    rw [Nat.mod_eq_of_lt (by simp only [sizeofItem] at fits ⊢; omega)] at found
    rw [Function.update_self]
    exact ⟨fun _ => .inl empty, fun _ => (slabsClsid_least found).1⟩

theorem startState_run : Run 0 startState (fun _ => 0) :=
  .start ⟨⟨emptyBitmap, fun _ => emptyItem, rfl, rfl⟩, fun _ _ => rfl⟩

theorem chunk_fits_iff_start : sizeofItem + 16 ≤ slabSize powerLargest ∧
    ∃ it m batch, batchAlloc ampleSupply calm 16 startState.memory (startState.batchSet 0) = .ok (it, m, batch) ∧
      ∃ id o, m.Inside id o ∧ it = m.item id o ∧ sizeofItem + 16 ≤ slabSize id := by
  have fits : sizeofItem + 16 ≤ slabSize powerLargest := by
    rw [largest_size]
    decide
  have condition := chunk_fits_iff 0 startState _ startState_run ampleSupply calm 16 fits _ _ _ startBatch_alloc
  exact ⟨fits, _, _, _, startBatch_alloc, condition.mpr (.inl rfl)⟩

attribute [local instance] twoWorkers in
def smallState : State (Fin 2) :=
  { startState with memory := (handOut 0 ⟨0, 40⟩ firstMemory firstBatch).1 }.setBatch 0
    (handOut 0 ⟨0, 40⟩ firstMemory firstBatch).2

theorem smallState_head : (smallState.batchSet 0).localSlab 0 = some ⟨0, 80⟩ := by
  have batch : smallState.batchSet 0 = (handOut 0 ⟨0, 40⟩ firstMemory firstBatch).2 := setBatch_batch _ 0 _
  rw [batch, handOut_head, firstMemory_item]
  rfl

theorem payload_overflows_chunk : ∃ filled, Run 0 smallState filled ∧ sizeofItem + 40 ≤ slabSize powerLargest ∧
    ∃ it m batch, batchAlloc ampleSupply calm 40 smallState.memory (smallState.batchSet 0) = .ok (it, m, batch) ∧
      ¬∃ id o, m.Inside id o ∧ it = m.item id o ∧ sizeofItem + 40 ≤ slabSize id := by
  have fits : ∀ size ≤ 40, sizeofItem + size ≤ slabSize powerLargest := by
    intro size small
    rw [largest_size, sizeofItem]
    omega
  refine ⟨_, .own startState_run ampleSupply calm 16 (fits 16 (by decide)) startBatch_alloc, fits 40 (by decide), _, _, _,
    batchAlloc_refilled (pickList_first (by decide)) (refill_some smallState_head) smallState_head, ?_⟩
  intro given
  rcases given with ⟨id, o, ⟨_, offset⟩, _, large⟩
  by_cases first : id = 0
  · rw [first, slabSize_zero] at large
    exact absurd large (by decide)
  · have empty : firstMemory.slabclass id = startMemory.slabclass id := startMemory.setClass_other _ first
    change o < perslab * (firstMemory.slabclass id).slabs at offset
    rw [empty] at offset
    exact absurd offset (Nat.not_lt_zero o)

end Runs

end MegaKV.Slab
