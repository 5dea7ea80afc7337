import MegaKV.Library.Clock
import MegaKV.Slab.Bitmap

namespace MegaKV.Slab

open Library

/-- The bits of the map one by one, with the hand at the first bit of the walker's word. -/
def clock (bitmap : Bitmap) : Clock :=
  { bits := fun o => (bitmap.map (o / 64)).getLsbD (o % 64)
    hand := 64 * bitmap.walker }

def span (bitmap : Bitmap) : Nat := 64 * bitmap.currentSize

section Word

theorem prefix_bit (j i : Nat) (position : j < 64) : ((1#64 <<< j) - 1).getLsbD i = decide (i < j) := by
  have shifted : 1#64 <<< j = ((1 <<< j : Nat) : BitVec 64) := by
    apply BitVec.eq_of_toNat_eq
    simp [BitVec.toNat_shiftLeft]
  rw [shifted, low_mask_bit i position]

theorem belowMask_bit (j i : Nat) (position : j < 63) (inside : i < 64) :
    (~~~((1#64 <<< (j + 1)) - 1)).getLsbD i = decide (j + 1 ≤ i) := by
  rw [BitVec.getLsbD_not, prefix_bit (j + 1) i (by omega)]
  by_cases below : i < j + 1 <;> simp [inside, below] <;> omega

theorem filter_range'_eq_nil {p : Nat → Bool} {start count : Nat}
    (clear : ∀ i, start ≤ i → i < start + count → p i = false) : (List.range' start count).filter p = [] := by
  rw [List.filter_eq_nil_iff]
  intro i member
  obtain ⟨low, high⟩ := List.mem_range'_1.mp member
  simp [clear i low high]

/-- With the bits below `start` masked out the loop finds the set bits from `start` on, in order. -/
theorem evictWord_eq (word : BitVec 64) (rounds start : Nat) (offsetMask : BitVec 64) (begins : start < 64)
    (enough : 64 ≤ start + rounds) (masked : ∀ i, i < 64 → offsetMask.getLsbD i = decide (start ≤ i)) :
    evictWord word rounds offsetMask = some ((List.range' start (64 - start)).filter word.getLsbD) := by
  induction rounds generalizing start offsetMask with
  | zero => omega
  | succ rounds ih =>
    have visible : ∀ i, i < 64 → (word &&& offsetMask).getLsbD i = (word.getLsbD i && decide (start ≤ i)) := by
      intro i inside
      rw [BitVec.getLsbD_and, masked i inside]
    by_cases none : word &&& offsetMask = 0
    · simp only [evictWord, none, ffs_zero, ite_true]
      congr 1
      apply Eq.symm
      apply filter_range'_eq_nil
      intro i low high
      have bit := visible i (by omega)
      rw [none] at bit
      simpa [low] using bit.symm
    · have found := ffs_pos none
      have bound := ffs_bit_lt none
      have set := ffs_bit_set none
      rw [visible _ bound, Bool.and_eq_true, decide_eq_true_eq] at set
      have skipped : ∀ i, start ≤ i → i < ffs (word &&& offsetMask) - 1 → word.getLsbD i = false := by
        intro i low below
        have clear := bit_below_ffs below
        rw [visible i (by omega)] at clear
        simpa [low] using clear
      simp only [evictWord, Nat.pos_iff_ne_zero.mp found, ite_false]
      generalize ffs (word &&& offsetMask) - 1 = j at set bound skipped
      have split : List.range' start (64 - start) =
          List.range' start (j - start) ++ j :: List.range' (j + 1) (63 - j) := by
        have whole := @List.range'_append_1 start (j - start) (64 - j)
        rw [show start + (j - start) = j by omega, show j - start + (64 - j) = 64 - start by omega] at whole
        rw [← whole, show 64 - j = 63 - j + 1 by omega, List.range'_succ]
      have before : (List.range' start (j - start)).filter word.getLsbD = [] := by
        apply filter_range'_eq_nil
        intro i low high
        exact skipped i low (by omega)
      rw [split, List.filter_append, before, List.nil_append, List.filter_cons_of_pos set.1]
      by_cases last : j = 63
      · subst last
        rfl
      · rw [if_neg last, ih (j + 1) _ (by omega) (by omega) (fun i inside => belowMask_bit j i (by omega) inside)]
        rw [show 64 - (j + 1) = 63 - j by omega]
        rfl

end Word

section Refinement

variable {bitmap : Bitmap}

structure Bitmap.Valid (bitmap : Bitmap) : Prop where
  offsetMask : bitmap.offsetMask = BitVec.allOnes 64
  walker : bitmap.walker < bitmap.currentSize ∨ (bitmap.walker = 0 ∧ bitmap.currentSize = 0)
  currentSize : bitmap.currentSize ≤ bitmap.size
  size : 64 * bitmap.size ≤ 2 ^ 31

theorem Bitmap.Valid.walker_lt (valid : bitmap.Valid) (nonempty : 0 < bitmap.currentSize) :
    bitmap.walker < bitmap.currentSize := by
  have walker := valid.walker
  omega

theorem hand_lt (inside : bitmap.walker < bitmap.currentSize) : (clock bitmap).hand < span bitmap := by
  simp only [clock, span]
  omega

theorem hand_in_word (inside : bitmap.walker < bitmap.currentSize) (t : Nat) (word : t < 64) :
    ((clock bitmap).hand + t) % span bitmap = 64 * bitmap.walker + t := by
  apply Nat.mod_eq_of_lt
  simp only [clock, span]
  omega

theorem word_offsets (inside : bitmap.walker < bitmap.currentSize) :
    Clock.offsets (span bitmap) 64 (clock bitmap) =
      ((List.range 64).filter (bitmap.map bitmap.walker).getLsbD).map (64 * bitmap.walker + ·) := by
  rw [Clock.offsets_eq _ _ (hand_lt inside)]
  have due : ∀ t ∈ List.range 64, Clock.due (span bitmap) (clock bitmap) t =
      (bitmap.map bitmap.walker).getLsbD t := by
    intro t member
    have word := List.mem_range.mp member
    have first : t / span bitmap = 0 := by
      apply Nat.div_eq_of_lt
      simp only [span]
      omega
    rw [Clock.due, hand_in_word inside t word, first]
    simp only [clock, Nat.bodd_zero, Bool.xor_false]
    rw [Nat.mul_add_div (by decide), Nat.mul_add_mod, Nat.div_eq_of_lt word, Nat.mod_eq_of_lt word, Nat.add_zero]
  rw [List.filter_congr due]
  apply List.map_congr_left
  intro t member
  exact hand_in_word inside t (List.mem_range.mp (List.mem_filter.mp member).1)

theorem word_visits (inside : bitmap.walker < bitmap.currentSize) (o : Nat) :
    Nat.count (fun t => ((clock bitmap).hand + t) % span bitmap = o) 64 =
      if o / 64 = bitmap.walker then 1 else 0 := by
  rw [Nat.count_eq_card_filter_range]
  have visits : (Finset.range 64).filter (fun t => ((clock bitmap).hand + t) % span bitmap = o) =
      (Finset.range 64).filter (fun t => 64 * bitmap.walker + t = o) := by
    apply Finset.filter_congr
    intro t member
    rw [hand_in_word inside t (Finset.mem_range.mp member)]
  rw [visits]
  by_cases here : o / 64 = bitmap.walker
  · have single : (Finset.range 64).filter (fun t => 64 * bitmap.walker + t = o) = {o % 64} := by
      ext t
      simp only [Finset.mem_filter, Finset.mem_range, Finset.mem_singleton]
      omega
    rw [single, if_pos here, Finset.card_singleton]
  · rw [if_neg here, Finset.card_eq_zero, Finset.filter_eq_empty_iff]
    intro t member equal
    have word := Finset.mem_range.mp member
    omega

theorem clock_leaveWord (inside : bitmap.walker < bitmap.currentSize) :
    clock (leaveWord bitmap) = Clock.after (span bitmap) 64 (clock bitmap) := by
  have hand : (Clock.after (span bitmap) 64 (clock bitmap)).hand = 64 * nextWalker bitmap := by
    rw [Clock.after_hand _ _ (hand_lt inside), nextWalker]
    simp only [clock, span]
    by_cases last : bitmap.walker + 1 = bitmap.currentSize
    · rw [if_pos last, ← last, show 64 * bitmap.walker + 64 = 64 * (bitmap.walker + 1) by omega, Nat.mod_self]
    · rw [if_neg last]
      exact Nat.mod_eq_of_lt (by omega)
  have bits : (Clock.after (span bitmap) 64 (clock bitmap)).bits = (clock (leaveWord bitmap)).bits := by
    funext o
    have position : o % 64 < 64 := Nat.mod_lt _ (by decide)
    rw [Clock.after_bits _ _ (hand_lt inside), word_visits inside]
    by_cases here : o / 64 = bitmap.walker
    · simp [clock, leaveWord, here, position]
    · simp [clock, leaveWord, here]
  change Clock.mk (clock (leaveWord bitmap)).bits (64 * nextWalker bitmap) = _
  rw [← hand, ← bits]

theorem leaveWord_inside (inside : bitmap.walker < bitmap.currentSize) :
    (leaveWord bitmap).walker < (leaveWord bitmap).currentSize := by
  simp only [leaveWord, nextWalker]
  split <;> omega

theorem leaveWord_valid (valid : bitmap.Valid) (inside : bitmap.walker < bitmap.currentSize) :
    (leaveWord bitmap).Valid :=
  ⟨rfl, .inl (leaveWord_inside inside), valid.currentSize, valid.size⟩

theorem wordOffset_eq (valid : bitmap.Valid) (inside : bitmap.walker < bitmap.currentSize) (j : Nat) (word : j < 64) :
    wordOffset bitmap j = 64 * bitmap.walker + j := by
  have fits := valid.currentSize
  have size := valid.size
  simp only [wordOffset, bmMaskBit, Nat.shiftLeft_eq]
  omega

/-- One word of the code is 64 moves of the hand. -/
theorem evictWord_offsets (valid : bitmap.Valid) (inside : bitmap.walker < bitmap.currentSize) :
    ∃ found, evictWord (bitmap.map bitmap.walker) 64 bitmap.offsetMask = some found ∧
      found.map (wordOffset bitmap) = Clock.offsets (span bitmap) 64 (clock bitmap) := by
  refine ⟨_, evictWord_eq _ 64 0 _ (by decide) (by decide) ?_, ?_⟩
  · intro i bound
    rw [valid.offsetMask, BitVec.getLsbD_allOnes]
    simp [bound]
  · rw [word_offsets inside, Nat.sub_zero, ← List.range_eq_range']
    apply List.map_congr_left
    intro j member
    exact wordOffset_eq valid inside j (List.mem_range.mp (List.mem_filter.mp member).1)

/-- The hand first has `num` evictions at the end of its word number `words`. -/
def StopsAt (bitmap : Bitmap) (num words : Nat) : Prop :=
  num ≤ (Clock.offsets (span bitmap) (64 * words) (clock bitmap)).length ∧
    ∀ earlier < words, (Clock.offsets (span bitmap) (64 * earlier) (clock bitmap)).length < num

theorem leaveWords_walk (words : Nat) (valid : bitmap.Valid) (inside : bitmap.walker < bitmap.currentSize) :
    (leaveWord^[words] bitmap).Valid ∧
      (leaveWord^[words] bitmap).walker < (leaveWord^[words] bitmap).currentSize ∧
      span (leaveWord^[words] bitmap) = span bitmap ∧
      clock (leaveWord^[words] bitmap) = Clock.after (span bitmap) (64 * words) (clock bitmap) := by
  induction words with
  | zero => exact ⟨valid, inside, rfl, rfl⟩
  | succ words ih =>
    obtain ⟨validHere, insideHere, spanHere, clockHere⟩ := ih
    rw [Function.iterate_succ_apply']
    have spanNext : span (leaveWord (leaveWord^[words] bitmap)) = span bitmap := by
      rw [← spanHere]
      rfl
    refine ⟨leaveWord_valid validHere insideHere, leaveWord_inside insideHere, spanNext, ?_⟩
    rw [clock_leaveWord insideHere, spanHere, clockHere, ← Clock.after_add, Nat.mul_succ]

theorem leaveWords_size (words : Nat) (bitmap : Bitmap) : (leaveWord^[words] bitmap).size = bitmap.size := by
  induction words with
  | zero => rfl
  | succ words ih =>
    rw [Function.iterate_succ_apply', ← ih]
    rfl

/-- The outer loop over `words` words, the induction going word by word. -/
theorem evictWords_eq (num words budget : Nat) (collected : List Nat) (valid : bitmap.Valid)
    (inside : bitmap.walker < bitmap.currentSize) (budgeted : words ≤ budget)
    (enough : num ≤ (collected ++ Clock.offsets (span bitmap) (64 * words) (clock bitmap)).length)
    (first : ∀ earlier < words,
      (collected ++ Clock.offsets (span bitmap) (64 * earlier) (clock bitmap)).length < num) :
    evictWords num budget bitmap collected =
      some (collected ++ Clock.offsets (span bitmap) (64 * words) (clock bitmap), leaveWord^[words] bitmap) := by
  induction words generalizing bitmap budget collected with
  | zero =>
    simp only [Nat.mul_zero, Clock.offsets_zero, List.append_nil] at enough ⊢
    cases budget <;> simp only [evictWords, Nat.not_lt.mpr enough, ite_false, Function.iterate_zero, id_eq]
  | succ words ih =>
    obtain ⟨rest, rfl⟩ : ∃ rest, budget = rest + 1 := ⟨budget - 1, by omega⟩
    have unfinished := first 0 (by omega)
    simp only [Nat.mul_zero, Clock.offsets_zero, List.append_nil] at unfinished
    obtain ⟨found, search, offsets⟩ := evictWord_offsets valid inside
    have spanNext : span (leaveWord bitmap) = span bitmap := rfl
    have shift : ∀ k, Clock.offsets (span bitmap) (64 * (k + 1)) (clock bitmap) =
        Clock.offsets (span bitmap) 64 (clock bitmap) ++
          Clock.offsets (span (leaveWord bitmap)) (64 * k) (clock (leaveWord bitmap)) := by
      intro k
      rw [clock_leaveWord inside, spanNext, ← Clock.offsets_add]
      congr 1
      omega
    have next := ih rest (collected ++ Clock.offsets (span bitmap) 64 (clock bitmap)) (leaveWord_valid valid inside)
      (leaveWord_inside inside) (by omega)
      (by rw [List.append_assoc, ← shift]; exact enough)
      (by intro earlier before; rw [List.append_assoc, ← shift]; exact first (earlier + 1) (by omega))
    simp only [evictWords, unfinished, ite_true, search]
    rw [offsets, next, shift, List.append_assoc, Function.iterate_succ_apply]

/-- Two passes evict `span` offsets, so the budget is enough. -/
theorem stops (num : Nat) (inside : bitmap.walker < bitmap.currentSize) :
    ∃ words, words ≤ wordBudget bitmap num ∧ StopsAt bitmap num words := by
  have reaches : num ≤ (Clock.offsets (span bitmap) (64 * wordBudget bitmap num) (clock bitmap)).length := by
    have moves : 64 * wordBudget bitmap num = 2 * span bitmap * num := by
      simp only [wordBudget, span]
      ring
    rw [moves, Clock.length_passes num _ (hand_lt inside)]
    apply Nat.le_mul_of_pos_left
    simp only [span]
    omega
  have exists_boundary : ∃ words, num ≤ (Clock.offsets (span bitmap) (64 * words) (clock bitmap)).length :=
    ⟨_, reaches⟩
  refine ⟨Nat.find exists_boundary, Nat.find_min' _ reaches, Nat.find_spec exists_boundary, ?_⟩
  intro earlier before
  exact Nat.not_le.mp (Nat.find_min exists_boundary before)

theorem StopsAt.unique {num words other : Nat} (here : StopsAt bitmap num words) (there : StopsAt bitmap num other) :
    words = other := by
  rcases Nat.lt_trichotomy words other with before | equal | before
  · exact absurd here.1 (Nat.not_le.mpr (there.2 words before))
  · exact equal
  · exact absurd there.1 (Nat.not_le.mpr (here.2 other before))

theorem StopsAt.length_le {num words : Nat} (here : StopsAt bitmap num words) :
    (Clock.offsets (span bitmap) (64 * words) (clock bitmap)).length ≤ num + 63 := by
  cases words with
  | zero => simp [Clock.offsets_zero]
  | succ words =>
    have before := here.2 words (by omega)
    have word := Clock.length_le (n := span bitmap) 64 (Clock.after (span bitmap) (64 * words) (clock bitmap))
    rw [Nat.mul_succ, Clock.offsets_add, List.length_append]
    omega

theorem bitmapEvictBatch_eq {num words : Nat} (valid : bitmap.Valid) (nonempty : 0 < bitmap.currentSize)
    (positive : 1 ≤ num) (here : StopsAt bitmap num words) :
    bitmapEvictBatch bitmap num =
      some (Clock.offsets (span bitmap) (64 * words) (clock bitmap), leaveWord^[words] bitmap) := by
  have inside := valid.walker_lt nonempty
  obtain ⟨found, budgeted, there⟩ := stops num inside
  have same := there.unique here
  subst same
  have loop := evictWords_eq num found (wordBudget bitmap num) [] valid inside budgeted there.1 there.2
  have length := there.1
  rw [List.nil_append] at loop
  rw [bitmapEvictBatch, if_pos ⟨Nat.pos_iff_ne_zero.mp nonempty, inside⟩, loop]
  simp only
  rw [if_neg]
  omega

end Refinement

section Runs

inductive Operation
  | update (newElemNum : Nat)
  | touch (pos : Nat)
  | evict (num : Nat)

def Operation.Allowed (bitmap : Bitmap) : Operation → Prop
  | .update newElemNum => 0 < newElemNum ∧ newElemNum % 64 = 0 ∧ newElemNum < 2 ^ 31
  | .touch pos => pos < 2 ^ 32
  | .evict num => 0 < bitmap.currentSize ∧ 1 ≤ num ∧ num < 2 ^ 31 - 63

def Operation.perform (bitmap : Bitmap) : Operation → Option Bitmap
  | .update newElemNum => (bitmapUpdate bitmap newElemNum).map Prod.snd
  | .touch pos => some (bitmapTouch bitmap pos)
  | .evict num => (bitmapEvictBatch bitmap num).map Prod.snd

def Operation.Passes (bitmap : Bitmap) (o : Nat) : Operation → Prop
  | .evict num => ∃ words t, StopsAt bitmap num words ∧ t < 64 * words ∧
      ((clock bitmap).hand + t) % span bitmap = o
  | _ => False

inductive Reached : Bitmap → Prop
  | init {bitmap : Bitmap} (elemNum : Nat) (bound : elemNum < 2 ^ 31) (result : bitmapInit elemNum = some bitmap) :
      Reached bitmap
  | step {bitmap next : Bitmap} (operation : Operation) (reached : Reached bitmap)
      (allowed : operation.Allowed bitmap) (result : operation.perform bitmap = some next) : Reached next

/-- Offset `o` was touched and the hand has not passed it since. -/
inductive TouchedSince (o : Nat) : Bitmap → Prop
  | touch {bitmap : Bitmap} (reached : Reached bitmap) (bound : o < 2 ^ 32) : TouchedSince o (bitmapTouch bitmap o)
  | step {bitmap next : Bitmap} (operation : Operation) (touched : TouchedSince o bitmap)
      (allowed : operation.Allowed bitmap) (result : operation.perform bitmap = some next)
      (unpassed : ¬operation.Passes bitmap o) : TouchedSince o next

theorem bitmapUpdate_cases {bitmap next : Bitmap} {newElemNum : Nat}
    (result : (Operation.update newElemNum).perform bitmap = some next) :
    next = bitmap ∨ (bitmap.currentSize + newElemNum / 64 < bitmap.size ∧
      next = { bitmap with currentSize := bitmap.currentSize + newElemNum / 64 }) := by
  simp only [Operation.perform, bitmapUpdate] at result
  split at result
  · exact .inl (by simpa using result.symm)
  · rename_i room
    split at result
    · exact .inr ⟨Nat.not_le.mp room, by simpa [bitsPerWord] using result.symm⟩
    · contradiction

theorem clock_bitmapTouch (bitmap : Bitmap) (pos o : Nat) :
    (clock (bitmapTouch bitmap pos)).bits o = ((clock bitmap).bits o && decide (o ≠ pos)) := by
  have position : o % 64 < 64 := Nat.mod_lt _ (by decide)
  by_cases word : o / 64 = pos / 64
  · have bit : (1#64 <<< (pos % 64)).getLsbD (o % 64) = decide (o % 64 = pos % 64) := by
      simp only [BitVec.getLsbD_shiftLeft, BitVec.getLsbD_one, position, decide_true, Bool.true_and]
      by_cases below : o % 64 < pos % 64
      · simp [below]
        omega
      · simp [below]
        omega
    have same : (o % 64 = pos % 64) ↔ (o = pos) := by omega
    simp only [clock, bitmapTouch, bitsPerWord, word, Function.update_self, BitVec.getLsbD_and,
      BitVec.getLsbD_not, bit, position, decide_true, Bool.true_and, same]
    by_cases equal : o = pos <;> simp [equal]
  · have other : o ≠ pos := by
      intro equal
      exact word (by rw [equal])
    simp [clock, bitmapTouch, bitsPerWord, Function.update_of_ne word, other]

theorem evict_walk {bitmap next : Bitmap} {num : Nat} (valid : bitmap.Valid)
    (allowed : (Operation.evict num).Allowed bitmap) (result : (Operation.evict num).perform bitmap = some next) :
    ∃ words, StopsAt bitmap num words ∧ next = leaveWord^[words] bitmap := by
  obtain ⟨nonempty, positive, _⟩ := allowed
  obtain ⟨words, _, here⟩ := stops num (valid.walker_lt nonempty)
  simp only [Operation.perform, bitmapEvictBatch_eq valid nonempty positive here, Option.map_some,
    Option.some.injEq] at result
  exact ⟨words, here, result.symm⟩

theorem Bitmap.Valid.step {bitmap next : Bitmap} {operation : Operation} (valid : bitmap.Valid)
    (allowed : operation.Allowed bitmap) (result : operation.perform bitmap = some next) : next.Valid := by
  cases operation with
  | update newElemNum =>
    obtain ⟨positive, divides, _⟩ := allowed
    rcases bitmapUpdate_cases result with rfl | ⟨fits, rfl⟩
    · exact valid
    · have walker := valid.walker
      exact ⟨valid.offsetMask, .inl (by simp only; omega), fits.le, valid.size⟩
  | touch pos =>
    simp only [Operation.perform, Option.some.injEq] at result
    subst next
    exact ⟨valid.offsetMask, valid.walker, valid.currentSize, valid.size⟩
  | evict num =>
    obtain ⟨words, _, rfl⟩ := evict_walk valid allowed result
    exact (leaveWords_walk words valid (valid.walker_lt allowed.1)).1

theorem Reached.valid {bitmap : Bitmap} (reached : Reached bitmap) : bitmap.Valid := by
  induction reached with
  | init elemNum bound result =>
    simp only [bitmapInit] at result
    split at result
    · cases result
      exact ⟨rfl, .inr ⟨rfl, rfl⟩, Nat.zero_le _, by simp only [bitsPerWord]; omega⟩
    · contradiction
  | step operation _ allowed result ih => exact ih.step allowed result

theorem TouchedSince.reached {o : Nat} {bitmap : Bitmap} (touched : TouchedSince o bitmap) : Reached bitmap := by
  induction touched with
  | touch reached bound => exact .step (.touch o) reached bound rfl
  | step operation _ allowed result _ ih => exact .step operation ih allowed result

theorem TouchedSince.clear {o : Nat} {bitmap : Bitmap} (touched : TouchedSince o bitmap) :
    (clock bitmap).bits o = false := by
  induction touched with
  | touch _ _ => simp [clock_bitmapTouch]
  | @step bitmap next operation before allowed result unpassed ih =>
    cases operation with
    | update newElemNum =>
      rcases bitmapUpdate_cases result with rfl | ⟨_, rfl⟩
      · exact ih
      · exact ih
    | touch pos =>
      simp only [Operation.perform, Option.some.injEq] at result
      rw [← result, clock_bitmapTouch, ih, Bool.false_and]
    | evict num =>
      have valid := before.reached.valid
      have inside := valid.walker_lt allowed.1
      obtain ⟨words, here, rfl⟩ := evict_walk valid allowed result
      rw [(leaveWords_walk words valid inside).2.2.2, Clock.after_bits_unvisited _ _ (hand_lt inside), ih]
      intro t bound visited
      exact unpassed ⟨words, t, here, bound, visited⟩

theorem evict_is_clock (bitmap : Bitmap) (num : Nat) (reached : Reached bitmap) (nonempty : 0 < bitmap.currentSize)
    (positive : 1 ≤ num) (bound : num < 2 ^ 31 - 63) :
    ∃ words offsetArray after, bitmapEvictBatch bitmap num = some (offsetArray, after) ∧
      StopsAt bitmap num words ∧
      offsetArray = Clock.offsets (span bitmap) (64 * words) (clock bitmap) ∧
      clock after = Clock.after (span bitmap) (64 * words) (clock bitmap) ∧
      (after.currentSize = bitmap.currentSize ∧ after.size = bitmap.size ∧ after.offsetMask = BitVec.allOnes 64) ∧
      (num ≤ offsetArray.length ∧ offsetArray.length ≤ num + 63 ∧ offsetArray.length < 2 ^ 31) ∧
      (∀ o ∈ offsetArray, o < 64 * bitmap.currentSize) ∧
      (∀ o, TouchedSince o bitmap → ∀ t, t < 64 * words → ((clock bitmap).hand + t) % span bitmap = o →
        (∀ s < t, ((clock bitmap).hand + s) % span bitmap ≠ o) →
        o ∉ Clock.offsets (span bitmap) (t + 1) (clock bitmap)) ∧
      (num ≤ 64 * bitmap.currentSize → offsetArray.Nodup) := by
  have valid := reached.valid
  have inside := valid.walker_lt nonempty
  obtain ⟨words, _, here⟩ := stops num inside
  have walk := leaveWords_walk words valid inside
  have length := here.length_le
  have frame := leaveWords_size words bitmap
  have sizes := walk.2.2.1
  simp only [span] at sizes
  refine ⟨words, _, _, bitmapEvictBatch_eq valid nonempty positive here, here, rfl, walk.2.2.2,
    ⟨by omega, frame, walk.1.offsetMask⟩, ⟨here.1, length, by omega⟩, ?_, ?_, ?_⟩
  · exact Clock.offsets_lt _ _ (hand_lt inside)
  · intro o touched t _ visit first
    subst visit
    exact Clock.first_visit_passes _ (hand_lt inside) t touched.clear first
  · intro small
    exact Clock.offsets_nodup (hand_lt inside) ⟨_, rfl⟩ small here.2

theorem Reached.evict {bitmap next : Bitmap} {num : Nat} {offsetArray : List Nat} (reached : Reached bitmap)
    (positive : 1 ≤ num) (bound : num < 2 ^ 31 - 63) (result : bitmapEvictBatch bitmap num = some (offsetArray, next)) :
    Reached next ∧ next.size = bitmap.size ∧ next.currentSize = bitmap.currentSize := by
  have nonempty : 0 < bitmap.currentSize := by
    apply Nat.pos_of_ne_zero
    intro empty
    simp [bitmapEvictBatch, empty] at result
  have performed : (Operation.evict num).perform bitmap = some next := by
    simp only [Operation.perform, result, Option.map_some]
  obtain ⟨words, _, walked⟩ := evict_walk reached.valid ⟨nonempty, positive, bound⟩ performed
  have sizes := (leaveWords_walk words reached.valid (reached.valid.walker_lt nonempty)).2.2.1
  simp only [span] at sizes
  refine ⟨.step (.evict num) reached ⟨nonempty, positive, bound⟩ performed, ?_, ?_⟩
  · rw [walked, leaveWords_size]
  · rw [walked]
    omega

theorem Reached.evict_lt {bitmap next : Bitmap} {num : Nat} {offsetArray : List Nat} (reached : Reached bitmap)
    (positive : 1 ≤ num) (result : bitmapEvictBatch bitmap num = some (offsetArray, next)) :
    ∀ offset ∈ offsetArray, offset < 64 * bitmap.currentSize := by
  have nonempty : 0 < bitmap.currentSize := by
    apply Nat.pos_of_ne_zero
    intro empty
    simp [bitmapEvictBatch, empty] at result
  have inside := reached.valid.walker_lt nonempty
  obtain ⟨words, _, here⟩ := stops num inside
  rw [bitmapEvictBatch_eq reached.valid nonempty positive here] at result
  cases result
  exact Clock.offsets_lt _ _ (hand_lt inside)

theorem Reached.evict_nodup {bitmap next : Bitmap} {num : Nat} {offsetArray : List Nat} (reached : Reached bitmap)
    (nonempty : 0 < bitmap.currentSize) (positive : 1 ≤ num) (small : num ≤ 64 * bitmap.currentSize)
    (result : bitmapEvictBatch bitmap num = some (offsetArray, next)) : offsetArray.Nodup := by
  have inside := reached.valid.walker_lt nonempty
  obtain ⟨words, _, here⟩ := stops num inside
  rw [bitmapEvictBatch_eq reached.valid nonempty positive here] at result
  cases result
  exact Clock.offsets_nodup (hand_lt inside) ⟨_, rfl⟩ small here.2

def oneWord : Bitmap :=
  { map := fun _ => BitVec.allOnes 64, size := 2, currentSize := 1, walker := 0, offsetMask := BitVec.allOnes 64 }

theorem oneWord_reached : Reached oneWord :=
  .step (.update 64) (.init 128 (by decide) rfl) ⟨by decide, by decide, by decide⟩ rfl

theorem evict_is_clock_oneWord : Reached oneWord ∧
    ∃ words offsetArray after, bitmapEvictBatch oneWord 1 = some (offsetArray, after) ∧
      StopsAt oneWord 1 words ∧
      offsetArray = Clock.offsets (span oneWord) (64 * words) (clock oneWord) ∧
      clock after = Clock.after (span oneWord) (64 * words) (clock oneWord) := by
  obtain ⟨words, offsetArray, after, result, here, offsets, hand, _⟩ :=
    evict_is_clock oneWord 1 oneWord_reached (by decide) (by decide) (by decide)
  exact ⟨oneWord_reached, words, offsetArray, after, result, here, offsets, hand⟩

end Runs

end MegaKV.Slab
