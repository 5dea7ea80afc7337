import MegaKV.Slab.ClockRefinement

namespace MegaKV.Slab

open Library

section Masks

theorem oneShifted_bit (j i : Nat) (position : j < 64) (inside : i < 64) :
    (oneShifted j).getLsbD i = decide (i = j) := by
  have small : j % 64 = j := Nat.mod_eq_of_lt position
  simp only [oneShifted, small, BitVec.getLsbD_shiftLeft, BitVec.getLsbD_one, inside, decide_true, Bool.true_and]
  by_cases below : i < j
  · simp [below]
    omega
  · simp [below]
    omega

theorem belowShifted_bit (j i : Nat) (position : j < 64) : (oneShifted j - 1).getLsbD i = decide (i < j) := by
  rw [oneShifted, Nat.mod_eq_of_lt position, prefix_bit j i position]

/-- After bit 63 the mask shows the whole word again. -/
theorem offsetMask_bit (j i : Nat) (inside : i < 64) :
    (~~~(oneShifted (j + 1) - 1)).getLsbD i = decide ((j + 1) % 64 ≤ i) := by
  have position : (j + 1) % 64 < 64 := Nat.mod_lt _ (by decide)
  have wrapped : oneShifted (j + 1) = oneShifted ((j + 1) % 64) := by
    rw [oneShifted, oneShifted, Nat.mod_mod]
  rw [wrapped, BitVec.getLsbD_not, belowShifted_bit _ _ position]
  by_cases below : i < (j + 1) % 64
  · simp [inside, below]
  · simp [inside, below, Nat.not_lt.mp below]

end Masks

section Calls

variable {bitmap next : Bitmap} {o : Nat}

def visible (bitmap : Bitmap) : BitVec 64 := bitmap.map bitmap.walker &&& bitmap.offsetMask

/-- The bit of the walker's word the next round takes, if there is one. -/
def lowest (bitmap : Bitmap) : Nat := ffs (visible bitmap) - 1

theorem word_bit (word i : Nat) (inside : i < 64) :
    (clock bitmap).bits (64 * word + i) = (bitmap.map word).getLsbD i := by
  simp only [clock, Nat.mul_add_div (by decide : 64 > 0), Nat.mul_add_mod, Nat.div_eq_of_lt inside,
    Nat.mod_eq_of_lt inside, Nat.add_zero]

theorem takeBit_bits (j x : Nat) (position : j < 64) :
    (clock (takeBit bitmap j)).bits x =
      if x = 64 * bitmap.walker + j then false
      else decide (x / 64 = bitmap.walker ∧ x < 64 * bitmap.walker + j) || (clock bitmap).bits x := by
  have inside : x % 64 < 64 := Nat.mod_lt _ (by decide)
  by_cases here : x / 64 = bitmap.walker
  · have same : x = 64 * bitmap.walker + j ↔ x % 64 = j := by omega
    have below : x < 64 * bitmap.walker + j ↔ x % 64 < j := by omega
    simp only [clock, takeBit, here, Function.update_self, BitVec.getLsbD_and, BitVec.getLsbD_or, BitVec.getLsbD_not,
      belowShifted_bit j _ position, oneShifted_bit j _ position inside, inside, decide_true, Bool.true_and, same, below,
      true_and]
    by_cases equal : x % 64 = j
    · simp [equal]
    · simp [equal, Bool.or_comm]
  · have other : x ≠ 64 * bitmap.walker + j := by omega
    simp [clock, takeBit, here, other]

/-- What a call of `bitmap_evict` that returns `o` leaves behind. The bits below `o` in its word are
    all set, whether the hand has just passed them or they were evicted before. -/
structure Takes (bitmap : Bitmap) (o : Nat) (next : Bitmap) : Prop where
  bound : o < span bitmap
  set : (clock bitmap).bits o = true
  walker : next.walker = o / 64
  size : next.size = bitmap.size
  currentSize : next.currentSize = bitmap.currentSize
  offsetMask : next.offsetMask = ~~~(oneShifted (o % 64 + 1) - 1)
  bits : ∀ x, (clock next).bits x =
    if x = o then false else decide (x / 64 = o / 64 ∧ x < o) || (clock bitmap).bits x

theorem Takes.span_eq (takes : Takes bitmap o next) : span next = span bitmap := by
  rw [span, takes.currentSize, span]

/-- Above the evicted bit and in the other words the map stays. -/
theorem Takes.kept (takes : Takes bitmap o next) {x : Nat} (other : x ≠ o) (above : ¬(x / 64 = o / 64 ∧ x < o)) :
    (clock next).bits x = (clock bitmap).bits x := by
  rw [takes.bits, if_neg other, decide_eq_false above, Bool.false_or]

theorem Takes.raised (takes : Takes bitmap o next) {x : Nat} (word : x / 64 = o / 64) (below : x < o) :
    (clock next).bits x = true := by
  rw [takes.bits, if_neg (Nat.ne_of_lt below), decide_eq_true ⟨word, below⟩, Bool.true_or]

theorem visible_set (seen : visible bitmap ≠ 0) :
    lowest bitmap < 64 ∧ (clock bitmap).bits (64 * bitmap.walker + lowest bitmap) = true ∧
      bitmap.offsetMask.getLsbD (lowest bitmap) = true := by
  have bound : lowest bitmap < 64 := ffs_bit_lt seen
  have set : (visible bitmap).getLsbD (lowest bitmap) = true := ffs_bit_set seen
  rw [visible, BitVec.getLsbD_and, Bool.and_eq_true] at set
  exact ⟨bound, (word_bit _ _ bound).trans set.1, set.2⟩

theorem clear_of_shown {i : Nat} (shown : bitmap.offsetMask.getLsbD i = true) (clear : (visible bitmap).getLsbD i = false) :
    (clock bitmap).bits (64 * bitmap.walker + i) = false := by
  have inside : i < 64 := BitVec.lt_of_getLsbD shown
  rw [visible, BitVec.getLsbD_and, shown, Bool.and_true] at clear
  exact (word_bit _ _ inside).trans clear

theorem clear_below (i : Nat) (below : i < lowest bitmap) (shown : bitmap.offsetMask.getLsbD i = true) :
    (clock bitmap).bits (64 * bitmap.walker + i) = false := clear_of_shown shown (bit_below_ffs below)

theorem clear_of_unseen (unseen : visible bitmap = 0) (i : Nat) (shown : bitmap.offsetMask.getLsbD i = true) :
    (clock bitmap).bits (64 * bitmap.walker + i) = false := by
  apply clear_of_shown shown
  rw [unseen]
  simp

theorem takeBit_takes (inside : bitmap.walker < bitmap.currentSize) (seen : visible bitmap ≠ 0) :
    Takes bitmap (64 * bitmap.walker + lowest bitmap) (takeBit bitmap (lowest bitmap)) := by
  obtain ⟨bound, set, _⟩ := visible_set seen
  have word : (64 * bitmap.walker + lowest bitmap) / 64 = bitmap.walker := by omega
  have position : (64 * bitmap.walker + lowest bitmap) % 64 = lowest bitmap := by omega
  refine ⟨by simp only [span]; omega, set, word.symm, rfl, rfl, by rw [position]; rfl, ?_⟩
  intro x
  rw [takeBit_bits _ x bound, word]

theorem bitmapEvict_seen (rounds : Nat) (seen : visible bitmap ≠ 0) :
    bitmapEvict (rounds + 1) bitmap =
      some ((bitmap.walker * 64 + lowest bitmap) % 2 ^ 32, takeBit bitmap (lowest bitmap)) := by
  have found : ffs (visible bitmap) ≠ 0 := Nat.pos_iff_ne_zero.mp (ffs_pos seen)
  rw [visible] at found
  rw [bitmapEvict, if_pos found]
  rfl

theorem bitmapEvict_unseen (rounds : Nat) (unseen : visible bitmap = 0) :
    bitmapEvict (rounds + 1) bitmap = bitmapEvict rounds (passWord bitmap) := by
  rw [visible] at unseen
  simp only [bitmapEvict, unseen, ffs_zero, ne_eq, not_true_eq_false, ite_false]

theorem passWord_inside (inside : bitmap.walker < bitmap.currentSize) :
    (passWord bitmap).walker < (passWord bitmap).currentSize := by
  simp only [passWord, nextWalker]
  split <;> omega

/-- The result of a call, the induction going round by round. -/
theorem bitmapEvict_takes {rounds offset : Nat} (inside : bitmap.walker < bitmap.currentSize)
    (fits : 64 * bitmap.currentSize ≤ 2 ^ 31) (result : bitmapEvict rounds bitmap = some (offset, next)) :
    Takes bitmap offset next ∧ (visible bitmap ≠ 0 → offset = 64 * bitmap.walker + lowest bitmap) := by
  induction rounds generalizing bitmap with
  | zero => simp [bitmapEvict] at result
  | succ rounds ih =>
    by_cases unseen : visible bitmap = 0
    · rw [bitmapEvict_unseen rounds unseen] at result
      obtain ⟨takes, _⟩ := ih (passWord_inside inside) fits result
      exact ⟨⟨takes.bound, takes.set, takes.walker, takes.size, takes.currentSize, takes.offsetMask, takes.bits⟩,
        fun seen => absurd unseen seen⟩
    · rw [bitmapEvict_seen rounds unseen] at result
      have bound := (visible_set unseen).1
      have same : (bitmap.walker * 64 + lowest bitmap) % 2 ^ 32 = 64 * bitmap.walker + lowest bitmap := by omega
      rw [same] at result
      cases result
      exact ⟨takeBit_takes inside unseen, fun _ => rfl⟩

end Calls

section Returns

variable {bitmap : Bitmap}

theorem nextWalker_eq (inside : bitmap.walker < bitmap.currentSize) :
    nextWalker bitmap = (bitmap.walker + 1) % bitmap.currentSize := by
  rw [nextWalker]
  by_cases last : bitmap.walker + 1 = bitmap.currentSize
  · rw [if_pos last, last, Nat.mod_self]
  · rw [if_neg last, Nat.mod_eq_of_lt (by omega)]

theorem passWords_walk (k : Nat) (inside : bitmap.walker < bitmap.currentSize) :
    (passWord^[k] bitmap).map = bitmap.map ∧ (passWord^[k] bitmap).currentSize = bitmap.currentSize ∧
      (passWord^[k] bitmap).walker = (bitmap.walker + k) % bitmap.currentSize := by
  induction k with
  | zero => exact ⟨rfl, rfl, (Nat.mod_eq_of_lt inside).symm⟩
  | succ k ih =>
    obtain ⟨map, currentSize, walker⟩ := ih
    rw [Function.iterate_succ_apply']
    refine ⟨map, currentSize, ?_⟩
    have next := @nextWalker_eq (passWord^[k] bitmap) (by
      rw [currentSize, walker]
      exact Nat.mod_lt _ (by omega))
    rw [currentSize, walker, Nat.mod_add_mod, Nat.add_assoc] at next
    exact next

theorem passWords_offsetMask (k : Nat) (bitmap : Bitmap) : (passWord^[k + 1] bitmap).offsetMask = BitVec.allOnes 64 := by
  rw [Function.iterate_succ_apply']
  rfl

theorem bitmapEvict_passes (k rounds : Nat) (unseen : ∀ i < k, visible (passWord^[i] bitmap) = 0) :
    bitmapEvict (k + rounds) bitmap = bitmapEvict rounds (passWord^[k] bitmap) := by
  induction k generalizing rounds with
  | zero => rw [Nat.zero_add, Function.iterate_zero, id_eq]
  | succ k ih =>
    have before := ih (rounds + 1) (fun i early => unseen i (by omega))
    rw [Nat.add_assoc, Nat.add_comm 1 rounds, before, bitmapEvict_unseen rounds (unseen k (by omega)),
      Function.iterate_succ_apply']

/-- A call ends if some bit of the words in use is set; with every bit 0 its loop never ends. -/
theorem bitmapEvict_returns_iff (inside : bitmap.walker < bitmap.currentSize)
    (fits : 64 * bitmap.currentSize ≤ 2 ^ 31) :
    (∃ rounds, (bitmapEvict rounds bitmap).isSome) ↔ ∃ o < span bitmap, (clock bitmap).bits o = true := by
  constructor
  · rintro ⟨rounds, returns⟩
    obtain ⟨⟨offset, next⟩, result⟩ := Option.isSome_iff_exists.mp returns
    obtain ⟨takes, _⟩ := bitmapEvict_takes inside fits result
    exact ⟨offset, takes.bound, takes.set⟩
  · rintro ⟨o, bound, set⟩
    simp only [span] at bound
    -- From the next word on the mask shows every word whole, and the walker comes to the word of the bit.
    have reaches : ∃ k, visible (passWord^[k] bitmap) ≠ 0 := by
      obtain ⟨k, moves⟩ : ∃ k, o / 64 + bitmap.currentSize = bitmap.walker + (k + 1) :=
        ⟨o / 64 + bitmap.currentSize - bitmap.walker - 1, by omega⟩
      refine ⟨k + 1, fun zero => ?_⟩
      obtain ⟨map, _, walker⟩ := passWords_walk (k + 1) inside
      rw [← moves, Nat.add_mod_right, Nat.mod_eq_of_lt (by omega)] at walker
      rw [visible, passWords_offsetMask, BitVec.and_allOnes, map, walker] at zero
      simp [clock, zero] at set
    have first : ∀ i < Nat.find reaches, visible (passWord^[i] bitmap) = 0 :=
      fun i before => not_not.mp (Nat.find_min reaches before)
    refine ⟨Nat.find reaches + 1, ?_⟩
    rw [bitmapEvict_passes _ 1 first, bitmapEvict_seen 0 (Nat.find_spec reaches)]
    rfl

end Returns

section Runs

/-- The bitmap after a sequence of calls, with the offset `bitmap_evict` returned last. -/
inductive SingleRun : Option Nat → Bitmap → Prop
  | init {bitmap : Bitmap} (elemNum : Nat) (bound : elemNum < 2 ^ 31) (result : bitmapInit elemNum = some bitmap) :
      SingleRun none bitmap
  | update {last : Option Nat} {bitmap next : Bitmap} {answer : Int} (newElemNum : Nat) (run : SingleRun last bitmap)
      (bound : newElemNum < 2 ^ 31) (result : bitmapUpdate bitmap newElemNum = some (answer, next)) : SingleRun last next
  | touch {last : Option Nat} {bitmap : Bitmap} (pos : Nat) (run : SingleRun last bitmap) (bound : pos < 2 ^ 32) :
      SingleRun last (bitmapTouch bitmap pos)
  | evict {last : Option Nat} {bitmap next : Bitmap} {offset : Nat} (rounds : Nat) (run : SingleRun last bitmap)
      (nonempty : 0 < bitmap.currentSize) (result : bitmapEvict rounds bitmap = some (offset, next)) :
      SingleRun (some offset) next

/-- The bit of the walker's word the mask begins at: behind bit 63 it is bit 0 of the same word. -/
def bitAfter : Option Nat → Nat
  | none => 0
  | some o => (o + 1) % 64

structure Standing (last : Option Nat) (bitmap : Bitmap) : Prop where
  walker : bitmap.walker < bitmap.currentSize ∨ (bitmap.walker = 0 ∧ bitmap.currentSize = 0)
  currentSize : bitmap.currentSize ≤ bitmap.size
  size : 64 * bitmap.size ≤ 2 ^ 31
  shown : ∀ i, i < 64 → bitmap.offsetMask.getLsbD i = decide (bitAfter last ≤ i)
  start : last = none → bitmap.walker = 0
  evicted : ∀ o, last = some o → o / 64 = bitmap.walker ∧ (clock bitmap).bits o = false

variable {last : Option Nat} {bitmap next : Bitmap} {o : Nat}

theorem Standing.inside (standing : Standing last bitmap) (nonempty : 0 < bitmap.currentSize) :
    bitmap.walker < bitmap.currentSize := by
  have walker := standing.walker
  omega

theorem Standing.fits (standing : Standing last bitmap) : 64 * bitmap.currentSize ≤ 2 ^ 31 := by
  have currentSize := standing.currentSize
  have size := standing.size
  omega

theorem Takes.standing (takes : Takes bitmap o next) (standing : Standing last bitmap) : Standing (some o) next := by
  have bound := takes.bound
  simp only [span] at bound
  refine ⟨.inl ?_, ?_, ?_, ?_, ?_, ?_⟩
  · rw [takes.walker, takes.currentSize]
    omega
  · rw [takes.currentSize, takes.size]
    exact standing.currentSize
  · rw [takes.size]
    exact standing.size
  · intro i inside
    have position : (o % 64 + 1) % 64 = (o + 1) % 64 := by omega
    rw [takes.offsetMask, offsetMask_bit _ i inside, position]
    rfl
  · intro none
    contradiction
  · intro other same
    cases same
    refine ⟨takes.walker.symm, ?_⟩
    rw [takes.bits, if_pos rfl]

theorem SingleRun.standing (run : SingleRun last bitmap) : Standing last bitmap := by
  induction run with
  | init elemNum bound result =>
    simp only [bitmapInit] at result
    split at result
    · cases result
      refine ⟨.inr ⟨rfl, rfl⟩, Nat.zero_le _, by simp only [bitsPerWord]; omega, ?_, fun _ => rfl, ?_⟩
      · intro i inside
        rw [BitVec.getLsbD_allOnes]
        simp [bitAfter, inside]
      · intro other same
        contradiction
    · contradiction
  | update newElemNum run bound result ih =>
    have performed : (Operation.update newElemNum).perform _ = some _ := congrArg (Option.map Prod.snd) result
    rcases bitmapUpdate_cases performed with same | ⟨room, same⟩
    · simp only at same
      subst same
      exact ih
    · simp only at same
      subst same
      have walker := ih.walker
      by_cases empty : 0 < newElemNum / 64
      · exact ⟨.inl (by simp only; omega), room.le, ih.size, ih.shown, ih.start, ih.evicted⟩
      · exact ⟨by simp only; omega, room.le, ih.size, ih.shown, ih.start, ih.evicted⟩
  | touch pos run bound ih =>
    refine ⟨ih.walker, ih.currentSize, ih.size, ih.shown, ih.start, ?_⟩
    intro other same
    obtain ⟨word, clear⟩ := ih.evicted other same
    exact ⟨word, by rw [clock_bitmapTouch, clear, Bool.false_and]⟩
  | evict rounds run nonempty result ih =>
    exact (bitmapEvict_takes (ih.inside nonempty) ih.fits result).1.standing ih

end Runs

end MegaKV.Slab
