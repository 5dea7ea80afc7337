import MegaKV.Slab.SingleEvict

namespace MegaKV.Slab

open Library

section Property

/-- The CLOCK goes on from the bit after the one evicted last. -/
def handAfter (bitmap : Bitmap) : Option Nat → Nat
  | none => 0
  | some o => (o + 1) % span bitmap

def clockAfter (last : Option Nat) (bitmap : Bitmap) : Clock :=
  { bits := (clock bitmap).bits, hand := handAfter bitmap last }

/-- So many calls of `bitmap_evict` all return, with the offsets and the final map of the CLOCK. -/
def FollowsClock (last : Option Nat) (bitmap : Bitmap) (calls : Nat) : Prop :=
  ∃ rounds offsets next d, evictCalls rounds calls bitmap = some (offsets, next) ∧
    Clock.evictions (span bitmap) calls (clockAfter last bitmap) = some (offsets, d) ∧ (clock next).bits = d.bits

end Property

section Apart

variable {bitmap next : Bitmap} {c d : Clock} {o : Nat}

/-- A last bit of a word that is set in the map is set on the clock, also when the two have diverged. -/
def EdgesSet (bitmap : Bitmap) (c : Clock) : Prop :=
  ∀ x, x % 64 = 63 → (clock bitmap).bits x = true → c.bits x = true

/-- `bitmap_evict` sets bits below the evicted one only, so never the last of a word. -/
theorem Takes.edge (takes : Takes bitmap o next) {x : Nat} (last : x % 64 = 63) (set : (clock next).bits x = true) :
    x ≠ o ∧ (clock bitmap).bits x = true := by
  by_cases taken : x = o
  · rw [takes.bits, if_pos taken] at set
    contradiction
  · rw [takes.kept taken (by omega)] at set
    exact ⟨taken, set⟩

theorem EdgesSet.start (last : Option Nat) (bitmap : Bitmap) : EdgesSet bitmap (clockAfter last bitmap) := fun _ _ set => set

theorem EdgesSet.step {n : Nat} (edges : EdgesSet bitmap c) (takes : Takes bitmap o next) (evicts : Clock.Evicts n c o d) :
    EdgesSet next d := by
  intro x last set
  obtain ⟨other, before⟩ := takes.edge last set
  exact evicts.set_stays x other (edges x last before)

/-- The hand sets the last bit of a word it leaves, and `bitmap_evict` does not. -/
theorem edge_left {n : Nat} (e : Nat) (last : e % 64 = 63) (bound : e < n) (ahead : c.hand ≤ e)
    (clear : ∀ x, c.hand ≤ x → x ≤ e → (clock bitmap).bits x = false) (takes : Takes bitmap o next)
    (evicts : Clock.Evicts n c o d) : (clock next).bits e = false ∧ d.bits e = true := by
  have outside : ¬(c.hand ≤ o ∧ o ≤ e) := by
    intro within
    have set := takes.set
    rw [clear o within.1 within.2] at set
    contradiction
  constructor
  · by_contra set
    rw [Bool.not_eq_false] at set
    have before := (takes.edge last set).2
    rw [clear e ahead (Nat.le_refl e)] at before
    contradiction
  · have between : Clock.Between c.hand o e := by
      simp only [Clock.Between]
      omega
    exact (evicts.passes bound (by omega) between).2

variable {last : Option Nat}

theorem Standing.clear_from (standing : Standing last bitmap) (unseen : visible bitmap = 0) (x : Nat)
    (word : x / 64 = bitmap.walker) (shown : bitAfter last ≤ x % 64) : (clock bitmap).bits x = false := by
  have bit := standing.shown (x % 64) (Nat.mod_lt _ (by decide))
  rw [decide_eq_true shown] at bit
  have clear := clear_of_unseen unseen (x % 64) bit
  rw [← word, Nat.div_add_mod] at clear
  exact clear

theorem Standing.lowest_shown (standing : Standing last bitmap) (seen : visible bitmap ≠ 0) :
    bitAfter last ≤ lowest bitmap := by
  obtain ⟨bound, _, shown⟩ := visible_set seen
  rw [standing.shown _ bound] at shown
  exact of_decide_eq_true shown

/-- Behind an evicted bit that is not the last of its word the next call leaves a map the CLOCK does
    not: the evicted bit is set again, or the rest of the word is left clear. -/
theorem mid_word_differs {o' : Nat} (standing : Standing (some o') bitmap) (inside : bitmap.walker < bitmap.currentSize)
    (mid : o' % 64 ≠ 63) (hand : c.hand = o' + 1) (cleared : c.bits o' = false) (edges : EdgesSet bitmap c)
    (takes : Takes bitmap o next) (here : visible bitmap ≠ 0 → o = 64 * bitmap.walker + lowest bitmap)
    (evicts : Clock.Evicts (span bitmap) c o d) : (clock next).bits ≠ d.bits := by
  intro same
  obtain ⟨word, _⟩ := standing.evicted o' rfl
  have edge : 64 * bitmap.walker + 63 < span bitmap := by
    simp only [span]
    omega
  by_cases unseen : visible bitmap = 0
  · have left := edge_left (64 * bitmap.walker + 63) (by omega) edge (by omega) (by
      intro x low high
      exact standing.clear_from unseen x (by omega) (by simp only [bitAfter]; omega)) takes evicts
    rw [same, left.2] at left
    exact absurd left.1 (by decide)
  · have found := here unseen
    have shown := standing.lowest_shown unseen
    have bound := (visible_set unseen).1
    simp only [bitAfter] at shown
    have again : d.bits o' = true := by
      rw [← same]
      exact takes.raised (by omega) (by omega)
    rcases evicts.way with ⟨_, way⟩ | ⟨start, way⟩
    · have apart : ¬Clock.Between c.hand o o' := by
        simp only [Clock.Between]
        omega
      have still := (way o' (by omega) (by omega)).2 apart
      rw [again, cleared] at still
      contradiction
    · -- All bits of the clock are clear, and the last bit of the word is set in the map.
      have set : (clock bitmap).bits (64 * bitmap.walker + 63) = true := by
        by_cases taken : 64 * bitmap.walker + 63 = o
        · rw [taken]
          exact takes.set
        · have raised := (way _ edge).2 taken
          rw [← same] at raised
          exact (takes.edge (by omega) raised).2
      have held := edges _ (by omega) set
      rw [(way _ edge).1] at held
      contradiction

end Apart

section Together

variable {bitmap next : Bitmap} {c d : Clock} {o : Nat} {last : Option Nat}

structure Paired (bitmap : Bitmap) (c : Clock) (o : Nat) : Prop where
  standing : Standing (some o) bitmap
  inside : bitmap.walker < bitmap.currentSize
  below : ∀ x, x / 64 = o / 64 → x < o → (clock bitmap).bits x = true
  hand : c.hand = (o + 1) % span bitmap
  cleared : c.bits o = false
  edges : EdgesSet bitmap c

theorem Takes.paired (takes : Takes bitmap o next) (standing : Standing last bitmap) (edges : EdgesSet bitmap c)
    (evicts : Clock.Evicts (span bitmap) c o d) : Paired next d o := by
  have bound := takes.bound
  simp only [span] at bound
  refine ⟨takes.standing standing, ?_, ?_, ?_, evicts.cleared, edges.step takes evicts⟩
  · rw [takes.walker, takes.currentSize]
    omega
  · intro x word before
    exact takes.raised word before
  · rw [takes.span_eq, evicts.hand]

theorem Paired.word (paired : Paired bitmap c o) : o / 64 = bitmap.walker := (paired.standing.evicted o rfl).1

theorem Paired.hand_mid (paired : Paired bitmap c o) (mid : o % 64 ≠ 63) : c.hand = o + 1 := by
  have word := paired.word
  have inside := paired.inside
  rw [paired.hand]
  apply Nat.mod_eq_of_lt
  simp only [span]
  omega

/-- After bit 63 the next call starts again at bit 0 of the same word. -/
theorem Paired.repeats (paired : Paired bitmap c o) (last : o % 64 = 63) :
    visible bitmap ≠ 0 ∧ lowest bitmap = 0 := by
  have word := paired.word
  have set := paired.below (64 * bitmap.walker) (by omega) (by omega)
  have whole : bitAfter (some o) ≤ 0 := by
    simp only [bitAfter]
    omega
  constructor
  · intro unseen
    have clear := paired.standing.clear_from unseen (64 * bitmap.walker) (by omega) (by omega)
    rw [set] at clear
    contradiction
  · by_contra above
    have shown := paired.standing.shown 0 (by decide)
    rw [decide_eq_true whole] at shown
    have clear := clear_below 0 (by omega) shown
    rw [Nat.add_zero, set] at clear
    contradiction

/-- Two calls after each other leave the map of the CLOCK only if the first takes the last bit of its
    word, and then the CLOCK has only that word set and the map all the others. -/
theorem Paired.second {o' : Nat} (paired : Paired bitmap c o') (takes : Takes bitmap o next)
    (here : visible bitmap ≠ 0 → o = 64 * bitmap.walker + lowest bitmap)
    (evicts : Clock.Evicts (span bitmap) c o d) (same : (clock next).bits = d.bits) :
    o' % 64 = 63 ∧ (∀ x, x / 64 = bitmap.walker → x % 64 ≠ 63 → c.bits x = true) ∧
      ∀ x < span bitmap, x / 64 ≠ bitmap.walker → c.bits x = false ∧ (clock bitmap).bits x = true := by
  have word := paired.word
  have inside := paired.inside
  have last : o' % 64 = 63 := by
    by_contra mid
    exact mid_word_differs paired.standing inside mid (paired.hand_mid mid) paired.cleared paired.edges takes here
      evicts same
  obtain ⟨seen, first⟩ := paired.repeats last
  have found := here seen
  rw [first, Nat.add_zero] at found
  have kept : ∀ x, x ≠ o → ¬(x / 64 = o / 64 ∧ x < o) → d.bits x = (clock bitmap).bits x := by
    intro x other above
    rw [← same, takes.kept other above]
  have gone : d.bits o' = false := by
    rw [kept o' (by omega) (by omega)]
    exact (paired.standing.evicted o' rfl).2
  have hand : (bitmap.walker + 1 = bitmap.currentSize ∧ c.hand = 0) ∨
      (bitmap.walker + 1 < bitmap.currentSize ∧ c.hand = 64 * bitmap.walker + 64) := by
    rw [paired.hand, span]
    by_cases wraps : bitmap.walker + 1 = bitmap.currentSize
    · left
      rw [show o' + 1 = 64 * bitmap.currentSize by omega, Nat.mod_self]
      exact ⟨wraps, rfl⟩
    · right
      rw [Nat.mod_eq_of_lt (by omega)]
      omega
  rcases evicts.way with ⟨set, way⟩ | ⟨_, way⟩
  · refine ⟨last, ?_, ?_⟩
    · intro x here mid
      by_cases taken : x = o
      · rw [taken]
        exact set
      · have apart : ¬Clock.Between c.hand o x := by
          simp only [Clock.Between]
          omega
        rw [← (way x (by simp only [span]; omega) taken).2 apart, kept x taken (by omega)]
        exact paired.below x (by omega) (by omega)
    · intro x bound other
      have between : Clock.Between c.hand o x := by
        simp only [span] at bound
        simp only [Clock.Between]
        omega
      obtain ⟨clear, raised⟩ := (way x bound (by omega)).1 between
      rw [kept x (by omega) (by omega)] at raised
      exact ⟨clear, raised⟩
  · have raised := (way o' (by simp only [span]; omega)).2 (by omega)
    rw [gone] at raised
    contradiction

/-- From the third call on the map is never that of the CLOCK again. -/
theorem Paired.third {mid : Bitmap} {m : Clock} {first second : Nat} (paired : Paired bitmap c first)
    (takes : Takes bitmap second mid) (here : visible bitmap ≠ 0 → second = 64 * bitmap.walker + lowest bitmap)
    (evicts : Clock.Evicts (span bitmap) c second m) (later : Takes mid o next)
    (hereLater : visible mid ≠ 0 → o = 64 * mid.walker + lowest mid) (evictsLater : Clock.Evicts (span mid) m o d) :
    (clock next).bits ≠ d.bits := by
  intro same
  have pairedMid := takes.paired paired.standing paired.edges evicts
  obtain ⟨last, whole, others⟩ := pairedMid.second later hereLater evictsLater same
  have walker := takes.walker
  have word := paired.word
  have inside := paired.inside
  have size := takes.span_eq
  by_cases edge : first % 64 = 63
  · obtain ⟨seen, low⟩ := paired.repeats edge
    have found := here seen
    omega
  · have hand := paired.hand_mid edge
    by_cases unseen : visible bitmap = 0
    · -- The CLOCK has set the last bit of the word it left.
      have end_lt : 64 * bitmap.walker + 63 < span bitmap := by
        simp only [span]
        omega
      have clear : ∀ x, c.hand ≤ x → x ≤ 64 * bitmap.walker + 63 → (clock bitmap).bits x = false := by
        intro x low high
        exact paired.standing.clear_from unseen x (by omega) (by simp only [bitAfter]; omega)
      have left := edge_left (64 * bitmap.walker + 63) (by omega) end_lt (by omega) clear takes evicts
      have elsewhere : (64 * bitmap.walker + 63) / 64 ≠ mid.walker := by
        intro again
        have end_eq : second = 64 * bitmap.walker + 63 := by omega
        rw [← end_eq, evicts.cleared] at left
        exact absurd left.2 (by decide)
      have zero := (others (64 * bitmap.walker + 63) (by omega) elsewhere).1
      rw [left.2] at zero
      contradiction
    · -- The bit evicted before is clear on the CLOCK, which has the whole word set.
      have found := here unseen
      have shown := paired.standing.lowest_shown unseen
      have bound := (visible_set unseen).1
      simp only [bitAfter] at shown
      have raised := whole first (by omega) edge
      rcases evicts.way with ⟨_, way⟩ | ⟨_, way⟩
      · have apart : ¬Clock.Between c.hand second first := by
          simp only [Clock.Between]
          omega
        rw [(way first (by simp only [span]; omega) (by omega)).2 apart, paired.cleared] at raised
        contradiction
      · have held := paired.edges second last takes.set
        rw [(way second takes.bound).1] at held
        contradiction

end Together

section Starts

variable {bitmap next : Bitmap} {c d : Clock} {o : Nat} {last : Option Nat}

/-- The hand is at the first bit of a word that has a set bit, and the walker is at this word or at
    one without set bits, whose last bit was evicted. -/
def AtWord (last : Option Nat) (bitmap : Bitmap) : Prop :=
  bitmap.offsetMask = BitVec.allOnes 64 ∧ ∃ word, handAfter bitmap last = 64 * word ∧ bitmap.map word ≠ 0 ∧
    (word = bitmap.walker ∨ bitmap.map bitmap.walker = 0)

/-- One word is in use, seen whole, and only its last bit is set. -/
def LastBit (bitmap : Bitmap) : Prop :=
  bitmap.currentSize = 1 ∧ bitmap.offsetMask = BitVec.allOnes 64 ∧ bitmap.map 0 = 1#64 <<< 63

theorem Standing.whole_iff (standing : Standing last bitmap) :
    bitmap.offsetMask = BitVec.allOnes 64 ↔ bitAfter last = 0 := by
  constructor
  · intro whole
    have first := standing.shown 0 (by decide)
    rw [whole, BitVec.getLsbD_allOnes, decide_eq_true (by decide)] at first
    exact Nat.le_zero.mp (of_decide_eq_true first.symm)
  · intro start
    apply BitVec.eq_of_getLsbD_eq
    intro i inside
    rw [standing.shown i inside, start, BitVec.getLsbD_allOnes]
    simp [inside]

theorem Standing.hand_start (standing : Standing last bitmap) (inside : bitmap.walker < bitmap.currentSize)
    (start : bitAfter last = 0) :
    ∃ word < bitmap.currentSize, handAfter bitmap last = 64 * word ∧ (word = bitmap.walker ∨ word = nextWalker bitmap) := by
  cases last with
  | none =>
    have walker := standing.start rfl
    exact ⟨0, by omega, rfl, .inl walker.symm⟩
  | some o =>
    obtain ⟨word, _⟩ := standing.evicted o rfl
    simp only [bitAfter] at start
    refine ⟨nextWalker bitmap, ?_, ?_, .inr rfl⟩
    · exact passWord_inside inside
    · rw [handAfter, span, nextWalker_eq inside, show o + 1 = 64 * (bitmap.walker + 1) by omega, Nat.mul_mod_mul_left]

theorem Standing.hand_lt (standing : Standing last bitmap) (inside : bitmap.walker < bitmap.currentSize) :
    handAfter bitmap last < span bitmap := by
  have positive : 0 < span bitmap := by
    simp only [span]
    omega
  cases last with
  | none => exact positive
  | some o => exact Nat.mod_lt _ positive

theorem visible_whole (whole : bitmap.offsetMask = BitVec.allOnes 64) : visible bitmap = bitmap.map bitmap.walker := by
  rw [visible, whole, BitVec.and_allOnes]

theorem word_clear {word x : Nat} (zero : bitmap.map word = 0) (here : x / 64 = word) : (clock bitmap).bits x = false := by
  simp [clock, here, zero]

/-- One call that leaves the map of the CLOCK starts with the hand at a word with a set bit. -/
theorem Standing.atWord (standing : Standing last bitmap) (inside : bitmap.walker < bitmap.currentSize)
    (takes : Takes bitmap o next) (here : visible bitmap ≠ 0 → o = 64 * bitmap.walker + lowest bitmap)
    (evicts : Clock.Evicts (span bitmap) (clockAfter last bitmap) o d) (same : (clock next).bits = d.bits) :
    AtWord last bitmap := by
  have start : bitAfter last = 0 := by
    cases last with
    | none => rfl
    | some o' =>
      by_contra behind
      obtain ⟨word, clear⟩ := standing.evicted o' rfl
      simp only [bitAfter] at behind
      have hand : (clockAfter (some o') bitmap).hand = o' + 1 := Nat.mod_eq_of_lt (by simp only [span]; omega)
      exact mid_word_differs standing inside (by omega) hand clear (.start _ bitmap) takes here evicts same
  have whole := standing.whole_iff.mpr start
  obtain ⟨word, bound, hand, _⟩ := standing.hand_start inside start
  have handHere : (clockAfter last bitmap).hand = 64 * word := hand
  refine ⟨whole, word, hand, ?_, ?_⟩
  · intro zero
    have left := edge_left (64 * word + 63) (by omega) (by simp only [span]; omega) (by omega)
      (fun x low high => word_clear zero (by omega)) takes evicts
    rw [same, left.2] at left
    exact absurd left.1 (by decide)
  · by_contra neither
    rw [not_or] at neither
    obtain ⟨elsewhere, remaining⟩ := neither
    have seen : visible bitmap ≠ 0 := by
      rw [visible_whole whole]
      exact remaining
    have found := here seen
    have low := (visible_set seen).1
    have between : Clock.Between (clockAfter last bitmap).hand o (64 * word) := by
      rw [handHere]
      simp only [Clock.Between]
      omega
    obtain ⟨clear, raised⟩ := evicts.passes (by simp only [span]; omega) (by omega) between
    rw [← same, takes.kept (by omega) (by omega)] at raised
    have before : (clock bitmap).bits (64 * word) = false := clear
    rw [raised] at before
    contradiction

/-- From the first bit of a word with a set bit both sides take the same step. -/
theorem word_start_takes (c : Clock) (inside : bitmap.walker < bitmap.currentSize) (fits : 64 * bitmap.currentSize ≤ 2 ^ 31)
    (whole : bitmap.offsetMask = BitVec.allOnes 64) (remaining : bitmap.map bitmap.walker ≠ 0)
    (bits : c.bits = (clock bitmap).bits) (hand : c.hand = 64 * bitmap.walker) :
    ∃ o next d, (∀ rounds, bitmapEvict (rounds + 1) bitmap = some (o, next)) ∧
      Clock.seek (span bitmap) (span bitmap + 1) c = some (o, d) ∧ (clock next).bits = d.bits := by
  have seen : visible bitmap ≠ 0 := by
    rw [visible_whole whole]
    exact remaining
  have low := (visible_set seen).1
  have takes := takeBit_takes inside seen
  have start : c.hand < span bitmap := by
    simp only [span]
    omega
  obtain ⟨o, d, found, evicts⟩ := Clock.seek_evicts c start
  have clear : ∀ x, 64 * bitmap.walker ≤ x → x < 64 * bitmap.walker + lowest bitmap → c.bits x = false := by
    intro x above below
    obtain ⟨i, rfl⟩ := Nat.exists_eq_add_of_le above
    rw [bits]
    apply clear_below i (by omega)
    rw [whole, BitVec.getLsbD_allOnes]
    exact decide_eq_true (by omega)
  have same : o = 64 * bitmap.walker + lowest bitmap := by
    apply evicts.first_set takes.bound
    · rw [bits]
      exact takes.set
    · intro x _ between
      simp only [Clock.Between, hand] at between
      exact clear x (by omega) (by omega)
  rw [← same] at takes clear
  refine ⟨o, takeBit bitmap (lowest bitmap), d, ?_, found, ?_⟩
  · intro rounds
    rw [bitmapEvict_seen rounds seen, same]
    congr 2
    omega
  · funext x
    rw [takes.bits]
    by_cases taken : x = o
    · rw [if_pos taken, taken, evicts.cleared]
    · rw [if_neg taken]
      by_cases passed : x / 64 = o / 64 ∧ x < o
      · have between : Clock.Between c.hand o x := by
          simp only [Clock.Between, hand]
          omega
        rw [(evicts.passes (by simp only [span]; omega) taken between).2]
        simp [passed]
      · have apart : ¬Clock.Between c.hand o x := by
          simp only [Clock.Between, hand]
          omega
        have still : d.bits x = c.bits x := by
          by_cases bound : x < span bitmap
          · rcases evicts.way with ⟨_, way⟩ | ⟨_, way⟩
            · exact (way x bound taken).2 apart
            · have set := takes.set
              rw [← bits, (way o takes.bound).1] at set
              contradiction
          · exact evicts.outside x (Nat.not_lt.mp bound)
        rw [still, bits]
        simp [passed]

theorem AtWord.takes (at_word : AtWord last bitmap) (standing : Standing last bitmap)
    (inside : bitmap.walker < bitmap.currentSize) :
    ∃ o next d, bitmapEvict 2 bitmap = some (o, next) ∧
      Clock.seek (span bitmap) (span bitmap + 1) (clockAfter last bitmap) = some (o, d) ∧ (clock next).bits = d.bits := by
  obtain ⟨whole, word, hand, remaining, place⟩ := at_word
  by_cases here : word = bitmap.walker
  · subst here
    obtain ⟨o, next, d, result, found, same⟩ := word_start_takes (clockAfter last bitmap) inside standing.fits whole
      remaining rfl hand
    exact ⟨o, next, d, result 1, found, same⟩
  · have spent : visible bitmap = 0 := by
      rw [visible_whole whole]
      exact place.resolve_left here
    obtain ⟨other, _, start, follows⟩ := standing.hand_start inside (standing.whole_iff.mp whole)
    have moved : word = nextWalker bitmap := by omega
    subst moved
    obtain ⟨o, next, d, result, found, same⟩ := word_start_takes (clockAfter last bitmap) (passWord_inside inside)
      standing.fits rfl remaining rfl hand
    exact ⟨o, next, d, (bitmapEvict_unseen 1 spent).trans (result 0), found, same⟩

end Starts

section Calls

variable {bitmap next : Bitmap} {d : Clock} {o rounds calls : Nat} {last : Option Nat}

def Together (rounds : Nat) (last : Option Nat) (bitmap : Bitmap) (calls : Nat) (next : Bitmap) (d : Clock) : Prop :=
  ∃ offsets, evictCalls rounds calls bitmap = some (offsets, next) ∧
    Clock.evictions (span bitmap) calls (clockAfter last bitmap) = some (offsets, d)

theorem Together.start : Together rounds last bitmap 0 bitmap (clockAfter last bitmap) := ⟨[], rfl, rfl⟩

theorem evictCalls_succ {offsets : List Nat} (result : evictCalls rounds (calls + 1) bitmap = some (offsets, next)) :
    ∃ before o mid, evictCalls rounds calls bitmap = some (before, mid) ∧ bitmapEvict rounds mid = some (o, next) ∧
      offsets = before ++ [o] := by
  simp only [evictCalls] at result
  split at result
  · contradiction
  · rename_i before mid earlier
    obtain ⟨⟨o, after⟩, found, same⟩ := Option.map_eq_some_iff.mp result
    cases same
    exact ⟨before, o, mid, earlier, found, rfl⟩

theorem Together.uncons (together : Together rounds last bitmap (calls + 1) next d) :
    ∃ mid m o, Together rounds last bitmap calls mid m ∧ bitmapEvict rounds mid = some (o, next) ∧
      Clock.seek (span bitmap) (span bitmap + 1) m = some (o, d) := by
  obtain ⟨offsets, result, expected⟩ := together
  obtain ⟨before, o, mid, earlier, returned, rfl⟩ := evictCalls_succ result
  obtain ⟨other, o', m, clockEarlier, found, equal⟩ := Clock.evictions_succ expected
  obtain ⟨rfl, same⟩ := List.append_inj' equal rfl
  cases same
  exact ⟨mid, m, o, ⟨before, earlier, clockEarlier⟩, returned, found⟩

theorem Together.first (together : Together rounds last bitmap 1 next d) :
    ∃ o, bitmapEvict rounds bitmap = some (o, next) ∧
      Clock.seek (span bitmap) (span bitmap + 1) (clockAfter last bitmap) = some (o, d) := by
  obtain ⟨mid, m, o, ⟨offsets, before, clockBefore⟩, returned, found⟩ := together.uncons
  cases before
  cases clockBefore
  exact ⟨o, returned, found⟩

theorem Together.snoc {mid : Bitmap} {m : Clock} (together : Together rounds last bitmap calls mid m)
    (returned : bitmapEvict rounds mid = some (o, next))
    (found : Clock.seek (span bitmap) (span bitmap + 1) m = some (o, d)) :
    Together rounds last bitmap (calls + 1) next d := by
  obtain ⟨offsets, earlier, clockEarlier⟩ := together
  exact ⟨offsets ++ [o], by simp [evictCalls, earlier, returned], by simp [Clock.evictions, clockEarlier, found]⟩

theorem Paired.call {c : Clock} {o' : Nat} (paired : Paired bitmap c o') (returned : bitmapEvict rounds bitmap = some (o, next))
    (found : Clock.seek (span bitmap) (span bitmap + 1) c = some (o, d)) :
    Takes bitmap o next ∧ (visible bitmap ≠ 0 → o = 64 * bitmap.walker + lowest bitmap) ∧
      Clock.Evicts (span bitmap) c o d := by
  have inside := paired.inside
  have hand : c.hand < span bitmap := by
    rw [paired.hand]
    exact Nat.mod_lt _ (by simp only [span]; omega)
  obtain ⟨takes, here⟩ := bitmapEvict_takes inside paired.standing.fits returned
  exact ⟨takes, here, .of_seek hand found⟩

theorem Standing.call (standing : Standing last bitmap) (inside : bitmap.walker < bitmap.currentSize)
    (returned : bitmapEvict rounds bitmap = some (o, next))
    (found : Clock.seek (span bitmap) (span bitmap + 1) (clockAfter last bitmap) = some (o, d)) :
    Takes bitmap o next ∧ (visible bitmap ≠ 0 → o = 64 * bitmap.walker + lowest bitmap) ∧
      Clock.Evicts (span bitmap) (clockAfter last bitmap) o d := by
  obtain ⟨takes, here⟩ := bitmapEvict_takes inside standing.fits returned
  exact ⟨takes, here, .of_seek (standing.hand_lt inside) found⟩

theorem Standing.paired (standing : Standing last bitmap) (inside : bitmap.walker < bitmap.currentSize)
    (together : Together rounds last bitmap (calls + 1) next d) : ∃ o, Paired next d o ∧ span next = span bitmap := by
  induction calls generalizing next d with
  | zero =>
    obtain ⟨o, returned, found⟩ := together.first
    obtain ⟨takes, _, evicts⟩ := standing.call inside returned found
    exact ⟨o, takes.paired standing (.start last bitmap) evicts, takes.span_eq⟩
  | succ calls ih =>
    obtain ⟨mid, m, o, earlier, returned, found⟩ := together.uncons
    obtain ⟨o', paired, size⟩ := ih earlier
    rw [← size] at found
    obtain ⟨takes, _, evicts⟩ := paired.call returned found
    exact ⟨o, takes.paired paired.standing paired.edges evicts, takes.span_eq.trans size⟩

theorem followsClock_iff : FollowsClock last bitmap calls ↔
    ∃ rounds next d, Together rounds last bitmap calls next d ∧ (clock next).bits = d.bits := by
  constructor
  · rintro ⟨rounds, offsets, next, d, result, expected, same⟩
    exact ⟨rounds, next, d, ⟨offsets, result, expected⟩, same⟩
  · rintro ⟨rounds, next, d, ⟨offsets, result, expected⟩, same⟩
    exact ⟨rounds, offsets, next, d, result, expected, same⟩

theorem follows_none : FollowsClock last bitmap 0 := followsClock_iff.mpr ⟨0, _, _, .start, rfl⟩

theorem follows_once_iff (standing : Standing last bitmap) (inside : bitmap.walker < bitmap.currentSize) :
    FollowsClock last bitmap 1 ↔ AtWord last bitmap := by
  rw [followsClock_iff]
  constructor
  · rintro ⟨rounds, next, d, together, same⟩
    obtain ⟨o, returned, found⟩ := together.first
    obtain ⟨takes, here, evicts⟩ := standing.call inside returned found
    exact standing.atWord inside takes here evicts same
  · intro atWord
    obtain ⟨o, next, d, returned, found, same⟩ := atWord.takes standing inside
    exact ⟨2, next, d, Together.start.snoc returned found, same⟩

theorem single_word_bit {i : Nat} (position : i < 64) : (clock bitmap).bits i = (bitmap.map 0).getLsbD i := by
  have bit := @word_bit bitmap 0 i position
  rw [Nat.mul_zero, Nat.zero_add] at bit
  exact bit

theorem lastBit_iff : bitmap.map 0 = 1#64 <<< 63 ↔ ∀ i < 64, (clock bitmap).bits i = decide (i = 63) := by
  constructor
  · intro word i position
    rw [single_word_bit position, word]
    exact oneShifted_bit 63 i (by decide) position
  · intro bits
    apply BitVec.eq_of_getLsbD_eq
    intro i position
    rw [← single_word_bit position, bits i position]
    exact (oneShifted_bit 63 i (by decide) position).symm

/-- A bit of a word that the first call does not visit is the same before and after it, so a second
    call can agree with the CLOCK only if there is one word. -/
theorem Takes.one_word {c m : Clock} {mid : Bitmap} {first : Nat} (takes : Takes bitmap first mid)
    (evicts : Clock.Evicts (span bitmap) c first m) (bits : c.bits = (clock bitmap).bits)
    (others : ∀ x < span bitmap, x / 64 ≠ first / 64 → m.bits x = false ∧ (clock mid).bits x = true) :
    bitmap.currentSize = 1 := by
  have bound := takes.bound
  simp only [span] at bound
  by_contra several
  obtain ⟨word, inUse, other⟩ : ∃ word < bitmap.currentSize, word ≠ first / 64 := by
    by_cases zero : first / 64 = 0
    · exact ⟨1, by omega, by omega⟩
    · exact ⟨0, by omega, by omega⟩
  obtain ⟨clear, set⟩ := others (64 * word) (by simp only [span]; omega) (by omega)
  rw [takes.kept (by omega) (by omega)] at set
  have raised := evicts.set_stays (64 * word) (by omega) (by rw [bits]; exact set)
  rw [clear] at raised
  contradiction

/-- When the last bit of the only word is evicted first, the second call still agrees. -/
theorem Standing.lastBit {mid : Bitmap} {m : Clock} {first : Nat} (standing : Standing last bitmap)
    (inside : bitmap.walker < bitmap.currentSize) (takes : Takes bitmap first mid)
    (here : visible bitmap ≠ 0 → first = 64 * bitmap.walker + lowest bitmap)
    (evicts : Clock.Evicts (span bitmap) (clockAfter last bitmap) first m) (edge : first % 64 = 63)
    (whole : ∀ x, x / 64 = first / 64 → x % 64 ≠ 63 → m.bits x = true)
    (others : ∀ x < span bitmap, x / 64 ≠ first / 64 → m.bits x = false ∧ (clock mid).bits x = true) :
    LastBit bitmap := by
  have single := takes.one_word evicts rfl others
  have paired := takes.paired standing (.start last bitmap) evicts
  have bound := takes.bound
  simp only [span, single] at bound
  have top : first = 63 := by omega
  subst top
  have agree : (clock mid).bits = m.bits := by
    funext x
    by_cases inWord : x < 64
    · by_cases taken : x = 63
      · rw [taken, (paired.standing.evicted 63 rfl).2, evicts.cleared]
      · rw [paired.below x (by omega) (by omega), whole x (by omega) (by omega)]
    · rw [takes.kept (by omega) (by omega), evicts.outside x (by simp only [span]; omega)]
      rfl
  obtain ⟨shown, word, start, _, _⟩ := standing.atWord inside takes here evicts agree
  have small := standing.hand_lt inside
  simp only [span] at small
  have hand : (clockAfter last bitmap).hand = 0 := by
    change handAfter bitmap last = 0
    omega
  refine ⟨single, shown, lastBit_iff.mpr ?_⟩
  intro i position
  by_cases taken : i = 63
  · rw [taken, takes.set]
    rfl
  · have between : Clock.Between (clockAfter last bitmap).hand 63 i := by
      rw [hand]
      simp only [Clock.Between]
      omega
    have clear : (clock bitmap).bits i = false := (evicts.passes (by simp only [span]; omega) taken between).1
    simp [clear, taken]

theorem LastBit.takes (lastBit : LastBit bitmap) (standing : Standing last bitmap)
    (inside : bitmap.walker < bitmap.currentSize) :
    ∃ mid m, bitmapEvict 2 bitmap = some (63, mid) ∧
      Clock.seek (span bitmap) (span bitmap + 1) (clockAfter last bitmap) = some (63, m) ∧
      Paired mid m 63 ∧ clockAfter (some 63) mid = m ∧ AtWord (some 63) mid := by
  obtain ⟨single, whole, word⟩ := lastBit
  have nonzero : bitmap.map 0 ≠ 0 := by
    rw [word]
    decide
  obtain ⟨place, bound, hand, _⟩ := standing.hand_start inside (standing.whole_iff.mp whole)
  have zero : place = 0 := by omega
  subst zero
  have atWord : AtWord last bitmap := ⟨whole, 0, hand, nonzero, .inl (by omega)⟩
  obtain ⟨o, mid, m, returned, found, agree⟩ := atWord.takes standing inside
  obtain ⟨takes, _, evicts⟩ := standing.call inside returned found
  have small := takes.bound
  simp only [span, single] at small
  have top : o = 63 := by
    have set := takes.set
    rw [lastBit_iff.mp word o small] at set
    exact of_decide_eq_true set
  subst top
  have paired := takes.paired standing (.start last bitmap) evicts
  have handMid : handAfter mid (some 63) = 0 := by simp [handAfter, span, takes.currentSize, single]
  have remaining : mid.map 0 ≠ 0 := by
    intro cleared
    have clear := @word_clear mid 0 0 cleared rfl
    rw [paired.below 0 rfl (by decide)] at clear
    contradiction
  refine ⟨mid, m, returned, found, paired, ?_, paired.standing.whole_iff.mpr rfl, 0, handMid, remaining,
    .inl takes.walker.symm⟩
  have handSame : m.hand = handAfter mid (some 63) := by rw [evicts.hand, handAfter, takes.span_eq]
  rw [clockAfter, agree, ← handSame]

theorem follows_twice_iff (standing : Standing last bitmap) (inside : bitmap.walker < bitmap.currentSize) :
    FollowsClock last bitmap 2 ↔ LastBit bitmap := by
  rw [followsClock_iff]
  constructor
  · rintro ⟨rounds, next, d, together, same⟩
    obtain ⟨mid, m, o, earlier, returned, found⟩ := together.uncons
    obtain ⟨first, firstReturned, firstFound⟩ := earlier.first
    obtain ⟨takes, here, evicts⟩ := standing.call inside firstReturned firstFound
    have paired := takes.paired standing (.start last bitmap) evicts
    rw [← takes.span_eq] at found
    obtain ⟨later, hereLater, evictsLater⟩ := paired.call returned found
    obtain ⟨edge, whole, others⟩ := paired.second later hereLater evictsLater same
    rw [takes.walker] at whole others
    rw [takes.span_eq] at others
    exact standing.lastBit inside takes here evicts edge whole others
  · intro lastBit
    obtain ⟨mid, m, returned, found, paired, same, atWord⟩ := lastBit.takes standing inside
    obtain ⟨o, next, d, returnedMid, foundMid, agree⟩ := atWord.takes paired.standing paired.inside
    have size : span mid = span bitmap := by
      obtain ⟨takes, _, _⟩ := standing.call inside returned found
      exact takes.span_eq
    rw [same, size] at foundMid
    exact ⟨2, next, d, (Together.start.snoc returned found).snoc returnedMid foundMid, agree⟩

theorem not_follows_thrice (standing : Standing last bitmap) (inside : bitmap.walker < bitmap.currentSize) :
    ¬FollowsClock last bitmap (calls + 3) := by
  rw [followsClock_iff]
  rintro ⟨rounds, next, d, together, same⟩
  obtain ⟨mid, m, o, earlier, returned, found⟩ := together.uncons
  obtain ⟨start, c, o', before, returnedMid, foundMid⟩ := earlier.uncons
  obtain ⟨first, paired, size⟩ := standing.paired inside before
  rw [← size] at foundMid found
  obtain ⟨takes, here, evicts⟩ := paired.call returnedMid foundMid
  rw [← takes.span_eq] at found
  obtain ⟨later, hereLater, evictsLater⟩ := (takes.paired paired.standing paired.edges evicts).call returned found
  exact paired.third takes here evicts later hereLater evictsLater same

/-- The first call agrees with the CLOCK from the first bit of a word on, a second call only behind
    the last bit of the only word, and no further call does. -/
theorem single_evict_is_clock_iff (run : SingleRun last bitmap) (nonempty : 0 < bitmap.currentSize) (calls : Nat) :
    (∃ rounds, (bitmapEvict rounds bitmap).isSome) ∧ FollowsClock last bitmap calls ↔
      (∃ o < span bitmap, (clock bitmap).bits o = true) ∧
        (calls = 0 ∨ (calls = 1 ∧ AtWord last bitmap) ∨ (calls = 2 ∧ LastBit bitmap)) := by
  have standing := run.standing
  have inside := standing.inside nonempty
  rw [bitmapEvict_returns_iff inside standing.fits]
  apply and_congr_right
  intro _
  match calls with
  | 0 => simp [follows_none]
  | 1 => simp [follows_once_iff standing inside]
  | 2 => simp [follows_twice_iff standing inside]
  | calls + 3 => simp [not_follows_thrice standing inside]

theorem oneWord_single : SingleRun none oneWord :=
  .update 64 (.init 128 (by decide) rfl) (by decide) rfl

theorem single_evict_is_clock_iff_oneWord : SingleRun none oneWord ∧
    ((∃ rounds, (bitmapEvict rounds oneWord).isSome) ∧ FollowsClock none oneWord 1 ↔
      (∃ o < span oneWord, (clock oneWord).bits o = true) ∧
        (1 = 0 ∨ (1 = 1 ∧ AtWord none oneWord) ∨ (1 = 2 ∧ LastBit oneWord))) :=
  ⟨oneWord_single, single_evict_is_clock_iff oneWord_single (by decide) 1⟩

/-- After the evictions of bits 0 and 1 bit 0 is set again. -/
theorem single_evict_leaves_clock :
    ¬ ∀ (last : Option Nat) (bitmap : Bitmap), SingleRun last bitmap → 0 < bitmap.currentSize → ∀ calls,
      (∃ rounds, (bitmapEvict rounds bitmap).isSome) ∧ FollowsClock last bitmap calls := by
  intro always
  have twice := (always none oneWord oneWord_single (by decide) 2).2
  have standing := oneWord_single.standing
  obtain ⟨_, _, word⟩ := (follows_twice_iff standing (standing.inside (by decide))).mp twice
  exact absurd word (by decide)

end Calls

end MegaKV.Slab
