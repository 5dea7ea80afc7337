import Mathlib

namespace Library

/-- The reversed CLOCK over bits numbered from zero: the hand evicts a set bit and clears it, sets
    a clear bit, and moves on by one. -/
structure Clock where
  bits : Nat → Bool
  hand : Nat

namespace Clock

variable (n : Nat)

def advance (c : Clock) : Clock :=
  { bits := Function.update c.bits c.hand (!c.bits c.hand)
    hand := (c.hand + 1) % n }

/-- The offsets evicted in `k` moves of a hand that wraps at `n`, and the clock after them. -/
def run : Nat → Clock → List Nat × Clock
  | 0, c => ([], c)
  | k + 1, c =>
    let (offsets, d) := run k c
    (if d.bits d.hand then offsets ++ [d.hand] else offsets, d.advance n)

def offsets (k : Nat) (c : Clock) : List Nat := (run n k c).1
def after (k : Nat) (c : Clock) : Clock := (run n k c).2

variable {n}

theorem offsets_zero (c : Clock) : offsets n 0 c = [] := rfl

theorem offsets_succ (k : Nat) (c : Clock) :
    offsets n (k + 1) c =
      if (after n k c).bits (after n k c).hand then offsets n k c ++ [(after n k c).hand] else offsets n k c := rfl

theorem after_succ (k : Nat) (c : Clock) : after n (k + 1) c = (after n k c).advance n := rfl

theorem after_add (j k : Nat) (c : Clock) : after n (j + k) c = after n k (after n j c) := by
  induction k with
  | zero => rfl
  | succ k ih =>
    rw [← Nat.add_assoc, after_succ, after_succ, ih]

theorem offsets_add (j k : Nat) (c : Clock) :
    offsets n (j + k) c = offsets n j c ++ offsets n k (after n j c) := by
  induction k with
  | zero => simp [offsets_zero]
  | succ k ih =>
    rw [← Nat.add_assoc, offsets_succ, offsets_succ, ih, after_add]
    split
    · rw [List.append_assoc]
    · rfl

theorem after_hand (k : Nat) (c : Clock) (inside : c.hand < n) : (after n k c).hand = (c.hand + k) % n := by
  induction k with
  | zero => exact (Nat.mod_eq_of_lt inside).symm
  | succ k ih =>
    rw [after_succ, advance, ih, Nat.mod_add_mod, Nat.add_assoc]

theorem after_bits (k : Nat) (c : Clock) (inside : c.hand < n) (o : Nat) :
    (after n k c).bits o = (c.bits o ^^ (Nat.count (fun t => (c.hand + t) % n = o) k).bodd) := by
  induction k with
  | zero => simp [after, run]
  | succ k ih =>
    rw [after_succ, advance, after_hand k c inside, Nat.count_succ]
    by_cases visited : (c.hand + k) % n = o
    · subst visited
      simp only [Function.update_self, ih, ite_true, Nat.bodd_add, Nat.bodd_one]
      cases c.bits ((c.hand + k) % n) <;>
        cases (Nat.count (fun t => (c.hand + t) % n = (c.hand + k) % n) k).bodd <;> rfl
    · have other : o ≠ (c.hand + k) % n := fun same => visited same.symm
      simp only [Function.update_of_ne other, ih, visited, ite_false, Nat.add_zero]

theorem after_bits_unvisited (k : Nat) (c : Clock) (inside : c.hand < n) (o : Nat)
    (unvisited : ∀ t < k, (c.hand + t) % n ≠ o) : (after n k c).bits o = c.bits o := by
  have none : Nat.count (fun t => (c.hand + t) % n = o) k = 0 := by
    rw [Nat.count_eq_card_filter_range, Finset.card_eq_zero, Finset.filter_eq_empty_iff]
    intro t member
    exact unvisited t (Finset.mem_range.mp member)
  rw [after_bits k c inside, none]
  simp

theorem visits_at_hand (k : Nat) (c : Clock) (inside : c.hand < n) :
    Nat.count (fun t => (c.hand + t) % n = (c.hand + k) % n) k = k / n := by
  have positive : 0 < n := by omega
  have same : (fun t => (c.hand + t) % n = (c.hand + k) % n) = (fun t => t ≡ k [MOD n]) := by
    funext t
    exact propext ⟨fun equal => Nat.ModEq.add_left_cancel' c.hand equal, fun equal => equal.add_left c.hand⟩
  simp only [same]
  rw [Nat.count_modEq_card k positive]
  simp

/-- Whether the hand evicts in its move number `t`: the `t / n` earlier visits complemented the bit. -/
def due (n : Nat) (c : Clock) (t : Nat) : Bool := c.bits ((c.hand + t) % n) ^^ (t / n).bodd

theorem after_bits_at_hand (k : Nat) (c : Clock) (inside : c.hand < n) :
    (after n k c).bits (after n k c).hand = due n c k := by
  have visits := visits_at_hand k c inside
  rw [after_hand k c inside, after_bits k c inside, due]
  simp only [visits]

theorem offsets_eq (k : Nat) (c : Clock) (inside : c.hand < n) :
    offsets n k c = ((List.range k).filter (due n c)).map (fun t => (c.hand + t) % n) := by
  induction k with
  | zero => rfl
  | succ k ih =>
    rw [offsets_succ, after_bits_at_hand k c inside, after_hand k c inside, ih, List.range_succ,
      List.filter_append, List.map_append]
    by_cases evicts : due n c k = true
    · simp [evicts]
    · simp [evicts]

theorem length_le (k : Nat) (c : Clock) : (offsets n k c).length ≤ k := by
  induction k with
  | zero => rfl
  | succ k ih =>
    rw [offsets_succ]
    split
    · rw [List.length_append, List.length_singleton]
      omega
    · omega

theorem offsets_lt (k : Nat) (c : Clock) (inside : c.hand < n) (o : Nat) (member : o ∈ offsets n k c) : o < n := by
  rw [offsets_eq k c inside, List.mem_map] at member
  obtain ⟨t, _, equal⟩ := member
  rw [← equal]
  exact Nat.mod_lt _ (by omega)

/-- A bit that is clear when the hand first reaches it is passed over. -/
theorem first_visit_passes (c : Clock) (inside : c.hand < n) (t : Nat) (clear : c.bits ((c.hand + t) % n) = false)
    (first : ∀ s < t, (c.hand + s) % n ≠ (c.hand + t) % n) :
    (c.hand + t) % n ∉ offsets n (t + 1) c := by
  intro member
  rw [offsets_eq _ c inside, List.mem_map] at member
  obtain ⟨s, evicted, same⟩ := member
  obtain ⟨range, evicts⟩ := List.mem_filter.mp evicted
  have bound := List.mem_range.mp range
  have equal : s = t := by
    by_contra different
    exact first s (by omega) same
  subst equal
  have early : s / n = 0 := by
    by_contra late
    have positive : 0 < n := by omega
    have wrapped : n ≤ s := (Nat.div_ne_zero_iff.mp late).2
    apply first (s - n) (by omega)
    rw [← Nat.add_mod_right (c.hand + (s - n)) n]
    congr 1
    omega
  simp [due, clear, early] at evicts

theorem due_add (c : Clock) (positive : 0 < n) (t : Nat) : due n c (t + n) = !due n c t := by
  have next : (t + n) / n = t / n + 1 := Nat.add_div_right t positive
  simp only [due, ← Nat.add_assoc, Nat.add_mod_right, next, Nat.bodd_succ]
  cases c.bits ((c.hand + t) % n) <;> cases (t / n).bodd <;> rfl

theorem length_two_passes (k : Nat) (c : Clock) (inside : c.hand < n) :
    (offsets n (k + 2 * n) c).length = (offsets n k c).length + n := by
  have positive : 0 < n := by omega
  have split : List.range (k + 2 * n) =
      List.range k ++ ((List.range n).map (k + ·) ++ (List.range n).map (k + n + ·)) := by
    rw [Nat.two_mul, ← Nat.add_assoc, List.range_add, List.range_add, List.append_assoc]
  have second : (List.range n).countP (due n c ∘ (k + n + ·)) =
      (List.range n).countP (fun t => !(due n c ∘ (k + ·)) t) := by
    apply List.countP_congr
    intro t _
    have flipped := due_add c positive (k + t)
    rw [Nat.add_right_comm] at flipped
    simp [Function.comp, flipped]
  have passes := List.length_eq_countP_add_countP (due n c ∘ (k + ·)) (l := List.range n)
  rw [offsets_eq _ c inside, offsets_eq _ c inside, List.length_map, List.length_map, ← List.countP_eq_length_filter,
    ← List.countP_eq_length_filter, split, List.countP_append, List.countP_append, List.countP_map,
    List.countP_map, second]
  rw [List.length_range] at passes
  simp only [Bool.not_eq_true, Bool.decide_eq_false] at passes
  omega

theorem length_passes (passes : Nat) (c : Clock) (inside : c.hand < n) :
    (offsets n (2 * n * passes) c).length = n * passes := by
  induction passes with
  | zero => rfl
  | succ passes ih =>
    rw [Nat.mul_succ, length_two_passes _ c inside, ih, Nat.mul_succ]

/-- Between two evictions of one offset the hand makes two full passes. -/
theorem due_twice {c : Clock} {s t : Nat} (inside : c.hand < n) (before : s < t)
    (first : due n c s = true) (second : due n c t = true) (same : (c.hand + s) % n = (c.hand + t) % n) :
    s + 2 * n ≤ t := by
  have congruent : s ≡ t [MOD n] := Nat.ModEq.add_left_cancel' c.hand same
  obtain ⟨passes, distance⟩ := (Nat.modEq_iff_dvd' before.le).mp congruent
  have later : t = s + n * passes := by omega
  have positive : 0 < n := by omega
  rcases passes with _ | _ | passes
  · omega
  · rw [later, Nat.mul_one, due_add c positive s, first] at second
    contradiction
  · have grows : n * 2 ≤ n * (passes + 1 + 1) := Nat.mul_le_mul_left n (by omega)
    omega

/-- A hand that stops at the first multiple of `w` moves with `target ≤ n` evictions evicts no
    offset twice. -/
theorem offsets_nodup {w words target : Nat} {c : Clock} (inside : c.hand < n) (divides : w ∣ n)
    (small : target ≤ n) (stops : ∀ earlier < words, (offsets n (w * earlier) c).length < target) :
    (offsets n (w * words) c).Nodup := by
  have once : ∀ s t, s < t → t < w * words → due n c s = true → due n c t = true →
      (c.hand + s) % n ≠ (c.hand + t) % n := by
    intro s t before bound first second same
    have passes := due_twice inside before first second same
    obtain ⟨per, rfl⟩ := divides
    have start : w * (s / w) ≤ s := Nat.mul_div_le s w
    have regroup : w * (s / w + 2 * per) = w * (s / w) + 2 * (w * per) := by ring
    have early : s / w + 2 * per < words := by
      apply Nat.lt_of_mul_lt_mul_left (a := w)
      omega
    have collected := stops _ early
    rw [regroup, length_two_passes _ c inside] at collected
    omega
  rw [offsets_eq _ c inside]
  apply List.Nodup.map_on _ (List.Nodup.filter _ List.nodup_range)
  intro s firstMember t secondMember same
  obtain ⟨firstRange, first⟩ := List.mem_filter.mp firstMember
  obtain ⟨secondRange, second⟩ := List.mem_filter.mp secondMember
  rcases Nat.lt_trichotomy s t with before | equal | before
  · exact absurd same (once s t before (List.mem_range.mp secondRange) first second)
  · exact equal
  · exact absurd same.symm (once t s before (List.mem_range.mp firstRange) second first)

section OneByOne

variable (n) in
/-- The hand moves on until it evicts, for at most so many moves. -/
def seek : Nat → Clock → Option (Nat × Clock)
  | 0, _ => none
  | moves + 1, c => if c.bits c.hand then some (c.hand, c.advance n) else seek moves (c.advance n)

variable (n) in
/-- Evictions one by one. After a pass over clear bits all bits are set, so one move more than a
    pass is enough for each. -/
def evictions : Nat → Clock → Option (List Nat × Clock)
  | 0, c => some ([], c)
  | count + 1, c =>
    match evictions count c with
    | none => none
    | some (offsets, d) => (seek n (n + 1) d).map fun (o, e) => (offsets ++ [o], e)

/-- On the way of a hand from `h` round to `o`. -/
def Between (h o x : Nat) : Prop := (h ≤ x ∧ x < o) ∨ (o < h ∧ (h ≤ x ∨ x < o))

variable (n) in
/-- One eviction: the hand sets the clear bits it passes and clears the set bit it comes to, or finds
    no set bit, sets them all and clears the bit it started at. -/
structure Evicts (c : Clock) (o : Nat) (d : Clock) : Prop where
  bound : o < n
  hand : d.hand = (o + 1) % n
  cleared : d.bits o = false
  outside : ∀ x, n ≤ x → d.bits x = c.bits x
  way : (c.bits o = true ∧ ∀ x, x < n → x ≠ o →
      (Between c.hand o x → c.bits x = false ∧ d.bits x = true) ∧ (¬Between c.hand o x → d.bits x = c.bits x)) ∨
    (o = c.hand ∧ ∀ x, x < n → c.bits x = false ∧ (x ≠ o → d.bits x = true))

theorem advance_hand (c : Clock) : (c.advance n).hand = (c.hand + 1) % n := rfl

theorem advance_bits_hand (c : Clock) : (c.advance n).bits c.hand = !c.bits c.hand := Function.update_self ..

theorem advance_bits_other (c : Clock) {x : Nat} (other : x ≠ c.hand) : (c.advance n).bits x = c.bits x :=
  Function.update_of_ne other ..

theorem seek_skips (t moves : Nat) (c : Clock) (inside : c.hand < n) (clear : ∀ s < t, due n c s = false) :
    seek n (t + moves) c = seek n moves (after n t c) := by
  induction t generalizing moves with
  | zero => rw [Nat.zero_add, after, run]
  | succ t ih =>
    have here : (after n t c).bits (after n t c).hand = false := by
      rw [after_bits_at_hand t c inside]
      exact clear t (by omega)
    have next := ih (moves + 1) (fun s before => clear s (by omega))
    rw [Nat.add_assoc, Nat.add_comm 1 moves, next, after_succ, seek, here, if_neg Bool.false_ne_true]

theorem after_clear (t : Nat) (c : Clock) (inside : c.hand < n) (clear : ∀ s < t, due n c s = false) (x : Nat) :
    (after n t c).bits x = (c.bits x || decide (∃ s < t, (c.hand + s) % n = x)) := by
  induction t with
  | zero => simp [after, run]
  | succ t ih =>
    have before := ih (fun s early => clear s (by omega))
    have hand := after_hand t c inside
    have here : (after n t c).bits (after n t c).hand = false := by
      rw [after_bits_at_hand t c inside]
      exact clear t (by omega)
    rw [after_succ]
    by_cases visited : x = (after n t c).hand
    · subst visited
      have visit : ∃ s < t + 1, (c.hand + s) % n = (after n t c).hand := ⟨t, by omega, hand.symm⟩
      simp only [advance_bits_hand, here, visit, decide_true, Bool.or_true, Bool.not_false]
    · have other : ¬(c.hand + t) % n = x := fun same => visited (by rw [hand, same])
      have split : (∃ s < t + 1, (c.hand + s) % n = x) ↔ ∃ s < t, (c.hand + s) % n = x := by
        simp only [Nat.lt_succ_iff_lt_or_eq, or_and_right, exists_or, exists_eq_left, other, or_false]
      simp only [advance_bits_other _ visited, before, split]

theorem passed_iff {h t x : Nat} (inside : h < n) (early : t < n) (bound : x < n) :
    (∃ s < t, (h + s) % n = x) ↔ Between h ((h + t) % n) x := by
  have place : ∀ s, s < n → (h + s) % n = if h + s < n then h + s else h + s - n := by
    intro s short
    by_cases fits : h + s < n
    · rw [if_pos fits, Nat.mod_eq_of_lt fits]
    · rw [if_neg fits, Nat.mod_eq_sub_mod (by omega), Nat.mod_eq_of_lt (by omega)]
  constructor
  · rintro ⟨s, before, same⟩
    rw [place s (by omega)] at same
    rw [place t early, Between]
    split at same <;> split <;> omega
  · intro between
    rw [place t early, Between] at between
    by_cases ahead : h ≤ x
    · refine ⟨x - h, ?_, ?_⟩
      · split at between <;> omega
      · rw [place _ (by omega), if_pos (by omega)]
        omega
    · refine ⟨x + n - h, ?_, ?_⟩
      · split at between <;> omega
      · rw [place _ (by omega), if_neg (by omega)]
        omega

theorem passed_all {h x : Nat} (inside : h < n) (bound : x < n) : ∃ s < n, (h + s) % n = x := by
  by_cases ahead : h ≤ x
  · exact ⟨x - h, by omega, by rw [Nat.add_sub_cancel' ahead, Nat.mod_eq_of_lt bound]⟩
  · refine ⟨x + n - h, by omega, ?_⟩
    rw [show h + (x + n - h) = x + n by omega, Nat.add_mod_right, Nat.mod_eq_of_lt bound]

theorem due_early (c : Clock) {t : Nat} (early : t < n) : due n c t = c.bits ((c.hand + t) % n) := by
  rw [due, Nat.div_eq_of_lt early, Nat.bodd_zero, Bool.xor_false]

/-- The move number `t` evicts and no earlier one does; it is in the first pass or right after it. -/
theorem first_due (c : Clock) (positive : 0 < n) :
    ∃ t ≤ n, due n c t = true ∧ ∀ s < t, due n c s = false := by
  have evicts : ∃ t ≤ n, due n c t = true := by
    by_cases clear : due n c 0 = true
    · exact ⟨0, by omega, clear⟩
    · have flipped := due_add c positive 0
      rw [Nat.zero_add] at flipped
      exact ⟨n, Nat.le_refl n, by simp [flipped, clear]⟩
  have found : ∃ t, due n c t = true := evicts.imp fun _ => And.right
  obtain ⟨t, bound, set⟩ := evicts
  refine ⟨Nat.find found, (Nat.find_min' found set).trans bound, Nat.find_spec found, ?_⟩
  intro s before
  exact Bool.eq_false_iff.mpr (Nat.find_min found before)

theorem seek_evicts (c : Clock) (inside : c.hand < n) :
    ∃ o d, seek n (n + 1) c = some (o, d) ∧ Evicts n c o d := by
  have positive : 0 < n := by omega
  obtain ⟨t, bound, set, clear⟩ := first_due c positive
  have hand := after_hand t c inside
  have here : (after n t c).bits (after n t c).hand = true := by
    rw [after_bits_at_hand t c inside]
    exact set
  have found : seek n (n + 1) c = some ((c.hand + t) % n, (after n t c).advance n) := by
    rw [show n + 1 = t + (n - t + 1) by omega, seek_skips t _ c inside clear, seek, if_pos here, hand]
  have others : ∀ x, x ≠ (c.hand + t) % n →
      ((after n t c).advance n).bits x = (c.bits x || decide (∃ s < t, (c.hand + s) % n = x)) := by
    intro x other
    rw [advance_bits_other _ (by rw [hand]; exact other), after_clear t c inside clear]
  refine ⟨_, _, found, Nat.mod_lt _ positive, ?_, ?_, ?_, ?_⟩
  · rw [advance_hand, hand]
  · rw [← hand, advance_bits_hand, here]
    rfl
  · intro x beyond
    have below : ∀ s, (c.hand + s) % n < n := fun s => Nat.mod_lt _ positive
    have unvisited : ¬∃ s < t, (c.hand + s) % n = x := by
      rintro ⟨s, _, same⟩
      have := below s
      omega
    have here := below t
    rw [others x (by omega)]
    simp [unvisited]
  · by_cases early : t < n
    · left
      rw [due_early c early] at set
      refine ⟨set, ?_⟩
      intro x small other
      have passed := passed_iff inside early small
      rw [others x other]
      constructor
      · intro between
        obtain ⟨s, before, same⟩ := passed.mpr between
        have zero := clear s before
        rw [due_early c (by omega), same] at zero
        exact ⟨zero, by simp [passed.mpr between]⟩
      · intro apart
        simp [mt passed.mp apart]
    · right
      have round : t = n := by omega
      subst round
      refine ⟨by rw [Nat.add_mod_right, Nat.mod_eq_of_lt inside], ?_⟩
      intro x small
      have passed := passed_all inside small
      refine ⟨?_, fun other => by rw [others x other]; simp [passed]⟩
      obtain ⟨s, before, same⟩ := passed
      have zero := clear s before
      rw [due_early c before, same] at zero
      exact zero

namespace Evicts

variable {c d : Clock} {o : Nat}

theorem of_seek (inside : c.hand < n) (found : seek n (n + 1) c = some (o, d)) : Evicts n c o d := by
  obtain ⟨offset, next, result, evicts⟩ := seek_evicts c inside
  rw [found] at result
  cases result
  exact evicts

theorem set_stays (evicts : Evicts n c o d) (x : Nat) (other : x ≠ o) (set : c.bits x = true) : d.bits x = true := by
  by_cases bound : x < n
  · rcases evicts.way with ⟨_, way⟩ | ⟨_, way⟩
    · by_cases between : Between c.hand o x
      · exact ((way x bound other).1 between).2
      · rw [(way x bound other).2 between]
        exact set
    · exact (way x bound).2 other
  · rw [evicts.outside x (Nat.not_lt.mp bound)]
    exact set

theorem passes (evicts : Evicts n c o d) {x : Nat} (bound : x < n) (other : x ≠ o) (between : Between c.hand o x) :
    c.bits x = false ∧ d.bits x = true := by
  rcases evicts.way with ⟨_, way⟩ | ⟨_, way⟩
  · exact (way x bound other).1 between
  · exact ⟨(way x bound).1, (way x bound).2 other⟩

/-- The first set bit from the hand on is evicted. -/
theorem first_set (evicts : Evicts n c o d) {first : Nat} (bound : first < n) (set : c.bits first = true)
    (clear : ∀ x, x < n → Between c.hand first x → c.bits x = false) : o = first := by
  rcases evicts.way with ⟨held, way⟩ | ⟨_, way⟩
  · by_contra other
    have order : Between c.hand o first ∨ Between c.hand first o := by
      simp only [Between]
      omega
    rcases order with earlier | later
    · have zero := ((way first bound (Ne.symm other)).1 earlier).1
      rw [set] at zero
      contradiction
    · have zero := clear o evicts.bound later
      rw [held] at zero
      contradiction
  · have zero := (way first bound).1
    rw [set] at zero
    contradiction

end Evicts

theorem evictions_succ {count : Nat} {c e : Clock} {offsets : List Nat} (result : evictions n (count + 1) c = some (offsets, e)) :
    ∃ before o d, evictions n count c = some (before, d) ∧ seek n (n + 1) d = some (o, e) ∧ offsets = before ++ [o] := by
  simp only [evictions] at result
  split at result
  · contradiction
  · rename_i before d earlier
    obtain ⟨⟨o, last⟩, found, same⟩ := Option.map_eq_some_iff.mp result
    cases same
    exact ⟨before, o, d, earlier, found, rfl⟩

end OneByOne

end Clock

end Library
