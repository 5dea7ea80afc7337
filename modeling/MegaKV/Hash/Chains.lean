import MegaKV.Hash.ReadBack

namespace MegaKV.Hash

variable {g : Geometry}

section Swaps

theorem table_ext {left right : Table g} (same : entry left = entry right) : left = right := by
  funext b
  have sigs : (left b).sig = (right b).sig := by
    funext simdLane
    exact congrArg Prod.fst (congrFun same (b, simdLane))
  have locs : (left b).loc = (right b).loc := by
    funext simdLane
    exact congrArg Prod.snd (congrFun same (b, simdLane))
  calc left b = ⟨(left b).sig, (left b).loc⟩ := rfl
    _ = ⟨(right b).sig, (right b).loc⟩ := by rw [sigs, locs]
    _ = right b := rfl

variable {elem : IElem} {carry : Carry g}

theorem evict_entry (elem : IElem) (carry : Carry g) :
    entry (carry.evict elem).table =
      Function.update (entry carry.table) (carry.target g elem, majorLane g elem.sig) (carry.sig, carry.loc) :=
  entry_putElem carry.table (carry.target g elem) (majorLane g elem.sig) carry.sig carry.loc

theorem evict_carried (elem : IElem) (carry : Carry g) :
    ((carry.evict elem).sig, (carry.evict elem).loc) = entry carry.table (carry.target g elem, majorLane g elem.sig) := rfl

theorem evict_target (same : SameBlock g (carry.evict elem).sig carry.sig) :
    (carry.evict elem).target g elem = carry.target g elem := secondIndex_sameBlock g elem.hash same

/-- Two elements that agree in the block bits change places. -/
theorem evict_evict (same : SameBlock g (carry.evict elem).sig carry.sig) :
    (carry.evict elem).evict elem = carry := by
  have target := evict_target same
  have table : ((carry.evict elem).evict elem).table = carry.table := by
    apply table_ext
    rw [evict_entry, target, evict_carried, evict_entry, Function.update_idem, Function.update_eq_self]
  have pair : (((carry.evict elem).evict elem).sig, ((carry.evict elem).evict elem).loc) = (carry.sig, carry.loc) := by
    rw [evict_carried, target, evict_entry, Function.update_self]
  have sig : ((carry.evict elem).evict elem).sig = carry.sig := congrArg Prod.fst pair
  have loc : ((carry.evict elem).evict elem).loc = carry.loc := congrArg Prod.snd pair
  calc (carry.evict elem).evict elem =
      ⟨((carry.evict elem).evict elem).table, ((carry.evict elem).evict elem).sig,
        ((carry.evict elem).evict elem).loc⟩ := rfl
    _ = ⟨carry.table, carry.sig, carry.loc⟩ := by rw [table, sig, loc]
    _ = carry := rfl

theorem evict_found_full (unique : Unique carry.table) (nonzero : carry.sig ≠ 0) (full : carry.found elem = .full)
    (same : SameBlock g (carry.evict elem).sig carry.sig) : (carry.evict elem).found elem = .full := by
  have before := (probe_full_iff _ _ _).mp full
  have victim := before (majorLane g elem.sig)
  rw [Carry.found, evict_target same, probe_full_iff]
  intro simdLane
  have stored := congrFun (evict_entry elem carry) (carry.target g elem, simdLane)
  by_cases chosen : simdLane = majorLane g elem.sig
  · subst chosen
    rw [Function.update_self] at stored
    rw [entry_sig stored]
    exact ⟨victim.1.symm, nonzero⟩
  · rw [Function.update_of_ne (fun equal => chosen (congrArg Prod.snd equal))] at stored
    have kept : ((carry.evict elem).table (carry.target g elem)).sig simdLane =
        (carry.table (carry.target g elem)).sig simdLane := congrArg Prod.fst stored
    rw [kept]
    refine ⟨?_, (before simdLane).2⟩
    intro again
    exact chosen (unique _ _ victim.2 simdLane (majorLane g elem.sig) again rfl)

/-- Such a swap goes on until the rounds are used up. -/
theorem swap_result (unique : Unique carry.table) (nonzero : carry.sig ≠ 0) (full : carry.found elem = .full)
    (same : SameBlock g (carry.evict elem).sig carry.sig) (left : Nat) :
    cuckooEvict elem left carry = if left % 2 = 0 then (carry.evict elem).table else carry.table := by
  have next := evict_found_full unique nonzero full same
  induction left using Nat.twoStepInduction with
  | zero => rw [cuckooEvict_last full, if_pos rfl]
  | one => rw [cuckooEvict_next full, cuckooEvict_last next, evict_evict same, if_neg (by decide)]
  | more left ih _ =>
    rw [cuckooEvict_next full, cuckooEvict_next next, evict_evict same, ih, Nat.add_mod_right]

end Swaps

section Walk

/-- The pair that round `k` carries, while each round evicts from a bucket of its own. -/
def walk (table : Table g) (elem : IElem) : Nat → Sign × Loc
  | 0 => (elem.sig, elem.loc)
  | k + 1 => entry table (secondIndex g elem.hash (walk table elem k).1, majorLane g elem.sig)

def walkBucket (table : Table g) (elem : IElem) (k : Nat) : g.Index := secondIndex g elem.hash (walk table elem k).1

structure Evictions (table : Table g) (elem : IElem) (k : Nat) : Prop where
  full : ∀ j < k, probe (table (walkBucket table elem j)) (mlMask g elem.sig) (walk table elem j).1 = .full
  apart : ∀ i j, i < j → j < k → walkBucket table elem i ≠ walkBucket table elem j

/-- Round `k` is the first to come back to the bucket the new element was put into, and either
    carries the same signature with another location or, in an odd round, a signature that finds
    no other slot there. -/
structure Displaces (table : Table g) (elem : IElem) (k : Nat) : Prop where
  positive : 0 < k
  last : k ≤ maxCuckooNum
  evictions : Evictions table elem k
  back : walkBucket table elem k = walkBucket table elem 0
  overwrites : ((walk table elem k).1 = elem.sig ∧ (walk table elem k).2 ≠ elem.loc) ∨
    (k % 2 = 1 ∧ (walk table elem k).1 ≠ elem.sig ∧ ∀ simdLane, simdLane ≠ majorLane g elem.sig →
      (table (walkBucket table elem 0)).sig simdLane ≠ (walk table elem k).1)

/-- The state of the loop before round `k`. -/
structure Trail (table : Table g) (elem : IElem) (k : Nat) (carry : Carry g) : Prop where
  unique : Unique carry.table
  nonzero : carry.sig ≠ 0
  carried : (carry.sig, carry.loc) = walk table elem k
  evictions : Evictions table elem k
  visited : ∀ j < k, ∀ simdLane, entry carry.table (walkBucket table elem j, simdLane) =
    if simdLane = majorLane g elem.sig then walk table elem j else entry table (walkBucket table elem j, simdLane)
  rest : ∀ b, (∀ j < k, b ≠ walkBucket table elem j) → carry.table b = table b

def Kept (table : Table g) (elem : IElem) (after : Table g) : Prop :=
  ∃ simdLane, entry after (walkBucket table elem 0, simdLane) = (elem.sig, elem.loc)

variable {table : Table g} {elem : IElem} {k left : Nat} {carry : Carry g}

theorem trail_start (unique : Unique table) (nonzero : elem.sig ≠ 0) : Trail table elem 0 (firstCarry table elem) :=
  { unique := unique
    nonzero := nonzero
    carried := rfl
    evictions := ⟨fun j before => absurd before (Nat.not_lt_zero j), fun _ j _ before => absurd before (Nat.not_lt_zero j)⟩
    visited := fun j before => absurd before (Nat.not_lt_zero j)
    rest := fun _ _ => rfl }

theorem Trail.sig (trail : Trail table elem k carry) : carry.sig = (walk table elem k).1 := congrArg Prod.fst trail.carried

theorem Trail.target (trail : Trail table elem k carry) : carry.target g elem = walkBucket table elem k := by
  rw [Carry.target, trail.sig, walkBucket]

theorem Trail.found_new (trail : Trail table elem k carry) (new : ∀ j < k, walkBucket table elem k ≠ walkBucket table elem j) :
    carry.found elem = probe (table (walkBucket table elem k)) (mlMask g elem.sig) (walk table elem k).1 := by
  rw [Carry.found, trail.target, trail.sig, trail.rest _ new]

theorem entry_congr {left right : Table g} {b : g.Index} (same : left b = right b) (simdLane : g.Lane) :
    entry left (b, simdLane) = entry right (b, simdLane) := by
  simp only [entry, same]

theorem Trail.evict (trail : Trail table elem k carry) (full : carry.found elem = .full)
    (new : ∀ j < k, walkBucket table elem k ≠ walkBucket table elem j) : Trail table elem (k + 1) (carry.evict elem) := by
  have target := trail.target
  have untouched := trail.rest _ new
  refine ⟨trail.unique.evict full, evict_sig_ne_zero full, ?_, ⟨?_, ?_⟩, ?_, ?_⟩
  · rw [evict_carried, target, entry_congr untouched]
    rfl
  · intro j before
    rcases Nat.lt_succ_iff_lt_or_eq.mp before with earlier | rfl
    · exact trail.evictions.full j earlier
    · rw [← trail.found_new new]
      exact full
  · intro i j order before
    rcases Nat.lt_succ_iff_lt_or_eq.mp before with earlier | rfl
    · exact trail.evictions.apart i j order earlier
    · exact (new i order).symm
  · intro j before simdLane
    rw [evict_entry, target]
    rcases Nat.lt_succ_iff_lt_or_eq.mp before with earlier | rfl
    · rw [Function.update_of_ne (fun equal => new j earlier (congrArg Prod.fst equal).symm)]
      exact trail.visited j earlier simdLane
    · by_cases chosen : simdLane = majorLane g elem.sig
      · rw [if_pos chosen, chosen, Function.update_self]
        exact trail.carried
      · rw [if_neg chosen, Function.update_of_ne (fun equal => chosen (congrArg Prod.snd equal))]
        exact entry_congr untouched simdLane
  · intro b other
    rw [evict_table_other (target ▸ other k (Nat.lt_succ_self k))]
    exact trail.rest b (fun j before => other j (Nat.lt_succ_of_lt before))

theorem Trail.own (trail : Trail table elem k carry) (positive : 0 < k) :
    entry carry.table (walkBucket table elem 0, majorLane g elem.sig) = (elem.sig, elem.loc) := by
  rw [trail.visited 0 positive, if_pos rfl]
  rfl

theorem Trail.kept (trail : Trail table elem k carry) (positive : 0 < k) : Kept table elem carry.table :=
  ⟨_, trail.own positive⟩

theorem Kept.congr {before after : Table g} (kept : Kept table elem before)
    (same : after (walkBucket table elem 0) = before (walkBucket table elem 0)) : Kept table elem after := by
  obtain ⟨simdLane, stored⟩ := kept
  exact ⟨simdLane, (entry_congr same simdLane).trans stored⟩

theorem settled_other {b : g.Index} (room : carry.found elem ≠ .full) (other : b ≠ carry.target g elem) :
    cuckooEvict elem left carry b = carry.table b := by
  cases found : carry.found elem with
  | held simdLane =>
    rw [cuckooEvict_held found]
    exact setLoc_other _ _ _ other
  | empty simdLane =>
    rw [cuckooEvict_empty found]
    exact putElem_other _ _ _ _ other
  | full => exact absurd found room

/-- A chain that comes back to the bucket of a later round stays there. -/
theorem Trail.kept_lap (trail : Trail table elem k carry) {j : Nat} (positive : 0 < j) (before : j < k)
    (lap : walkBucket table elem k = walkBucket table elem j) : Kept table elem (cuckooEvict elem left carry) := by
  have kept := trail.kept (Nat.lt_trans positive before)
  have other : walkBucket table elem 0 ≠ carry.target g elem := by
    rw [trail.target, lap]
    exact trail.evictions.apart 0 j positive before
  by_cases full : carry.found elem = .full
  · have same : SameBlock g (carry.evict elem).sig carry.sig := by
      apply secondIndex_inj g elem.hash
      have victim := congrArg Prod.fst (evict_carried elem carry)
      rw [trail.target, lap, trail.visited j before, if_pos rfl] at victim
      simp only at victim
      rw [victim]
      exact lap.symm.trans trail.target.symm
    rw [swap_result trail.unique trail.nonzero full same]
    split
    · exact kept.congr (evict_table_other other)
    · exact kept
  · exact kept.congr (settled_other full other)

theorem Trail.slot (trail : Trail table elem k carry) (positive : 0 < k) {simdLane : g.Lane}
    (other : simdLane ≠ majorLane g elem.sig) :
    (carry.table (walkBucket table elem 0)).sig simdLane = (table (walkBucket table elem 0)).sig simdLane := by
  have stored := trail.visited 0 positive simdLane
  rw [if_neg other] at stored
  exact congrArg Prod.fst stored

/-- What becomes of the new element when round `k` comes back to its bucket. -/
theorem Trail.kept_back (trail : Trail table elem k carry) (nonzero : elem.sig ≠ 0) (positive : 0 < k)
    (rounds : k + left = maxCuckooNum) (back : walkBucket table elem k = walkBucket table elem 0) :
    Kept table elem (cuckooEvict elem left carry) ↔ ¬Displaces table elem k := by
  have target := trail.target.trans back
  have own := trail.own positive
  have sig := trail.sig
  have lanes := (probe_full_iff _ _ _).mp (trail.evictions.full 0 positive)
  have bound : k ≤ maxCuckooNum := by omega
  cases found : carry.found elem with
  | held simdLane =>
    have holds := probe_held found
    rw [target] at holds
    rw [cuckooEvict_held found, target]
    by_cases chosen : simdLane = majorLane g elem.sig
    · subst chosen
      have same : (walk table elem k).1 = elem.sig := by rw [← sig, ← holds, entry_sig own]
      have loc : carry.loc = (walk table elem k).2 := congrArg Prod.snd trail.carried
      have stored := entry_setLoc_held holds carry.loc
      rw [sig, same, loc] at stored
      rw [loc]
      constructor
      · intro given displaces
        rcases given with ⟨other, kept⟩
        have here := (trail.unique.setLoc _ _ _) _ _ nonzero _ _ (entry_sig kept) (entry_sig stored)
        subst here
        rcases displaces.overwrites with ⟨_, foreign⟩ | ⟨_, different, _⟩
        · exact foreign (congrArg Prod.snd (stored.symm.trans kept))
        · exact different same
      · intro kept
        by_cases equal : (walk table elem k).2 = elem.loc
        · exact ⟨_, stored.trans (by rw [equal])⟩
        · exact absurd ⟨positive, bound, trail.evictions, back, .inl ⟨same, equal⟩⟩ kept
    · apply iff_of_true
      · refine ⟨majorLane g elem.sig, ?_⟩
        rw [entry_setLoc, Function.update_of_ne (fun equal => chosen (congrArg Prod.snd equal).symm)]
        exact own
      · intro displaces
        rw [trail.slot positive chosen, sig] at holds
        rcases displaces.overwrites with ⟨same, _⟩ | ⟨_, _, absent⟩
        · exact (lanes simdLane).1 (holds.trans same)
        · exact absent simdLane chosen holds
  | empty simdLane =>
    have vacant := (probe_empty found).1
    rw [target] at vacant
    by_cases chosen : simdLane = majorLane g elem.sig
    · rw [chosen, entry_sig own] at vacant
      exact absurd vacant nonzero
    · rw [trail.slot positive chosen] at vacant
      exact absurd vacant (lanes simdLane).2
  | full =>
    have before := (probe_full_iff _ _ _).mp found
    rw [target] at before
    have different : (walk table elem k).1 ≠ elem.sig := by
      have victim := (before (majorLane g elem.sig)).1
      rw [entry_sig own, sig] at victim
      exact victim.symm
    have same : SameBlock g (carry.evict elem).sig carry.sig := by
      apply secondIndex_inj g elem.hash
      have victim := congrArg Prod.fst (evict_carried elem carry)
      rw [target, own] at victim
      simp only at victim
      rw [victim]
      exact target.symm
    -- The victim is the new element itself. The two change places until the rounds are over, and
    -- the parity of the rounds left tells which of them is written last.
    rw [swap_result trail.unique trail.nonzero found same]
    by_cases even : left % 2 = 0
    · rw [if_pos even]
      apply iff_of_false
      · intro given
        rcases given with ⟨simdLane, kept⟩
        rw [evict_entry, target] at kept
        by_cases chosen : simdLane = majorLane g elem.sig
        · rw [chosen, Function.update_self] at kept
          exact different (sig.symm.trans (congrArg Prod.fst kept))
        · rw [Function.update_of_ne (fun equal => chosen (congrArg Prod.snd equal))] at kept
          have held := entry_sig kept
          rw [trail.slot positive chosen] at held
          exact (lanes simdLane).1 held
      · have odd : k % 2 = 1 := by
          simp only [maxCuckooNum] at rounds
          omega
        refine not_not.mpr ⟨positive, bound, trail.evictions, back, .inr ⟨odd, different, ?_⟩⟩
        intro simdLane chosen
        rw [← trail.slot positive chosen, ← sig]
        exact (before simdLane).1
    · rw [if_neg even]
      apply iff_of_true (trail.kept positive)
      intro displaces
      rcases displaces.overwrites with ⟨equal, _⟩ | ⟨odd, _⟩
      · exact different equal
      · simp only [maxCuckooNum] at rounds
        omega

/-- A walk that came back to one of its buckets is over. -/
theorem not_displaces_after {i j : Nat} (order : j < k) (later : k < i)
    (lap : walkBucket table elem k = walkBucket table elem j) : ¬Displaces table elem i :=
  fun displaces => displaces.evictions.apart j k order later lap.symm

theorem Trail.kept_again (trail : Trail table elem k carry) (nonzero : elem.sig ≠ 0) (positive : 0 < k)
    (rounds : k + left = maxCuckooNum) {j : Nat} (before : j < k)
    (lap : walkBucket table elem k = walkBucket table elem j) :
    Kept table elem (cuckooEvict elem left carry) ↔ ∀ i, k ≤ i → ¬Displaces table elem i := by
  by_cases start : j = 0
  · subst start
    rw [trail.kept_back nonzero positive rounds lap]
    constructor
    · intro here i from_k
      rcases Nat.lt_or_eq_of_le from_k with later | rfl
      · exact not_displaces_after positive later lap
      · exact here
    · exact fun all => all k (Nat.le_refl k)
  · have inner : 0 < j := Nat.pos_of_ne_zero start
    apply iff_of_true (trail.kept_lap inner before lap)
    intro i from_k displaces
    rcases Nat.lt_or_eq_of_le from_k with later | rfl
    · exact not_displaces_after before later lap displaces
    · exact displaces.evictions.apart 0 j inner before (displaces.back.symm.trans lap)

theorem Trail.kept_settled (trail : Trail table elem k carry) (positive : 0 < k)
    (new : ∀ j < k, walkBucket table elem k ≠ walkBucket table elem j) (room : carry.found elem ≠ .full) :
    Kept table elem (cuckooEvict elem left carry) ∧ ∀ i, k ≤ i → ¬Displaces table elem i := by
  constructor
  · apply (trail.kept positive).congr
    apply settled_other room
    rw [trail.target]
    exact (new 0 positive).symm
  · intro i from_k displaces
    rcases Nat.lt_or_eq_of_le from_k with later | rfl
    · rw [trail.found_new new] at room
      exact room (displaces.evictions.full k later)
    · exact new 0 positive displaces.back

/-- The new element is lost exactly where some round displaces it. -/
theorem Trail.kept_iff (trail : Trail table elem k carry) (nonzero : elem.sig ≠ 0) (positive : 0 < k)
    (rounds : k + left = maxCuckooNum) :
    Kept table elem (cuckooEvict elem left carry) ↔ ∀ i, k ≤ i → ¬Displaces table elem i := by
  -- A bucket met before, or one that is not full, decides the rest of the walk; else one more
  -- victim is carried to a new bucket.
  induction left generalizing k carry with
  | zero =>
    by_cases known : ∃ j < k, walkBucket table elem k = walkBucket table elem j
    · obtain ⟨j, before, lap⟩ := known
      exact trail.kept_again nonzero positive rounds before lap
    · have new : ∀ j < k, walkBucket table elem k ≠ walkBucket table elem j :=
        fun j before lap => known ⟨j, before, lap⟩
      by_cases full : carry.found elem = .full
      · rw [cuckooEvict_last full]
        apply iff_of_true ((trail.evict full new).kept (Nat.succ_pos k))
        intro i from_k displaces
        have last := displaces.last
        have here : i = k := by omega
        subst here
        exact new 0 positive displaces.back
      · have settled := @Trail.kept_settled g table elem k 0 carry trail positive new full
        exact iff_of_true settled.1 settled.2
  | succ left ih =>
    by_cases known : ∃ j < k, walkBucket table elem k = walkBucket table elem j
    · obtain ⟨j, before, lap⟩ := known
      exact trail.kept_again nonzero positive rounds before lap
    · have new : ∀ j < k, walkBucket table elem k ≠ walkBucket table elem j :=
        fun j before lap => known ⟨j, before, lap⟩
      by_cases full : carry.found elem = .full
      · rw [cuckooEvict_next full, ih (trail.evict full new) (Nat.succ_pos k) (by omega)]
        constructor
        · intro rest i from_k displaces
          rcases Nat.lt_or_eq_of_le from_k with later | rfl
          · exact rest i later displaces
          · exact new 0 positive displaces.back
        · exact fun all i later => all i (Nat.le_of_succ_le later)
      · have settled := @Trail.kept_settled g table elem k (left + 1) carry trail positive new full
        exact iff_of_true settled.1 settled.2

theorem chain_kept_iff (unique : Unique table) (nonzero : elem.sig ≠ 0) :
    Kept table elem (cuckooEvict elem maxCuckooNum (firstCarry table elem)) ↔ ∀ i, ¬Displaces table elem i := by
  have trail := trail_start unique nonzero
  have new : ∀ j < 0, walkBucket table elem 0 ≠ walkBucket table elem j := fun j before => absurd before (Nat.not_lt_zero j)
  have settled : (firstCarry table elem).found elem ≠ .full → ∀ i, ¬Displaces table elem i := by
    intro room i displaces
    rw [trail.found_new new] at room
    exact room (displaces.evictions.full 0 displaces.positive)
  cases found : (firstCarry table elem).found elem with
  | held simdLane =>
    rw [cuckooEvict_held found]
    exact iff_of_true ⟨simdLane, entry_setLoc_held (probe_held found) elem.loc⟩ (settled (by simp [found]))
  | empty simdLane =>
    rw [cuckooEvict_empty found]
    exact iff_of_true ⟨simdLane, entry_putElem_self _ _ _ _⟩ (settled (by simp [found]))
  | full =>
    rw [maxCuckooNum, cuckooEvict_next found, (trail.evict found new).kept_iff nonzero (by decide) rfl]
    exact ⟨fun later i displaces => later i displaces.positive displaces, fun all i _ => all i⟩

end Walk

section Reading

variable {table : Table g} {elem : IElem} {buf : Sender.SearchBuf} {schedule : Nat → Schedule g} {input : List SElem}
  {id : Nat}

/-- A chain puts the signature of the new element into no other bucket than its second one. -/
theorem cuckooEvict_absent {b : g.Index} {carry : Carry g} (other : b ≠ secondIndex g elem.hash elem.sig)
    (absent : ∀ simdLane, (carry.table b).sig simdLane ≠ elem.sig) (left : Nat) :
    ∀ simdLane, (cuckooEvict elem left carry b).sig simdLane ≠ elem.sig := by
  have puts : ∀ (carry : Carry g) (chosen : g.Lane), (∀ simdLane, (carry.table b).sig simdLane ≠ elem.sig) →
      ∀ simdLane, (putElem carry.table (carry.target g elem) chosen carry.sig carry.loc b).sig simdLane ≠ elem.sig := by
    intro carry chosen absent simdLane
    by_cases here : b = carry.target g elem
    · rw [putElem, setLoc_sig, ← here, setSig_sig]
      by_cases slot : simdLane = chosen
      · rw [slot, Function.update_self]
        intro same
        rw [Carry.target, same] at here
        exact other here
      · rw [Function.update_of_ne slot]
        exact absent simdLane
    · rw [putElem_other _ _ _ _ here]
      exact absent simdLane
  refine @cuckooEvict_rule g elem (fun after => ∀ simdLane, (after b).sig simdLane ≠ elem.sig)
    (fun carry => ∀ simdLane, (carry.table b).sig simdLane ≠ elem.sig) ?_ ?_ ?_ left carry absent
  · intro carry chosen absent _ simdLane
    rw [setLoc_sig]
    exact absent simdLane
  · exact fun carry chosen absent _ => puts carry chosen absent
  · exact fun carry absent _ => ⟨puts carry _ absent, puts carry _ absent⟩

theorem chain_first_absent (first : firstFound table elem = .full) :
    bucketIndex g elem.hash = secondIndex g elem.hash elem.sig ∨
      ∀ simdLane, (cuckooEvict elem maxCuckooNum (firstCarry table elem) (bucketIndex g elem.hash)).sig simdLane ≠
        elem.sig := by
  by_cases same : bucketIndex g elem.hash = secondIndex g elem.hash elem.sig
  · exact .inl same
  · have absent := probe_full_absent first
    exact .inr (@cuckooEvict_absent g elem (bucketIndex g elem.hash) (firstCarry table elem) same absent maxCuckooNum)

/-- The insertions that cannot be read back. -/
def Displaced (table : Table g) (elem : IElem) : Prop :=
  firstFound table elem = .full ∧ ∃ k, Displaces table elem k

theorem cuckoo_read_iff (unique : Unique table) (sig : elem.sig ≠ 0) (loc : elem.loc ≠ 0)
    (member : input[id]? = some elem.query) :
    readLoc buf (hashInsertCuckoo table elem) schedule input id = elem.loc ↔ ¬Displaced table elem := by
  have after := unique.hashInsertCuckoo elem
  cases first : firstFound table elem with
  | held simdLane =>
    rw [hashInsertCuckoo_held sig first] at after ⊢
    apply iff_of_true (read_first after member sig loc (entry_setLoc_held (probe_held first) elem.loc))
    exact fun displaced => absurd displaced.1 (by simp [first])
  | empty simdLane =>
    rw [hashInsertCuckoo_empty sig first] at after ⊢
    apply iff_of_true (read_first after member sig loc (entry_putElem_self _ _ _ _))
    exact fun displaced => absurd displaced.1 (by simp [first])
  | full =>
    rw [hashInsertCuckoo_full sig first] at after ⊢
    rw [read_second_iff after member sig loc (chain_first_absent first)]
    have kept := chain_kept_iff unique sig
    constructor
    · intro found displaced
      obtain ⟨k, displaces⟩ := displaced.2
      exact kept.mp found k displaces
    · intro safe
      exact kept.mpr (fun k displaces => safe ⟨first, k, displaces⟩)

inductive CuckooOp : Op → Prop where
  | insert (elem : IElem) : CuckooOp (.cuckoo elem)
  | delete (elem : DElem) : CuckooOp (.delete elem)

/-- An inserted element is read back exactly where its own chain does not displace it. -/
theorem cuckoo_read_back_iff {ops : List Op} (run : Run g (fun _ op => CuckooOp op) ops table) (sig : elem.sig ≠ 0)
    (loc : elem.loc ≠ 0) (member : input[id]? = some elem.query) :
    readLoc buf (hashInsertCuckoo table elem) schedule input id = elem.loc ↔ ¬Displaced table elem :=
  cuckoo_read_iff run.unique sig loc member

end Reading

section Displacement

theorem cuckoo_puts (table : Table gpuHash) (elem : IElem) (simdLane : gpuHash.Lane) (nonzero : elem.sig ≠ 0)
    (found : firstFound table elem = .empty simdLane) :
    (Op.cuckoo elem).perform table = putElem table (bucketIndex gpuHash elem.hash) simdLane elem.sig elem.loc :=
  hashInsertCuckoo_empty nonzero found

theorem returnStacks_reaches :
    Run gpuHash (fun _ op => CuckooOp op) (stackOps .cuckoo 0 0 ++ stackOps .cuckoo 8 8) returnStacks := by
  have first : Run gpuHash (fun _ op => CuckooOp op) (stackOps .cuckoo 0 0) firstStack :=
    firstStack_reaches cuckoo_puts (fun _ n _ => .insert (stackedElem 0 0 n))
  exact stacked_reaches 8 8 cuckoo_puts first (by decide +kernel) (fun n _ => .insert (stackedElem 8 8 n)) 8 (by decide)

theorem returningElem_displaced : Displaced returnStacks returningElem := by
  refine ⟨by decide +kernel, 1, ?_⟩
  exact
    { positive := by decide
      last := by decide
      evictions :=
        { full := by
            intro j before
            have first : j = 0 := by omega
            subst first
            decide +kernel
          apart := fun i j order before => by omega }
      back := by decide +kernel
      overwrites := .inr ⟨rfl, by decide +kernel, by decide +kernel⟩ }

theorem cuckoo_read_back_iff_returning :
    Displaced returnStacks returningElem ∧
      readLoc idleBuf (hashInsertCuckoo returnStacks returningElem) idleSchedule [returningElem.query] 0 ≠
        returningElem.loc := by
  refine ⟨returningElem_displaced, ?_⟩
  intro read
  exact (cuckoo_read_back_iff returnStacks_reaches (by decide) (by decide) rfl).mp read returningElem_displaced

theorem returningElem_lost :
    ¬ ∀ (ops : List Op) (table : Table gpuHash), Run gpuHash (fun _ op => CuckooOp op) ops table →
      ∀ elem : IElem, elem.sig ≠ 0 → elem.loc ≠ 0 →
        ∀ (buf : Sender.SearchBuf) (schedule : Nat → Schedule gpuHash) (input : List SElem) (id : Nat),
          input[id]? = some elem.query → readLoc buf (hashInsertCuckoo table elem) schedule input id = elem.loc := by
  intro reads
  have sig : returningElem.sig ≠ 0 := by decide
  have loc : returningElem.loc ≠ 0 := by decide
  have member : [returningElem.query][0]? = some returningElem.query := rfl
  have read := reads _ _ returnStacks_reaches returningElem sig loc idleBuf idleSchedule [returningElem.query] 0 member
  exact (cuckoo_read_iff returnStacks_reaches.unique sig loc member).mp read returningElem_displaced

end Displacement

end MegaKV.Hash
