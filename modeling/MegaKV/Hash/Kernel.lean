import MegaKV.Hash.Table

namespace MegaKV.Hash

open Library

section Votes

variable {g : Geometry}

/-- The votes of the `ELEM_NUM` lanes of one element after `>> bit_move`. An element run alone
    sits in the first group of its warp, whose other lanes are inactive and vote zero. -/
def ballot (vote : g.Lane → Bool) : BitVec 32 :=
  BitVec.ofFnLE fun i : Fin 32 => if inside : i.val < g.elemNum then vote ⟨i, inside⟩ else false

def chosenSimd (votes : BitVec 32) : g.Lane := g.lane (ffs votes - 1)

variable (g) in
def majorLane (sig : Sign) : g.Lane := g.lane sig.toNat

variable (g) in
def mlMask (sig : Sign) : BitVec 32 := (1 <<< (majorLane g sig).val) - 1

/-- The lanes below the major location are moved behind all others. -/
def majorFirst (mask votes : BitVec 32) : BitVec 32 :=
  ((votes &&& mask) <<< 16) ||| (votes &&& ~~~mask)

theorem ballot_bit (vote : g.Lane → Bool) (i : Nat) :
    (ballot vote).getLsbD i = true ↔ ∃ inside : i < g.elemNum, vote ⟨i, inside⟩ = true := by
  have small := g.elemNum_le
  rw [ballot, BitVec.getLsbD_ofFnLE]
  by_cases inside : i < g.elemNum
  · have word : i < 32 := by omega
    simp [inside, word]
  · simp [inside]

theorem lane_self {i : Nat} (inside : i < g.elemNum) : g.lane i = ⟨i, inside⟩ :=
  Fin.ext ((g.lane_val i).trans (Nat.mod_eq_of_lt inside))

theorem ballot_ne_zero_iff (vote : g.Lane → Bool) :
    ballot vote ≠ 0 ↔ ∃ simdLane, vote simdLane = true := by
  constructor
  · intro nonzero
    obtain ⟨inside, voted⟩ := (ballot_bit vote _).mp (ffs_bit_set nonzero)
    exact ⟨_, voted⟩
  · intro given zero
    rcases given with ⟨simdLane, voted⟩
    have bit := (ballot_bit vote simdLane.val).mpr ⟨simdLane.isLt, voted⟩
    rw [zero] at bit
    simp at bit

theorem chosenSimd_voted {vote : g.Lane → Bool} (nonzero : ballot vote ≠ 0) :
    vote (chosenSimd (ballot vote)) = true := by
  obtain ⟨inside, voted⟩ := (ballot_bit vote _).mp (ffs_bit_set nonzero)
  rw [chosenSimd, lane_self inside]
  exact voted

theorem elemNum_dvd : g.elemNum ∣ 16 :=
  pow_dvd_pow 2 (Nat.le_of_lt_succ g.small)

theorem majorFirst_bit {mask : BitVec 32} {vote : g.Lane → Bool} {i : Nat}
    (bit : (majorFirst mask (ballot vote)).getLsbD i = true) :
    vote (g.lane i) = true := by
  simp only [majorFirst, BitVec.getLsbD_or, BitVec.getLsbD_shiftLeft, BitVec.getLsbD_and,
    Bool.or_eq_true, Bool.and_eq_true, Bool.not_eq_true', decide_eq_false_iff_not] at bit
  rcases bit with ⟨⟨_, above⟩, low, _⟩ | ⟨high, _⟩
  · obtain ⟨inside, voted⟩ := (ballot_bit vote _).mp low
    have same : g.lane i = g.lane (i - 16) := by
      apply Fin.ext
      rw [Geometry.lane_val, Geometry.lane_val]
      conv_lhs => rw [show i = i - 16 + 16 by omega]
      rw [Nat.add_mod, Nat.mod_eq_zero_of_dvd elemNum_dvd, Nat.add_zero, Nat.mod_mod]
    rw [same, lane_self inside]
    exact voted
  · obtain ⟨inside, voted⟩ := (ballot_bit vote _).mp high
    rw [lane_self inside]
    exact voted

theorem majorFirst_eq_zero_iff (mask : BitVec 32) (vote : g.Lane → Bool) :
    majorFirst mask (ballot vote) = 0 ↔ ballot vote = 0 := by
  constructor
  · intro zero
    by_contra nonzero
    obtain ⟨simdLane, voted⟩ := (ballot_ne_zero_iff vote).mp nonzero
    have bound : simdLane.val < 16 := Nat.lt_of_lt_of_le simdLane.isLt g.elemNum_le
    have bit := (ballot_bit vote simdLane.val).mpr ⟨simdLane.isLt, voted⟩
    have low : ((ballot vote &&& mask) <<< 16).getLsbD (simdLane.val + 16) = mask.getLsbD simdLane.val := by
      rw [BitVec.getLsbD_shiftLeft, Nat.add_sub_cancel, BitVec.getLsbD_and, bit]
      have word : simdLane.val + 16 < 32 := by omega
      simp [word]
    have high : (ballot vote &&& ~~~mask).getLsbD simdLane.val = !mask.getLsbD simdLane.val := by
      rw [BitVec.getLsbD_and, BitVec.getLsbD_not, bit]
      have word : simdLane.val < 32 := by omega
      simp [word]
    obtain ⟨lowZero, highZero⟩ := BitVec.or_eq_zero_iff.mp zero
    rw [lowZero] at low
    rw [highZero] at high
    simp only [BitVec.getLsbD_zero] at low high
    rw [← low] at high
    exact absurd high Bool.false_ne_true
  · intro zero
    simp [majorFirst, zero]

end Votes

inductive Probe (g : Geometry) where
  | held (simdLane : g.Lane)
  | empty (simdLane : g.Lane)
  | full
  deriving DecidableEq

section Probing

variable {g : Geometry}

def matching (b : Bucket g) (sig : Sign) : BitVec 32 :=
  ballot fun simdLane => b.sig simdLane == sig

def vacant (b : Bucket g) (mask : BitVec 32) : BitVec 32 := majorFirst mask (matching b 0)

/-- First the lane holding the signature, else the first empty lane from the major location of
    the inserted element on. -/
def probe (b : Bucket g) (mask : BitVec 32) (sig : Sign) : Probe g :=
  if matching b sig ≠ 0 then .held (chosenSimd (matching b sig))
  else if vacant b mask ≠ 0 then .empty (chosenSimd (vacant b mask))
  else .full

theorem matching_eq_zero_iff (b : Bucket g) (sig : Sign) :
    matching b sig = 0 ↔ ∀ simdLane, b.sig simdLane ≠ sig := by
  have present := ballot_ne_zero_iff fun simdLane => b.sig simdLane == sig
  simpa [matching] using not_iff_not.mpr present

theorem vacant_eq_zero_iff (b : Bucket g) (mask : BitVec 32) :
    vacant b mask = 0 ↔ ∀ simdLane, b.sig simdLane ≠ 0 :=
  (majorFirst_eq_zero_iff mask _).trans (matching_eq_zero_iff b 0)

theorem probe_held {b : Bucket g} {mask : BitVec 32} {sig : Sign} {simdLane : g.Lane}
    (found : probe b mask sig = .held simdLane) : b.sig simdLane = sig := by
  unfold probe at found
  split at found
  · rename_i nonzero
    cases found
    simpa [matching] using chosenSimd_voted nonzero
  · split at found <;> cases found

theorem probe_empty {b : Bucket g} {mask : BitVec 32} {sig : Sign} {simdLane : g.Lane}
    (found : probe b mask sig = .empty simdLane) :
    b.sig simdLane = 0 ∧ ∀ other, b.sig other ≠ sig := by
  unfold probe at found
  split at found
  · cases found
  · rename_i zero
    split at found
    · rename_i nonzero
      cases found
      refine ⟨?_, (matching_eq_zero_iff b sig).mp (not_not.mp zero)⟩
      simpa [vacant, matching, chosenSimd] using majorFirst_bit (ffs_bit_set nonzero)
    · cases found

theorem probe_full_iff (b : Bucket g) (mask : BitVec 32) (sig : Sign) :
    probe b mask sig = .full ↔ ∀ simdLane, b.sig simdLane ≠ sig ∧ b.sig simdLane ≠ 0 := by
  rw [forall_and, ← matching_eq_zero_iff, ← vacant_eq_zero_iff b mask]
  unfold probe
  by_cases present : matching b sig = 0
  · by_cases room : vacant b mask = 0
    · simp only [present, room, ne_eq, not_true_eq_false, ite_false, and_self]
    · simp only [present, room, ne_eq, not_true_eq_false, not_false_eq_true, ite_false, ite_true,
        reduceCtorEq, and_false]
  · simp only [present, ne_eq, not_false_eq_true, ite_true, reduceCtorEq, false_and]

end Probing

section Insert

variable {g : Geometry}

/-- The signature is written first and the location after the barrier. -/
def putElem (table : Table g) (b : g.Index) (simdLane : g.Lane) (sig : Sign) (loc : Loc) : Table g :=
  setLoc (setSig table b simdLane sig) b simdLane loc

theorem entry_putElem (table : Table g) (b : g.Index) (simdLane : g.Lane) (sig : Sign) (loc : Loc) :
    entry (putElem table b simdLane sig loc) =
      Function.update (entry table) (b, simdLane) (sig, loc) := by
  rw [putElem, entry_setLoc, entry_setSig, Function.update_idem]
  simp [setSig]

/-- The element a round of the `cuckoo_evict` loop has to place, and the table it finds. -/
structure Carry (g : Geometry) where
  table : Table g
  sig : Sign
  loc : Loc

variable (g) in
/-- `hash` stays the hash of the inserted element in every round. -/
def Carry.target (elem : IElem) (carry : Carry g) : g.Index := secondIndex g elem.hash carry.sig

def Carry.found (elem : IElem) (carry : Carry g) : Probe g :=
  probe (carry.table (carry.target g elem)) (mlMask g elem.sig) carry.sig

/-- The victim's slot receives the carried element, and the victim is carried on. -/
def Carry.evict (elem : IElem) (carry : Carry g) : Carry g :=
  let b := carry.target g elem
  let chosen := majorLane g elem.sig
  { table := putElem carry.table b chosen carry.sig carry.loc
    sig := (carry.table b).sig chosen
    loc := (carry.table b).loc chosen }

theorem evict_sig_ne_zero {elem : IElem} {carry : Carry g} (full : carry.found elem = .full) :
    (carry.evict elem).sig ≠ 0 :=
  ((probe_full_iff _ _ _).mp full (majorLane g elem.sig)).2

/-- The `cuckoo_evict` loop with `left` evictions before `MAX_CUCKOO_NUM`. Run alone, an element
    always reads back the signature it wrote, so each inner `while` loop is run once. -/
def cuckooEvict (elem : IElem) (left : Nat) (carry : Carry g) : Table g :=
  match carry.found elem with
  | .held simdLane => setLoc carry.table (carry.target g elem) simdLane carry.loc
  | .empty simdLane => putElem carry.table (carry.target g elem) simdLane carry.sig carry.loc
  | .full =>
    match left with
    | 0 => (carry.evict elem).table
    | left + 1 => cuckooEvict elem left (carry.evict elem)

theorem cuckooEvict_held {elem : IElem} {left : Nat} {carry : Carry g} {simdLane : g.Lane}
    (found : carry.found elem = .held simdLane) :
    cuckooEvict elem left carry = setLoc carry.table (carry.target g elem) simdLane carry.loc := by
  rw [cuckooEvict.eq_def, found]

theorem cuckooEvict_empty {elem : IElem} {left : Nat} {carry : Carry g} {simdLane : g.Lane}
    (found : carry.found elem = .empty simdLane) :
    cuckooEvict elem left carry =
      putElem carry.table (carry.target g elem) simdLane carry.sig carry.loc := by
  rw [cuckooEvict.eq_def, found]

theorem cuckooEvict_last {elem : IElem} {carry : Carry g} (full : carry.found elem = .full) :
    cuckooEvict elem 0 carry = (carry.evict elem).table := by
  rw [cuckooEvict, full]

theorem cuckooEvict_next {elem : IElem} {left : Nat} {carry : Carry g} (full : carry.found elem = .full) :
    cuckooEvict elem (left + 1) carry = cuckooEvict elem left (carry.evict elem) := by
  rw [cuckooEvict, full]

def cuckooRounds (elem : IElem) : Nat → Carry g → List (Carry g)
  | 0, carry => [carry]
  | left + 1, carry =>
    match carry.found elem with
    | .full => carry :: cuckooRounds elem left (carry.evict elem)
    | _ => [carry]

def firstFound (table : Table g) (elem : IElem) : Probe g :=
  probe (table (bucketIndex g elem.hash)) (mlMask g elem.sig) elem.sig

def firstCarry (table : Table g) (elem : IElem) : Carry g := ⟨table, elem.sig, elem.loc⟩

def hashInsertCuckoo (table : Table g) (elem : IElem) : Table g :=
  if elem.sig = 0 ∧ elem.loc = 0 then table
  else
    match firstFound table elem with
    | .held simdLane => setLoc table (bucketIndex g elem.hash) simdLane elem.loc
    | .empty simdLane => putElem table (bucketIndex g elem.hash) simdLane elem.sig elem.loc
    | .full => cuckooEvict elem maxCuckooNum (firstCarry table elem)

/-- What holds of the carried elements of a chain and passes from each to its victim. -/
theorem cuckooEvict_rule {elem : IElem} {holds : Table g → Prop} {carried : Carry g → Prop}
    (held : ∀ carry simdLane, carried carry → carry.found elem = .held simdLane →
      holds (setLoc carry.table (carry.target g elem) simdLane carry.loc))
    (empty : ∀ carry simdLane, carried carry → carry.found elem = .empty simdLane →
      holds (putElem carry.table (carry.target g elem) simdLane carry.sig carry.loc))
    (full : ∀ carry, carried carry → carry.found elem = .full →
      holds (carry.evict elem).table ∧ carried (carry.evict elem))
    (left : Nat) {carry : Carry g} (start : carried carry) : holds (cuckooEvict elem left carry) := by
  induction left generalizing carry with
  | zero =>
    cases found : carry.found elem with
    | held simdLane =>
      rw [cuckooEvict_held found]
      exact held carry simdLane start found
    | empty simdLane =>
      rw [cuckooEvict_empty found]
      exact empty carry simdLane start found
    | full =>
      rw [cuckooEvict_last found]
      exact (full carry start found).1
  | succ left ih =>
    cases found : carry.found elem with
    | held simdLane =>
      rw [cuckooEvict_held found]
      exact held carry simdLane start found
    | empty simdLane =>
      rw [cuckooEvict_empty found]
      exact empty carry simdLane start found
    | full =>
      rw [cuckooEvict_next found]
      exact ih (full carry start found).2

theorem hashInsertCuckoo_held {table : Table g} {elem : IElem} {simdLane : g.Lane}
    (nonzero : elem.sig ≠ 0) (found : firstFound table elem = .held simdLane) :
    hashInsertCuckoo table elem = setLoc table (bucketIndex g elem.hash) simdLane elem.loc := by
  simp only [hashInsertCuckoo, nonzero, false_and, ite_false, found]

theorem hashInsertCuckoo_empty {table : Table g} {elem : IElem} {simdLane : g.Lane}
    (nonzero : elem.sig ≠ 0) (found : firstFound table elem = .empty simdLane) :
    hashInsertCuckoo table elem = putElem table (bucketIndex g elem.hash) simdLane elem.sig elem.loc := by
  simp only [hashInsertCuckoo, nonzero, false_and, ite_false, found]

theorem hashInsertCuckoo_full {table : Table g} {elem : IElem} (nonzero : elem.sig ≠ 0)
    (found : firstFound table elem = .full) :
    hashInsertCuckoo table elem = cuckooEvict elem maxCuckooNum (firstCarry table elem) := by
  simp only [hashInsertCuckoo, nonzero, false_and, ite_false, found]

end Insert

end MegaKV.Hash
