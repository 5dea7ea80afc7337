import MegaKV.Hash.Operations

namespace MegaKV.Hash

section Votes

variable {g : Geometry}

variable (g) in
def bitMove (idx : Nat) : Nat := idx &&& (((1 <<< (5 - g.elemNumP)) - 1) <<< g.elemNumP)

/-- The votes of its group as lane `idx` takes them out of those of the warp. -/
def laneBallot (vote : g.Lane → Bool) (idx : g.Lane) : BitVec 32 :=
  (ballot vote).sshiftRight (bitMove g idx.val) &&& ((1 <<< g.elemNum) - 1)

def laneMatching (b : Bucket g) (sig : Sign) (idx : g.Lane) : BitVec 32 :=
  laneBallot (fun simdLane => b.sig simdLane == sig) idx

def laneVacant (b : Bucket g) (mask : BitVec 32) (idx : g.Lane) : BitVec 32 := majorFirst mask (laneMatching b 0 idx)

theorem bitMove_first (idx : g.Lane) : bitMove g idx.val = 0 := by
  apply Nat.eq_of_testBit_eq
  intro i
  rw [bitMove, Nat.testBit_and, Nat.testBit_shiftLeft, Nat.zero_testBit]
  by_cases below : i < g.elemNumP
  · simp [below]
  · have small : idx.val < 2 ^ i := Nat.lt_of_lt_of_le idx.isLt (Nat.pow_le_pow_right (by decide) (by omega))
    rw [Nat.testBit_lt_two_pow small, Bool.false_and]

theorem laneBallot_eq (vote : g.Lane → Bool) (idx : g.Lane) : laneBallot vote idx = ballot vote := by
  have small := g.elemNum_le
  rw [laneBallot, bitMove_first, BitVec.sshiftRight_zero]
  apply BitVec.eq_of_getLsbD_eq
  intro i inside
  have mask : ((1 <<< g.elemNum) - 1 : BitVec 32).getLsbD i = decide (i < g.elemNum) :=
    Library.low_mask_bit i (by omega)
  rw [BitVec.getLsbD_and, mask]
  by_cases voter : i < g.elemNum
  · simp [voter]
  · have silent : (ballot vote).getLsbD i = false := by
      by_contra voted
      rw [Bool.not_eq_false] at voted
      exact voter ((ballot_bit vote i).mp voted).1
    simp [voter, silent]

theorem laneMatching_eq (b : Bucket g) (sig : Sign) (idx : g.Lane) : laneMatching b sig idx = matching b sig :=
  laneBallot_eq _ idx

theorem laneVacant_eq (b : Bucket g) (mask : BitVec 32) (idx : g.Lane) : laneVacant b mask idx = vacant b mask := by
  rw [laneVacant, laneMatching_eq, vacant]

end Votes

section Kernels

variable {g : Geometry}

/-- `if (simd_lane == chosen_simd) b->sig[simd_lane] = sig`, run by every lane. -/
def lanesSig (table : Table g) (b : g.Index) (chosen : g.Lane → g.Lane) (sig : Sign) : Table g :=
  Function.update table b
    { table b with sig := fun simdLane => if simdLane = chosen simdLane then sig else (table b).sig simdLane }

def lanesLoc (table : Table g) (b : g.Index) (chosen : g.Lane → g.Lane) (loc : Loc) : Table g :=
  Function.update table b
    { table b with loc := fun simdLane => if simdLane = chosen simdLane then loc else (table b).loc simdLane }

/-- A `while (1)` loop over the empty slots of a bucket. With `true` it is left by `goto finish`, with
    `false` as no slot is empty; `none` is a run of more rounds. -/
def emptySlotLoop (idx : g.Lane) (b : g.Index) (mask : BitVec 32) (sig : Sign) (loc : Loc) :
    Nat → Table g → Option (Bool × Table g)
  | 0, _ => none
  | rounds + 1, table =>
    let votes := laneVacant (table b) mask
    let chosen := fun simdLane => chosenSimd (votes simdLane)
    if votes idx ≠ 0 then
      let written := lanesSig table b chosen sig
      if (written b).sig (chosen idx) = sig then some (true, lanesLoc written b chosen loc)
      else emptySlotLoop idx b mask sig loc rounds written
    else some (false, table)

/-- What both kernels do with a bucket `b`: a slot with the signature gets the location, else an empty
    slot gets both, and without an empty slot the kernel goes on with `noSlot`. -/
def tryBucket (idx : g.Lane) (b : g.Index) (mask : BitVec 32) (sig : Sign) (loc : Loc) (rounds : Nat) (table : Table g)
    (noSlot : Table g → Option (Table g)) : Option (Table g) :=
  let same := laneMatching (table b) sig
  if same idx ≠ 0 then some (lanesLoc table b (fun simdLane => chosenSimd (same simdLane)) loc)
  else
    match emptySlotLoop idx b mask sig loc rounds table with
    | none => none
    | some (true, after) => some after
    | some (false, table) => noSlot table

def hashInsert2choiceLanes (idx : g.Lane) (rounds : Nat) (table : Table g) (elem : IElem) : Option (Table g) :=
  if elem.sig = 0 ∧ elem.loc = 0 then some table
  else
    tryBucket idx (bucketIndex g elem.hash) (mlMask g elem.sig) elem.sig elem.loc rounds table fun table =>
      let b := secondIndex g elem.hash elem.sig
      tryBucket idx b (mlMask g elem.sig) elem.sig elem.loc rounds table fun table =>
        some (lanesSig table b (fun _ => majorLane g elem.sig) elem.sig)

/-- From `cuckoo_evict` on, with `left` evictions before `MAX_CUCKOO_NUM`. -/
def cuckooEvictLanes (idx : g.Lane) (rounds : Nat) (elem : IElem) (left : Nat) (carry : Carry g) : Option (Table g) :=
  let b := carry.target g elem
  tryBucket idx b (mlMask g elem.sig) carry.sig carry.loc rounds carry.table fun table =>
    let chosen := majorLane g elem.sig
    let written := lanesSig table b (fun _ => chosen) carry.sig
    let placed := lanesLoc written b (fun _ => chosen) carry.loc
    match left with
    | 0 => some (if (written b).sig chosen = carry.sig then placed else written)
    | left + 1 =>
      if (written b).sig chosen = carry.sig then
        cuckooEvictLanes idx rounds elem left ⟨placed, (table b).sig chosen, (table b).loc chosen⟩
      else some written

def hashInsertCuckooLanes (idx : g.Lane) (rounds : Nat) (table : Table g) (elem : IElem) : Option (Table g) :=
  if elem.sig = 0 ∧ elem.loc = 0 then some table
  else
    tryBucket idx (bucketIndex g elem.hash) (mlMask g elem.sig) elem.sig elem.loc rounds table fun table =>
      cuckooEvictLanes idx rounds elem maxCuckooNum ⟨table, elem.sig, elem.loc⟩

end Kernels

section Rounds

variable {g : Geometry}

/-- When all lanes have chosen the same slot, one of them writes. -/
theorem chosen_writes {Value : Type} (values : g.Lane → Value) (chosen : g.Lane) (value : Value) :
    (fun simdLane => if simdLane = chosen then value else values simdLane) = Function.update values chosen value := by
  funext simdLane
  rw [Function.update_apply]

theorem lanesSig_eq (table : Table g) (b : g.Index) (chosen : g.Lane) (sig : Sign) :
    lanesSig table b (fun _ => chosen) sig = setSig table b chosen sig := by
  rw [lanesSig, setSig, chosen_writes]

theorem lanesLoc_eq (table : Table g) (b : g.Index) (chosen : g.Lane) (loc : Loc) :
    lanesLoc table b (fun _ => chosen) loc = setLoc table b chosen loc := by
  rw [lanesLoc, setLoc, chosen_writes]

theorem setSig_back (table : Table g) (b : g.Index) (chosen : g.Lane) (sig : Sign) :
    (setSig table b chosen sig b).sig chosen = sig := by
  simp [setSig]

/-- The chosen lane reads its own signature back, so the loop is left in its first round. -/
theorem emptySlotLoop_eq (idx : g.Lane) (b : g.Index) (mask : BitVec 32) (sig : Sign) (loc : Loc) (rounds : Nat)
    (table : Table g) :
    emptySlotLoop idx b mask sig loc (rounds + 1) table =
      if vacant (table b) mask ≠ 0 then some (true, putElem table b (chosenSimd (vacant (table b) mask)) sig loc)
      else some (false, table) := by
  simp only [emptySlotLoop, laneVacant_eq, lanesSig_eq, lanesLoc_eq, setSig_back, ite_true]
  rfl

theorem tryBucket_eq (idx : g.Lane) (b : g.Index) (mask : BitVec 32) (sig : Sign) (loc : Loc) (rounds : Nat)
    (table : Table g) (noSlot : Table g → Option (Table g)) :
    tryBucket idx b mask sig loc (rounds + 1) table noSlot =
      match probe (table b) mask sig with
      | .held simdLane => some (setLoc table b simdLane loc)
      | .empty simdLane => some (putElem table b simdLane sig loc)
      | .full => noSlot table := by
  simp only [tryBucket, laneMatching_eq, lanesLoc_eq, emptySlotLoop_eq, probe]
  by_cases absent : matching (table b) sig = 0
  · by_cases taken : vacant (table b) mask = 0
    · simp only [absent, taken, ne_eq, not_true_eq_false, ite_false]
    · simp only [absent, taken, ne_eq, not_true_eq_false, not_false_eq_true, ite_false, ite_true]
  · simp only [absent, ne_eq, not_false_eq_true, ite_true]

theorem hashInsert2choiceLanes_eq (idx : g.Lane) (rounds : Nat) (table : Table g) (elem : IElem) :
    hashInsert2choiceLanes idx (rounds + 1) table elem = some (hashInsert2choice table elem) := by
  rw [hashInsert2choiceLanes, hashInsert2choice]
  by_cases zero : elem.sig = 0 ∧ elem.loc = 0
  · rw [if_pos zero, if_pos zero]
  · rw [if_neg zero, if_neg zero, tryBucket_eq, firstFound]
    cases probe (table (bucketIndex g elem.hash)) (mlMask g elem.sig) elem.sig with
    | held simdLane => rfl
    | empty simdLane => rfl
    | full =>
      simp only [tryBucket_eq, secondFound, lanesSig_eq]
      cases probe (table (secondIndex g elem.hash elem.sig)) (mlMask g elem.sig) elem.sig <;> rfl

theorem cuckooEvictLanes_eq (idx : g.Lane) (rounds : Nat) (elem : IElem) (left : Nat) (carry : Carry g) :
    cuckooEvictLanes idx (rounds + 1) elem left carry = some (cuckooEvict elem left carry) := by
  induction left generalizing carry with
  | zero =>
    rw [cuckooEvictLanes, cuckooEvict, tryBucket_eq, Carry.found]
    cases probe (carry.table (carry.target g elem)) (mlMask g elem.sig) carry.sig with
    | held simdLane => rfl
    | empty simdLane => rfl
    | full =>
      simp only [lanesSig_eq, lanesLoc_eq, setSig_back, ite_true]
      rfl
  | succ left ih =>
    rw [cuckooEvictLanes, cuckooEvict, tryBucket_eq, Carry.found]
    cases probe (carry.table (carry.target g elem)) (mlMask g elem.sig) carry.sig with
    | held simdLane => rfl
    | empty simdLane => rfl
    | full =>
      simp only [lanesSig_eq, lanesLoc_eq, setSig_back, ite_true]
      exact ih (carry.evict elem)

theorem hashInsertCuckooLanes_eq (idx : g.Lane) (rounds : Nat) (table : Table g) (elem : IElem) :
    hashInsertCuckooLanes idx (rounds + 1) table elem = some (hashInsertCuckoo table elem) := by
  rw [hashInsertCuckooLanes, hashInsertCuckoo]
  by_cases zero : elem.sig = 0 ∧ elem.loc = 0
  · rw [if_pos zero, if_pos zero]
  · rw [if_neg zero, if_neg zero, tryBucket_eq, firstFound]
    cases probe (table (bucketIndex g elem.hash)) (mlMask g elem.sig) elem.sig with
    | held simdLane => rfl
    | empty simdLane => rfl
    | full => exact cuckooEvictLanes_eq idx rounds elem maxCuckooNum (firstCarry table elem)

end Rounds

end MegaKV.Hash
