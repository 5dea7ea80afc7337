import MegaKV.Hash.Operations
import MegaKV.Hash.Placement
import MegaKV.Library.Locality

namespace MegaKV.Hash

open Library

variable {g : Geometry}

section Regions

/-- The top `IBLOCK_P` bits of a bucket's index. -/
def region (b : g.Index) : Nat := b.val >>> (memP - g.bucP - iblockP)

variable (g) in
def hashRegion (hash : HashWord) : Nat := (hash &&& g.hashMask).toNat >>> (memP - g.bucP - iblockP)

def regionCells (number : Nat) : Set g.Index := {b | region b = number}

theorem first_region (hash : HashWord) : region (bucketIndex g hash) = hashRegion g hash := rfl

theorem second_region (hash : HashWord) (sig : Sign) : region (secondIndex g hash sig) = hashRegion g hash := by
  apply Nat.eq_of_testBit_eq
  intro i
  unfold region hashRegion
  rw [Nat.testBit_shiftRight, Nat.testBit_shiftRight]
  change ((secondHash g hash sig &&& g.hashMask).toNat).testBit _ = _
  rw [BitVec.testBit_toNat, BitVec.testBit_toNat, BitVec.getLsbD_and, BitVec.getLsbD_and]
  by_cases word : memP - g.bucP - iblockP + i < 32
  · have above : g.blockHashMask.getLsbD (memP - g.bucP - iblockP + i) = false := by
      rw [blockHashMask_bit]
      exact decide_eq_false (by omega)
    rw [secondHash_bit g hash sig _ word, above, Bool.and_false, Bool.xor_false]
    cases g.hashMask.getLsbD (memP - g.bucP - iblockP + i) <;>
      cases hash.getLsbD (memP - g.bucP - iblockP + i) <;> rfl
  · have outside := Nat.le_of_not_lt word
    rw [BitVec.getLsbD_of_ge g.hashMask _ outside, Bool.and_false, Bool.and_false]

theorem regionCells_disjoint {left right : Nat} (differ : left ≠ right) :
    Disjoint (regionCells left : Set g.Index) (regionCells right) := by
  apply Set.disjoint_left.mpr
  intro b here there
  exact differ (here.symm.trans there)

end Regions

section Local

variable {number : Nat}

theorem worksOn_setLoc {b : g.Index} (member : b ∈ regionCells number) (simdLane : g.Lane) (loc : Loc) :
    WorksOn (regionCells number) fun table : Table g => setLoc table b simdLane loc :=
  worksOn_update member fun bucket : Bucket g => { bucket with loc := Function.update bucket.loc simdLane loc }

theorem worksOn_setSig {b : g.Index} (member : b ∈ regionCells number) (simdLane : g.Lane) (sig : Sign) :
    WorksOn (regionCells number) fun table : Table g => setSig table b simdLane sig :=
  worksOn_update member fun bucket : Bucket g => { bucket with sig := Function.update bucket.sig simdLane sig }

theorem worksOn_putElem {b : g.Index} (member : b ∈ regionCells number) (simdLane : g.Lane) (sig : Sign) (loc : Loc) :
    WorksOn (regionCells number) fun table : Table g => putElem table b simdLane sig loc :=
  (worksOn_setSig member simdLane sig).comp (worksOn_setLoc member simdLane loc)

theorem worksOn_clearElem {b : g.Index} (member : b ∈ regionCells number) (elem : DElem) :
    WorksOn (regionCells number) fun table : Table g => clearElem table b elem :=
  worksOn_update member fun bucket : Bucket g =>
    { bucket with sig := fun simdLane => if holdsElem bucket elem simdLane then 0 else bucket.sig simdLane }

theorem dependsOn_bucket {Choice : Type} {b : g.Index} (member : b ∈ regionCells number) (choose : Bucket g → Choice) :
    DependsOn (fun table : Table g => choose (table b)) (regionCells number) :=
  fun _ _ agree => congrArg choose (agree b member)

/-- One round of the chain, if the rest of the chain works on the region too. -/
theorem worksOn_round {elem : IElem} {left : Nat} {sig : Sign} {loc : Loc}
    (rest : ∀ victim victimLoc, ∃ branch, WorksOn (regionCells (hashRegion g elem.hash)) branch ∧
      ∀ table : Table g, (Carry.mk table sig loc).found elem = .full →
        (Carry.mk table sig loc).evict elem =
          ⟨putElem table (secondIndex g elem.hash sig) (majorLane g elem.sig) sig loc, victim, victimLoc⟩ →
        cuckooEvict elem left ⟨table, sig, loc⟩ = branch table) :
    WorksOn (regionCells (hashRegion g elem.hash)) fun table : Table g => cuckooEvict elem left ⟨table, sig, loc⟩ := by
  have target : secondIndex g elem.hash sig ∈ regionCells (hashRegion g elem.hash) := second_region elem.hash sig
  -- The round reads the probe and the victim, all three from the bucket it is aimed at.
  apply WorksOn.choice (dependsOn_bucket target fun bucket =>
    (probe bucket (mlMask g elem.sig) sig, bucket.sig (majorLane g elem.sig), bucket.loc (majorLane g elem.sig)))
  intro given
  rcases given with ⟨found, victim, victimLoc⟩
  cases found with
  | held simdLane => exact ⟨_, worksOn_setLoc target simdLane loc, fun _ read => cuckooEvict_held (congrArg Prod.fst read)⟩
  | empty simdLane =>
    exact ⟨_, worksOn_putElem target simdLane sig loc, fun _ read => cuckooEvict_empty (congrArg Prod.fst read)⟩
  | full =>
    obtain ⟨branch, works, same⟩ := rest victim victimLoc
    refine ⟨branch, works, fun table read => same table (congrArg Prod.fst read) ?_⟩
    have replaced := congrArg Prod.snd read
    simp only [Prod.mk.injEq] at replaced
    obtain ⟨rfl, rfl⟩ := replaced
    rfl

theorem worksOn_cuckooEvict (elem : IElem) (left : Nat) (sig : Sign) (loc : Loc) :
    WorksOn (regionCells (hashRegion g elem.hash)) fun table : Table g => cuckooEvict elem left ⟨table, sig, loc⟩ := by
  have target (sig : Sign) : secondIndex g elem.hash sig ∈ regionCells (hashRegion g elem.hash) :=
    second_region elem.hash sig
  induction left generalizing sig loc with
  | zero =>
    apply worksOn_round
    intro victim victimLoc
    refine ⟨_, worksOn_putElem (target sig) (majorLane g elem.sig) sig loc, ?_⟩
    intro table full evicted
    rw [cuckooEvict_last full, evicted]
  | succ left ih =>
    apply worksOn_round
    intro victim victimLoc
    refine ⟨_, (worksOn_putElem (target sig) (majorLane g elem.sig) sig loc).comp (ih victim victimLoc), ?_⟩
    intro table full evicted
    rw [cuckooEvict_next full, evicted]

theorem worksOn_cuckoo (elem : IElem) :
    WorksOn (regionCells (hashRegion g elem.hash)) fun table : Table g => hashInsertCuckoo table elem := by
  have target : bucketIndex g elem.hash ∈ regionCells (hashRegion g elem.hash) := first_region elem.hash
  by_cases zero : elem.sig = 0 ∧ elem.loc = 0
  · simp only [hashInsertCuckoo, zero, and_self, ite_true]
    exact worksOn_id
  · unfold hashInsertCuckoo
    simp only [zero, ite_false]
    apply WorksOn.choice (dependsOn_bucket target fun bucket => probe bucket (mlMask g elem.sig) elem.sig)
    intro found
    cases found with
    | held simdLane =>
      refine ⟨_, worksOn_setLoc target simdLane elem.loc, fun table read => ?_⟩
      rw [firstFound, read]
    | empty simdLane =>
      refine ⟨_, worksOn_putElem target simdLane elem.sig elem.loc, fun table read => ?_⟩
      rw [firstFound, read]
    | full =>
      refine ⟨_, worksOn_cuckooEvict elem maxCuckooNum elem.sig elem.loc, fun table read => ?_⟩
      rw [firstFound, read]
      rfl

theorem worksOn_2choice (elem : IElem) :
    WorksOn (regionCells (hashRegion g elem.hash)) fun table : Table g => hashInsert2choice table elem := by
  have target : bucketIndex g elem.hash ∈ regionCells (hashRegion g elem.hash) := first_region elem.hash
  have other : secondIndex g elem.hash elem.sig ∈ regionCells (hashRegion g elem.hash) := second_region _ _
  by_cases zero : elem.sig = 0 ∧ elem.loc = 0
  · simp only [hashInsert2choice, zero, and_self, ite_true]
    exact worksOn_id
  · unfold hashInsert2choice
    simp only [zero, ite_false]
    have reading : DependsOn (fun table : Table g => (firstFound table elem, secondFound table elem))
        (regionCells (hashRegion g elem.hash)) := by
      intro left right agree
      simp only [firstFound, secondFound, agree _ target, agree _ other]
    apply WorksOn.choice reading
    intro given
    rcases given with ⟨first, second⟩
    cases first with
    | held simdLane =>
      refine ⟨_, worksOn_setLoc target simdLane elem.loc, fun table read => ?_⟩
      rw [(Prod.mk.inj read).1]
    | empty simdLane =>
      refine ⟨_, worksOn_putElem target simdLane elem.sig elem.loc, fun table read => ?_⟩
      rw [(Prod.mk.inj read).1]
    | full =>
      cases second with
      | held simdLane =>
        refine ⟨_, worksOn_setLoc other simdLane elem.loc, fun table read => ?_⟩
        rw [(Prod.mk.inj read).1, (Prod.mk.inj read).2]
      | empty simdLane =>
        refine ⟨_, worksOn_putElem other simdLane elem.sig elem.loc, fun table read => ?_⟩
        rw [(Prod.mk.inj read).1, (Prod.mk.inj read).2]
      | full =>
        refine ⟨_, worksOn_setSig other (majorLane g elem.sig) elem.sig, fun table read => ?_⟩
        rw [(Prod.mk.inj read).1, (Prod.mk.inj read).2]

theorem worksOn_delete (elem : DElem) :
    WorksOn (regionCells (hashRegion g elem.hash)) fun table : Table g => hashDelete table elem := by
  have target : bucketIndex g elem.hash ∈ regionCells (hashRegion g elem.hash) := first_region elem.hash
  have other : secondIndex g elem.hash elem.sig ∈ regionCells (hashRegion g elem.hash) := second_region _ _
  apply WorksOn.choice (dependsOn_bucket target fun bucket => decide (ballot (holdsElem bucket elem) ≠ 0))
  intro found
  cases found with
  | true =>
    refine ⟨_, worksOn_clearElem target elem, fun table read => ?_⟩
    exact if_pos (of_decide_eq_true read)
  | false =>
    refine ⟨_, (worksOn_clearElem target elem).comp (worksOn_clearElem other elem), fun table read => ?_⟩
    exact if_neg (of_decide_eq_false read)

def Op.hash : Op → HashWord
  | .cuckoo elem => elem.hash
  | .twoChoice elem => elem.hash
  | .delete elem => elem.hash

variable (g) in
def Op.region (op : Op) : Nat := hashRegion g op.hash

/-- Each operation works on the region of its hash, whatever signatures its chain meets. -/
theorem worksOn_perform (op : Op) : WorksOn (regionCells (op.region g)) fun table : Table g => op.perform table := by
  cases op with
  | cuckoo elem => exact worksOn_cuckoo elem
  | twoChoice elem => exact worksOn_2choice elem
  | delete elem => exact worksOn_delete elem

end Local

section Interleavings

theorem merged_regions {left right merged : List Op} (merge : Merged left right merged)
    (apart : ∀ first ∈ left, ∀ second ∈ right, first.region g ≠ second.region g) (table : Table g) :
    performAll table merged = performAll (performAll table left) right := by
  apply merge.foldl_eq
  intro first here second there table
  exact (worksOn_perform first).commute (worksOn_perform second) (regionCells_disjoint (apart first here second there)) table

theorem regions_independent :
    (∀ (op : Op) (table : Table g) (b : g.Index), region b ≠ op.region g → op.perform table b = table b) ∧
      (∀ (op : Op) (table other : Table g), (∀ b, region b = op.region g → table b = other b) →
        ∀ b, region b = op.region g → op.perform table b = op.perform other b) ∧
      ∀ left right merged other : List Op, (∀ first ∈ left, ∀ second ∈ right, first.region g ≠ second.region g) →
        Merged left right merged → Merged left right other →
          ∀ table : Table g, performAll table merged = performAll table other := by
  refine ⟨?_, ?_, ?_⟩
  · intro op table b outside
    exact (worksOn_perform op).outside table b outside
  · intro op table other agree b inside
    exact (worksOn_perform op).inside b inside agree
  · intro left right merged other apart merge otherMerge table
    rw [merged_regions merge apart, merged_regions otherMerge apart]

theorem regions_independent_pair :
    (Op.cuckoo ⟨7, 0, 3⟩).perform (zeroTable gpuHash) (bucketIndex gpuHash 0x200000) =
        zeroTable gpuHash (bucketIndex gpuHash 0x200000) ∧
      (Op.cuckoo ⟨7, 0, 3⟩).perform ((Op.twoChoice ⟨5, 0x200000, 4⟩).perform (zeroTable gpuHash)) (bucketIndex gpuHash 0) =
        (Op.cuckoo ⟨7, 0, 3⟩).perform (zeroTable gpuHash) (bucketIndex gpuHash 0) ∧
      performAll (zeroTable gpuHash) [.cuckoo ⟨7, 0, 3⟩, .twoChoice ⟨5, 0x200000, 4⟩] =
        performAll (zeroTable gpuHash) [.twoChoice ⟨5, 0x200000, 4⟩, .cuckoo ⟨7, 0, 3⟩] := by
  obtain ⟨outside, inside, merges⟩ := @regions_independent gpuHash
  have first : (Op.cuckoo ⟨7, 0, 3⟩).region gpuHash = 0 := by decide +kernel
  have second : (Op.twoChoice ⟨5, 0x200000, 4⟩).region gpuHash = 1 := by decide +kernel
  have own : region (bucketIndex gpuHash 0) = 0 := by decide +kernel
  have away : region (bucketIndex gpuHash 0x200000) = 1 := by decide +kernel
  refine ⟨?_, ?_, ?_⟩
  · apply outside
    rw [away, first]
    decide
  · apply inside
    · intro b here
      apply outside
      rw [here, first, second]
      decide
    · rw [own, first]
  · apply merges [.cuckoo ⟨7, 0, 3⟩] [.twoChoice ⟨5, 0x200000, 4⟩]
    · intro earlier here later there
      rw [List.mem_singleton.mp here, List.mem_singleton.mp there, first, second]
      decide
    · exact .left _ (.right _ .nil)
    · exact .right _ (.left _ .nil)

end Interleavings

end MegaKV.Hash
