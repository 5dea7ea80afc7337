import MegaKV.Hash.Lanes
import MegaKV.Library.Cyclic

namespace MegaKV.Hash

open Library

variable {g : Geometry}

section Slots

/-- The lowest slot with the signature; without one, the first empty slot going cyclically from the
    signature modulo `ELEM_NUM`. -/
def plainSlot (b : Bucket g) (sig : Sign) : Option g.Lane :=
  match cyclicFind 0 fun slot => b.sig slot == sig with
  | some slot => some slot
  | none => cyclicFind (sig.toNat % g.elemNum) fun slot => b.sig slot == 0

theorem mlMask_bit (sig : Sign) (j : Nat) : (mlMask g sig).getLsbD j = decide (j < sig.toNat % g.elemNum) := by
  have small := g.elemNum_le
  have below : sig.toNat % g.elemNum < g.elemNum := Nat.mod_lt _ g.elemNum_pos
  have major : (majorLane g sig).val = sig.toNat % g.elemNum := g.lane_val _
  rw [mlMask, major]
  exact low_mask_bit j (by omega)

theorem matching_finds {b : Bucket g} {sig : Sign} (present : matching b sig ≠ 0) :
    cyclicFind 0 (fun slot => b.sig slot == sig) = some (chosenSimd (matching b sig)) :=
  ffs_finds (ballot_bit _) present (g.lane_val _)

theorem vacant_finds {b : Bucket g} {sig : Sign} (room : vacant b (mlMask g sig) ≠ 0) :
    cyclicFind (sig.toNat % g.elemNum) (fun slot => b.sig slot == 0) = some (chosenSimd (vacant b (mlMask g sig))) := by
  have small := g.elemNum_le
  have below : sig.toNat % g.elemNum < g.elemNum := Nat.mod_lt _ g.elemNum_pos
  exact rotated_finds (ballot_bit fun slot => b.sig slot == 0) elemNum_dvd small (by omega) below (mlMask_bit sig) room
    (g.lane_val _)

theorem matching_misses {b : Bucket g} {sig : Sign} (start : Nat) (absent : matching b sig = 0) :
    cyclicFind start (fun slot => b.sig slot == sig) = none := by
  rw [cyclicFind_eq_none_iff]
  intro slot
  exact beq_false_of_ne ((matching_eq_zero_iff b sig).mp absent slot)

/-- The ballots of a bucket are the plain search. -/
theorem probe_plainSlot (b : Bucket g) (sig : Sign) :
    (∃ slot, probe b (mlMask g sig) sig = .held slot ∧ plainSlot b sig = some slot) ∨
      (∃ slot, probe b (mlMask g sig) sig = .empty slot ∧ plainSlot b sig = some slot) ∨
      (probe b (mlMask g sig) sig = .full ∧ plainSlot b sig = none) := by
  by_cases absent : matching b sig = 0
  · by_cases taken : vacant b (mlMask g sig) = 0
    · have none_empty := (vacant_eq_zero_iff b (mlMask g sig)).mp taken
      refine .inr (.inr ⟨?_, ?_⟩)
      · rw [probe, absent, taken]
        rfl
      · rw [plainSlot, matching_misses 0 absent, matching_misses _ ((matching_eq_zero_iff b 0).mpr none_empty)]
    · refine .inr (.inl ⟨chosenSimd (vacant b (mlMask g sig)), ?_, ?_⟩)
      · rw [probe, if_neg (not_not.mpr absent), if_pos taken]
      · rw [plainSlot, matching_misses 0 absent, vacant_finds taken]
  · refine .inl ⟨chosenSimd (matching b sig), ?_, ?_⟩
    · rw [probe, if_pos absent]
    · rw [plainSlot, matching_finds absent]

end Slots

section Kernels

def HasRoom (b : Bucket g) (sig : Sign) : Prop := ∃ slot, b.sig slot = sig ∨ b.sig slot = 0

/-- The bucket probed first that has the signature or an empty slot. -/
def Deciding (table : Table g) (elem : IElem) (b : g.Index) : Prop :=
  HasRoom (table b) elem.sig ∧ (b = bucketIndex g elem.hash ∨
    (b = secondIndex g elem.hash elem.sig ∧ ¬HasRoom (table (bucketIndex g elem.hash)) elem.sig))

theorem hasRoom_iff (b : Bucket g) (mask : BitVec 32) (sig : Sign) : HasRoom b sig ↔ probe b mask sig ≠ .full := by
  rw [ne_eq, probe_full_iff, not_forall]
  constructor
  · rintro ⟨slot, found⟩
    exact ⟨slot, by tauto⟩
  · rintro ⟨slot, found⟩
    exact ⟨slot, by tauto⟩

/-- The slot that the plain search finds is the one the ballots find. -/
theorem HasRoom.slot {b : Bucket g} {sig : Sign} (room : HasRoom b sig) :
    ∃ slot, plainSlot b sig = some slot ∧
      (probe b (mlMask g sig) sig = .held slot ∨ probe b (mlMask g sig) sig = .empty slot) := by
  rcases probe_plainSlot b sig with ⟨slot, held, plain⟩ | ⟨slot, empty, plain⟩ | ⟨full, _⟩
  · exact ⟨slot, plain, .inl held⟩
  · exact ⟨slot, plain, .inr empty⟩
  · exact absurd full ((hasRoom_iff b (mlMask g sig) sig).mp room)

/-- In a slot that has the signature, writing it again changes nothing. -/
theorem setLoc_held {table : Table g} {b : g.Index} {slot : g.Lane} {sig : Sign} (loc : Loc)
    (held : (table b).sig slot = sig) : setLoc table b slot loc = putElem table b slot sig loc := by
  have same : setSig table b slot sig = table := by
    rw [setSig, ← held, Function.update_eq_self, Function.update_eq_self]
  rw [putElem, same]

theorem insert_first {table : Table g} {elem : IElem} {slot : g.Lane} (nonzero : elem.sig ≠ 0)
    (found : firstFound table elem = .held slot ∨ firstFound table elem = .empty slot) :
    hashInsert2choice table elem = putElem table (bucketIndex g elem.hash) slot elem.sig elem.loc ∧
      hashInsertCuckoo table elem = putElem table (bucketIndex g elem.hash) slot elem.sig elem.loc := by
  rcases found with held | empty
  · rw [← setLoc_held elem.loc (probe_held held), hashInsertCuckoo_held nonzero held]
    simp only [hashInsert2choice, nonzero, false_and, ite_false, held, and_self]
  · rw [hashInsertCuckoo_empty nonzero empty]
    simp only [hashInsert2choice, nonzero, false_and, ite_false, empty, and_self]

theorem insert_second {table : Table g} {elem : IElem} {slot : g.Lane} (nonzero : elem.sig ≠ 0)
    (full : firstFound table elem = .full)
    (found : secondFound table elem = .held slot ∨ secondFound table elem = .empty slot) :
    hashInsert2choice table elem = putElem table (secondIndex g elem.hash elem.sig) slot elem.sig elem.loc ∧
      hashInsertCuckoo table elem = putElem table (secondIndex g elem.hash elem.sig) slot elem.sig elem.loc := by
  have carried : (firstCarry table elem).found elem = secondFound table elem := rfl
  rw [hashInsertCuckoo_full nonzero full]
  rcases found with held | empty
  · rw [← setLoc_held elem.loc (probe_held held), cuckooEvict_held (carried.trans held)]
    refine ⟨?_, rfl⟩
    simp only [hashInsert2choice, nonzero, false_and, ite_false, full, held]
  · rw [cuckooEvict_empty (carried.trans empty)]
    refine ⟨?_, rfl⟩
    simp only [hashInsert2choice, nonzero, false_and, ite_false, full, empty]

/-- While there is room the two kernels are the plain cyclic search, for any lane of the group and
    any number of rounds. -/
theorem inserts_agree (table : Table g) (elem : IElem) (nonzero : elem.sig ≠ 0)
    (room : HasRoom (table (bucketIndex g elem.hash)) elem.sig ∨
      HasRoom (table (secondIndex g elem.hash elem.sig)) elem.sig) :
    ∃ b slot after, Deciding table elem b ∧ plainSlot (table b) elem.sig = some slot ∧
      entry after = Function.update (entry table) (b, slot) (elem.sig, elem.loc) ∧
      hashInsert2choice table elem = after ∧ hashInsertCuckoo table elem = after ∧
      ∀ idx rounds, 0 < rounds → hashInsert2choiceLanes idx rounds table elem = some after ∧
        hashInsertCuckooLanes idx rounds table elem = some after := by
  have inserted : ∃ b slot, Deciding table elem b ∧ plainSlot (table b) elem.sig = some slot ∧
      hashInsert2choice table elem = putElem table b slot elem.sig elem.loc ∧
      hashInsertCuckoo table elem = putElem table b slot elem.sig elem.loc := by
    by_cases first : HasRoom (table (bucketIndex g elem.hash)) elem.sig
    · obtain ⟨slot, plain, found⟩ := first.slot
      exact ⟨_, slot, ⟨first, .inl rfl⟩, plain, insert_first nonzero found⟩
    · have second := room.resolve_left first
      obtain ⟨slot, plain, found⟩ := second.slot
      have full : firstFound table elem = .full := by
        by_contra other
        exact first ((hasRoom_iff _ _ _).mpr other)
      exact ⟨_, slot, ⟨second, .inr ⟨rfl, first⟩⟩, plain, insert_second nonzero full found⟩
  obtain ⟨b, slot, deciding, plain, twoChoice, cuckoo⟩ := inserted
  refine ⟨b, slot, _, deciding, plain, entry_putElem table b slot elem.sig elem.loc, twoChoice, cuckoo, ?_⟩
  intro idx rounds positive
  obtain ⟨more, rfl⟩ : ∃ more, rounds = more + 1 := ⟨rounds - 1, by omega⟩
  rw [hashInsert2choiceLanes_eq, hashInsertCuckooLanes_eq, twoChoice, cuckoo]
  exact ⟨rfl, rfl⟩

/-- Into the zeroed table an element goes at its major location. -/
theorem inserts_agree_zero :
    ∃ b slot after, Deciding (zeroTable gpuHash) ⟨7, 0, 3⟩ b ∧ plainSlot (zeroTable gpuHash b) 7 = some slot ∧
      entry after = Function.update (entry (zeroTable gpuHash)) (b, slot) (7, 3) ∧
      hashInsert2choice (zeroTable gpuHash) ⟨7, 0, 3⟩ = after ∧ hashInsertCuckoo (zeroTable gpuHash) ⟨7, 0, 3⟩ = after ∧
      ∀ idx rounds, 0 < rounds → hashInsert2choiceLanes idx rounds (zeroTable gpuHash) ⟨7, 0, 3⟩ = some after ∧
        hashInsertCuckooLanes idx rounds (zeroTable gpuHash) ⟨7, 0, 3⟩ = some after :=
  inserts_agree (zeroTable gpuHash) ⟨7, 0, 3⟩ (by decide) (.inl ⟨gpuHash.lane 0, .inr rfl⟩)

end Kernels

end MegaKV.Hash
