import MegaKV.Sender.Plain
import MegaKV.Slab.Calls

namespace MegaKV.Sender

open Slab

section Decoders

def locClass (loc : Hash.Loc) : Nat := (loc >>> (locBits - slabIdBits)).toNat

def locOffset (loc : Hash.Loc) : Nat := ((loc <<< slabIdBits) >>> slabIdBits).toNat

/-- `slab_loc_to_ptr` with its two assertions. -/
def slabLocToPtrAsserts (m : Memory) (loc : Hash.Loc) : Except Halt Ptr :=
  if powerLargest < locClass loc then .error .assertion
  else if perslab * (m.slabclass (locClass loc)).slabs ≤ locOffset loc then .error .assertion
  else .ok (slabLocToPtr m loc)

theorem locClass_ofNat {id o : Nat} (valid : id ≤ powerLargest) (inside : o < 2 ^ 29) :
    locClass (BitVec.ofNat 32 (id * 2 ^ 29 + o)) = id := by
  have small : id ≤ 7 := valid
  have shift : (BitVec.ofNat 32 (id * 2 ^ 29 + o) >>> (locBits - slabIdBits)).toNat =
      (id * 2 ^ 29 + o) % 2 ^ 32 / 2 ^ 29 := by
    rw [BitVec.toNat_ushiftRight, BitVec.toNat_ofNat, Nat.shiftRight_eq_div_pow]
    rfl
  unfold locClass
  rw [shift]
  omega

theorem locOffset_ofNat {id o : Nat} (inside : o < 2 ^ 29) : locOffset (BitVec.ofNat 32 (id * 2 ^ 29 + o)) = o := by
  have shift : ((BitVec.ofNat 32 (id * 2 ^ 29 + o) <<< slabIdBits) >>> slabIdBits).toNat =
      (id * 2 ^ 29 + o) % 2 ^ 32 * 2 ^ 3 % 2 ^ 32 / 2 ^ 3 := by
    rw [BitVec.toNat_ushiftRight, BitVec.toNat_shiftLeft, BitVec.toNat_ofNat, Nat.shiftRight_eq_div_pow,
      Nat.shiftLeft_eq]
    rfl
  unfold locOffset
  rw [shift]
  omega

end Decoders

section Codec

/-- The location an item carries leads back to it, whichever decoder reads it. -/
structure Coded (m : Memory) (id o : Nat) (loc : Nat) : Prop where
  sum : loc = id * 2 ^ (locBits - slabIdBits) + o
  word : loc < 2 ^ locBits
  number : locClass (BitVec.ofNat 32 loc) = id
  offset : locOffset (BitVec.ofNat 32 loc) = o
  asserted : ((loc <<< slabIdBits) % 2 ^ 32) >>> slabIdBits = o
  slab : locOffset (BitVec.ofNat 32 loc) / 2 ^ perslabBits < (m.slabclass id).slabs
  ptr : slabLocToPtrAsserts m (BitVec.ofNat 32 loc) = .ok (m.item id o)
  get : (itemGet m (BitVec.ofNat 32 loc)).map Prod.fst = some (m.item id o)

theorem item_coded {m : Memory} (sound : m.Sound) {id o : Nat} (inside : m.Inside id o) :
    Coded m id o (m.heap (m.item id o)).loc := by
  have small : id ≤ 7 := inside.1
  have bound := sound.offset_lt inside
  have word : o < 2 ^ 29 := Nat.lt_trans bound (by decide)
  have sum := sound.loc id o inside
  have number := locClass_ofNat inside.1 word
  have offset := @locOffset_ofNat id o word
  have pointer : slabLocToPtr m (BitVec.ofNat 32 (id * 2 ^ 29 + o)) = m.item id o := by
    change itemAt (m.slabclass (locClass _)) (locClass _) (locOffset _) = _
    rw [number, offset]
    rfl
  rw [sum]
  refine ⟨rfl, ?_, number, offset, ?_, ?_, ?_, ?_⟩
  · simp only [locBits]
    omega
  · rw [Nat.shiftLeft_eq, Nat.shiftRight_eq_div_pow]
    simp only [slabIdBits]
    omega
  · rw [offset, Nat.div_lt_iff_lt_mul (Nat.two_pow_pos _), Nat.mul_comm]
    exact inside.2
  · unfold slabLocToPtrAsserts
    rw [number, offset, if_neg (Nat.not_lt.mpr inside.1), if_neg (Nat.not_le.mpr inside.2), pointer]
  · change (if locOffset _ < perslab * (m.slabclass (locClass _)).slabs then _ else _ : Option _).map Prod.fst = _
    rw [number, offset, if_pos inside.2, pointer]
    rfl

/-- Over every history of allocations each item's location is its own and leads back to it. -/
theorem loc_codec {Worker : Type} [DecidableEq Worker] {calls : List Call} {s : CallState Worker}
    (run : CallRun Worker calls s) :
    (∀ id o, s.memory.Inside id o → Coded s.memory id o (s.memory.heap (s.memory.item id o)).loc) ∧
      (∀ id o other p, s.memory.Inside id o → s.memory.Inside other p →
        (s.memory.heap (s.memory.item id o)).loc = (s.memory.heap (s.memory.item other p)).loc → id = other ∧ o = p) ∧
      ∀ id ≤ powerLargest, perslab * (s.memory.slabclass id).slabs ≤ 2 ^ (locBits - slabIdBits) := by
  have sound := run.sound.memory
  refine ⟨fun id o inside => item_coded sound inside, ?_, ?_⟩
  · intro id o other p left right same
    have first := item_coded sound left
    have second := item_coded sound right
    rw [same] at first
    exact ⟨first.number.symm.trans second.number, first.offset.symm.trans second.offset⟩
  · intro id valid
    have slabs := sound.slabs id
    have size := sound.size id
    have current := (sound.reached id).valid.currentSize
    simp only [perslab, perslabBits, locBits, slabIdBits]
    omega

theorem loc_codec_start :
    Coded firstMemory 0 1 (firstMemory.heap (firstMemory.item 0 1)).loc ∧
      (∀ id o other p, firstMemory.Inside id o → firstMemory.Inside other p →
        (firstMemory.heap (firstMemory.item id o)).loc = (firstMemory.heap (firstMemory.item other p)).loc →
          id = other ∧ o = p) ∧
      ∀ id ≤ powerLargest, perslab * (firstMemory.slabclass id).slabs ≤ 2 ^ (locBits - slabIdBits) := by
  have run := enteredState_run.allocate 0 ampleSupply 0 (some ⟨0, 0⟩) firstMemory rfl startMemory_alloc
  obtain ⟨coded, distinct, bounded⟩ := loc_codec run
  exact ⟨coded 0 1 ⟨by decide, by decide⟩, distinct, bounded⟩

end Codec

end MegaKV.Sender
