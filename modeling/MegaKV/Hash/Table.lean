import MegaKV.Library.Bits

namespace MegaKV.Hash

abbrev Sign := BitVec 32
abbrev Loc := BitVec 32
abbrev HashWord := BitVec 32

/-- `ELEM_NUM_P` with the bounds `gpu_hash_insert` asserts. -/
structure Geometry where
  elemNumP : Nat
  positive : 0 < elemNumP
  small : elemNumP < 5

def gpuHash : Geometry := ⟨3, by decide, by decide⟩

def elemSizeP : Nat := 3
def memP : Nat := 30
def iblockP : Nat := 3
def maxCuckooNum : Nat := 5

namespace Geometry

variable (g : Geometry)

def elemNum : Nat := 2 ^ g.elemNumP
def bucP : Nat := g.elemNumP + elemSizeP
def bucNum : Nat := 2 ^ (memP - g.bucP)
def hashMask : HashWord := (1 <<< (memP - g.bucP)) - 1
def blockHashMask : HashWord := (1 <<< (memP - g.bucP - iblockP)) - 1

abbrev Lane := Fin g.elemNum
abbrev Index := Fin g.bucNum

theorem elemNum_pos : 0 < g.elemNum := Nat.two_pow_pos _

theorem elemNum_le : g.elemNum ≤ 16 :=
  Nat.pow_le_pow_right (n := 2) (by decide) (Nat.le_of_lt_succ g.small)

/-- The low bits of a word, as every `& ((1 << ELEM_NUM_P) - 1)` of the kernels takes them. -/
def lane (n : Nat) : g.Lane :=
  ⟨n &&& (g.elemNum - 1), by
    have bound : n &&& (g.elemNum - 1) ≤ g.elemNum - 1 := Nat.and_le_right
    have := g.elemNum_pos
    omega⟩

theorem lane_val (n : Nat) : (g.lane n).val = n % g.elemNum := Nat.and_two_pow_sub_one_eq_mod n _

end Geometry

theorem mask_toNat (bits : Nat) (bound : bits < 32) :
    ((1 <<< bits : HashWord) - 1).toNat = 2 ^ bits - 1 := by
  have small : 2 ^ bits < 2 ^ 32 := Nat.pow_lt_pow_right (by decide) bound
  have positive := Nat.two_pow_pos bits
  have shifted : (1 <<< bits : HashWord).toNat = 2 ^ bits := by
    simpa [Nat.one_shiftLeft] using small
  rw [BitVec.toNat_sub, shifted]
  simp only [BitVec.ofNat_eq_ofNat, BitVec.toNat_ofNat]
  omega

section Buckets

variable (g : Geometry)

theorem hashMask_toNat : g.hashMask.toNat = g.bucNum - 1 :=
  mask_toNat _ (by simp only [memP]; omega)

theorem blockHashMask_toNat : g.blockHashMask.toNat = 2 ^ (memP - g.bucP - iblockP) - 1 :=
  mask_toNat _ (by simp only [memP]; omega)

def bucketIndex (hash : HashWord) : g.Index :=
  ⟨(hash &&& g.hashMask).toNat, by
    have bound : (hash &&& g.hashMask).toNat ≤ g.hashMask.toNat := by
      rw [BitVec.toNat_and]
      exact Nat.and_le_right
    have positive : 0 < g.bucNum := Nat.two_pow_pos _
    rw [hashMask_toNat] at bound
    omega⟩

/-- The alternative bucket keeps the insert-block bits of the hash and mixes the signature into
    the rest. -/
def secondHash (hash : HashWord) (sig : Sign) : HashWord :=
  (((hash ^^^ sig) &&& g.blockHashMask) ||| (hash &&& ~~~g.blockHashMask)) &&& g.hashMask

def secondIndex (hash : HashWord) (sig : Sign) : g.Index := bucketIndex g (secondHash g hash sig)

structure Bucket where
  sig : g.Lane → Sign
  loc : g.Lane → Loc

abbrev Table := g.Index → Bucket g

structure SElem where
  sig : Sign
  hash : HashWord
  deriving DecidableEq, Repr

structure IElem where
  sig : Sign
  hash : HashWord
  loc : Loc
  deriving DecidableEq, Repr

abbrev DElem := IElem

def zeroTable : Table g := fun _ => ⟨fun _ => 0, fun _ => 0⟩

end Buckets

section Slots

variable {g : Geometry}

def setLoc (table : Table g) (b : g.Index) (simdLane : g.Lane) (loc : Loc) : Table g :=
  Function.update table b { table b with loc := Function.update (table b).loc simdLane loc }

def setSig (table : Table g) (b : g.Index) (simdLane : g.Lane) (sig : Sign) : Table g :=
  Function.update table b { table b with sig := Function.update (table b).sig simdLane sig }

def entry (table : Table g) (slot : g.Index × g.Lane) : Sign × Loc :=
  ((table slot.1).sig slot.2, (table slot.1).loc slot.2)

theorem entry_setLoc (table : Table g) (b : g.Index) (simdLane : g.Lane) (loc : Loc) :
    entry (setLoc table b simdLane loc) =
      Function.update (entry table) (b, simdLane) ((table b).sig simdLane, loc) := by
  funext ⟨bucket, slot⟩
  by_cases same : bucket = b
  · subst same
    by_cases hit : slot = simdLane
    · subst hit
      simp [entry, setLoc]
    · simp [entry, setLoc, hit]
  · simp [entry, setLoc, same]

theorem entry_setSig (table : Table g) (b : g.Index) (simdLane : g.Lane) (sig : Sign) :
    entry (setSig table b simdLane sig) =
      Function.update (entry table) (b, simdLane) (sig, (table b).loc simdLane) := by
  funext ⟨bucket, slot⟩
  by_cases same : bucket = b
  · subst same
    by_cases hit : slot = simdLane
    · subst hit
      simp [entry, setSig]
    · simp [entry, setSig, hit]
  · simp [entry, setSig, same]

end Slots

end MegaKV.Hash
