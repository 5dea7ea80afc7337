import MegaKV.Hash.Phantom
import MegaKV.Hash.Regions

namespace MegaKV.Hash

open Receiver

variable (g : Geometry)

section Candidates

theorem secondHash_mix (hash : HashWord) (sig : Sign) :
    secondHash g hash sig &&& g.hashMask = (hash ^^^ (sig &&& g.blockHashMask)) &&& g.hashMask := by
  apply BitVec.eq_of_getLsbD_eq
  intro i word
  rw [BitVec.getLsbD_and, BitVec.getLsbD_and, secondHash_bit g hash sig i word, BitVec.getLsbD_xor, BitVec.getLsbD_and]
  cases g.hashMask.getLsbD i
  · rw [Bool.and_false, Bool.and_false]
  · rw [Bool.true_and]

/-- Two hashes mixed with two signatures lead to one bucket if they differ by what the signatures
    differ by. -/
theorem secondIndex_eq_iff (left right : HashWord) (leftSig rightSig : Sign) :
    secondIndex g left leftSig = secondIndex g right rightSig ↔
      (left ^^^ right) &&& g.hashMask = (leftSig ^^^ rightSig) &&& g.blockHashMask := by
  rw [secondIndex, secondIndex, bucketIndex_eq_iff, secondHash_mix, secondHash_mix]
  have bits (i : Nat) :
      (((left ^^^ (leftSig &&& g.blockHashMask)) &&& g.hashMask).getLsbD i =
          ((right ^^^ (rightSig &&& g.blockHashMask)) &&& g.hashMask).getLsbD i) ↔
        ((left ^^^ right) &&& g.hashMask).getLsbD i = ((leftSig ^^^ rightSig) &&& g.blockHashMask).getLsbD i := by
    have inside := block_bit_hash g i
    simp only [BitVec.getLsbD_and, BitVec.getLsbD_xor]
    generalize left.getLsbD i = l, right.getLsbD i = r, leftSig.getLsbD i = ls, rightSig.getLsbD i = rs,
      g.hashMask.getLsbD i = mask, g.blockHashMask.getLsbD i = block at *
    revert l r ls rs mask block
    decide
  constructor
  · intro same
    apply BitVec.eq_of_getLsbD_eq
    intro i _
    exact (bits i).mp (congrArg (fun word => word.getLsbD i) same)
  · intro same
    apply BitVec.eq_of_getLsbD_eq
    intro i _
    exact (bits i).mpr (congrArg (fun word => word.getLsbD i) same)

variable {g}

theorem candidate_first (elem : IElem) : Candidate g elem (secondIndex g elem.hash 0) :=
  .inl (secondIndex_zeroBlock g elem.hash rfl)

theorem candidate_mix {elem : IElem} {b : g.Index} (candidate : Candidate g elem b) :
    b = secondIndex g elem.hash 0 ∨ b = secondIndex g elem.hash elem.sig :=
  candidate.imp_left fun home => home.trans (secondIndex_zeroBlock g elem.hash rfl).symm

end Candidates

section Blocks

variable {g}

/-- What the signatures of two elements can change about the distance of their buckets. -/
def mixes (left right : Sign) : List Sign := [0, left, right, left ^^^ right]

theorem mem_mixes {left right mix : Sign} :
    mix ∈ mixes left right ↔ mix = 0 ∨ mix = left ∨ mix = right ∨ mix = left ^^^ right := by
  simp only [mixes, List.mem_cons, List.not_mem_nil, or_false]

theorem candidates_meet_iff (left right : IElem) :
    (∃ b, Candidate g left b ∧ Candidate g right b) ↔
      ∃ mix ∈ mixes left.sig right.sig, (left.hash ^^^ right.hash) &&& g.hashMask = mix &&& g.blockHashMask := by
  have meet (leftMix rightMix : Sign) := secondIndex_eq_iff g left.hash right.hash leftMix rightMix
  constructor
  · intro given
    rcases given with ⟨b, first, second⟩
    rcases candidate_mix first with rfl | rfl <;> rcases candidate_mix second with same | same
    · exact ⟨0 ^^^ 0, by simp [mixes], (meet _ _).mp same⟩
    · exact ⟨0 ^^^ right.sig, by simp [mixes], (meet _ _).mp same⟩
    · exact ⟨left.sig ^^^ 0, by simp [mixes], (meet _ _).mp same⟩
    · exact ⟨left.sig ^^^ right.sig, by simp [mixes], (meet _ _).mp same⟩
  · intro given
    rcases given with ⟨mix, member, same⟩
    rcases mem_mixes.mp member with rfl | rfl | rfl | rfl
    · have same := (meet 0 0).mpr same
      exact ⟨_, candidate_first left, same ▸ candidate_first right⟩
    · have same := (meet left.sig 0).mpr (by rw [same]; simp)
      exact ⟨_, .inr rfl, same ▸ candidate_first right⟩
    · have same := (meet 0 right.sig).mpr (by rw [same]; simp)
      exact ⟨_, candidate_first left, .inr same⟩
    · exact ⟨_, .inr rfl, .inr ((meet left.sig right.sig).mpr same)⟩

theorem Candidate.region {elem : IElem} {b : g.Index} (candidate : Candidate g elem b) :
    region b = hashRegion g elem.hash := by
  rcases candidate with rfl | rfl
  · exact first_region elem.hash
  · exact second_region elem.hash elem.sig

def Apart (g : Geometry) (left right : IElem) : Prop := ∀ b : g.Index, ¬(Candidate g left b ∧ Candidate g right b)

theorem apart_of_regions {left right : IElem} (differ : hashRegion g left.hash ≠ hashRegion g right.hash) :
    Apart g left right :=
  fun _ ⟨first, second⟩ => differ (first.region.symm.trans second.region)

/-- The insert buffers keep two elements apart when the masked hashes do: the buffer is chosen by
    bits of the hash that the masks remove. -/
theorem insert_blocks_apart_iff (first second : BitVec 64) (firstLoc secondLoc : Loc) :
    (insertBlockId (sigHash first) ≠ insertBlockId (sigHash second) →
        Apart g (keyElem first firstLoc) (keyElem second secondLoc)) ↔
      insertBlockId (sigHash first) = insertBlockId (sigHash second) ∨
        ∀ mix ∈ mixes (sigSign first) (sigSign second),
          (sigHash first ^^^ sigHash second) &&& g.hashMask ≠ mix &&& g.blockHashMask := by
  have meet := @candidates_meet_iff g (keyElem first firstLoc) (keyElem second secondLoc)
  have apart : Apart g (keyElem first firstLoc) (keyElem second secondLoc) ↔
      ∀ mix ∈ mixes (sigSign first) (sigSign second),
        (sigHash first ^^^ sigHash second) &&& g.hashMask ≠ mix &&& g.blockHashMask := by
    constructor
    · intro apart mix member same
      obtain ⟨b, both⟩ := meet.mpr ⟨mix, member, same⟩
      exact apart b both
    · intro free b both
      obtain ⟨mix, member, same⟩ := meet.mp ⟨b, both⟩
      exact free mix member same
  rw [apart, imp_iff_not_or, not_not]

/-- Keys of different insert buffers that have their first bucket in common. -/
theorem insert_blocks_overlap :
    ¬ ∀ (first second : BitVec 64) (firstLoc secondLoc : Loc),
      insertBlockId (sigHash first) ≠ insertBlockId (sigHash second) →
        Apart gpuHash (keyElem first firstLoc) (keyElem second secondLoc) := by
  intro apart
  have blocks : insertBlockId (sigHash 1) ≠ insertBlockId (sigHash 0x2000000000000002) := by decide +kernel
  apply apart 1 0x2000000000000002 1 2 blocks (bucketIndex gpuHash 0)
  have shared : bucketIndex gpuHash (sigHash 1) = bucketIndex gpuHash 0 ∧
      bucketIndex gpuHash (sigHash 0x2000000000000002) = bucketIndex gpuHash 0 := by decide +kernel
  exact ⟨.inl shared.1.symm, .inl shared.2.symm⟩

end Blocks

end MegaKV.Hash
