import MegaKV.Hash.Kernel

namespace MegaKV.Hash

section Candidates

variable (g : Geometry)

/-- The two buckets `hash_search` and `hash_delete` look into. -/
def Candidate (elem : IElem) (b : g.Index) : Prop :=
  b = bucketIndex g elem.hash ∨ b = secondIndex g elem.hash elem.sig

def SameBlock (left right : Sign) : Prop := left &&& g.blockHashMask = right &&& g.blockHashMask

theorem bucketIndex_eq_iff (left right : HashWord) :
    bucketIndex g left = bucketIndex g right ↔ left &&& g.hashMask = right &&& g.hashMask := by
  rw [Fin.ext_iff]
  change (left &&& g.hashMask).toNat = (right &&& g.hashMask).toNat ↔ _
  exact BitVec.toNat_inj

theorem hashMask_bit (i : Nat) : g.hashMask.getLsbD i = decide (i < memP - g.bucP) := by
  rw [← BitVec.testBit_toNat, hashMask_toNat]
  exact Nat.testBit_two_pow_sub_one _ i

theorem blockHashMask_bit (i : Nat) : g.blockHashMask.getLsbD i = decide (i < memP - g.bucP - iblockP) := by
  rw [← BitVec.testBit_toNat, blockHashMask_toNat]
  exact Nat.testBit_two_pow_sub_one _ i

theorem block_bit_hash (i : Nat) (block : g.blockHashMask.getLsbD i = true) : g.hashMask.getLsbD i = true := by
  rw [blockHashMask_bit] at block
  rw [hashMask_bit]
  simp only [decide_eq_true_eq] at block ⊢
  omega

theorem masked_bit {left right : HashWord} (same : left &&& g.hashMask = right &&& g.hashMask) (i : Nat)
    (inside : g.hashMask.getLsbD i = true) : left.getLsbD i = right.getLsbD i := by
  have bits := congrArg (fun word => word.getLsbD i) same
  simpa [BitVec.getLsbD_and, inside] using bits

theorem secondHash_bit (hash : HashWord) (sig : Sign) (i : Nat) (word : i < 32) :
    (secondHash g hash sig).getLsbD i =
      (g.hashMask.getLsbD i && (hash.getLsbD i ^^ (sig.getLsbD i && g.blockHashMask.getLsbD i))) := by
  simp only [secondHash, BitVec.getLsbD_and, BitVec.getLsbD_or, BitVec.getLsbD_xor, BitVec.getLsbD_not,
    word, decide_true, Bool.true_and]
  cases hash.getLsbD i <;> cases sig.getLsbD i <;> cases g.blockHashMask.getLsbD i <;>
    cases g.hashMask.getLsbD i <;> rfl

theorem secondIndex_congr {left right : HashWord} (sig : Sign)
    (same : bucketIndex g left = bucketIndex g right) :
    secondIndex g left sig = secondIndex g right sig := by
  rw [bucketIndex_eq_iff] at same
  apply congrArg (bucketIndex g)
  apply BitVec.eq_of_getLsbD_eq
  intro i word
  rw [secondHash_bit g left sig i word, secondHash_bit g right sig i word]
  by_cases inside : g.hashMask.getLsbD i = true
  · rw [masked_bit g same i inside]
  · simp [inside]

theorem secondIndex_of_second {left right : HashWord} (sig : Sign)
    (same : bucketIndex g left = secondIndex g right sig) :
    secondIndex g left sig = bucketIndex g right := by
  rw [secondIndex_congr g sig same, secondIndex, bucketIndex_eq_iff]
  apply BitVec.eq_of_getLsbD_eq
  intro i word
  simp only [BitVec.getLsbD_and, secondHash_bit g _ sig i word]
  cases g.hashMask.getLsbD i <;> cases right.getLsbD i <;> cases sig.getLsbD i <;>
    cases g.blockHashMask.getLsbD i <;> rfl

theorem sameBlock_bit {left right : Sign} (same : SameBlock g left right) (i : Nat) :
    (left.getLsbD i && g.blockHashMask.getLsbD i) = (right.getLsbD i && g.blockHashMask.getLsbD i) := by
  have bits := congrArg (fun word => word.getLsbD i) same
  simpa only [BitVec.getLsbD_and] using bits

theorem secondIndex_sameBlock (hash : HashWord) {left right : Sign} (same : SameBlock g left right) :
    secondIndex g hash left = secondIndex g hash right := by
  apply congrArg (bucketIndex g)
  apply BitVec.eq_of_getLsbD_eq
  intro i word
  rw [secondHash_bit g hash left i word, secondHash_bit g hash right i word, sameBlock_bit g same]

theorem secondIndex_inj (hash : HashWord) {left right : Sign}
    (same : secondIndex g hash left = secondIndex g hash right) : SameBlock g left right := by
  rw [secondIndex, secondIndex, bucketIndex_eq_iff] at same
  apply BitVec.eq_of_getLsbD_eq
  intro i word
  rw [BitVec.getLsbD_and, BitVec.getLsbD_and]
  by_cases block : g.blockHashMask.getLsbD i = true
  · have inside := block_bit_hash g i block
    have bits := masked_bit g same i inside
    rw [secondHash_bit g hash left i word, secondHash_bit g hash right i word] at bits
    simpa [inside, block] using bits
  · simp [block]

theorem secondIndex_zeroBlock (hash : HashWord) {sig : Sign} (zero : SameBlock g sig 0) :
    secondIndex g hash sig = bucketIndex g hash := by
  rw [secondIndex_sameBlock g hash zero, secondIndex, bucketIndex_eq_iff]
  apply BitVec.eq_of_getLsbD_eq
  intro i word
  rw [BitVec.getLsbD_and, BitVec.getLsbD_and, secondHash_bit g hash 0 i word]
  cases g.hashMask.getLsbD i <;> simp

end Candidates

section Homes

variable {g : Geometry}

/-- The pair was inserted by an element for which `b` is a candidate bucket. -/
def Home (inserted : List IElem) (pair : Sign × Loc) (b : g.Index) : Prop :=
  ∃ elem ∈ inserted, elem.sig = pair.1 ∧ elem.loc = pair.2 ∧ Candidate g elem b

def Placed (inserted : List IElem) (table : Table g) : Prop :=
  ∀ b simdLane, (table b).sig simdLane ≠ 0 → Home inserted (entry table (b, simdLane)) b

theorem Home.append {inserted : List IElem} {pair : Sign × Loc} {b : g.Index} (home : Home inserted pair b)
    (elem : IElem) : Home (inserted ++ [elem]) pair b := by
  obtain ⟨origin, member, same⟩ := home
  exact ⟨origin, List.mem_append_left _ member, same⟩

theorem Placed.update {inserted : List IElem} {before after : Table g} {b : g.Index} {simdLane : g.Lane}
    {pair : Sign × Loc} (placed : Placed inserted before) (home : Home inserted pair b)
    (updated : entry after = Function.update (entry before) (b, simdLane) pair) : Placed inserted after := by
  intro bucket slot nonzero
  by_cases same : (bucket, slot) = (b, simdLane)
  · rw [updated, same, Function.update_self]
    cases same
    exact home
  · have kept : entry after (bucket, slot) = entry before (bucket, slot) := by
      rw [updated, Function.update_of_ne same]
    rw [kept]
    apply placed bucket slot
    change (entry before (bucket, slot)).1 ≠ 0
    rw [← kept]
    exact nonzero

theorem Placed.setLoc {inserted : List IElem} {table : Table g} {b : g.Index} {simdLane : g.Lane} {sig : Sign}
    {loc : Loc} (placed : Placed inserted table) (held : (table b).sig simdLane = sig)
    (home : Home inserted (sig, loc) b) : Placed inserted (setLoc table b simdLane loc) := by
  apply placed.update home
  rw [entry_setLoc, held]

theorem Placed.putElem {inserted : List IElem} {table : Table g} {b : g.Index} {simdLane : g.Lane} {sig : Sign}
    {loc : Loc} (placed : Placed inserted table) (home : Home inserted (sig, loc) b) :
    Placed inserted (putElem table b simdLane sig loc) :=
  placed.update home (entry_putElem table b simdLane sig loc)

/-- A chain whose carried element belongs into the bucket it is aimed at. -/
structure Aimed (inserted : List IElem) (elem : IElem) (carry : Carry g) : Prop where
  placed : Placed inserted carry.table
  home : Home inserted (carry.sig, carry.loc) (carry.target g elem)

theorem Aimed.settled {inserted : List IElem} {elem : IElem} {carry : Carry g}
    (aimed : Aimed inserted elem carry) (left : Nat) (room : carry.found elem ≠ .full) :
    Placed inserted (cuckooEvict elem left carry) := by
  cases found : carry.found elem with
  | held simdLane =>
    rw [cuckooEvict_held found]
    exact aimed.placed.setLoc (probe_held found) aimed.home
  | empty simdLane =>
    rw [cuckooEvict_empty found]
    exact aimed.placed.putElem aimed.home
  | full => exact absurd found room

theorem Aimed.evict_placed {inserted : List IElem} {elem : IElem} {carry : Carry g}
    (aimed : Aimed inserted elem carry) : Placed inserted (carry.evict elem).table :=
  aimed.placed.putElem aimed.home

theorem Aimed.victim_home {inserted : List IElem} {elem : IElem} {carry : Carry g}
    (aimed : Aimed inserted elem carry) (full : carry.found elem = .full) :
    Home inserted ((carry.evict elem).sig, (carry.evict elem).loc) (carry.target g elem) :=
  aimed.placed _ _ ((probe_full_iff _ _ _).mp full (majorLane g elem.sig)).2

/-- A victim whose block bits are those of the element that replaces it is carried back to the
    bucket it was taken from. -/
theorem Aimed.evict_sameBlock {inserted : List IElem} {elem : IElem} {carry : Carry g}
    (aimed : Aimed inserted elem carry) (full : carry.found elem = .full)
    (same : SameBlock g (carry.evict elem).sig carry.sig) : Aimed inserted elem (carry.evict elem) := by
  refine ⟨aimed.evict_placed, ?_⟩
  rw [Carry.target, secondIndex_sameBlock g elem.hash same]
  exact aimed.victim_home full

/-- An element without block bits evicts from the first bucket, whose hash the loop still uses. -/
theorem Aimed.evict_zeroBlock {inserted : List IElem} {elem : IElem} {carry : Carry g}
    (aimed : Aimed inserted elem carry) (full : carry.found elem = .full)
    (zero : SameBlock g carry.sig 0) : Aimed inserted elem (carry.evict elem) := by
  refine ⟨aimed.evict_placed, ?_⟩
  obtain ⟨origin, member, sig, loc, candidate⟩ := aimed.victim_home full
  simp only at sig
  refine ⟨origin, member, sig, loc, ?_⟩
  rw [Carry.target, secondIndex_zeroBlock g elem.hash zero] at candidate
  rcases candidate with first | second
  · right
    rw [Carry.target, sig]
    exact secondIndex_congr g _ first
  · left
    rw [Carry.target, ← sig]
    exact secondIndex_of_second g _ second

theorem evict_back {elem : IElem} {carry : Carry g} (same : SameBlock g (carry.evict elem).sig carry.sig) :
    ((carry.evict elem).evict elem).sig = carry.sig := by
  have target : (carry.evict elem).target g elem = carry.target g elem :=
    secondIndex_sameBlock g elem.hash same
  have stored : entry (carry.evict elem).table (carry.target g elem, majorLane g elem.sig) =
      (carry.sig, carry.loc) := by
    simp only [Carry.evict, entry_putElem, Function.update_self]
  change ((carry.evict elem).table ((carry.evict elem).target g elem)).sig (majorLane g elem.sig) = _
  rw [target]
  exact congrArg Prod.fst stored

/-- Once carried element and victim agree in their block bits, the two change places until the
    loop ends. -/
theorem Aimed.swaps {inserted : List IElem} {elem : IElem} {carry : Carry g} (left : Nat)
    (aimed : Aimed inserted elem carry) (same : SameBlock g (carry.evict elem).sig carry.sig) :
    Placed inserted (cuckooEvict elem left carry) := by
  induction left generalizing carry with
  | zero =>
    by_cases full : carry.found elem = .full
    · rw [cuckooEvict_last full]
      exact aimed.evict_placed
    · exact aimed.settled 0 full
  | succ left ih =>
    by_cases full : carry.found elem = .full
    · rw [cuckooEvict_next full]
      apply ih (aimed.evict_sameBlock full same)
      rw [evict_back same]
      exact same.symm
    · exact aimed.settled (left + 1) full

/-- The insertions whose evictions, if any, return every victim to a bucket of its own: a
    candidate bucket has room; or the victim agrees with the new signature in the block bits; or
    the new signature has no block bits, so that its two buckets are one, and the bucket the
    victim is carried to has room or holds a victim that agrees with it in turn. -/
def EvictsHome (table : Table g) (elem : IElem) : Prop :=
  let chosen := majorLane g elem.sig
  let victim := (table (secondIndex g elem.hash elem.sig)).sig chosen
  let beyond := table (secondIndex g elem.hash victim)
  firstFound table elem ≠ .full ∨ (firstCarry table elem).found elem ≠ .full ∨
    SameBlock g victim elem.sig ∨
    (SameBlock g elem.sig 0 ∧
      (probe beyond (mlMask g elem.sig) victim ≠ .full ∨ SameBlock g (beyond.sig chosen) victim))

theorem evict_table_other {elem : IElem} {carry : Carry g} {b : g.Index} (other : b ≠ carry.target g elem) :
    (carry.evict elem).table b = carry.table b := by
  simp [Carry.evict, putElem, setLoc, setSig, other]

theorem Aimed.chain_placed {inserted : List IElem} {table : Table g} {elem : IElem}
    (aimed : Aimed inserted elem (firstCarry table elem)) (first : firstFound table elem = .full)
    (evicts : EvictsHome table elem) :
    Placed inserted (cuckooEvict elem maxCuckooNum (firstCarry table elem)) := by
  rcases evicts with room | room | same | ⟨zero, further⟩
  · exact absurd first room
  · exact aimed.settled maxCuckooNum room
  · exact aimed.swaps maxCuckooNum same
  · by_cases full : (firstCarry table elem).found elem = .full
    · by_cases same : SameBlock g ((firstCarry table elem).evict elem).sig elem.sig
      · exact aimed.swaps maxCuckooNum same
      · rw [maxCuckooNum, cuckooEvict_next full]
        have next := aimed.evict_zeroBlock full zero
        have other : ((firstCarry table elem).evict elem).target g elem ≠
            (firstCarry table elem).target g elem := by
          intro equal
          apply same
          exact secondIndex_inj g elem.hash equal
        have untouched := evict_table_other other
        rcases further with room | again
        · apply next.settled 4
          rw [Carry.found, untouched]
          exact room
        · apply next.swaps 4
          change SameBlock g (((firstCarry table elem).evict elem).table _ |>.sig _) _
          rw [untouched]
          exact again
    · exact aimed.settled maxCuckooNum full

theorem Placed.append {inserted : List IElem} {table : Table g} (placed : Placed inserted table) (elem : IElem) :
    Placed (inserted ++ [elem]) table :=
  fun b simdLane nonzero => (placed b simdLane nonzero).append elem

theorem Placed.hashInsertCuckoo {inserted : List IElem} {table : Table g} (placed : Placed inserted table)
    (elem : IElem) (evicts : EvictsHome table elem) :
    Placed (inserted ++ [elem]) (hashInsertCuckoo table elem) := by
  have before := placed.append elem
  have member : elem ∈ inserted ++ [elem] := by simp
  unfold MegaKV.Hash.hashInsertCuckoo
  by_cases zero : elem.sig = 0 ∧ elem.loc = 0
  · rw [if_pos zero]
    exact before
  · rw [if_neg zero]
    cases found : firstFound table elem with
    | held simdLane => exact before.setLoc (probe_held found) ⟨elem, member, rfl, rfl, .inl rfl⟩
    | empty simdLane => exact before.putElem ⟨elem, member, rfl, rfl, .inl rfl⟩
    | full =>
      have aimed : Aimed (inserted ++ [elem]) elem (firstCarry table elem) :=
        ⟨before, elem, member, rfl, rfl, .inr rfl⟩
      exact aimed.chain_placed found evicts

variable (g) in
inductive CuckooRun (condition : Table g → IElem → Prop) : List IElem → Table g → Prop where
  | zero : CuckooRun condition [] (zeroTable g)
  | insert {inserted : List IElem} {table : Table g} (elem : IElem) (run : CuckooRun condition inserted table)
      (nonzero : elem.sig ≠ 0) (meets : condition table elem) :
      CuckooRun condition (inserted ++ [elem]) (hashInsertCuckoo table elem)

theorem placed_of_home_run {inserted : List IElem} {table : Table g}
    (run : CuckooRun g EvictsHome inserted table) : Placed inserted table := by
  induction run with
  | zero =>
    intro b simdLane nonzero
    exact absurd rfl nonzero
  | insert elem _ _ meets placed => exact placed.hashInsertCuckoo elem meets

end Homes

section Stacks

def stackedElem (hash : HashWord) (base n : Nat) : IElem :=
  ⟨BitVec.ofNat 32 (n + 1), hash, BitVec.ofNat 32 (base + n + 1)⟩

theorem stackedElem_sig (hash : HashWord) (base n : Nat) (bound : n < 8) : (stackedElem hash base n).sig ≠ 0 := by
  intro zero
  have value := congrArg BitVec.toNat zero
  simp only [stackedElem, BitVec.toNat_ofNat, BitVec.ofNat_eq_ofNat] at value
  omega

theorem stackedElem_loc (hash : HashWord) (base n : Nat) (bound : base + n < 16) : (stackedElem hash base n).loc ≠ 0 := by
  intro zero
  have value := congrArg BitVec.toNat zero
  simp only [stackedElem, BitVec.toNat_ofNat, BitVec.ofNat_eq_ofNat] at value
  omega

def stacked (table : Table gpuHash) (hash : HashWord) (base : Nat) : Nat → Table gpuHash
  | 0 => table
  | n + 1 => putElem (stacked table hash base n) (bucketIndex gpuHash hash) (gpuHash.lane (n + 1))
      (stackedElem hash base n).sig (stackedElem hash base n).loc

def firstStack : Table gpuHash := stacked (zeroTable gpuHash) 0 0 8

theorem stacked_run {condition : Table gpuHash → IElem → Prop} {inserted : List IElem} {table : Table gpuHash}
    (hash : HashWord) (base : Nat) (run : CuckooRun gpuHash condition inserted table)
    (empty : ∀ n < 8, firstFound (stacked table hash base n) (stackedElem hash base n) =
      .empty (gpuHash.lane (n + 1)))
    (meets : ∀ n < 8, condition (stacked table hash base n) (stackedElem hash base n)) (n : Nat) (bound : n ≤ 8) :
    CuckooRun gpuHash condition (inserted ++ (List.range n).map (stackedElem hash base))
      (stacked table hash base n) := by
  induction n with
  | zero => simpa [stacked] using run
  | succ n ih =>
    have nonzero := stackedElem_sig hash base n (by omega)
    have next := CuckooRun.insert (stackedElem hash base n) (ih (by omega)) nonzero (meets n (by omega))
    rw [hashInsertCuckoo_empty nonzero (empty n (by omega))] at next
    rw [List.range_succ, List.map_append, ← List.append_assoc]
    exact next

theorem evictsHome_empty {table : Table gpuHash} {elem : IElem} {simdLane : gpuHash.Lane}
    (empty : firstFound table elem = .empty simdLane) : EvictsHome table elem := by
  left
  simp [empty]

def returnStacks : Table gpuHash := stacked firstStack 8 8 8

/-- Its signature agrees with the victim 8 in slot 0 of bucket 8 but for a bit above the mask. -/
def returningElem : IElem := ⟨2097160, 0, 17⟩

def returningRun : List IElem :=
  (List.range 8).map (stackedElem 0 0) ++ (List.range 8).map (stackedElem 8 8) ++ [returningElem]

/-- Both buckets are full, and the victim and the new element change places until the loop ends. -/
theorem placed_of_home_run_swapped :
    firstFound returnStacks returningElem = .full ∧
      (firstCarry returnStacks returningElem).found returningElem = .full ∧
      Placed returningRun (hashInsertCuckoo returnStacks returningElem) := by
  have empty : ∀ n < 8, firstFound (stacked (zeroTable gpuHash) 0 0 n) (stackedElem 0 0 n) =
      .empty (gpuHash.lane (n + 1)) := by decide +kernel
  have vacant : ∀ n < 8, firstFound (stacked firstStack 8 8 n) (stackedElem 8 8 n) =
      .empty (gpuHash.lane (n + 1)) := by decide +kernel
  have first : CuckooRun gpuHash EvictsHome _ firstStack :=
    stacked_run 0 0 .zero empty (fun n bound => evictsHome_empty (empty n bound)) 8 (by decide)
  have second : CuckooRun gpuHash EvictsHome _ returnStacks :=
    stacked_run 8 8 first vacant (fun n bound => evictsHome_empty (vacant n bound)) 8 (by decide)
  have victim : (returnStacks (secondIndex gpuHash 0 2097160)).sig (majorLane gpuHash 2097160) = 8 := by decide +kernel
  have same : SameBlock gpuHash ((returnStacks (secondIndex gpuHash 0 2097160)).sig (majorLane gpuHash 2097160)) 2097160 := by
    rw [victim, SameBlock]
    decide
  have evicts : EvictsHome returnStacks returningElem := .inr (.inr (.inl same))
  exact ⟨by decide +kernel, by decide +kernel, placed_of_home_run (second.insert returningElem (by decide) evicts)⟩

end Stacks

section Misplacement

def bothStacks : Table gpuHash := stacked firstStack 16 8 8

def misplacingElem : IElem := ⟨16, 0, 17⟩

def misplacedRun : List IElem :=
  (List.range 8).map (stackedElem 0 0) ++ (List.range 8).map (stackedElem 16 8) ++ [misplacingElem]

theorem misplacedRun_reaches :
    CuckooRun gpuHash (fun _ _ => True) misplacedRun (hashInsertCuckoo bothStacks misplacingElem) := by
  have first : CuckooRun gpuHash (fun _ _ => True) _ firstStack :=
    stacked_run 0 0 .zero (by decide +kernel) (fun _ _ => trivial) 8 (by decide)
  have second : CuckooRun gpuHash (fun _ _ => True) _ bothStacks :=
    stacked_run 16 8 first (by decide +kernel) (fun _ _ => trivial) 8 (by decide)
  exact second.insert misplacingElem (by decide) trivial

/-- The victim 8 of bucket 16 is carried to bucket 8, found from the hash of the new element. -/
theorem misplacedRun_entry :
    entry (hashInsertCuckoo bothStacks misplacingElem) (bucketIndex gpuHash 8, gpuHash.lane 0) = (8, 16) := by
  have first : firstFound bothStacks misplacingElem = .full := by decide +kernel
  have full : (firstCarry bothStacks misplacingElem).found misplacingElem = .full := by decide +kernel
  have next : ((firstCarry bothStacks misplacingElem).evict misplacingElem).found misplacingElem =
      .empty (gpuHash.lane 0) := by decide +kernel
  have target : ((firstCarry bothStacks misplacingElem).evict misplacingElem).target gpuHash misplacingElem =
      bucketIndex gpuHash 8 := by decide +kernel
  have nonzero : misplacingElem.sig ≠ 0 := by decide
  simp only [hashInsertCuckoo, nonzero, false_and, ite_false, first, maxCuckooNum, cuckooEvict_next full,
    cuckooEvict_empty next, target]
  rw [entry_putElem, Function.update_self]
  decide +kernel

theorem cuckoo_run_misplaces :
    ¬ ∀ (inserted : List IElem) (table : Table gpuHash),
      CuckooRun gpuHash (fun _ _ => True) inserted table → Placed inserted table := by
  intro placed
  have stored := misplacedRun_entry
  have sig : (hashInsertCuckoo bothStacks misplacingElem (bucketIndex gpuHash 8)).sig (gpuHash.lane 0) = 8 :=
    by simpa only [entry] using congrArg Prod.fst stored
  have home := placed _ _ misplacedRun_reaches (bucketIndex gpuHash 8) (gpuHash.lane 0) (by rw [sig]; decide)
  rw [stored] at home
  obtain ⟨elem, member, sig, loc, candidate⟩ := home
  have none : ∀ elem ∈ misplacedRun, elem.sig = 8 → elem.loc = 16 →
      bucketIndex gpuHash 8 ≠ bucketIndex gpuHash elem.hash ∧
      bucketIndex gpuHash 8 ≠ secondIndex gpuHash elem.hash elem.sig := by decide +kernel
  rcases candidate with first | second
  · exact (none elem member sig loc).1 first
  · exact (none elem member sig loc).2 second

end Misplacement

end MegaKV.Hash
