import MegaKV.Hash.Kernel

namespace MegaKV.Hash

variable {g : Geometry}

def occupied (pair : Sign × Loc) : Multiset (Sign × Loc) := if pair.1 = 0 then 0 else {pair}

def contents (table : Table g) : Multiset (Sign × Loc) := ∑ slot, occupied (entry table slot)

theorem occupied_zero (pair : Sign × Loc) (zero : pair.1 = 0) : occupied pair = 0 := if_pos zero

theorem occupied_pair (pair : Sign × Loc) (nonzero : pair.1 ≠ 0) : occupied pair = {pair} := if_neg nonzero

theorem contents_update {before after : Table g} {slot : g.Index × g.Lane} {pair : Sign × Loc}
    (updated : entry after = Function.update (entry before) slot pair) :
    contents after + occupied (entry before slot) = contents before + occupied pair := by
  have terms : (fun s => occupied (entry after s)) =
      Function.update (fun s => occupied (entry before s)) slot (occupied pair) := by
    rw [updated]
    exact Function.comp_update occupied (entry before) slot pair
  simp only [contents, terms]
  rw [Finset.sum_update_of_mem (Finset.mem_univ slot), ← Finset.add_sum_erase _ _ (Finset.mem_univ slot),
    Finset.sdiff_singleton_eq_erase]
  abel

theorem contents_setLoc {table : Table g} {b : g.Index} {simdLane : g.Lane} {sig : Sign} (loc : Loc)
    (held : (table b).sig simdLane = sig) (nonzero : sig ≠ 0) :
    contents (setLoc table b simdLane loc) + {(sig, (table b).loc simdLane)} =
      contents table + {(sig, loc)} := by
  have updated := contents_update (entry_setLoc table b simdLane loc)
  simp only [entry, held] at updated
  rwa [occupied_pair ((sig, _)) nonzero, occupied_pair ((sig, _)) nonzero] at updated

theorem contents_putElem_empty {table : Table g} {b : g.Index} {simdLane : g.Lane} {sig : Sign} (loc : Loc)
    (empty : (table b).sig simdLane = 0) (nonzero : sig ≠ 0) :
    contents (putElem table b simdLane sig loc) = contents table + {(sig, loc)} := by
  have updated := contents_update (entry_putElem table b simdLane sig loc)
  rwa [occupied_zero (entry table (b, simdLane)) empty, add_zero,
    occupied_pair ((sig, loc)) nonzero] at updated

theorem contents_evict {elem : IElem} {carry : Carry g} (full : carry.found elem = .full)
    (nonzero : carry.sig ≠ 0) :
    contents (carry.evict elem).table + {((carry.evict elem).sig, (carry.evict elem).loc)} =
      contents carry.table + {(carry.sig, carry.loc)} := by
  have victim := ((probe_full_iff _ _ _).mp full (majorLane g elem.sig)).2
  have updated := contents_update
    (entry_putElem carry.table (carry.target g elem) (majorLane g elem.sig) carry.sig carry.loc)
  rwa [occupied_pair (entry carry.table (carry.target g elem, majorLane g elem.sig)) victim,
    occupied_pair ((carry.sig, carry.loc)) nonzero] at updated

inductive ChainDrops (elem : IElem) (left : Nat) (carry : Carry g) : Sign × Loc → Prop where
  | held (round : Carry g) (simdLane : g.Lane) (member : round ∈ cuckooRounds elem left carry)
      (found : round.found elem = .held simdLane) :
      ChainDrops elem left carry (round.sig, (round.table (round.target g elem)).loc simdLane)
  | exhausted (last : Carry g) (rounds : (cuckooRounds elem left carry).length = left + 1)
      (full : ∀ round ∈ cuckooRounds elem left carry, round.found elem = .full)
      (ending : (cuckooRounds elem left carry).getLast? = some last) :
      ChainDrops elem left carry ((last.evict elem).sig, (last.evict elem).loc)

theorem cuckooRounds_full {elem : IElem} {carry : Carry g} (left : Nat) (full : carry.found elem = .full) :
    cuckooRounds elem (left + 1) carry = carry :: cuckooRounds elem left (carry.evict elem) := by
  simp only [cuckooRounds, full]

theorem self_mem_cuckooRounds (elem : IElem) (left : Nat) (carry : Carry g) :
    carry ∈ cuckooRounds elem left carry := by
  cases left with
  | zero => simp [cuckooRounds]
  | succ left =>
    unfold cuckooRounds
    split <;> simp

theorem ChainDrops.later {elem : IElem} {left : Nat} {carry : Carry g} {pair : Sign × Loc}
    (full : carry.found elem = .full) (drops : ChainDrops elem left (carry.evict elem) pair) :
    ChainDrops elem (left + 1) carry pair := by
  have rounds := cuckooRounds_full left full
  cases drops with
  | held round simdLane member found =>
    exact .held round simdLane (by rw [rounds]; exact List.mem_cons_of_mem _ member) found
  | exhausted last length all ending =>
    refine .exhausted last (by rw [rounds, List.length_cons, length]) ?_ ?_
    · intro round member
      rw [rounds] at member
      rcases List.mem_cons.mp member with rfl | member
      · exact full
      · exact all round member
    · rw [rounds, List.getLast?_cons, ending]
      rfl

theorem settled_conserves (elem : IElem) (left : Nat) (carry : Carry g) (nonzero : carry.sig ≠ 0)
    (room : carry.found elem ≠ .full) :
    ∃ dropped : Multiset (Sign × Loc),
      contents (cuckooEvict elem left carry) + dropped =
        contents carry.table + {(carry.sig, carry.loc)} ∧
      Multiset.card dropped ≤ 1 ∧ ∀ pair ∈ dropped, ChainDrops elem left carry pair := by
  cases found : carry.found elem with
  | held simdLane =>
    rw [cuckooEvict_held found]
    refine ⟨_, contents_setLoc carry.loc (probe_held found) nonzero, by simp, ?_⟩
    intro pair member
    rw [Multiset.mem_singleton] at member
    subst member
    exact .held carry simdLane (self_mem_cuckooRounds elem left carry) found
  | empty simdLane =>
    rw [cuckooEvict_empty found]
    refine ⟨0, ?_, by simp, by simp⟩
    rw [add_zero]
    exact contents_putElem_empty carry.loc (probe_empty found).1 nonzero
  | full => exact absurd found room

theorem cuckooEvict_conserves (elem : IElem) (left : Nat) (carry : Carry g) (nonzero : carry.sig ≠ 0) :
    ∃ dropped : Multiset (Sign × Loc),
      contents (cuckooEvict elem left carry) + dropped =
        contents carry.table + {(carry.sig, carry.loc)} ∧
      Multiset.card dropped ≤ 1 ∧ ∀ pair ∈ dropped, ChainDrops elem left carry pair := by
  induction left generalizing carry with
  | zero =>
    by_cases full : carry.found elem = .full
    · rw [cuckooEvict_last full]
      refine ⟨_, contents_evict full nonzero, by simp, ?_⟩
      intro pair member
      rw [Multiset.mem_singleton] at member
      subst member
      exact .exhausted carry rfl (by simpa [cuckooRounds] using full) rfl
    · exact settled_conserves elem 0 carry nonzero full
  | succ left ih =>
    by_cases full : carry.found elem = .full
    · rw [cuckooEvict_next full]
      obtain ⟨dropped, balance, small, drops⟩ := ih (carry.evict elem) (evict_sig_ne_zero full)
      refine ⟨dropped, ?_, small, fun pair member => (drops pair member).later full⟩
      rw [balance, contents_evict full nonzero]
    · exact settled_conserves elem (left + 1) carry nonzero full

/-- How one insertion can lose a pair: the location of a signature already held is overwritten,
    or every round of the second-bucket loop met a full bucket. -/
inductive InsertDrops (table : Table g) (elem : IElem) : Sign × Loc → Prop where
  | first (simdLane : g.Lane) (found : firstFound table elem = .held simdLane) :
      InsertDrops table elem (elem.sig, (table (bucketIndex g elem.hash)).loc simdLane)
  | chain (pair : Sign × Loc) (found : firstFound table elem = .full)
      (drops : ChainDrops elem maxCuckooNum (firstCarry table elem) pair) : InsertDrops table elem pair

theorem hashInsertCuckoo_balance (table : Table g) (elem : IElem) (nonzero : elem.sig ≠ 0) :
    ∃ dropped : Multiset (Sign × Loc),
      contents (hashInsertCuckoo table elem) + dropped = contents table + {(elem.sig, elem.loc)} ∧
      Multiset.card dropped ≤ 1 ∧ ∀ pair ∈ dropped, InsertDrops table elem pair := by
  simp only [hashInsertCuckoo, nonzero, false_and, ite_false]
  split
  · rename_i simdLane found
    refine ⟨_, contents_setLoc elem.loc (probe_held found) nonzero, by simp, ?_⟩
    intro pair member
    rw [Multiset.mem_singleton] at member
    subst member
    exact .first simdLane found
  · rename_i simdLane found
    refine ⟨0, ?_, by simp, by simp⟩
    rw [add_zero]
    exact contents_putElem_empty elem.loc (probe_empty found).1 nonzero
  · rename_i found
    obtain ⟨dropped, balance, small, drops⟩ :=
      cuckooEvict_conserves elem maxCuckooNum (firstCarry table elem) nonzero
    exact ⟨dropped, balance, small, fun pair member => .chain pair found (drops pair member)⟩

/-- An insertion adds its own pair and loses at most one other; signatures and locations are
    never paired anew. -/
theorem hashInsertCuckoo_conserves (table : Table g) (elem : IElem) (nonzero : elem.sig ≠ 0) :
    (∃ dropped : Multiset (Sign × Loc),
      contents (hashInsertCuckoo table elem) + dropped = contents table + {(elem.sig, elem.loc)} ∧
      Multiset.card dropped ≤ 1 ∧ ∀ pair ∈ dropped, InsertDrops table elem pair) ∧
    ∀ pair ∈ contents (hashInsertCuckoo table elem),
      pair ∈ contents table ∨ pair = (elem.sig, elem.loc) := by
  obtain ⟨dropped, balance, small, drops⟩ := hashInsertCuckoo_balance table elem nonzero
  refine ⟨⟨dropped, balance, small, drops⟩, ?_⟩
  intro pair member
  have present : pair ∈ contents table + {(elem.sig, elem.loc)} := by
    rw [← balance]
    exact Multiset.mem_add.mpr (.inl member)
  simpa using present

theorem hashInsertCuckoo_conserves_zero :
    (7 : Sign) ≠ 0 ∧ ∃ dropped : Multiset (Sign × Loc),
      contents (hashInsertCuckoo (zeroTable gpuHash) ⟨7, 0, 3⟩) + dropped =
        contents (zeroTable gpuHash) + {(7, 3)} ∧
      Multiset.card dropped ≤ 1 ∧ ∀ pair ∈ dropped, InsertDrops (zeroTable gpuHash) ⟨7, 0, 3⟩ pair :=
  ⟨by decide, (hashInsertCuckoo_conserves (zeroTable gpuHash) ⟨7, 0, 3⟩ (by decide)).1⟩

end MegaKV.Hash
