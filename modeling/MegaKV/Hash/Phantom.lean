import MegaKV.Hash.Sources
import MegaKV.Receiver.Packet

namespace MegaKV.Hash

open Receiver

variable {g : Geometry}

/-- The element `process_packet` makes of a key of 8 bytes. -/
def keyElem (key : BitVec 64) (loc : Loc) : IElem := ⟨sigSign key, sigHash key, loc⟩

def keyQuery (key : BitVec 64) : SElem := ⟨sigSign key, sigHash key⟩

inductive FromKeys : Op → Prop where
  | insert (key : BitVec 64) (loc : Loc) : FromKeys (.cuckoo (keyElem key loc))
  | delete (key : BitVec 64) (loc : Loc) : FromKeys (.delete (keyElem key loc))

/-- Every non-zero location written for the query was inserted with its signature. -/
def NoPhantom (elems : List IElem) (table : Table g) (query : SElem) : Prop :=
  ∀ loc, loc ≠ 0 → Visible table query loc → Source elems query.sig loc

/-- The deletion is about to find its element in a bucket of the query, with a location that has not been inserted
    with signature 0. -/
def LeavesBehind (elems : List IElem) (table : Table g) (elem : DElem) (query : SElem) : Prop :=
  elem.sig ≠ 0 ∧ elem.loc ≠ 0 ∧ ¬Source elems 0 elem.loc ∧ ∃ slot, Queried g query slot.1 ∧ Finds table elem slot

section Steps

variable {table : Table g} {elem : IElem} {slot : g.Index × g.Lane}

/-- A slot that an insertion leaves without signature is as before, or the element had none. -/
theorem insert_unsigned (empty : (entry (hashInsertCuckoo table elem) slot).1 = 0) :
    entry (hashInsertCuckoo table elem) slot = entry table slot ∨
      entry (hashInsertCuckoo table elem) slot = (elem.sig, elem.loc) := by
  let kept := fun after : Table g => ∀ slot, (entry after slot).1 = 0 →
    entry after slot = entry table slot ∨ entry after slot = (elem.sig, elem.loc)
  have written : ∀ (before after : Table g) (place : g.Index × g.Lane) (pair : Sign × Loc), kept before →
      (pair.1 = 0 → pair = (elem.sig, elem.loc)) → entry after = Function.update (entry before) place pair →
      kept after := by
    intro before after place pair ok own updated slot unsigned
    rw [updated] at unsigned ⊢
    by_cases here : slot = place
    · subst here
      rw [Function.update_self] at unsigned ⊢
      exact .inr (own unsigned)
    · rw [Function.update_of_ne here] at unsigned ⊢
      exact ok slot unsigned
  have unchanged : kept table := fun _ _ => .inl rfl
  suffices kept (hashInsertCuckoo table elem) from this slot empty
  unfold MegaKV.Hash.hashInsertCuckoo
  split
  · exact unchanged
  · split
    · rename_i simdLane found
      apply written table _ _ _ unchanged (fun _ => rfl)
      rw [entry_setLoc, probe_held found]
    · exact written table _ _ _ unchanged (fun _ => rfl) (entry_putElem ..)
    · apply @cuckooEvict_rule g elem kept
        (fun carry => kept carry.table ∧ (carry.sig = 0 → (carry.sig, carry.loc) = (elem.sig, elem.loc)))
      · rintro carry simdLane ⟨ok, own⟩ found
        apply written carry.table _ _ (carry.sig, carry.loc) ok own
        rw [entry_setLoc, probe_held found]
      · rintro carry simdLane ⟨ok, own⟩ _
        exact written carry.table _ _ (carry.sig, carry.loc) ok own (entry_putElem ..)
      · rintro carry ⟨ok, own⟩ full
        have after : kept (carry.evict elem).table :=
          written carry.table _ _ (carry.sig, carry.loc) ok own (entry_putElem ..)
        exact ⟨after, after, fun zero => absurd zero (evict_sig_ne_zero full)⟩
      · exact ⟨unchanged, fun _ => rfl⟩

end Steps

section Prefixes

theorem keys_sourced {ops : List Op} (made : ∀ op ∈ ops, FromKeys op) :
    Sourced (fun sig => sig ≠ 0) (inserted ops) (performAll (zeroTable g) ops) := by
  induction ops using List.reverseRecOn with
  | nil => exact sourced_zero _ _
  | append_singleton ops op ih =>
    have sourced : Sourced (fun sig => sig ≠ 0) (inserted ops) (performAll (zeroTable g) ops) :=
      ih fun op member => made op (List.mem_append_left _ member)
    rw [inserted_append, performAll_concat]
    cases made op (List.mem_append_right _ (List.mem_singleton.mpr rfl)) with
    | insert key loc => exact sourced.hashInsertCuckoo (fun _ nonzero => nonzero) _
    | delete key loc => exact (sourced.append []).hashDelete (fun nonzero => nonzero rfl) _

/-- In the buckets of a query, slots without signature hold no location but what was inserted with signature 0. -/
theorem unsigned_sourced {ops : List Op} (made : ∀ op ∈ ops, FromKeys op) {query : SElem}
    (leaves : ∀ before elem, before ++ [.delete elem] <+: ops →
      ¬LeavesBehind (inserted before) (performAll (zeroTable g) before) elem query)
    {slot : g.Index × g.Lane} (queried : Queried g query slot.1)
    (empty : (entry (performAll (zeroTable g) ops) slot).1 = 0) :
    (entry (performAll (zeroTable g) ops) slot).2 = 0 ∨
      Source (inserted ops) 0 (entry (performAll (zeroTable g) ops) slot).2 := by
  induction ops using List.reverseRecOn with
  | nil => exact .inl rfl
  | append_singleton ops op ih =>
    have before := ih (fun op member => made op (List.mem_append_left _ member)) fun first elem start =>
      leaves first elem (start.trans (List.prefix_append _ _))
    have kept : ∀ more, (entry (performAll (zeroTable g) ops) slot).1 = 0 →
        (entry (performAll (zeroTable g) ops) slot).2 = 0 ∨
          Source (inserted ops ++ more) 0 (entry (performAll (zeroTable g) ops) slot).2 :=
      fun more unsigned => (before unsigned).imp_right fun source => source.append more
    rw [performAll_concat] at empty ⊢
    rw [inserted_append]
    cases made op (List.mem_append_right _ (List.mem_singleton.mpr rfl)) with
    | insert key loc =>
      rcases insert_unsigned empty with same | new
      · change (entry (hashInsertCuckoo _ _) slot).1 = 0 at empty
        change (entry (hashInsertCuckoo _ _) slot).2 = 0 ∨ Source _ 0 (entry (hashInsertCuckoo _ _) slot).2
        rw [same] at empty ⊢
        exact kept _ empty
      · change (entry (hashInsertCuckoo _ _) slot).1 = 0 at empty
        change (entry (hashInsertCuckoo _ _) slot).2 = 0 ∨ Source _ 0 (entry (hashInsertCuckoo _ _) slot).2
        rw [new] at empty ⊢
        right
        have last := Source.last (inserted ops) (keyElem key loc)
        rw [show (keyElem key loc).sig = 0 from empty] at last
        exact last
    | delete key loc =>
      change (entry (hashDelete _ _) slot).1 = 0 at empty
      change (entry (hashDelete _ _) slot).2 = 0 ∨ Source _ 0 (entry (hashDelete _ _) slot).2
      by_cases finds : Finds (performAll (zeroTable g) ops) (keyElem key loc) slot
      · by_cases unsigned : (keyElem key loc).sig = 0
        · have same : entry (performAll (zeroTable g) ops) slot = (0, (keyElem key loc).loc) := by
            rw [finds.1, unsigned]
          rw [hashDelete_found finds, ← same]
          exact kept _ (congrArg Prod.fst same)
        · rw [hashDelete_found finds]
          by_contra neither
          rw [not_or] at neither
          apply leaves ops (keyElem key loc) (List.prefix_refl _)
          refine ⟨unsigned, neither.1, fun source => neither.2 (source.append _), slot, queried, finds⟩
      · rw [hashDelete_missed finds] at empty ⊢
        exact kept _ empty

end Prefixes

/-- A query with signature 0 matches every empty slot. Its results are right all along exactly when no deletion takes
    a pair out of its buckets, since that leaves the location in the slot. -/
theorem no_phantom_iff {ops : List Op} (made : ∀ op ∈ ops, FromKeys op) (key : BitVec 64) :
    (∀ before, before <+: ops → NoPhantom (inserted before) (performAll (zeroTable g) before) (keyQuery key)) ↔
      sigSign key ≠ 0 ∨ ∀ before elem, before ++ [.delete elem] <+: ops →
        ¬LeavesBehind (inserted before) (performAll (zeroTable g) before) elem (keyQuery key) := by
  constructor
  · intro sound
    by_cases zero : sigSign key = 0
    · right
      rintro before elem start ⟨_, nonzero, foreign, slot, queried, finds⟩
      have stored : entry (performAll (zeroTable g) (before ++ [.delete elem])) slot = (sigSign key, elem.loc) := by
        rw [performAll_concat, zero]
        exact hashDelete_found finds
      have source := sound _ start elem.loc nonzero ((visible_iff nonzero).mpr ⟨slot, queried, stored⟩)
      rw [inserted_append, Op.inserts, Option.toList_none, List.append_nil] at source
      change Source _ (sigSign key) _ at source
      rw [zero] at source
      exact foreign source
    · exact .inl zero
  · intro either before start loc nonzero visible
    obtain ⟨slot, queried, stored⟩ := (visible_iff nonzero).mp visible
    change entry _ slot = (sigSign key, loc) at stored
    change Source _ (sigSign key) loc
    have made : ∀ op ∈ before, FromKeys op := fun op member => made op (start.subset member)
    by_cases zero : sigSign key = 0
    · have leaves := either.resolve_left fun other => other zero
      have source := unsigned_sourced made (fun first elem sooner => leaves first elem (sooner.trans start)) queried
        (by rw [stored]; exact zero)
      rw [stored] at source
      rw [zero]
      exact source.resolve_left nonzero
    · have source := keys_sourced made slot (by rw [stored]; exact zero)
      rw [stored] at source
      exact source.resolve_left fun equal => zero (congrArg Prod.fst equal)

section Deleted

def deletedKey : BitVec 64 := 5

def insertedRun : List Op := [] ++ [.cuckoo (keyElem deletedKey 9)]

def deletedRun : List Op := insertedRun ++ [.delete (keyElem deletedKey 9)]

def deletedSlot : gpuHash.Index × gpuHash.Lane := (bucketIndex gpuHash (keyElem deletedKey 9).hash, gpuHash.lane 5)

theorem deletedRun_made : ∀ op ∈ deletedRun, FromKeys op := by
  intro op member
  rcases List.mem_append.mp member with first | last
  · rw [List.mem_singleton.mp first]
    exact .insert deletedKey 9
  · rw [List.mem_singleton.mp last]
    exact .delete deletedKey 9

/-- The insertion has come into a slot of the query for the key 0. -/
theorem deletedRun_found : Queried gpuHash (keyQuery 0) deletedSlot.1 ∧
    Finds (performAll (zeroTable gpuHash) insertedRun) (keyElem deletedKey 9) deletedSlot := by
  have place : deletedSlot.1 = bucketIndex gpuHash (keyQuery 0).hash := by decide +kernel
  have empty : firstFound (zeroTable gpuHash) (keyElem deletedKey 9) = .empty (gpuHash.lane 5) := by decide +kernel
  have nonzero : (keyElem deletedKey 9).sig ≠ 0 := by decide +kernel
  refine ⟨.inl place, ?_, .inl rfl⟩
  rw [insertedRun, performAll_concat, performAll_nil, Op.perform, hashInsertCuckoo_empty nonzero empty]
  exact (congrFun (entry_putElem ..) deletedSlot).trans (Function.update_self _ _ _)

theorem foreign_nine : ¬Source (inserted insertedRun) 0 9 := by
  rintro ⟨elem, member, zero, _⟩
  rw [List.mem_singleton.mp member] at zero
  exact absurd zero (by decide +kernel)

theorem no_phantom_iff_deleted :
    (∀ before, before <+: deletedRun →
      NoPhantom (inserted before) (performAll (zeroTable gpuHash) before) (keyQuery deletedKey)) ∧
    ¬∀ before, before <+: deletedRun →
      NoPhantom (inserted before) (performAll (zeroTable gpuHash) before) (keyQuery 0) := by
  refine ⟨(no_phantom_iff deletedRun_made deletedKey).mpr (.inl (by decide +kernel)), fun sound => ?_⟩
  rcases (no_phantom_iff deletedRun_made 0).mp sound with signed | leaves
  · exact signed (by decide +kernel)
  · apply leaves insertedRun (keyElem deletedKey 9) (List.prefix_refl _)
    exact ⟨by decide +kernel, by decide +kernel, foreign_nine, deletedSlot, deletedRun_found⟩

/-- The key 0 finds the location of the deleted key 5. -/
theorem deleted_found_by_zero :
    ¬∀ ops : List Op, (∀ op ∈ ops, FromKeys op) →
      ∀ key, NoPhantom (inserted ops) (performAll (zeroTable gpuHash) ops) (keyQuery key) := by
  intro sound
  obtain ⟨queried, finds⟩ := deletedRun_found
  have nine : (9 : Loc) ≠ 0 := by decide
  have unsigned : (keyQuery 0).sig = 0 := by decide +kernel
  have last : performAll (zeroTable gpuHash) deletedRun =
      hashDelete (performAll (zeroTable gpuHash) insertedRun) (keyElem deletedKey 9) := performAll_concat _ insertedRun _
  have cleared := hashDelete_found finds
  rw [← last] at cleared
  have stored : entry (performAll (zeroTable gpuHash) deletedRun) deletedSlot = ((keyQuery 0).sig, 9) :=
    cleared.trans (congrArg (fun sig => (sig, 9)) unsigned.symm)
  exact foreign_nine (sound deletedRun deletedRun_made 0 9 nine ((visible_iff nine).mpr ⟨deletedSlot, queried, stored⟩))

end Deleted

end MegaKV.Hash
