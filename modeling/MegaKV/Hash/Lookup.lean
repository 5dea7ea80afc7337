import MegaKV.Hash.Provenance
import MegaKV.Hash.Search

namespace MegaKV.Hash

open Library

variable {g : Geometry} {Out : Type}

section Lookup

/-- The two cells of element `id` hold what a search for `query` writes into zeroed cells. -/
def LookedUp (table : Table g) (query : SElem) (id : Nat) (cells : Nat → Loc) : Prop :=
  ∃ schedule : Schedule g,
    cells (id <<< 1) = lanesWrite (table (bucketIndex g query.hash)) query.sig schedule.first 0 ∧
      cells ((id <<< 1) + 1) = lanesWrite (table (secondIndex g query.hash query.sig)) query.sig schedule.second 0

/-- How far a search in the index `found` has come. -/
def Searching.Looks (found : Table g) (s : Searching g Out) (cells : Nat → Loc) : Prop :=
  let position := s.id <<< 1
  let equal := fun b simdLane => (found b).sig simdLane == s.elem.sig
  let written := lanesWrite (found s.first) s.elem.sig s.schedule.first 0
  match s.point with
  | .sig => cells position = 0 ∧ cells (position + 1) = 0
  | .loc held => held = equal s.first ∧ cells position = 0 ∧ cells (position + 1) = 0
  | .otherSig => cells position = written ∧ cells (position + 1) = 0
  | .otherLoc held => held = equal s.second ∧ cells position = written ∧ cells (position + 1) = 0

variable {found : Table g} {query : SElem} {id : Nat} {cells after : Nat → Loc} {s : Searching g Out}

theorem LookedUp.congr (looked : LookedUp found query id cells) (first : after (id <<< 1) = cells (id <<< 1))
    (second : after ((id <<< 1) + 1) = cells ((id <<< 1) + 1)) : LookedUp found query id after := by
  obtain ⟨schedule, left, right⟩ := looked
  exact ⟨schedule, first.trans left, second.trans right⟩

/-- A signature stored once in the first bucket is found with its location. -/
theorem LookedUp.stored (looked : LookedUp found query id cells) (unique : Unique found) (nonzero : query.sig ≠ 0)
    {simdLane : g.Lane} {loc : Loc} (stored : entry found (bucketIndex g query.hash, simdLane) = (query.sig, loc)) :
    cells (id <<< 1) = loc := by
  obtain ⟨schedule, first, _⟩ := looked
  have single := unique (bucketIndex g query.hash) query.sig nonzero
  rw [first, lanesWrite_held single (congrArg Prod.fst stored)]
  exact congrArg Prod.snd stored

/-- An insertion with room in the first bucket stores its element there. -/
theorem insert_stored {table : Table g} {elem : IElem} (nonzero : elem.sig ≠ 0) (room : firstFound table elem ≠ .full) :
    ∃ simdLane, entry (hashInsertCuckoo table elem) (bucketIndex g elem.hash, simdLane) = (elem.sig, elem.loc) := by
  cases found : firstFound table elem with
  | held simdLane =>
    refine ⟨simdLane, ?_⟩
    rw [hashInsertCuckoo_held nonzero found, entry_setLoc, Function.update_self, probe_held found]
  | empty simdLane =>
    refine ⟨simdLane, ?_⟩
    rw [hashInsertCuckoo_empty nonzero found, entry_putElem, Function.update_self]
  | full => exact absurd found room

theorem first_room {table : Table g} {elem : IElem} {simdLane : g.Lane}
    (room : (table (bucketIndex g elem.hash)).sig simdLane = elem.sig ∨ (table (bucketIndex g elem.hash)).sig simdLane = 0) :
    firstFound table elem ≠ .full := by
  intro full
  obtain ⟨other, used⟩ := (probe_full_iff _ _ _).mp full simdLane
  rcases room with held | empty
  · exact other held
  · exact used empty

theorem Searching.Looks.congr (looks : s.Looks found cells) (first : after (s.id <<< 1) = cells (s.id <<< 1))
    (second : after ((s.id <<< 1) + 1) = cells ((s.id <<< 1) + 1)) : s.Looks found after := by
  unfold Searching.Looks at looks ⊢
  dsimp only at looks ⊢
  rw [first, second]
  exact looks

variable [DecidableEq Out] {device : Device g Out}

/-- A search writes to its own two cells. -/
theorem searching_out_other {array : Out} {place : Nat}
    (different : array ≠ s.out ∨ (place ≠ s.id <<< 1 ∧ place ≠ (s.id <<< 1) + 1)) :
    (s.access device).2.out array place = device.out array place := by
  have first : array ≠ s.out ∨ place ≠ s.id <<< 1 := different.imp_right And.left
  have second : array ≠ s.out ∨ place ≠ (s.id <<< 1) + 1 := different.imp_right And.right
  unfold Searching.access
  split
  · rfl
  · exact write_other _ first
  · rfl
  · exact write_other _ second

/-- A search whose buckets are as in `found` goes on as it would there. -/
theorem searching_looks (agree : AgreeIn (hashRegion g s.elem.hash) found device.table)
    (looks : s.Looks found (device.out s.out)) :
    (∀ next, (s.access device).1 = some next → next.Looks found ((s.access device).2.out s.out)) ∧
      ((s.access device).1 = none → LookedUp found s.elem s.id ((s.access device).2.out s.out)) := by
  have first : found s.first = device.table s.first := agree s.first (first_region s.elem.hash)
  have second : found s.second = device.table s.second := agree s.second (second_region s.elem.hash s.elem.sig)
  have apart : (s.id <<< 1) + 1 ≠ s.id <<< 1 := Nat.succ_ne_self _
  unfold Searching.Looks at looks
  unfold Searching.access
  split
  · rename_i here
    rw [here] at looks
    refine ⟨?_, by rintro ⟨⟩⟩
    rintro next ⟨⟩
    refine ⟨?_, looks⟩
    funext simdLane
    exact congrArg (fun bucket => bucket.sig simdLane == s.elem.sig) first.symm
  · rename_i held here
    rw [here] at looks
    obtain ⟨rfl, zero, other⟩ := looks
    refine ⟨?_, by rintro ⟨⟩⟩
    rintro next ⟨⟩
    refine ⟨?_, ?_⟩
    · dsimp only
      rw [write_self, zero, ← first]
      rfl
    · rw [write_other _ (.inr apart)]
      exact other
  · rename_i here
    rw [here] at looks
    refine ⟨?_, by rintro ⟨⟩⟩
    rintro next ⟨⟩
    refine ⟨?_, looks⟩
    funext simdLane
    exact congrArg (fun bucket => bucket.sig simdLane == s.elem.sig) second.symm
  · rename_i held here
    rw [here] at looks
    obtain ⟨rfl, written, zero⟩ := looks
    refine ⟨by rintro next ⟨⟩, fun _ => ⟨s.schedule, ?_, ?_⟩⟩
    · rw [write_other _ (.inr apart.symm)]
      exact written
    · dsimp only
      rw [write_self, zero, ← second]
      rfl

end Lookup

section Tasks

theorem insertion_elem {i next : Insertion g} {table : Table g} (rest : (i.access table).1 = some next) :
    next.elem = i.elem := by
  have goes := i.goes table
  generalize i.point = point at goes
  generalize (i.access table).1 = left, (i.access table).2 = after at goes rest
  cases goes with
  | leftOut zero => cases rest
  | givesUp chosenSimd found back evicting => cases rest
  | located b chosenSimd found =>
    cases found with
    | free => cases rest
    | last => cases rest
    | victim newSig newLoc =>
      cases rest
      rfl
  | _ =>
    cases rest
    rfl

theorem searching_kept [DecidableEq Out] {s next : Searching g Out} {device : Device g Out}
    (rest : (s.access device).1 = some next) : next.elem = s.elem ∧ next.out = s.out ∧ next.id = s.id := by
  obtain ⟨elem, out, id, schedule, point⟩ := s
  cases point with
  | otherLoc equal => cases rest
  | _ =>
    cases rest
    exact ⟨rfl, rfl, rfl⟩

end Tasks

end MegaKV.Hash
