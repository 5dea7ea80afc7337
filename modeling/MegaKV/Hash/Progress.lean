import MegaKV.Hash.Threads

namespace MegaKV.Hash

open Library

variable {g : Geometry}

section Vacancies

def zeros (b : Bucket g) (counted : g.Lane → Bool) : Nat :=
  (Finset.univ.filter fun simdLane => counted simdLane ∧ b.sig simdLane = 0).card

def emptied (before after : Table g) : Nat :=
  (Finset.univ.filter fun slot : g.Index × g.Lane =>
    (before slot.1).sig slot.2 ≠ 0 ∧ (after slot.1).sig slot.2 = 0).card

def anyLane : g.Lane → Bool := fun _ => true

def butLane (chosenSimd : g.Lane) : g.Lane → Bool := fun simdLane => simdLane ≠ chosenSimd

variable {b : Bucket g} {counted : g.Lane → Bool}

end Vacancies

section Measure

variable (g) in
/-- The accesses an insertion makes at most from a comparison in the second bucket on. -/
def levelBound (cuckooNum : Nat) : Nat := (3 * g.elemNum + 7) * (maxCuckooNum - cuckooNum + 1)

variable (g) in
def evictBound (cuckooNum : Nat) : Nat := 6 + (3 * g.elemNum + 7) * (maxCuckooNum - cuckooNum)

variable (g) in
def afterBound (cuckooNum : Nat) : Found → Nat
  | .victim _ _ => levelBound g (cuckooNum + 1)
  | _ => 0

/-- The slots that an insertion may still try in its loop. One that it has written counts only if it can lose it to
    a zero. -/
def Insertion.tries (i : Insertion g) (table : Table g) : InsertPoint g → Nat
  | .emptyFirst => zeros (table i.first) anyLane
  | .signFirst chosenSimd => zeros (table i.first) (butLane chosenSimd)
  | .backFirst chosenSimd => zeros (table i.first) fun simdLane => butLane chosenSimd simdLane || i.sig ≠ 0
  | .empty => zeros (table i.second) anyLane
  | .sign chosenSimd .free => zeros (table i.second) (butLane chosenSimd)
  | .back chosenSimd .free => zeros (table i.second) fun simdLane => butLane chosenSimd simdLane || i.sig ≠ 0
  | _ => 0

/-- The accesses that an insertion still makes at most besides the tries. -/
def Insertion.rest (i : Insertion g) : InsertPoint g → Nat
  | .compareFirst => 3 * g.elemNum + levelBound g i.cuckooNum + 2
  | .emptyFirst => levelBound g i.cuckooNum + 1
  | .signFirst _ => levelBound g i.cuckooNum + 3
  | .backFirst _ => levelBound g i.cuckooNum + 2
  | .compare => levelBound g i.cuckooNum
  | .empty => evictBound g i.cuckooNum
  | .victimSig => levelBound g (i.cuckooNum + 1) + 5
  | .victimLoc _ => levelBound g (i.cuckooNum + 1) + 4
  | .sign _ .free => evictBound g i.cuckooNum + 2
  | .sign _ found => afterBound g i.cuckooNum found + 3
  | .back _ .free => evictBound g i.cuckooNum + 1
  | .back _ found => afterBound g i.cuckooNum found + 2
  | .put _ _ found => afterBound g i.cuckooNum found + 1

def Insertion.left (i : Insertion g) (table : Table g) : Nat := 3 * i.tries table i.point + i.rest i.point

variable {Out : Type}

def Deletion.left (d : Deletion g) : Nat :=
  match d.point with
  | .voteSig => 8
  | .voteLoc _ => 7
  | .sig _ => 6
  | .loc _ _ => 5
  | .clear _ _ => 4
  | .otherSig => 3
  | .otherLoc _ => 2
  | .otherClear _ => 1

def Searching.left (s : Searching g Out) : Nat :=
  match s.point with
  | .sig => 4
  | .loc _ => 3
  | .otherSig => 2
  | .otherLoc _ => 1

def Task.left (device : Device g Out) : Task g Out → Nat
  | .insert insertion => insertion.left device.table
  | .delete deletion => deletion.left
  | .search searching => searching.left
  | .clear _ _ => 1

end Measure

section Bound

variable {Out Who : Type}

def Work.accesses : Work g Out → Nat
  | .insert _ => 3 * g.elemNum + 2 + (3 * g.elemNum + 7) * (maxCuckooNum + 1)
  | .delete _ => 8
  | .search _ _ _ _ => 4
  | .clear _ _ => 1

variable [DecidableEq Out] [DecidableEq Who]

end Bound

section Calm

variable {Out Who : Type} {i : Insertion g} {table : Table g}

def Work.Calm : Work g Out → Prop
  | .insert elem => elem.sig ≠ 0
  | .delete _ => False
  | _ => True

def Keeping (before after : Table g) : Prop :=
  ∀ b simdLane, (before b).sig simdLane ≠ 0 → (after b).sig simdLane ≠ 0

def SolidFound : Found → Prop
  | .victim newSig _ => newSig ≠ 0
  | _ => True

/-- The victim about to be read is still in its slot. -/
def Insertion.SolidAt (i : Insertion g) (table : Table g) : InsertPoint g → Prop
  | .victimSig => (table i.second).sig (majorLane g i.elem.sig) ≠ 0
  | .victimLoc newSig => newSig ≠ 0
  | .sign _ found => SolidFound found
  | .back _ found => SolidFound found
  | .put _ _ found => SolidFound found
  | _ => True

structure Insertion.Solid (i : Insertion g) (table : Table g) : Prop where
  sig : i.sig ≠ 0
  point : i.SolidAt table i.point

theorem keeping_setSig (table : Table g) (b : g.Index) (simdLane : g.Lane) {sig : Sign} (nonzero : sig ≠ 0) :
    Keeping table (setSig table b simdLane sig) := by
  intro c slot held
  have written := congrArg Prod.fst (congrFun (entry_setSig table b simdLane sig) (c, slot))
  change (setSig table b simdLane sig c).sig slot = _ at written
  rw [written]
  by_cases same : (c, slot) = (b, simdLane)
  · rw [same, Function.update_self]
    exact nonzero
  · rw [Function.update_of_ne same]
    exact held

theorem keeping_setLoc (table : Table g) (b : g.Index) (simdLane : g.Lane) (loc : Loc) :
    Keeping table (setLoc table b simdLane loc) := by
  intro c slot held
  have written := congrArg Prod.fst (congrFun (entry_setLoc table b simdLane loc) (c, slot))
  change (setLoc table b simdLane loc c).sig slot = _ at written
  rw [written]
  by_cases same : (c, slot) = (b, simdLane)
  · rw [same, Function.update_self]
    cases same
    exact held
  · rw [Function.update_of_ne same]
    exact held

theorem Insertion.Solid.move (solid : i.Solid table) {point : InsertPoint g} {after : Table g}
    (there : i.SolidAt after point) : ∀ next, i.at point = some next → next.Solid after := by
  rintro next ⟨⟩
  exact ⟨solid.sig, there⟩

theorem vacant_none {b : Bucket g} {mask : BitVec 32} (full : vacant b mask = 0) (simdLane : g.Lane) :
    b.sig simdLane ≠ 0 := (vacant_eq_zero_iff b mask).mp full simdLane

/-- An insertion of a signature overwrites signatures by signatures. -/
theorem Insertion.Solid.access (solid : i.Solid table) :
    Keeping table (i.access table).2 ∧ ∀ next, (i.access table).1 = some next → next.Solid (i.access table).2 := by
  have kept : Keeping table table := fun _ _ held => held
  have point := solid.point
  have goes := i.goes table
  generalize i.point = here at point goes
  generalize (i.access table).1 = rest, (i.access table).2 = after at goes ⊢
  cases goes with
  | leftOut zero => exact ⟨kept, by rintro next ⟨⟩⟩
  | heldFirst found => exact ⟨kept, solid.move trivial⟩
  | absentFirst absent => exact ⟨kept, solid.move trivial⟩
  | roomFirst room => exact ⟨kept, solid.move trivial⟩
  | fullFirst full => exact ⟨kept, solid.move trivial⟩
  | signedFirst chosenSimd => exact ⟨keeping_setSig table _ _ solid.sig, solid.move trivial⟩
  | wonFirst chosenSimd back => exact ⟨kept, solid.move trivial⟩
  | lostFirst chosenSimd back => exact ⟨kept, solid.move trivial⟩
  | held found => exact ⟨kept, solid.move trivial⟩
  | absent absent => exact ⟨kept, solid.move trivial⟩
  | room room => exact ⟨kept, solid.move trivial⟩
  | full full more => exact ⟨kept, solid.move (vacant_none full _)⟩
  | last full most => exact ⟨kept, solid.move trivial⟩
  | victimSig => exact ⟨kept, solid.move point⟩
  | victimLoc newSig => exact ⟨kept, solid.move point⟩
  | signed chosenSimd found => exact ⟨keeping_setSig table _ _ solid.sig, solid.move point⟩
  | won chosenSimd found back => exact ⟨kept, solid.move point⟩
  | retries chosenSimd back => exact ⟨kept, solid.move trivial⟩
  | givesUp chosenSimd found back evicting => exact ⟨kept, by rintro next ⟨⟩⟩
  | located b chosenSimd found =>
    refine ⟨keeping_setLoc table _ _ _, ?_⟩
    intro next rest
    cases found with
    | free => cases rest
    | last => cases rest
    | victim newSig newLoc =>
      cases rest
      exact ⟨point, trivial⟩

theorem Insertion.Solid.others (solid : i.Solid table) {after : Table g} (keeping : Keeping table after) :
    i.Solid after := by
  refine ⟨solid.sig, ?_⟩
  have point := solid.point
  generalize i.point = here at point ⊢
  cases here with
  | victimSig => exact keeping _ _ point
  | _ => exact point

def SolidTask (device : Device g Out) : Task g Out → Prop
  | .insert insertion => insertion.Solid device.table
  | .delete _ => False
  | _ => True

theorem begin_solid {work : Work g Out} (calm : work.Calm) (device : Device g Out) : SolidTask device (begin work) := by
  cases work with
  | insert elem => exact ⟨calm, trivial⟩
  | delete elem => exact calm
  | search elem out id schedule => trivial
  | clear out numElem => trivial

variable [DecidableEq Out] [DecidableEq Who]

theorem access_solid {task : Task g Out} {device : Device g Out} (own : SolidTask device task) :
    Keeping device.table (access task device).2.table ∧
      ∀ next, (access task device).1 = some next → SolidTask (access task device).2 next := by
  have kept : Keeping device.table device.table := fun _ _ held => held
  cases task with
  | insert insertion =>
    obtain ⟨keeping, rest⟩ := Insertion.Solid.access own
    refine ⟨keeping, ?_⟩
    intro next same
    obtain ⟨left, found, rfl⟩ := Option.map_eq_some_iff.mp same
    exact rest left found
  | delete deletion => exact own.elim
  | search searching =>
    have table : (searching.access device).2.table = device.table := by
      unfold Searching.access
      split
      all_goals rfl
    refine ⟨?_, ?_⟩
    · change Keeping device.table (searching.access device).2.table
      rw [table]
      exact kept
    · intro next same
      obtain ⟨left, _, rfl⟩ := Option.map_eq_some_iff.mp same
      trivial
  | clear out numElem => exact ⟨kept, by rintro next ⟨⟩⟩

variable {pool : Pool Who (Task g Out) (Device g Out)}

def AllSolid (pool : Pool Who (Task g Out) (Device g Out)) : Prop := Pool.Keeps (fun _ => True) SolidTask pool

theorem AllSolid.after (solid : AllSolid pool) (turns : List (Turn Who (Work g Out))) (calm : ∀ who work, .start who work ∈ turns → work.Calm) :
    AllSolid (pool.turns begin access turns) := by
  refine Pool.Keeps.turns solid ?_ ?_ ?_
  · exact fun task device _ own => ⟨trivial, (access_solid own).2⟩
  · intro task other device _ own others
    have keeping := (access_solid own).1
    cases other with
    | insert insertion => exact Insertion.Solid.others others keeping
    | delete deletion => exact others
    | search searching => trivial
    | clear out numElem => trivial
  · intro work begun device _
    obtain ⟨who, member⟩ := Pool.begunWork_started begun
    exact begin_solid (calm who work member) device

end Calm

end MegaKV.Hash
