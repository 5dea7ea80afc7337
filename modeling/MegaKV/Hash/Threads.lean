import MegaKV.Hash.Operations
import MegaKV.Library.Threads

namespace MegaKV.Hash

open Library

variable (g : Geometry)

section Tasks

/-- What has been found in the bucket: an empty slot, a victim that goes on, or the eviction after the last one. -/
inductive Found where
  | free
  | victim (newSig : Sign) (newLoc : Loc)
  | last
  deriving DecidableEq

/-- The next access of `hash_insert_cuckoo` to the table. The first five are those in the bucket of the hash. -/
inductive InsertPoint where
  | compareFirst
  | emptyFirst
  | signFirst (chosenSimd : g.Lane)
  | backFirst (chosenSimd : g.Lane)
  | compare
  | empty
  | victimSig
  | victimLoc (newSig : Sign)
  | sign (chosenSimd : g.Lane) (found : Found)
  | back (chosenSimd : g.Lane) (found : Found)
  | put (b : g.Index) (chosenSimd : g.Lane) (found : Found)

/-- The lanes that work on one element, all with the same `sig`, `loc` and `cuckoo_num`. -/
structure Insertion where
  elem : IElem
  sig : Sign
  loc : Loc
  cuckooNum : Nat
  point : InsertPoint g

/-- The next access of `hash_delete`. The lanes compare twice in the bucket of the hash, first for the vote. -/
inductive DeletePoint where
  | voteSig
  | voteLoc (equal : g.Lane → Bool)
  | sig (votes : g.Lane → Bool)
  | loc (votes equal : g.Lane → Bool)
  | clear (votes held : g.Lane → Bool)
  | otherSig
  | otherLoc (equal : g.Lane → Bool)
  | otherClear (held : g.Lane → Bool)

structure Deletion where
  elem : DElem
  point : DeletePoint g

inductive SearchPoint where
  | sig
  | loc (equal : g.Lane → Bool)
  | otherSig
  | otherLoc (equal : g.Lane → Bool)

/-- The search for element `id` of a kernel that writes to the array `out`. -/
structure Searching (Out : Type) where
  elem : SElem
  out : Out
  id : Nat
  schedule : Schedule g
  point : SearchPoint g

/-- What one group of lanes of a kernel, or the clearing of an output array, works on. -/
inductive Work (Out : Type) where
  | insert (elem : IElem)
  | delete (elem : DElem)
  | search (elem : SElem) (out : Out) (id : Nat) (schedule : Schedule g)
  | clear (out : Out) (numElem : Nat)

inductive Task (Out : Type) where
  | insert (insertion : Insertion g)
  | delete (deletion : Deletion g)
  | search (searching : Searching g Out)
  | clear (out : Out) (numElem : Nat)

structure Device (Out : Type) where
  table : Table g
  out : Out → Nat → Loc

end Tasks

variable {g} {Out : Type}

section Accesses

def Insertion.begin (elem : IElem) : Insertion g :=
  { elem := elem, sig := elem.sig, loc := elem.loc, cuckooNum := 0, point := .compareFirst }

def Insertion.at (i : Insertion g) (point : InsertPoint g) : Option (Insertion g) := some { i with point := point }

def Insertion.first (i : Insertion g) : g.Index := bucketIndex g i.elem.hash

def Insertion.second (i : Insertion g) : g.Index := secondIndex g i.elem.hash i.sig

/-- Behind the write of the location. -/
def Insertion.after (i : Insertion g) : Found → Option (Insertion g)
  | .free => none
  | .last => none
  | .victim newSig newLoc =>
    some { i with sig := newSig, loc := newLoc, cuckooNum := i.cuckooNum + 1, point := .compare }

/-- One access of the lanes to the table. An element that is all zero is left out. -/
def Insertion.access (i : Insertion g) (table : Table g) : Option (Insertion g) × Table g :=
  match i.point with
  | .compareFirst =>
    if i.elem.sig = 0 ∧ i.elem.loc = 0 then (none, table)
    else
      let ballot := matching (table i.first) i.sig
      if ballot ≠ 0 then (i.at (.put i.first (chosenSimd ballot) .free), table) else (i.at .emptyFirst, table)
  | .emptyFirst =>
    let ballot := vacant (table i.first) (mlMask g i.elem.sig)
    if ballot ≠ 0 then (i.at (.signFirst (chosenSimd ballot)), table) else (i.at .compare, table)
  | .signFirst chosenSimd => (i.at (.backFirst chosenSimd), setSig table i.first chosenSimd i.sig)
  | .backFirst chosenSimd =>
    if (table i.first).sig chosenSimd = i.sig then (i.at (.put i.first chosenSimd .free), table)
    else (i.at .emptyFirst, table)
  | .compare =>
    let ballot := matching (table i.second) i.sig
    if ballot ≠ 0 then (i.at (.put i.second (chosenSimd ballot) .free), table) else (i.at .empty, table)
  | .empty =>
    let ballot := vacant (table i.second) (mlMask g i.elem.sig)
    if ballot ≠ 0 then (i.at (.sign (chosenSimd ballot) .free), table)
    else if i.cuckooNum < maxCuckooNum then (i.at .victimSig, table)
    else (i.at (.sign (majorLane g i.elem.sig) .last), table)
  | .victimSig => (i.at (.victimLoc ((table i.second).sig (majorLane g i.elem.sig))), table)
  | .victimLoc newSig =>
    let chosenSimd := majorLane g i.elem.sig
    (i.at (.sign chosenSimd (.victim newSig ((table i.second).loc chosenSimd))), table)
  | .sign chosenSimd found => (i.at (.back chosenSimd found), setSig table i.second chosenSimd i.sig)
  | .back chosenSimd found =>
    if (table i.second).sig chosenSimd = i.sig then (i.at (.put i.second chosenSimd found), table)
    else if found = .free then (i.at .empty, table)
    else (none, table)
  | .put b chosenSimd found => (i.after found, setLoc table b chosenSimd i.loc)

inductive Insertion.Goes (i : Insertion g) (table : Table g) : InsertPoint g → Option (Insertion g) → Table g → Prop where
  | leftOut (zero : i.elem.sig = 0 ∧ i.elem.loc = 0) : Goes i table .compareFirst none table
  | heldFirst (found : matching (table i.first) i.sig ≠ 0) :
      Goes i table .compareFirst (i.at (.put i.first (chosenSimd (matching (table i.first) i.sig)) .free)) table
  | absentFirst (absent : matching (table i.first) i.sig = 0) : Goes i table .compareFirst (i.at .emptyFirst) table
  | roomFirst (room : vacant (table i.first) (mlMask g i.elem.sig) ≠ 0) :
      Goes i table .emptyFirst (i.at (.signFirst (chosenSimd (vacant (table i.first) (mlMask g i.elem.sig))))) table
  | fullFirst (full : vacant (table i.first) (mlMask g i.elem.sig) = 0) :
      Goes i table .emptyFirst (i.at .compare) table
  | signedFirst (chosenSimd : g.Lane) :
      Goes i table (.signFirst chosenSimd) (i.at (.backFirst chosenSimd)) (setSig table i.first chosenSimd i.sig)
  | wonFirst (chosenSimd : g.Lane) (back : (table i.first).sig chosenSimd = i.sig) :
      Goes i table (.backFirst chosenSimd) (i.at (.put i.first chosenSimd .free)) table
  | lostFirst (chosenSimd : g.Lane) (back : (table i.first).sig chosenSimd ≠ i.sig) :
      Goes i table (.backFirst chosenSimd) (i.at .emptyFirst) table
  | held (found : matching (table i.second) i.sig ≠ 0) :
      Goes i table .compare (i.at (.put i.second (chosenSimd (matching (table i.second) i.sig)) .free)) table
  | absent (absent : matching (table i.second) i.sig = 0) : Goes i table .compare (i.at .empty) table
  | room (room : vacant (table i.second) (mlMask g i.elem.sig) ≠ 0) :
      Goes i table .empty (i.at (.sign (chosenSimd (vacant (table i.second) (mlMask g i.elem.sig))) .free)) table
  | full (full : vacant (table i.second) (mlMask g i.elem.sig) = 0) (more : i.cuckooNum < maxCuckooNum) :
      Goes i table .empty (i.at .victimSig) table
  | last (full : vacant (table i.second) (mlMask g i.elem.sig) = 0) (most : ¬i.cuckooNum < maxCuckooNum) :
      Goes i table .empty (i.at (.sign (majorLane g i.elem.sig) .last)) table
  | victimSig :
      Goes i table .victimSig (i.at (.victimLoc ((table i.second).sig (majorLane g i.elem.sig)))) table
  | victimLoc (newSig : Sign) :
      Goes i table (.victimLoc newSig)
        (i.at (.sign (majorLane g i.elem.sig) (.victim newSig ((table i.second).loc (majorLane g i.elem.sig))))) table
  | signed (chosenSimd : g.Lane) (found : Found) :
      Goes i table (.sign chosenSimd found) (i.at (.back chosenSimd found)) (setSig table i.second chosenSimd i.sig)
  | won (chosenSimd : g.Lane) (found : Found) (back : (table i.second).sig chosenSimd = i.sig) :
      Goes i table (.back chosenSimd found) (i.at (.put i.second chosenSimd found)) table
  | retries (chosenSimd : g.Lane) (back : (table i.second).sig chosenSimd ≠ i.sig) :
      Goes i table (.back chosenSimd .free) (i.at .empty) table
  | givesUp (chosenSimd : g.Lane) (found : Found) (back : (table i.second).sig chosenSimd ≠ i.sig)
      (evicting : found ≠ .free) :
      Goes i table (.back chosenSimd found) none table
  | located (b : g.Index) (chosenSimd : g.Lane) (found : Found) :
      Goes i table (.put b chosenSimd found) (i.after found) (setLoc table b chosenSimd i.loc)

theorem Insertion.goes (i : Insertion g) (table : Table g) :
    i.Goes table i.point (i.access table).1 (i.access table).2 := by
  unfold Insertion.access
  split
  · rename_i here
    rw [here]
    split
    · rename_i zero
      exact .leftOut zero
    · dsimp only
      split
      · rename_i found
        exact .heldFirst found
      · rename_i absent
        exact .absentFirst (not_not.mp absent)
  · rename_i here
    rw [here]
    dsimp only
    split
    · rename_i room
      exact .roomFirst room
    · rename_i full
      exact .fullFirst (not_not.mp full)
  · rename_i chosenSimd here
    rw [here]
    exact .signedFirst chosenSimd
  · rename_i chosenSimd here
    rw [here]
    split
    · rename_i back
      exact .wonFirst chosenSimd back
    · rename_i back
      exact .lostFirst chosenSimd back
  · rename_i here
    rw [here]
    dsimp only
    split
    · rename_i found
      exact .held found
    · rename_i absent
      exact .absent (not_not.mp absent)
  · rename_i here
    rw [here]
    dsimp only
    split
    · rename_i room
      exact .room room
    · rename_i full
      split
      · rename_i more
        exact .full (not_not.mp full) more
      · rename_i most
        exact .last (not_not.mp full) most
  · rename_i here
    rw [here]
    exact .victimSig
  · rename_i newSig here
    rw [here]
    exact .victimLoc newSig
  · rename_i chosenSimd found here
    rw [here]
    exact .signed chosenSimd found
  · rename_i chosenSimd found here
    rw [here]
    split
    · rename_i back
      exact .won chosenSimd found back
    · rename_i back
      split
      · rename_i free
        subst free
        exact .retries chosenSimd back
      · rename_i evicting
        exact .givesUp chosenSimd found back evicting
  · rename_i b chosenSimd found here
    rw [here]
    exact .located b chosenSimd found

def Deletion.at (d : Deletion g) (point : DeletePoint g) : Option (Deletion g) := some { d with point := point }

def Deletion.first (d : Deletion g) : g.Index := bucketIndex g d.elem.hash

def Deletion.second (d : Deletion g) : g.Index := secondIndex g d.elem.hash d.elem.sig

/-- The lanes that hold the element clear their signatures with one store. -/
def clearLanes (table : Table g) (b : g.Index) (held : g.Lane → Bool) : Table g :=
  Function.update table b { table b with sig := fun simdLane => if held simdLane then 0 else (table b).sig simdLane }

def Deletion.access (d : Deletion g) (table : Table g) : Option (Deletion g) × Table g :=
  let equalSig := fun b simdLane => (table b).sig simdLane == d.elem.sig
  let bothEqual := fun b (equal : g.Lane → Bool) simdLane => equal simdLane && (table b).loc simdLane == d.elem.loc
  match d.point with
  | .voteSig => (d.at (.voteLoc (equalSig d.first)), table)
  | .voteLoc equal => (d.at (.sig (bothEqual d.first equal)), table)
  | .sig votes => (d.at (.loc votes (equalSig d.first)), table)
  | .loc votes equal => (d.at (.clear votes (bothEqual d.first equal)), table)
  | .clear votes held => (if ballot votes ≠ 0 then none else d.at .otherSig, clearLanes table d.first held)
  | .otherSig => (d.at (.otherLoc (equalSig d.second)), table)
  | .otherLoc equal => (d.at (.otherClear (bothEqual d.second equal)), table)
  | .otherClear held => (none, clearLanes table d.second held)

def Searching.at (s : Searching g Out) (point : SearchPoint g) : Option (Searching g Out) := some { s with point := point }

def Searching.first (s : Searching g Out) : g.Index := bucketIndex g s.elem.hash

def Searching.second (s : Searching g Out) : g.Index := secondIndex g s.elem.hash s.elem.sig

def Device.write [DecidableEq Out] (device : Device g Out) (out : Out) (position : Nat) (loc : Loc) : Device g Out :=
  { device with out := Function.update device.out out (Function.update (device.out out) position loc) }

def Searching.access [DecidableEq Out] (s : Searching g Out) (device : Device g Out) :
    Option (Searching g Out) × Device g Out :=
  let equalSig := fun b simdLane => (device.table b).sig simdLane == s.elem.sig
  let written := fun b equal (order : LaneOrder g) position =>
    settle equal (device.table b).loc order.lanes (device.out s.out position)
  match s.point with
  | .sig => (s.at (.loc (equalSig s.first)), device)
  | .loc equal =>
    let position := s.id <<< 1
    (s.at .otherSig, device.write s.out position (written s.first equal s.schedule.first position))
  | .otherSig => (s.at (.otherLoc (equalSig s.second)), device)
  | .otherLoc equal =>
    let position := (s.id <<< 1) + 1
    (none, device.write s.out position (written s.second equal s.schedule.second position))

def begin : Work g Out → Task g Out
  | .insert elem => .insert (.begin elem)
  | .delete elem => .delete ⟨elem, .voteSig⟩
  | .search elem out id schedule => .search ⟨elem, out, id, schedule, .sig⟩
  | .clear out numElem => .clear out numElem

def access [DecidableEq Out] (task : Task g Out) (device : Device g Out) : Option (Task g Out) × Device g Out :=
  match task with
  | .insert insertion =>
    ((insertion.access device.table).1.map .insert, { device with table := (insertion.access device.table).2 })
  | .delete deletion =>
    ((deletion.access device.table).1.map .delete, { device with table := (deletion.access device.table).2 })
  | .search searching => ((searching.access device).1.map .search, (searching.access device).2)
  | .clear out numElem =>
    let cleared := fun position => if position < 2 * numElem then 0 else device.out out position
    (none, { device with out := Function.update device.out out cleared })

def insertedElem : Work g Out → Option IElem
  | .insert elem => some elem
  | _ => none

/-- The elements whose insertion has been begun; a group at work refuses to begin. -/
def startedElems {Who : Type} [DecidableEq Out] [DecidableEq Who] (pool : Pool Who (Task g Out) (Device g Out))
    (turns : List (Turn Who (Work g Out))) : List IElem :=
  (pool.begunWork begin access turns).filterMap insertedElem

/-- The zeroed index with nothing at work on it. The arrays of the searches are not initialized. -/
def blankDevice (Who : Type) (out : Out → Nat → Loc) : Pool Who (Task g Out) (Device g Out) :=
  ⟨⟨zeroTable g, out⟩, fun _ => none⟩

end Accesses

end MegaKV.Hash
