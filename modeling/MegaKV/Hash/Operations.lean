import MegaKV.Hash.Kernel
import MegaKV.Library.Settle

namespace MegaKV.Hash

open Library

section Search

variable (g : Geometry)

/-- An order in which the writes of the lanes of one element take effect. -/
structure LaneOrder where
  lanes : List g.Lane
  complete : ∀ simdLane, simdLane ∈ lanes

def ascending : LaneOrder g := ⟨List.finRange g.elemNum, List.mem_finRange⟩

variable {g}

/-- The cell of `out` after every lane that holds the signature has written its location. -/
def lanesWrite (b : Bucket g) (sig : Sign) (order : LaneOrder g) (cell : Loc) : Loc :=
  settle (fun simdLane => b.sig simdLane == sig) b.loc order.lanes cell

structure Schedule (g : Geometry) where
  first : LaneOrder g
  second : LaneOrder g

def searchElem (table : Table g) (schedule : Schedule g) (id : Nat) (elem : SElem) (out : Nat → Loc) : Nat → Loc :=
  let first := id <<< 1
  let out := Function.update out first
    (lanesWrite (table (bucketIndex g elem.hash)) elem.sig schedule.first (out first))
  let second := (id <<< 1) + 1
  Function.update out second
    (lanesWrite (table (secondIndex g elem.hash elem.sig)) elem.sig schedule.second (out second))

/-- `hash_search` from element `id` on. The groups of lanes write to outputs of their own, so the
    elements are taken in the order of their ids. -/
def hashSearch (table : Table g) (schedule : Nat → Schedule g) : Nat → List SElem → (Nat → Loc) → Nat → Loc
  | _, [], out => out
  | id, elem :: rest, out => hashSearch table schedule (id + 1) rest (searchElem table (schedule id) id elem out)

end Search

section Insert

variable {g : Geometry}

def secondFound (table : Table g) (elem : IElem) : Probe g :=
  probe (table (secondIndex g elem.hash elem.sig)) (mlMask g elem.sig) elem.sig

/-- `hash_insert_2choice` for one element run alone. When both buckets are full, the second loop
    is left by `break` between the two writes. -/
def hashInsert2choice (table : Table g) (elem : IElem) : Table g :=
  if elem.sig = 0 ∧ elem.loc = 0 then table
  else
    match firstFound table elem with
    | .held simdLane => setLoc table (bucketIndex g elem.hash) simdLane elem.loc
    | .empty simdLane => putElem table (bucketIndex g elem.hash) simdLane elem.sig elem.loc
    | .full =>
      match secondFound table elem with
      | .held simdLane => setLoc table (secondIndex g elem.hash elem.sig) simdLane elem.loc
      | .empty simdLane => putElem table (secondIndex g elem.hash elem.sig) simdLane elem.sig elem.loc
      | .full => setSig table (secondIndex g elem.hash elem.sig) (majorLane g elem.sig) elem.sig

end Insert

section Delete

variable {g : Geometry}

def holdsElem (b : Bucket g) (elem : DElem) (simdLane : g.Lane) : Bool :=
  b.sig simdLane == elem.sig && b.loc simdLane == elem.loc

/-- The location stays in the slot. -/
def clearElem (table : Table g) (b : g.Index) (elem : DElem) : Table g :=
  Function.update table b
    { table b with
      sig := fun simdLane => if holdsElem (table b) elem simdLane then 0 else (table b).sig simdLane }

def hashDelete (table : Table g) (elem : DElem) : Table g :=
  let b := bucketIndex g elem.hash
  let votes := ballot (holdsElem (table b) elem)
  let cleared := clearElem table b elem
  if votes ≠ 0 then cleared else clearElem cleared (secondIndex g elem.hash elem.sig) elem

end Delete

section Runs

variable (g : Geometry)

inductive Op where
  | cuckoo (elem : IElem)
  | twoChoice (elem : IElem)
  | delete (elem : DElem)

variable {g}

def Op.perform (table : Table g) : Op → Table g
  | .cuckoo elem => hashInsertCuckoo table elem
  | .twoChoice elem => hashInsert2choice table elem
  | .delete elem => hashDelete table elem

def performAll (table : Table g) (ops : List Op) : Table g := ops.foldl Op.perform table

theorem performAll_nil (table : Table g) : performAll table [] = table := rfl

theorem performAll_append (table : Table g) (ops more : List Op) :
    performAll table (ops ++ more) = performAll (performAll table ops) more := List.foldl_append

theorem performAll_concat (table : Table g) (ops : List Op) (op : Op) :
    performAll table (ops ++ [op]) = op.perform (performAll table ops) := performAll_append table ops [op]

def Op.inserts : Op → Option IElem
  | .cuckoo elem => some elem
  | .twoChoice elem => some elem
  | .delete _ => none

def inserted (ops : List Op) : List IElem := ops.filterMap Op.inserts

variable (g) in
/-- One operation at a time from the zeroed table on, each of them allowed on the table it finds. -/
inductive Run (allowed : Table g → Op → Prop) : List Op → Table g → Prop where
  | zero : Run allowed [] (zeroTable g)
  | step {ops : List Op} {table : Table g} (op : Op) (run : Run allowed ops table) (meets : allowed table op) :
      Run allowed (ops ++ [op]) (op.perform table)

theorem Run.invariant {allowed : Table g → Op → Prop} {holds : List Op → Table g → Prop}
    (zero : holds [] (zeroTable g))
    (step : ∀ ops table op, holds ops table → allowed table op → holds (ops ++ [op]) (op.perform table))
    {ops : List Op} {table : Table g} (run : Run g allowed ops table) : holds ops table := by
  induction run with
  | zero => exact zero
  | step op _ meets before => exact step _ _ op before meets

end Runs

end MegaKV.Hash
