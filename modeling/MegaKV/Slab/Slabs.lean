import MegaKV.Slab.Bitmap
import MegaKV.Hash.Table

namespace MegaKV.Slab

abbrev Byte := BitVec 8

structure Ptr where
  block : Nat
  byte : Nat
  deriving DecidableEq

def Ptr.add (ptr : Ptr) (bytes : Nat) : Ptr := { ptr with byte := ptr.byte + bytes }

/-- `item`, with the key and the value behind the header. -/
structure Item where
  next : Option Ptr
  flags : Nat
  slabsClsid : Nat
  nkey : Nat
  nbytes : Nat
  loc : Nat
  data : Nat → Byte

def sizeofItem : Nat := 24
def itemFree : Nat := 1
def slabIdBits : Nat := 3
def powerSmallest : Nat := 0
def powerLargest : Nat := 2 ^ slabIdBits - 1
def itemAlignBytes : Nat := 8

section Config

def locBits : Nat := 32
def perslabBits : Nat := 15
def slabclassMaxElemNum : Nat := 2 ^ 28
def memLimit : Nat := 2 ^ 34
def factor : Nat := 2

end Config

def perslab : Nat := 2 ^ perslabBits

def alignSize (size : Nat) : Nat :=
  if size % itemAlignBytes ≠ 0 then size + (itemAlignBytes - size % itemAlignBytes) else size

def slabSize : Nat → Nat
  | 0 => alignSize (sizeofItem + 16)
  | i + 1 => alignSize (slabSize i * factor)

/-- The fields of `slabclass_t` that change after `slabs_init`. -/
structure Slabclass where
  slabs : Nat
  slabList : Nat → Ptr
  listSize : Nat
  bitmap : Bitmap

/-- What all workers share: the globals of slabs.c and the memory. -/
structure Memory where
  slabclass : Nat → Slabclass
  memoryFull : Bool
  memMalloced : Nat
  blocks : Nat
  heap : Ptr → Item

def Memory.setClass (m : Memory) (id : Nat) (p : Slabclass) : Memory :=
  { m with slabclass := Function.update m.slabclass id p }

inductive Halt
  | assertion
  | exit
  | diverges
  deriving DecidableEq

/-- The loop of `slabs_clsid` from class `res` on; every class is available. -/
def slabsClsidFrom (size : Nat) : Nat → Nat → Except Halt Nat
  | 0, _ => .error .diverges
  | rounds + 1, res =>
    if slabSize res < size then
      if res = powerLargest then .error .exit else slabsClsidFrom size rounds (res + 1)
    else .ok res

/-- `slabs_clsid`; `none` is the return value -1. -/
def slabsClsid (size : Nat) : Except Halt (Option Nat) :=
  if size = 0 then .ok none else (slabsClsidFrom size (powerLargest + 1) powerSmallest).map some

def itemAt (p : Slabclass) (id offset : Nat) : Ptr :=
  (p.slabList (offset / 2 ^ perslabBits)).add (slabSize id * (offset % 2 ^ perslabBits))

structure Supply where
  malloc : Bool
  realloc : Bool

def growSlabList (supply : Supply) (p : Slabclass) : Option Slabclass :=
  if p.slabs = p.listSize then
    if supply.realloc then some { p with listSize := if p.listSize ≠ 0 then p.listSize * 2 else 16 } else none
  else some p

/-- The header `do_slabs_alloc_batch` writes into chunk `x` of the new slab. -/
def freshItem (id slabs x : Nat) (head : Ptr) (old : Item) : Item :=
  { old with
    loc := ((id <<< (locBits - slabIdBits)) + perslab * slabs + x) % 2 ^ 32
    flags := itemFree
    slabsClsid := id
    next := if x = perslab - 1 then none else some (head.add (slabSize id * (x + 1))) }

/-- The heap after the first `count` rounds of that loop. -/
def linkChunks (id slabs : Nat) (head : Ptr) (heap : Ptr → Item) : Nat → Ptr → Item
  | 0 => heap
  | x + 1 =>
    let before := linkChunks id slabs head heap x
    let ptr := head.add (slabSize id * x)
    Function.update before ptr (freshItem id slabs x head (before ptr))

/-- `do_slabs_alloc_batch`: the head of the new list, or `none` with `memory_full` set. -/
def doSlabsAllocBatch (supply : Supply) (id : Nat) (m : Memory) : Except Halt (Option Ptr × Memory) :=
  let p := m.slabclass id
  let len := slabSize id * perslab
  if memLimit ≠ 0 ∧ memLimit < m.memMalloced + len ∧ 0 < p.slabs then .ok (none, { m with memoryFull := true })
  else
    match bitmapUpdate p.bitmap perslab with
    | none => .error .assertion
    | some (ret, bitmap) =>
      let m := m.setClass id { p with bitmap := bitmap }
      if ret = -1 then .ok (none, { m with memoryFull := true })
      else
        match growSlabList supply (m.slabclass id) with
        | none => .ok (none, { m with memoryFull := true })
        | some p =>
          if supply.malloc then
            let head : Ptr := ⟨m.blocks, 0⟩
            .ok (some head,
              { m.setClass id { p with slabList := Function.update p.slabList p.slabs head, slabs := p.slabs + 1 } with
                heap := linkChunks id p.slabs head m.heap perslab
                memMalloced := m.memMalloced + len
                blocks := m.blocks + 1 })
          else .ok (none, { m.setClass id p with memoryFull := true })

/-- `slabs_alloc_batch` for the class `slabs_clsid` found; the item with location 0 is left out. -/
def slabsAllocBatch (supply : Supply) (id : Nat) (m : Memory) : Except Halt (Option Ptr × Memory) :=
  if m.memoryFull then .ok (none, m)
  else
    match doSlabsAllocBatch supply id m with
    | .error halt => .error halt
    | .ok (none, m) => .ok (none, m)
    | .ok (some it, m) => if (m.heap it).loc = 0 then .ok ((m.heap it).next, m) else .ok (some it, m)

end MegaKV.Slab
