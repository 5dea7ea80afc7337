import MegaKV.Library.Transition
import MegaKV.Slab.Items

namespace MegaKV.Slab

/-- The fields of one worker's `mega_batch_t` that allocation reads and writes. -/
structure Batch where
  localSlab : Nat → Option Ptr
  buf : DeleteBufs

def localSlabSize (i : Nat) : Nat := slabSize i

/-- The list `BATCH_ALLOC` picks. It never reaches `MAX_NUMBER_OF_SLAB_CLASSES`. -/
def pickList (size : Nat) : Nat :=
  ((List.range' powerSmallest (powerLargest - powerSmallest)).find? (fun i => size ≤ localSlabSize i)).getD powerLargest

def refill (supply : Supply) (attempts : Nat → Attempts) (size i : Nat) (m : Memory) (batch : Batch) :
    Except Halt (Memory × Batch) :=
  match batch.localSlab i with
  | some _ => .ok (m, batch)
  | none =>
    match itemAllocBatch supply attempts size m batch.buf with
    | .error halt => .error halt
    | .ok (itList, m, bufs) => .ok (m, { localSlab := Function.update batch.localSlab i itList, buf := bufs })

def takeItem (i : Nat) (m : Memory) (batch : Batch) : Except Halt (Ptr × Memory × Batch) :=
  match batch.localSlab i with
  | none => .error .assertion
  | some it =>
    .ok (it, { m with heap := Function.update m.heap it { m.heap it with flags := 0 } },
      { batch with localSlab := Function.update batch.localSlab i (m.heap it).next })

def batchAlloc (supply : Supply) (attempts : Nat → Attempts) (size : Nat) (m : Memory) (batch : Batch) :
    Except Halt (Ptr × Memory × Batch) :=
  match refill supply attempts size (pickList size) m batch with
  | .error halt => .error halt
  | .ok (m, batch) => takeItem (pickList size) m batch

section System

variable (Worker : Type) [DecidableEq Worker]

structure State where
  memory : Memory
  batchSet : Worker → Batch

variable {Worker}

def State.setBatch (s : State Worker) (worker : Worker) (batch : Batch) : State Worker :=
  { s with batchSet := Function.update s.batchSet worker batch }

/-- The key and the value of a request are copied into the chunk of an item. -/
def State.store (s : State Worker) (it : Ptr) (nkey nbytes : Nat) (data : Nat → Byte) : State Worker :=
  { s with
    memory := { s.memory with
      heap := Function.update s.memory.heap it
        { s.memory.heap it with nkey := nkey, nbytes := nbytes, data := data } } }

/-- A sender marks the item at `pos` of class `id` as used. -/
def State.touch (s : State Worker) (id pos : Nat) : State Worker :=
  let p := s.memory.slabclass id
  { s with memory := s.memory.setClass id { p with bitmap := bitmapTouch p.bitmap pos } }

inductive Step : State Worker → State Worker → Prop where
  | alloc (s : State Worker) (worker : Worker) (supply : Supply) (attempts : Nat → Attempts) (size : Nat) (it : Ptr)
      (m : Memory) (batch : Batch)
      (result : batchAlloc supply attempts size s.memory (s.batchSet worker) = .ok (it, m, batch)) :
      Step s ({ s with memory := m }.setBatch worker batch)
  | store (s : State Worker) (it : Ptr) (nkey nbytes : Nat) (data : Nat → Byte) :
      Step s (s.store it nkey nbytes data)
  | touch (s : State Worker) (id pos : Nat) (bound : pos < 2 ^ 32) : Step s (s.touch id pos)
  | schedule (s : State Worker) (worker : Worker) (buf : DeleteBufs) :
      Step s (s.setBatch worker { s.batchSet worker with buf := buf })

/-- The memory after `slabs_init`, whatever the heap holds. -/
def slabsInit (bitmap : Bitmap) (heap : Ptr → Item) : Memory :=
  { slabclass := fun _ => { slabs := 0, slabList := fun _ => ⟨0, 0⟩, listSize := 0, bitmap := bitmap }
    memoryFull := false
    memMalloced := 0
    blocks := 0
    heap := heap }

def Initial (s : State Worker) : Prop :=
  (∃ bitmap heap, bitmapInit slabclassMaxElemNum = some bitmap ∧ s.memory = slabsInit bitmap heap) ∧
    ∀ worker i, (s.batchSet worker).localSlab i = none

def allocation (Worker : Type) [DecidableEq Worker] : Library.TransitionSystem (State Worker) :=
  { initial := Initial
    step := Step }

end System

end MegaKV.Slab
