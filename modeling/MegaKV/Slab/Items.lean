import MegaKV.Slab.Slabs

namespace MegaKV.Slab

section Config

def evictBatchSize : Nat := 512
def batchMaxDeleteJob : Nat := 4096

end Config

structure DeleteBuf where
  numDeleteJob : Nat
  deleteIn : Nat → Hash.DElem

abbrev DeleteBufs := Nat → DeleteBuf

def dataWord (data : Nat → Byte) (position : Nat) : BitVec 32 :=
  data (position + 3) ++ data (position + 2) ++ data (position + 1) ++ data position

/-- The delete job of an evicted item, made of its old key and its location. -/
def deleteJob (it : Item) : Hash.DElem :=
  { sig := dataWord it.data 0, hash := dataWord it.data 4, loc := BitVec.ofNat 32 it.loc }

/-- What `receiver_buf_id` reads for one evicted item: at its first attempt, and at each `again`. -/
structure Attempts where
  first : Nat
  again : List Nat

def Attempts.ids (attempts : Attempts) : List Nat := attempts.first :: attempts.again

/-- The part of the eviction loop from `again` on, one attempt for each id; the flag tells
    whether the loop is left by `break`. -/
def recordDelete (offset : Nat) (it : Item) : List Nat → DeleteBufs → Except Halt (DeleteBufs × Bool)
  | [], bufs => .ok (bufs, false)
  | id :: again, bufs =>
    let buf := bufs id
    if batchMaxDeleteJob ≤ buf.numDeleteJob then .ok (bufs, true)
    else
      let buf := { buf with deleteIn := Function.update buf.deleteIn buf.numDeleteJob (deleteJob it) }
      if offset = ((it.loc <<< slabIdBits) % 2 ^ 32) >>> slabIdBits then
        if batchMaxDeleteJob ≤ buf.numDeleteJob + 1 then .ok (Function.update bufs id buf, true)
        else
          recordDelete offset it again
            (Function.update bufs id { buf with numDeleteJob := buf.numDeleteJob + 1 })
      else .error .assertion

structure Eviction where
  heap : Ptr → Item
  itList : Option Ptr
  evictCnt : Nat
  bufs : DeleteBufs

/-- An evicted item is marked free and linked in front of the list. -/
def Eviction.free (eviction : Eviction) (it : Ptr) : Eviction :=
  { eviction with
    heap := Function.update eviction.heap it
      { eviction.heap it with flags := itemFree, next := eviction.itList }
    itList := some it
    evictCnt := eviction.evictCnt + 1 }

/-- The eviction loop over `offset_array`, from index `i` on. -/
def evictLoop (p : Slabclass) (id : Nat) (attempts : Nat → Attempts) :
    Nat → List Nat → Eviction → Except Halt Eviction
  | _, [], eviction => .ok eviction
  | i, offset :: rest, eviction =>
    if offset < perslab * p.slabs then
      let it := itemAt p id offset
      if (eviction.heap it).flags ≠ 0 then evictLoop p id attempts (i + 1) rest eviction
      else
        let eviction := eviction.free it
        match recordDelete offset (eviction.heap it) (attempts i).ids eviction.bufs with
        | .error halt => .error halt
        | .ok (bufs, true) => .ok { eviction with bufs := bufs }
        | .ok (bufs, false) => evictLoop p id attempts (i + 1) rest { eviction with bufs := bufs }
    else .error .assertion

/-- The branch of `item_alloc_batch` for full memory. -/
def evictItems (id : Nat) (attempts : Nat → Attempts) (m : Memory) (bufs : DeleteBufs) :
    Except Halt (Option Ptr × Memory × DeleteBufs) :=
  let p := m.slabclass id
  match bitmapEvictBatch p.bitmap evictBatchSize with
  | none => .error .assertion
  | some (offsetArray, bitmap) =>
    match evictLoop p id attempts 0 offsetArray { heap := m.heap, itList := none, evictCnt := 0, bufs := bufs } with
    | .error halt => .error halt
    | .ok eviction =>
      if eviction.evictCnt = 0 then .error .exit
      else
        .ok (eviction.itList, { m.setClass id { p with bitmap := bitmap } with heap := eviction.heap },
          eviction.bufs)

/-- `item_alloc_batch` from `re` on, for at most so many rounds. -/
def itemAllocRounds (supply : Supply) (attempts : Nat → Attempts) (id : Nat) :
    Nat → Memory → DeleteBufs → Except Halt (Option Ptr × Memory × DeleteBufs)
  | 0, _, _ => .error .diverges
  | rounds + 1, m, bufs =>
    if m.memoryFull then
      match evictItems id attempts m bufs with
      | .error halt => .error halt
      | .ok (none, m, bufs) => itemAllocRounds supply attempts id rounds m bufs
      | .ok (some it, m, bufs) => .ok (some it, m, bufs)
    else
      match slabsAllocBatch supply id m with
      | .error halt => .error halt
      | .ok (none, m) => itemAllocRounds supply attempts id rounds m bufs
      | .ok (some it, m) => .ok (some it, m, bufs)

/-- The second round evicts and ends. -/
def itemAllocBatch (supply : Supply) (attempts : Nat → Attempts) (kvsize : Nat) (m : Memory) (bufs : DeleteBufs) :
    Except Halt (Option Ptr × Memory × DeleteBufs) :=
  match slabsClsid ((sizeofItem + kvsize) % 2 ^ 32) with
  | .error halt => .error halt
  | .ok none => .ok (none, m, bufs)
  | .ok (some id) => itemAllocRounds supply attempts id 2 m bufs

end MegaKV.Slab
