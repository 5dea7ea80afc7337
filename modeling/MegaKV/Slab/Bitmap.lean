import MegaKV.Library.Bits

namespace MegaKV.Slab

open Library

def bitsPerWord : Nat := 64
def bmMaskBit : Nat := 6

/-- `bitmap_t`; the words behind `size`, which nothing reads, are part of the total map. -/
structure Bitmap where
  map : Nat → BitVec 64
  size : Nat
  currentSize : Nat
  walker : Nat
  offsetMask : BitVec 64

/-- `bitmap_init`; `none` is the failed assertion. -/
def bitmapInit (elemNum : Nat) : Option Bitmap :=
  if elemNum % bitsPerWord = 0 then
    some { map := fun _ => BitVec.allOnes 64, size := elemNum / bitsPerWord, currentSize := 0, walker := 0,
           offsetMask := BitVec.allOnes 64 }
  else none

/-- `bitmap_update`: the return value and the bitmap; `none` is the failed assertion. -/
def bitmapUpdate (bitmap : Bitmap) (newElemNum : Nat) : Option (Int × Bitmap) :=
  if bitmap.currentSize + newElemNum / bitsPerWord ≥ bitmap.size then some (-1, bitmap)
  else if newElemNum % bitsPerWord = 0 then
    some (0, { bitmap with currentSize := bitmap.currentSize + newElemNum / bitsPerWord })
  else none

def bitmapTouch (bitmap : Bitmap) (pos : Nat) : Bitmap :=
  let word := pos / bitsPerWord
  { bitmap with
    map := Function.update bitmap.map word (bitmap.map word &&& ~~~(1#64 <<< (pos % bitsPerWord))) }

/-- The bits the inner loop of `bitmap_evict_batch` finds in one word. It runs at most once for
    each bit; `none` would be a run of more rounds. -/
def evictWord (word : BitVec 64) : Nat → BitVec 64 → Option (List Nat)
  | 0, _ => none
  | rounds + 1, offsetMask =>
    let found := ffs (word &&& offsetMask)
    if found = 0 then some []
    else
      let j := found - 1
      if j = 63 then some [j]
      else (evictWord word rounds (~~~((1#64 <<< (j + 1)) - 1))).map (j :: ·)

def nextWalker (bitmap : Bitmap) : Nat :=
  if bitmap.walker + 1 = bitmap.currentSize then 0 else bitmap.walker + 1

/-- The word is complemented as a whole and the walker moves on. -/
def leaveWord (bitmap : Bitmap) : Bitmap :=
  { bitmap with
    map := Function.update bitmap.map bitmap.walker (~~~(bitmap.map bitmap.walker))
    walker := nextWalker bitmap
    offsetMask := BitVec.allOnes 64 }

def wordOffset (bitmap : Bitmap) (j : Nat) : Nat :=
  ((bitmap.walker <<< bmMaskBit) % 2 ^ 32 + j) % 2 ^ 32

/-- The outer loop of `bitmap_evict_batch`, for at most `words` words. -/
def evictWords (num : Nat) : Nat → Bitmap → List Nat → Option (List Nat × Bitmap)
  | 0, bitmap, offsetArray => if offsetArray.length < num then none else some (offsetArray, bitmap)
  | words + 1, bitmap, offsetArray =>
    if offsetArray.length < num then
      match evictWord (bitmap.map bitmap.walker) 64 bitmap.offsetMask with
      | none => none
      | some found => evictWords num words (leaveWord bitmap) (offsetArray ++ found.map (wordOffset bitmap))
    else some (offsetArray, bitmap)

/-- Enough words for every call: two passes over the bitmap evict 64 offsets a word. -/
def wordBudget (bitmap : Bitmap) (num : Nat) : Nat := 2 * bitmap.currentSize * num

/-- `bitmap_evict_batch`; `none` is a failed assertion. -/
def bitmapEvictBatch (bitmap : Bitmap) (num : Nat) : Option (List Nat × Bitmap) :=
  if bitmap.currentSize ≠ 0 ∧ bitmap.walker < bitmap.currentSize then
    match evictWords num (wordBudget bitmap num) bitmap [] with
    | some (offsetArray, after) => if offsetArray.length = 0 then none else some (offsetArray, after)
    | none => none
  else none

/-- `(uint64_t)1 << n`; x86 takes the count modulo 64. -/
def oneShifted (n : Nat) : BitVec 64 := 1#64 <<< (n % 64)

/-- The branch of `bitmap_evict` for a bit found in the walker's word. -/
def takeBit (bitmap : Bitmap) (j : Nat) : Bitmap :=
  let prefixed := bitmap.map bitmap.walker ||| (oneShifted j - 1)
  { bitmap with
    map := Function.update bitmap.map bitmap.walker (prefixed &&& ~~~(oneShifted j))
    offsetMask := ~~~(oneShifted (j + 1) - 1) }

/-- The other branch: the walker goes on, and the word stays as it is. -/
def passWord (bitmap : Bitmap) : Bitmap :=
  { bitmap with walker := nextWalker bitmap, offsetMask := BitVec.allOnes 64 }

/-- `bitmap_evict`; its loop has no bound, and `none` is a run of more rounds. -/
def bitmapEvict : Nat → Bitmap → Option (Nat × Bitmap)
  | 0, _ => none
  | rounds + 1, bitmap =>
    let found := ffs (bitmap.map bitmap.walker &&& bitmap.offsetMask)
    if found ≠ 0 then some ((bitmap.walker * bitsPerWord + (found - 1)) % 2 ^ 32, takeBit bitmap (found - 1))
    else bitmapEvict rounds (passWord bitmap)

def evictCalls (rounds : Nat) : Nat → Bitmap → Option (List Nat × Bitmap)
  | 0, bitmap => some ([], bitmap)
  | calls + 1, bitmap =>
    match evictCalls rounds calls bitmap with
    | none => none
    | some (offsets, here) => (bitmapEvict rounds here).map fun (offset, next) => (offsets ++ [offset], next)

end MegaKV.Slab
