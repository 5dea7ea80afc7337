import MegaKV.Library.Buffers
import MegaKV.Receiver.Framing
import Mathlib.Data.Vector.Basic

namespace MegaKV.Receiver

open Library Slab

section Bytes

def bytes16 (word : BitVec 16) : List Byte := [word.extractLsb' 0 8, word.extractLsb' 8 8]

def bytes32 (word : BitVec 32) : List Byte :=
  [word.extractLsb' 0 8, word.extractLsb' 8 8, word.extractLsb' 16 8, word.extractLsb' 24 8]

variable {packet : Nat → Byte} {ptr : Nat}

theorem word16_bytes16 {word : BitVec 16} (stands : Stands packet ptr (bytes16 word)) :
    word16 (fun k => packet (ptr + k)) = word := by
  have low : packet (ptr + 0) = _ := stands 0 _ rfl
  have high : packet (ptr + 1) = _ := stands 1 _ rfl
  change packet (ptr + 1) ++ packet (ptr + 0) = word
  rw [low, high]
  exact @BitVec.extractLsb'_append_extractLsb' 8 8 word

theorem dataWord_bytes32 {word : BitVec 32} (stands : Stands packet ptr (bytes32 word)) :
    dataWord (fun k => packet (ptr + k)) 0 = word := by
  have first : packet (ptr + 0) = _ := stands 0 _ rfl
  have second : packet (ptr + 1) = _ := stands 1 _ rfl
  have third : packet (ptr + 2) = _ := stands 2 _ rfl
  have last : packet (ptr + 3) = _ := stands 3 _ rfl
  change packet (ptr + 3) ++ packet (ptr + 2) ++ packet (ptr + 1) ++ packet (ptr + 0) = word
  rw [first, second, third, last]
  rw [BitVec.extractLsb'_append_extractLsb'_eq_extractLsb' (by decide : 24 = 16 + 8),
    BitVec.extractLsb'_append_extractLsb'_eq_extractLsb' (by decide : 16 = 8 + 8)]
  exact @BitVec.extractLsb'_append_extractLsb' 24 8 word

end Bytes

section Protocol

variable (build : Build)

/-- A request of the protocol, with a key and a value of the lengths of the build. -/
inductive Request where
  | get (key : List.Vector Byte build.maxKeyLength)
  | set (key : List.Vector Byte build.maxKeyLength) (value : List.Vector Byte build.maxValueLength)

variable {build}

def Request.encode : Request build → List Byte
  | .get key => bytes16 megaJobGet ++ bytes16 (BitVec.ofNat 16 build.maxKeyLength) ++ key.toList
  | .set key value =>
    bytes16 megaJobSet ++ bytes16 (BitVec.ofNat 16 build.maxKeyLength) ++
      bytes32 (BitVec.ofNat 32 build.maxValueLength) ++ (key.toList ++ value.toList)

def encodeRequests (requests : List (Request build)) : List Byte := requests.flatMap Request.encode

def encodePayload (requests : List (Request build)) : List Byte :=
  bytes16 protocolMagic ++ (encodeRequests requests ++ bytes16 endMark)

theorem encode_get_length (key : List.Vector Byte build.maxKeyLength) :
    (Request.get key).encode.length = 4 + build.maxKeyLength := by
  simp only [Request.encode, bytes16, List.length_append, List.length_cons, List.length_nil, List.Vector.toList_length]

theorem encode_set_length (key : List.Vector Byte build.maxKeyLength) (value : List.Vector Byte build.maxValueLength) :
    (Request.set key value).encode.length = 8 + (build.maxKeyLength + build.maxValueLength) := by
  simp only [Request.encode, bytes16, bytes32, List.length_append, List.length_cons, List.length_nil,
    List.Vector.toList_length]

end Protocol

section Fields

variable {build : Build} {packet : Nat → Byte} {pktLen ptr : Nat}

/-- The lengths of the build fit the fields of the protocol, and a key has the two words read of it. -/
structure Build.Lengths (build : Build) : Prop where
  words : 8 ≤ build.maxKeyLength
  key : build.maxKeyLength < 2 ^ 16
  body : build.maxKeyLength + build.maxValueLength < 2 ^ 32

theorem get_fields (lengths : build.Lengths) {key : List.Vector Byte build.maxKeyLength}
    (stands : Stands packet ptr (Request.get key).encode) :
    jobTypeAt packet ptr = megaJobGet ∧ keyLengthAt packet (ptr + 2) = build.maxKeyLength ∧
      Stands packet (ptr + 4) key.toList := by
  have keyField : Stands packet (ptr + 2) (bytes16 (BitVec.ofNat 16 build.maxKeyLength)) := stands.left.right
  have length := word16_bytes16 keyField
  refine ⟨word16_bytes16 stands.left.left, ?_, stands.right⟩
  unfold keyLengthAt
  rw [length, BitVec.toNat_ofNat, Nat.mod_eq_of_lt lengths.key]

theorem set_fields (lengths : build.Lengths) {key : List.Vector Byte build.maxKeyLength}
    {value : List.Vector Byte build.maxValueLength} (stands : Stands packet ptr (Request.set key value).encode) :
    jobTypeAt packet ptr = megaJobSet ∧ keyLengthAt packet (ptr + 2) = build.maxKeyLength ∧
      valueLengthAt packet (ptr + 4) = build.maxValueLength ∧ Stands packet (ptr + 8) (key.toList ++ value.toList) := by
  have keyField : Stands packet (ptr + 2) (bytes16 (BitVec.ofNat 16 build.maxKeyLength)) := stands.left.left.right
  have valueField : Stands packet (ptr + 4) (bytes32 (BitVec.ofNat 32 build.maxValueLength)) := stands.left.right
  have keyLength := word16_bytes16 keyField
  have valueLength := dataWord_bytes32 valueField
  have body := lengths.body
  refine ⟨word16_bytes16 stands.left.left.left, ?_, ?_, stands.right⟩
  · unfold keyLengthAt
    rw [keyLength, BitVec.toNat_ofNat, Nat.mod_eq_of_lt lengths.key]
  · unfold valueLengthAt
    rw [valueLength, BitVec.toNat_ofNat, Nat.mod_eq_of_lt (by omega)]

end Fields

section Signatures

def keySign (key : List Byte) : Hash.Sign := dataWord (fun k => key.getD k 0) 0

def keyHash (key : List Byte) : Hash.HashWord := dataWord (fun k => key.getD k 0) 4

theorem sigHash_append (high low : BitVec 32) : sigHash (high ++ low) = high := by
  unfold sigHash
  apply BitVec.eq_of_getLsbD_eq
  intro i inside
  have above : ¬32 + i < 32 := by omega
  rw [BitVec.getLsbD_setWidth, BitVec.getLsbD_ushiftRight, BitVec.getLsbD_append, if_neg above, Nat.add_sub_cancel_left]
  simp [inside]

theorem sigSign_append (high low : BitVec 32) : sigSign (high ++ low) = low := by
  unfold sigSign
  apply BitVec.eq_of_getLsbD_eq
  intro i inside
  have below : 32 + i - 32 = i := Nat.add_sub_cancel_left 32 i
  have word : 32 + i < 64 := by omega
  rw [BitVec.getLsbD_setWidth, BitVec.getLsbD_ushiftRight, BitVec.getLsbD_shiftLeft, below, BitVec.getLsbD_append,
    if_pos inside]
  simp [inside, word]

variable {build : Build} {packet : Nat → Byte} {pktLen ptr : Nat}

theorem keySig_read (plain : build.signature = false) (nkey : Nat) {key : List Byte} (words : 8 ≤ key.length)
    (inside : ptr + 8 ≤ pktLen) (stands : Stands packet ptr key) :
    ∃ sig, keySig build (.cut packet pktLen) ptr nkey = .ok sig ∧ sigHash sig = keyHash key ∧ sigSign sig = keySign key := by
  have bytes : ∀ k < 8, View.window packet ptr 8 k = key.getD k 0 := by
    intro k before
    rw [View.window, if_pos before]
    exact stands.getD (by omega) 0
  have high : dataWord (View.window packet ptr 8) 4 = keyHash key := by
    simp only [keyHash, dataWord, bytes, Nat.reduceAdd, Nat.reduceLT]
  have low : dataWord (View.window packet ptr 8) 0 = keySign key := by
    simp only [keySign, dataWord, bytes, Nat.reduceAdd, Nat.reduceLT]
  refine ⟨word64 (View.window packet ptr 8), ?_, ?_, ?_⟩
  · rw [keySig, View.read_cut packet inside, plain]
    rfl
  · rw [word64, sigHash_append, high]
  · rw [word64, sigSign_append, low]

end Signatures

end MegaKV.Receiver
