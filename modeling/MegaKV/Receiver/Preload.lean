import MegaKV.Receiver.RoundTrip

namespace MegaKV.Receiver

open Library Slab

section Writer

structure Writer where
  packet : Nat → Byte
  ptr : Nat
  payloadLen : Nat

def getLen (build : Build) : Nat := build.maxKeyLength + 4
def setLen (build : Build) : Nat := build.maxKeyLength + build.maxValueLength + 8

def bswap32 (word : BitVec 32) : BitVec 32 :=
  word.extractLsb' 0 8 ++ word.extractLsb' 8 8 ++ word.extractLsb' 16 8 ++ word.extractLsb' 24 8

/-- The second word of a key, with its low byte moved up to choose the insert buffer. -/
def keyWord (key : BitVec 32) : BitVec 32 :=
  if bitsInsertBuf = 0 then key else (bswap32 (key &&& 0xff) <<< (8 - bitsInsertBuf)) ||| key

def putKey (packet : Nat → Byte) (ptr : Nat) (key : BitVec 32) : Nat → Byte :=
  store (store packet (ptr + 4) (bytes32 (keyWord key))) ptr (bytes32 key)

variable (build : Build)

def Writer.putGet (w : Writer) (key : BitVec 32) : Writer :=
  let packet := store w.packet w.ptr (bytes16 megaJobGet)
  let packet := store packet (w.ptr + 2) (bytes16 (BitVec.ofNat 16 build.maxKeyLength))
  { packet := putKey packet (w.ptr + 4) key
    ptr := w.ptr + 4 + build.maxKeyLength
    payloadLen := w.payloadLen + getLen build }

/-- The value is what the packet held there before. -/
def Writer.putSet (w : Writer) (key : BitVec 32) : Writer :=
  let packet := store w.packet w.ptr (bytes16 megaJobSet)
  let packet := store packet (w.ptr + 2) (bytes16 (BitVec.ofNat 16 build.maxKeyLength))
  let packet := store packet (w.ptr + 4) (bytes32 (BitVec.ofNat 32 build.maxValueLength))
  { packet := putKey packet (w.ptr + 8) key
    ptr := w.ptr + 8 + build.maxKeyLength + build.maxValueLength
    payloadLen := w.payloadLen + setLen build }

/-- A new packet, behind the magic number. -/
def Writer.rewrite (packet : Nat → Byte) : Writer :=
  { packet := packet
    ptr := Sender.eiuHdrLen + 2
    payloadLen := Sender.eiuHdrLen + 2 + 2 }

def Writer.finish (w : Writer) : Writer := { w with packet := store w.packet w.ptr (bytes16 endMark) }

end Writer

section Preload

variable (build : Build)

/-- The inner loop of `preload`, with the key it goes on with. -/
def preloadFill (preloadCnt : Nat) (w : Writer) (setKey : Nat) : Writer × Nat :=
  if w.payloadLen + setLen build ≤ Sender.ethernetMaxFrameLen then
    let w' := w.putSet build (BitVec.ofNat 32 setKey)
    if preloadCnt ≤ setKey + 1 then (w', setKey + 1) else preloadFill preloadCnt w' (setKey + 1)
  else (w, setKey)
termination_by Sender.ethernetMaxFrameLen - w.payloadLen
decreasing_by
  simp only [Writer.putSet, setLen] at *
  omega

def preloadPacket (preloadCnt : Nat) (packet : Nat → Byte) (setKey : Nat) : Writer × Nat :=
  let (w, next) := preloadFill build preloadCnt (.rewrite packet) setKey
  (w.finish, next)

end Preload

section LocalRead

/-- What `mega_receiver_local_read` keeps from packet to packet. -/
structure Generator where
  w : Writer
  numGet : Nat
  numSet : Nat
  draws : Nat
  setKey : Nat

variable (build : Build) (zipf : Nat → Nat) (preloadCnt limit numDefinedGet numDefinedSet : Nat)

def Generator.get (g : Generator) (key : Nat) : Generator :=
  let left := g.numGet - 1
  { g with
    w := g.w.putGet build (BitVec.ofNat 32 key)
    numGet := if left = 0 ∧ ¬0 < numDefinedSet then numDefinedGet else left
    numSet := if left = 0 ∧ 0 < numDefinedSet then numDefinedSet else g.numSet
    draws := g.draws + 1 }

def Generator.set (g : Generator) : Generator :=
  let left := g.numSet - 1
  { g with
    w := g.w.putSet build (BitVec.ofNat 32 (g.setKey + 1))
    numGet := if left = 0 ∧ 0 < numDefinedGet then numDefinedGet else g.numGet
    numSet := if left = 0 ∧ ¬0 < numDefinedGet then numDefinedSet else left
    setKey := g.setKey + 1 }

/-- The loop that constructs a packet; `zipf` gives the draws of the key generator. -/
def localFill (g : Generator) : Except Halt Generator :=
  if 0 < g.numGet then
    if Sender.ethernetMaxFrameLen < g.w.payloadLen + getLen build then .ok g
    else
      let key := (zipf g.draws + 1) % 2 ^ 32
      if preloadCnt ≤ key then .error .assertion
      else localFill (g.get build numDefinedGet numDefinedSet key)
  else if 0 < g.numSet then
    if Sender.ethernetMaxFrameLen < g.w.payloadLen + setLen build then .ok g
    else if limit ≤ g.setKey + 1 then .error .exit
    else localFill (g.set build numDefinedGet numDefinedSet)
  else .error .exit
termination_by Sender.ethernetMaxFrameLen - g.w.payloadLen
decreasing_by
  all_goals
    simp only [Generator.get, Generator.set, Writer.putGet, Writer.putSet, getLen, setLen] at *
    omega

def localPacket (g : Generator) (packet : Nat → Byte) : Except Halt Generator :=
  (localFill build zipf preloadCnt limit numDefinedGet numDefinedSet { g with w := .rewrite packet }).map
    (fun g => { g with w := g.w.finish })

end LocalRead

section Encoding

variable {build : Build} {requests : List (Request build)} {w : Writer}

/-- So far the packet holds the requests behind the magic number. -/
structure Writer.Holds (requests : List (Request build)) (w : Writer) : Prop where
  payload : Stands w.packet Sender.eiuHdrLen (bytes16 protocolMagic ++ encodeRequests requests)
  ptr : w.ptr = Sender.eiuHdrLen + (bytes16 protocolMagic ++ encodeRequests requests).length
  payloadLen : w.payloadLen = w.ptr + 2

def bytesAt (packet : Nat → Byte) (ptr n : Nat) : List.Vector Byte n := List.Vector.ofFn (fun i => packet (ptr + i))

theorem bytesAt_stands (packet : Nat → Byte) (ptr n : Nat) : Stands packet ptr (bytesAt packet ptr n).toList := by
  intro k value present
  rw [bytesAt, List.Vector.toList_ofFn, List.getElem?_ofFn] at present
  split at present
  · exact Option.some.inj present
  · contradiction

theorem putKey_stands (packet : Nat → Byte) (ptr : Nat) (key : BitVec 32) :
    Stands (putKey packet ptr key) ptr (bytes32 key ++ bytes32 (keyWord key)) := by
  apply Stands.append (store_stands _ _ _)
  exact (store_stands _ _ _).store (.inr (Nat.le_refl _))

theorem putKey_other {packet : Nat → Byte} {ptr start : Nat} {values : List Byte} (key : BitVec 32)
    (stands : Stands packet start values) (before : start + values.length ≤ ptr) :
    Stands (putKey packet ptr key) start values :=
  (stands.store (.inl (Nat.le_add_right_of_le before))).store (.inl before)

/-- The first two words of the bytes at `ptr` are the words written there. -/
theorem bytesAt_words {packet : Nat → Byte} {ptr n : Nat} {first second : BitVec 32} (long : 8 ≤ n)
    (stands : Stands packet ptr (bytes32 first ++ bytes32 second)) :
    keySign (bytesAt packet ptr n).toList = first ∧ keyHash (bytesAt packet ptr n).toList = second := by
  have bytes : ∀ k < n, (bytesAt packet ptr n).toList.getD k 0 = packet (ptr + k) := by
    intro k inside
    have length : k < (bytesAt packet ptr n).toList.length := by
      rw [List.Vector.toList_length]
      exact inside
    exact ((bytesAt_stands packet ptr n).getD length 0).symm
  have low := dataWord_bytes32 stands.left
  have high := dataWord_bytes32 stands.right
  constructor
  · rw [← low]
    simp only [keySign, dataWord]
    rw [bytes _ (by omega), bytes _ (by omega), bytes _ (by omega), bytes _ (by omega)]
  · rw [← high]
    simp only [keyHash, dataWord]
    rw [bytes _ (by omega), bytes _ (by omega), bytes _ (by omega), bytes _ (by omega)]
    rfl

theorem encodeRequests_append (first second : List (Request build)) :
    encodeRequests (first ++ second) = encodeRequests first ++ encodeRequests second := List.flatMap_append

/-- A request written behind the others is one more of them. -/
theorem Writer.Holds.push {w w' : Writer} (holds : w.Holds requests) {request : Request build}
    (kept : ∀ start values, Stands w.packet start values → start + values.length ≤ w.ptr → Stands w'.packet start values)
    (added : Stands w'.packet w.ptr request.encode) (ptr : w'.ptr = w.ptr + request.encode.length)
    (payloadLen : w'.payloadLen = w.payloadLen + request.encode.length) : w'.Holds (requests ++ [request]) := by
  have encoded : bytes16 protocolMagic ++ encodeRequests (requests ++ [request]) =
      bytes16 protocolMagic ++ encodeRequests requests ++ request.encode := by
    rw [encodeRequests_append, encodeRequests, encodeRequests, List.flatMap_singleton, List.append_assoc]
  refine ⟨?_, ?_, ?_⟩
  · rw [encoded]
    apply Stands.append
    · apply kept _ _ holds.payload
      rw [holds.ptr]
    · rw [← holds.ptr]
      exact added
  · rw [encoded, List.length_append, ← Nat.add_assoc, ← holds.ptr]
    exact ptr
  · rw [payloadLen, ptr, holds.payloadLen]
    omega

theorem Writer.Holds.putGet (holds : w.Holds requests) (long : 8 ≤ build.maxKeyLength) (key : BitVec 32) :
    ∃ bytes : List.Vector Byte build.maxKeyLength, keySign bytes.toList = key ∧ keyHash bytes.toList = keyWord key ∧
      (w.putGet build key).Holds (requests ++ [.get bytes]) := by
  have written := putKey_stands (store (store w.packet w.ptr (bytes16 megaJobGet)) (w.ptr + 2)
    (bytes16 (BitVec.ofNat 16 build.maxKeyLength))) (w.ptr + 4) key
  obtain ⟨sign, hash⟩ := bytesAt_words long written
  refine ⟨_, sign, hash, holds.push ?_ ?_ ?_ ?_⟩
  · intro start values stands before
    apply putKey_other key _ (Nat.le_add_right_of_le before)
    exact (stands.store (.inl before)).store (.inl (Nat.le_add_right_of_le before))
  · apply Stands.append
    · apply putKey_other key _ (Nat.le_refl _)
      apply Stands.append
      · exact (store_stands _ _ _).store (.inl (Nat.le_refl _))
      · exact store_stands _ _ _
    · exact bytesAt_stands _ _ _
  · rw [encode_get_length, Writer.putGet, Nat.add_assoc]
  · rw [encode_get_length, Writer.putGet, getLen, Nat.add_comm 4]

theorem Writer.Holds.putSet (holds : w.Holds requests) (long : 8 ≤ build.maxKeyLength) (key : BitVec 32) :
    ∃ (bytes : List.Vector Byte build.maxKeyLength) (value : List.Vector Byte build.maxValueLength),
      keySign bytes.toList = key ∧ keyHash bytes.toList = keyWord key ∧
      (w.putSet build key).Holds (requests ++ [.set bytes value]) := by
  have written := putKey_stands (store (store (store w.packet w.ptr (bytes16 megaJobSet)) (w.ptr + 2)
    (bytes16 (BitVec.ofNat 16 build.maxKeyLength))) (w.ptr + 4) (bytes32 (BitVec.ofNat 32 build.maxValueLength)))
    (w.ptr + 8) key
  obtain ⟨sign, hash⟩ := bytesAt_words long written
  refine ⟨_, bytesAt (w.putSet build key).packet (w.ptr + 8 + build.maxKeyLength) _, sign, hash, holds.push ?_ ?_ ?_ ?_⟩
  · intro start values stands before
    apply putKey_other key _ (Nat.le_add_right_of_le before)
    exact ((stands.store (.inl before)).store (.inl (Nat.le_add_right_of_le before))).store
      (.inl (Nat.le_add_right_of_le before))
  · apply Stands.append
    · apply putKey_other key _ (Nat.le_refl _)
      apply Stands.append
      · apply Stands.store _ (.inl (Nat.le_refl _))
        apply Stands.append
        · exact (store_stands _ _ _).store (.inl (Nat.le_refl _))
        · exact store_stands _ _ _
      · exact store_stands _ _ _
    · apply Stands.append
      · exact bytesAt_stands _ _ _
      · rw [List.Vector.toList_length]
        exact bytesAt_stands _ _ _
  · rw [encode_set_length, Writer.putSet, ← Nat.add_assoc, ← Nat.add_assoc]
  · rw [encode_set_length, Writer.putSet, setLen, Nat.add_comm 8]

theorem Writer.rewrite_holds {packet : Nat → Byte} (magic : Stands packet Sender.eiuHdrLen (bytes16 protocolMagic)) :
    (Writer.rewrite packet).Holds ([] : List (Request build)) :=
  ⟨magic, rfl, rfl⟩

/-- The finished packet is the encoding of its requests, and its length is that of the header and the encoding. -/
theorem Writer.Holds.finish (holds : w.Holds requests) :
    Stands w.finish.packet Sender.eiuHdrLen (encodePayload requests) ∧
      w.finish.payloadLen = Sender.eiuHdrLen + (encodePayload requests).length := by
  have encoded : encodePayload requests = bytes16 protocolMagic ++ encodeRequests requests ++ bytes16 endMark := by
    rw [encodePayload, List.append_assoc]
  rw [encoded]
  refine ⟨Stands.append ?_ ?_, ?_⟩
  · apply holds.payload.store (.inl _)
    rw [holds.ptr]
  · rw [← holds.ptr]
    exact store_stands _ _ _
  · rw [List.length_append, ← Nat.add_assoc, ← holds.ptr]
    exact holds.payloadLen

end Encoding

section Encoders

variable {build : Build} {requests : List (Request build)} {w : Writer} {start setKey : Nat}

structure Preloaded (start : Nat) (requests : List (Request build)) (w : Writer) (setKey : Nat) : Prop where
  holds : w.Holds requests
  searches : searches requests = []
  hashes : setHashes requests = (List.range' start (setKey - start)).map (fun key => keyWord (BitVec.ofNat 32 key))
  later : start ≤ setKey
  frame : w.payloadLen ≤ Sender.ethernetMaxFrameLen

theorem Preloaded.putSet (preloaded : Preloaded start requests w setKey) (long : 8 ≤ build.maxKeyLength)
    (room : w.payloadLen + setLen build ≤ Sender.ethernetMaxFrameLen) :
    ∃ more : List (Request build), Preloaded start more (w.putSet build (BitVec.ofNat 32 setKey)) (setKey + 1) := by
  have later := preloaded.later
  obtain ⟨bytes, value, _, hash, holds⟩ := preloaded.holds.putSet long (BitVec.ofNat 32 setKey)
  refine ⟨_, holds, ?_, ?_, Nat.le_succ_of_le later, room⟩
  · rw [searches_append, preloaded.searches]
    rfl
  · have one : setKey + 1 - start = setKey - start + 1 := by omega
    have last : start + 1 * (setKey - start) = setKey := by omega
    rw [setHashes_append, preloaded.hashes, one, List.range'_concat, List.map_append, last]
    exact congrArg (fun hash => _ ++ [hash]) hash

theorem preloadFill_encodes (preloaded : Preloaded start requests w setKey) (long : 8 ≤ build.maxKeyLength)
    (preloadCnt : Nat) :
    ∃ more : List (Request build),
      Preloaded start more (preloadFill build preloadCnt w setKey).1 (preloadFill build preloadCnt w setKey).2 := by
  induction w, setKey using preloadFill.induct build preloadCnt generalizing requests with
  | case1 w setKey room last =>
    rw [preloadFill, if_pos room, if_pos last]
    exact preloaded.putSet long room
  | case2 w setKey room _ more =>
    rename_i ih
    obtain ⟨requests, before⟩ := preloaded.putSet long room
    rw [preloadFill, if_pos room, if_neg more]
    exact ih before
  | case3 w setKey full =>
    rw [preloadFill, if_neg full]
    exact ⟨requests, preloaded⟩

/-- Every packet of `preload` is the encoding of the next SETs, in one frame. -/
theorem preload_encodes (long : 8 ≤ build.maxKeyLength) (preloadCnt setKey : Nat) {packet : Nat → Byte}
    (magic : Stands packet Sender.eiuHdrLen (bytes16 protocolMagic)) :
    ∃ (requests : List (Request build)) (w : Writer) (next : Nat),
      preloadPacket build preloadCnt packet setKey = (w, next) ∧
      Stands w.packet Sender.eiuHdrLen (encodePayload requests) ∧
      w.payloadLen = Sender.eiuHdrLen + (encodePayload requests).length ∧
      w.payloadLen ≤ Sender.ethernetMaxFrameLen ∧ searches requests = [] ∧
      setHashes requests = (List.range' setKey (next - setKey)).map (fun key => keyWord (BitVec.ofNat 32 key)) := by
  have fresh : Preloaded setKey ([] : List (Request build)) (Writer.rewrite packet) setKey := by
    refine ⟨Writer.rewrite_holds magic, rfl, ?_, Nat.le_refl _, ?_⟩
    · rw [Nat.sub_self]
      rfl
    · exact (by decide : Sender.eiuHdrLen + 2 + 2 ≤ Sender.ethernetMaxFrameLen)
  obtain ⟨requests, filled⟩ := preloadFill_encodes fresh long preloadCnt
  obtain ⟨payload, length⟩ := filled.holds.finish
  exact ⟨requests, _, _, rfl, payload, length, filled.frame, filled.searches, filled.hashes⟩

theorem localFill_encodes (long : 8 ≤ build.maxKeyLength) {zipf : Nat → Nat}
    {preloadCnt limit numDefinedGet numDefinedSet : Nat} {g after : Generator} (holds : g.w.Holds requests)
    (result : localFill build zipf preloadCnt limit numDefinedGet numDefinedSet g = .ok after) :
    ∃ more : List (Request build), after.w.Holds more := by
  induction g using localFill.induct build zipf preloadCnt limit numDefinedGet numDefinedSet generalizing requests with
  | case1 g gets full =>
    rw [localFill, if_pos gets, if_pos full] at result
    cases result
    exact ⟨requests, holds⟩
  | case2 g gets room _ =>
    rename_i outside
    rw [localFill, if_pos gets, if_neg room, if_pos outside] at result
    contradiction
  | case3 g gets room _ inside =>
    rename_i ih
    rw [localFill, if_pos gets, if_neg room, if_neg inside] at result
    obtain ⟨bytes, _, _, pushed⟩ := holds.putGet long (BitVec.ofNat 32 ((zipf g.draws + 1) % 2 ^ 32))
    exact ih pushed result
  | case4 g gets sets full =>
    rw [localFill, if_neg gets, if_pos sets, if_pos full] at result
    cases result
    exact ⟨requests, holds⟩
  | case5 g gets sets room last =>
    rw [localFill, if_neg gets, if_pos sets, if_neg room, if_pos last] at result
    contradiction
  | case6 g gets sets room more ih =>
    rw [localFill, if_neg gets, if_pos sets, if_neg room, if_neg more] at result
    obtain ⟨bytes, value, _, _, pushed⟩ := holds.putSet long (BitVec.ofNat 32 (g.setKey + 1))
    exact ih pushed result
  | case7 g gets sets =>
    rw [localFill, if_neg gets, if_neg sets] at result
    contradiction

/-- Every packet of `mega_receiver_local_read` is the encoding of GETs and SETs. -/
theorem local_read_encodes (long : 8 ≤ build.maxKeyLength) {zipf : Nat → Nat}
    {preloadCnt limit numDefinedGet numDefinedSet : Nat} {g after : Generator} {packet : Nat → Byte}
    (magic : Stands packet Sender.eiuHdrLen (bytes16 protocolMagic))
    (result : localPacket build zipf preloadCnt limit numDefinedGet numDefinedSet g packet = .ok after) :
    ∃ requests : List (Request build), Stands after.w.packet Sender.eiuHdrLen (encodePayload requests) ∧
      after.w.payloadLen = Sender.eiuHdrLen + (encodePayload requests).length := by
  unfold localPacket at result
  cases filled : localFill build zipf preloadCnt limit numDefinedGet numDefinedSet { g with w := .rewrite packet } with
  | error halt =>
    rw [filled] at result
    contradiction
  | ok middle =>
    rw [filled] at result
    cases result
    have fresh : (Writer.rewrite packet).Holds ([] : List (Request build)) := Writer.rewrite_holds magic
    obtain ⟨requests, holds⟩ := localFill_encodes long fresh filled
    exact ⟨requests, holds.finish⟩

end Encoders

end MegaKV.Receiver
