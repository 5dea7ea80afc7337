import MegaKV.Library.Bits
import MegaKV.Receiver.Served

namespace MegaKV.Receiver

open Library Slab

section Words

variable {bytes other : Nat → Byte}

theorem dataWord_bit (position : Nat) {i : Nat} (inside : i < 32) :
    (dataWord bytes position).getLsbD i = (bytes (position + i / 8)).getLsbD (i % 8) := by
  simp only [dataWord, BitVec.getLsbD_append]
  have byte : i < 8 ∨ (8 ≤ i ∧ i < 16) ∨ (16 ≤ i ∧ i < 24) ∨ 24 ≤ i := by omega
  rcases byte with first | ⟨second, before⟩ | ⟨third, before⟩ | last
  · have low : i / 8 = 0 ∧ i % 8 = i := by omega
    simp only [if_pos first, low, Nat.add_zero]
  · have low : i / 8 = 1 ∧ i % 8 = i - 8 := by omega
    simp only [if_neg (Nat.not_lt.mpr second), if_pos (show i - 8 < 8 by omega), low]
  · have low : i / 8 = 2 ∧ i % 8 = i - 8 - 8 := by omega
    simp (disch := omega) only [if_neg, if_pos, low]
  · have low : i / 8 = 3 ∧ i % 8 = i - 8 - 8 - 8 := by omega
    simp (disch := omega) only [if_neg, low]

theorem word64_bit {i : Nat} (inside : i < 64) : (word64 bytes).getLsbD i = (bytes (i / 8)).getLsbD (i % 8) := by
  rw [word64, BitVec.getLsbD_append]
  by_cases low : i < 32
  · rw [if_pos low, dataWord_bit 0 low, Nat.zero_add]
  · have high : i - 32 < 32 := by omega
    have byte : 4 + (i - 32) / 8 = i / 8 ∧ (i - 32) % 8 = i % 8 := by omega
    rw [if_neg low, dataWord_bit 4 high, byte.1, byte.2]

theorem word64_congr (agree : ∀ k < 8, bytes k = other k) : word64 bytes = word64 other := by
  apply BitVec.eq_of_getLsbD_eq
  intro i inside
  rw [word64_bit inside, word64_bit inside, agree (i / 8) (by omega)]

theorem word64_xor : word64 bytes ^^^ word64 other = word64 (fun k => bytes k ^^^ other k) := by
  apply BitVec.eq_of_getLsbD_eq
  intro i inside
  rw [BitVec.getLsbD_xor, word64_bit inside, word64_bit inside, word64_bit inside, BitVec.getLsbD_xor]

theorem word64_injective (same : word64 bytes = word64 other) : ∀ k < 8, bytes k = other k := by
  intro k inside
  apply BitVec.eq_of_getLsbD_eq
  intro i bit
  have place : (8 * k + i) / 8 = k ∧ (8 * k + i) % 8 = i := by omega
  have left := @word64_bit bytes (8 * k + i) (by omega)
  have right := @word64_bit other (8 * k + i) (by omega)
  rw [place.1, place.2] at left right
  rw [← left, ← right, same]

theorem word64_zero_iff : word64 bytes = 0#64 ↔ ∀ k < 8, bytes k = 0 := by
  have zeros : word64 (fun _ => 0) = 0#64 := rfl
  rw [← zeros]
  exact ⟨word64_injective, word64_congr⟩

theorem word64_masked {n : Nat} (short : n < 8) :
    word64 bytes &&& (((1 <<< (n * 8) : Nat) : BitVec 64) - 1) = word64 (fun k => if k < n then bytes k else 0) := by
  apply BitVec.eq_of_getLsbD_eq
  intro i inside
  rw [BitVec.getLsbD_and, low_mask_bit i (by omega), word64_bit inside, word64_bit inside]
  by_cases kept : i / 8 < n
  · have below : i < n * 8 := by omega
    simp only [if_pos kept, below, decide_true, Bool.and_true]
  · have above : ¬i < n * 8 := by omega
    simp [if_neg kept, above]

end Words

section Halves

theorem sig_halves (sig : BitVec 64) : sigHash sig ++ sigSign sig = sig := by
  apply BitVec.eq_of_getLsbD_eq
  intro i inside
  rw [BitVec.getLsbD_append]
  unfold sigHash sigSign
  by_cases low : i < 32
  · have back : 32 + i - 32 = i := Nat.add_sub_cancel_left 32 i
    have word : 32 + i < 64 := by omega
    rw [if_pos low, BitVec.getLsbD_setWidth, BitVec.getLsbD_ushiftRight, BitVec.getLsbD_shiftLeft, back]
    simp [low, word]
  · have high : i - 32 < 32 := by omega
    have back : 32 + (i - 32) = i := by omega
    rw [if_neg low, BitVec.getLsbD_setWidth, BitVec.getLsbD_ushiftRight, back]
    simp [high]

theorem sig_eq_iff (sig : BitVec 64) (hash : Hash.HashWord) (sign : Hash.Sign) :
    sig = hash ++ sign ↔ sigHash sig = hash ∧ sigSign sig = sign := by
  constructor
  · intro whole
    rw [whole]
    exact ⟨sigHash_append hash sign, sigSign_append hash sign⟩
  · intro halves
    rw [← halves.1, ← halves.2, sig_halves]

end Halves

section Columns

/-- The bytes of one column XORed, over so many words of the key behind its first one; behind the key
    the bytes are zero. -/
def columnXor (key : List Byte) : Nat → Nat → Byte
  | 0, _ => 0
  | words + 1, column => columnXor key words column ^^^ key.getD (8 * (words + 1) + column) 0

/-- In each column of the key, the bytes behind the first word cancel out. -/
def Cancels (key : List Byte) : Prop := ∀ column < 8, columnXor key (key.length / 8) column = 0

instance (key : List Byte) : Decidable (Cancels key) :=
  inferInstanceAs (Decidable (∀ column < 8, columnXor key (key.length / 8) column = 0))

variable {build : Build} {packet : Nat → Byte} {ptr : Nat} {key : List Byte}

theorem xorWords_whole (stands : Stands packet ptr key) (first : BitVec 64) (rounds : Nat) :
    ∀ words, 8 * (words + 1 + rounds) ≤ key.length →
      xorWords (.whole packet) ptr rounds (8 + 8 * words) (first ^^^ word64 (columnXor key words)) =
        .ok (first ^^^ word64 (columnXor key (words + rounds))) := by
  induction rounds with
  | zero =>
    intro words _
    rfl
  | succ rounds ih =>
    intro words inside
    have word : word64 (View.window packet (ptr + (8 + 8 * words)) 8) =
        word64 (fun k => key.getD (8 * (words + 1) + k) 0) := by
      apply word64_congr
      intro k before
      have place : ptr + (8 + 8 * words) + k = ptr + (8 * (words + 1) + k) := by omega
      rw [View.window, if_pos before, place]
      exact stands.getD (by omega) 0
    have step : first ^^^ word64 (columnXor key words) ^^^ word64 (fun k => key.getD (8 * (words + 1) + k) 0) =
        first ^^^ word64 (columnXor key (words + 1)) := by
      rw [BitVec.xor_assoc, word64_xor]
      rfl
    have next : 8 + 8 * words + 8 = 8 + 8 * (words + 1) := by omega
    have count : words + (rounds + 1) = words + 1 + rounds := by omega
    simp only [xorWords, View.read_whole]
    change xorWords _ _ _ _ (_ ^^^ word64 (View.window packet (ptr + (8 + 8 * words)) 8)) = _
    rw [word, step, next, count]
    exact ih (words + 1) (by omega)

theorem xorTail_whole (stands : Stands packet ptr key) (first : BitVec 64) (words : Nat)
    (full : 8 * (words + 1) ≤ key.length) (short : key.length < 8 * (words + 2)) :
    xorTail (.whole packet) ptr key.length (8 + 8 * words) (first ^^^ word64 (columnXor key words)) =
      .ok (first ^^^ word64 (columnXor key (words + 1))) := by
  have column : columnXor key (words + 1) = fun k => columnXor key words k ^^^ key.getD (8 * (words + 1) + k) 0 := rfl
  rw [column, ← word64_xor, ← BitVec.xor_assoc]
  unfold xorTail
  by_cases rest : 8 + 8 * words < key.length
  · have left : key.length - (8 + 8 * words) < 8 := by omega
    rw [if_pos rest, View.read_whole]
    change Except.ok (_ ^^^ (word64 _ &&& _)) = _
    rw [word64_masked left]
    apply congrArg (fun word => Except.ok (first ^^^ word64 (columnXor key words) ^^^ word))
    apply word64_congr
    intro k before
    by_cases inside : k < key.length - (8 + 8 * words)
    · have place : ptr + (8 + 8 * words) + k = ptr + (8 * (words + 1) + k) := by omega
      rw [if_pos inside, View.window, if_pos before, place]
      exact stands.getD (by omega) 0
    · rw [if_neg inside, List.getD_eq_default _ _ (by omega)]
  · have zeros : word64 (fun k => key.getD (8 * (words + 1) + k) 0) = 0#64 := by
      apply word64_zero_iff.mpr
      intro k _
      exact List.getD_eq_default _ _ (by omega)
    rw [if_neg rest, zeros, BitVec.xor_zero]

theorem keySig_whole (words : 8 ≤ key.length) (stands : Stands packet ptr key) :
    keySig build (.whole packet) ptr key.length =
      .ok (if build.signature then
          word64 (fun k => key.getD k 0) ^^^ word64 (columnXor key (key.length / 8))
        else word64 (fun k => key.getD k 0)) := by
  have first : word64 (View.window packet ptr 8) = word64 (fun k => key.getD k 0) := by
    apply word64_congr
    intro k before
    rw [View.window, if_pos before]
    exact stands.getD (by omega) 0
  unfold keySig
  rw [View.read_whole]
  change (if build.signature = true then _ else Except.ok (word64 (View.window packet ptr 8))) = _
  cases build.signature with
  | false => rw [if_neg Bool.false_ne_true, if_neg Bool.false_ne_true, first]
  | true =>
    have count : key.length / 8 = signatureRounds key.length + 1 := by
      unfold signatureRounds
      omega
    have start : word64 (columnXor key 0) = 0#64 := word64_zero_iff.mpr (fun k _ => rfl)
    have rounds := xorWords_whole stands (word64 (fun k => key.getD k 0)) (signatureRounds key.length) 0
      (by unfold signatureRounds; omega)
    have tail := xorTail_whole stands (word64 (fun k => key.getD k 0)) (signatureRounds key.length)
      (by unfold signatureRounds; omega) (by unfold signatureRounds; omega)
    rw [start, BitVec.xor_zero, Nat.mul_zero, Nat.add_zero, Nat.zero_add] at rounds
    rw [if_pos rfl, if_pos rfl, first, count, ← tail, rounds]
    rfl

end Columns

section Agreement

variable (build : Build)

/-- The key has this hash and this signature in a GET, in a SET and in the delete job of its item. -/
structure DerivedAs (key : List.Vector Byte build.maxKeyLength) (hash : Hash.HashWord) (sign : Hash.Sign) : Prop where
  get : ∀ (packet : Nat → Byte) (ptr : Nat) (ip : BitVec 32) (port : BitVec 16) (buf : BatchBuf),
    Stands packet ptr key.toList → ∃ added,
      addSearch build (.whole packet) ptr build.maxKeyLength ip port buf = .ok added ∧
        added.searchIn buf.numSearchJob = { hash := hash, sig := sign }
  set : ∀ (packet : Nat → Byte) (ptr kk : Nat) (attempts : Attempts) (it : Ptr) (r : State),
    Stands packet ptr key.toList →
      insertJob build (.whole packet) attempts it build.maxKeyLength build.maxValueLength ptr kk r =
        .ok (insertAttempts (4 + (build.maxKeyLength + build.maxValueLength) % 2 ^ 32) it hash sign attempts.ids
          (kk + 1) { r with numInsertJob := r.numInsertJob + 1 })
  evict : ∀ it : Item, Stands it.data 0 key.toList →
    deleteJob it = { hash := hash, sig := sign, loc := BitVec.ofNat 32 it.loc }

variable {build} {key : List.Vector Byte build.maxKeyLength} {hash : Hash.HashWord} {sign : Hash.Sign}

/-- What a GET and a SET make of the key, whatever stands behind it in the packet. -/
def signatureOf (build : Build) (key : List Byte) : BitVec 64 :=
  if build.signature then word64 (fun k => key.getD k 0) ^^^ word64 (columnXor key (key.length / 8))
  else word64 (fun k => key.getD k 0)

theorem keySig_signatureOf (words : 8 ≤ build.maxKeyLength) {packet : Nat → Byte} {ptr : Nat}
    (stands : Stands packet ptr key.toList) :
    keySig build (.whole packet) ptr build.maxKeyLength = .ok (signatureOf build key.toList) := by
  have length := key.toList_length
  have whole := @keySig_whole build packet ptr key.toList (by omega) stands
  rw [length] at whole
  rw [whole, signatureOf, length]

theorem addSearch_signatureOf (words : 8 ≤ build.maxKeyLength) {packet : Nat → Byte} {ptr : Nat}
    (stands : Stands packet ptr key.toList) (ip : BitVec 32) (port : BitVec 16) (buf : BatchBuf) :
    ∃ added, addSearch build (.whole packet) ptr build.maxKeyLength ip port buf = .ok added ∧
      added.searchIn buf.numSearchJob =
        { hash := sigHash (signatureOf build key.toList), sig := sigSign (signatureOf build key.toList) } := by
  have long := Nat.le_max_left 12 (ptr + build.maxKeyLength)
  have inside := Nat.le_max_right 12 (ptr + build.maxKeyLength)
  obtain ⟨job, cut, same⟩ := @addJob_read build packet _ ptr ip port long build.maxKeyLength inside buf
  have jobs : addJob build (.whole packet) ptr build.maxKeyLength ip port buf = .ok job := by
    rw [← cut]
    apply addJob_stable build ip port ptr build.maxKeyLength buf _ _ (View.cut_le_whole packet _)
    simp only [cut]
    exact Inside.ok job
  simp only [addSearch, jobs, keySig_signatureOf words stands]
  refine ⟨_, rfl, ?_⟩
  simp only [same.numSearchJob]
  exact Function.update_self _ _ _

theorem insertJob_signatureOf (words : 8 ≤ build.maxKeyLength) {packet : Nat → Byte} {ptr : Nat}
    (stands : Stands packet ptr key.toList) (kk : Nat) (attempts : Attempts) (it : Ptr) (r : State) :
    insertJob build (.whole packet) attempts it build.maxKeyLength build.maxValueLength ptr kk r =
      .ok (insertAttempts (4 + (build.maxKeyLength + build.maxValueLength) % 2 ^ 32) it
        (sigHash (signatureOf build key.toList)) (sigSign (signatureOf build key.toList)) attempts.ids (kk + 1)
        { r with numInsertJob := r.numInsertJob + 1 }) := by
  have right : ¬(build.maxKeyLength ≠ build.maxKeyLength ∨ build.maxValueLength ≠ build.maxValueLength) := by simp
  simp only [insertJob, if_neg right, keySig_signatureOf words stands]
  rfl

theorem deleteJob_stands (words : 8 ≤ build.maxKeyLength) {it : Item} (stands : Stands it.data 0 key.toList) :
    deleteJob it = { hash := keyHash key.toList, sig := keySign key.toList, loc := BitVec.ofNat 32 it.loc } := by
  have length := key.toList_length
  have bytes : ∀ k < 8, it.data k = key.toList.getD k 0 := by
    intro k before
    have shown := stands.getD (by omega : k < key.toList.length) 0
    rw [Nat.zero_add] at shown
    exact shown
  simp only [deleteJob, keyHash, keySign, dataWord, bytes, Nat.reduceAdd, Nat.reduceLT]

theorem signatureOf_first_iff :
    signatureOf build key.toList = keyHash key.toList ++ keySign key.toList ↔
      build.signature = false ∨ Cancels key.toList := by
  have first : keyHash key.toList ++ keySign key.toList = word64 (fun k => key.toList.getD k 0) := rfl
  rw [first, signatureOf]
  cases build.signature with
  | false => simp
  | true =>
    have left : ∀ word : BitVec 64, word64 (fun k => key.toList.getD k 0) ^^^ word =
        word64 (fun k => key.toList.getD k 0) ↔ word = 0#64 := by
      intro word
      have injective := BitVec.xor_right_inj (x := word) (y := 0#64) (word64 fun k => key.toList.getD k 0)
      rw [BitVec.xor_zero] at injective
      exact injective
    rw [if_pos rfl, left]
    exact word64_zero_iff.trans (or_iff_right (by decide)).symm

theorem DerivedAs.first_words (words : 8 ≤ build.maxKeyLength) (derived : DerivedAs build key hash sign) :
    signatureOf build key.toList = keyHash key.toList ++ keySign key.toList := by
  have shown : Stands (fun k => key.toList.getD (k - 0) 0) 0 key.toList := Stands.shifted _ _ _
  obtain ⟨added, result, entered⟩ := derived.get _ _ 0 0 emptyBuf shown
  obtain ⟨again, same, entry⟩ := addSearch_signatureOf words shown 0 0 emptyBuf
  cases result.symm.trans same
  have evicted := derived.evict { Sender.plainItem with data := fun k => key.toList.getD (k - 0) 0 } shown
  rw [deleteJob_stands words shown] at evicted
  rw [sig_eq_iff]
  have hashes : sigHash (signatureOf build key.toList) = hash := congrArg Hash.SElem.hash (entry.symm.trans entered)
  have signs : sigSign (signatureOf build key.toList) = sign := congrArg Hash.SElem.sig (entry.symm.trans entered)
  exact ⟨hashes.trans (congrArg Hash.IElem.hash evicted).symm, signs.trans (congrArg Hash.IElem.sig evicted).symm⟩

theorem derivedAs_of_first (words : 8 ≤ build.maxKeyLength)
    (first : signatureOf build key.toList = keyHash key.toList ++ keySign key.toList) :
    DerivedAs build key (keyHash key.toList) (keySign key.toList) := by
  have halves := (sig_eq_iff _ _ _).mp first
  constructor
  · intro packet ptr ip port buf stands
    rw [← halves.1, ← halves.2]
    exact addSearch_signatureOf words stands ip port buf
  · intro packet ptr kk attempts it r stands
    rw [← halves.1, ← halves.2]
    exact insertJob_signatureOf words stands kk attempts it r
  · intro it stands
    exact deleteJob_stands words stands

theorem keys_agree_iff (words : 8 ≤ build.maxKeyLength) (key : List.Vector Byte build.maxKeyLength) :
    (∃ hash sign, DerivedAs build key hash sign) ↔ build.signature = false ∨ Cancels key.toList := by
  rw [← signatureOf_first_iff]
  constructor
  · intro agree
    obtain ⟨hash, sign, derived⟩ := agree
    exact derived.first_words words
  · intro first
    exact ⟨_, _, derivedAs_of_first words first⟩

def signatureBuild : Build := { defaultBuild with signature := true, maxKeyLength := 16 }

def twoWords : List.Vector Byte signatureBuild.maxKeyLength :=
  ⟨[0, 0, 0, 0, 0, 0, 0, 0, 1, 0, 0, 0, 0, 0, 0, 0], rfl⟩

theorem keys_agree_two_words : 8 ≤ signatureBuild.maxKeyLength ∧
    ((∃ hash sign, DerivedAs signatureBuild twoWords hash sign) ↔
      signatureBuild.signature = false ∨ Cancels twoWords.toList) :=
  ⟨by decide, keys_agree_iff (by decide) twoWords⟩

theorem evicted_otherwise : ¬∃ hash sign, DerivedAs signatureBuild twoWords hash sign := by
  intro agree
  obtain ⟨hash, sign, derived⟩ := agree
  have first := signatureOf_first_iff.mp (derived.first_words (by decide))
  exact absurd first (by decide)

end Agreement

end MegaKV.Receiver
