import MegaKV.Receiver.Bounds

namespace MegaKV.Receiver

open Library Slab

section Framing

variable (build : Build) (packet : Nat → Byte) (pktLen : Nat)

def jobTypeAt (ptr : Nat) : BitVec 16 := word16 (fun k => packet (ptr + k))
def keyLengthAt (ptr : Nat) : Nat := (word16 (fun k => packet (ptr + k))).toNat
def valueLengthAt (ptr : Nat) : Nat := (dataWord (fun k => packet (ptr + k)) 0).toNat

def bodySize (ptr : Nat) : Nat := (keyLengthAt packet ptr + valueLengthAt packet (ptr + 2)) % 2 ^ 32

/-- Each request from `ptr` on lies inside the packet as far as the parser takes it apart, up to an
    end mark, an unknown job type, or a request that ends where the packet does or behind it. -/
inductive Framed : Nat → Prop where
  | last (ptr : Nat) (field : ptr + 2 ≤ pktLen) (notGet : jobTypeAt packet ptr ≠ megaJobGet)
      (notSet : jobTypeAt packet ptr ≠ megaJobSet) : Framed ptr
  | get (ptr : Nat) (field : ptr + 4 ≤ pktLen) (isGet : jobTypeAt packet ptr = megaJobGet)
      (key : keyLengthAt packet (ptr + 2) = build.maxKeyLength →
        ptr + 4 + keySpan build build.maxKeyLength ≤ pktLen)
      (next : ptr + 4 + keyLengthAt packet (ptr + 2) < pktLen → Framed (ptr + 4 + keyLengthAt packet (ptr + 2))) :
      Framed ptr
  | set (ptr : Nat) (fields : ptr + 8 ≤ pktLen) (isSet : jobTypeAt packet ptr = megaJobSet)
      (body : ptr + 8 + bodySize packet (ptr + 2) ≤ pktLen)
      (key : keyLengthAt packet (ptr + 2) = build.maxKeyLength ∧
          valueLengthAt packet (ptr + 4) = build.maxValueLength →
        ptr + 8 + sigSpan build build.maxKeyLength ≤ pktLen)
      (next : ptr + 8 + bodySize packet (ptr + 2) < pktLen → Framed (ptr + 8 + bodySize packet (ptr + 2))) :
      Framed ptr

/-- The header and the magic number are inside, and so are the requests behind a right one. -/
def PacketFramed : Prop :=
  Sender.eiuHdrLen + 2 ≤ pktLen ∧
    (word16 (fun k => packet (Sender.eiuHdrLen + k)) = protocolMagic →
      Framed build packet pktLen (Sender.eiuHdrLen + 2))

end Framing

section Inside

variable {build : Build} {memcpy : Memcpy} {env : Env} {packet : Nat → Byte} {pktLen : Nat} {ip : BitVec 32}
  {port : BitVec 16}

theorem searchAttempts_inside {key nkey : Nat} (header : 12 ≤ key) (span : key + keySpan build nkey ≤ pktLen)
    (ids : List Nat) (kk : Nat) (r : State) :
    Inside (searchAttempts build (.cut packet pktLen) key nkey ip port ids kk r) := by
  induction ids generalizing kk r with
  | nil => exact Inside.ok _
  | cons id again ih =>
    simp only [searchAttempts]
    split
    · exact Inside.ok _
    · apply Inside.bind ((addSearch_extent build ip port header nkey _).inside_iff.mpr span)
      intro added _
      exact ih _ _

theorem searchAttempts_body {v : View} {key nkey body kk last : Nat} {ids : List Nat} {r after : State}
    (result : searchAttempts build v key nkey ip port ids kk r = .ok (.goesOn body last after)) : body = nkey := by
  induction ids generalizing kk r with
  | nil =>
    cases result
    rfl
  | cons id again ih =>
    simp only [searchAttempts] at result
    split at result
    · cases result
    · cases added : addSearch build v key nkey ip port (r.bufs id) with
      | error stop =>
        rw [added] at result
        cases result
      | ok buf =>
        rw [added] at result
        exact ih result

theorem getRequest_read {ptr : Nat} (field : ptr + 2 ≤ pktLen) (attempts : Attempts) (kk : Nat) (r : State) :
    getRequest build (.cut packet pktLen) attempts ip port ptr kk r =
      if keyLengthAt packet ptr ≠ build.maxKeyLength then .ok (.goesOn (keyLengthAt packet ptr) kk r)
      else searchAttempts build (.cut packet pktLen) (ptr + 2) (keyLengthAt packet ptr) ip port attempts.ids kk r := by
  rw [getRequest, View.read_cut packet field]
  rfl

theorem setRequest_read {ptr : Nat} (fields : ptr + 6 ≤ pktLen) (supply : Supply) (evictions : Nat → Attempts)
    (attempts : Attempts) (kk : Nat) (r : State) :
    setRequest build memcpy (.cut packet pktLen) supply evictions attempts ptr kk r =
      setItem build memcpy (.cut packet pktLen) supply evictions attempts (keyLengthAt packet ptr)
        (valueLengthAt packet (ptr + 2)) (ptr + 6) kk r := by
  rw [setRequest, View.read_cut packet (by omega : ptr + 2 ≤ pktLen),
    View.read_cut packet (by omega : ptr + 2 + 4 ≤ pktLen)]
  rfl

theorem request_read {ptr : Nat} (field : ptr + 2 ≤ pktLen) (n kk : Nat) (r : State) :
    request build memcpy env (.cut packet pktLen) ip port n ptr kk r =
      if jobTypeAt packet ptr = endMark then .ok (.returns kk r)
      else if jobTypeAt packet ptr = megaJobGet then
        getRequest build (.cut packet pktLen) (env.attempts n) ip port (ptr + 2) kk r
      else if jobTypeAt packet ptr = megaJobSet then
        setRequest build memcpy (.cut packet pktLen) (env.supply n) (env.evictions n) (env.attempts n) (ptr + 2) kk r
      else .ok (.returns (-1) r) := by
  rw [request, View.read_cut packet field]
  rfl

theorem getRequest_inside {ptr : Nat} (header : 12 ≤ ptr) (field : ptr + 2 ≤ pktLen)
    (key : keyLengthAt packet ptr = build.maxKeyLength → ptr + 2 + keySpan build build.maxKeyLength ≤ pktLen)
    (attempts : Attempts) (kk : Nat) (r : State) :
    Inside (getRequest build (.cut packet pktLen) attempts ip port ptr kk r) ∧
      ∀ body last after, getRequest build (.cut packet pktLen) attempts ip port ptr kk r = .ok (.goesOn body last after) →
        body = keyLengthAt packet ptr := by
  rw [getRequest_read field]
  split
  · refine ⟨Inside.ok _, ?_⟩
    intro body last after result
    cases result
    rfl
  · rename_i right
    rw [not_not] at right
    refine ⟨searchAttempts_inside (by omega) (by rw [right]; exact key right) _ _ _, ?_⟩
    intro body last after result
    exact searchAttempts_body result

theorem insertAttempts_body {body size kk last : Nat} {it : Ptr} {hash : Hash.HashWord} {sig : Hash.Sign}
    {ids : List Nat} {r after : State}
    (result : insertAttempts size it hash sig ids kk r = .goesOn body last after) : body = size := by
  induction ids generalizing kk r with
  | nil =>
    cases result
    rfl
  | cons id again ih =>
    simp only [insertAttempts] at result
    split at result
    · cases result
    · split at result
      · cases result
      · exact ih result

theorem insertJob_inside {nkey nbyte key : Nat}
    (span : nkey = build.maxKeyLength ∧ nbyte = build.maxValueLength →
      key + sigSpan build build.maxKeyLength ≤ pktLen)
    (attempts : Attempts) (it : Ptr) (kk : Nat) (r : State) :
    Inside (insertJob build (.cut packet pktLen) attempts it nkey nbyte key kk r) ∧
      ∀ body last after, insertJob build (.cut packet pktLen) attempts it nkey nbyte key kk r =
        .ok (.goesOn body last after) → body = 4 + (nkey + nbyte) % 2 ^ 32 := by
  simp only [insertJob]
  split
  · refine ⟨Inside.ok _, ?_⟩
    intro body last after result
    cases result
    rfl
  · rename_i right
    simp only [not_or, not_not] at right
    rw [← right.1] at span
    obtain ⟨sig, read⟩ := (keySig_extent build key nkey packet pktLen).1 (span ⟨rfl, right.2⟩)
    simp only at read
    rw [read]
    refine ⟨Inside.ok _, ?_⟩
    intro body last after result
    exact insertAttempts_body (Except.ok.inj result)

theorem setItem_inside {nkey nbyte key : Nat} (body : key + (nkey + nbyte) % 2 ^ 32 ≤ pktLen)
    (span : nkey = build.maxKeyLength ∧ nbyte = build.maxValueLength →
      key + sigSpan build build.maxKeyLength ≤ pktLen)
    (supply : Supply) (evictions : Nat → Attempts) (attempts : Attempts) (kk : Nat) (r : State) :
    Inside (setItem build memcpy (.cut packet pktLen) supply evictions attempts nkey nbyte key kk r) ∧
      ∀ size last after,
        setItem build memcpy (.cut packet pktLen) supply evictions attempts nkey nbyte key kk r =
          .ok (.goesOn size last after) → size = 4 + (nkey + nbyte) % 2 ^ 32 := by
  simp only [setItem]
  cases batchAlloc supply evictions ((nkey + nbyte) % 2 ^ 32) r.memory r.batch with
  | error halt =>
    refine ⟨Inside.halt halt, ?_⟩
    intro size last after result
    cases result
  | ok allocated =>
    simp only [View.read_cut packet body]
    exact insertJob_inside span _ _ _ _

theorem not_endMark_get : megaJobGet ≠ endMark := by decide
theorem not_endMark_set : megaJobSet ≠ endMark := by decide
theorem not_get_set : megaJobSet ≠ megaJobGet := by decide

theorem requests_inside {ptr : Nat} (header : 12 ≤ ptr) (framed : Framed build packet pktLen ptr) (n kk : Nat)
    (r : State) : Inside (requests build memcpy env (.cut packet pktLen) pktLen ip port n ptr kk r) := by
  induction framed generalizing n kk r with
  | last ptr field notGet notSet =>
    rw [requests_step, request_read field, if_neg notGet, if_neg notSet]
    split <;> exact Inside.ok _
  | get ptr field isGet key next ih =>
    have served := @getRequest_inside build packet pktLen ip port (ptr + 2) (by omega) (by omega)
      (fun right => by have := key right; omega) (env.attempts n) kk r
    rw [requests_step, request_read (by omega), isGet, if_neg not_endMark_get, if_pos rfl]
    apply Inside.bind served.1
    intro outcome result
    cases outcome with
    | returns value after => exact Inside.ok _
    | goesOn body last after =>
      have size := served.2 body last after result
      simp only [size]
      split
      · exact Inside.ok _
      · exact ih (by omega) (by omega) _ _ _
  | set ptr fields isSet body key next ih =>
    rw [requests_step, request_read (by omega), isSet, if_neg not_endMark_set, if_neg not_get_set, if_pos rfl,
      setRequest_read (by omega)]
    have served := @setItem_inside build memcpy packet pktLen (keyLengthAt packet (ptr + 2))
      (valueLengthAt packet (ptr + 4)) (ptr + 8) body key (env.supply n) (env.evictions n) (env.attempts n) kk r
    apply Inside.bind served.1
    intro outcome result
    cases outcome with
    | returns value after => exact Inside.ok _
    | goesOn size last after =>
      have whole : ptr + 4 + size = ptr + 8 + bodySize packet (ptr + 2) := by
        have length : size = 4 + bodySize packet (ptr + 2) := served.2 size last after result
        omega
      simp only [whole]
      split
      · exact Inside.ok _
      · exact ih (by omega) (by omega) _ _ _

end Inside

section Room

def Endless (m : Memory) (batch : Batch) : Prop := (∀ i, batch.localSlab i ≠ none) ∧ ∀ p, (m.heap p).next ≠ none

def JobsEmpty (buf : BatchBuf) : Prop :=
  buf.numSearchJob = 0 ∧ buf.numInsertJob = 0 ∧ ∀ block, (buf.insertBuf block).numInsertJob = 0

structure Roomy (n : Nat) (r : State) : Prop where
  lists : Endless r.memory r.batch
  jobs : ∀ id, n ≤ id → JobsEmpty (r.bufs id)

def roomyEnv : Env :=
  { supply := fun _ => ⟨true, true⟩, evictions := fun _ _ => ⟨0, []⟩, attempts := fun n => ⟨n, []⟩ }

variable {build : Build} {packet : Nat → Byte} {pktLen : Nat} {ip : BitVec 32} {port : BitVec 16} {n : Nat} {r : State}

theorem Roomy.later (room : Roomy n r) : Roomy (n + 1) r :=
  ⟨room.lists, fun id after => room.jobs id (Nat.le_of_succ_le after)⟩

theorem Roomy.setBuf (room : Roomy n r) (buf : BatchBuf) : Roomy (n + 1) (r.setBuf n buf) := by
  refine ⟨room.lists, ?_⟩
  intro id after
  have other : id ≠ n := Nat.ne_of_gt after
  simp only [State.setBuf, Function.update_of_ne other]
  exact room.jobs id (Nat.le_of_succ_le after)

theorem Endless.setItem {m : Memory} {batch : Batch} (lists : Endless m batch) (it : Ptr) {item : Item}
    (next : item.next = (m.heap it).next) : Endless { m with heap := Function.update m.heap it item } batch := by
  refine ⟨lists.1, ?_⟩
  intro p
  by_cases same : p = it
  · rw [same]
    simp only [Function.update_self, next]
    exact lists.2 it
  · simp only [Function.update_of_ne same]
    exact lists.2 p

theorem Endless.memcpyData {m : Memory} {batch : Batch} (lists : Endless m batch) (it : Ptr) (size : Nat)
    (bytes : Nat → Byte) : Endless (Receiver.memcpyData it size bytes m) batch :=
  lists.setItem it rfl

theorem Endless.alloc {m : Memory} {batch : Batch} (lists : Endless m batch) (supply : Supply)
    (attempts : Nat → Attempts) (size : Nat) :
    ∃ it after left, batchAlloc supply attempts size m batch = .ok (it, after, left) ∧ Endless after left := by
  obtain ⟨it, head⟩ := Option.ne_none_iff_exists'.mp (lists.1 (pickList size))
  have kept : refill supply attempts size (pickList size) m batch = .ok (m, batch) := by
    rw [refill, head]
  rw [batchAlloc, kept]
  simp only [takeItem, head]
  have cleared : Endless { m with heap := Function.update m.heap it { m.heap it with flags := 0 } } batch :=
    lists.setItem it rfl
  refine ⟨it, _, _, rfl, ?_, cleared.2⟩
  intro i
  by_cases same : i = pickList size
  · rw [same]
    simp only [Function.update_self]
    exact lists.2 it
  · simp only [Function.update_of_ne same]
    exact lists.1 i

theorem searchAttempts_roomy (room : Roomy n r) {key : Nat} (header : 12 ≤ key) (nkey kk : Nat)
    (inside : Inside (searchAttempts build (.cut packet pktLen) key nkey ip port [n] kk r)) :
    key + keySpan build nkey ≤ pktLen ∧ ∃ after,
      searchAttempts build (.cut packet pktLen) key nkey ip port [n] kk r = .ok (.goesOn nkey (kk + 1) after) ∧
        Roomy (n + 1) after := by
  have free : ¬batchMaxSearchJob - 1 ≤ (r.bufs n).numSearchJob := by
    rw [(room.jobs n (Nat.le_refl n)).1]
    decide
  simp only [searchAttempts, if_neg free] at inside ⊢
  have extent := addSearch_extent build ip port header nkey (r.bufs n)
  have span := extent.inside_iff.mp inside.first
  obtain ⟨added, result⟩ := (extent packet pktLen).1 span
  simp only at result
  rw [result]
  exact ⟨span, _, rfl, (room.setBuf added).1, (room.setBuf added).2⟩

theorem getRequest_roomy (room : Roomy n r) {ptr : Nat} (header : 12 ≤ ptr) (kk : Nat)
    (inside : Inside (getRequest build (.cut packet pktLen) ⟨n, []⟩ ip port ptr kk r)) :
    ptr + 2 ≤ pktLen ∧
      (keyLengthAt packet ptr = build.maxKeyLength → ptr + 2 + keySpan build build.maxKeyLength ≤ pktLen) ∧
      ∃ last after, getRequest build (.cut packet pktLen) ⟨n, []⟩ ip port ptr kk r =
        .ok (.goesOn (keyLengthAt packet ptr) last after) ∧ Roomy (n + 1) after := by
  have field : ptr + 2 ≤ pktLen := (word_extent ptr (by decide : 2 ≠ 0)).inside_iff.mp inside.first
  refine ⟨field, ?_⟩
  rw [getRequest_read field] at inside ⊢
  by_cases wrong : keyLengthAt packet ptr ≠ build.maxKeyLength
  · rw [if_pos wrong]
    exact ⟨fun right => absurd right wrong, kk, r, rfl, room.later⟩
  · rw [if_neg wrong] at inside ⊢
    obtain ⟨span, after, result, left⟩ := searchAttempts_roomy room (by omega) _ _ inside
    rw [not_not] at wrong
    rw [wrong] at span
    exact ⟨fun _ => span, kk + 1, after, result, left⟩

theorem insertAttempts_roomy (room : Roomy n r) (body kk : Nat) (it : Ptr) (hash : Hash.HashWord) (sig : Hash.Sign) :
    ∃ after, insertAttempts body it hash sig [n] kk r = .goesOn body kk after ∧ Roomy (n + 1) after := by
  obtain ⟨_, inserts, blocks⟩ := room.jobs n (Nat.le_refl n)
  have free : ¬(batchMaxInsertJob - 1) <<< bitsInsertBuf ≤ (r.bufs n).numInsertJob := by
    rw [inserts]
    decide
  have slot : ¬batchMaxInsertJob ≤ ((r.bufs n).insertBuf (insertBlockId hash)).numInsertJob + 1 := by
    rw [blocks]
    decide
  simp only [insertAttempts, if_neg free, if_neg slot]
  exact ⟨_, rfl, room.setBuf _⟩

theorem insertJob_roomy (room : Roomy n r) (it : Ptr) (nkey nbyte key kk : Nat)
    (inside : Inside (insertJob build (.cut packet pktLen) ⟨n, []⟩ it nkey nbyte key kk r)) :
    (nkey = build.maxKeyLength ∧ nbyte = build.maxValueLength →
        key + sigSpan build build.maxKeyLength ≤ pktLen) ∧
      ∃ last after, insertJob build (.cut packet pktLen) ⟨n, []⟩ it nkey nbyte key kk r =
        .ok (.goesOn (4 + (nkey + nbyte) % 2 ^ 32) last after) ∧ Roomy (n + 1) after := by
  simp only [insertJob] at inside ⊢
  by_cases wrong : nkey ≠ build.maxKeyLength ∨ nbyte ≠ build.maxValueLength
  · rw [if_pos wrong]
    refine ⟨?_, kk, _, rfl, (room.lists.setItem it rfl), room.later.jobs⟩
    intro given
    rcases given with ⟨left, right⟩
    exact wrong.elim (absurd left) (absurd right)
  · rw [if_neg wrong] at inside ⊢
    have extent := keySig_extent build key nkey
    have span := extent.inside_iff.mp inside.first
    obtain ⟨sig, result⟩ := (extent packet pktLen).1 span
    simp only [not_or, not_not] at wrong
    simp only at result
    rw [result]
    have counted : Roomy n { r with numInsertJob := r.numInsertJob + 1 } := ⟨room.lists, room.jobs⟩
    obtain ⟨after, inserted, left⟩ := insertAttempts_roomy counted (4 + (nkey + nbyte) % 2 ^ 32) (kk + 1) it (sigHash sig)
      (sigSign sig)
    rw [wrong.1] at span
    exact ⟨fun _ => span, kk + 1, after, congrArg Except.ok inserted, left⟩

theorem setItem_roomy (room : Roomy n r) (nkey nbyte key kk : Nat)
    (inside : Inside (setItem build memcpyData (.cut packet pktLen) (roomyEnv.supply n) (roomyEnv.evictions n) ⟨n, []⟩
      nkey nbyte key kk r)) :
    ((nkey + nbyte) % 2 ^ 32 = 0 ∨ key + (nkey + nbyte) % 2 ^ 32 ≤ pktLen) ∧
      (nkey = build.maxKeyLength ∧ nbyte = build.maxValueLength →
        key + sigSpan build build.maxKeyLength ≤ pktLen) ∧
      ∃ last after, setItem build memcpyData (.cut packet pktLen) (roomyEnv.supply n) (roomyEnv.evictions n) ⟨n, []⟩
        nkey nbyte key kk r = .ok (.goesOn (4 + (nkey + nbyte) % 2 ^ 32) last after) ∧ Roomy (n + 1) after := by
  obtain ⟨it, m, batch, allocated, lists⟩ := room.lists.alloc (roomyEnv.supply n) (roomyEnv.evictions n)
    ((nkey + nbyte) % 2 ^ 32)
  simp only [setItem, allocated] at inside ⊢
  have extent := @read_extent Halt key ((nkey + nbyte) % 2 ^ 32)
  have span := extent.inside_iff.mp inside.first
  obtain ⟨bytes, result⟩ := (extent packet pktLen).1 span
  simp only at result
  rw [result] at inside ⊢
  have headed : Endless
      { m with heap := Function.update m.heap it { m.heap it with nkey := nkey, nbytes := nbyte } } batch :=
    lists.setItem it rfl
  have stored : Roomy n
      { r with
        memory := memcpyData it ((nkey + nbyte) % 2 ^ 32) bytes
          { m with heap := Function.update m.heap it { m.heap it with nkey := nkey, nbytes := nbyte } }
        batch := batch } :=
    ⟨headed.memcpyData it _ bytes, room.jobs⟩
  obtain ⟨signature, finished⟩ := insertJob_roomy stored it nkey nbyte key kk inside
  refine ⟨?_, signature, finished⟩
  split at span
  · exact .inl ‹_›
  · exact .inr span

theorem framed_of_inside (room : Roomy n r) {ptr : Nat} (header : 12 ≤ ptr) (kk : Nat)
    (inside : Inside (requests build memcpyData roomyEnv (.cut packet pktLen) pktLen ip port n ptr kk r)) :
    Framed build packet pktLen ptr := by
  generalize left : pktLen - ptr = rounds
  induction rounds using Nat.strong_induction_on generalizing n ptr kk r with
  | h rounds ih =>
    rw [requests_step] at inside
    have whole := inside.first
    have field : ptr + 2 ≤ pktLen := (word_extent ptr (by decide : 2 ≠ 0)).inside_iff.mp whole.first
    rw [request_read field] at inside whole
    by_cases isGet : jobTypeAt packet ptr = megaJobGet
    · rw [isGet, if_neg not_endMark_get, if_pos rfl] at inside whole
      obtain ⟨fields, key, last, after, result, later⟩ := getRequest_roomy room (by omega) kk whole
      refine .get ptr (by omega) isGet (fun right => by have := key right; omega) ?_
      intro more
      change Inside (getRequest build (.cut packet pktLen) ⟨n, []⟩ ip port (ptr + 2) kk r >>= _) at inside
      rw [result] at inside
      change Inside (if pktLen ≤ ptr + 4 + keyLengthAt packet (ptr + 2) then .ok (-1, after)
        else requests build memcpyData roomyEnv (.cut packet pktLen) pktLen ip port (n + 1)
          (ptr + 4 + keyLengthAt packet (ptr + 2)) last after) at inside
      rw [if_neg (by omega)] at inside
      exact ih (pktLen - (ptr + 4 + keyLengthAt packet (ptr + 2))) (by omega) later (by omega) last inside rfl
    · by_cases isSet : jobTypeAt packet ptr = megaJobSet
      · rw [isSet, if_neg not_endMark_set, if_neg not_get_set, if_pos rfl] at inside whole
        have key : ptr + 2 + 2 ≤ pktLen := (word_extent (ptr + 2) (by decide : 2 ≠ 0)).inside_iff.mp whole.first
        have fields : ptr + 8 ≤ pktLen := by
          rw [setRequest, View.read_cut packet key] at whole
          exact (word_extent (ptr + 4) (by decide : 4 ≠ 0)).inside_iff.mp (Inside.first whole)
        rw [setRequest_read (by omega)] at inside whole
        obtain ⟨body, signature, last, after, result, later⟩ := setItem_roomy room _ _ _ kk whole
        have size : bodySize packet (ptr + 2) = 0 ∨ ptr + 8 + bodySize packet (ptr + 2) ≤ pktLen := body
        refine .set ptr fields isSet (by omega) signature ?_
        intro more
        change Inside (setItem build memcpyData (.cut packet pktLen) (roomyEnv.supply n) (roomyEnv.evictions n) ⟨n, []⟩
          (keyLengthAt packet (ptr + 2)) (valueLengthAt packet (ptr + 2 + 2)) (ptr + 2 + 6) kk r >>= _) at inside
        rw [result] at inside
        change Inside (if pktLen ≤ ptr + 4 + (4 + bodySize packet (ptr + 2)) then .ok (-1, after)
          else requests build memcpyData roomyEnv (.cut packet pktLen) pktLen ip port (n + 1)
            (ptr + 4 + (4 + bodySize packet (ptr + 2))) last after) at inside
        rw [← Nat.add_assoc (ptr + 4) 4] at inside
        rw [if_neg (by omega)] at inside
        exact ih (pktLen - (ptr + 8 + bodySize packet (ptr + 2))) (by omega) later (by omega) last inside rfl
      · exact .last ptr field isGet isSet

end Room

section Whole

variable {build : Build} {memcpy : Memcpy} {env : Env} {packet : Nat → Byte} {pktLen : Nat}

theorem processPacket_read (header : Sender.eiuHdrLen + 2 ≤ pktLen) (r : State) :
    processPacket build memcpy env (.cut packet pktLen) pktLen r =
      if word16 (fun k => packet (Sender.eiuHdrLen + k)) ≠ protocolMagic then .ok (-1, r)
      else requests build memcpy env (.cut packet pktLen) pktLen (dataWord (fun k => packet (26 + k)) 0)
        (word16 (fun k => packet (34 + k))) 0 (Sender.eiuHdrLen + 2) 0 r := by
  have length : 44 ≤ pktLen := header
  rw [processPacket, View.read_cut packet (by omega : 26 + 4 ≤ pktLen), View.read_cut packet (by omega : 34 + 2 ≤ pktLen),
    View.read_cut packet header]
  rfl

/-- The parser reads no byte behind the packet, in no state and whatever the other threads do. -/
def StaysInside (build : Build) (packet : Nat → Byte) (pktLen : Nat) : Prop :=
  ∀ memcpy env r, Inside (processPacket build memcpy env (.cut packet pktLen) pktLen r)

def SameResult (build : Build) (packet : Nat → Byte) (pktLen : Nat) : Prop :=
  ∀ memcpy env r other, (∀ k < pktLen, other k = packet k) →
    processPacket build memcpy env (.whole other) pktLen r = processPacket build memcpy env (.whole packet) pktLen r

theorem StaysInside.sameResult (inside : StaysInside build packet pktLen) : SameResult build packet pktLen := by
  intro memcpy env r other agree
  have stable := processPacket_stable build memcpy env pktLen r
  have here := stable _ _ (View.cut_le_whole packet pktLen) (inside memcpy env r)
  have there := stable _ _ (View.cut_le_whole other pktLen)
  rw [View.cut_congr agree] at there
  exact (there (inside memcpy env r)).trans here.symm

theorem PacketFramed.inside (framed : PacketFramed build packet pktLen) : StaysInside build packet pktLen := by
  intro memcpy env r
  rw [processPacket_read framed.1]
  split
  · exact Inside.ok _
  · rename_i right
    rw [not_not] at right
    exact requests_inside (by decide) (framed.2 right) _ _ _

def roomyItem : Item := { Sender.plainItem with next := some ⟨0, 0⟩ }

def emptyBuf : BatchBuf :=
  { searchJobList := fun _ =>
      { ethAddr := 0, ip := 0, port := 0, num := 0, index := 0, key := fun _ => 0, nkey := 0 }
    searchOut := fun _ => 0
    numCompactSearchJob := 0
    numSearchJob := 0
    searchIn := fun _ => ⟨0, 0⟩
    insertJobList := fun _ => ⟨0, 0⟩
    numInsertJob := 0
    insertBuf := fun _ => { insertIn := fun _ => ⟨0, 0, 0⟩, numInsertJob := 0 } }

def roomyState : State :=
  { memory := Sender.uniformMemory roomyItem
    batch := { localSlab := fun _ => some ⟨0, 0⟩, buf := fun _ => { numDeleteJob := 0, deleteIn := fun _ => ⟨0, 0, 0⟩ } }
    bufs := fun _ => emptyBuf
    numSearchJob := 0
    numInsertJob := 0 }

theorem roomyState_roomy : Roomy 0 roomyState :=
  ⟨⟨fun _ => Option.some_ne_none _, fun _ => Option.some_ne_none _⟩, fun _ _ => ⟨rfl, rfl, fun _ => rfl⟩⟩

theorem StaysInside.framed (inside : StaysInside build packet pktLen) : PacketFramed build packet pktLen := by
  have whole := inside memcpyData roomyEnv roomyState
  have header : Sender.eiuHdrLen + 2 ≤ pktLen := by
    have ip : 26 + 4 ≤ pktLen := (word_extent 26 (by decide : 4 ≠ 0)).inside_iff.mp whole.first
    rw [processPacket, View.read_cut packet ip] at whole
    have port : 34 + 2 ≤ pktLen := (word_extent 34 (by decide : 2 ≠ 0)).inside_iff.mp (Inside.first whole)
    rw [View.read_cut packet port] at whole
    exact (word_extent Sender.eiuHdrLen (by decide : 2 ≠ 0)).inside_iff.mp (Inside.first whole)
  refine ⟨header, ?_⟩
  intro right
  rw [processPacket_read header, if_neg (not_not_intro right)] at whole
  exact framed_of_inside roomyState_roomy (by decide) _ whole

theorem parser_stays_inside_iff (build : Build) (packet : Nat → Byte) (pktLen : Nat) :
    StaysInside build packet pktLen ∧ SameResult build packet pktLen ↔ PacketFramed build packet pktLen :=
  ⟨fun both => both.1.framed, fun framed => ⟨framed.inside, framed.inside.sameResult⟩⟩

end Whole

section EndOfPacket

def magicPacket (field : Byte) : Nat → Byte := fun k =>
  if k < Sender.eiuHdrLen then 0
  else if k = Sender.eiuHdrLen then 0x34
  else if k = Sender.eiuHdrLen + 1 then 0x12
  else field

theorem magicPacket_type (field : Byte) (ip : BitVec 32) (port : BitVec 16) :
    request defaultBuild memcpyData roomyEnv (.whole (magicPacket field)) ip port 0 (Sender.eiuHdrLen + 2) 0 roomyState =
      if field ++ field = endMark then .ok (.returns 0 roomyState)
      else if field ++ field = megaJobGet then
        getRequest defaultBuild (.whole (magicPacket field)) ⟨0, []⟩ ip port 46 0 roomyState
      else if field ++ field = megaJobSet then
        setRequest defaultBuild memcpyData (.whole (magicPacket field)) ⟨true, true⟩ (fun _ => ⟨0, []⟩) ⟨0, []⟩ 46 0
          roomyState
      else .ok (.returns (-1) roomyState) := by
  rw [request, View.read_whole]
  rfl

theorem magicPacket_result {field : Byte} {value : Int}
    (ended : ∀ ip port, request defaultBuild memcpyData roomyEnv (.whole (magicPacket field)) ip port 0 (Sender.eiuHdrLen + 2) 0 roomyState =
      .ok (.returns value roomyState)) :
    processPacket defaultBuild memcpyData roomyEnv (.whole (magicPacket field)) 44 roomyState =
      .ok (value, roomyState) := by
  rw [processPacket, View.read_whole, View.read_whole, View.read_whole]
  have right : word16 (View.window (magicPacket field) Sender.eiuHdrLen 2) = protocolMagic := by
    simp [word16, View.window, magicPacket, Sender.eiuHdrLen, protocolMagic]
  change (if word16 (View.window (magicPacket field) Sender.eiuHdrLen 2) ≠ protocolMagic then _ else _) = _
  rw [if_neg (not_not_intro right), requests_step, ended]
  rfl

/-- The packet is over behind the magic number, and the parser takes the next two bytes for a job type. -/
theorem parser_reads_behind_packet :
    ¬StaysInside defaultBuild (magicPacket 0) 44 ∧ ¬SameResult defaultBuild (magicPacket 0) 44 := by
  constructor
  · intro inside
    have framed := inside.framed.2 rfl
    cases framed with
    | last _ field => exact absurd field (by decide)
    | get _ field => exact absurd field (by decide)
    | set _ fields => exact absurd fields (by decide)
  · intro same
    have agree : ∀ k < 44, magicPacket 0xFF k = magicPacket 0 k := by decide
    have results := same memcpyData roomyEnv roomyState (magicPacket 0xFF) agree
    rw [magicPacket_result (fun ip port => magicPacket_type 0xFF ip port),
      magicPacket_result (fun ip port => magicPacket_type 0 ip port)] at results
    have values := congrArg Prod.fst (Except.ok.inj results)
    exact absurd values (by decide)

end EndOfPacket

end MegaKV.Receiver
