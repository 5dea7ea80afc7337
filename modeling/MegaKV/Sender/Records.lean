import MegaKV.Sender.Frames

namespace MegaKV.Sender

open Library Slab Receiver

section Pen

variable (keyMatch : Bool)

/-- The bytes of a packet, and `pkt_ptr` as an offset from `pkt_base_ptr`. -/
structure Pen where
  frame : Nat → Byte
  ptr : Nat

def Pen.put (pen : Pen) (bytes : List Byte) : Pen :=
  { frame := store pen.frame pen.ptr bytes, ptr := pen.ptr + bytes.length }

def copied (item : Item) : List Byte :=
  if keyMatch then (List.range item.nbytes).map (fun k => item.data (item.nkey + k))
  else (List.range (item.nbytes + item.nkey)).map item.data

def recordHeader (item : Item) : List Byte := bytes16 protocolValue ++ bytes32 (BitVec.ofNat 32 item.nbytes)

/-- `WRITE_PKT`, which moves `pkt_ptr` on by the value alone. -/
def Pen.writePkt (pen : Pen) (item : Item) : Pen :=
  let pen := pen.put (recordHeader item)
  { frame := store pen.frame pen.ptr (copied keyMatch item), ptr := pen.ptr + item.nbytes }

def Pen.writeItems (items : List Item) (pen : Pen) : Pen := items.foldl (Pen.writePkt keyMatch) pen

/-- What the size check in front of `WRITE_PKT` reserves for a record. -/
def recordSize (item : Item) : Nat := if keyMatch then item.nbytes + 6 else item.nkey + item.nbytes + 6

def Pen.exceeds (pen : Pen) (item : Item) : Prop := ethernetMaxFrameLen < pen.ptr + recordSize keyMatch item

instance (pen : Pen) (item : Item) : Decidable (pen.exceeds keyMatch item) := inferInstanceAs (Decidable (_ < _))

/-- The bytes between `ptr` and `last` are records of the items, each of the size that was reserved for it. -/
def Decodes (frame : Nat → Byte) (last : Nat) : List Item → Nat → Prop
  | [], ptr => ptr = last
  | item :: rest, ptr =>
    word16 (fun k => frame (ptr + k)) = protocolValue ∧
      dataWord (fun k => frame (ptr + 2 + k)) 0 = BitVec.ofNat 32 item.nbytes ∧
      Stands frame (ptr + 6) (copied keyMatch item) ∧ Decodes frame last rest (ptr + recordSize keyMatch item)

end Pen

section Writes

variable {keyMatch : Bool} {pen : Pen} {item : Item} {items : List Item}

theorem recordHeader_length (item : Item) : (recordHeader item).length = 6 := rfl

theorem copied_length (item : Item) : (copied keyMatch item).length + 6 = recordSize keyMatch item := by
  unfold copied recordSize
  split
  · rw [List.length_map, List.length_range]
  · rw [List.length_map, List.length_range, Nat.add_comm item.nbytes]

theorem recordSize_plain (item : Item) : recordSize false item = item.nkey + item.nbytes + 6 := rfl

@[simp] theorem writePkt_ptr : (pen.writePkt keyMatch item).ptr = pen.ptr + 6 + item.nbytes := rfl

theorem writePkt_below {k : Nat} (below : k < pen.ptr) : (pen.writePkt keyMatch item).frame k = pen.frame k := by
  simp only [Pen.writePkt, Pen.put]
  rw [store_other (.inl (by omega)), store_other (.inl below)]

theorem writePkt_header : Stands (pen.writePkt keyMatch item).frame pen.ptr (recordHeader item) :=
  (store_stands _ _ _).store (.inl (Nat.le_refl _))

theorem writePkt_copied : Stands (pen.writePkt keyMatch item).frame (pen.ptr + 6) (copied keyMatch item) :=
  store_stands _ _ _

theorem writeItems_ptr (items : List Item) (pen : Pen) :
    (pen.writeItems keyMatch items).ptr = pen.ptr + (items.map fun item => 6 + item.nbytes).sum := by
  induction items generalizing pen with
  | nil => rfl
  | cons item rest ih =>
    change ((pen.writePkt keyMatch item).writeItems keyMatch rest).ptr = _
    rw [ih, writePkt_ptr, List.map_cons, List.sum_cons]
    omega

theorem writeItems_below (items : List Item) {pen : Pen} {k : Nat} (below : k < pen.ptr) :
    (pen.writeItems keyMatch items).frame k = pen.frame k := by
  induction items generalizing pen with
  | nil => rfl
  | cons item rest ih =>
    change ((pen.writePkt keyMatch item).writeItems keyMatch rest).frame k = _
    rw [ih, writePkt_below below]
    rw [writePkt_ptr]
    omega

end Writes

section Decoding

variable {keyMatch : Bool} {frame : Nat → Byte} {last : Nat}

theorem Decodes.length {items : List Item} {ptr : Nat} (decodes : Decodes keyMatch frame last items ptr) :
    last = ptr + (items.map (recordSize keyMatch)).sum := by
  induction items generalizing ptr with
  | nil => exact decodes.symm
  | cons item rest ih =>
    rw [ih decodes.2.2.2, List.map_cons, List.sum_cons, Nat.add_assoc]

/-- When the pointer passes all that is copied, the records stand one behind the other. -/
theorem writeItems_decodes {items : List Item} (whole : ∀ item ∈ items, recordSize keyMatch item = 6 + item.nbytes) (pen : Pen) :
    Decodes keyMatch (pen.writeItems keyMatch items).frame (pen.writeItems keyMatch items).ptr items pen.ptr := by
  induction items generalizing pen with
  | nil => rfl
  | cons item rest ih =>
    have size := whole item List.mem_cons_self
    have later := ih (fun other member => whole other (List.mem_cons_of_mem item member)) (pen.writePkt keyMatch item)
    have kept : ∀ k < pen.ptr + recordSize keyMatch item,
        (pen.writeItems keyMatch (item :: rest)).frame k = (pen.writePkt keyMatch item).frame k := by
      intro k below
      change ((pen.writePkt keyMatch item).writeItems keyMatch rest).frame k = _
      apply writeItems_below
      rw [writePkt_ptr]
      omega
    have header : Stands (pen.writeItems keyMatch (item :: rest)).frame pen.ptr (recordHeader item) := by
      apply writePkt_header.congr
      intro k inside
      rw [recordHeader_length] at inside
      exact kept _ (by omega)
    have number : Stands (pen.writeItems keyMatch (item :: rest)).frame (pen.ptr + 2) (bytes32 _) := header.right
    refine ⟨word16_bytes16 header.left, dataWord_bytes32 number, ?_, ?_⟩
    · apply writePkt_copied.congr
      intro k inside
      have length := @copied_length keyMatch item
      exact kept _ (by omega)
    · rw [size, ← Nat.add_assoc]
      exact later

/-- With KEY_MATCH the value is all that is copied. -/
theorem keyMatch_records_decode (items : List Item) (pen : Pen) :
    Decodes true (pen.writeItems true items).frame (pen.writeItems true items).ptr items pen.ptr := by
  apply writeItems_decodes
  intro item _
  exact Nat.add_comm _ _

/-- Without KEY_MATCH the key is copied as well, but not passed. -/
theorem records_decode_iff (items : List Item) (frame : Nat → Byte) :
    Decodes false (Pen.writeItems false items ⟨frame, eiuHdrLen⟩).frame (Pen.writeItems false items ⟨frame, eiuHdrLen⟩).ptr
      items eiuHdrLen ↔ ∀ item ∈ items, item.nkey = 0 := by
  constructor
  · intro decodes
    have reserved := decodes.length
    rw [writeItems_ptr] at reserved
    change eiuHdrLen + _ = _ at reserved
    have sizes : (items.map (recordSize false)).sum =
        (items.map fun item => 6 + item.nbytes).sum + (items.map Item.nkey).sum := by
      rw [← List.sum_map_add]
      congr 1
      apply List.map_congr_left
      intro item _
      rw [recordSize_plain]
      omega
    have keys : (items.map Item.nkey).sum = 0 := by omega
    intro item member
    exact List.sum_eq_zero_iff.mp keys item.nkey (List.mem_map_of_mem member)
  · intro keyless
    apply writeItems_decodes
    intro item member
    rw [recordSize_plain, keyless item member]
    omega

end Decoding

theorem two_records_overlap :
    ¬Pen.exceeds false ⟨fun _ => 0, eiuHdrLen⟩ plainItem ∧
      ¬Pen.exceeds false (Pen.writePkt false ⟨fun _ => 0, eiuHdrLen⟩ plainItem) plainItem ∧
      ¬Decodes false (Pen.writeItems false [plainItem, plainItem] ⟨fun _ => 0, eiuHdrLen⟩).frame
        (Pen.writeItems false [plainItem, plainItem] ⟨fun _ => 0, eiuHdrLen⟩).ptr [plainItem, plainItem] eiuHdrLen := by
  refine ⟨by decide, by decide, ?_⟩
  intro decodes
  have reserved := decodes.length
  rw [writeItems_ptr] at reserved
  cases reserved

section Packets

variable {keyMatch : Bool} {m : Memory} {buf : SearchBuf}

/-- The records of a packet are what `WRITE_PKT` writes for their items, one behind the other. -/
structure Packet.Penned (keyMatch : Bool) (m : Memory) (p : Packet) : Prop where
  values : p.records.map Record.value = p.records.map fun record => copied keyMatch (m.heap record.it)
  length : ∀ frame, p.length = (Pen.writeItems keyMatch (p.records.map fun record => m.heap record.it) ⟨frame, eiuHdrLen⟩).ptr

def Output.Penned (keyMatch : Bool) (m : Memory) (out : Output) : Prop :=
  out.current.Penned keyMatch m ∧ ∀ p ∈ out.packets, p.Penned keyMatch m

theorem startPacket_penned (job : SearchJob) : (startPacket job).Penned keyMatch m := ⟨rfl, fun _ => rfl⟩

theorem Packet.Penned.congr {p q : Packet} (penned : p.Penned keyMatch m) (records : q.records = p.records)
    (length : q.length = p.length) : q.Penned keyMatch m := by
  constructor
  · rw [records]
    exact penned.values
  · rw [records, length]
    exact penned.length

theorem Output.Penned.newPacket {out : Output} (penned : out.Penned keyMatch m) (job : SearchJob) :
    (out.newPacket job).Penned keyMatch m := by
  have closed : ∀ p ∈ out.packets ++ [out.current], p.Penned keyMatch m := by
    intro p member
    rcases List.mem_append.mp member with earlier | last
    · exact penned.2 p earlier
    · rw [List.mem_singleton.mp last]
      exact penned.1
  unfold Output.newPacket
  split
  · exact ⟨startPacket_penned job, closed⟩
  · exact ⟨startPacket_penned job, closed⟩

theorem Output.Penned.writePkt {out : Output} (penned : out.Penned keyMatch m) (index job : Nat) (it : Ptr) :
    (out.writePkt keyMatch index job it (m.heap it)).Penned keyMatch m := by
  refine ⟨⟨?_, ?_⟩, penned.2⟩
  · change ((out.current.records ++ [_]).map Record.value) = (out.current.records ++ [_]).map _
    rw [List.map_append, List.map_append, penned.1.values]
    rfl
  · intro frame
    have written := penned.1.length frame
    rw [writeItems_ptr] at written ⊢
    change out.current.length + 6 + (m.heap it).nbytes = _ + (((out.current.records ++ [_]).map _).map _).sum
    rw [List.map_append, List.map_append, List.sum_append, written]
    change _ = _ + (_ + (6 + (m.heap it).nbytes + 0))
    omega

theorem outputWriter_penned : Writer.Keeps keyMatch m buf outputWriter (Output.Penned keyMatch m) := by
  refine ⟨?_, ?_, ?_⟩
  · exact fun out job penned => penned.newPacket job
  · exact fun out g penned _ => penned.writePkt g.index g.job g.it
  · exact fun out n penned => ⟨penned.1, penned.2⟩

/-- In a build with PREFETCH_BATCH every packet is so written. -/
theorem sendBatch_penned {build : Build} {hit miss totalBytes totalPackets : Nat} {out : Output}
    (result : sendBatch build m buf hit miss totalBytes totalPackets = some out) : out.Penned build.keyMatch m := by
  simp only [sendBatch] at result
  split at result
  · cases result
  · rename_i last toSend groups
    have start : (startOutput (buf.searchJobList (firstJob build)) hit miss totalBytes totalPackets).Penned build.keyMatch m :=
      ⟨startPacket_penned _, fun _ member => by cases member⟩
    have penned := outputWriter_penned.groups start groups
    cases toSend
    · cases result
      exact penned
    · cases result
      refine ⟨penned.1, ?_⟩
      intro p member
      rcases List.mem_append.mp member with earlier | closing
      · exact penned.2 p earlier
      · rw [List.mem_singleton.mp closing]
        exact penned.1

end Packets

end MegaKV.Sender
