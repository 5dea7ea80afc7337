import MegaKV.Hash.Operations

namespace MegaKV.Hash

open Library

variable {g : Geometry}

section Outputs

def located (b : Bucket g) (sig : Sign) : Option Loc :=
  ((List.finRange g.elemNum).find? fun simdLane => b.sig simdLane == sig).map b.loc

def OneWriter (b : Bucket g) (sig : Sign) : Prop :=
  ∀ left right, b.sig left = sig → b.sig right = sig → left = right

theorem located_none {b : Bucket g} {sig : Sign} (absent : ∀ simdLane, b.sig simdLane ≠ sig) :
    located b sig = none := by
  have found : (List.finRange g.elemNum).find? (fun simdLane => b.sig simdLane == sig) = none := by
    rw [List.find?_eq_none]
    intro simdLane _
    simpa using absent simdLane
  rw [located, found, Option.map_none]

theorem located_some {b : Bucket g} {sig : Sign} {simdLane : g.Lane} (single : OneWriter b sig)
    (held : b.sig simdLane = sig) : located b sig = some (b.loc simdLane) := by
  cases found : (List.finRange g.elemNum).find? fun simdLane => b.sig simdLane == sig with
  | none =>
    rw [List.find?_eq_none] at found
    have missed := found simdLane (List.mem_finRange simdLane)
    simp only [held, beq_self_eq_true, not_true_eq_false] at missed
  | some other =>
    have holds : b.sig other = sig := by simpa using List.find?_some found
    rw [located, found, single other simdLane holds held, Option.map_some]

theorem lanesWrite_absent {b : Bucket g} {sig : Sign} (absent : ∀ simdLane, b.sig simdLane ≠ sig)
    (order : LaneOrder g) (cell : Loc) : lanesWrite b sig order cell = cell := by
  apply settle_idle
  intro simdLane _
  simpa using absent simdLane

theorem lanesWrite_held {b : Bucket g} {sig : Sign} {simdLane : g.Lane} (single : OneWriter b sig)
    (held : b.sig simdLane = sig) (order : LaneOrder g) (cell : Loc) :
    lanesWrite b sig order cell = b.loc simdLane := by
  apply settle_agreed (order.complete simdLane)
  · simpa using held
  · intro other writes
    rw [single other simdLane (by simpa using writes) held]

theorem lanesWrite_located {b : Bucket g} {sig : Sign} (single : OneWriter b sig) (order : LaneOrder g) (cell : Loc) :
    lanesWrite b sig order cell = (located b sig).getD cell := by
  by_cases present : ∃ simdLane, b.sig simdLane = sig
  · obtain ⟨simdLane, held⟩ := present
    rw [lanesWrite_held single held, located_some single held, Option.getD_some]
  · have absent := not_exists.mp present
    rw [lanesWrite_absent absent, located_none absent, Option.getD_none]

theorem searchElem_first (table : Table g) (schedule : Schedule g) (id : Nat) (elem : SElem) (out : Nat → Loc) :
    searchElem table schedule id elem out (id <<< 1) =
      lanesWrite (table (bucketIndex g elem.hash)) elem.sig schedule.first (out (id <<< 1)) := by
  unfold searchElem
  rw [Function.update_of_ne (Nat.ne_of_lt (Nat.lt_succ_self (id <<< 1))), Function.update_self]

theorem searchElem_second (table : Table g) (schedule : Schedule g) (id : Nat) (elem : SElem) (out : Nat → Loc) :
    searchElem table schedule id elem out ((id <<< 1) + 1) =
      lanesWrite (table (secondIndex g elem.hash elem.sig)) elem.sig schedule.second (out ((id <<< 1) + 1)) := by
  unfold searchElem
  rw [Function.update_self, Function.update_of_ne (Nat.succ_ne_self (id <<< 1))]

theorem searchElem_other {table : Table g} {schedule : Schedule g} {id position : Nat} {elem : SElem} {out : Nat → Loc}
    (first : position ≠ id <<< 1) (second : position ≠ (id <<< 1) + 1) :
    searchElem table schedule id elem out position = out position := by
  simp only [searchElem, Function.update_of_ne second, Function.update_of_ne first]

theorem hashSearch_before {table : Table g} {schedule : Nat → Schedule g} {id position : Nat} (input : List SElem)
    (out : Nat → Loc) (before : position < id <<< 1) : hashSearch table schedule id input out position = out position := by
  induction input generalizing id out with
  | nil => rfl
  | cons elem rest ih =>
    simp only [Nat.shiftLeft_eq, pow_one] at before
    rw [hashSearch, ih _ (by simp only [Nat.shiftLeft_eq, pow_one]; omega)]
    apply searchElem_other <;> simp only [Nat.shiftLeft_eq, pow_one] <;> omega

/-- What the kernel leaves in the two outputs of an element. -/
theorem hashSearch_outputs {table : Table g} {schedule : Nat → Schedule g} {id i : Nat} {input : List SElem}
    {elem : SElem} (member : input[i]? = some elem) (out : Nat → Loc) :
    hashSearch table schedule id input out ((id + i) <<< 1) =
        lanesWrite (table (bucketIndex g elem.hash)) elem.sig (schedule (id + i)).first (out ((id + i) <<< 1)) ∧
      hashSearch table schedule id input out (((id + i) <<< 1) + 1) =
        lanesWrite (table (secondIndex g elem.hash elem.sig)) elem.sig (schedule (id + i)).second
          (out (((id + i) <<< 1) + 1)) := by
  induction input generalizing id i out with
  | nil => simp at member
  | cons first rest ih =>
    cases i with
    | zero =>
      rw [List.getElem?_cons_zero, Option.some.injEq] at member
      subst member
      rw [hashSearch, Nat.add_zero]
      constructor
      · rw [hashSearch_before rest _ (by simp only [Nat.shiftLeft_eq, pow_one]; omega)]
        exact searchElem_first table (schedule id) id first out
      · rw [hashSearch_before rest _ (by simp only [Nat.shiftLeft_eq, pow_one]; omega)]
        exact searchElem_second table (schedule id) id first out
    | succ i =>
      rw [List.getElem?_cons_succ] at member
      have later := @ih (id + 1) i member (searchElem table (schedule id) id first out)
      rw [show id + 1 + i = id + (i + 1) by omega] at later
      rw [hashSearch, later.1, later.2]
      constructor <;> congr 1 <;> apply searchElem_other <;> simp only [Nat.shiftLeft_eq, pow_one] <;> omega

end Outputs

section Visibility

variable (g) in
def Queried (query : SElem) (b : g.Index) : Prop :=
  b = bucketIndex g query.hash ∨ b = secondIndex g query.hash query.sig

def Visible (table : Table g) (query : SElem) (loc : Loc) : Prop :=
  ∃ (schedule : Nat → Schedule g) (input : List SElem) (id position : Nat), input[id]? = some query ∧
    (position = id <<< 1 ∨ position = (id <<< 1) + 1) ∧
    hashSearch table schedule 0 input (fun _ => 0) position = loc

theorem searched_output {table : Table g} {query : SElem} {schedule : Nat → Schedule g} {input : List SElem}
    {id position : Nat} (member : input[id]? = some query) (output : position = id <<< 1 ∨ position = (id <<< 1) + 1) :
    ∃ b order, Queried g query b ∧
      hashSearch table schedule 0 input (fun _ => 0) position = lanesWrite (table b) query.sig order 0 := by
  have outputs := @hashSearch_outputs g table schedule 0 id input query member (fun _ => 0)
  rw [Nat.zero_add] at outputs
  rcases output with rfl | rfl
  · exact ⟨_, _, .inl rfl, outputs.1⟩
  · exact ⟨_, _, .inr rfl, outputs.2⟩

theorem searched_bucket {table : Table g} {query : SElem} {b : g.Index} (queried : Queried g query b)
    (order : LaneOrder g) : Visible table query (lanesWrite (table b) query.sig order 0) := by
  have outputs := @hashSearch_outputs g table (fun _ => ⟨order, order⟩) 0 0 [query] query rfl (fun _ => 0)
  rcases queried with rfl | rfl
  · exact ⟨_, [query], 0, _, rfl, .inl rfl, outputs.1⟩
  · exact ⟨_, [query], 0, _, rfl, .inr rfl, outputs.2⟩

theorem lanesWrite_value (b : Bucket g) (sig : Sign) (order : LaneOrder g) :
    lanesWrite b sig order 0 = 0 ∨ ∃ simdLane, b.sig simdLane = sig ∧ lanesWrite b sig order 0 = b.loc simdLane := by
  rcases @settle_value _ _ (fun simdLane => b.sig simdLane == sig) b.loc order.lanes 0 with
    kept | ⟨simdLane, _, writes, written⟩
  · exact .inl kept
  · exact .inr ⟨simdLane, by simpa using writes, written⟩

def lastly (simdLane : g.Lane) : LaneOrder g :=
  ⟨List.finRange g.elemNum ++ [simdLane], fun other => List.mem_append_left _ (List.mem_finRange other)⟩

theorem lanesWrite_lastly {b : Bucket g} {sig : Sign} {simdLane : g.Lane} (held : b.sig simdLane = sig) :
    lanesWrite b sig (lastly simdLane) 0 = b.loc simdLane := by
  simp [lanesWrite, settle, lastly, held]

theorem visible_iff {table : Table g} {query : SElem} {loc : Loc} (nonzero : loc ≠ 0) :
    Visible table query loc ↔ ∃ slot, Queried g query slot.1 ∧ entry table slot = (query.sig, loc) := by
  constructor
  · intro given
    rcases given with ⟨schedule, input, id, position, member, output, value⟩
    obtain ⟨b, order, queried, written⟩ := @searched_output g table query schedule input id position member output
    rw [written] at value
    rcases lanesWrite_value (table b) query.sig order with zero | ⟨simdLane, held, same⟩
    · exact absurd (value.symm.trans zero) nonzero
    · exact ⟨(b, simdLane), queried, Prod.ext held (same.symm.trans value)⟩
  · intro slot
    rcases slot with ⟨⟨b, simdLane⟩, queried, stored⟩
    have held : (table b).sig simdLane = query.sig := congrArg Prod.fst stored
    have value : (table b).loc simdLane = loc := congrArg Prod.snd stored
    rw [← value, ← lanesWrite_lastly held]
    exact searched_bucket queried (lastly simdLane)

end Visibility

section Signatures

theorem setLoc_sig (table : Table g) (b c : g.Index) (simdLane : g.Lane) (loc : Loc) :
    (setLoc table b simdLane loc c).sig = (table c).sig := by
  by_cases same : c = b
  · subst same
    simp [setLoc]
  · simp [setLoc, same]

theorem setSig_sig (table : Table g) (b : g.Index) (simdLane : g.Lane) (sig : Sign) :
    (setSig table b simdLane sig b).sig = Function.update (table b).sig simdLane sig := by
  simp [setSig]

theorem setSig_other (table : Table g) {b c : g.Index} (simdLane : g.Lane) (sig : Sign) (different : c ≠ b) :
    setSig table b simdLane sig c = table c := by
  simp [setSig, different]

def Unique (table : Table g) : Prop := ∀ b sig, sig ≠ 0 → OneWriter (table b) sig

theorem unique_zero : Unique (zeroTable g) := by
  intro b sig nonzero left right held _
  exact absurd held.symm nonzero

variable {table : Table g}

theorem Unique.setLoc (unique : Unique table) (b : g.Index) (simdLane : g.Lane) (loc : Loc) :
    Unique (setLoc table b simdLane loc) := by
  intro c sig nonzero left right
  rw [setLoc_sig]
  exact unique c sig nonzero left right

theorem Unique.setSig (unique : Unique table) {b : g.Index} {sig : Sign} (absent : ∀ other, (table b).sig other ≠ sig)
    (simdLane : g.Lane) : Unique (setSig table b simdLane sig) := by
  intro c other nonzero left right
  by_cases same : c = b
  · subst same
    rw [setSig_sig]
    by_cases here : left = simdLane <;> by_cases there : right = simdLane
    · exact fun _ _ => here.trans there.symm
    · subst here
      rw [Function.update_self, Function.update_of_ne there]
      exact fun written held => absurd (held.trans written.symm) (absent right)
    · subst there
      rw [Function.update_self, Function.update_of_ne here]
      exact fun held written => absurd (held.trans written.symm) (absent left)
    · rw [Function.update_of_ne here, Function.update_of_ne there]
      exact unique c other nonzero left right
  · rw [setSig_other table simdLane sig same]
    exact unique c other nonzero left right

theorem Unique.putElem (unique : Unique table) {b : g.Index} {sig : Sign} (absent : ∀ other, (table b).sig other ≠ sig)
    (simdLane : g.Lane) (loc : Loc) : Unique (putElem table b simdLane sig loc) :=
  (unique.setSig absent simdLane).setLoc b simdLane loc

theorem probe_full_absent {b : Bucket g} {mask : BitVec 32} {sig : Sign} (full : probe b mask sig = .full) :
    ∀ other, b.sig other ≠ sig := fun other => ((probe_full_iff b mask sig).mp full other).1

theorem Unique.evict {elem : IElem} {carry : Carry g} (unique : Unique carry.table)
    (full : carry.found elem = .full) : Unique (carry.evict elem).table :=
  unique.putElem (probe_full_absent full) _ _

theorem Unique.cuckooEvict {elem : IElem} {carry : Carry g} (unique : Unique carry.table) (left : Nat) :
    Unique (cuckooEvict elem left carry) := by
  refine @cuckooEvict_rule g elem Unique (fun carry => Unique carry.table) ?_ ?_ ?_ left carry unique
  · intro carry simdLane unique _
    exact unique.setLoc _ _ _
  · intro carry simdLane unique found
    exact unique.putElem (probe_empty found).2 _ _
  · intro carry unique full
    exact ⟨unique.evict full, unique.evict full⟩

theorem Unique.hashInsertCuckoo (unique : Unique table) (elem : IElem) : Unique (hashInsertCuckoo table elem) := by
  unfold MegaKV.Hash.hashInsertCuckoo
  split
  · exact unique
  · split
    · exact unique.setLoc _ _ _
    · rename_i found
      exact unique.putElem (probe_empty found).2 _ _
    · exact unique.cuckooEvict maxCuckooNum

theorem Unique.hashInsert2choice (unique : Unique table) (elem : IElem) : Unique (hashInsert2choice table elem) := by
  unfold MegaKV.Hash.hashInsert2choice
  split
  · exact unique
  · split
    · exact unique.setLoc _ _ _
    · rename_i found
      exact unique.putElem (probe_empty found).2 _ _
    · split
      · exact unique.setLoc _ _ _
      · rename_i found
        exact unique.putElem (probe_empty found).2 _ _
      · rename_i full
        exact unique.setSig (probe_full_absent full) _

theorem clearElem_other (table : Table g) {b c : g.Index} (elem : DElem) (different : c ≠ b) :
    clearElem table b elem c = table c := by
  simp [clearElem, different]

theorem clearElem_sig (table : Table g) (b : g.Index) (elem : DElem) (simdLane : g.Lane) :
    (clearElem table b elem b).sig simdLane =
      if holdsElem (table b) elem simdLane then 0 else (table b).sig simdLane := by
  simp [clearElem]

theorem Unique.clearElem (unique : Unique table) (b : g.Index) (elem : DElem) : Unique (clearElem table b elem) := by
  intro c sig nonzero left right
  by_cases same : c = b
  · subst same
    rw [clearElem_sig, clearElem_sig]
    split
    · exact fun cleared _ => absurd cleared.symm nonzero
    · split
      · exact fun _ cleared => absurd cleared.symm nonzero
      · exact unique c sig nonzero left right
  · rw [clearElem_other table elem same]
    exact unique c sig nonzero left right

theorem Unique.hashDelete (unique : Unique table) (elem : DElem) : Unique (hashDelete table elem) := by
  unfold MegaKV.Hash.hashDelete
  simp only
  split
  · exact unique.clearElem _ elem
  · exact (unique.clearElem _ elem).clearElem _ elem

theorem Unique.perform (unique : Unique table) (op : Op) : Unique (op.perform table) := by
  cases op with
  | cuckoo elem => exact unique.hashInsertCuckoo elem
  | twoChoice elem => exact unique.hashInsert2choice elem
  | delete elem => exact unique.hashDelete elem

theorem unique_all (ops : List Op) : Unique (performAll (zeroTable g) ops) := by
  induction ops using List.reverseRecOn with
  | nil => exact unique_zero
  | append_singleton ops op ih =>
    rw [performAll_concat]
    exact ih.perform op

theorem Run.unique {allowed : Table g → Op → Prop} {ops : List Op} (run : Run g allowed ops table) : Unique table :=
  @Run.invariant g allowed (fun _ table => Unique table) unique_zero (fun _ _ op unique _ => unique.perform op) ops table run

end Signatures

/-- At most one lane writes each output of a query, so the order of the writes does not matter. -/
theorem search_deterministic {ops : List Op} {table : Table g} (run : Run g (fun _ _ => True) ops table) :
    Unique table ∧
      ∀ (schedule : Nat → Schedule g) (input : List SElem) (id : Nat) (elem : SElem), input[id]? = some elem →
        elem.sig ≠ 0 →
        OneWriter (table (bucketIndex g elem.hash)) elem.sig ∧
          OneWriter (table (secondIndex g elem.hash elem.sig)) elem.sig ∧
          hashSearch table schedule 0 input (fun _ => 0) (id <<< 1) =
            (located (table (bucketIndex g elem.hash)) elem.sig).getD 0 ∧
          hashSearch table schedule 0 input (fun _ => 0) ((id <<< 1) + 1) =
            (located (table (secondIndex g elem.hash elem.sig)) elem.sig).getD 0 := by
  have unique := run.unique
  refine ⟨unique, ?_⟩
  intro schedule input id elem member nonzero
  have first := unique (bucketIndex g elem.hash) elem.sig nonzero
  have second := unique (secondIndex g elem.hash elem.sig) elem.sig nonzero
  have outputs := @hashSearch_outputs g table schedule 0 id input elem member (fun _ => 0)
  rw [Nat.zero_add, lanesWrite_located first, lanesWrite_located second] at outputs
  exact ⟨first, second, outputs⟩

theorem search_deterministic_single :
    (7 : Sign) ≠ 0 ∧
      hashSearch (hashInsertCuckoo (zeroTable gpuHash) ⟨7, 0, 3⟩) (fun _ => ⟨ascending gpuHash, ascending gpuHash⟩) 0
          [⟨7, 0⟩] (fun _ => 0) (0 <<< 1) =
        (located (hashInsertCuckoo (zeroTable gpuHash) ⟨7, 0, 3⟩ (bucketIndex gpuHash 0)) 7).getD 0 := by
  have run : Run gpuHash (fun _ _ => True) [.cuckoo ⟨7, 0, 3⟩] (hashInsertCuckoo (zeroTable gpuHash) ⟨7, 0, 3⟩) :=
    Run.step (.cuckoo ⟨7, 0, 3⟩) .zero trivial
  exact ⟨by decide, ((search_deterministic run).2 _ [⟨7, 0⟩] 0 ⟨7, 0⟩ rfl (by decide)).2.2.1⟩

end MegaKV.Hash
