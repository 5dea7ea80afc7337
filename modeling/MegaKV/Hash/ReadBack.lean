import MegaKV.Hash.Placement
import MegaKV.Hash.Sources
import MegaKV.Sender.Prefetch

namespace MegaKV.Hash

variable {g : Geometry}

section Reading

/-- The location the sender takes from the outputs of a search. -/
def readLoc (buf : Sender.SearchBuf) (table : Table g) (schedule : Nat → Schedule g) (input : List SElem) (id : Nat) : Loc :=
  Sender.foundLoc { buf with searchOut := hashSearch table schedule 0 input (fun _ => 0) } id

def IElem.query (elem : IElem) : SElem := ⟨elem.sig, elem.hash⟩

variable {buf : Sender.SearchBuf} {table : Table g} {schedule : Nat → Schedule g} {input : List SElem} {id : Nat}
  {elem : IElem}

theorem readLoc_eq (member : input[id]? = some elem.query) :
    readLoc buf table schedule input id =
      if lanesWrite (table (bucketIndex g elem.hash)) elem.sig (schedule id).first 0 = 0 then
        lanesWrite (table (secondIndex g elem.hash elem.sig)) elem.sig (schedule id).second 0
      else lanesWrite (table (bucketIndex g elem.hash)) elem.sig (schedule id).first 0 := by
  have outputs := @hashSearch_outputs g table schedule 0 id input elem.query member (fun _ => 0)
  rw [Nat.zero_add] at outputs
  simp only [readLoc, Sender.foundLoc, outputs.1, outputs.2, IElem.query]

theorem entry_sig {pair : Sign × Loc} {b : g.Index} {simdLane : g.Lane} (stored : entry table (b, simdLane) = pair) :
    (table b).sig simdLane = pair.1 := congrArg Prod.fst stored

theorem entry_loc {pair : Sign × Loc} {b : g.Index} {simdLane : g.Lane} (stored : entry table (b, simdLane) = pair) :
    (table b).loc simdLane = pair.2 := congrArg Prod.snd stored

theorem read_first (unique : Unique table) (member : input[id]? = some elem.query) (sig : elem.sig ≠ 0)
    (loc : elem.loc ≠ 0) {simdLane : g.Lane}
    (stored : entry table (bucketIndex g elem.hash, simdLane) = (elem.sig, elem.loc)) :
    readLoc buf table schedule input id = elem.loc := by
  have written := lanesWrite_held (unique _ _ sig) (entry_sig stored) (schedule id).first 0
  rw [entry_loc stored] at written
  rw [readLoc_eq member, written, if_neg loc]

/-- Where only the second bucket can hold the signature, it decides what is read. -/
theorem read_second_iff (unique : Unique table) (member : input[id]? = some elem.query) (sig : elem.sig ≠ 0)
    (loc : elem.loc ≠ 0)
    (first : bucketIndex g elem.hash = secondIndex g elem.hash elem.sig ∨
      ∀ simdLane, (table (bucketIndex g elem.hash)).sig simdLane ≠ elem.sig) :
    readLoc buf table schedule input id = elem.loc ↔
      ∃ simdLane, entry table (secondIndex g elem.hash elem.sig, simdLane) = (elem.sig, elem.loc) := by
  have single := unique (secondIndex g elem.hash elem.sig) elem.sig sig
  have output : readLoc buf table schedule input id =
      lanesWrite (table (secondIndex g elem.hash elem.sig)) elem.sig (schedule id).second 0 := by
    rw [readLoc_eq member]
    rcases first with same | absent
    · rw [same, lanesWrite_located single, lanesWrite_located single]
      split
      · rfl
      · rfl
    · rw [lanesWrite_absent absent, if_pos rfl]
  rw [output]
  constructor
  · intro written
    by_cases present : ∃ simdLane, (table (secondIndex g elem.hash elem.sig)).sig simdLane = elem.sig
    · obtain ⟨simdLane, held⟩ := present
      rw [lanesWrite_held single held] at written
      exact ⟨simdLane, Prod.ext held written⟩
    · rw [lanesWrite_absent (not_exists.mp present)] at written
      exact absurd written.symm loc
  · intro given
    rcases given with ⟨simdLane, stored⟩
    rw [lanesWrite_held single (entry_sig stored)]
    exact entry_loc stored

end Reading

section TwoChoice

/-- The insertion does not come to the exit that writes the signature alone, or the slot it
    overwrites has the new location already. -/
def WritesPair (table : Table g) (elem : IElem) : Prop :=
  firstFound table elem ≠ .full ∨ secondFound table elem ≠ .full ∨
    (table (secondIndex g elem.hash elem.sig)).loc (majorLane g elem.sig) = elem.loc

variable {table : Table g} {elem : IElem}

theorem entry_setLoc_held {b : g.Index} {simdLane : g.Lane} {sig : Sign} (held : (table b).sig simdLane = sig) (loc : Loc) :
    entry (setLoc table b simdLane loc) (b, simdLane) = (sig, loc) := by
  rw [entry_setLoc, Function.update_self, held]

theorem entry_putElem_self (b : g.Index) (simdLane : g.Lane) (sig : Sign) (loc : Loc) :
    entry (putElem table b simdLane sig loc) (b, simdLane) = (sig, loc) := by
  rw [entry_putElem, Function.update_self]

inductive Exit (table : Table g) (elem : IElem) : Table g → Prop where
  | firstHeld (simdLane : g.Lane) (found : firstFound table elem = .held simdLane) :
      Exit table elem (setLoc table (bucketIndex g elem.hash) simdLane elem.loc)
  | firstEmpty (simdLane : g.Lane) (found : firstFound table elem = .empty simdLane) :
      Exit table elem (putElem table (bucketIndex g elem.hash) simdLane elem.sig elem.loc)
  | secondHeld (simdLane : g.Lane) (full : firstFound table elem = .full)
      (found : secondFound table elem = .held simdLane) :
      Exit table elem (setLoc table (secondIndex g elem.hash elem.sig) simdLane elem.loc)
  | secondEmpty (simdLane : g.Lane) (full : firstFound table elem = .full)
      (found : secondFound table elem = .empty simdLane) :
      Exit table elem (putElem table (secondIndex g elem.hash elem.sig) simdLane elem.sig elem.loc)
  | victim (first : firstFound table elem = .full) (second : secondFound table elem = .full) :
      Exit table elem (setSig table (secondIndex g elem.hash elem.sig) (majorLane g elem.sig) elem.sig)

theorem hashInsert2choice_exit (nonzero : ¬(elem.sig = 0 ∧ elem.loc = 0)) :
    Exit table elem (hashInsert2choice table elem) := by
  rw [hashInsert2choice, if_neg nonzero]
  split
  · exact .firstHeld _ ‹_›
  · exact .firstEmpty _ ‹_›
  · split
    · exact .secondHeld _ ‹_› ‹_›
    · exact .secondEmpty _ ‹_› ‹_›
    · exact .victim ‹_› ‹_›

theorem absent_other {after : Table g} {b c : g.Index} {sig : Sign} (absent : ∀ simdLane, (table c).sig simdLane ≠ sig)
    (kept : c ≠ b → after c = table c) : c = b ∨ ∀ simdLane, (after c).sig simdLane ≠ sig := by
  by_cases same : c = b
  · exact .inl same
  · right
    rw [kept same]
    exact absent

theorem setLoc_other (table : Table g) {b c : g.Index} (simdLane : g.Lane) (loc : Loc) (different : c ≠ b) :
    setLoc table b simdLane loc c = table c := by
  simp [setLoc, different]

theorem putElem_other (table : Table g) {b c : g.Index} (simdLane : g.Lane) (sig : Sign) (loc : Loc)
    (different : c ≠ b) : putElem table b simdLane sig loc c = table c := by
  rw [putElem, setLoc_other _ _ _ different, setSig_other _ _ _ different]

variable {buf : Sender.SearchBuf} {schedule : Nat → Schedule g} {input : List SElem} {id : Nat}

theorem Exit.read_iff {after : Table g} (exit : Exit table elem after) (unique : Unique after) (sig : elem.sig ≠ 0)
    (loc : elem.loc ≠ 0) (member : input[id]? = some elem.query) :
    readLoc buf after schedule input id = elem.loc ↔ WritesPair table elem := by
  cases exit with
  | firstHeld simdLane found =>
    have read : readLoc buf _ schedule input id = elem.loc :=
      read_first unique member sig loc (entry_setLoc_held (probe_held found) elem.loc)
    exact iff_of_true read (.inl (by simp [found]))
  | firstEmpty simdLane found =>
    have read : readLoc buf _ schedule input id = elem.loc :=
      read_first unique member sig loc (entry_putElem_self _ _ _ _)
    exact iff_of_true read (.inl (by simp [found]))
  | secondHeld simdLane full found =>
    rw [read_second_iff unique member sig loc
      (absent_other (probe_full_absent full) (setLoc_other table simdLane elem.loc))]
    exact iff_of_true ⟨simdLane, entry_setLoc_held (probe_held found) elem.loc⟩ (.inr (.inl (by simp [found])))
  | secondEmpty simdLane full found =>
    rw [read_second_iff unique member sig loc
      (absent_other (probe_full_absent full) (putElem_other table simdLane elem.sig elem.loc))]
    exact iff_of_true ⟨simdLane, entry_putElem_self _ _ _ _⟩ (.inr (.inl (by simp [found])))
  | victim first second =>
    rw [read_second_iff unique member sig loc
      (absent_other (probe_full_absent first) (setSig_other table (majorLane g elem.sig) elem.sig))]
    have stored : entry (setSig table (secondIndex g elem.hash elem.sig) (majorLane g elem.sig) elem.sig)
        (secondIndex g elem.hash elem.sig, majorLane g elem.sig) =
        (elem.sig, (table (secondIndex g elem.hash elem.sig)).loc (majorLane g elem.sig)) := by
      rw [entry_setSig, Function.update_self]
    constructor
    · intro given
      rcases given with ⟨simdLane, written⟩
      have here := unique _ _ sig _ _ (entry_sig written) (entry_sig stored)
      subst here
      exact .inr (.inr (congrArg Prod.snd (stored.symm.trans written)))
    · intro writes
      rcases writes with room | room | same
      · exact absurd first room
      · exact absurd second room
      · exact ⟨_, stored.trans (by rw [same])⟩

theorem Exit.sourced {after : Table g} {elems : List IElem} (exit : Exit table elem after)
    (sourced : Sourced (fun sig => sig ≠ 0) elems table) (writes : WritesPair table elem) :
    Sourced (fun sig => sig ≠ 0) (elems ++ [elem]) after := by
  have before := sourced.append [elem]
  have source := Source.last elems elem
  cases exit with
  | firstHeld simdLane found => exact before.setLoc (probe_held found) source
  | firstEmpty simdLane found => exact before.putElem source _ _
  | secondHeld simdLane full found => exact before.setLoc (probe_held found) source
  | secondEmpty simdLane full found => exact before.putElem source _ _
  | victim first second =>
    have same := (writes.resolve_left (fun room => room first)).resolve_left (fun room => room second)
    have updated := entry_setSig table (secondIndex g elem.hash elem.sig) (majorLane g elem.sig) elem.sig
    rw [same] at updated
    exact before.update (fun _ => .inr source) updated

inductive TwoChoiceOp : Op → Prop where
  | insert (elem : IElem) (sig : elem.sig ≠ 0) (loc : elem.loc ≠ 0) : TwoChoiceOp (.twoChoice elem)

/-- The operation, if an insertion, writes the location together with the signature. -/
def OpWritesPair (table : Table g) (op : Op) : Prop := ∀ elem, op.inserts = some elem → WritesPair table elem

theorem twoChoice_sourced {ops : List Op} {table : Table g}
    (run : Run g (fun table op => TwoChoiceOp op ∧ OpWritesPair table op) ops table) :
    Sourced (fun sig => sig ≠ 0) (inserted ops) table := by
  refine @Run.invariant g _ (fun ops table => Sourced (fun sig => sig ≠ 0) (inserted ops) table)
    (sourced_zero _ _) ?_ ops table run
  intro ops table op sourced allowed
  rw [inserted_append]
  rcases allowed with ⟨insertion, writes⟩
  cases insertion with
  | insert elem sig loc =>
    exact (hashInsert2choice_exit (fun zero => sig zero.1)).sourced sourced (writes elem rfl)

/-- Insertions that write the location together with the signature never mix two elements, and
    they are the ones that can be read back. -/
theorem twoChoice_keeps_pairs :
    (∀ (ops : List Op) (table : Table g),
      Run g (fun table op => TwoChoiceOp op ∧ OpWritesPair table op) ops table →
        Sourced (fun sig => sig ≠ 0) (inserted ops) table) ∧
    ∀ (ops : List Op) (table : Table g), Run g (fun _ op => TwoChoiceOp op) ops table →
      ∀ elem : IElem, elem.sig ≠ 0 → elem.loc ≠ 0 →
        ∀ (buf : Sender.SearchBuf) (schedule : Nat → Schedule g) (input : List SElem) (id : Nat),
          input[id]? = some elem.query →
          (readLoc buf (hashInsert2choice table elem) schedule input id = elem.loc ↔ WritesPair table elem) := by
  refine ⟨fun ops table => twoChoice_sourced, ?_⟩
  intro ops table run elem sig loc buf schedule input id member
  exact (hashInsert2choice_exit (fun zero => sig zero.1)).read_iff (run.unique.hashInsert2choice elem) sig loc member

end TwoChoice

section Stacks

variable {allowed : Table gpuHash → Op → Prop}

/-- Insertions of either kernel that fill a bucket slot by slot. -/
theorem stacked_reaches {kind : IElem → Op} {ops : List Op} {table : Table gpuHash} (hash : HashWord) (base : Nat)
    (puts : ∀ (table : Table gpuHash) (elem : IElem) (simdLane : gpuHash.Lane), elem.sig ≠ 0 →
      firstFound table elem = .empty simdLane →
      (kind elem).perform table = putElem table (bucketIndex gpuHash elem.hash) simdLane elem.sig elem.loc)
    (run : Run gpuHash allowed ops table)
    (empty : ∀ n < 8, firstFound (stacked table hash base n) (stackedElem hash base n) =
      .empty (gpuHash.lane (n + 1)))
    (meets : ∀ n < 8, allowed (stacked table hash base n) (kind (stackedElem hash base n))) (n : Nat) (bound : n ≤ 8) :
    Run gpuHash allowed (ops ++ (List.range n).map (fun i => kind (stackedElem hash base i)))
      (stacked table hash base n) := by
  induction n with
  | zero => simpa [stacked] using run
  | succ n ih =>
    have next := (ih (by omega)).step (kind (stackedElem hash base n)) (meets n (by omega))
    rw [puts _ _ _ (stackedElem_sig hash base n (by omega)) (empty n (by omega))] at next
    rw [List.range_succ, List.map_append, ← List.append_assoc]
    exact next

theorem twoChoice_puts (table : Table gpuHash) (elem : IElem) (simdLane : gpuHash.Lane) (nonzero : elem.sig ≠ 0)
    (found : firstFound table elem = .empty simdLane) :
    (Op.twoChoice elem).perform table = putElem table (bucketIndex gpuHash elem.hash) simdLane elem.sig elem.loc := by
  simp only [Op.perform, hashInsert2choice, nonzero, false_and, ite_false, found]

def stackOps (kind : IElem → Op) (hash : HashWord) (base : Nat) : List Op :=
  (List.range 8).map (fun i => kind (stackedElem hash base i))

theorem firstStack_reaches {kind : IElem → Op}
    (puts : ∀ (table : Table gpuHash) (elem : IElem) (simdLane : gpuHash.Lane), elem.sig ≠ 0 →
      firstFound table elem = .empty simdLane →
      (kind elem).perform table = putElem table (bucketIndex gpuHash elem.hash) simdLane elem.sig elem.loc)
    (meets : ∀ table, ∀ n < 8, allowed table (kind (stackedElem 0 0 n))) :
    Run gpuHash allowed (stackOps kind 0 0) firstStack :=
  stacked_reaches 0 0 puts .zero (by decide +kernel) (fun n bound => meets _ n bound) 8 (by decide)

theorem bothStacks_twoChoice :
    Run gpuHash (fun _ op => TwoChoiceOp op) (stackOps .twoChoice 0 0 ++ stackOps .twoChoice 16 8) bothStacks := by
  have first : Run gpuHash (fun _ op => TwoChoiceOp op) (stackOps .twoChoice 0 0) firstStack := by
    apply firstStack_reaches twoChoice_puts
    intro table n bound
    exact .insert _ (stackedElem_sig 0 0 n bound) (stackedElem_loc 0 0 n (by omega))
  refine stacked_reaches 16 8 twoChoice_puts first (by decide +kernel) ?_ 8 (by decide)
  intro n bound
  exact .insert _ (stackedElem_sig 16 8 n bound) (stackedElem_loc 16 8 n (by omega))

def idleSchedule : Nat → Schedule gpuHash := fun _ => ⟨ascending gpuHash, ascending gpuHash⟩

def idleBuf : Sender.SearchBuf :=
  { searchJobList := fun _ => ⟨0, 0, 0, 0, 0, fun _ => 0, 0⟩
    numCompactSearchJob := 0
    numSearchJob := 0
    searchOut := fun _ => 0 }

theorem twoChoice_keeps_pairs_single :
    Sourced (fun sig => sig ≠ 0) [⟨7, 0, 3⟩] (hashInsert2choice (zeroTable gpuHash) ⟨7, 0, 3⟩) ∧
      (7 : Sign) ≠ 0 ∧ (3 : Loc) ≠ 0 ∧
      (readLoc idleBuf (hashInsert2choice (zeroTable gpuHash) ⟨7, 0, 3⟩) idleSchedule [⟨7, 0⟩] 0 = 3 ↔
        WritesPair (zeroTable gpuHash) ⟨7, 0, 3⟩) := by
  have sig : (7 : Sign) ≠ 0 := by decide
  have loc : (3 : Loc) ≠ 0 := by decide
  have room : firstFound (zeroTable gpuHash) ⟨7, 0, 3⟩ ≠ .full := by decide +kernel
  have writes : OpWritesPair (zeroTable gpuHash) (.twoChoice ⟨7, 0, 3⟩) := by
    intro elem same
    cases same
    exact .inl room
  have start : Run gpuHash (fun table op => TwoChoiceOp op ∧ OpWritesPair table op) [] (zeroTable gpuHash) := .zero
  exact ⟨twoChoice_keeps_pairs.1 _ _ (start.step _ ⟨.insert _ sig loc, writes⟩), sig, loc,
    twoChoice_keeps_pairs.2 [] (zeroTable gpuHash) .zero ⟨7, 0, 3⟩ sig loc idleBuf idleSchedule [⟨7, 0⟩] 0 rfl⟩

theorem bothStacks_full : firstFound bothStacks misplacingElem = .full ∧ secondFound bothStacks misplacingElem = .full := by
  decide +kernel

theorem bothStacks_victim :
    entry bothStacks (secondIndex gpuHash misplacingElem.hash misplacingElem.sig, majorLane gpuHash misplacingElem.sig) =
      (8, 16) := by
  decide +kernel

theorem mixedTable_slot :
    entry ((Op.twoChoice misplacingElem).perform bothStacks)
      (secondIndex gpuHash misplacingElem.hash misplacingElem.sig, majorLane gpuHash misplacingElem.sig) = (16, 16) := by
  have nonzero : misplacingElem.sig ≠ 0 := by decide
  have loc := entry_loc bothStacks_victim
  simp only [Op.perform, hashInsert2choice, nonzero, false_and, ite_false, bothStacks_full.1, bothStacks_full.2,
    entry_setSig, Function.update_self, loc]
  rfl

theorem mixedRun_sources : ∀ elem ∈ inserted (stackOps .twoChoice 0 0 ++ stackOps .twoChoice 16 8 ++ [.twoChoice misplacingElem]),
    ¬(elem.sig = 16 ∧ elem.loc = 16) := by
  decide +kernel

/-- The new signature 16 gets the location 16 of the replaced element, not its own 17. -/
theorem twoChoice_mixes_pairs :
    (¬ ∀ (ops : List Op) (table : Table gpuHash), Run gpuHash (fun _ op => TwoChoiceOp op) ops table →
        Sourced (fun sig => sig ≠ 0) (inserted ops) table) ∧
      ¬ ∀ (ops : List Op) (table : Table gpuHash), Run gpuHash (fun _ op => TwoChoiceOp op) ops table →
        ∀ elem : IElem, elem.sig ≠ 0 → elem.loc ≠ 0 →
          ∀ (buf : Sender.SearchBuf) (schedule : Nat → Schedule gpuHash) (input : List SElem) (id : Nat),
            input[id]? = some elem.query → readLoc buf (hashInsert2choice table elem) schedule input id = elem.loc := by
  have sig : misplacingElem.sig ≠ 0 := by decide
  have loc : misplacingElem.loc ≠ 0 := by decide
  have exit := @hashInsert2choice_exit gpuHash bothStacks misplacingElem (fun zero => sig zero.1)
  have mixed : ¬WritesPair bothStacks misplacingElem := by
    intro either
    rcases either with room | room | same
    · exact room bothStacks_full.1
    · exact room bothStacks_full.2
    · rw [entry_loc bothStacks_victim] at same
      exact absurd same (by decide)
  constructor
  · intro sourced
    have after := sourced _ _ (bothStacks_twoChoice.step (.twoChoice misplacingElem) (.insert misplacingElem sig loc))
    have slot := after (secondIndex gpuHash misplacingElem.hash misplacingElem.sig, majorLane gpuHash misplacingElem.sig)
    rw [mixedTable_slot] at slot
    rcases slot (by decide) with zero | ⟨elem, member, same⟩
    · exact absurd zero (by decide)
    · exact mixedRun_sources elem member same
  · intro reads
    apply mixed
    have member : [misplacingElem.query][0]? = some misplacingElem.query := rfl
    apply (exit.read_iff (bothStacks_twoChoice.unique.hashInsert2choice _) sig loc member).mp
    exact reads _ _ bothStacks_twoChoice misplacingElem sig loc idleBuf idleSchedule [misplacingElem.query] 0 member

end Stacks

end MegaKV.Hash
