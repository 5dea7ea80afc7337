import MegaKV.Hash.Chains

namespace MegaKV.Hash

variable {g : Geometry}

section Partners

variable (g) in
def partner (sig : Sign) (b : g.Index) : g.Index := secondIndex g (BitVec.ofNat 32 b.val) sig

theorem bucketIndex_self (b : g.Index) : bucketIndex g (BitVec.ofNat 32 b.val) = b := by
  have inside := b.isLt
  have small : g.bucNum ≤ 2 ^ 32 := Nat.pow_le_pow_right (by decide) (by simp only [memP]; omega)
  apply Fin.ext
  change (BitVec.ofNat 32 b.val &&& g.hashMask).toNat = b.val
  rw [BitVec.toNat_and, hashMask_toNat, BitVec.toNat_ofNat, Nat.mod_eq_of_lt (Nat.lt_of_lt_of_le inside small)]
  exact (Nat.and_two_pow_sub_one_eq_mod _ _).trans (Nat.mod_eq_of_lt inside)

theorem secondIndex_partner (hash : HashWord) (sig : Sign) :
    secondIndex g hash sig = partner g sig (bucketIndex g hash) :=
  secondIndex_congr g sig (bucketIndex_self _).symm

theorem partner_partner (sig : Sign) (b : g.Index) : partner g sig (partner g sig b) = b := by
  have back := @secondIndex_of_second g (BitVec.ofNat 32 (partner g sig b).val) (BitVec.ofNat 32 b.val) sig
    (bucketIndex_self _)
  rw [bucketIndex_self] at back
  exact back

theorem partner_zeroBlock {sig : Sign} (zero : SameBlock g sig 0) (b : g.Index) : partner g sig b = b :=
  (secondIndex_zeroBlock g _ zero).trans (bucketIndex_self b)

theorem partner_second (hash : HashWord) (sig : Sign) : partner g sig (secondIndex g hash sig) = bucketIndex g hash := by
  rw [secondIndex_partner, partner_partner]

theorem queried_partner {query : SElem} {b : g.Index} (queried : Queried g query b) :
    Queried g query (partner g query.sig b) := by
  rcases queried with rfl | rfl
  · exact .inr (secondIndex_partner query.hash query.sig).symm
  · exact .inl (partner_second query.hash query.sig)

theorem queried_cases {query : SElem} {b c : g.Index} (first : Queried g query b) (second : Queried g query c) :
    c = b ∨ c = partner g query.sig b := by
  rcases first with rfl | rfl <;> rcases second with rfl | rfl
  · exact .inl rfl
  · exact .inr (secondIndex_partner query.hash query.sig)
  · exact .inr (partner_second query.hash query.sig).symm
  · exact .inl rfl

end Partners

section Entries

def Holds (b : Bucket g) (sig : Sign) : Prop := ∃ simdLane, b.sig simdLane = sig

structure Single (table : Table g) : Prop where
  unique : Unique table
  apart : ∀ b sig, sig ≠ 0 → Holds (table b) sig → Holds (table (partner g sig b)) sig → partner g sig b = b

def OneEntry (table : Table g) : Prop :=
  ∀ query : SElem, query.sig ≠ 0 → ∀ left right : g.Index × g.Lane, Queried g query left.1 → Queried g query right.1 →
    (table left.1).sig left.2 = query.sig → (table right.1).sig right.2 = query.sig → left = right

variable {table : Table g}

theorem Single.oneEntry (single : Single table) : OneEntry table := by
  intro query nonzero leftSlot rightSlot first second leftHeld rightHeld
  rcases leftSlot with ⟨b, left⟩
  rcases rightSlot with ⟨c, right⟩
  simp only at first second leftHeld rightHeld
  have same : c = b := by
    rcases queried_cases first second with same | other
    · exact same
    · subst other
      exact single.apart b query.sig nonzero ⟨left, leftHeld⟩ ⟨right, rightHeld⟩
  subst same
  rw [single.unique c query.sig nonzero left right leftHeld rightHeld]

theorem OneEntry.slots (one : OneEntry table) {query : SElem} {left right : g.Index × g.Lane} {leftLoc rightLoc : Loc}
    (nonzero : query.sig ≠ 0) (first : Queried g query left.1) (second : Queried g query right.1)
    (leftHeld : entry table left = (query.sig, leftLoc)) (rightHeld : entry table right = (query.sig, rightLoc)) :
    left = right :=
  one query nonzero left right first second (congrArg Prod.fst leftHeld) (congrArg Prod.fst rightHeld)

theorem single_zero : Single (zeroTable g) := by
  refine ⟨unique_zero, ?_⟩
  intro b sig nonzero given _
  rcases given with ⟨simdLane, held⟩
  exact absurd held.symm nonzero

theorem Single.fewer {after : Table g} (single : Single table)
    (kept : ∀ b simdLane, (after b).sig simdLane ≠ 0 → (after b).sig simdLane = (table b).sig simdLane) :
    Single after := by
  have before : ∀ b sig, sig ≠ 0 → ∀ simdLane, (after b).sig simdLane = sig → (table b).sig simdLane = sig := by
    intro b sig nonzero simdLane held
    rw [← kept b simdLane (by rw [held]; exact nonzero)]
    exact held
  constructor
  · intro b sig nonzero left right leftHeld rightHeld
    exact single.unique b sig nonzero left right (before b sig nonzero left leftHeld) (before b sig nonzero right rightHeld)
  · intro b sig nonzero leftSlot rightSlot
    rcases leftSlot with ⟨left, leftHeld⟩
    rcases rightSlot with ⟨right, rightHeld⟩
    exact single.apart b sig nonzero ⟨left, before b sig nonzero left leftHeld⟩
      ⟨right, before _ sig nonzero right rightHeld⟩

theorem putElem_sig (table : Table g) (b c : g.Index) (simdLane : g.Lane) (sig : Sign) (loc : Loc) :
    (putElem table b simdLane sig loc c).sig = (setSig table b simdLane sig c).sig := setLoc_sig _ _ _ _ _

theorem holds_putElem {b c : g.Index} {simdLane : g.Lane} {sig other : Sign} {loc : Loc}
    (held : Holds (putElem table b simdLane sig loc c) other) : Holds (table c) other ∨ c = b ∧ other = sig := by
  obtain ⟨lane, held⟩ := held
  rw [putElem_sig] at held
  by_cases here : c = b
  · subst here
    rw [setSig_sig] at held
    by_cases slot : lane = simdLane
    · subst slot
      rw [Function.update_self] at held
      exact .inr ⟨rfl, held.symm⟩
    · rw [Function.update_of_ne slot] at held
      exact .inl ⟨lane, held⟩
  · rw [setSig_other _ _ _ here] at held
    exact .inl ⟨lane, held⟩

theorem Single.putElem (single : Single table) {b : g.Index} {sig : Sign} (absent : ¬Holds (table b) sig)
    (away : partner g sig b = b ∨ ¬Holds (table (partner g sig b)) sig) (simdLane : g.Lane) (loc : Loc) :
    Single (putElem table b simdLane sig loc) := by
  refine ⟨single.unique.putElem (fun other held => absent ⟨other, held⟩) simdLane loc, ?_⟩
  intro c other nonzero first second
  -- Each of the two buckets has its slot from before or is the one written to.
  rcases holds_putElem first with here | ⟨rfl, rfl⟩ <;> rcases holds_putElem second with there | ⟨equal, same⟩
  · exact single.apart c other nonzero here there
  · subst same
    have back : partner g other b = c := by rw [← equal, partner_partner]
    rcases away with loop | foreign
    · rw [equal, ← back, loop]
    · rw [back] at foreign
      exact absurd here foreign
  · rcases away with loop | foreign
    · exact loop
    · exact absurd there foreign
  · exact equal

end Entries

section Insertions

/-- An element that goes into its first bucket is not in its second one. -/
def Checked (table : Table g) (elem : IElem) : Prop :=
  (∃ simdLane, firstFound table elem = .empty simdLane) → ¬Holds (table (secondIndex g elem.hash elem.sig)) elem.sig

/-- What an insertion does when all victims stay in their own two buckets. -/
inductive HomeExit (table : Table g) (elem : IElem) : Table g → Prop where
  | same : HomeExit table elem table
  | renew (b : g.Index) (simdLane : g.Lane) (queried : Queried g elem.query b)
      (held : (table b).sig simdLane = elem.sig) : HomeExit table elem (setLoc table b simdLane elem.loc)
  | put (b : g.Index) (simdLane : g.Lane) (queried : Queried g elem.query b) (absent : ¬Holds (table b) elem.sig)
      (away : partner g elem.sig b = b ∨ ¬Holds (table (partner g elem.sig b)) elem.sig) :
      HomeExit table elem (putElem table b simdLane elem.sig elem.loc)
  | move (b : g.Index) (simdLane other : g.Lane) (sig : Sign) (loc : Loc) (queried : Queried g elem.query b)
      (absent : ¬Holds (table b) elem.sig) (loop : partner g elem.sig b = b)
      (victim : entry table (b, simdLane) = (sig, loc)) (nonzero : sig ≠ 0)
      (vacant : ¬Holds (putElem table b simdLane elem.sig elem.loc (partner g sig b)) sig) :
      HomeExit table elem (putElem (putElem table b simdLane elem.sig elem.loc) (partner g sig b) other sig loc)

variable {table : Table g} {elem : IElem}

theorem probe_full_holds {b : Bucket g} {mask : BitVec 32} {sig : Sign} (full : probe b mask sig = .full) :
    ¬Holds b sig := fun ⟨simdLane, held⟩ => probe_full_absent full simdLane held

theorem probe_empty_holds {b : Bucket g} {mask : BitVec 32} {sig : Sign} {simdLane : g.Lane}
    (found : probe b mask sig = .empty simdLane) : ¬Holds b sig := fun ⟨other, held⟩ => (probe_empty found).2 other held

/-- An element whose two buckets are one sends its victim to the victim's other bucket. -/
theorem Single.chain_exit (single : Single table) (zero : SameBlock g elem.sig 0)
    (full : (firstCarry table elem).found elem = .full)
    (different : ¬SameBlock g ((firstCarry table elem).evict elem).sig elem.sig)
    (further : probe (table (((firstCarry table elem).evict elem).target g elem)) (mlMask g elem.sig)
        ((firstCarry table elem).evict elem).sig ≠ .full ∨
      SameBlock g ((table (((firstCarry table elem).evict elem).target g elem)).sig (majorLane g elem.sig))
        ((firstCarry table elem).evict elem).sig) :
    HomeExit table elem (cuckooEvict elem maxCuckooNum (firstCarry table elem)) := by
  have victim := (evict_carried elem (firstCarry table elem)).symm
  have nonzero := evict_sig_ne_zero full
  have unique := single.unique.evict full
  have other : ((firstCarry table elem).evict elem).target g elem ≠ (firstCarry table elem).target g elem :=
    fun equal => different (secondIndex_inj g elem.hash equal)
  have untouched : ((firstCarry table elem).evict elem).table (((firstCarry table elem).evict elem).target g elem) =
      table (((firstCarry table elem).evict elem).target g elem) := evict_table_other other
  have loop := partner_zeroBlock zero ((firstCarry table elem).target g elem)
  have target : ((firstCarry table elem).evict elem).target g elem =
      partner g ((firstCarry table elem).evict elem).sig ((firstCarry table elem).target g elem) := by
    rw [Carry.target, secondIndex_partner, ← secondIndex_zeroBlock g elem.hash zero]
    rfl
  have vacant : ¬Holds (((firstCarry table elem).evict elem).table (((firstCarry table elem).evict elem).target g elem))
      ((firstCarry table elem).evict elem).sig := by
    rw [untouched]
    intro held
    rw [target] at held other
    exact other (single.apart _ _ nonzero ⟨_, congrArg Prod.fst victim⟩ held)
  have arrives := vacant
  rw [target] at arrives
  have moves := fun lane => @HomeExit.move g table elem ((firstCarry table elem).target g elem) (majorLane g elem.sig) lane
    _ _ (.inr rfl) (probe_full_holds full) loop victim nonzero arrives
  rw [maxCuckooNum, cuckooEvict_next full]
  cases found : ((firstCarry table elem).evict elem).found elem with
  | held simdLane => exact absurd ⟨simdLane, probe_held found⟩ vacant
  | empty simdLane =>
    rw [cuckooEvict_empty found, target]
    exact moves simdLane
  | full =>
    have same : SameBlock g (((firstCarry table elem).evict elem).evict elem).sig ((firstCarry table elem).evict elem).sig := by
      rcases further with room | again
      · rw [Carry.found, untouched] at found
        exact absurd found room
      · rw [← untouched] at again
        exact again
    -- An even number of rounds is left, so the first victim is written last.
    rw [swap_result unique nonzero found same, if_pos rfl, Carry.evict, target]
    exact moves (majorLane g elem.sig)

theorem Single.insert_exit (single : Single table) (nonzero : elem.sig ≠ 0) (checked : Checked table elem)
    (home : EvictsHome table elem) : HomeExit table elem (hashInsertCuckoo table elem) := by
  cases first : firstFound table elem with
  | held simdLane =>
    rw [hashInsertCuckoo_held nonzero first]
    exact .renew _ simdLane (.inl rfl) (probe_held first)
  | empty simdLane =>
    rw [hashInsertCuckoo_empty nonzero first]
    refine .put _ simdLane (.inl rfl) (probe_empty_holds first) (.inr ?_)
    rw [← secondIndex_partner]
    exact checked ⟨simdLane, first⟩
  | full =>
    rw [hashInsertCuckoo_full nonzero first]
    have away : partner g elem.sig (secondIndex g elem.hash elem.sig) = secondIndex g elem.hash elem.sig ∨
        ¬Holds (table (partner g elem.sig (secondIndex g elem.hash elem.sig))) elem.sig := by
      rw [partner_second]
      exact .inr (probe_full_holds first)
    cases second : (firstCarry table elem).found elem with
    | held simdLane =>
      rw [cuckooEvict_held second]
      exact .renew _ simdLane (.inr rfl) (probe_held second)
    | empty simdLane =>
      rw [cuckooEvict_empty second]
      exact .put _ simdLane (.inr rfl) (probe_empty_holds second) away
    | full =>
      by_cases same : SameBlock g ((firstCarry table elem).evict elem).sig elem.sig
      · rw [swap_result single.unique nonzero second same, if_neg (by decide)]
        exact .same
      · rcases home with room | room | swap | ⟨zero, further⟩
        · exact absurd first room
        · exact absurd second room
        · exact absurd swap same
        · exact single.chain_exit zero second same further

/-- The signature of a victim has left its bucket. -/
theorem victim_gone (unique : Unique table) {b : g.Index} {simdLane : g.Lane} {sig new : Sign} {old : Loc}
    (victim : entry table (b, simdLane) = (sig, old)) (nonzero : sig ≠ 0) (different : sig ≠ new) (loc : Loc) :
    ¬Holds (putElem table b simdLane new loc b) sig := by
  intro given
  rcases given with ⟨lane, held⟩
  rw [putElem_sig, setSig_sig] at held
  by_cases slot : lane = simdLane
  · rw [slot, Function.update_self] at held
    exact different held.symm
  · rw [Function.update_of_ne slot] at held
    exact slot (unique b sig nonzero lane simdLane held (entry_sig victim))

theorem HomeExit.single {after : Table g} (exit : HomeExit table elem after) (single : Single table) : Single after := by
  cases exit with
  | same => exact single
  | renew b simdLane queried held =>
    apply single.fewer
    intro c lane _
    rw [setLoc_sig]
  | put b simdLane queried absent away => exact single.putElem absent away simdLane elem.loc
  | move b simdLane other sig loc queried absent loop victim nonzero vacant =>
    have different : sig ≠ elem.sig := fun same => absent ⟨simdLane, (entry_sig victim).trans same⟩
    apply (single.putElem absent (.inl loop) simdLane elem.loc).putElem vacant
    right
    rw [partner_partner]
    exact victim_gone single.unique victim nonzero different elem.loc

def Shown (table : Table g) (query : SElem) (loc : Loc) : Prop :=
  ∃ slot, Queried g query slot.1 ∧ entry table slot = (query.sig, loc)

theorem shown_update {after : Table g} {slot : g.Index × g.Lane} {pair : Sign × Loc} {query : SElem} {loc : Loc}
    (updated : entry after = Function.update (entry table) slot pair) (shown : Shown after query loc) :
    Shown table query loc ∨ Queried g query slot.1 ∧ pair = (query.sig, loc) := by
  obtain ⟨other, queried, stored⟩ := shown
  rw [updated] at stored
  by_cases same : other = slot
  · subst same
    rw [Function.update_self] at stored
    exact .inr ⟨queried, stored⟩
  · rw [Function.update_of_ne same] at stored
    exact .inl ⟨other, queried, stored⟩

/-- An insertion shows a query no other location than its own. -/
theorem HomeExit.shown {after : Table g} (exit : HomeExit table elem after) {query : SElem} {loc : Loc}
    (shown : Shown after query loc) : Shown table query loc ∨ elem.sig = query.sig ∧ elem.loc = loc := by
  have own : (elem.sig, elem.loc) = (query.sig, loc) → elem.sig = query.sig ∧ elem.loc = loc :=
    fun same => ⟨congrArg Prod.fst same, congrArg Prod.snd same⟩
  cases exit with
  | same => exact .inl shown
  | renew b simdLane queried held =>
    have updated := entry_setLoc table b simdLane elem.loc
    rw [held] at updated
    rcases shown_update updated shown with before | ⟨_, same⟩
    · exact .inl before
    · exact .inr (own same)
  | put b simdLane queried absent away =>
    rcases shown_update (entry_putElem table b simdLane elem.sig elem.loc) shown with before | ⟨_, same⟩
    · exact .inl before
    · exact .inr (own same)
  | move b simdLane other sig old queried absent loop victim nonzero vacant =>
    rcases shown_update (entry_putElem _ _ other sig old) shown with first | ⟨here, same⟩
    · rcases shown_update (entry_putElem table b simdLane elem.sig elem.loc) first with before | ⟨_, same⟩
      · exact .inl before
      · exact .inr (own same)
    · left
      have back := queried_partner here
      have equal : sig = query.sig := congrArg Prod.fst same
      rw [← equal, partner_partner] at back
      exact ⟨(b, simdLane), back, victim.trans same⟩

end Insertions

section Deletions

variable {table : Table g}

theorem Single.hashDelete (single : Single table) (elem : DElem) : Single (hashDelete table elem) := by
  apply single.fewer
  intro b simdLane nonzero
  rcases hashDelete_kept table elem (b, simdLane) with kept | cleared
  · exact congrArg Prod.fst kept
  · exact absurd (congrArg Prod.fst cleared) nonzero

theorem hashDelete_shown {elem : DElem} {query : SElem} {loc : Loc} (nonzero : query.sig ≠ 0)
    (shown : Shown (hashDelete table elem) query loc) : Shown table query loc := by
  obtain ⟨slot, queried, stored⟩ := shown
  refine ⟨slot, queried, ?_⟩
  rcases hashDelete_kept table elem slot with kept | cleared
  · rw [← kept]
    exact stored
  · rw [cleared] at stored
    exact absurd (congrArg Prod.fst stored).symm nonzero

/-- A deletion leaves no slot of the element. -/
theorem Single.deleted (single : Single table) {elem : DElem} (nonzero : elem.sig ≠ 0) :
    ¬Shown (MegaKV.Hash.hashDelete table elem) elem.query elem.loc := by
  rintro ⟨slot, queried, stored⟩
  by_cases finds : Finds table elem slot
  · rw [hashDelete_found finds] at stored
    exact nonzero (congrArg Prod.fst stored).symm
  · rw [hashDelete_missed finds] at stored
    apply finds
    by_cases first : slot.1 = bucketIndex g elem.hash
    · exact ⟨stored, .inl first⟩
    · have second : slot.1 = secondIndex g elem.hash elem.sig := queried.resolve_left first
      refine ⟨stored, .inr ⟨second, fun other found => ?_⟩⟩
      have there : Holds (table (partner g elem.sig (bucketIndex g elem.hash))) elem.sig := by
        rw [← secondIndex_partner, ← second]
        exact ⟨slot.2, congrArg Prod.fst stored⟩
      have loop := single.apart _ _ nonzero ⟨other, congrArg Prod.fst found⟩ there
      rw [← secondIndex_partner, ← second] at loop
      exact first loop

end Deletions

section Runs

/-- Deletions, and insertions that find the signature in no other bucket and send every victim,
    if any, to one of its own two buckets. -/
inductive TidyOp (table : Table g) : Op → Prop where
  | insert (elem : IElem) (sig : elem.sig ≠ 0) (checked : Checked table elem) (home : EvictsHome table elem) :
      TidyOp table (.cuckoo elem)
  | delete (elem : DElem) (sig : elem.sig ≠ 0) : TidyOp table (.delete elem)

variable {table : Table g}

theorem Run.single {ops : List Op} (run : Run g TidyOp ops table) : Single table := by
  refine @Run.invariant g TidyOp (fun _ table => Single table) single_zero ?_ ops table run
  intro _ table op single tidy
  cases tidy with
  | insert elem sig checked home => exact (single.insert_exit sig checked home).single single
  | delete elem sig => exact single.hashDelete elem

theorem shown_step {op : Op} (single : Single table) (tidy : TidyOp table op) {query : SElem} {loc : Loc}
    (nonzero : query.sig ≠ 0) (shown : Shown (op.perform table) query loc) :
    Shown table query loc ∨ ∃ elem, op.inserts = some elem ∧ elem.sig = query.sig ∧ elem.loc = loc := by
  cases tidy with
  | insert elem sig checked home =>
    rcases (single.insert_exit sig checked home).shown shown with before | own
    · exact .inl before
    · exact .inr ⟨elem, rfl, own⟩
  | delete elem sig => exact .inl (hashDelete_shown nonzero shown)

theorem Run.last {allowed : Table g → Op → Prop} {ops : List Op} {op : Op} {after : Table g}
    (run : Run g allowed (ops ++ [op]) after) :
    ∃ table, Run g allowed ops table ∧ allowed table op ∧ after = op.perform table := by
  generalize history : ops ++ [op] = all at run
  cases run with
  | zero => simp at history
  | step last run meets =>
    obtain ⟨rfl, same⟩ := List.append_inj' history rfl
    obtain rfl := List.singleton_inj.mp same
    exact ⟨_, run, meets, rfl⟩

theorem Run.nil {allowed : Table g → Op → Prop} (run : Run g allowed [] table) : table = zeroTable g := by
  generalize history : ([] : List Op) = all at run
  cases run with
  | zero => rfl
  | step last run meets => simp at history

theorem Run.unique_table {allowed : Table g → Op → Prop} {ops : List Op} {other : Table g} (left : Run g allowed ops table)
    (right : Run g allowed ops other) : table = other := by
  induction left generalizing other with
  | zero => exact right.nil.symm
  | step op _ _ ih =>
    obtain ⟨before, run, _, rfl⟩ := right.last
    rw [ih run]

/-- Only an insertion makes a location visible again. -/
theorem Run.not_shown {before more : List Op} {later : Table g} (run : Run g TidyOp before table)
    (rest : Run g TidyOp (before ++ more) later) {query : SElem} {loc : Loc} (nonzero : query.sig ≠ 0)
    (hidden : ¬Shown table query loc) (absent : ∀ elem ∈ inserted more, ¬(elem.sig = query.sig ∧ elem.loc = loc)) :
    ¬Shown later query loc := by
  induction more using List.reverseRecOn generalizing later with
  | nil =>
    rw [List.append_nil] at rest
    rw [← run.unique_table rest]
    exact hidden
  | append_singleton more op ih =>
    rw [← List.append_assoc] at rest
    obtain ⟨middle, first, tidy, rfl⟩ := rest.last
    intro shown
    rw [inserted_append] at absent
    rcases shown_step first.single tidy nonzero shown with earlier | ⟨elem, inserts, own⟩
    · exact ih first (fun elem member => absent elem (List.mem_append_left _ member)) earlier
    · apply absent elem _ own
      rw [inserts]
      exact List.mem_append_right _ (List.mem_singleton.mpr rfl)

/-- A signature has one entry, a deletion hides it, and nothing but an insertion shows a location
    again. -/
theorem one_entry_per_signature {before more : List Op} {later : Table g} (run : Run g TidyOp before table)
    (rest : Run g TidyOp (before ++ more) later) :
    OneEntry table ∧
      (∀ elem : DElem, elem.sig ≠ 0 → elem.loc ≠ 0 → ¬Visible (hashDelete table elem) elem.query elem.loc) ∧
      ∀ (query : SElem) (loc : Loc), query.sig ≠ 0 → loc ≠ 0 → ¬Visible table query loc →
        (∀ elem ∈ inserted more, ¬(elem.sig = query.sig ∧ elem.loc = loc)) → ¬Visible later query loc := by
  have single := run.single
  refine ⟨single.oneEntry, ?_, ?_⟩
  · intro elem sig loc visible
    exact single.deleted sig ((visible_iff loc).mp visible)
  · intro query loc sig nonzero hidden absent visible
    rw [visible_iff nonzero] at hidden visible
    exact run.not_shown rest sig hidden absent visible

theorem one_entry_per_signature_single :
    OneEntry (zeroTable gpuHash) ∧
      (∀ elem : DElem, elem.sig ≠ 0 → elem.loc ≠ 0 → ¬Visible (hashDelete (zeroTable gpuHash) elem) elem.query elem.loc) ∧
      ∀ (query : SElem) (loc : Loc), query.sig ≠ 0 → loc ≠ 0 → ¬Visible (zeroTable gpuHash) query loc →
        (∀ elem ∈ inserted [.cuckoo ⟨7, 0, 3⟩], ¬(elem.sig = query.sig ∧ elem.loc = loc)) →
        ¬Visible (hashInsertCuckoo (zeroTable gpuHash) ⟨7, 0, 3⟩) query loc := by
  have differs : (0 : Sign) ≠ 7 := by decide
  have checked : Checked (zeroTable gpuHash) ⟨7, 0, 3⟩ := by
    intro _ given
    rcases given with ⟨simdLane, held⟩
    exact absurd held differs
  have home : EvictsHome (zeroTable gpuHash) ⟨7, 0, 3⟩ := .inl (by decide +kernel)
  have start : Run gpuHash TidyOp [] (zeroTable gpuHash) := .zero
  have once := start.step (.cuckoo ⟨7, 0, 3⟩) (.insert _ differs.symm checked home)
  exact one_entry_per_signature start once

end Runs

section Reinsertion

inductive SignedOp : Op → Prop where
  | insert (elem : IElem) (sig : elem.sig ≠ 0) : SignedOp (.cuckoo elem)
  | delete (elem : DElem) (sig : elem.sig ≠ 0) : SignedOp (.delete elem)

def stackedOnce : Table gpuHash := putElem firstStack (secondIndex gpuHash 0 16) (gpuHash.lane 0) 16 17
def stackedOpen : Table gpuHash := hashDelete stackedOnce (stackedElem 0 0 0)
def stackedTwice : Table gpuHash := putElem stackedOpen (bucketIndex gpuHash 0) (gpuHash.lane 1) 16 17

def reinsertedRun : List Op :=
  stackOps .cuckoo 0 0 ++ [.cuckoo misplacingElem] ++ [.delete (stackedElem 0 0 0)] ++ [.cuckoo misplacingElem]

theorem stackedTwice_reaches : Run gpuHash (fun _ op => SignedOp op) reinsertedRun stackedTwice := by
  have sig : misplacingElem.sig ≠ 0 := by decide
  have first : Run gpuHash (fun _ op => SignedOp op) (stackOps .cuckoo 0 0) firstStack :=
    firstStack_reaches cuckoo_puts (fun _ n bound => .insert _ (stackedElem_sig 0 0 n bound))
  have once := first.step (.cuckoo misplacingElem) (.insert misplacingElem sig)
  have full : firstFound firstStack misplacingElem = .full := by decide +kernel
  have second : (firstCarry firstStack misplacingElem).found misplacingElem = .empty (gpuHash.lane 0) := by decide +kernel
  rw [Op.perform, hashInsertCuckoo_full sig full, cuckooEvict_empty second] at once
  have cleared := once.step (.delete (stackedElem 0 0 0)) (.delete _ (stackedElem_sig 0 0 0 (by decide)))
  have twice := cleared.step (.cuckoo misplacingElem) (.insert misplacingElem sig)
  have empty : firstFound stackedOpen misplacingElem = .empty (gpuHash.lane 1) := by decide +kernel
  change Run gpuHash _ _ (hashInsertCuckoo stackedOpen misplacingElem) at twice
  rw [hashInsertCuckoo_empty sig empty] at twice
  exact twice

theorem stackedTwice_slots :
    entry stackedTwice (bucketIndex gpuHash 0, gpuHash.lane 1) = (16, 17) ∧
      entry stackedTwice (secondIndex gpuHash 0 16, gpuHash.lane 0) = (16, 17) ∧
      entry (hashDelete stackedTwice misplacingElem) (secondIndex gpuHash 0 16, gpuHash.lane 0) = (16, 17) := by
  decide +kernel

/-- An element inserted again when its first bucket has room again is there twice, and a deletion
    removes one of the two. -/
theorem reinserted_twice :
    (¬ ∀ (ops : List Op) (table : Table gpuHash), Run gpuHash (fun _ op => SignedOp op) ops table → OneEntry table) ∧
      ¬ ∀ (ops : List Op) (table : Table gpuHash), Run gpuHash (fun _ op => SignedOp op) ops table →
        ∀ elem : DElem, elem.sig ≠ 0 → elem.loc ≠ 0 → ¬Visible (hashDelete table elem) elem.query elem.loc := by
  obtain ⟨first, second, left⟩ := stackedTwice_slots
  have home : Queried gpuHash misplacingElem.query (bucketIndex gpuHash 0) := Or.inl rfl
  have other : Queried gpuHash misplacingElem.query (secondIndex gpuHash 0 16) := Or.inr rfl
  have nonzero : misplacingElem.query.sig ≠ 0 := by decide
  constructor
  · intro single
    have same := (single _ _ stackedTwice_reaches).slots nonzero home other first second
    have lanes : gpuHash.lane 1 ≠ gpuHash.lane 0 := by decide
    exact lanes (congrArg Prod.snd same)
  · intro hidden
    apply hidden _ _ stackedTwice_reaches misplacingElem (by decide) (by decide)
    have found : misplacingElem.loc ≠ 0 := by decide
    exact (visible_iff found).mpr ⟨(secondIndex gpuHash 0 16, gpuHash.lane 0), other, left⟩

end Reinsertion

end MegaKV.Hash
