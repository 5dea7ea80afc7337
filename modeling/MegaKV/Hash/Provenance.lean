import MegaKV.Hash.Apart

namespace MegaKV.Hash

open Library

variable {g : Geometry}

section Values

variable (g) in
/-- Zero, or what an element of the region holds. -/
def Supplied (elems : List IElem) (field : IElem → BitVec 32) (number : Nat) (value : BitVec 32) : Prop :=
  value = 0 ∨ ∃ elem ∈ elems, field elem = value ∧ hashRegion g elem.hash = number

variable (g) in
/-- The signature and the location may be those of two elements. -/
structure SuppliedPair (elems : List IElem) (number : Nat) (pair : Sign × Loc) : Prop where
  sig : Supplied g elems IElem.sig number pair.1
  loc : Supplied g elems IElem.loc number pair.2

def SuppliedTable (elems : List IElem) (table : Table g) : Prop :=
  ∀ slot, SuppliedPair g elems (region slot.1) (entry table slot)

variable {elems : List IElem} {table after : Table g} {b : g.Index} {simdLane : g.Lane}

theorem supplied_member {elem : IElem} (member : elem ∈ elems) (field : IElem → BitVec 32) :
    Supplied g elems field (hashRegion g elem.hash) (field elem) := .inr ⟨elem, member, rfl, rfl⟩

theorem suppliedTable_zero (elems : List IElem) : SuppliedTable elems (zeroTable g) :=
  fun _ => ⟨.inl rfl, .inl rfl⟩

theorem SuppliedTable.update (supplied : SuppliedTable elems table) {slot : g.Index × g.Lane} {pair : Sign × Loc}
    (source : SuppliedPair g elems (region slot.1) pair)
    (updated : entry after = Function.update (entry table) slot pair) : SuppliedTable elems after := by
  intro other
  rw [updated]
  by_cases same : other = slot
  · subst same
    rw [Function.update_self]
    exact source
  · rw [Function.update_of_ne same]
    exact supplied other

theorem SuppliedTable.setSig (supplied : SuppliedTable elems table) {sig : Sign}
    (source : Supplied g elems IElem.sig (region b) sig) : SuppliedTable elems (setSig table b simdLane sig) := by
  have kept := (supplied (b, simdLane)).loc
  exact @SuppliedTable.update g elems table _ supplied (b, simdLane) (sig, (table b).loc simdLane) ⟨source, kept⟩
    (entry_setSig table b simdLane sig)

theorem SuppliedTable.setLoc (supplied : SuppliedTable elems table) {loc : Loc}
    (source : Supplied g elems IElem.loc (region b) loc) : SuppliedTable elems (setLoc table b simdLane loc) := by
  have kept := (supplied (b, simdLane)).sig
  exact @SuppliedTable.update g elems table _ supplied (b, simdLane) ((table b).sig simdLane, loc) ⟨kept, source⟩
    (entry_setLoc table b simdLane loc)

theorem entry_clearLanes (table : Table g) (b : g.Index) (held : g.Lane → Bool) (slot : g.Index × g.Lane) :
    entry (clearLanes table b held) slot =
      if slot.1 = b ∧ held slot.2 then (0, (entry table slot).2) else entry table slot := by
  obtain ⟨c, simdLane⟩ := slot
  by_cases same : c = b
  · subst same
    by_cases writes : held simdLane = true
    · simp [entry, clearLanes, writes]
    · simp [entry, clearLanes, writes]
  · simp [entry, clearLanes, same]

theorem SuppliedTable.clearLanes (supplied : SuppliedTable elems table) (held : g.Lane → Bool) :
    SuppliedTable elems (clearLanes table b held) := by
  intro slot
  rw [entry_clearLanes]
  split
  · exact ⟨.inl rfl, (supplied slot).loc⟩
  · exact supplied slot

end Values

section Insertions

variable {elems : List IElem} {table : Table g} {i : Insertion g} {number : Nat}

variable (g) in
def FedFound (elems : List IElem) (number : Nat) : Found → Prop
  | .victim newSig newLoc => SuppliedPair g elems number (newSig, newLoc)
  | _ => True

def FedPoint (elems : List IElem) (number : Nat) : InsertPoint g → Prop
  | .victimLoc newSig => Supplied g elems IElem.sig number newSig
  | .sign _ found => FedFound g elems number found
  | .back _ found => FedFound g elems number found
  | .put b _ found => region b = number ∧ FedFound g elems number found
  | _ => True

/-- What an insertion holds in its registers, or is about to write, belongs to the region of its element. -/
structure Insertion.Fed (elems : List IElem) (i : Insertion g) : Prop where
  member : i.elem ∈ elems
  pair : SuppliedPair g elems (hashRegion g i.elem.hash) (i.sig, i.loc)
  point : FedPoint elems (hashRegion g i.elem.hash) i.point

theorem Insertion.Fed.begin {elem : IElem} (member : elem ∈ elems) : (Insertion.begin elem : Insertion g).Fed elems :=
  ⟨member, ⟨supplied_member member IElem.sig, supplied_member member IElem.loc⟩, trivial⟩

theorem Insertion.Fed.move (fed : i.Fed elems) {point : InsertPoint g}
    (there : FedPoint elems (hashRegion g i.elem.hash) point) :
    ∀ next, i.at point = some next → next.Fed elems := by
  rintro next ⟨⟩
  exact ⟨fed.member, fed.pair, there⟩

theorem Insertion.Fed.after (fed : i.Fed elems) {found : Found} (source : FedFound g elems (hashRegion g i.elem.hash) found) :
    ∀ next, i.after found = some next → next.Fed elems := by
  intro next rest
  cases found with
  | free => cases rest
  | last => cases rest
  | victim newSig newLoc =>
    cases rest
    exact ⟨fed.member, source, trivial⟩

theorem Insertion.Fed.access (fed : i.Fed elems) (supplied : SuppliedTable elems table) :
    SuppliedTable elems (i.access table).2 ∧ ∀ next, (i.access table).1 = some next → next.Fed elems := by
  have first : region i.first = hashRegion g i.elem.hash := first_region _
  have second : region i.second = hashRegion g i.elem.hash := second_region _ _
  have written : ∀ number, number = hashRegion g i.elem.hash →
      Supplied g elems IElem.sig number i.sig ∧ Supplied g elems IElem.loc number i.loc := by
    rintro number rfl
    exact ⟨fed.pair.sig, fed.pair.loc⟩
  have victim := second ▸ supplied (i.second, majorLane g i.elem.sig)
  have point := fed.point
  have goes := i.goes table
  generalize i.point = here at point goes
  generalize (i.access table).1 = rest, (i.access table).2 = after at goes ⊢
  cases goes with
  | leftOut zero => exact ⟨supplied, by rintro next ⟨⟩⟩
  | heldFirst found => exact ⟨supplied, fed.move ⟨first, trivial⟩⟩
  | absentFirst absent => exact ⟨supplied, fed.move trivial⟩
  | roomFirst room => exact ⟨supplied, fed.move trivial⟩
  | fullFirst full => exact ⟨supplied, fed.move trivial⟩
  | signedFirst chosenSimd => exact ⟨supplied.setSig (written _ first).1, fed.move trivial⟩
  | wonFirst chosenSimd back => exact ⟨supplied, fed.move ⟨first, trivial⟩⟩
  | lostFirst chosenSimd back => exact ⟨supplied, fed.move trivial⟩
  | held found => exact ⟨supplied, fed.move ⟨second, trivial⟩⟩
  | absent absent => exact ⟨supplied, fed.move trivial⟩
  | room room => exact ⟨supplied, fed.move trivial⟩
  | full full more => exact ⟨supplied, fed.move trivial⟩
  | last full most => exact ⟨supplied, fed.move trivial⟩
  | victimSig => exact ⟨supplied, fed.move victim.sig⟩
  | victimLoc newSig => exact ⟨supplied, fed.move ⟨point, victim.loc⟩⟩
  | signed chosenSimd found => exact ⟨supplied.setSig (written _ second).1, fed.move point⟩
  | won chosenSimd found back => exact ⟨supplied, fed.move ⟨second, point⟩⟩
  | retries chosenSimd back => exact ⟨supplied, fed.move trivial⟩
  | givesUp chosenSimd found back evicting => exact ⟨supplied, by rintro next ⟨⟩⟩
  | located b chosenSimd found => exact ⟨supplied.setLoc (written _ point.1).2, fed.after point.2⟩

end Insertions

section Kernels

variable {Out Who : Type} {elems : List IElem} {device : Device g Out} {s : Searching g Out} {initial : Out → Nat → Loc}

/-- What the device holds comes from the elements, or was in the arrays from the start. -/
structure FedDevice (elems : List IElem) (initial : Out → Nat → Loc) (device : Device g Out) : Prop where
  table : SuppliedTable elems device.table
  out : ∀ out position, device.out out position = initial out position ∨ device.out out position = 0 ∨
    ∃ elem ∈ elems, elem.loc = device.out out position

def FedTask (elems : List IElem) (_ : Device g Out) : Task g Out → Prop
  | .insert insertion => insertion.Fed elems
  | _ => True

theorem FedDevice.setTable (fed : FedDevice elems initial device) {table : Table g} (supplied : SuppliedTable elems table) :
    FedDevice elems initial { device with table := table } := ⟨supplied, fed.out⟩

theorem deletion_supplied (supplied : SuppliedTable elems device.table) (d : Deletion g) :
    SuppliedTable elems (d.access device.table).2 := by
  unfold Deletion.access
  split
  all_goals first | exact supplied | exact supplied.clearLanes _

variable [DecidableEq Out] [DecidableEq Who]

theorem mem_startedElems {pool : Pool Who (Task g Out) (Device g Out)} {turns : List (Turn Who (Work g Out))} {elem : IElem} :
    elem ∈ startedElems pool turns ↔ .insert elem ∈ pool.begunWork begin access turns := by
  constructor
  · intro member
    obtain ⟨work, inside, same⟩ := List.mem_filterMap.mp member
    cases work with
    | insert other =>
      cases same
      exact inside
    | delete other => cases same
    | search other out id schedule => cases same
    | clear out numElem => cases same
  · exact fun inside => List.mem_filterMap.mpr ⟨_, inside, rfl⟩

theorem write_self (out : Out) (position : Nat) (loc : Loc) : (device.write out position loc).out out position = loc := by
  simp only [Device.write, Function.update_self]

theorem write_other {out array : Out} {position place : Nat} (loc : Loc) (different : array ≠ out ∨ place ≠ position) :
    (device.write out position loc).out array place = device.out array place := by
  by_cases here : array = out
  · subst here
    have apart := different.resolve_left fun differs => differs rfl
    simp only [Device.write, Function.update_self, Function.update_of_ne apart]
  · simp only [Device.write, Function.update_of_ne here]

/-- A search writes nothing but locations from the index. -/
theorem searching_written (array : Out) (place : Nat) :
    (s.access device).2.out array place = device.out array place ∨
      ∃ slot, (s.access device).2.out array place = (entry device.table slot).2 := by
  have written : ∀ (b : g.Index) (equal : g.Lane → Bool) (order : LaneOrder g) (position : Nat),
      (device.write s.out position (settle equal (device.table b).loc order.lanes (device.out s.out position))).out array
          place = device.out array place ∨
        ∃ slot, (device.write s.out position
          (settle equal (device.table b).loc order.lanes (device.out s.out position))).out array place =
            (entry device.table slot).2 := by
    intro b equal order position
    by_cases here : array = s.out ∧ place = position
    · obtain ⟨rfl, rfl⟩ := here
      rw [write_self]
      rcases @settle_value _ _ equal (device.table b).loc order.lanes (device.out s.out place) with
        kept | ⟨simdLane, _, _, same⟩
      · exact .inl kept
      · exact .inr ⟨(b, simdLane), same⟩
    · exact .inl (write_other _ (not_and_or.mp here))
  unfold Searching.access
  split
  · exact .inl rfl
  · exact written _ _ _ _
  · exact .inl rfl
  · exact written _ _ _ _

theorem searching_fed (fed : FedDevice elems initial device) (s : Searching g Out) :
    FedDevice elems initial (s.access device).2 := by
  refine ⟨?_, ?_⟩
  · rw [searching_table]
    exact fed.table
  · intro array place
    rcases @searching_written g Out device s _ array place with kept | ⟨slot, same⟩
    · rw [kept]
      exact fed.out array place
    · rcases (fed.table slot).loc with zero | ⟨elem, member, held, _⟩
      · exact .inr (.inl (same.trans zero))
      · exact .inr (.inr ⟨elem, member, held.trans same.symm⟩)

theorem access_fed (task : Task g Out) (device : Device g Out) (fed : FedDevice elems initial device)
    (own : FedTask elems device task) :
    FedDevice elems initial (access task device).2 ∧
      ∀ next, (access task device).1 = some next → FedTask elems (access task device).2 next := by
  cases task with
  | insert insertion =>
    obtain ⟨supplied, rest⟩ := Insertion.Fed.access own fed.table
    refine ⟨fed.setTable supplied, ?_⟩
    intro next same
    obtain ⟨left, found, rfl⟩ := Option.map_eq_some_iff.mp same
    exact rest left found
  | delete deletion =>
    refine ⟨fed.setTable (deletion_supplied fed.table deletion), ?_⟩
    intro next same
    obtain ⟨left, _, rfl⟩ := Option.map_eq_some_iff.mp same
    trivial
  | search searching =>
    refine ⟨searching_fed fed searching, ?_⟩
    intro next same
    obtain ⟨left, _, rfl⟩ := Option.map_eq_some_iff.mp same
    trivial
  | clear out numElem =>
    refine ⟨⟨fed.table, ?_⟩, by rintro next ⟨⟩⟩
    intro array position
    simp only [access]
    by_cases here : array = out
    · subst here
      rw [Function.update_self]
      split
      · exact .inr (.inl rfl)
      · exact fed.out array position
    · rw [Function.update_of_ne here]
      exact fed.out array position

/-- What is stored and put out after any turns comes from the elements begun. -/
theorem turns_fed (initial : Out → Nat → Loc) (turns : List (Turn Who (Work g Out))) :
    Pool.Keeps (FedDevice (startedElems (blankDevice Who initial) turns) initial)
      (FedTask (startedElems (blankDevice Who initial) turns)) ((blankDevice Who initial).turns begin access turns) := by
  have start : Pool.Keeps (FedDevice (startedElems (blankDevice Who initial) turns) initial)
      (FedTask (startedElems (blankDevice Who initial) turns))
      (blankDevice Who initial : Pool Who (Task g Out) (Device g Out)) := by
    refine ⟨⟨suppliedTable_zero _, fun out position => .inl rfl⟩, ?_⟩
    rintro who task ⟨⟩
  apply start.turns access_fed
  · intro task other store _ _ own
    cases other <;> exact own
  · intro work begun store _
    cases work with
    | insert elem => exact Insertion.Fed.begin (mem_startedElems.mpr begun)
    | delete elem => trivial
    | search elem out id schedule => trivial
    | clear out numElem => trivial

/-- However the accesses of the kernels to the index follow each other, each signature and each location stored was
    inserted into the region it lies in, and a search puts out nothing else. -/
theorem interleaved_supplied (initial : Out → Nat → Loc) (turns : List (Turn Who (Work g Out))) :
    let started := startedElems (blankDevice Who initial) turns
    let device := ((blankDevice Who initial).turns begin access turns).store
    SuppliedTable started device.table ∧
      ∀ out position, device.out out position = initial out position ∨ device.out out position = 0 ∨
        ∃ elem ∈ started, elem.loc = device.out out position := by
  have fed := (turns_fed initial turns).store
  exact ⟨fed.table, fed.out⟩

end Kernels

end MegaKV.Hash
