import MegaKV.Hash.Regions
import MegaKV.Hash.Threads

namespace MegaKV.Hash

open Library

variable {g : Geometry}

section Agreement

def AgreeIn (number : Nat) (left right : Table g) : Prop := ∀ b, region b = number → left b = right b

variable {number : Nat} {left right : Table g}

theorem AgreeIn.setSig (agree : AgreeIn number left right) (b : g.Index) (simdLane : g.Lane) (sig : Sign) :
    AgreeIn number (setSig left b simdLane sig) (setSig right b simdLane sig) := by
  intro c inside
  by_cases same : c = b
  · subst same
    simp only [MegaKV.Hash.setSig, Function.update_self, agree c inside]
  · simp only [MegaKV.Hash.setSig, Function.update_of_ne same, agree c inside]

theorem AgreeIn.setLoc (agree : AgreeIn number left right) (b : g.Index) (simdLane : g.Lane) (loc : Loc) :
    AgreeIn number (setLoc left b simdLane loc) (setLoc right b simdLane loc) := by
  intro c inside
  by_cases same : c = b
  · subst same
    simp only [MegaKV.Hash.setLoc, Function.update_self, agree c inside]
  · simp only [MegaKV.Hash.setLoc, Function.update_of_ne same, agree c inside]

theorem AgreeIn.clearLanes (agree : AgreeIn number left right) (b : g.Index) (held : g.Lane → Bool) :
    AgreeIn number (clearLanes left b held) (clearLanes right b held) := by
  intro c inside
  by_cases same : c = b
  · subst same
    simp only [MegaKV.Hash.clearLanes, Function.update_self, agree c inside]
  · simp only [MegaKV.Hash.clearLanes, Function.update_of_ne same, agree c inside]

/-- A change of another bucket. -/
theorem AgreeIn.update (agree : AgreeIn number left right) {b : g.Index} (outside : region b ≠ number)
    (bucket : Bucket g) : AgreeIn number (Function.update left b bucket) right := by
  intro c inside
  have differs : c ≠ b := fun same => outside (same ▸ inside)
  rw [Function.update_of_ne differs]
  exact agree c inside

end Agreement

section Insertions

variable {number : Nat} {left right table : Table g} {i : Insertion g}

structure Insertion.WorksIn (i : Insertion g) (number : Nat) : Prop where
  elem : hashRegion g i.elem.hash = number
  point : ∀ b chosenSimd found, i.point = .put b chosenSimd found → region b = number

theorem Insertion.WorksIn.same (works : i.WorksIn number) (agree : AgreeIn number left right) :
    (i.access left).1 = (i.access right).1 ∧ AgreeIn number (i.access left).2 (i.access right).2 := by
  have first : left i.first = right i.first := agree _ ((first_region _).trans works.elem)
  have second : left i.second = right i.second := agree _ ((second_region _ _).trans works.elem)
  obtain ⟨elem, sig, loc, cuckooNum, point⟩ := i
  cases point with
  | signFirst chosenSimd => exact ⟨rfl, agree.setSig _ _ _⟩
  | sign chosenSimd found => exact ⟨rfl, agree.setSig _ _ _⟩
  | put b chosenSimd found => exact ⟨rfl, agree.setLoc _ _ _⟩
  | victimSig =>
    refine ⟨?_, agree⟩
    simp only [Insertion.access, second]
  | victimLoc newSig =>
    refine ⟨?_, agree⟩
    simp only [Insertion.access, second]
  | compareFirst =>
    simp only [Insertion.access, first]
    split
    · exact ⟨rfl, agree⟩
    · split
      all_goals exact ⟨rfl, agree⟩
  | emptyFirst =>
    simp only [Insertion.access, first]
    split
    all_goals exact ⟨rfl, agree⟩
  | backFirst chosenSimd =>
    simp only [Insertion.access, first]
    split
    all_goals exact ⟨rfl, agree⟩
  | compare =>
    simp only [Insertion.access, second]
    split
    all_goals exact ⟨rfl, agree⟩
  | empty =>
    simp only [Insertion.access, second]
    split
    · exact ⟨rfl, agree⟩
    · split
      all_goals exact ⟨rfl, agree⟩
  | back chosenSimd found =>
    simp only [Insertion.access, second]
    split
    · exact ⟨rfl, agree⟩
    · split
      all_goals exact ⟨rfl, agree⟩

theorem Insertion.WorksIn.away (works : i.WorksIn number) {other : Nat} (differs : number ≠ other)
    (agree : AgreeIn other left right) : AgreeIn other (i.access left).2 right := by
  have first : region i.first ≠ other := fun same => differs (works.elem.symm.trans ((first_region _).symm.trans same))
  have second : region i.second ≠ other := fun same =>
    differs (works.elem.symm.trans ((second_region _ _).symm.trans same))
  have goes := i.goes left
  generalize here : i.point = point at goes
  generalize (i.access left).1 = rest, (i.access left).2 = after at goes ⊢
  cases goes with
  | signedFirst chosenSimd => exact agree.update first _
  | signed chosenSimd found => exact agree.update second _
  | located b chosenSimd found =>
    have outside : region b ≠ other := fun same => differs ((works.point b chosenSimd found here).symm.trans same)
    exact agree.update outside _
  | _ => exact agree

theorem Insertion.WorksIn.stays (works : i.WorksIn number) {next : Insertion g} (rest : (i.access table).1 = some next) :
    next.WorksIn number := by
  have first : region i.first = number := (first_region _).trans works.elem
  have second : region i.second = number := (second_region _ _).trans works.elem
  have goes := i.goes table
  generalize i.point = point at goes
  generalize (i.access table).1 = left, (i.access table).2 = after at goes rest
  cases goes with
  | leftOut zero => cases rest
  | givesUp chosenSimd found back evicting => cases rest
  | heldFirst found =>
    cases rest
    exact ⟨works.elem, by rintro b chosenSimd found ⟨⟩; exact first⟩
  | wonFirst chosenSimd back =>
    cases rest
    exact ⟨works.elem, by rintro b chosenSimd found ⟨⟩; exact first⟩
  | held found =>
    cases rest
    exact ⟨works.elem, by rintro b chosenSimd found ⟨⟩; exact second⟩
  | won chosenSimd found back =>
    cases rest
    exact ⟨works.elem, by rintro b chosenSimd found ⟨⟩; exact second⟩
  | located b chosenSimd found =>
    cases found with
    | free => cases rest
    | last => cases rest
    | victim newSig newLoc =>
      cases rest
      exact ⟨works.elem, by rintro b chosenSimd found ⟨⟩⟩
  | _ =>
    cases rest
    exact ⟨works.elem, by rintro b chosenSimd found ⟨⟩⟩

end Insertions

section Kernels

variable {Out Who : Type} {number : Nat} {left right : Device g Out}

/-- The region a piece of work is about. Clearing an output array is about none. -/
def Work.place : Work g Out → Option Nat
  | .insert elem => some (hashRegion g elem.hash)
  | .delete elem => some (hashRegion g elem.hash)
  | .search elem _ _ _ => some (hashRegion g elem.hash)
  | .clear _ _ => none

def WorksAt : Task g Out → Option Nat → Prop
  | .insert insertion, some number => insertion.WorksIn number
  | .delete deletion, some number => hashRegion g deletion.elem.hash = number
  | .search searching, some number => hashRegion g searching.elem.hash = number
  | .clear _ _, none => True
  | _, _ => False

def AgreeAt : Option Nat → Device g Out → Device g Out → Prop
  | some number, left, right => AgreeIn number left.table right.table
  | none, _, _ => True

theorem begin_worksAt (work : Work g Out) : WorksAt (begin work) work.place := by
  cases work with
  | insert elem => exact ⟨rfl, by rintro b chosenSimd found ⟨⟩⟩
  | delete elem => rfl
  | search elem out id schedule => rfl
  | clear out numElem => trivial

theorem deletion_same {d : Deletion g} (elem : hashRegion g d.elem.hash = number)
    (agree : AgreeIn number left.table right.table) :
    (d.access left.table).1 = (d.access right.table).1 ∧
      AgreeIn number (d.access left.table).2 (d.access right.table).2 := by
  have first : left.table d.first = right.table d.first := agree _ ((first_region _).trans elem)
  have second : left.table d.second = right.table d.second := agree _ ((second_region _ _).trans elem)
  obtain ⟨elem, point⟩ := d
  cases point with
  | clear votes held => exact ⟨rfl, agree.clearLanes _ _⟩
  | otherClear held => exact ⟨rfl, agree.clearLanes _ _⟩
  | _ => simp only [Deletion.access, first, second, true_and, agree]

theorem deletion_away {d : Deletion g} {other : Nat} (outside : hashRegion g d.elem.hash ≠ other)
    (agree : AgreeIn other left.table right.table) : AgreeIn other (d.access left.table).2 right.table := by
  have first : region d.first ≠ other := fun same => outside ((first_region _).symm.trans same)
  have second : region d.second ≠ other := fun same => outside ((second_region _ _).symm.trans same)
  obtain ⟨elem, point⟩ := d
  cases point with
  | clear votes held => exact agree.update first _
  | otherClear held => exact agree.update second _
  | _ => exact agree

theorem deletion_elem {d next : Deletion g} {table : Table g} (rest : (d.access table).1 = some next) :
    next.elem = d.elem := by
  obtain ⟨elem, point⟩ := d
  cases point with
  | clear votes held =>
    simp only [Deletion.access] at rest
    split at rest
    all_goals cases rest
    rfl
  | otherClear held => cases rest
  | _ =>
    cases rest
    rfl

variable [DecidableEq Out] [DecidableEq Who]

theorem searching_elem {s next : Searching g Out} {device : Device g Out} (rest : (s.access device).1 = some next) :
    next.elem = s.elem := by
  obtain ⟨elem, out, id, schedule, point⟩ := s
  cases point with
  | otherLoc equal => cases rest
  | _ =>
    cases rest
    rfl

theorem searching_table (s : Searching g Out) (device : Device g Out) : (s.access device).2.table = device.table := by
  unfold Searching.access
  split
  all_goals rfl

theorem searching_same {s : Searching g Out} (elem : hashRegion g s.elem.hash = number)
    (agree : AgreeIn number left.table right.table) : (s.access left).1 = (s.access right).1 := by
  have first : left.table s.first = right.table s.first := agree _ ((first_region _).trans elem)
  have second : left.table s.second = right.table s.second := agree _ ((second_region _ _).trans elem)
  obtain ⟨elem, out, id, schedule, point⟩ := s
  cases point with
  | loc equal => rfl
  | otherLoc equal => rfl
  | _ => simp only [Searching.access, first, second]

theorem tasks_local :
    Pool.Local (access : Task g Out → Device g Out → Option (Task g Out) × Device g Out) AgreeAt WorksAt := by
  refine ⟨?_, ?_, ?_⟩
  · intro task here left right works agree
    cases task with
    | clear out numElem =>
      cases here with
      | none => exact ⟨rfl, trivial⟩
      | some number => exact works.elim
    | insert insertion =>
      cases here with
      | none => exact works.elim
      | some number =>
        obtain ⟨next, tables⟩ := Insertion.WorksIn.same works agree
        exact ⟨congrArg (Option.map Task.insert) next, tables⟩
    | delete deletion =>
      cases here with
      | none => exact works.elim
      | some number =>
        obtain ⟨next, tables⟩ := deletion_same works agree
        exact ⟨congrArg (Option.map Task.delete) next, tables⟩
    | search searching =>
      cases here with
      | none => exact works.elim
      | some number =>
        refine ⟨congrArg (Option.map Task.search) (searching_same works agree), ?_⟩
        change AgreeIn number (searching.access left).2.table (searching.access right).2.table
        rw [searching_table, searching_table]
        exact agree
  · intro task there here left right works differs agree
    cases here with
    | none => trivial
    | some number =>
      cases task with
      | clear out numElem => exact agree
      | insert insertion =>
        cases there with
        | none => exact works.elim
        | some other => exact Insertion.WorksIn.away works (fun same => differs (congrArg some same)) agree
      | delete deletion =>
        cases there with
        | none => exact works.elim
        | some other =>
          exact deletion_away (fun same => differs (congrArg some ((show _ = other from works).symm.trans same))) agree
      | search searching =>
        change AgreeIn number (searching.access left).2.table right.table
        rw [searching_table]
        exact agree
  · intro task here device next works rest
    cases task with
    | clear out numElem => cases rest
    | insert insertion =>
      obtain ⟨left, found, rfl⟩ := Option.map_eq_some_iff.mp rest
      cases here with
      | none => exact works.elim
      | some number => exact Insertion.WorksIn.stays works found
    | delete deletion =>
      obtain ⟨left, found, rfl⟩ := Option.map_eq_some_iff.mp rest
      cases here with
      | none => exact works.elim
      | some number =>
        have same : left.elem = deletion.elem := deletion_elem found
        exact (congrArg (fun elem : DElem => hashRegion g elem.hash) same).trans works
    | search searching =>
      obtain ⟨left, found, rfl⟩ := Option.map_eq_some_iff.mp rest
      cases here with
      | none => exact works.elim
      | some number =>
        have same : left.elem = searching.elem := searching_elem found
        exact (congrArg (fun elem : SElem => hashRegion g elem.hash) same).trans works

/-- A region of the index evolves as if the accesses for the elements of other regions did not happen, whatever
    interleaving the kernels run in. -/
theorem regions_interleave_apart (device : Device g Out) (turns : List (Turn Who (Work g Out))) (place : Who → Option Nat)
    (begins : ∀ who work, .start who work ∈ turns → work.place = place who) (number : Nat) :
    let idle : Pool Who (Task g Out) (Device g Out) := ⟨device, fun _ => none⟩
    let all := idle.turns begin access turns
    let own := idle.turns begin access (turns.filter fun turn => place turn.who = some number)
    AgreeIn number all.store.table own.store.table ∧ ∀ who, place who = some number → all.task who = own.task who := by
  intro idle all own
  have placed : Pool.Placed WorksAt place idle := by rintro who task ⟨⟩
  have alike : Pool.Alike AgreeAt place (some number) idle idle := ⟨fun _ _ => rfl, fun _ _ => rfl⟩
  have after := alike.turns tasks_local placed fun who work member => begins who work member ▸ begin_worksAt work
  exact ⟨after.store, after.tasks⟩

def twoBegun : List (Turn Bool (Work gpuHash Unit)) :=
  [.start true (.insert ⟨7, 0, 3⟩), .start false (.insert ⟨7, 0x7fffff, 4⟩), .access true, .access false]

def twoPlaces (who : Bool) : Option Nat := some (hashRegion gpuHash (if who then 0 else 0x7fffff))

theorem regions_interleave_apart_twoBegun :
    let idle : Pool Bool (Task gpuHash Unit) (Device gpuHash Unit) := ⟨⟨zeroTable gpuHash, fun _ _ => 0⟩, fun _ => none⟩
    let all := idle.turns begin access twoBegun
    let own := idle.turns begin access (twoBegun.filter fun turn => twoPlaces turn.who = some 0)
    AgreeIn 0 all.store.table own.store.table ∧ ∀ who, twoPlaces who = some 0 → all.task who = own.task who :=
  regions_interleave_apart ⟨zeroTable gpuHash, fun _ _ => 0⟩ twoBegun twoPlaces (by simp [twoBegun, twoPlaces, Work.place]) 0

end Kernels

end MegaKV.Hash
