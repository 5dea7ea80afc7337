import MegaKV.Hash.Lanes
import MegaKV.Hash.Threads

namespace MegaKV.Hash

open Library

variable {g : Geometry}

section Insertions

abbrev InsertsAlone : Insertion g → Table g → Table g → Prop := Pool.Alone Insertion.access

variable {table after final : Table g}

theorem InsertsAlone.move (i : Insertion g) (point next : InsertPoint g)
    (step : ({ i with point := point } : Insertion g).access table = (i.at next, after))
    (rest : InsertsAlone { i with point := next } after final) : InsertsAlone { i with point := point } table final := by
  refine .more _ ({ i with point := next } : Insertion g) table final (congrArg Prod.fst step) ?_
  rw [congrArg Prod.snd step]
  exact rest

theorem put_alone (i : Insertion g) (table : Table g) (b : g.Index) (chosenSimd : g.Lane) {found : Found}
    (ends : i.after found = none) :
    InsertsAlone { i with point := .put b chosenSimd found } table (setLoc table b chosenSimd i.loc) :=
  .last _ _ ends

/-- Alone, the lanes read back what they have written. -/
theorem sign_alone (i : Insertion g) (chosenSimd : g.Lane) (found : Found)
    (rest : InsertsAlone { i with point := .put i.second chosenSimd found }
      (setSig table i.second chosenSimd i.sig) final) :
    InsertsAlone { i with point := .sign chosenSimd found } table final := by
  have back := setSig_back table i.second chosenSimd i.sig
  have signed : InsertsAlone { i with point := .back chosenSimd found } (setSig table i.second chosenSimd i.sig) final :=
    .move i (.back chosenSimd found) (.put i.second chosenSimd found) (if_pos back) rest
  exact .move i (.sign chosenSimd found) (.back chosenSimd found) rfl signed

theorem signFirst_alone (i : Insertion g) (chosenSimd : g.Lane) :
    InsertsAlone { i with point := .signFirst chosenSimd } table (putElem table i.first chosenSimd i.sig i.loc) := by
  have back := setSig_back table i.first chosenSimd i.sig
  have located : InsertsAlone { i with point := .put i.first chosenSimd .free }
      (setSig table i.first chosenSimd i.sig) (putElem table i.first chosenSimd i.sig i.loc) :=
    put_alone i _ i.first chosenSimd rfl
  have signed : InsertsAlone { i with point := .backFirst chosenSimd } (setSig table i.first chosenSimd i.sig)
      (putElem table i.first chosenSimd i.sig i.loc) :=
    .move i (.backFirst chosenSimd) (.put i.first chosenSimd .free) (if_pos back) located
  exact .move i (.signFirst chosenSimd) (.backFirst chosenSimd) rfl signed

theorem probe_cases (b : Bucket g) (mask : BitVec 32) (sig : Sign) :
    (matching b sig ≠ 0 ∧ probe b mask sig = .held (chosenSimd (matching b sig))) ∨
      (matching b sig = 0 ∧ vacant b mask ≠ 0 ∧ probe b mask sig = .empty (chosenSimd (vacant b mask))) ∨
      (matching b sig = 0 ∧ vacant b mask = 0 ∧ probe b mask sig = .full) := by
  unfold probe
  by_cases found : matching b sig = 0
  · by_cases room : vacant b mask = 0
    · exact .inr (.inr ⟨found, room, by simp only [found, room, ne_eq, not_true_eq_false, ite_false]⟩)
    · exact .inr (.inl ⟨found, room, by simp only [found, room, ne_eq, not_true_eq_false, not_false_eq_true, ite_false,
        ite_true]⟩)
  · exact .inl ⟨found, by simp only [found, ne_eq, not_false_eq_true, ite_true]⟩

def Insertion.carry (i : Insertion g) (table : Table g) : Carry g := ⟨table, i.sig, i.loc⟩

section Compare

variable (i : Insertion g) (left : Nat)

theorem compare_held (found : matching (table i.second) i.sig ≠ 0)
    (probed : (i.carry table).found i.elem = .held (chosenSimd (matching (table i.second) i.sig))) :
    InsertsAlone { i with point := .compare } table (cuckooEvict i.elem left (i.carry table)) := by
  rw [cuckooEvict_held probed]
  exact .move i .compare (.put i.second _ .free) (if_pos found) (put_alone i table i.second _ rfl)

theorem compare_empty (absent : matching (table i.second) i.sig = 0)
    (room : vacant (table i.second) (mlMask g i.elem.sig) ≠ 0)
    (probed : (i.carry table).found i.elem = .empty (chosenSimd (vacant (table i.second) (mlMask g i.elem.sig)))) :
    InsertsAlone { i with point := .compare } table (cuckooEvict i.elem left (i.carry table)) := by
  rw [cuckooEvict_empty probed]
  have signed := sign_alone i (chosenSimd (vacant (table i.second) (mlMask g i.elem.sig))) .free
    (put_alone i (setSig table i.second _ i.sig) i.second _ rfl)
  have tried : InsertsAlone { i with point := .empty } table _ := .move i .empty (.sign _ .free) (if_pos room) signed
  exact .move i .compare .empty (if_neg (not_not.mpr absent)) tried

theorem compare_last (absent : matching (table i.second) i.sig = 0)
    (full : vacant (table i.second) (mlMask g i.elem.sig) = 0) (most : ¬i.cuckooNum < maxCuckooNum)
    (probed : (i.carry table).found i.elem = .full) :
    InsertsAlone { i with point := .compare } table (cuckooEvict i.elem 0 (i.carry table)) := by
  rw [cuckooEvict_last probed]
  have signed := sign_alone i (majorLane g i.elem.sig) .last
    (put_alone i (setSig table i.second _ i.sig) i.second _ rfl)
  have tried : InsertsAlone { i with point := .empty } table _ :=
    .move i .empty (.sign (majorLane g i.elem.sig) .last) ((if_neg (not_not.mpr full)).trans (if_neg most)) signed
  exact .move i .compare .empty (if_neg (not_not.mpr absent)) tried

def Insertion.evicting (i : Insertion g) (table : Table g) : Insertion g :=
  { i with
    sig := (table i.second).sig (majorLane g i.elem.sig)
    loc := (table i.second).loc (majorLane g i.elem.sig)
    cuckooNum := i.cuckooNum + 1
    point := .compare }

theorem compare_next (absent : matching (table i.second) i.sig = 0)
    (full : vacant (table i.second) (mlMask g i.elem.sig) = 0) (more : i.cuckooNum < maxCuckooNum)
    (rest : InsertsAlone (i.evicting table) (putElem table i.second (majorLane g i.elem.sig) i.sig i.loc) final) :
    InsertsAlone { i with point := .compare } table final := by
  let chosen := majorLane g i.elem.sig
  let newSig := (table i.second).sig chosen
  let newLoc := (table i.second).loc chosen
  have put : InsertsAlone { i with point := .put i.second chosen (.victim newSig newLoc) }
      (setSig table i.second chosen i.sig) final :=
    .more _ (i.evicting table) _ final rfl rest
  have signed := sign_alone i chosen (.victim newSig newLoc) put
  have location : InsertsAlone { i with point := .victimLoc newSig } table final :=
    .move i (.victimLoc newSig) (.sign chosen (.victim newSig newLoc)) rfl signed
  have victim : InsertsAlone { i with point := .victimSig } table final :=
    .move i .victimSig (.victimLoc newSig) rfl location
  have tried : InsertsAlone { i with point := .empty } table final :=
    .move i .empty .victimSig ((if_neg (not_not.mpr full)).trans (if_pos more)) victim
  exact .move i .compare .empty (if_neg (not_not.mpr absent)) tried

end Compare

/-- From the comparison in the second bucket on, an insertion alone does what the rounds of the chain do. -/
theorem compare_alone (left : Nat) (i : Insertion g) (table : Table g) (count : i.cuckooNum + left = maxCuckooNum) :
    InsertsAlone { i with point := .compare } table (cuckooEvict i.elem left (i.carry table)) := by
  induction left generalizing i table with
  | zero =>
    rcases probe_cases (table i.second) (mlMask g i.elem.sig) i.sig with
      ⟨found, probed⟩ | ⟨absent, room, probed⟩ | ⟨absent, full, probed⟩
    · exact compare_held i 0 found probed
    · exact compare_empty i 0 absent room probed
    · exact compare_last i absent full (by omega) probed
  | succ left ih =>
    rcases probe_cases (table i.second) (mlMask g i.elem.sig) i.sig with
      ⟨found, probed⟩ | ⟨absent, room, probed⟩ | ⟨absent, full, probed⟩
    · exact compare_held i (left + 1) found probed
    · exact compare_empty i (left + 1) absent room probed
    · have probed : (i.carry table).found i.elem = .full := probed
      rw [cuckooEvict_next probed]
      have rest := ih (i.evicting table) (putElem table i.second (majorLane g i.elem.sig) i.sig i.loc)
        (by change i.cuckooNum + 1 + left = maxCuckooNum; omega)
      exact compare_next i absent full (by omega) rest

/-- Alone, an insertion does what the kernel does to one element at a time. -/
theorem insert_alone (elem : IElem) (table : Table g) :
    InsertsAlone (.begin elem) table (hashInsertCuckoo table elem) := by
  let i : Insertion g := .begin elem
  change InsertsAlone { i with point := .compareFirst } table _
  by_cases zero : elem.sig = 0 ∧ elem.loc = 0
  · have out : i.access table = (none, table) := if_pos zero
    have ends : InsertsAlone i table (i.access table).2 := .last _ _ (congrArg Prod.fst out)
    rw [out] at ends
    rw [hashInsertCuckoo, if_pos zero]
    exact ends
  · rw [hashInsertCuckoo, if_neg zero]
    rcases probe_cases (table i.first) (mlMask g elem.sig) elem.sig with
      ⟨found, probed⟩ | ⟨absent, room, probed⟩ | ⟨absent, full, probed⟩
    · have probed : firstFound table elem = .held _ := probed
      rw [probed]
      exact .move i .compareFirst (.put i.first _ .free) ((if_neg zero).trans (if_pos found))
        (put_alone i table i.first _ rfl)
    · have probed : firstFound table elem = .empty _ := probed
      rw [probed]
      have tried : InsertsAlone { i with point := .emptyFirst } table _ :=
        .move i .emptyFirst (.signFirst _) (if_pos room) (signFirst_alone i _)
      exact .move i .compareFirst .emptyFirst ((if_neg zero).trans (if_neg (not_not.mpr absent))) tried
    · have probed : firstFound table elem = .full := probed
      rw [probed]
      have compared := compare_alone maxCuckooNum i table (Nat.zero_add _)
      have tried : InsertsAlone { i with point := .emptyFirst } table _ :=
        .move i .emptyFirst .compare (if_neg (not_not.mpr full)) compared
      exact .move i .compareFirst .emptyFirst ((if_neg zero).trans (if_neg (not_not.mpr absent))) tried

end Insertions

section Devices

variable {Out Who : Type} [DecidableEq Out] [DecidableEq Who] {device : Device g Out}

abbrev WorksAlone : Task g Out → Device g Out → Device g Out → Prop := Pool.Alone access

def Work.perform (device : Device g Out) : Work g Out → Device g Out
  | .insert elem => { device with table := hashInsertCuckoo device.table elem }
  | .delete elem => { device with table := hashDelete device.table elem }
  | .search elem out id schedule =>
    { device with out := Function.update device.out out (searchElem device.table schedule id elem (device.out out)) }
  | .clear out numElem =>
    { device with
      out := Function.update device.out out fun position =>
        if position < 2 * numElem then 0 else device.out out position }

theorem WorksAlone.cons {task next : Task g Out} {after final : Device g Out} (step : access task device = (some next, after))
    (rest : WorksAlone next after final) : WorksAlone task device final := by
  refine .more task next device final (congrArg Prod.fst step) ?_
  rw [congrArg Prod.snd step]
  exact rest

theorem WorksAlone.nil {task : Task g Out} {after : Device g Out} (step : access task device = (none, after)) :
    WorksAlone task device after := by
  have ends : WorksAlone task device (access task device).2 := .last task device (congrArg Prod.fst step)
  rwa [step] at ends

/-- An insertion uses nothing of the device but the index. -/
theorem insertion_works {i : Insertion g} {table final : Table g} (alone : InsertsAlone i table final)
    (same : device.table = table) : WorksAlone (.insert i) device { device with table := final } := by
  induction alone generalizing device with
  | last i table ends =>
    subst same
    refine .nil ?_
    simp only [access, ends, Option.map_none]
  | more i next table final rest alone ih =>
    subst same
    have step : access (.insert i) device = (some (.insert next), { device with table := (i.access device.table).2 }) := by
      simp only [access, rest, Option.map_some]
    exact .cons step (@ih { device with table := (i.access device.table).2 } rfl)

theorem deletion_works (elem : DElem) :
    WorksAlone (.delete ⟨elem, .voteSig⟩) device { device with table := hashDelete device.table elem } := by
  let d := fun point : DeletePoint g => (Task.delete ⟨elem, point⟩ : Task g Out)
  let first := bucketIndex g elem.hash
  let second := secondIndex g elem.hash elem.sig
  let equal := fun simdLane => (device.table first).sig simdLane == elem.sig
  let votes := holdsElem (device.table first) elem
  let cleared := clearElem device.table first elem
  let equal' := fun simdLane => (cleared second).sig simdLane == elem.sig
  have clear : WorksAlone (d (.clear votes votes)) device { device with table := hashDelete device.table elem } := by
    by_cases voted : ballot votes ≠ 0
    · have result : hashDelete device.table elem = cleared := if_pos voted
      rw [result]
      apply WorksAlone.nil
      simp only [d, access, Deletion.access, voted, ne_eq, not_false_eq_true, ite_true, Option.map_none]
      rfl
    · have result : hashDelete device.table elem = clearElem cleared second elem := if_neg voted
      rw [result]
      have step : access (d (.clear votes votes)) device = (some (d .otherSig), { device with table := cleared }) := by
        simp only [d, access, Deletion.access, voted, ite_false]
        rfl
      apply WorksAlone.cons step
      have otherSig : access (d .otherSig) { device with table := cleared } =
          (some (d (.otherLoc equal')), { device with table := cleared }) := rfl
      have otherLoc : access (d (.otherLoc equal')) { device with table := cleared } =
          (some (d (.otherClear (holdsElem (cleared second) elem))), { device with table := cleared }) := rfl
      exact .cons otherSig (.cons otherLoc (.nil rfl))
  have voteSig : access (d .voteSig) device = (some (d (.voteLoc equal)), device) := rfl
  have voteLoc : access (d (.voteLoc equal)) device = (some (d (.sig votes)), device) := rfl
  have sig : access (d (.sig votes)) device = (some (d (.loc votes equal)), device) := rfl
  have loc : access (d (.loc votes equal)) device = (some (d (.clear votes votes)), device) := rfl
  exact .cons voteSig (.cons voteLoc (.cons sig (.cons loc clear)))

theorem write_write (device : Device g Out) (out : Out) (first second : Nat) (loc loc' : Loc) :
    (device.write out first loc).write out second loc' =
      { device with
        out := Function.update device.out out
          (Function.update (Function.update (device.out out) first loc) second loc') } := by
  simp only [Device.write, Function.update_self, Function.update_idem]

theorem searching_works (elem : SElem) (out : Out) (id : Nat) (schedule : Schedule g) :
    WorksAlone (.search ⟨elem, out, id, schedule, .sig⟩) device ((Work.search elem out id schedule).perform device) := by
  let s := fun point : SearchPoint g => (Task.search ⟨elem, out, id, schedule, point⟩ : Task g Out)
  let first := bucketIndex g elem.hash
  let second := secondIndex g elem.hash elem.sig
  let equal := fun b simdLane => (device.table b).sig simdLane == elem.sig
  let written := fun b (order : LaneOrder g) cell => lanesWrite (device.table b) elem.sig order cell
  let between := device.write out (id <<< 1) (written first schedule.first (device.out out (id <<< 1)))
  have last : access (s (.otherLoc (equal second))) between =
      (none, (Work.search elem out id schedule).perform device) := by
    change (none, between.write out ((id <<< 1) + 1) (written second schedule.second (between.out out ((id <<< 1) + 1)))) = _
    rw [write_write]
    simp only [Work.perform, searchElem, between, Device.write, Function.update_self]
    rfl
  have sig : access (s .sig) device = (some (s (.loc (equal first))), device) := rfl
  have loc : access (s (.loc (equal first))) device = (some (s .otherSig), between) := rfl
  have otherSig : access (s .otherSig) between = (some (s (.otherLoc (equal second))), between) := rfl
  exact .cons sig (.cons loc (.cons otherSig (.nil last)))

theorem work_works (work : Work g Out) (device : Device g Out) : WorksAlone (begin work) device (work.perform device) := by
  cases work with
  | insert elem => exact insertion_works (insert_alone elem device.table) rfl
  | delete elem => exact deletion_works elem
  | search elem out id schedule => exact searching_works elem out id schedule
  | clear out numElem => exact .nil rfl

/-- Whoever makes the accesses of a piece of work without another in between does what the kernel does to one element
    at a time. -/
theorem alone_performs (pool : Pool Who (Task g Out) (Device g Out)) (who : Who) (work : Work g Out)
    (begun : pool.task who = some (begin work)) :
    ∃ n, pool.turns begin access (List.replicate n (.access who)) =
      ⟨work.perform pool.store, Function.update pool.task who none⟩ :=
  (work_works work pool.store).turns begun rfl

def oneBegun : Pool Unit (Task gpuHash Unit) (Device gpuHash Unit) :=
  ⟨⟨zeroTable gpuHash, fun _ _ => 0⟩, fun _ => some (begin (.insert ⟨7, 0, 3⟩))⟩

theorem alone_performs_oneBegun :
    ∃ n, oneBegun.turns begin access (List.replicate n (.access ())) =
      ⟨(Work.insert ⟨7, 0, 3⟩).perform oneBegun.store, Function.update oneBegun.task () none⟩ :=
  alone_performs oneBegun () (.insert ⟨7, 0, 3⟩) rfl

end Devices

end MegaKV.Hash
