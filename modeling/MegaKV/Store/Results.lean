import MegaKV.Store.Underway

namespace MegaKV.Store

open Library Slab Scheduler

variable {workers : Nat} {g : Hash.Geometry}

section Round

variable (searches : SearchJobs) (leads : Hash.Loc → Prop) (apart : Nat → Prop)

/-- What the searches have put out in a round that has found the index as in `found`. With the searches in `apart` the
    kernels of the round do not interfere. -/
structure Results (found : Hash.Table g) (out : Nat → Hash.Loc) : Prop where
  leads : ∀ position < 2 * searches.numSearchJob, leads (out position)
  looked : ∀ id < searches.numSearchJob, apart id → Hash.LookedUp found (searches.searchIn id) id out

/-- How far the search kernel has come with search `id`. -/
structure LooksUp (found : Hash.Table g) (running : RunningKernel workers g)
    (task : Nat × Nat → Option (Hash.Task g (Worker workers))) (cells : Nat → Hash.Loc) (id : Nat) : Prop where
  unstarted : ∀ work, running.unstarted (0, id) = some work → cells (id <<< 1) = 0 ∧ cells ((id <<< 1) + 1) = 0
  begun : ∀ searching, task (0, id) = some (.search searching) → searching.id = id ∧ searching.Looks found cells
  ended : running.unstarted (0, id) = none → task (0, id) = none →
    Hash.LookedUp found (searches.searchIn id) id cells

/-- What the searches of a worker have put out on the device, in `cells`, and on the host, in `out`. -/
structure SearchFits (stage : Stage workers) (found table : Hash.Table g) (kernel : Option (RunningKernel workers g))
    (task : Nat × Nat → Option (Hash.Task g (Worker workers))) (cells out : Nat → Hash.Loc)
    (complete : StreamOp → Prop) : Prop where
  cleared : complete .clearSearchOut → ∀ position < 2 * searches.numSearchJob, leads (cells position)
  frozen : ¬complete .search → stage ≠ .search 0 → ∀ id < searches.numSearchJob, apart id →
    Hash.AgreeIn (Hash.hashRegion g (searches.searchIn id).hash) found table
  zeroed : complete .clearSearchOut → ¬complete .search → kernel = none →
    ∀ position < 2 * searches.numSearchJob, cells position = 0
  looksUp : ∀ running, kernel = some running → running.op = .search → ∀ id < searches.numSearchJob, apart id →
    LooksUp searches found running task cells id
  looked : complete .search → ∀ id < searches.numSearchJob, apart id →
    Hash.LookedUp found (searches.searchIn id) id cells
  arrived : complete .copySearchOut → Results searches leads apart found out

end Round

variable {searches : SearchJobs} {leads : Hash.Loc → Prop} {apart : Nat → Prop} {stage next : Stage workers}
  {found table after : Hash.Table g} {kernel : Option (RunningKernel workers g)} {running : RunningKernel workers g}
  {task more : Nat × Nat → Option (Hash.Task g (Worker workers))} {cells out : Nat → Hash.Loc}
  {complete : StreamOp → Prop} {op : StreamOp} {id : Nat}

theorem first_cell {num : Nat} (inside : id < num) : id <<< 1 < 2 * num := by
  rw [Nat.shiftLeft_eq]
  omega

theorem second_cell {num : Nat} (inside : id < num) : (id <<< 1) + 1 < 2 * num := by
  rw [Nat.shiftLeft_eq]
  omega

/-- The cells of different searches. -/
theorem cells_apart {other : Nat} (different : other ≠ id) :
    (other <<< 1 ≠ id <<< 1 ∧ other <<< 1 ≠ (id <<< 1) + 1) ∧
      (other <<< 1) + 1 ≠ id <<< 1 ∧ (other <<< 1) + 1 ≠ (id <<< 1) + 1 := by
  simp only [Nat.shiftLeft_eq]
  omega

section Results

theorem Results.mono {leadsMore : Hash.Loc → Prop} {fewer : Nat → Prop} (results : Results searches leads apart found out)
    (more : ∀ loc, leads loc → leadsMore loc) (less : ∀ id, fewer id → apart id) :
    Results searches leadsMore fewer found out :=
  ⟨fun position inside => more _ (results.leads position inside), fun id inside here => results.looked id inside (less id here)⟩

theorem Results.none (nothing : searches.numSearchJob = 0) : Results searches leads apart found out := by
  refine ⟨?_, ?_⟩
  · intro position inside
    rw [nothing] at inside
    cases inside
  · intro id inside
    rw [nothing] at inside
    cases inside

end Results

section Steps

theorem SearchFits.mono {leadsMore : Hash.Loc → Prop}
    (fits : SearchFits searches leads apart stage found table kernel task cells out complete)
    (holds : ∀ loc, leads loc → leadsMore loc) :
    SearchFits searches leadsMore apart stage found table kernel task cells out complete :=
  ⟨fun done position inside => holds _ (fits.cleared done position inside), fits.frozen, fits.zeroed, fits.looksUp,
    fits.looked, fun done => (fits.arrived done).mono holds fun _ here => here⟩

/-- Nothing of the round is over or runs. -/
theorem SearchFits.fresh (nothing : ∀ op, ¬complete op) (idle : kernel = none)
    (same : stage ≠ .search 0 → found = table) :
    SearchFits searches leads apart stage found table kernel task cells out complete := by
  subst idle
  refine ⟨fun done => absurd done (nothing _), ?_, fun done => absurd done (nothing _), by rintro running ⟨⟩,
    fun done => absurd done (nothing _), fun done => absurd done (nothing _)⟩
  intro _ begun id _ _
  rw [same begun]
  exact fun b _ => rfl

theorem SearchFits.goesOn (fits : SearchFits searches leads apart stage found table kernel task cells out complete)
    (begun : stage ≠ .search 0) : SearchFits searches leads apart next found table kernel task cells out complete :=
  ⟨fits.cleared, fun before _ => fits.frozen before begun, fits.zeroed, fits.looksUp, fits.looked, fits.arrived⟩

/-- A command that is none of the searches'. -/
theorem SearchFits.other (fits : SearchFits searches leads apart stage found table kernel task cells out complete)
    (clear : op ≠ .clearSearchOut) (search : op ≠ .search) (copy : op ≠ .copySearchOut) :
    SearchFits searches leads apart stage found table kernel task cells out fun other => complete other ∨ other = op := by
  refine ⟨?_, ?_, ?_, fits.looksUp, ?_, ?_⟩
  · exact fun done => fits.cleared (done.resolve_right (Ne.symm clear))
  · exact fun before => fits.frozen fun done => before (.inl done)
  · exact fun done before => fits.zeroed (done.resolve_right (Ne.symm clear)) fun done => before (.inl done)
  · exact fun done => fits.looked (done.resolve_right (Ne.symm search))
  · exact fun done => fits.arrived (done.resolve_right (Ne.symm copy))

theorem SearchFits.clear (fits : SearchFits searches leads apart stage found table none task cells out complete)
    (unsearched : ¬complete .search) (zero : leads 0) :
    SearchFits searches leads apart stage found table none task
      (fun position => if position < 2 * searches.numSearchJob then 0 else cells position) out
      fun other => complete other ∨ other = .clearSearchOut := by
  refine ⟨?_, ?_, ?_, by rintro running ⟨⟩, ?_, ?_⟩
  · intro _ position inside
    rw [if_pos inside]
    exact zero
  · exact fun before => fits.frozen fun done => before (.inl done)
  · exact fun _ _ _ position inside => if_pos inside
  · intro done
    rcases done with before | same
    · exact absurd before unsearched
    · cases same
  · exact fun done => fits.arrived (done.resolve_right (by decide))

theorem SearchFits.copy (fits : SearchFits searches leads apart stage found table kernel task cells out complete)
    (cleared : complete .clearSearchOut) (searched : complete .search) :
    SearchFits searches leads apart stage found table kernel task cells
      (copied (2 * searches.numSearchJob) cells out) fun other => complete other ∨ other = .copySearchOut := by
  refine ⟨fun _ => fits.cleared cleared, fun before => absurd (.inl searched) before,
    fun _ before => absurd (.inl searched) before, fits.looksUp, fun _ => fits.looked searched, fun _ => ⟨?_, ?_⟩⟩
  · intro position inside
    rw [copied_inside inside]
    exact fits.cleared cleared position inside
  · intro id inside here
    have first := first_cell inside
    have second := second_cell inside
    exact (fits.looked searched id inside here).congr (copied_inside first) (copied_inside second)

/-- The kernel of the searches begins. -/
theorem SearchFits.beginSearch {worker : Worker workers} {device : DeviceBuf} {schedule : Nat → Hash.Schedule g}
    {num : Nat → Nat} (fits : SearchFits searches leads apart stage found table none task cells out complete)
    (number : num 0 = searches.numSearchJob) (cleared : complete .clearSearchOut) (unsearched : ¬complete .search)
    (idle : ∀ place, task place = none) :
    SearchFits searches leads apart stage found table (some ⟨.search, device.works worker num schedule .search⟩) task
      cells out complete := by
  refine ⟨fits.cleared, fits.frozen, by rintro _ _ ⟨⟩, ?_, fits.looked, fits.arrived⟩
  rintro running ⟨⟩ _ id inside _
  have zeroed := fits.zeroed cleared unsearched rfl
  refine ⟨fun _ _ => ⟨zeroed _ (first_cell inside), zeroed _ (second_cell inside)⟩, ?_, ?_⟩
  · intro searching busy
    rw [idle] at busy
    cases busy
  · intro started
    have here : (0 : Nat) = 0 ∧ id < num 0 := ⟨rfl, number ▸ inside⟩
    have work : device.works worker num schedule .search (0, id) =
        some (.search (device.searchIn id) worker id (schedule id)) := if_pos here
    cases work.symm.trans started

/-- The index has changed, but not where a search is still to look. -/
theorem SearchFits.disturb (fits : SearchFits searches leads apart stage found table kernel task cells out complete)
    (kept : ¬complete .search → ∀ id < searches.numSearchJob, apart id →
      Hash.AgreeIn (Hash.hashRegion g (searches.searchIn id).hash) table after) :
    SearchFits searches leads apart stage found after kernel task cells out complete := by
  refine ⟨fits.cleared, ?_, fits.zeroed, fits.looksUp, fits.looked, fits.arrived⟩
  intro before begun id inside here b there
  exact (fits.frozen before begun id inside here b there).trans (kept before id inside here b there)

/-- A kernel behind the searches. -/
theorem SearchFits.behind {ran : Option (RunningKernel workers g)}
    (fits : SearchFits searches leads apart stage found table ran task cells out complete)
    (searched : 0 < searches.numSearchJob → complete .search)
    (another : ∀ running, kernel = some running → running.op ≠ .search) :
    SearchFits searches leads apart stage found after kernel more cells out complete := by
  have nothing : ¬complete .search → searches.numSearchJob = 0 := fun before =>
    Nat.eq_zero_of_not_pos fun some => before (searched some)
  refine ⟨fits.cleared, ?_, ?_, fun running same search => absurd search (another running same), fits.looked, fits.arrived⟩
  · intro before _ id inside
    rw [nothing before] at inside
    cases inside
  · intro _ before _ position inside
    rw [nothing before] at inside
    cases inside

theorem LooksUp.start {worker : Worker workers} {k : Nat} {elem : Hash.SElem} {schedule : Hash.Schedule g} (looksUp : LooksUp searches found running task cells id)
    (here : running.unstarted (0, k) = some (.search elem worker k schedule)) :
    LooksUp searches found { running with unstarted := Function.update running.unstarted (0, k) none }
      (Function.update task (0, k) (some (Hash.begin (.search elem worker k schedule)))) cells id := by
  by_cases same : id = k
  · subst same
    have zeroed := looksUp.unstarted _ here
    refine ⟨?_, ?_, ?_⟩
    · intro work left
      simp only [Function.update_self] at left
      cases left
    · intro searching busy
      simp only [Function.update_self] at busy
      cases busy
      exact ⟨rfl, zeroed⟩
    · intro _ free
      simp only [Function.update_self] at free
      cases free
  · have different : (0, id) ≠ (0, k) := fun equal => same (congrArg Prod.snd equal)
    refine ⟨?_, ?_, ?_⟩
    · simp only [Function.update_of_ne different]
      exact looksUp.unstarted
    · simp only [Function.update_of_ne different]
      exact looksUp.begun
    · simp only [Function.update_of_ne different]
      exact looksUp.ended

/-- Lanes take up a search. -/
theorem SearchFits.start {buf : JobBuf} {worker : Worker workers} {place : Nat × Nat}
    {work : Hash.Work g (Worker workers)}
    (fits : SearchFits searches leads apart stage found table (some running) task cells out complete)
    (search : running.op = .search) (taken : Takes searches buf worker .search place work)
    (here : running.unstarted place = some work) :
    SearchFits searches leads apart stage found table
      (some { running with unstarted := Function.update running.unstarted place none })
      (Function.update task place (some (Hash.begin work))) cells out complete := by
  cases work with
  | search elem out k schedule =>
    obtain ⟨rfl, _, _, rfl⟩ := taken
    refine ⟨fits.cleared, fits.frozen, by rintro _ _ ⟨⟩, ?_, fits.looked, fits.arrived⟩
    rintro next ⟨⟩ _ id inside apart
    exact (fits.looksUp running rfl search id inside apart).start here
  | _ => cases taken

theorem LooksUp.access {s : Hash.Searching g (Worker workers)} {device : Hash.Device g (Worker workers)}
    (looksUp : LooksUp searches found running task (device.out s.out) id) (busy : task (0, s.id) = some (.search s))
    (started : running.unstarted (0, s.id) = none) (elem : s.elem = searches.searchIn s.id)
    (agree : id = s.id → Hash.AgreeIn (Hash.hashRegion g s.elem.hash) found device.table) :
    LooksUp searches found running (Function.update task (0, s.id) ((s.access device).1.map .search))
      ((s.access device).2.out s.out) id := by
  by_cases same : id = s.id
  · subst same
    obtain ⟨goesOn, ends⟩ := Hash.searching_looks (agree rfl) (looksUp.begun s busy).2
    refine ⟨?_, ?_, ?_⟩
    · intro work left
      rw [started] at left
      cases left
    · intro searching rest
      rw [Function.update_self] at rest
      obtain ⟨_, after, same⟩ := Option.map_eq_some_iff.mp rest
      cases same
      exact ⟨(Hash.searching_kept after).2.2, goesOn searching after⟩
    · intro _ free
      rw [Function.update_self] at free
      rw [← elem]
      exact ends (Option.map_eq_none_iff.mp free)
  · have different : (0, id) ≠ (0, s.id) := fun equal => same (congrArg Prod.snd equal)
    obtain ⟨first, second⟩ := cells_apart same
    have kept : (s.access device).2.out s.out (id <<< 1) = device.out s.out (id <<< 1) :=
      Hash.searching_out_other (.inr first)
    have keptToo : (s.access device).2.out s.out ((id <<< 1) + 1) = device.out s.out ((id <<< 1) + 1) :=
      Hash.searching_out_other (.inr second)
    refine ⟨?_, ?_, ?_⟩
    · intro work left
      rw [kept, keptToo]
      exact looksUp.unstarted work left
    · intro searching rest
      rw [Function.update_of_ne different] at rest
      obtain ⟨rfl, looks⟩ := looksUp.begun searching rest
      exact ⟨rfl, looks.congr kept keptToo⟩
    · intro here free
      rw [Function.update_of_ne different] at free
      exact (looksUp.ended here free).congr kept keptToo

/-- The lanes of the search kernel make an access. -/
theorem SearchFits.access {s : Hash.Searching g (Worker workers)} {device : Hash.Device g (Worker workers)}
    (fits : SearchFits searches leads apart stage found device.table (some running) task (device.out s.out) out complete)
    (busy : task (0, s.id) = some (.search s)) (started : running.unstarted (0, s.id) = none)
    (elem : s.elem = searches.searchIn s.id) (unsearched : ¬complete .search) (begun : stage ≠ .search 0)
    (written : ∀ position, (s.access device).2.out s.out position = device.out s.out position ∨
      leads ((s.access device).2.out s.out position)) :
    SearchFits searches leads apart stage found (s.access device).2.table (some running)
      (Function.update task (0, s.id) ((s.access device).1.map .search)) ((s.access device).2.out s.out) out complete := by
  rw [Hash.searching_table]
  refine ⟨?_, fits.frozen, by rintro _ _ ⟨⟩, ?_, fun done => absurd done unsearched, fits.arrived⟩
  · intro done position inside
    rcases written position with same | new
    · rw [same]
      exact fits.cleared done position inside
    · exact new
  · rintro other same search id bound here
    cases same
    apply (fits.looksUp running rfl search id bound here).access busy started elem
    rintro rfl
    rw [elem]
    exact fits.frozen unsearched begun _ bound here

/-- The kernel of the searches ends. -/
theorem SearchFits.finish (fits : SearchFits searches leads apart stage found table (some running) task cells out complete)
    (search : running.op = .search) (started : ∀ place, running.unstarted place = none)
    (ended : ∀ place, task place = none) :
    SearchFits searches leads apart stage found table none task cells out
      fun other => complete other ∨ other = .search := by
  refine ⟨?_, ?_, ?_, by rintro _ ⟨⟩, ?_, ?_⟩
  · exact fun done => fits.cleared (done.resolve_right (by decide))
  · exact fun before => absurd (.inr rfl) before
  · exact fun _ before => absurd (.inr rfl) before
  · intro _ id inside here
    exact (fits.looksUp running rfl search id inside here).ended (started (0, id)) (ended (0, id))
  · exact fun done => fits.arrived (done.resolve_right (by decide))

end Steps

end MegaKV.Store
