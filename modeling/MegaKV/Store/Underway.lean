import MegaKV.Hash.Lookup
import MegaKV.Store.Commands

namespace MegaKV.Store

open Library Slab Scheduler

variable {workers : Nat} {g : Hash.Geometry}

section Round

def jobHash : Job → Hash.HashWord
  | .delete job => job.elem.hash
  | .insert job => job.elem.hash

variable (searches : SearchJobs) (buf : JobBuf) (worker : Worker workers)

def Loaded (device : DeviceBuf) : StreamOp → Prop
  | .copySearchIn => ∀ k < searches.numSearchJob, device.searchIn k = searches.searchIn k
  | .copyDeleteIn => ∀ k < buf.numDeleteJob, device.deleteIn k = (buf.deleteIn k).elem
  | .copyInsertIn block =>
    ∀ k < (buf.insertBuf block).numInsertJob, device.insertIn block k = ((buf.insertBuf block).insertIn k).elem
  | .copyInsertNum => ∀ block, device.insertJobNum block = (buf.insertBuf block).numInsertJob
  | _ => True

def Takes : StreamOp → Nat × Nat → Hash.Work g (Worker workers) → Prop
  | .search, place, .search elem out id _ =>
    place = (0, id) ∧ id < searches.numSearchJob ∧ elem = searches.searchIn id ∧ out = worker
  | .delete, _, .delete elem => ∃ old, .delete old ∈ buf.content ∧ old.elem = elem
  | .insert, _, .insert elem => ∃ new, .insert new ∈ buf.content ∧ new.elem = elem
  | _, _, _ => False

/-- The lanes work on an element of the kernel, in its region. -/
def Tends : StreamOp → Nat × Nat → Hash.Task g (Worker workers) → Prop
  | .search, place, .search searching =>
    place = (0, searching.id) ∧ searching.id < searches.numSearchJob ∧
      searching.elem = searches.searchIn searching.id ∧ searching.out = worker
  | .delete, _, .delete deletion => ∃ old, .delete old ∈ buf.content ∧ old.elem = deletion.elem
  | .insert, _, .insert insertion =>
    (∃ new, .insert new ∈ buf.content ∧ new.elem = insertion.elem) ∧
      insertion.WorksIn (Hash.hashRegion g insertion.elem.hash)
  | _, _, _ => False

structure KernelFits (device : DeviceBuf) (kernel : Option (RunningKernel workers g))
    (task : Nat × Nat → Option (Hash.Task g (Worker workers))) (complete : StreamOp → Prop) : Prop where
  loaded : ∀ op, complete op → Loaded searches buf device op
  takes : ∀ running, kernel = some running → ∀ place work, running.unstarted place = some work →
    Takes searches buf worker running.op place work ∧ task place = none
  tends : ∀ place found, task place = some found →
    ∃ running, kernel = some running ∧ Tends searches buf worker running.op place found

end Round

section Kernel

variable {searches : SearchJobs} {buf : JobBuf} {worker : Worker workers} {device : DeviceBuf}
  {kernel : Option (RunningKernel workers g)} {task : Nat × Nat → Option (Hash.Task g (Worker workers))}
  {complete : StreamOp → Prop} {counts : Counts} {op : StreamOp}

theorem KernelFits.enter (searches : SearchJobs) (buf : JobBuf) (worker : Worker workers) (device : DeviceBuf) :
    KernelFits searches buf worker device (none : Option (RunningKernel workers g)) (fun _ => none) fun _ => False :=
  ⟨by rintro op ⟨⟩, by rintro running ⟨⟩, by rintro place found ⟨⟩⟩

theorem copied_inside {Elem : Type} {num : Nat} {source target : Nat → Elem} {k : Nat} (inside : k < num) :
    copied num source target k = source k := if_pos inside

theorem copy_loaded (searches : SearchJobs) (buf : JobBuf) (device : DeviceBuf) (op : StreamOp) :
    Loaded searches buf (device.copy searches buf (callCounts (countsOf searches buf) op) op) op := by
  cases op with
  | copySearchIn => exact fun k inside => copied_inside inside
  | copyDeleteIn => exact fun k inside => @copied_inside _ buf.numDeleteJob (fun k => (buf.deleteIn k).elem) _ k inside
  | copyInsertIn block =>
    intro k inside
    simp only [DeviceBuf.copy, Function.update_self]
    exact @copied_inside _ (buf.insertBuf block).numInsertJob _ _ k inside
  | copyInsertNum => exact fun block => rfl
  | _ => trivial

/-- A copy leaves what the others have copied. -/
theorem Loaded.copy {other : StreamOp} (loaded : Loaded searches buf device other) (different : other ≠ op)
    (num : Nat → Nat) : Loaded searches buf (device.copy searches buf num op) other := by
  cases op with
  | copySearchIn =>
    cases other with
    | copySearchIn => exact absurd rfl different
    | _ => exact loaded
  | copyDeleteIn =>
    cases other with
    | copyDeleteIn => exact absurd rfl different
    | _ => exact loaded
  | copyInsertIn block =>
    cases other with
    | copyInsertIn changed =>
      intro k inside
      have apart : changed ≠ block := fun same => different (congrArg StreamOp.copyInsertIn same)
      simp only [DeviceBuf.copy, Function.update_of_ne apart]
      exact loaded k inside
    | _ => exact loaded
  | copyInsertNum =>
    cases other with
    | copyInsertNum => exact absurd rfl different
    | _ => exact loaded
  | _ => exact loaded

theorem KernelFits.idle (fits : KernelFits searches buf worker device kernel task complete) (free : kernel = none)
    (place : Nat × Nat) : task place = none := by
  cases busy : task place with
  | none => rfl
  | some found =>
    obtain ⟨running, here, _⟩ := fits.tends place found busy
    rw [free] at here
    cases here

/-- A command other than a kernel. -/
theorem KernelFits.copy (fits : KernelFits searches buf worker device (none : Option (RunningKernel workers g)) task complete)
    (op : StreamOp) :
    KernelFits searches buf worker (device.copy searches buf (callCounts (countsOf searches buf) op) op)
      (none : Option (RunningKernel workers g)) task fun other => complete other ∨ other = op := by
  refine ⟨?_, by rintro running ⟨⟩, ?_⟩
  · intro other done
    by_cases here : other = op
    · subst here
      exact copy_loaded searches buf device other
    · exact (fits.loaded other (done.resolve_right here)).copy here _
  · intro place found busy
    obtain ⟨running, none, _⟩ := fits.tends place found busy
    cases none

theorem delete_mem {k : Nat} (inside : k < buf.numDeleteJob) : .delete (buf.deleteIn k) ∈ buf.content :=
  List.mem_append_left _ (List.mem_map.mpr ⟨k, List.mem_range.mpr inside, rfl⟩)

theorem insert_mem {block k : Nat} (valid : block < numInsertBuf) (inside : k < (buf.insertBuf block).numInsertJob) :
    .insert ((buf.insertBuf block).insertIn k) ∈ buf.content := by
  apply List.mem_append_right
  apply List.mem_flatMap.mpr
  exact ⟨block, List.mem_range.mpr valid, List.mem_map.mpr ⟨k, List.mem_range.mpr inside, rfl⟩⟩

/-- A kernel begins with what the copies before it have brought. -/
theorem works_taken (loaded : ∀ other, needs (countsOf searches buf) op other → Loaded searches buf device other)
    (schedule : Nat → Hash.Schedule g) {place : Nat × Nat} {work : Hash.Work g (Worker workers)}
    (here : device.works worker (callCounts (countsOf searches buf) op) schedule op place = some work) :
    Takes searches buf worker op place work := by
  obtain ⟨block, k⟩ := place
  cases op with
  | search =>
    simp only [DeviceBuf.works] at here
    split at here
    · rename_i valid
      obtain ⟨rfl, inside⟩ := valid
      cases here
      exact ⟨rfl, inside, loaded .copySearchIn trivial k inside, rfl⟩
    · cases here
  | delete =>
    simp only [DeviceBuf.works] at here
    split at here
    · rename_i valid
      cases here
      exact ⟨buf.deleteIn k, delete_mem valid.2, (loaded .copyDeleteIn trivial k valid.2).symm⟩
    · cases here
  | insert =>
    simp only [DeviceBuf.works] at here
    split at here
    · rename_i valid
      cases here
      have number := loaded .copyInsertNum trivial block
      have inside : k < (buf.insertBuf block).numInsertJob := number ▸ valid.2
      have some : 0 < (buf.insertBuf block).numInsertJob := Nat.zero_lt_of_lt inside
      have copied := loaded (.copyInsertIn block) ⟨valid.1, some⟩ k inside
      exact ⟨(buf.insertBuf block).insertIn k, insert_mem valid.1 inside, copied.symm⟩
    · cases here
  | _ => cases here

theorem KernelFits.begin
    (fits : KernelFits searches buf worker device (none : Option (RunningKernel workers g)) task complete)
    (ready : ∀ other, needs (countsOf searches buf) op other → complete other) (schedule : Nat → Hash.Schedule g) :
    KernelFits searches buf worker device
      (some ⟨op, device.works worker (callCounts (countsOf searches buf) op) schedule op⟩) task complete := by
  have idle := fits.idle rfl
  refine ⟨fits.loaded, ?_, ?_⟩
  · rintro running ⟨⟩ place work here
    exact ⟨works_taken (fun other need => fits.loaded other (ready other need)) schedule here, idle place⟩
  · intro place found busy
    rw [idle place] at busy
    cases busy

theorem Takes.begin {place : Nat × Nat} {work : Hash.Work g (Worker workers)}
    (takes : Takes searches buf worker op place work) : Tends searches buf worker op place (Hash.begin work) := by
  cases op with
  | search =>
    cases work with
    | search elem out id schedule => exact takes
    | _ => cases takes
  | delete =>
    cases work with
    | delete elem => exact takes
    | _ => cases takes
  | insert =>
    cases work with
    | insert elem =>
      refine ⟨takes, rfl, ?_⟩
      rintro b chosenSimd found ⟨⟩
    | _ => cases takes
  | _ => cases takes

theorem KernelFits.start {running : RunningKernel workers g} {place : Nat × Nat} {work : Hash.Work g (Worker workers)}
    (fits : KernelFits searches buf worker device (some running) task complete)
    (here : running.unstarted place = some work) :
    KernelFits searches buf worker device
      (some { running with unstarted := Function.update running.unstarted place none })
      (Function.update task place (some (Hash.begin work))) complete := by
  obtain ⟨taken, _⟩ := fits.takes running rfl place work here
  refine ⟨fits.loaded, ?_, ?_⟩
  · rintro after ⟨⟩ other next left
    have different : other ≠ place := by
      rintro rfl
      simp only [Function.update_self] at left
      cases left
    simp only [Function.update_of_ne different] at left ⊢
    exact fits.takes running rfl other next left
  · intro other found busy
    refine ⟨_, rfl, ?_⟩
    by_cases same : other = place
    · subst same
      rw [Function.update_self] at busy
      cases busy
      exact taken.begin
    · rw [Function.update_of_ne same] at busy
      obtain ⟨_, ⟨⟩, tends⟩ := fits.tends other found busy
      exact tends

theorem Tends.access {place : Nat × Nat} {found next : Hash.Task g (Worker workers)}
    {store : Hash.Device g (Worker workers)} (tends : Tends searches buf worker op place found)
    (rest : (Hash.access found store).1 = some next) : Tends searches buf worker op place next := by
  cases op with
  | search =>
    cases found with
    | search searching =>
      obtain ⟨left, after, rfl⟩ := Option.map_eq_some_iff.mp rest
      obtain ⟨elem, out, id⟩ := Hash.searching_kept after
      rw [Tends, elem, out, id]
      exact tends
    | _ => cases tends
  | delete =>
    cases found with
    | delete deletion =>
      obtain ⟨left, after, rfl⟩ := Option.map_eq_some_iff.mp rest
      rw [Tends, Hash.deletion_elem after]
      exact tends
    | _ => cases tends
  | insert =>
    cases found with
    | insert insertion =>
      obtain ⟨left, after, rfl⟩ := Option.map_eq_some_iff.mp rest
      rw [Tends, Hash.insertion_elem after]
      exact ⟨tends.1, tends.2.stays after⟩
    | _ => cases tends
  | _ => cases tends

/-- The lanes change the index in the regions of the worker's jobs only. -/
theorem Tends.away {place : Nat × Nat} {found : Hash.Task g (Worker workers)} {store : Hash.Device g (Worker workers)}
    (tends : Tends searches buf worker op place found) {number : Nat}
    (apart : ∀ job ∈ buf.content, Hash.hashRegion g (jobHash job) ≠ number) :
    Hash.AgreeIn number store.table (Hash.access found store).2.table := by
  cases op with
  | search =>
    cases found with
    | search searching =>
      change Hash.AgreeIn number store.table (searching.access store).2.table
      rw [Hash.searching_table]
      exact fun b _ => rfl
    | _ => cases tends
  | delete =>
    cases found with
    | delete deletion =>
      obtain ⟨old, member, same⟩ := tends
      have outside : Hash.hashRegion g deletion.elem.hash ≠ number := same ▸ apart _ member
      exact fun b here => (Hash.deletion_away outside (fun _ _ => rfl) b here).symm
    | _ => cases tends
  | insert =>
    cases found with
    | insert insertion =>
      obtain ⟨⟨new, member, same⟩, works⟩ := tends
      have outside : Hash.hashRegion g insertion.elem.hash ≠ number := same ▸ apart _ member
      exact fun b here => (works.away outside (fun _ _ => rfl) b here).symm
    | _ => cases tends
  | _ => cases tends

/-- They write no results but those of the worker's searches. -/
theorem Tends.out {place : Nat × Nat} {found : Hash.Task g (Worker workers)} {store : Hash.Device g (Worker workers)}
    (tends : Tends searches buf worker op place found) {other : Worker workers}
    (another : op ≠ .search ∨ other ≠ worker) : (Hash.access found store).2.out other = store.out other := by
  cases op with
  | search =>
    cases found with
    | search searching =>
      obtain ⟨_, _, _, rfl⟩ := tends
      have different := another.resolve_left fun search => search rfl
      funext position
      exact Hash.searching_out_other (.inl different)
    | _ => cases tends
  | delete =>
    cases found with
    | delete deletion => rfl
    | _ => cases tends
  | insert =>
    cases found with
    | insert insertion => rfl
    | _ => cases tends
  | _ => cases tends

theorem KernelFits.access {place : Nat × Nat} {found : Hash.Task g (Worker workers)}
    {store : Hash.Device g (Worker workers)} (fits : KernelFits searches buf worker device kernel task complete)
    (busy : task place = some found) :
    KernelFits searches buf worker device kernel (Function.update task place (Hash.access found store).1) complete := by
  refine ⟨fits.loaded, ?_, ?_⟩
  · intro running same other work left
    obtain ⟨takes, free⟩ := fits.takes running same other work left
    have different : other ≠ place := by
      rintro rfl
      rw [free] at busy
      cases busy
    exact ⟨takes, (Function.update_of_ne different _ _).trans free⟩
  · intro other next after
    by_cases same : other = place
    · subst same
      rw [Function.update_self] at after
      obtain ⟨running, kernel, tends⟩ := fits.tends other found busy
      exact ⟨running, kernel, tends.access after⟩
    · rw [Function.update_of_ne same] at after
      exact fits.tends other next after

theorem KernelFits.finish (fits : KernelFits searches buf worker device kernel task complete) (kernelOp : IsKernel op)
    (ended : ∀ place, task place = none) :
    KernelFits searches buf worker device (none : Option (RunningKernel workers g)) task
      fun other => complete other ∨ other = op := by
  refine ⟨?_, by rintro running ⟨⟩, ?_⟩
  · intro other done
    rcases done with before | rfl
    · exact fits.loaded other before
    · cases other <;> trivial
  · intro place found busy
    rw [ended place] at busy
    cases busy

end Kernel

end MegaKV.Store
