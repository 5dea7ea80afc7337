import MegaKV.Store.Rounds

namespace MegaKV.Store

open Library Slab Scheduler

variable {workers : Nat} {g : Hash.Geometry} {buf : JobBuf}

section Places

/-- What lanes do to the index, if they do not search it. -/
def workOp : Hash.Work g (Worker workers) → Option Hash.Op
  | .insert elem => some (.cuckoo elem)
  | .delete elem => some (.delete elem)
  | _ => none

def jobOp : Job → Hash.Op
  | .delete job => .delete job.elem
  | .insert job => .cuckoo job.elem

def kernelOp : KernelKind → StreamOp
  | .delete => .delete
  | .insert => .insert

def jobsOf (buf : JobBuf) : KernelKind → List Job
  | .delete => buf.deletes
  | .insert => buf.inserts

def places (buf : JobBuf) : KernelKind → List (Nat × Nat)
  | .delete => (List.range buf.numDeleteJob).map (Prod.mk 0)
  | .insert =>
    (List.range numInsertBuf).flatMap fun block =>
      (List.range (buf.insertBuf block).numInsertJob).map (Prod.mk block)

def jobAt (buf : JobBuf) : KernelKind → Nat × Nat → Job
  | .delete, (_, k) => .delete (buf.deleteIn k)
  | .insert, (block, k) => .insert ((buf.insertBuf block).insertIn k)

theorem kernelOp_injective : Function.Injective kernelOp := by
  intro kind other same
  cases kind <;> cases other <;> first | rfl | cases same

theorem places_jobs (buf : JobBuf) (kind : KernelKind) : (places buf kind).map (jobAt buf kind) = jobsOf buf kind := by
  cases kind with
  | delete =>
    rw [places, List.map_map]
    rfl
  | insert =>
    rw [places, List.map_flatMap]
    simp only [List.map_map]
    rfl

theorem mem_places_delete {place : Nat × Nat} :
    place ∈ places buf .delete ↔ place.1 = 0 ∧ place.2 < buf.numDeleteJob := by
  obtain ⟨block, k⟩ := place
  simp only [places, List.mem_map, List.mem_range, Prod.mk.injEq]
  exact ⟨fun ⟨_, inside, first, second⟩ => ⟨first.symm, second ▸ inside⟩, fun ⟨first, inside⟩ => ⟨k, inside, first.symm, rfl⟩⟩

theorem mem_places_insert {place : Nat × Nat} :
    place ∈ places buf .insert ↔ place.1 < numInsertBuf ∧ place.2 < (buf.insertBuf place.1).numInsertJob := by
  obtain ⟨block, k⟩ := place
  simp only [places, List.mem_flatMap, List.mem_map, List.mem_range, Prod.mk.injEq]
  refine ⟨?_, fun ⟨valid, inside⟩ => ⟨block, valid, k, inside, rfl, rfl⟩⟩
  rintro ⟨_, valid, _, inside, rfl, rfl⟩
  exact ⟨valid, inside⟩

theorem places_nodup (buf : JobBuf) (kind : KernelKind) : (places buf kind).Nodup := by
  have row : ∀ block num : Nat, ((List.range num).map (Prod.mk block)).Nodup :=
    fun block num => List.nodup_range.map (Prod.mk_right_injective block)
  cases kind with
  | delete => exact row 0 _
  | insert =>
    apply List.nodup_flatMap.mpr ⟨fun block _ => row block _, ?_⟩
    apply List.nodup_range.imp
    intro block other different place member also
    obtain ⟨_, _, rfl⟩ := List.mem_map.mp member
    obtain ⟨_, _, same⟩ := List.mem_map.mp also
    exact different (congrArg Prod.fst same).symm

/-- The elements that a kernel has still to begin with are the buffer's, each at its place. -/
def Exact (buf : JobBuf) (kind : KernelKind) (unstarted : Nat × Nat → Option (Hash.Work g (Worker workers))) : Prop :=
  ∀ place work, unstarted place = some work →
    place ∈ places buf kind ∧ workOp work = some (jobOp (jobAt buf kind place))

variable {searches : SearchJobs} {worker : Worker workers} {device : DeviceBuf} {kind : KernelKind}

/-- A kernel begins with all jobs of its kind. -/
theorem works_exact
    (loaded : ∀ other, needs (countsOf searches buf) (kernelOp kind) other → Loaded searches buf device other)
    (schedule : Nat → Hash.Schedule g) :
    let works := device.works worker (callCounts (countsOf searches buf) (kernelOp kind)) schedule (kernelOp kind)
    Exact buf kind works ∧ ∀ place ∈ places buf kind, (works place).isSome := by
  dsimp only
  cases kind with
  | delete =>
    have op : kernelOp .delete = .delete := rfl
    rw [op] at loaded ⊢
    refine ⟨?_, ?_⟩
    · rintro ⟨block, k⟩ work here
      simp only [DeviceBuf.works] at here
      split at here
      · rename_i valid
        cases here
        have copied := loaded .copyDeleteIn trivial k valid.2
        refine ⟨mem_places_delete.mpr valid, ?_⟩
        rw [workOp, copied]
        rfl
      · cases here
    · rintro ⟨block, k⟩ member
      have valid : block = 0 ∧ k < buf.numDeleteJob := mem_places_delete.mp member
      simp only [DeviceBuf.works]
      rw [if_pos]
      · rfl
      · exact valid
  | insert =>
    have op : kernelOp .insert = .insert := rfl
    rw [op] at loaded ⊢
    have number := loaded .copyInsertNum trivial
    refine ⟨?_, ?_⟩
    · rintro ⟨block, k⟩ work here
      simp only [DeviceBuf.works] at here
      split at here
      · rename_i valid
        cases here
        have inside : k < (buf.insertBuf block).numInsertJob := number block ▸ valid.2
        have copied := loaded (.copyInsertIn block) ⟨valid.1, Nat.zero_lt_of_lt inside⟩ k inside
        refine ⟨mem_places_insert.mpr ⟨valid.1, inside⟩, ?_⟩
        rw [workOp, copied]
        rfl
      · cases here
    · rintro ⟨block, k⟩ member
      obtain ⟨valid, inside⟩ := mem_places_insert.mp member
      simp only [DeviceBuf.works]
      rw [if_pos ⟨valid, (number block).symm ▸ inside⟩]
      rfl

end Places

section Left

/-- The launch for the worker's jobs of that kind has not been made. -/
def Unlaunched (worker : Worker workers) : KernelKind → Stage workers → Prop
  | _, .search _ => True
  | _, .decide => True
  | .delete, .delete current => current ≤ worker
  | .insert, .delete _ => True
  | .insert, .insert current => current ≤ worker
  | _, _ => False

/-- The jobs of a kind that no lanes have begun yet. -/
inductive Left (buf : JobBuf) (worker : Worker workers) (stage : Stage workers) (ops : List StreamOp)
    (kernel : Option (RunningKernel workers g)) (kind : KernelKind) : List Job → Prop where
  | unlaunched (early : Unlaunched worker kind stage) (absent : ops.count (kernelOp kind) = 0) :
      Left buf worker stage ops kernel kind (jobsOf buf kind)
  | waiting (late : ¬Unlaunched worker kind stage) (once : ops.count (kernelOp kind) = 1)
      (idle : ∀ running, kernel = some running → running.op ≠ kernelOp kind) :
      Left buf worker stage ops kernel kind (jobsOf buf kind)
  | running (late : ¬Unlaunched worker kind stage) (once : ops.count (kernelOp kind) = 1)
      (running : RunningKernel workers g) (here : kernel = some running) (op : running.op = kernelOp kind)
      (exact : Exact buf kind running.unstarted) :
      Left buf worker stage ops kernel kind
        (((places buf kind).filter fun place => (running.unstarted place).isSome).map (jobAt buf kind))
  | finished (late : ¬Unlaunched worker kind stage) (absent : ops.count (kernelOp kind) = 0) :
      Left buf worker stage ops kernel kind []

variable {worker : Worker workers} {stage next : Stage workers} {ops more rest : List StreamOp}
  {kernel after : Option (RunningKernel workers g)} {kind : KernelKind} {jobs : List Job}

/-- What does not concern the kernels of that kind. -/
theorem Left.stays (left : Left buf worker stage ops kernel kind jobs)
    (launched : Unlaunched worker kind next ↔ Unlaunched worker kind stage)
    (waits : more.count (kernelOp kind) = ops.count (kernelOp kind))
    (runs : ∀ running : RunningKernel workers g, running.op = kernelOp kind → (after = some running ↔ kernel = some running)) :
    Left buf worker next more after kind jobs := by
  cases left with
  | unlaunched early absent => exact .unlaunched (launched.mpr early) (waits.trans absent)
  | waiting late once idle =>
    refine .waiting (mt launched.mp late) (waits.trans once) ?_
    intro running here op
    exact idle running ((runs running op).mp here) op
  | running late once running here op exact =>
    exact .running (mt launched.mp late) (waits.trans once) running ((runs running op).mpr here) op exact
  | finished late absent => exact .finished (mt launched.mp late) (waits.trans absent)

/-- The launch is made, unless there are no jobs. -/
theorem Left.launch (left : Left buf worker stage ops kernel kind jobs) (early : Unlaunched worker kind stage)
    (late : ¬Unlaunched worker kind next) (idle : ∀ running, kernel = some running → running.op ∈ ops)
    (launches : more.count (kernelOp kind) = if jobsOf buf kind = [] then 0 else 1) :
    Left buf worker next (ops ++ more) kernel kind jobs := by
  cases left with
  | unlaunched _ absent =>
    have count : (ops ++ more).count (kernelOp kind) = if jobsOf buf kind = [] then 0 else 1 := by
      rw [List.count_append, absent, Nat.zero_add, launches]
    split at count
    · rename_i none
      rw [none]
      exact .finished late count
    · refine .waiting late count ?_
      intro running here op
      exact absurd (op ▸ idle running here) (List.count_eq_zero.mp absent)
  | waiting before => exact absurd early before
  | running before => exact absurd early before
  | finished before => exact absurd early before

/-- The kernel begins. -/
theorem Left.begin {unstarted : Nat × Nat → Option (Hash.Work g (Worker workers))}
    (left : Left buf worker stage (kernelOp kind :: rest) (none : Option (RunningKernel workers g)) kind jobs)
    (exact : Exact buf kind unstarted) (all : ∀ place ∈ places buf kind, (unstarted place).isSome) :
    Left buf worker stage (kernelOp kind :: rest) (some ⟨kernelOp kind, unstarted⟩) kind jobs := by
  cases left with
  | unlaunched early absent =>
    rw [List.count_cons_self] at absent
    cases absent
  | running late once running here op exact => cases here
  | waiting late once idle =>
    have begun : Left buf worker stage (kernelOp kind :: rest) (some ⟨kernelOp kind, unstarted⟩) kind _ :=
      .running late once _ rfl rfl exact
    rw [List.filter_eq_self.mpr all, places_jobs] at begun
    exact begun
  | finished late absent =>
    rw [List.count_cons_self] at absent
    cases absent

/-- Lanes take up one of the elements. -/
theorem Left.start {running : RunningKernel workers g} {place : Nat × Nat} {work : Hash.Work g (Worker workers)}
    (left : Left buf worker stage ops (some running) kind jobs) (op : running.op = kernelOp kind)
    (busy : running.op ∈ ops) (here : running.unstarted place = some work) :
    ∃ job others, workOp work = some (jobOp job) ∧ jobs.Perm (job :: others) ∧
      Left buf worker stage ops
        (some { running with unstarted := Function.update running.unstarted place none }) kind others := by
  cases left with
  | unlaunched early absent => exact absurd (op ▸ busy) (List.count_eq_zero.mp absent)
  | waiting late once idle => exact absurd op (idle running rfl)
  | running late once other same _ exact =>
    cases same
    obtain ⟨member, begun⟩ := exact place work here
    refine ⟨jobAt buf kind place, _, begun, ?_, .running late once _ rfl op ?_⟩
    · exact (filter_perm_of_taken (places_nodup buf kind) member (by rw [here]; rfl)).map (jobAt buf kind)
    · intro other next left
      by_cases same : other = place
      · subst same
        simp only [Function.update_self] at left
        cases left
      · simp only [Function.update_of_ne same] at left
        exact exact other next left
  | finished late absent => exact absurd (op ▸ busy) (List.count_eq_zero.mp absent)

/-- The kernel is over when lanes have begun with all of its elements. -/
theorem Left.finish {running : RunningKernel workers g}
    (left : Left buf worker stage (kernelOp kind :: rest) (some running) kind jobs) (op : running.op = kernelOp kind)
    (started : ∀ place, running.unstarted place = none) :
    jobs = [] ∧ Left buf worker stage rest (none : Option (RunningKernel workers g)) kind [] := by
  cases left with
  | unlaunched early absent =>
    rw [List.count_cons_self] at absent
    cases absent
  | waiting late once idle => exact absurd op (idle running rfl)
  | running late once other same _ exact =>
    cases same
    refine ⟨?_, .finished late ?_⟩
    · simp [started]
    · rw [List.count_cons_self] at once
      exact Nat.succ.inj once
  | finished late absent =>
    rw [List.count_cons_self] at absent
    cases absent

end Left

section Worker

/-- The jobs that lanes have begun and those that they have not are those of the buffer. -/
def Tally (buf : JobBuf) (worker : Worker workers) (stage : Stage workers) (ops : List StreamOp)
    (kernel : Option (RunningKernel workers g)) (begun : List Hash.Op) : Prop :=
  ∃ left : KernelKind → List Job, (∀ kind, Left buf worker stage ops kernel kind (left kind)) ∧
    (begun ++ (left .delete ++ left .insert).map jobOp).Perm (buf.content.map jobOp)

variable {worker : Worker workers} {stage next : Stage workers} {ops more rest : List StreamOp} {op : StreamOp}
  {kernel after : Option (RunningKernel workers g)} {running : RunningKernel workers g} {begun : List Hash.Op}

theorem Tally.enter (buf : JobBuf) (worker : Worker workers) :
    Tally buf worker (.search 0) [] (none : Option (RunningKernel workers g)) [] := by
  refine ⟨jobsOf buf, fun kind => ?_, List.Perm.refl _⟩
  cases kind with
  | delete => exact .unlaunched trivial rfl
  | insert => exact .unlaunched trivial rfl

theorem Tally.stays (tally : Tally buf worker stage ops kernel begun)
    (launched : ∀ kind, Unlaunched worker kind next ↔ Unlaunched worker kind stage)
    (waits : ∀ kind, more.count (kernelOp kind) = ops.count (kernelOp kind))
    (runs : ∀ kind (running : RunningKernel workers g), running.op = kernelOp kind →
      (after = some running ↔ kernel = some running)) : Tally buf worker next more after begun := by
  obtain ⟨left, lefts, sum⟩ := tally
  exact ⟨left, fun kind => (lefts kind).stays (launched kind) (waits kind) (runs kind), sum⟩

/-- The scheduler makes the launch for the jobs of one kind. -/
theorem Tally.launch {kind : KernelKind} (tally : Tally buf worker stage ops kernel begun)
    (early : Unlaunched worker kind stage) (late : ¬Unlaunched worker kind next)
    (idle : ∀ running, kernel = some running → running.op ∈ ops)
    (launches : more.count (kernelOp kind) = if jobsOf buf kind = [] then 0 else 1)
    (others : ∀ other, other ≠ kind →
      (Unlaunched worker other next ↔ Unlaunched worker other stage) ∧ more.count (kernelOp other) = 0) :
    Tally buf worker next (ops ++ more) kernel begun := by
  obtain ⟨left, lefts, sum⟩ := tally
  refine ⟨left, fun other => ?_, sum⟩
  by_cases here : other = kind
  · subst here
    exact (lefts other).launch early late idle launches
  · obtain ⟨same, nothing⟩ := others other here
    apply (lefts other).stays same _ fun _ _ => Iff.rfl
    rw [List.count_append, nothing, Nat.add_zero]

/-- A command that is no kernel is executed. -/
theorem Tally.pop (tally : Tally buf worker stage (op :: rest) kernel begun) (transfers : ¬IsKernel op) :
    Tally buf worker stage rest kernel begun := by
  apply tally.stays (fun _ => Iff.rfl) _ fun _ _ _ => Iff.rfl
  intro kind
  have another : op ≠ kernelOp kind := by
    rintro rfl
    cases kind <;> exact transfers trivial
  rw [List.count_cons_of_ne another]

theorem kernel_cases (kernelOf : IsKernel op) : op = .search ∨ ∃ kind, op = kernelOp kind := by
  cases op with
  | search => exact .inl rfl
  | delete => exact .inr ⟨.delete, rfl⟩
  | insert => exact .inr ⟨.insert, rfl⟩
  | _ => cases kernelOf

theorem search_ne_kernelOp (kind : KernelKind) : StreamOp.search ≠ kernelOp kind := by
  cases kind <;> exact StreamOp.noConfusion

theorem Tally.begin {searches : SearchJobs} {device : DeviceBuf}
    (tally : Tally buf worker stage (op :: rest) (none : Option (RunningKernel workers g)) begun) (works : IsKernel op)
    (loaded : ∀ other, needs (countsOf searches buf) op other → Loaded searches buf device other)
    (schedule : Nat → Hash.Schedule g) :
    Tally buf worker stage (op :: rest)
      (some ⟨op, device.works worker (callCounts (countsOf searches buf) op) schedule op⟩) begun := by
  obtain ⟨left, lefts, sum⟩ := tally
  have others : ∀ kind, op ≠ kernelOp kind → Left buf worker stage (op :: rest)
      (some ⟨op, device.works worker (callCounts (countsOf searches buf) op) schedule op⟩) kind (left kind) := by
    intro kind different
    apply (lefts kind).stays Iff.rfl rfl
    intro running same
    refine ⟨?_, by rintro ⟨⟩⟩
    rintro ⟨⟩
    exact absurd same different
  refine ⟨left, fun kind => ?_, sum⟩
  by_cases here : op = kernelOp kind
  · subst here
    obtain ⟨exact, all⟩ := @works_exact workers g buf searches worker device kind loaded schedule
    exact (lefts kind).begin exact all
  · exact others kind here

/-- Lanes take up an element of the running kernel. -/
theorem Tally.start {searches : SearchJobs} {place : Nat × Nat} {work : Hash.Work g (Worker workers)}
    (tally : Tally buf worker stage ops (some running) begun) (works : IsKernel running.op) (busy : running.op ∈ ops)
    (here : running.unstarted place = some work) (takes : Takes searches buf worker running.op place work) :
    Tally buf worker stage ops (some { running with unstarted := Function.update running.unstarted place none })
      (begun ++ (workOp work).toList) := by
  obtain ⟨left, lefts, sum⟩ := tally
  have others : ∀ kind, running.op ≠ kernelOp kind → Left buf worker stage ops
      (some { running with unstarted := Function.update running.unstarted place none }) kind (left kind) := by
    intro kind different
    apply (lefts kind).stays Iff.rfl rfl
    intro other same
    refine ⟨?_, ?_⟩
    · rintro ⟨⟩
      exact absurd same different
    · rintro ⟨⟩
      exact absurd same different
  rcases kernel_cases works with search | ⟨kind, op⟩
  · have nothing : workOp work = none := by
      rw [search] at takes
      cases work with
      | search elem out id schedule => rfl
      | _ => cases takes
    rw [nothing, Option.toList_none, List.append_nil]
    exact ⟨left, fun kind => others kind (search ▸ search_ne_kernelOp kind), sum⟩
  · obtain ⟨job, remaining, same, taken, after⟩ := (lefts kind).start op busy here
    refine ⟨Function.update left kind remaining, fun other => ?_, ?_⟩
    · by_cases equal : other = kind
      · subst equal
        rw [Function.update_self]
        exact after
      · rw [Function.update_of_ne equal]
        exact others other fun again => equal (kernelOp_injective (op.symm.trans again)).symm
    · have split : (left .delete ++ left .insert).Perm
          (job :: (Function.update left kind remaining .delete ++ Function.update left kind remaining .insert)) := by
        cases kind with
        | delete => exact taken.append_right (left .insert)
        | insert => exact (taken.append_left (left .delete)).trans List.perm_middle
      rw [same, Option.toList_some, List.append_assoc, List.singleton_append, ← List.map_cons]
      exact ((split.map jobOp).symm.append_left begun).trans sum

theorem Tally.finish (tally : Tally buf worker stage (op :: rest) (some running) begun) (works : IsKernel op)
    (same : op = running.op) (started : ∀ place, running.unstarted place = none) :
    Tally buf worker stage rest (none : Option (RunningKernel workers g)) begun := by
  obtain ⟨left, lefts, sum⟩ := tally
  refine ⟨left, fun kind => ?_, sum⟩
  by_cases here : op = kernelOp kind
  · subst here
    obtain ⟨nothing, after⟩ := (lefts kind).finish same.symm started
    rw [nothing]
    exact after
  · apply (lefts kind).stays Iff.rfl
    · rw [List.count_cons_of_ne here]
    · intro other again
      refine ⟨by rintro ⟨⟩, ?_⟩
      rintro ⟨⟩
      exact absurd (same.trans again) here

/-- With the launches made and the stream empty lanes have begun with all jobs. -/
theorem Tally.drained (tally : Tally buf worker .done [] kernel begun) : begun.Perm (buf.content.map jobOp) := by
  obtain ⟨left, lefts, sum⟩ := tally
  have none : ∀ kind, left kind = [] := by
    intro kind
    generalize same : left kind = jobs
    have here := lefts kind
    rw [same] at here
    cases here with
    | unlaunched early absent => cases kind <;> exact early.elim
    | waiting late once idle => cases once
    | running late once running present op exact => cases once
    | finished late absent => rfl
  rw [none .delete, none .insert, List.append_nil, List.map_nil, List.append_nil] at sum
  exact sum

end Worker

end MegaKV.Store
