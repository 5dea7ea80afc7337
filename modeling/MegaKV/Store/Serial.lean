import MegaKV.Hash.Alone
import MegaKV.Hash.SingleEntry
import MegaKV.Store.Tally

namespace MegaKV.Store

open Library Slab Scheduler

variable {workers : Nat} {g : Hash.Geometry} {s t u : Server workers g} {worker : Worker workers} {bufId : Int}
  {initial : Worker workers → Nat → Hash.Loc}

abbrev ServerRun : Server workers g → Server workers g → Prop := Relation.ReflTransGen (ServerStep 0)

theorem run_reachable (reached : (server workers 0 g initial).Reachable s) (run : ServerRun s t) :
    (server workers 0 g initial).Reachable t := by
  induction run with
  | refl => exact reached
  | tail _ next ih => exact ih.step next

section Works

theorem accesses_run (s : Server workers g) (lanes : Lanes workers) (n : Nat) :
    ServerRun s { s with device := s.device.turns Hash.begin Hash.access (List.replicate n (.access lanes)) } := by
  induction n generalizing s with
  | zero => exact .refl
  | succ n ih =>
    rw [List.replicate_succ]
    exact .head (.access s lanes) (ih (s.turn (.access lanes)))

def Server.worked (s : Server workers g) (worker : Worker workers) (store : Hash.Device g (Worker workers))
    (running : RunningKernel workers g) : Server workers g :=
  { s with device := ⟨store, s.device.task⟩, kernel := Function.update s.kernel worker (some running) }

theorem worked_worked (store after : Hash.Device g (Worker workers)) (running next : RunningKernel workers g) :
    (s.worked worker store running).worked worker after next = s.worked worker after next := by
  simp only [Server.worked, Function.update_idem]

variable {running : RunningKernel workers g}

/-- Lanes take up an element, and nobody else comes in between until they are done with it. -/
theorem work_run {place : Nat × Nat} {work : Hash.Work g (Worker workers)} (here : s.kernel worker = some running)
    (unstarted : running.unstarted place = some work) (free : s.device.task (worker, place) = none) :
    ServerRun s
      (s.worked worker (work.perform s.device.store) ⟨running.op, Function.update running.unstarted place none⟩) := by
  let next : RunningKernel workers g := ⟨running.op, Function.update running.unstarted place none⟩
  let begun : Server workers g :=
    { s with
      device := ⟨s.device.store, Function.update s.device.task (worker, place) (some (Hash.begin work))⟩
      kernel := Function.update s.kernel worker (some next) }
  have started : ServerRun s begun := by
    have step : ServerStep 0 s _ := .start s worker place work running here unstarted
    rw [start_device free] at step
    exact .single step
  obtain ⟨n, ended⟩ : ∃ n, begun.device.turns Hash.begin Hash.access (List.replicate n (.access (worker, place))) = _ :=
    (Hash.work_works work s.device.store).turns (Function.update_self ..) rfl
  have accesses := accesses_run begun (worker, place) n
  have idle : Function.update begun.device.task (worker, place) none = s.device.task := by
    rw [Function.update_idem, ← free, Function.update_eq_self]
  rw [ended, idle] at accesses
  exact started.trans accesses

/-- What the lanes at a place leave of the device. -/
def workAt (unstarted : Nat × Nat → Option (Hash.Work g (Worker workers))) (store : Hash.Device g (Worker workers))
    (place : Nat × Nat) : Hash.Device g (Worker workers) :=
  match unstarted place with
  | some work => work.perform store
  | none => store

theorem workAt_none {unstarted : Nat × Nat → Option (Hash.Work g (Worker workers))}
    {store : Hash.Device g (Worker workers)} {place : Nat × Nat} (here : unstarted place = none) :
    workAt unstarted store place = store := by
  rw [workAt, here]

theorem workAt_some {unstarted : Nat × Nat → Option (Hash.Work g (Worker workers))}
    {store : Hash.Device g (Worker workers)} {place : Nat × Nat} {work : Hash.Work g (Worker workers)}
    (here : unstarted place = some work) : workAt unstarted store place = work.perform store := by
  rw [workAt, here]

/-- A kernel works off its elements one after the other. -/
theorem works_run {places : List (Nat × Nat)} (apart : places.Nodup) (here : s.kernel worker = some running)
    (free : ∀ place, s.device.task (worker, place) = none)
    (all : ∀ place, running.unstarted place ≠ none → place ∈ places) :
    ServerRun s
      (s.worked worker (places.foldl (workAt running.unstarted) s.device.store) ⟨running.op, fun _ => none⟩) := by
  induction places generalizing s running with
  | nil =>
    have nothing : running.unstarted = fun _ => none := by
      funext place
      by_contra some
      exact absurd (all place some) List.not_mem_nil
    have same : s.worked worker s.device.store ⟨running.op, fun _ => none⟩ = s := by
      rw [Server.worked, ← nothing, ← here, Function.update_eq_self]
    rw [List.foldl_nil, same]
  | cons place rest ih =>
    obtain ⟨absent, apart⟩ := List.nodup_cons.mp apart
    rw [List.foldl_cons]
    cases unstarted : running.unstarted place with
    | none =>
      rw [workAt_none unstarted]
      apply ih apart here free
      intro other some
      apply (List.mem_cons.mp (all other some)).resolve_left
      rintro rfl
      exact some unstarted
    | some work =>
      let next : RunningKernel workers g := ⟨running.op, Function.update running.unstarted place none⟩
      have behind : ∀ other, next.unstarted other ≠ none → other ∈ rest := by
        intro other some
        by_cases same : other = place
        · rw [same] at some
          exact absurd (Function.update_self ..) some
        · have before : next.unstarted other = running.unstarted other := Function.update_of_ne same ..
          exact (List.mem_cons.mp (all other (before ▸ some))).resolve_left same
      have more := @ih (s.worked worker (work.perform s.device.store) next) next apart (Function.update_self ..) free behind
      have others : rest.foldl (workAt next.unstarted) (work.perform s.device.store) =
          rest.foldl (workAt running.unstarted) (work.perform s.device.store) := by
        apply List.foldl_ext
        intro store other member
        have different : other ≠ place := fun same => absent (same ▸ member)
        have before : next.unstarted other = running.unstarted other := Function.update_of_ne different ..
        rw [workAt, workAt, before]
      rw [worked_worked] at more
      rw [workAt_some unstarted, ← others]
      exact (work_run here unstarted (free place)).trans more

theorem workAt_table (unstarted : Nat × Nat → Option (Hash.Work g (Worker workers)))
    (store : Hash.Device g (Worker workers)) (places : List (Nat × Nat)) :
    (places.foldl (workAt unstarted) store).table =
      Hash.performAll store.table (places.filterMap fun place => (unstarted place).bind workOp) := by
  induction places generalizing store with
  | nil => rfl
  | cons place rest ih =>
    rw [List.foldl_cons, ih]
    cases here : unstarted place with
    | none => simp only [workAt_none here, List.filterMap_cons, here, Option.bind_none]
    | some work =>
      rw [workAt_some here, List.filterMap_cons, here, Option.bind_some]
      cases work <;> rfl

end Works

section Commands

/-- A run that leaves the jobs alone and does the operations to the index, one after the other. -/
structure Serial (s t : Server workers g) (ops : List Hash.Op) : Prop where
  run : ServerRun s t
  node : t.node = s.node
  searchJobs : t.searchJobs = s.searchJobs
  kernel : t.kernel = s.kernel
  task : t.device.task = s.device.task
  table : t.device.store.table = Hash.performAll s.device.store.table ops

theorem Serial.refl (s : Server workers g) : Serial s s [] := ⟨.refl, rfl, rfl, rfl, rfl, rfl⟩

theorem Serial.trans {ops more : List Hash.Op} (first : Serial s t ops) (second : Serial t u more) :
    Serial s u (ops ++ more) := by
  refine ⟨first.run.trans second.run, second.node.trans first.node, second.searchJobs.trans first.searchJobs,
    second.kernel.trans first.kernel, second.task.trans first.task, ?_⟩
  rw [second.table, first.table, Hash.performAll_append]

def commandOps (buf : JobBuf) : StreamOp → List Hash.Op
  | .delete => buf.deletes.map jobOp
  | .insert => buf.inserts.map jobOp
  | _ => []

theorem commandOps_kernelOp (buf : JobBuf) (kind : KernelKind) :
    commandOps buf (kernelOp kind) = (jobsOf buf kind).map jobOp := by
  cases kind with
  | delete => rfl
  | insert => rfl

theorem commandOps_transfer {buf : JobBuf} {op : StreamOp} (transfers : ¬IsKernel op) : commandOps buf op = [] := by
  cases op with
  | delete => exact absurd trivial transfers
  | insert => exact absurd trivial transfers
  | _ => rfl

variable {command : Command} {rest : List Command}

/-- The elements a kernel begins with, in the order of the buffer. -/
theorem kernel_places {complete : StreamOp → Prop} (working : s.Working bufId worker complete)
    (waiting : s.stream worker = command :: rest) (works : IsKernel command.launch.op) (schedule : Nat → Hash.Schedule g) :
    let unstarted := (s.deviceBuf worker).works worker command.num schedule command.launch.op
    ∃ places : List (Nat × Nat), places.Nodup ∧ (∀ place, unstarted place ≠ none → place ∈ places) ∧
      places.filterMap (fun place => (unstarted place).bind workOp) =
        commandOps (s.node.jobs.buf worker bufId) command.launch.op := by
  have fits := working.stream
  rw [waiting] at fits
  obtain ⟨_, num⟩ := fits.called command List.mem_cons_self
  have loaded : ∀ other, needs (s.counts worker bufId) command.launch.op other →
      Loaded (s.searchJobs worker bufId) (s.node.jobs.buf worker bufId) (s.deviceBuf worker) other :=
    fun other need => working.kernel.loaded other (fits.ordered.1 other need)
  rw [num, Server.counts] at *
  dsimp only
  rcases kernel_cases works with search | ⟨kind, op⟩
  · rw [search] at loaded ⊢
    refine ⟨(List.range (s.searchJobs worker bufId).numSearchJob).map (Prod.mk 0),
      List.nodup_range.map (Prod.mk_right_injective 0), ?_, ?_⟩
    · intro place some
      obtain ⟨work, here⟩ := Option.ne_none_iff_exists'.mp some
      have takes := works_taken loaded schedule here
      cases work with
      | search elem out id schedule =>
        obtain ⟨rfl, inside, _⟩ := takes
        exact List.mem_map.mpr ⟨id, List.mem_range.mpr inside, rfl⟩
      | _ => cases takes
    · apply List.filterMap_eq_nil_iff.mpr
      intro place _
      cases here : (s.deviceBuf worker).works worker _ schedule .search place with
      | none => rfl
      | some work =>
        have takes := works_taken loaded schedule here
        cases work with
        | search elem out id schedule => rfl
        | _ => cases takes
  · rw [op] at loaded ⊢
    obtain ⟨exact, all⟩ := works_exact loaded schedule
    refine ⟨places (s.node.jobs.buf worker bufId) kind, places_nodup _ kind, ?_, ?_⟩
    · intro place some
      obtain ⟨work, here⟩ := Option.ne_none_iff_exists'.mp some
      exact (exact place work here).1
    · rw [commandOps_kernelOp, ← places_jobs, List.map_map, ← List.filterMap_eq_map]
      apply List.filterMap_congr
      intro place member
      obtain ⟨work, here⟩ := Option.isSome_iff_exists.mp (all place member)
      rw [here, Option.bind_some]
      exact (exact place work here).2

theorem transfer_keeps (s : Server workers g) (worker : Worker workers) (command : Command) :
    (s.transfer worker command).kernel = s.kernel ∧ (s.transfer worker command).stream = s.stream := by
  unfold Server.transfer
  split
  · exact ⟨rfl, rfl⟩
  · exact ⟨rfl, rfl⟩
  · exact ⟨rfl, rfl⟩

/-- The first command of a stream is executed while nothing else happens. -/
theorem command_serial (reached : (server workers 0 g initial).Reachable s) (turn : s.node.jobs.hand.pc = .kernels bufId)
    (waiting : s.stream worker = command :: rest) (idle : s.kernel worker = none) :
    ∃ t, Serial s t (commandOps (s.node.jobs.buf worker bufId) command.launch.op) ∧
      (t.stage, t.found) = (s.stage, s.found) ∧ t.stream = Function.update s.stream worker rest := by
  obtain ⟨complete, working⟩ := (server_invariants reached).1.working bufId turn
  have free : ∀ place, s.device.task (worker, place) = none := (working worker).kernel.idle idle
  by_cases works : IsKernel command.launch.op
  · let schedule : Nat → Hash.Schedule g := fun _ => ⟨Hash.ascending g, Hash.ascending g⟩
    let unstarted := (s.deviceBuf worker).works worker command.num schedule command.launch.op
    obtain ⟨places, apart, all, ops⟩ := kernel_places (working worker) waiting works schedule
    let begun := s.setKernel worker (some ⟨command.launch.op, unstarted⟩)
    let done := begun.worked worker (places.foldl (workAt unstarted) s.device.store) ⟨command.launch.op, fun _ => none⟩
    have running : begun.kernel worker = some ⟨command.launch.op, unstarted⟩ := Function.update_self ..
    have started : ServerRun s begun := .single (.begin s worker command rest schedule waiting works idle)
    have ran : ServerRun s done := started.trans (works_run apart running free all)
    have step : ServerStep 0 done _ := .finish done worker command rest ⟨command.launch.op, fun _ => none⟩ waiting
      (Function.update_self ..) (fun _ => rfl) free
    have kernel : Function.update (Function.update (Function.update s.kernel worker (some ⟨command.launch.op, unstarted⟩))
        worker (some ⟨command.launch.op, fun _ => none⟩)) worker none = s.kernel := by
      rw [Function.update_idem, Function.update_idem, ← idle, Function.update_eq_self]
    refine ⟨_, ⟨ran.tail step, rfl, rfl, kernel, rfl, ?_⟩, rfl, rfl⟩
    rw [← ops]
    exact workAt_table unstarted s.device.store places
  · have step : ServerStep 0 s _ := .transfer s worker command rest waiting works
    obtain ⟨⟨node, same, table, task⟩, _⟩ := @transfer_frame _ _ s worker command rest (free (0, 0))
    obtain ⟨kernel, stream⟩ := transfer_keeps s worker command
    simp only [Prod.mk.injEq] at same
    obtain ⟨searches, stage, found⟩ := same
    rw [commandOps_transfer works]
    refine ⟨_, ⟨.single step, node, searches, kernel, task, table⟩, by rw [stage, found], ?_⟩
    rw [Server.setStream, stream]

/-- All commands of a stream are, with nothing else happening. -/
theorem drain_serial {list : List Command} (reached : (server workers 0 g initial).Reachable s)
    (turn : s.node.jobs.hand.pc = .kernels bufId) (waiting : s.stream worker = list) (idle : s.kernel worker = none) :
    ∃ t, Serial s t (list.flatMap fun command => commandOps (s.node.jobs.buf worker bufId) command.launch.op) ∧
      (t.stage, t.found) = (s.stage, s.found) ∧ t.stream = Function.update s.stream worker [] := by
  induction list generalizing s with
  | nil =>
    refine ⟨s, .refl s, rfl, ?_⟩
    rw [← waiting, Function.update_eq_self]
  | cons command rest ih =>
    obtain ⟨t, first, same, stream⟩ := command_serial reached turn waiting idle
    have waits : t.stream worker = rest := by rw [stream, Function.update_self]
    have goesOn : t.node.jobs.hand.pc = .kernels bufId := by rw [first.node]; exact turn
    have free : t.kernel worker = none := by rw [first.kernel]; exact idle
    obtain ⟨u, others, still, drained⟩ := ih (run_reachable reached first.run) goesOn waits free
    rw [first.node] at others
    refine ⟨u, first.trans others, still.trans same, ?_⟩
    rw [drained, stream, Function.update_idem]

end Commands

section Rounds

structure Server.Still (s : Server workers g) : Prop where
  stream : ∀ worker, s.stream worker = []
  kernel : ∀ worker, s.kernel worker = none

theorem Serial.still {ops : List Hash.Op} (serial : Serial s t ops) (still : s.Still) (stream : t.stream = s.stream) :
    t.Still := by
  refine ⟨fun worker => ?_, fun worker => ?_⟩
  · rw [stream]
    exact still.stream worker
  · rw [serial.kernel]
    exact still.kernel worker

/-- The commands that have been launched are executed at once. -/
theorem launch_serial {list : List Command} {stage : Stage workers} {found : Nat → Hash.Table g}
    (reached : (server workers 0 g initial).Reachable s) (turn : s.node.jobs.hand.pc = .kernels bufId) (still : s.Still)
    (step : ServerStep 0 s { s.launch worker list stage with found := found }) :
    ∃ t, Serial s t (list.flatMap fun command => commandOps (s.node.jobs.buf worker bufId) command.launch.op) ∧
      t.stage = stage ∧ t.found = found ∧ t.stream = s.stream := by
  have waiting : (s.launch worker list stage).stream worker = list := by
    rw [Server.launch, still.stream worker, List.nil_append]
    exact Function.update_self ..
  obtain ⟨t, drained, same, stream⟩ := drain_serial (reached.step step) turn waiting (still.kernel worker)
  simp only [Prod.mk.injEq] at same
  have launched : Serial s { s.launch worker list stage with found := found } [] := ⟨.single step, rfl, rfl, rfl, rfl, rfl⟩
  refine ⟨t, launched.trans drained, same.1, same.2, ?_⟩
  rw [stream, Server.launch, Function.update_idem, ← still.stream worker, Function.update_eq_self]

theorem take_workers (n : Nat) (inside : n < workers + 1) :
    (List.finRange (workers + 1)).take (n + 1) = (List.finRange (workers + 1)).take n ++ [⟨n, inside⟩] := by
  rw [List.take_succ_eq_append_getElem (by rw [List.length_finRange]; exact inside), List.getElem_finRange]
  rfl

/-- One loop of a round over the workers. -/
theorem workers_serial {first : Server workers g} {again : Worker workers → Stage workers} {next : Stage workers}
    {ops : Worker workers → List Hash.Op} {seen : Nat → Nat → Hash.Table g}
    (one : ∀ (s : Server workers g) (worker : Worker workers),
      Serial first s (((List.finRange (workers + 1)).take worker).flatMap ops) → s.stream = first.stream →
      s.stage = again worker → s.found = seen worker →
      ∃ t, Serial s t (ops worker) ∧ t.stage = .nextWorker worker again next ∧ t.found = seen (worker + 1) ∧
        t.stream = s.stream)
    (stage : first.stage = again 0) (found : first.found = seen 0) :
    ∃ t, Serial first t ((List.finRange (workers + 1)).flatMap ops) ∧ t.stage = next ∧ t.found = seen (workers + 1) ∧
      t.stream = first.stream := by
  have upTo : ∀ n (inside : n < workers + 1), ∃ s, Serial first s (((List.finRange (workers + 1)).take n).flatMap ops) ∧
      s.stage = again ⟨n, inside⟩ ∧ s.found = seen n ∧ s.stream = first.stream := by
    intro n
    induction n with
    | zero => exact fun _ => ⟨first, .refl first, stage, found, rfl⟩
    | succ n ih =>
      intro inside
      obtain ⟨s, before, here, seen, stream⟩ := ih (Nat.lt_of_succ_lt inside)
      obtain ⟨t, after, stage, found, same⟩ := one s ⟨n, Nat.lt_of_succ_lt inside⟩ before stream here seen
      have more : following (⟨n, Nat.lt_of_succ_lt inside⟩ : Worker workers) = some ⟨n + 1, inside⟩ := dif_pos inside
      rw [Stage.nextWorker, more] at stage
      refine ⟨t, ?_, stage, found, same.trans stream⟩
      rw [take_workers n (Nat.lt_of_succ_lt inside), List.flatMap_append, List.flatMap_singleton]
      exact before.trans after
  obtain ⟨s, before, here, seen, stream⟩ := upTo workers (Nat.lt_succ_self workers)
  obtain ⟨t, after, stage, found, same⟩ := one s ⟨workers, Nat.lt_succ_self workers⟩ before stream here seen
  have last : following (⟨workers, Nat.lt_succ_self workers⟩ : Worker workers) = none := dif_neg (Nat.lt_irrefl _)
  rw [Stage.nextWorker, last] at stage
  have all : (List.finRange (workers + 1)).take (workers + 1) = List.finRange (workers + 1) :=
    List.take_of_length_le (by rw [List.length_finRange])
  refine ⟨t, ?_, stage, found, same.trans stream⟩
  rw [← all, take_workers workers (Nat.lt_succ_self workers), List.flatMap_append, List.flatMap_singleton]
  exact before.trans after

def kernelsOps (kernels : List (Kernel workers)) : List Hash.Op := kernels.flatMap fun run => run.jobs.map jobOp

theorem searchCommands_ops (counts : Counts) (round : Nat) (buf : JobBuf) :
    ((searchCommands counts round bufId).flatMap fun command => commandOps buf command.launch.op) = [] := by
  rw [searchCommands, searchLaunches]
  split
  · rfl
  · rfl

theorem deleteCommands_ops (s : Server workers g) (worker : Worker workers) (round : Nat) :
    ((deleteCommands (s.counts worker bufId) round bufId).flatMap fun command =>
        commandOps (s.node.jobs.buf worker bufId) command.launch.op) =
      kernelsOps (deleteKernel s.node.jobs bufId worker) := by
  have num : (s.counts worker bufId).numDeleteJob = (s.node.jobs.buf worker bufId).numDeleteJob := rfl
  rw [deleteCommands, deleteLaunches, num, deleteKernel, kernelsOps]
  split
  · rfl
  · simp only [commands, launchAll, List.map_cons, List.map_nil, List.flatMap_cons, List.flatMap_nil, commandOps,
      List.nil_append]

theorem insertCommands_ops (s : Server workers g) (worker : Worker workers) (round : Nat) :
    ((insertCommands (s.counts worker bufId) round bufId).flatMap fun command =>
        commandOps (s.node.jobs.buf worker bufId) command.launch.op) =
      kernelsOps (insertKernel s.node.jobs bufId worker) := by
  have num : (s.counts worker bufId).numInsertJob = (s.node.jobs.buf worker bufId).numInsertJob := rfl
  rw [insertCommands, insertLaunches, num, insertKernel, kernelsOps]
  split
  · rfl
  · have copies : ∀ blocks : List Nat,
        (blocks.flatMap fun block => commandOps (s.node.jobs.buf worker bufId) (.copyInsertIn block)) = [] :=
      fun blocks => List.flatMap_eq_nil_iff.mpr fun _ _ => rfl
    simp only [commands, launchAll, List.map_append, List.map_map, List.flatMap_append, List.flatMap_map,
      Function.comp_apply, copies, List.nil_append]
    rfl

theorem searches_serial (reached : (server workers 0 g initial).Reachable s)
    (turn : s.node.jobs.hand.pc = .kernels bufId) (still : s.Still) (stage : s.stage = .search 0) :
    ∃ t, Serial s t [] ∧ t.stage = .decide ∧
      t.found = Function.update s.found s.node.jobs.hand.round s.device.store.table ∧ t.stream = s.stream := by
  let recorded := Function.update s.found s.node.jobs.hand.round s.device.store.table
  let seen : Nat → Nat → Hash.Table g := fun n => if n = 0 then s.found else recorded
  have none : ∀ list : List (Worker workers), list.flatMap (fun _ => ([] : List Hash.Op)) = [] :=
    fun list => List.flatMap_eq_nil_iff.mpr fun _ _ => rfl
  rw [← none (List.finRange (workers + 1))]
  apply @workers_serial _ _ s .search .decide (fun _ => []) seen _ stage rfl
  intro t worker run same stage found
  rw [none] at run
  have here : t.node.jobs.hand.pc = .kernels bufId := by rw [run.node]; exact turn
  have step : ServerStep 0 t _ := .search t bufId worker here stage
  obtain ⟨u, serial, after, record, stream⟩ :=
    launch_serial (run_reachable reached run.run) here (run.still still same) step
  rw [searchCommands_ops] at serial
  refine ⟨u, serial, after, record.trans ?_, stream⟩
  have table : t.device.store.table = s.device.store.table := run.table
  rw [found, run.node, table]
  by_cases zero : worker = 0
  · rw [zero]
    rfl
  · have later : worker.val ≠ 0 := fun same => zero (Fin.ext same)
    simp only [seen, zero, later, Nat.succ_ne_zero, ite_false, recorded]

/-- The loop for the delete kernels, and that for the insert kernels. -/
theorem kernels_serial {again : Worker workers → Stage workers} {next : Stage workers}
    {commands : Counts → Nat → Int → List Command} {kernel : JobState workers → Int → Worker workers → List (Kernel workers)}
    (reached : (server workers 0 g initial).Reachable s) (turn : s.node.jobs.hand.pc = .kernels bufId) (still : s.Still)
    (stage : s.stage = again 0)
    (launches : ∀ (t : Server workers g) (worker : Worker workers), t.node.jobs.hand.pc = .kernels bufId →
      t.stage = again worker → ServerStep 0 t (t.launch worker
        (commands (t.counts worker bufId) t.node.jobs.hand.round bufId) (.nextWorker worker again next)))
    (ops : ∀ (t : Server workers g) (worker : Worker workers) (round : Nat),
      ((commands (t.counts worker bufId) round bufId).flatMap fun command =>
        commandOps (t.node.jobs.buf worker bufId) command.launch.op) = kernelsOps (kernel t.node.jobs bufId worker)) :
    ∃ t, Serial s t (kernelsOps ((List.finRange (workers + 1)).flatMap (kernel s.node.jobs bufId))) ∧ t.stage = next ∧
      t.found = s.found ∧ t.stream = s.stream := by
  rw [kernelsOps, List.flatMap_assoc]
  apply @workers_serial _ _ s again next (fun worker => kernelsOps (kernel s.node.jobs bufId worker)) (fun _ => s.found) _
    stage rfl
  intro t worker run same stage found
  have here : t.node.jobs.hand.pc = .kernels bufId := by rw [run.node]; exact turn
  have rest := launch_serial (run_reachable reached run.run) here (run.still still same) (launches t worker here stage)
  rw [ops, run.node] at rest
  exact found ▸ rest

theorem Serial.stage (s : Server workers g) {stage : Stage workers} (step : ServerStep 0 s { s with stage := stage }) :
    Serial s { s with stage := stage } [] := ⟨.single step, rfl, rfl, rfl, rfl, rfl⟩

/-- The kernels of a round can be run with nothing else in between, one element after the other. -/
theorem round_serial (reached : (server workers 0 g initial).Reachable s) (turn : s.node.jobs.hand.pc = .kernels bufId)
    (stage : s.stage = .search 0) :
    ∃ t, ServerRun s t ∧ t.node = s.node.launch 0 bufId ∧ t.searchJobs = s.searchJobs ∧ t.stage = .search 0 ∧
      t.found = Function.update s.found s.node.jobs.hand.round s.device.store.table ∧
      t.device.store.table = Hash.performAll s.device.store.table (kernelsOps (roundKernels s.node.jobs bufId 0)) := by
  obtain ⟨serving, indexed⟩ := server_invariants reached
  obtain ⟨complete, working⟩ := serving.working bufId turn
  have empty : ∀ worker, s.stream worker = [] := by
    intro worker
    apply ((working worker).stream.fresh _).2
    rw [stage]
    exact Fin.not_lt_zero worker
  have still : s.Still := ⟨empty, fun worker => ((working worker).over (empty worker)).1⟩
  have goesOn : ∀ {t : Server workers g} {ops : List Hash.Op}, Serial s t ops → t.node.jobs.hand.pc = .kernels bufId :=
    fun serial => by rw [serial.node]; exact turn
  have runs : insertsDeletes 0 s.node.jobs.hand.schedInsDel = true := by simp [insertsDeletes]
  obtain ⟨a, searched, stageA, foundA, streamA⟩ := searches_serial reached turn still stage
  have decide : Serial a { a with stage := _ } [] := .stage a (.decide a bufId (goesOn searched) stageA)
  rw [searched.node, runs, if_pos rfl] at decide
  have decided := searched.trans decide
  obtain ⟨b, deletes, stageB, foundB, streamB⟩ := kernels_serial (run_reachable reached decided.run) (goesOn decided)
    (decided.still still streamA) rfl (fun t worker => .delete t bufId worker) deleteCommands_ops
  have deleted := decided.trans deletes
  obtain ⟨c, inserts, stageC, foundC, streamC⟩ := kernels_serial (run_reachable reached deleted.run) (goesOn deleted)
    (deleted.still still (streamB.trans streamA)) stageB (fun t worker => .insert t bufId worker) insertCommands_ops
  have inserted := deleted.trans inserts
  have drained := inserted.still still (streamC.trans (streamB.trans streamA))
  have synchronized := inserted.trans (.stage c (.synchronize c bufId (goesOn inserted) stageC drained.stream))
  have ended : ServerStep 0 { c with stage := .done } _ := .kernels _ bufId (goesOn synchronized) rfl
  refine ⟨_, synchronized.run.tail ended, ?_, inserted.searchJobs, rfl, ?_, ?_⟩
  · exact congrArg (fun node => Node.launch 0 node bufId) inserted.node
  · exact foundC.trans (foundB.trans foundA)
  · have all : kernelsOps (roundKernels s.node.jobs bufId 0) =
        kernelsOps ((List.finRange (workers + 1)).flatMap (deleteKernel s.node.jobs bufId)) ++
          kernelsOps ((List.finRange (workers + 1)).flatMap (insertKernel s.node.jobs bufId)) := by
      rw [roundKernels, if_pos runs, kernelsOps, List.flatMap_append]
      rfl
    have table := inserted.table
    rw [decided.node, deleted.node] at table
    rw [all]
    exact table

end Rounds

section Reread

/-- Two workers and the streams before anything has been launched. -/
def blankServer (node : Node 1) : Server 1 Hash.gpuHash :=
  { node := node
    searchJobs := fun _ _ => ⟨fun _ => ⟨0, 0⟩, 0⟩
    searchOut := fun _ _ _ => 0
    deviceBuf := fun _ => ⟨fun _ => ⟨0, 0⟩, fun _ => ⟨0, 0, 0⟩, fun _ _ => ⟨0, 0, 0⟩, fun _ => 0⟩
    device := Hash.blankDevice (Lanes 1) fun _ _ => 0
    stream := fun _ => []
    kernel := fun _ => none
    stage := .search ⟨0, Nat.two_pos⟩
    found := fun _ => Hash.zeroTable Hash.gpuHash }

abbrev PairReaches (s : Server 1 Hash.gpuHash) : Prop := (server 1 0 Hash.gpuHash fun _ _ => 0).Reachable s

theorem requests_server {node : Node 1} (reached : (requests 1 0).Reachable node) : PairReaches (blankServer node) := by
  induction reached with
  | initial start => exact .initial ⟨start, rfl, fun _ _ => rfl, fun _ => ⟨rfl, rfl⟩, rfl⟩
  | step _ next ih =>
    obtain ⟨step, hand, refreshed⟩ := next
    exact ih.step (.node _ _ step (fun _ turn => hand ▸ turn) fun _ fresh => refreshed ▸ fresh)

def Server.setHand (s : Server workers g) (hand : State workers) : Server workers g :=
  { s with node := { s.node with jobs := { s.node.jobs with hand := hand } } }

variable {r : Server 1 Hash.gpuHash} {held next : State 1} {first second : Scheduler.Batch} {left right : SenderPc} {round : Nat}
  {elem : Hash.DElem}

theorem pair_hand (reached : PairReaches (r.setHand held)) (step : Step 0 held next)
    (noKernels : ∀ gpuBufId, held.pc = .kernels gpuBufId → next.pc = .kernels gpuBufId)
    (noPush : ∀ worker, held.senders worker = .holding → next.senders worker = .holding) : PairReaches (r.setHand next) :=
  reached.step (.node (r.setHand held) _ (.hand _ next step noKernels noPush) noKernels fun _ same => same)

/-- `mega_gpu_get_batch`. -/
theorem pair_taken (reached : PairReaches (r.setHand (duo first second left right (.pop 0) round)))
    (idle : first.gpuBufId = -1 ∧ second.gpuBufId = -1) :
    PairReaches (r.setHand (duo (megaGpuGetBatch first) (megaGpuGetBatch second) left right
      (.kernels second.receiverBufId) round)) := by
  have popped := pair_hand reached (duo_popFirst idle.1) (by intro _ turn; cases turn) fun _ same => same
  have taken := pair_hand popped duo_takeFirst (by intro _ turn; cases turn) fun _ same => same
  have both := pair_hand taken (duo_popSecond idle.2) (by intro _ turn; cases turn) fun _ same => same
  exact pair_hand both duo_takeSecond (by intro _ turn; cases turn) fun _ same => same

/-- `mega_gpu_give_to_sender`. -/
theorem pair_given (reached : PairReaches (r.setHand (duo first second left right (.give 0) round)))
    (free : first.senderBufId = -1 ∧ second.senderBufId = -1) :
    PairReaches (r.setHand (duo (megaGpuGiveToSender first 0 0) (megaGpuGiveToSender second 0 0) left right (.pop 0)
      (round + 1))) := by
  have given := pair_hand reached (duo_giveFirst free.1) (by intro _ turn; cases turn) fun _ same => same
  exact pair_hand given (duo_giveSecond free.2) (by intro _ turn; cases turn) fun _ same => same

attribute [local instance (high)] pairWorkers in
def reusedKernels (elem : Hash.DElem) : List (Kernel 1) :=
  [⟨1, 0, .delete, [.delete (firstJobs.tag 1 elem)]⟩, ⟨0, 0, .insert, [.insert (startJobs.tag 0 (storedElem 1))]⟩,
    ⟨1, 0, .insert, [.insert ((evictedJobs elem).tag 1 (storedElem 1))]⟩]

attribute [local instance (high)] pairWorkers in
def pairQueued (elem : Hash.DElem) : List Job :=
  [.delete (firstJobs.tag 1 elem), .insert ((evictedJobs elem).tag 1 (storedElem 1))]

theorem reused_inserts (elem : Hash.DElem) :
    ((reusedJobs elem).buf 1 0).inserts = [.insert ((evictedJobs elem).tag 1 (storedElem 1))] := by
  have own : ((evictedJobs elem).queueInsert 1 (storedElem 1)).own 1 = _ := queueInsert_own (storedElem 1)
  have none : ((evictedJobs elem).own 1).inserts = [] := rfl
  have one := @JobBuf.addInsert_inserts ((evictedJobs elem).own 1) ((evictedJobs elem).tag 1 (storedElem 1))
  rw [none, ← own] at one
  exact List.perm_singleton.mp one

theorem reused_kernels (elem : Hash.DElem) (hand : State 1) (zeroth : hand.round = 0) :
    roundKernels { reusedJobs elem with hand := hand } 0 0 = reusedKernels elem := by
  let jobs : JobState 1 := { reusedJobs elem with hand := hand }
  have runs : insertsDeletes 0 hand.schedInsDel = true := by simp [insertsDeletes]
  have both : List.finRange (1 + 1) = [(0 : Worker 1), 1] := by decide
  have delete : deleteKernel jobs 0 1 = [⟨1, hand.round, .delete, [.delete (firstJobs.tag 1 elem)]⟩] := rfl
  have first : insertKernel jobs 0 0 = [⟨0, hand.round, .insert, [.insert (startJobs.tag 0 (storedElem 1))]⟩] := rfl
  have second : insertKernel jobs 0 1 = [⟨1, hand.round, .insert, ((reusedJobs elem).buf 1 0).inserts⟩] := rfl
  rw [roundKernels, if_pos runs, both]
  change ([] ++ (deleteKernel jobs 0 1 ++ [])) ++ (insertKernel jobs 0 0 ++ (insertKernel jobs 0 1 ++ [])) = _
  rw [delete, first, second, reused_inserts, zeroth]
  rfl

/-- Whatever is deleted from an index without entries. -/
theorem delete_unstored (elem : Hash.DElem) (b : g.Index) (simdLane : g.Lane) :
    (Hash.hashDelete (Hash.zeroTable g) elem b).sig simdLane = 0 := by
  rcases Hash.hashDelete_kept (Hash.zeroTable g) elem (b, simdLane) with kept | cleared
  · exact congrArg Prod.fst kept
  · exact congrArg Prod.fst cleared

/-- An element that has been stored is found there when it is inserted again. -/
theorem stored_twice : ∃ simdLane, Hash.entry
    (Hash.performAll (Hash.zeroTable g) [.delete elem, .cuckoo (storedElem 1), .cuckoo (storedElem 1)])
    (Hash.bucketIndex g 0, simdLane) = (7, 1) := by
  have nonzero : (storedElem 1).sig ≠ 0 := by decide
  have room : Hash.firstFound (Hash.hashDelete (Hash.zeroTable g) elem) (storedElem 1) ≠ .full :=
    Hash.first_room (.inr (delete_unstored elem _ (Hash.majorLane g 0)))
  obtain ⟨simdLane, stored⟩ := Hash.insert_stored nonzero room
  exact Hash.insert_stored nonzero (Hash.first_room (.inl (congrArg Prod.fst stored)))

structure Stored (r : Server 1 Hash.gpuHash) (elem : Hash.DElem) : Prop where
  reached : PairReaches (r.setHand (duo ⟨1, -1, 2, -1, 0, -1⟩ ⟨1, -1, 2, -1, 0, -1⟩ .waiting .waiting (.give 0) 0))
  stage : r.stage = .search 0
  searchJobs : r.searchJobs = fun _ _ => ⟨fun _ => ⟨0, 0⟩, 0⟩
  buf : r.node.jobs.buf = (reusedJobs elem).buf
  refreshed : r.node.jobs.refreshed = fun _ => false
  queued : r.node.jobs.queued = (reusedJobs elem).queued
  passed : ⟨0, 0, pairQueued elem⟩ ∈ r.node.jobs.passes 1
  kernels : r.node.kernels = reusedKernels elem
  table : r.device.store.table = Hash.performAll (Hash.zeroTable Hash.gpuHash) (kernelsOps (reusedKernels elem))

theorem stored_exists : ∃ r elem, Stored r elem := by
  obtain ⟨node, elem, served⟩ := reused_exists
  have hand : node.jobs.hand = duo megaReceiverBatchInit megaReceiverBatchInit .waiting .waiting (.pop 0) 0 := by
    rw [served.jobs, ← duo_initial]
    rfl
  have start : PairReaches ((blankServer node).setHand node.jobs.hand) := requests_server served.reached
  rw [hand] at start
  have taken := pair_taken start ⟨rfl, rfl⟩
  obtain ⟨r, run, after, searchJobs, stage, _, table⟩ := round_serial taken rfl rfl
  have kernels := reused_kernels elem
    (duo (megaGpuGetBatch megaReceiverBatchInit) (megaGpuGetBatch megaReceiverBatchInit) .waiting .waiting (.kernels 0) 0) rfl
  rw [← served.jobs] at kernels
  refine ⟨r, elem, ⟨?_, stage, searchJobs, ?_, ?_, ?_, ?_, ?_, ?_⟩⟩
  · have same : r.setHand (duo ⟨1, -1, 2, -1, 0, -1⟩ ⟨1, -1, 2, -1, 0, -1⟩ .waiting .waiting (.give 0) 0) = r := by
      rw [Server.setHand, show duo _ _ _ _ _ _ = r.node.jobs.hand by rw [after]; rfl]
    rw [same]
    exact run_reachable taken run
  · rw [after, ← served.jobs]
    rfl
  · rw [after]
    exact congrArg JobState.refreshed served.jobs
  · rw [after, ← served.jobs]
    rfl
  · have launched : ((reusedJobs elem).buf 1 0).launched = pairQueued elem := by
      rw [JobBuf.launched, reused_inserts]
      rfl
    rw [after, ← launched, ← served.jobs]
    exact List.mem_append_right _ (List.mem_singleton.mpr rfl)
  · rw [after]
    exact (congrArg (· ++ _) served.kernels).trans kernels
  · rw [table]
    exact congrArg (fun list => Hash.performAll _ (kernelsOps list)) kernels

def storedQuery : Hash.SElem := ⟨7, 0⟩

def askedHand : State 1 := duo ⟨2, -1, 0, -1, 1, 0⟩ ⟨2, 0, -1, -1, 1, 0⟩ .waiting .waiting (.kernels 1) 1

structure Asked (r : Server 1 Hash.gpuHash) (elem : Hash.DElem) : Prop where
  reached : PairReaches (r.setHand askedHand)
  stage : r.stage = .search 0
  searchJobs : r.searchJobs 0 1 = SearchJobs.add ⟨fun _ => ⟨0, 0⟩, 0⟩ storedQuery
  vacant : ∀ worker, r.node.jobs.buf worker 1 = vacantBuf
  refreshed : r.node.jobs.refreshed 0 = false
  queued : r.node.jobs.queued = (reusedJobs elem).queued
  passed : ⟨0, 0, pairQueued elem⟩ ∈ r.node.jobs.passes 1
  kernels : r.node.kernels = reusedKernels elem
  table : r.device.store.table = Hash.performAll (Hash.zeroTable Hash.gpuHash) (kernelsOps (reusedKernels elem))

theorem Stored.asked (stored : Stored r elem) : ∃ q, Asked q elem := by
  have given := pair_given stored.reached ⟨rfl, rfl⟩
  let a := r.setHand (duo ⟨1, 0, 2, -1, -1, 0⟩ ⟨1, 0, 2, -1, -1, 0⟩ .waiting .waiting (.pop 0) 1)
  have room : (a.searchJobs 0 1).numSearchJob < Receiver.batchMaxSearchJob - 1 := by
    have none : a.searchJobs = _ := stored.searchJobs
    rw [none]
    decide
  let b := a.receive 0 storedQuery
  have received : PairReaches b := given.step (.receive a 0 storedQuery room)
  have got : PairReaches (b.setHand (duo ⟨1, 0, 2, -1, -1, 0⟩ ⟨1, 0, 2, -1, -1, 0⟩ .holding .waiting (.pop 0) 1)) :=
    @pair_hand b _ _ received (duo_getFirst (by decide)) (fun _ turn => turn) fun worker holding =>
      absurd holding (pairOf_ne SenderPc.noConfusion SenderPc.noConfusion worker)
  let c := b.setHand (duo ⟨1, 0, 2, -1, -1, 0⟩ ⟨1, 0, 2, -1, -1, 0⟩ .holding .waiting (.pop 0) 1)
  have fresh : c.node.jobs.refreshed 0 = false := congrFun stored.refreshed 0
  let d := c.refresh 0
  have refreshed : PairReaches d := got.step (.refresh c 0 rfl fresh)
  let e : Server 1 Hash.gpuHash := { d with node := { d.node with jobs := d.node.jobs.push 0 ⟨1, 0, 2, 0, -1, 0⟩ } }
  have pushed : PairReaches e := by
    refine refreshed.step (.node d _ (.push d.node 0 ⟨1, 0, 2, 0, -1, 0⟩ rfl (refresh_refreshed _ 0) rfl) (fun _ turn => turn) ?_)
    intro worker before
    by_cases first : worker = 0
    · rw [first]
      exact @Function.update_self (Worker 1) (fun _ => Bool) _ 0 false d.node.jobs.refreshed
    · exact (@Function.update_of_ne (Worker 1) (fun _ => Bool) _ worker 0 first false d.node.jobs.refreshed).trans before
  have same : e = e.setHand (duo ⟨1, 0, 2, 0, -1, 0⟩ ⟨1, 0, 2, -1, -1, 0⟩ .pushed .waiting (.pop 0) 1) := by
    rw [← duo_pushFirst ⟨1, 0, 2, 0, -1, 0⟩]
    rfl
  rw [same] at pushed
  have cleared := pair_hand pushed duo_clearFirst (fun _ turn => turn) fun worker holding =>
    absurd holding (pairOf_ne SenderPc.noConfusion SenderPc.noConfusion worker)
  have taken := pair_taken cleared ⟨rfl, rfl⟩
  refine ⟨e, ⟨taken, stored.stage, ?_, ?_, ?_, stored.queued, stored.passed, stored.kernels, stored.table⟩⟩
  · have different : ((0 : Worker 1), (1 : Int)) ≠ (0, 0) := by decide
    have other : (c.refresh 0).searchJobs 0 1 = c.searchJobs 0 1 :=
      setSearchJobs_other different { c.searchJobs 0 0 with numSearchJob := 0 }
    have own : b.searchJobs 0 1 = (r.searchJobs 0 1).add storedQuery := by
      change Function.update r.searchJobs 0 (Function.update (r.searchJobs 0) 1 _) 0 1 = _
      rw [Function.update_self, Function.update_self]
      rfl
    exact other.trans (own.trans (by rw [stored.searchJobs]))
  · intro worker
    have different : (1 : Int) ≠ 0 := by decide
    have other : (r.node.jobs.setBuf 0 0 (megaSenderRefreshBuffer ⟨1, 0, 2, -1, -1, 0⟩ (r.node.jobs.buf 0 0))).buf worker 1 =
        r.node.jobs.buf worker 1 := setBuf_other (.inr different)
    refine other.trans ?_
    rw [stored.buf]
    rcases pair_cases worker with rfl | rfl
    · rfl
    · rfl
  · exact @Function.update_self (Worker 1) (fun _ => Bool) _ 0 false d.node.jobs.refreshed

theorem vacant_kernels {jobs : JobState workers} (vacant : ∀ worker, jobs.buf worker bufId = vacantBuf) :
    roundKernels jobs bufId 0 = [] := by
  have deletes : (List.finRange (workers + 1)).flatMap (deleteKernel jobs bufId) = [] := by
    apply List.flatMap_eq_nil_iff.mpr
    intro worker _
    rw [deleteKernel, vacant worker]
    rfl
  have inserts : (List.finRange (workers + 1)).flatMap (insertKernel jobs bufId) = [] := by
    apply List.flatMap_eq_nil_iff.mpr
    intro worker _
    rw [insertKernel, vacant worker]
    rfl
  rw [roundKernels, deletes, inserts, List.append_nil, ite_self]

structure Reread (r : Server 1 Hash.gpuHash) (elem : Hash.DElem) : Prop where
  reached : PairReaches r
  outside : ∀ bufId, r.node.jobs.hand.pc ≠ .kernels bufId
  reading : r.Reading 0
  place : (r.node.jobs.hand.batchSet 0).senderBufId = slot 1
  round : givenRound r.node.jobs 0 = 1
  searchJobs : r.searchJobs 0 (slot 1) = SearchJobs.add ⟨fun _ => ⟨0, 0⟩, 0⟩ storedQuery
  apart : r.node.Apart Hash.gpuHash 1 0 storedQuery
  queued : r.node.jobs.queued 1 = pairQueued elem
  passed : ⟨0, 0, pairQueued elem⟩ ∈ r.node.jobs.passes 1
  found : r.searchOut 0 (slot 1) 0 = 1

theorem Asked.reread (asked : Asked r elem) : ∃ s, Reread s elem := by
  obtain ⟨u, run, after, searchJobs, stage, found, table⟩ := round_serial asked.reached rfl asked.stage
  have ran : PairReaches u := run_reachable asked.reached run
  have same : u = u.setHand (duo ⟨2, -1, 0, -1, 1, 0⟩ ⟨2, 0, -1, -1, 1, 0⟩ .waiting .waiting (.give 0) 1) := by
    rw [Server.setHand, show duo _ _ _ _ _ _ = u.node.jobs.hand by rw [after]; rfl]
  rw [same] at ran
  have given := pair_hand ran (duo_giveFirst rfl) (by intro _ turn; cases turn) fun _ same => same
  have got := pair_hand given (duo_getFirst (by decide)) (fun _ turn => turn) fun worker holding =>
    absurd holding (pairOf_ne SenderPc.noConfusion SenderPc.noConfusion worker)
  have kernels : u.node.kernels = reusedKernels elem := by
    have none : roundKernels (r.setHand askedHand).node.jobs 1 0 = [] := vacant_kernels asked.vacant
    rw [after]
    exact (congrArg (r.node.kernels ++ ·) none).trans ((List.append_nil _).trans asked.kernels)
  have reading : Server.Reading (u.setHand (duo ⟨2, 1, 0, -1, -1, 0⟩ ⟨2, 0, -1, -1, 1, 0⟩ .holding .waiting (.give 1) 1)) 0 := by
    refine ⟨rfl, ?_⟩
    have fresh : u.node.jobs.refreshed = _ := congrArg (fun node => node.jobs.refreshed) after
    exact (congrFun fresh 0).trans asked.refreshed
  have jobs : u.searchJobs 0 (slot 1) = SearchJobs.add ⟨fun _ => ⟨0, 0⟩, 0⟩ storedQuery := by
    rw [searchJobs]
    exact asked.searchJobs
  have apart : u.node.Apart Hash.gpuHash 1 0 storedQuery := by
    intro run member round
    rw [kernels] at member
    simp only [reusedKernels, List.mem_cons, List.not_mem_nil, or_false] at member
    rcases member with rfl | rfl | rfl <;> cases round
  refine ⟨_, got, ?_, reading, rfl, rfl, jobs, apart, ?_, ?_, ?_⟩
  · rintro bufId ⟨⟩
  · have queued : u.node.jobs.queued = _ := congrArg (fun node => node.jobs.queued) after
    exact (congrFun (queued.trans asked.queued) 1).trans rfl
  · have passes : u.node.jobs.passes = _ := congrArg (fun node => node.jobs.passes) after
    change _ ∈ u.node.jobs.passes 1
    rw [passes]
    exact List.mem_append_left _ asked.passed
  · obtain ⟨_, delivered⟩ := reading_delivered got reading
    have looked := delivered.looked 0
    rw [show givenRound _ 0 = 1 from rfl] at looked
    have table : u.found 1 = Hash.performAll (Hash.zeroTable Hash.gpuHash) (kernelsOps (reusedKernels elem)) := by
      rw [found]
      exact (Function.update_self ..).trans asked.table
    change ∀ inside : 0 < (u.searchJobs 0 (slot 1)).numSearchJob,
      u.node.Apart Hash.gpuHash 1 0 ((u.searchJobs 0 (slot 1)).searchIn 0) →
        Hash.LookedUp (u.found 1) ((u.searchJobs 0 (slot 1)).searchIn 0) 0 (u.searchOut 0 (slot 1)) at looked
    rw [jobs, table] at looked
    obtain ⟨simdLane, stored⟩ := @stored_twice Hash.gpuHash elem
    exact (looked Nat.one_pos apart).stored (Hash.unique_all _) (by decide) stored

theorem reread_exists : ∃ r elem, Reread r elem := by
  obtain ⟨r, elem, stored⟩ := stored_exists
  obtain ⟨q, asked⟩ := stored.asked
  obtain ⟨s, reread⟩ := asked.reread
  exact ⟨s, elem, reread⟩

end Reread

end MegaKV.Store
