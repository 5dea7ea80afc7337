import MegaKV.Store.Answers
import MegaKV.Store.Tally

namespace MegaKV.Store

open Library Slab Scheduler

variable {workers : Nat} {g : Hash.Geometry} {s t : Server workers g} {worker : Worker workers} {bufId : Int}
  {initial : Worker workers → Nat → Hash.Loc}

section Turns

variable (workers g) in
abbrev Turns := List (Turn (Lanes workers) (Hash.Work g (Worker workers)))

/-- What the lanes of a worker's kernels begin to do to the index. -/
def begunOf (worker : Worker workers) : Turn (Lanes workers) (Hash.Work g (Worker workers)) → Option Hash.Op
  | .start lanes work => if lanes.1 = worker then workOp work else none
  | .access _ => none

def begunBy (worker : Worker workers) (turns : Turns workers g) : List Hash.Op :=
  turns.filterMap (begunOf worker)

def deviceAfter (initial : Worker workers → Nat → Hash.Loc) (turns : Turns workers g) :
    Pool (Lanes workers) (Hash.Task g (Worker workers)) (Hash.Device g (Worker workers)) :=
  (Hash.blankDevice (Lanes workers) initial).turns Hash.begin Hash.access turns

def turnsBefore (past : Nat → Turns workers g) (r : Nat) : Turns workers g := (List.range r).flatMap past

variable {past : Nat → Turns workers g} {now more : Turns workers g}

theorem begunBy_append : begunBy worker (now ++ more) = begunBy worker now ++ begunBy worker more :=
  List.filterMap_append

theorem deviceAfter_append :
    deviceAfter initial (now ++ more) = (deviceAfter initial now).turns Hash.begin Hash.access more :=
  Pool.turns_append now more

theorem turnsBefore_succ (r : Nat) : turnsBefore past (r + 1) = turnsBefore past r ++ past r := by
  rw [turnsBefore, List.range_succ, List.flatMap_append, List.flatMap_singleton, turnsBefore]

theorem turnsBefore_update {r changed : Nat} (earlier : r ≤ changed) :
    turnsBefore (Function.update past changed now) r = turnsBefore past r := by
  apply List.flatMap_congr
  intro other inside
  have below := List.mem_range.mp inside
  exact Function.update_of_ne (by omega) _ _

end Turns

section Invariant

variable (s) (initial)

def Server.ops (worker : Worker workers) : List StreamOp := (s.stream worker).map fun command => command.launch.op

/-- The device has come about by the turns of the past rounds and of this one. In each round the lanes of a worker's
    kernels have begun with all the worker's jobs of that round, each once. -/
structure Conserved (past : Nat → Turns workers g) (now : Turns workers g) : Prop where
  device : s.device = deviceAfter initial (turnsBefore past (countedRound s.node.jobs.hand) ++ now)
  granted : (Hash.blankDevice (Lanes workers) initial).Granted Hash.begin Hash.access
    (turnsBefore past (countedRound s.node.jobs.hand) ++ now)
  found : ∀ r < countedRound s.node.jobs.hand, s.found r = (deviceAfter initial (turnsBefore past r)).store.table ∧
    ∀ lanes, (deviceAfter initial (turnsBefore past r)).task lanes = none
  rounds : ∀ worker, (s.node.jobs.passes worker).map Pass.round = List.range (countedRound s.node.jobs.hand)
  begun : ∀ worker, ∀ pass ∈ s.node.jobs.passes worker, (begunBy worker (past pass.round)).Perm (pass.jobs.map jobOp)
  resting : (∀ bufId, s.node.jobs.hand.pc ≠ .kernels bufId) → now = []
  fresh : s.stage = .search 0 → now = []
  recorded : ∀ bufId, s.node.jobs.hand.pc = .kernels bufId → s.stage ≠ .search 0 →
    s.found s.node.jobs.hand.round = (deviceAfter initial (turnsBefore past s.node.jobs.hand.round)).store.table ∧
      ∀ lanes, (deviceAfter initial (turnsBefore past s.node.jobs.hand.round)).task lanes = none
  tally : ∀ bufId, s.node.jobs.hand.pc = .kernels bufId → ∀ worker,
    Tally (s.node.jobs.buf worker bufId) worker s.stage (s.ops worker) (s.kernel worker) (begunBy worker now)

end Invariant

section Steps

variable {past : Nat → Turns workers g} {now more : Turns workers g}

theorem countedRound_kernels {hand : State workers} (turn : hand.pc = .kernels bufId) : countedRound hand = hand.round := by
  rw [countedRound, turn]

/-- A step on the streams or on the device. -/
theorem Conserved.goesOn (conserved : Conserved s initial past now) (turn : s.node.jobs.hand.pc = .kernels bufId)
    (node : t.node = s.node) (found : t.found = s.found) (begun : s.stage ≠ .search 0) (stage : t.stage ≠ .search 0)
    (device : t.device = s.device.turns Hash.begin Hash.access more)
    (granted : s.device.Granted Hash.begin Hash.access more)
    (tally : ∀ worker, Tally (s.node.jobs.buf worker bufId) worker t.stage (t.ops worker) (t.kernel worker)
      (begunBy worker (now ++ more))) :
    Conserved t initial past (now ++ more) := by
  refine ⟨?_, ?_, ?_, ?_, ?_, ?_, fun start => absurd start stage, ?_, ?_⟩
  · rw [node, device, ← List.append_assoc, conserved.device]
    exact deviceAfter_append.symm
  · rw [node, ← List.append_assoc]
    apply Pool.granted_append conserved.granted
    have same := conserved.device
    rw [deviceAfter] at same
    rw [← same]
    exact granted
  · rw [node, found]
    exact conserved.found
  · rw [node]
    exact conserved.rounds
  · rw [node]
    exact conserved.begun
  · intro outside
    rw [node] at outside
    exact absurd turn (outside bufId)
  · intro other here _
    rw [node] at here ⊢
    rw [found]
    exact conserved.recorded other here begun
  · intro other here
    rw [node, turn] at here
    cases here
    rw [node]
    exact tally

/-- A step on the streams alone. -/
theorem Conserved.launches (conserved : Conserved s initial past now) (turn : s.node.jobs.hand.pc = .kernels bufId)
    (node : t.node = s.node) (found : t.found = s.found) (begun : s.stage ≠ .search 0) (stage : t.stage ≠ .search 0)
    (device : t.device = s.device)
    (tally : ∀ worker, Tally (s.node.jobs.buf worker bufId) worker t.stage (t.ops worker) (t.kernel worker)
      (begunBy worker now)) :
    Conserved t initial past now := by
  have after := @Conserved.goesOn _ _ s t bufId initial past now [] conserved turn node found begun stage device trivial
  simp only [List.append_nil] at after
  exact after tally

/-- The buffers of the round stay, and no kernels of a round are completed. -/
theorem Conserved.mono (conserved : Conserved s initial past now)
    (rest : (t.device, t.stream, t.kernel, t.stage, t.found) = (s.device, s.stream, s.kernel, s.stage, s.found))
    (counted : countedRound t.node.jobs.hand = countedRound s.node.jobs.hand)
    (passes : t.node.jobs.passes = s.node.jobs.passes)
    (turn : ∀ bufId, s.node.jobs.hand.pc = .kernels bufId → t.node.jobs.hand.pc = .kernels bufId)
    (bufs : ∀ bufId, s.node.jobs.hand.pc = .kernels bufId →
      ∀ worker, t.node.jobs.buf worker bufId = s.node.jobs.buf worker bufId)
    (enter : (∀ bufId, s.node.jobs.hand.pc ≠ .kernels bufId) →
      s.stage = .search 0 ∧ ∀ worker, s.stream worker = [] ∧ s.kernel worker = none) :
    Conserved t initial past now := by
  simp only [Prod.mk.injEq] at rest
  obtain ⟨device, stream, kernel, stage, found⟩ := rest
  have ops : ∀ worker, t.ops worker = s.ops worker := by
    intro worker
    rw [Server.ops, stream, Server.ops]
  have before : ∀ bufId, t.node.jobs.hand.pc = .kernels bufId →
      (∀ bufId, s.node.jobs.hand.pc ≠ .kernels bufId) ∨ s.node.jobs.hand.pc = .kernels bufId := by
    intro bufId here
    by_cases inside : ∃ before, s.node.jobs.hand.pc = .kernels before
    · obtain ⟨before, was⟩ := inside
      cases (turn before was).symm.trans here
      exact .inr was
    · exact .inl fun before was => inside ⟨before, was⟩
  refine ⟨?_, ?_, ?_, ?_, ?_, ?_, ?_, ?_, ?_⟩
  · rw [device, counted]
    exact conserved.device
  · rw [counted]
    exact conserved.granted
  · rw [counted, found]
    exact conserved.found
  · rw [counted, passes]
    exact conserved.rounds
  · rw [passes]
    exact conserved.begun
  · intro outside
    exact conserved.resting fun bufId here => outside bufId (turn bufId here)
  · rw [stage]
    exact conserved.fresh
  · intro bufId here started
    rw [stage] at started
    rcases before bufId here with outside | was
    · exact absurd (enter outside).1 started
    · have same : t.node.jobs.hand.round = s.node.jobs.hand.round := by
        rw [← countedRound_kernels here, counted, countedRound_kernels was]
      rw [same, found]
      exact conserved.recorded bufId was started
  · intro bufId here worker
    rw [stage, ops, kernel]
    rcases before bufId here with outside | was
    · obtain ⟨start, idle⟩ := enter outside
      rw [start, Server.ops, (idle worker).1, (idle worker).2, conserved.resting outside]
      exact .enter _ worker
    · rw [bufs bufId was worker]
      exact conserved.tally bufId was worker

/-- A step of the node that completes no kernels leaves the passes on record. -/
theorem passes_step {before after : Node workers} (step : NodeStep 0 before after)
    (noKernels : ∀ bufId, before.jobs.hand.pc = .kernels bufId → after.jobs.hand.pc = .kernels bufId) :
    after.jobs.passes = before.jobs.passes := by
  cases step with
  | refill worker supply size itList m bufs empty result =>
    exact (queueDeletes_frame worker (before.countedDeletes worker bufs) before).2.2.2.2
  | set worker build v key nkey nbyte bytes sig it m batch read signature taken =>
    have same : before.set build worker nkey nbyte bytes sig it m batch =
        (before.filled worker nkey nbyte bytes it m batch).insertJob build worker it nkey nbyte sig := rfl
    rw [same, Node.insertJob]
    split
    · rfl
    · split
      · rfl
      · rfl
  | touch id pos bound => rfl
  | hand t step _ noPush => rfl
  | launch bufId turn => cases noKernels bufId turn
  | refresh worker turn fresh => rfl
  | push worker batch turn fresh pushed => rfl

theorem Conserved.aside {after : Node workers} (conserved : Conserved s initial past now) (serving : s.Serving)
    (known : s.Known) (step : NodeStep 0 s.node after)
    (noKernels : ∀ bufId, s.node.jobs.hand.pc = .kernels bufId → after.jobs.hand.pc = .kernels bufId)
    (noRefresh : ∀ worker, s.node.jobs.refreshed worker = false → after.jobs.refreshed worker = false) :
    Conserved { s with node := after } initial past now := by
  have aside := node_aside step known.lock known.accounted.clean noKernels noRefresh
  apply conserved.mono (t := { s with node := after }) rfl _ (passes_step step noKernels) noKernels
  · intro bufId turn worker
    obtain ⟨taken, place⟩ := known.taken turn worker
    exact aside.bufs worker bufId (place ▸ (known.receiver_apart worker).1 taken)
  · intro outside
    obtain ⟨stage, none⟩ := serving.resting outside
    exact ⟨stage, fun worker => ⟨known.idle outside worker, (none worker).1⟩⟩
  · rcases aside.hand with same | moved
    · exact congrArg countedRound same
    · exact countedRound_hand moved noKernels

theorem Conserved.refresh (conserved : Conserved s initial past now) (serving : s.Serving) (known : s.Known)
    (turn : s.node.jobs.hand.senders worker = .holding) : Conserved (s.refresh worker) initial past now := by
  apply conserved.mono (t := s.refresh worker) rfl rfl rfl fun _ here => here
  · intro bufId here other
    obtain ⟨_, place⟩ := known.taken here other
    apply setBuf_changed
    rw [known.lock.sender_slot turn]
    intro same
    obtain ⟨rfl, slots⟩ := Prod.mk.inj same
    rw [← place] at slots
    exact (slot_distinct (roundOf s.node.jobs other)).2.2 slots
  · intro outside
    obtain ⟨stage, none⟩ := serving.resting outside
    exact ⟨stage, fun other => ⟨known.idle outside other, (none other).1⟩⟩

end Steps

section Launches

variable {past : Nat → Turns workers g} {now : Turns workers g} {counts : Counts} {round : Nat}

theorem launch_ops (list : List Command) (stage : Stage workers) (other : Worker workers) :
    (s.launch worker list stage).ops other =
      if other = worker then s.ops worker ++ list.map (fun command => command.launch.op) else s.ops other := by
  split
  · rename_i here
    simp only [here, Server.ops, Server.launch, Function.update_self, List.map_append]
  · rename_i different
    simp only [Server.ops, Server.launch, Function.update_of_ne different]

theorem searchCommands_count (kind : KernelKind) :
    ((searchCommands counts round bufId).map fun command => command.launch.op).count (kernelOp kind) = 0 := by
  rw [searchCommands, searchLaunches]
  split
  · rfl
  · rw [commands_ops]
    cases kind <;> rfl

theorem deleteCommands_count (kind : KernelKind) :
    ((deleteCommands counts round bufId).map fun command => command.launch.op).count (kernelOp kind) =
      if kind = .delete ∧ counts.numDeleteJob ≠ 0 then 1 else 0 := by
  rw [deleteCommands, deleteLaunches]
  split
  · rename_i none
    rw [if_neg fun both => both.2 none]
    rfl
  · rename_i some
    rw [commands_ops]
    cases kind with
    | delete =>
      rw [if_pos ⟨rfl, some⟩]
      rfl
    | insert => rfl

theorem insertCommands_count (kind : KernelKind) :
    ((insertCommands counts round bufId).map fun command => command.launch.op).count (kernelOp kind) =
      if kind = .insert ∧ counts.numInsertJob ≠ 0 then 1 else 0 := by
  have copies : ∀ (op : StreamOp) (blocks : List Nat), (∀ block, op ≠ .copyInsertIn block) →
      (blocks.map StreamOp.copyInsertIn).count op = 0 := by
    intro op blocks another
    apply List.count_eq_zero.mpr
    intro member
    obtain ⟨block, _, same⟩ := List.mem_map.mp member
    exact another block same.symm
  rw [insertCommands, insertLaunches]
  split
  · rename_i none
    rw [if_neg fun both => both.2 none]
    rfl
  · rename_i some
    rw [commands_ops, List.count_append]
    cases kind with
    | delete =>
      rw [copies _ _ fun _ => StreamOp.noConfusion]
      rfl
    | insert =>
      rw [copies _ _ fun _ => StreamOp.noConfusion, if_pos ⟨rfl, some⟩]
      rfl

/-- The scheduler goes through the workers. -/
theorem nextWorker_le {again : Worker workers → Stage workers} {next : Stage workers} {current : Worker workers}
    {early : Stage workers → Prop} (turns : ∀ current, early (again current) ↔ current ≤ worker) (last : ¬early next) :
    early (.nextWorker current again next) ↔ current < worker := by
  unfold Stage.nextWorker
  cases more : following current with
  | none =>
    have position := following_none more
    have bound := worker.isLt
    refine iff_of_false last ?_
    rw [Fin.lt_def]
    omega
  | some following =>
    have position := following_some more
    rw [turns, Fin.le_def, Fin.lt_def]
    omega

theorem unlaunched_search (kind : KernelKind) (current : Worker workers) :
    Unlaunched worker kind (.nextWorker current .search .decide) ↔ Unlaunched worker kind (.search current) := by
  apply iff_of_true _ trivial
  unfold Stage.nextWorker
  split
  · trivial
  · trivial

theorem unlaunched_delete (current : Worker workers) :
    Unlaunched worker .delete (.nextWorker current .delete (.insert 0)) ↔ current < worker :=
  nextWorker_le (fun _ => Iff.rfl) id

theorem unlaunched_insert (current : Worker workers) :
    Unlaunched worker .insert (.nextWorker current .insert .synchronize) ↔ current < worker :=
  nextWorker_le (fun _ => Iff.rfl) id

/-- The kernel that runs is on its stream. -/
theorem Server.Working.waits {complete : StreamOp → Prop} (working : s.Working bufId worker complete)
    {running : RunningKernel workers g} (here : s.kernel worker = some running) : running.op ∈ s.ops worker := by
  obtain ⟨_, command, rest, waiting, op⟩ := working.running running here
  rw [Server.ops, waiting, ← op]
  exact List.mem_cons_self

theorem Conserved.search (conserved : Conserved s initial past now) (serving : s.Serving)
    (turn : s.node.jobs.hand.pc = .kernels bufId) (stage : s.stage = .search worker) : Conserved (s.launchSearch worker bufId) initial past now := by
  have later : Stage.nextWorker worker .search .decide ≠ .search 0 := ne_start_of_searched (searched_next worker)
  have tally : ∀ other, Tally (s.node.jobs.buf other bufId) other (.nextWorker worker .search .decide)
      ((s.launchSearch worker bufId).ops other) (s.kernel other) (begunBy other now) := by
    intro other
    have before := conserved.tally bufId turn other
    rw [stage] at before
    apply before.stays (fun kind => unlaunched_search kind worker) _ fun _ _ _ => Iff.rfl
    intro kind
    have ops : (s.launchSearch worker bufId).ops other = _ := launch_ops (s := s) _ (.nextWorker worker .search .decide) other
    rw [ops]
    split
    · rename_i here
      rw [here, List.count_append, searchCommands_count, Nat.add_zero]
    · rfl
  by_cases first : worker = 0
  · subst first
    have nothing := conserved.fresh stage
    have counted := countedRound_kernels turn
    have earlier : ∀ r < s.node.jobs.hand.round, (s.launchSearch 0 bufId).found r = s.found r := by
      intro r before
      simp only [Server.launchSearch, ite_true, Function.update_of_ne (Nat.ne_of_lt before)]
    refine ⟨conserved.device, conserved.granted, ?_, conserved.rounds, conserved.begun, conserved.resting,
      fun start => absurd start later, ?_, ?_⟩
    · intro r before
      have same := earlier r (counted ▸ before)
      rw [same]
      exact conserved.found r before
    · intro other _ _
      have device := conserved.device
      rw [counted, nothing, List.append_nil] at device
      have node : (s.launchSearch 0 bufId).node = s.node := rfl
      rw [node, ← device]
      refine ⟨?_, ?_⟩
      · simp only [Server.launchSearch, ite_true]
        exact Function.update_self _ _ _
      · rintro ⟨owner, place⟩
        obtain ⟨complete, working⟩ := serving.working bufId turn
        have unsearched : ¬Searched owner s.stage := by
          rw [stage]
          exact Fin.not_lt_zero owner
        exact ((working owner).over ((working owner).stream.fresh unsearched).2).2 place
    · intro other here
      cases turn.symm.trans here
      exact tally
  · have begun : s.stage ≠ .search 0 := by
      rw [stage]
      intro start
      cases start
      exact first rfl
    have found : (s.launchSearch worker bufId).found = s.found := by
      simp only [Server.launchSearch, first, ite_false]
    exact conserved.launches (t := s.launchSearch worker bufId) turn rfl found begun later rfl tally

theorem Conserved.stage (conserved : Conserved s initial past now) (turn : s.node.jobs.hand.pc = .kernels bufId)
    {stage : Stage workers} (begun : s.stage ≠ .search 0) (later : stage ≠ .search 0)
    (launched : ∀ worker kind, Unlaunched worker kind stage ↔ Unlaunched worker kind s.stage) :
    Conserved { s with stage := stage } initial past now := by
  apply conserved.launches (t := { s with stage := stage }) turn rfl rfl begun later rfl
  exact fun worker =>
    (conserved.tally bufId turn worker).stays (launched worker) (fun _ => rfl) fun _ _ _ => Iff.rfl

/-- The launches for the jobs of one kind. -/
theorem Conserved.launch (conserved : Conserved s initial past now) (serving : s.Serving)
    (turn : s.node.jobs.hand.pc = .kernels bufId) {list : List Command} {stage : Stage workers} (kind : KernelKind)
    (begun : s.stage ≠ .search 0) (later : stage ≠ .search 0)
    (before : ∀ other, Unlaunched other kind s.stage ↔ worker ≤ other)
    (behind : ∀ other, Unlaunched other kind stage ↔ worker < other)
    (frame : ∀ other another, another ≠ kind → (Unlaunched other another stage ↔ Unlaunched other another s.stage))
    (count : ∀ another, (list.map fun command => command.launch.op).count (kernelOp another) =
      if another = kind ∧ jobsOf (s.node.jobs.buf worker bufId) kind ≠ [] then 1 else 0) :
    Conserved (s.launch worker list stage) initial past now := by
  obtain ⟨complete, working⟩ := serving.working bufId turn
  apply conserved.launches (t := s.launch worker list stage) turn rfl rfl begun later rfl
  intro other
  have tally := conserved.tally bufId turn other
  have kernel : (s.launch worker list stage).kernel = s.kernel := rfl
  have next : (s.launch worker list stage).stage = stage := rfl
  rw [launch_ops, kernel, next]
  by_cases here : other = worker
  · subst here
    rw [if_pos rfl]
    apply tally.launch ((before other).mpr le_rfl) (fun early => lt_irrefl other ((behind other).mp early))
      fun running present => (working other).waits present
    · rw [count kind]
      by_cases none : jobsOf (s.node.jobs.buf other bufId) kind = []
      · simp [none]
      · simp [none]
    · intro another different
      refine ⟨frame other another different, ?_⟩
      rw [count another, if_neg fun both => different both.1]
  · rw [if_neg here]
    apply tally.stays _ (fun _ => rfl) fun _ _ _ => Iff.rfl
    intro another
    by_cases same : another = kind
    · subst same
      rw [before, behind]
      exact ⟨le_of_lt, fun below => lt_of_le_of_ne below (Ne.symm here)⟩
    · exact frame other another same

theorem jobsOf_delete_nil {buf : JobBuf} : jobsOf buf .delete = [] ↔ buf.numDeleteJob = 0 := by
  rw [jobsOf, JobBuf.deletes, List.map_eq_nil_iff, List.range_eq_nil]

theorem jobsOf_insert_nil {buf : JobBuf} (counted : buf.Counted) : jobsOf buf .insert = [] ↔ buf.numInsertJob = 0 := by
  rw [jobsOf, counted.inserts, List.length_eq_zero_iff]

theorem nextWorker_ne_search {next : Stage workers} {again : Worker workers → Stage workers}
    (runs : ∀ current, again current ≠ .search 0) (goesOn : next ≠ .search 0) :
    Stage.nextWorker worker again next ≠ .search 0 := by
  unfold Stage.nextWorker
  split
  · exact runs _
  · exact goesOn

theorem Conserved.delete (conserved : Conserved s initial past now) (serving : s.Serving)
    (turn : s.node.jobs.hand.pc = .kernels bufId) (stage : s.stage = .delete worker) :
    Conserved (s.launch worker (deleteCommands (s.counts worker bufId) s.node.jobs.hand.round bufId)
      (.nextWorker worker .delete (.insert 0))) initial past now := by
  apply conserved.launch serving turn .delete
  · rw [stage]
    rintro ⟨⟩
  · exact nextWorker_ne_search (by rintro current ⟨⟩) (by rintro ⟨⟩)
  · rw [stage]
    exact fun other => Iff.rfl
  · exact fun other => unlaunched_delete worker
  · rw [stage]
    intro other another different
    cases another with
    | delete => exact absurd rfl different
    | insert =>
      apply iff_of_true _ trivial
      unfold Stage.nextWorker
      split
      · trivial
      · exact Fin.zero_le other
  · intro another
    simp only [deleteCommands_count, ne_eq, jobsOf_delete_nil]
    rfl

theorem Conserved.insert (conserved : Conserved s initial past now) (serving : s.Serving) (known : s.Known)
    (turn : s.node.jobs.hand.pc = .kernels bufId) (stage : s.stage = .insert worker) :
    Conserved (s.launch worker (insertCommands (s.counts worker bufId) s.node.jobs.hand.round bufId)
      (.nextWorker worker .insert .synchronize)) initial past now := by
  apply conserved.launch serving turn .insert
  · rw [stage]
    rintro ⟨⟩
  · exact nextWorker_ne_search (by rintro current ⟨⟩) (by rintro ⟨⟩)
  · rw [stage]
    exact fun other => Iff.rfl
  · exact fun other => unlaunched_insert worker
  · rw [stage]
    intro other another different
    cases another with
    | insert => exact absurd rfl different
    | delete =>
      apply iff_of_false _ id
      unfold Stage.nextWorker
      split
      · exact id
      · exact id
  · intro another
    simp only [insertCommands_count, ne_eq, jobsOf_insert_nil (known.accounted.counted worker bufId)]
    rfl

end Launches

section Kernels

variable {past : Nat → Turns workers g} {now : Turns workers g} {command : Command} {rest : List Command}

/-- With commands on a stream the launches of the round have begun. -/
theorem Server.Working.launching {complete : StreamOp → Prop} (working : s.Working bufId worker complete)
    (waiting : s.stream worker = command :: rest) : s.stage ≠ .search 0 := by
  apply @ne_start_of_searched _ worker
  by_contra unsearched
  have empty := (working.stream.fresh unsearched).2
  rw [waiting] at empty
  cases empty

theorem setStream_ops (other : Worker workers) :
    (s.setStream worker rest).ops other = if other = worker then rest.map (fun command => command.launch.op) else s.ops other := by
  split
  · rename_i here
    simp only [here, Server.ops, Server.setStream, Function.update_self]
  · rename_i different
    simp only [Server.ops, Server.setStream, Function.update_of_ne different]

theorem Conserved.transfer (conserved : Conserved s initial past now) (serving : s.Serving) (known : s.Known)
    (waiting : s.stream worker = command :: rest) (transfers : ¬IsKernel command.launch.op) :
    ∃ later, Conserved ((s.transfer worker command).setStream worker rest) initial past later := by
  obtain ⟨bufId, turn⟩ := known.busy waiting
  obtain ⟨complete, working⟩ := serving.working bufId turn
  have begun := (working worker).launching waiting
  obtain ⟨_, idle⟩ := (working worker).idle waiting transfers
  have free : s.device.task (worker, 0, 0) = none := idle (0, 0)
  have tally : ∀ other, Tally (s.node.jobs.buf other bufId) other s.stage ((s.setStream worker rest).ops other)
      (s.kernel other) (begunBy other now) := by
    intro other
    have before := conserved.tally bufId turn other
    rw [setStream_ops]
    split
    · rename_i here
      subst here
      rw [Server.ops, waiting, List.map_cons] at before
      exact before.pop transfers
    · exact before
  by_cases clear : command.launch.op = .clearSearchOut
  · rw [transfer_turns clear]
    refine ⟨now ++ [.start (worker, 0, 0) (.clear worker (command.num 0)), .access (worker, 0, 0)],
      conserved.goesOn turn rfl rfl begun begun rfl ⟨?_, ?_, trivial⟩ ?_⟩
    · rintro who work ⟨⟩
      exact free
    · rintro who work ⟨⟩
    · intro other
      have none : begunBy (g := g) other
          [.start (worker, 0, 0) (.clear worker (command.num 0)), .access (worker, 0, 0)] = [] := by
        by_cases here : worker = other <;> simp [begunBy, begunOf, workOp, here]
      rw [begunBy_append, none, List.append_nil]
      exact tally other
  · by_cases copy : command.launch.op = .copySearchOut
    · rw [transfer_results copy]
      exact ⟨now, conserved.launches turn rfl rfl begun begun rfl tally⟩
    · rw [transfer_copy clear copy]
      exact ⟨now, conserved.launches turn rfl rfl begun begun rfl tally⟩

theorem Conserved.begin (conserved : Conserved s initial past now) (serving : s.Serving) (known : s.Known)
    (schedule : Nat → Hash.Schedule g) (waiting : s.stream worker = command :: rest) (works : IsKernel command.launch.op)
    (idle : s.kernel worker = none) :
    Conserved (s.setKernel worker (some ⟨command.launch.op,
      (s.deviceBuf worker).works worker command.num schedule command.launch.op⟩)) initial past now := by
  obtain ⟨bufId, turn⟩ := known.busy waiting
  obtain ⟨complete, working⟩ := serving.working bufId turn
  have begun := (working worker).launching waiting
  have fits := (working worker).stream
  rw [waiting] at fits
  obtain ⟨_, num⟩ := fits.called command List.mem_cons_self
  refine conserved.launches turn rfl rfl begun begun rfl ?_
  intro other
  have before := conserved.tally bufId turn other
  by_cases here : other = worker
  · subst here
    simp only [Server.setKernel, Function.update_self]
    have ops : s.ops other = command.launch.op :: rest.map fun command => command.launch.op := by
      rw [Server.ops, waiting, List.map_cons]
    rw [idle, ops] at before
    rw [num]
    have after := before.begin works
      (fun op need => (working other).kernel.loaded op (fits.ordered.1 op need)) schedule
    rw [← ops] at after
    exact after
  · simp only [Server.setKernel, Function.update_of_ne here]
    exact before

theorem Conserved.start (conserved : Conserved s initial past now) (serving : s.Serving)
    {running : RunningKernel workers g} {place : Nat × Nat} {work : Hash.Work g (Worker workers)}
    (here : s.kernel worker = some running) (unstarted : running.unstarted place = some work) :
    Conserved ((s.turn (.start (worker, place) work)).setKernel worker
      (some { running with unstarted := Function.update running.unstarted place none })) initial past
      (now ++ [.start (worker, place) work]) := by
  obtain ⟨bufId, turn⟩ := serving.inRound here
  obtain ⟨complete, working⟩ := serving.working bufId turn
  obtain ⟨works, command, rest, waiting, op⟩ := (working worker).running running here
  obtain ⟨takes, free⟩ := (working worker).kernel.takes running here place work unstarted
  have begun := (working worker).launching waiting
  refine conserved.goesOn turn rfl rfl begun begun rfl ⟨?_, trivial⟩ ?_
  · rintro who other ⟨⟩
    exact free
  · intro other
    have before := conserved.tally bufId turn other
    rw [begunBy_append]
    by_cases same : other = worker
    · subst same
      have one : begunBy other [.start (other, place) work] = (workOp work).toList := by
        simp [begunBy, begunOf, List.filterMap_cons]
        cases workOp work <;> rfl
      simp only [Server.setKernel, Function.update_self, one]
      rw [here] at before
      exact before.start works ((working other).waits here) unstarted takes
    · have none : begunBy other [.start (worker, place) work] = [] := by
        simp [begunBy, begunOf, Ne.symm same]
      simp only [Server.setKernel, Function.update_of_ne same, none, List.append_nil]
      exact before

theorem Conserved.access (conserved : Conserved s initial past now) (serving : s.Serving) (lanes : Lanes workers) :
    ∃ later, Conserved (s.turn (.access lanes)) initial past later := by
  obtain ⟨worker, place⟩ := lanes
  cases busy : s.tasks worker place with
  | none =>
    have same : s.turn (.access (worker, place)) = s := by
      have free : s.device.task (worker, place) = none := busy
      simp only [Server.turn, Pool.turn, free]
    rw [same]
    exact ⟨now, conserved⟩
  | some found =>
    have inside : ∃ bufId, s.node.jobs.hand.pc = .kernels bufId := by
      by_contra outside
      have idle := ((serving.resting fun bufId turn => outside ⟨bufId, turn⟩).2 worker).2 place
      rw [busy] at idle
      cases idle
    obtain ⟨bufId, turn⟩ := inside
    obtain ⟨complete, working⟩ := serving.working bufId turn
    obtain ⟨running, here, _⟩ := (working worker).kernel.tends place found busy
    obtain ⟨_, command, rest, waiting, _⟩ := (working worker).running running here
    have begun := (working worker).launching waiting
    refine ⟨now ++ [.access (worker, place)], conserved.goesOn turn rfl rfl begun begun rfl ⟨?_, trivial⟩ ?_⟩
    · rintro who work ⟨⟩
    · intro other
      have none : begunBy (g := g) other [.access (worker, place)] = [] := rfl
      rw [begunBy_append, none, List.append_nil]
      exact conserved.tally bufId turn other

theorem Conserved.finish (conserved : Conserved s initial past now) (serving : s.Serving) (known : s.Known)
    {running : RunningKernel workers g} (waiting : s.stream worker = command :: rest)
    (here : s.kernel worker = some running) (started : ∀ place, running.unstarted place = none) :
    Conserved ((s.setKernel worker none).setStream worker rest) initial past now := by
  obtain ⟨bufId, turn⟩ := known.busy waiting
  obtain ⟨complete, working⟩ := serving.working bufId turn
  obtain ⟨works, first, others, same, op⟩ := (working worker).running running here
  rw [waiting] at same
  cases same
  have begun := (working worker).launching waiting
  refine conserved.launches turn rfl rfl begun begun rfl ?_
  intro other
  have before := conserved.tally bufId turn other
  rw [setStream_ops]
  by_cases same : other = worker
  · subst same
    rw [Server.ops, waiting, List.map_cons, here] at before
    rw [if_pos rfl]
    simp only [Server.setStream, Server.setKernel, Function.update_self]
    exact before.finish (op ▸ works) op started
  · rw [if_neg same]
    simp only [Server.setStream, Server.setKernel, Function.update_of_ne same]
    exact before

/-- The round is over. -/
theorem Conserved.kernels (conserved : Conserved s initial past now) (known : s.Known)
    (turn : s.node.jobs.hand.pc = .kernels bufId) (stage : s.stage = .done) :
    Conserved { s with node := s.node.launch 0 bufId, stage := .search 0 } initial
      (Function.update past s.node.jobs.hand.round now) [] := by
  have counted := countedRound_kernels turn
  have next : countedRound (s.node.launch 0 bufId).jobs.hand = s.node.jobs.hand.round + 1 := rfl
  have before : turnsBefore (Function.update past s.node.jobs.hand.round now) s.node.jobs.hand.round =
      turnsBefore past s.node.jobs.hand.round := turnsBefore_update le_rfl
  have all : turnsBefore (Function.update past s.node.jobs.hand.round now) (s.node.jobs.hand.round + 1) =
      turnsBefore past s.node.jobs.hand.round ++ now := by
    rw [turnsBefore_succ, before, Function.update_self]
  have down := countedDown_reachable (jobs_hand (consistent_reachable known.reached).jobs)
  rw [CountedDown, counted] at down
  have passes : ∀ worker, (s.node.launch 0 bufId).jobs.passes worker =
      s.node.jobs.passes worker ++ [⟨s.node.jobs.hand.round, bufId, (s.node.jobs.buf worker bufId).launched⟩] :=
    fun worker => kernels_passes_run down (runsInsDel_zero _) worker
  have empty : ∀ worker, s.ops worker = [] := by
    intro worker
    rw [Server.ops, List.map_eq_nil_iff.mp (known.drained (.inl stage) worker), List.map_nil]
  refine ⟨?_, ?_, ?_, ?_, ?_, fun _ => rfl, fun _ => rfl, ?_, ?_⟩
  · rw [next, all, List.append_nil, ← counted]
    exact conserved.device
  · rw [next, all, List.append_nil, ← counted]
    exact conserved.granted
  · intro r inside
    rw [next] at inside
    rw [turnsBefore_update (Nat.le_of_lt_succ inside)]
    by_cases last : r = s.node.jobs.hand.round
    · subst last
      apply conserved.recorded bufId turn
      rw [stage]
      rintro ⟨⟩
    · exact conserved.found r (counted ▸ Nat.lt_of_le_of_ne (Nat.le_of_lt_succ inside) last)
  · intro worker
    rw [passes, List.map_append, conserved.rounds worker, next, List.range_succ, counted]
    rfl
  · intro worker pass member
    rw [passes] at member
    rcases List.mem_append.mp member with old | new
    · have earlier : pass.round ≠ s.node.jobs.hand.round := by
        have bound := (known.accounted.rounds worker pass old).2
        rw [counted] at bound
        exact Nat.ne_of_lt bound
      rw [Function.update_of_ne earlier]
      exact conserved.begun worker pass old
    · have tally := conserved.tally bufId turn worker
      rw [stage, empty worker] at tally
      rw [List.mem_singleton.mp new, Function.update_self, (known.accounted.counted worker bufId).launched]
      exact tally.drained
  · intro other here
    cases here
  · intro other here
    cases here

end Kernels

section Runs

theorem Conserved.step {past : Nat → Turns workers g} {now : Turns workers g} (conserved : Conserved s initial past now)
    (serving : s.Serving) (known : s.Known) (step : ServerStep 0 s t) :
    ∃ after later, Conserved t initial after later := by
  cases step with
  | node node step noKernels noRefresh => exact ⟨past, now, conserved.aside serving known step noKernels noRefresh⟩
  | receive worker elem room =>
    refine ⟨past, now, conserved.mono (t := s.receive worker elem) rfl rfl rfl (fun _ here => here) (fun _ _ _ => rfl) ?_⟩
    intro outside
    obtain ⟨stage, none⟩ := serving.resting outside
    exact ⟨stage, fun other => ⟨known.idle outside other, (none other).1⟩⟩
  | refresh worker turn before => exact ⟨past, now, conserved.refresh serving known turn⟩
  | search bufId worker turn stage => exact ⟨past, now, conserved.search serving turn stage⟩
  | decide bufId turn stage =>
    have runs : insertsDeletes 0 s.node.jobs.hand.schedInsDel = true := by simp [insertsDeletes]
    rw [if_pos runs]
    refine ⟨past, now, conserved.stage turn ?_ ?_ ?_⟩
    · rw [stage]
      rintro ⟨⟩
    · rintro ⟨⟩
    · intro worker kind
      rw [stage]
      apply iff_of_true _ trivial
      cases kind with
      | delete => exact Fin.zero_le worker
      | insert => trivial
  | delete bufId worker turn stage => exact ⟨past, now, conserved.delete serving turn stage⟩
  | insert bufId worker turn stage => exact ⟨past, now, conserved.insert serving known turn stage⟩
  | synchronize bufId turn stage drained =>
    refine ⟨past, now, conserved.stage turn ?_ ?_ ?_⟩
    · rw [stage]
      rintro ⟨⟩
    · rintro ⟨⟩
    · intro worker kind
      rw [stage]
      cases kind <;> rfl
  | kernels bufId turn stage => exact ⟨_, [], conserved.kernels known turn stage⟩
  | transfer worker command rest waiting transfers => exact ⟨past, conserved.transfer serving known waiting transfers⟩
  | begin worker command rest schedule waiting works idle =>
    exact ⟨past, now, conserved.begin serving known schedule waiting works idle⟩
  | start worker elem work kernel running here => exact ⟨past, _, conserved.start serving running here⟩
  | access lanes => exact ⟨past, conserved.access serving lanes⟩
  | finish worker command rest kernel waiting running started ended =>
    exact ⟨past, now, conserved.finish serving known waiting running started⟩

theorem conserved_reachable (reached : (server workers 0 g initial).Reachable s) :
    ∃ past now, Conserved s initial past now := by
  induction reached with
  | @initial s start =>
    obtain ⟨node, device, _, _, stage⟩ := start
    have hand := node.1.1
    have counted : countedRound s.node.jobs.hand = 0 := by
      rw [hand]
      rfl
    have pc : s.node.jobs.hand.pc = .pop 0 := by
      rw [hand]
      rfl
    refine ⟨fun _ => [], [], ?_, ?_, ?_, ?_, ?_, fun _ => rfl, fun _ => rfl, ?_, ?_⟩
    · rw [counted]
      exact device
    · rw [counted]
      trivial
    · rw [counted]
      exact fun r before => absurd before (Nat.not_lt_zero r)
    · intro worker
      rw [counted, (node.1.2.2 worker).2.2]
      rfl
    · intro worker pass member
      rw [(node.1.2.2 worker).2.2] at member
      cases member
    · intro bufId turn
      rw [pc] at turn
      cases turn
    · intro bufId turn
      rw [pc] at turn
      cases turn
  | step before next ih =>
    obtain ⟨past, now, conserved⟩ := ih
    obtain ⟨serving, indexed⟩ := server_invariants before
    exact conserved.step serving (known_of_reached (streams_reachable before) indexed) next

/-- A worker's turns of all rounds, one pass a round. -/
theorem Conserved.executed {past : Nat → Turns workers g} {now : Turns workers g}
    (conserved : Conserved s initial past now) (worker : Worker workers) :
    (begunBy worker (turnsBefore past (countedRound s.node.jobs.hand))).Perm
      ((Scheduler.executed s.node.jobs worker).map jobOp) := by
  have rounds : begunBy worker (turnsBefore past (countedRound s.node.jobs.hand)) =
      (s.node.jobs.passes worker).flatMap fun pass => begunBy worker (past pass.round) := by
    rw [turnsBefore, ← conserved.rounds worker, begunBy, List.filterMap_flatMap, List.flatMap_map]
    rfl
  rw [rounds, Scheduler.executed, List.map_flatMap]
  exact List.Perm.flatMap_left _ (conserved.begun worker)

/-- At rest the device has come about by turns in which each job a worker has ever queued has been begun by the lanes of
    the worker's own kernels exactly once, unless it is still in one of the worker's buffers. All of them are over. -/
theorem queued_begun_once (reached : (server workers 0 g initial).Reachable s)
    (resting : ∀ bufId, s.node.jobs.hand.pc ≠ .kernels bufId) :
    ∃ turns, s.device = deviceAfter initial turns ∧
      (Hash.blankDevice (Lanes workers) initial).Granted Hash.begin Hash.access turns ∧
      (∀ lanes, s.device.task lanes = none) ∧
      ∀ worker, (begunBy worker turns ++ (bufIds.flatMap (pending 0 s.node.jobs worker)).map jobOp).Perm
        ((s.node.jobs.queued worker).map jobOp) := by
  obtain ⟨past, now, conserved⟩ := conserved_reachable reached
  obtain ⟨serving, indexed⟩ := server_invariants reached
  have known := known_of_reached (streams_reachable reached) indexed
  have device := conserved.device
  have granted := conserved.granted
  rw [conserved.resting resting, List.append_nil] at device granted
  refine ⟨_, device, granted, ?_, ?_⟩
  · rintro ⟨worker, place⟩
    exact ((serving.resting resting).2 worker).2 place
  · intro worker
    have ledger : (s.node.jobs.queued worker).Perm _ := known.accounted.ledger worker
    have all := (ledger.map jobOp).symm
    rw [List.map_append] at all
    exact ((conserved.executed worker).append_right _).trans all

/-- Worker 1 has queued a deletion and an insertion, and both have been begun. -/
theorem queued_begun_once_reread : ∃ (s : Server 1 Hash.gpuHash) (elem : Hash.DElem), s.Reading 0 ∧
    ∃ turns, s.device = deviceAfter (fun _ _ => 0) turns ∧ (∀ lanes, s.device.task lanes = none) ∧
      (begunBy 1 turns ++ (bufIds.flatMap (pending 0 s.node.jobs 1)).map jobOp).Perm
        [.delete elem, .cuckoo (storedElem 1)] := by
  obtain ⟨s, elem, reread⟩ := reread_exists
  obtain ⟨turns, device, _, idle, jobs⟩ := queued_begun_once reread.reached reread.outside
  have ops := jobs 1
  rw [reread.queued] at ops
  exact ⟨s, elem, reread.reading, turns, device, idle, ops⟩

end Runs

end MegaKV.Store
