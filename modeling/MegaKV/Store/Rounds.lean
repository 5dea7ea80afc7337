import MegaKV.Store.Serving

namespace MegaKV.Store

open Library Slab Scheduler

variable {workers : Nat} {g : Hash.Geometry} {s t : Server workers g} {worker : Worker workers} {bufId : Int}
  {complete : StreamOp → Prop} {command : Command} {rest : List Command}

section Beside

/-- A step of another worker's stream or kernel. -/
theorem Server.Working.beside (working : s.Working bufId worker complete) (node : t.node = s.node)
    (same : (t.searchJobs, t.stage, t.found) = (s.searchJobs, s.stage, s.found))
    (own : (t.stream worker, t.deviceBuf worker, t.kernel worker, t.tasks worker, t.device.store.out worker,
        t.searchOut worker) =
      (s.stream worker, s.deviceBuf worker, s.kernel worker, s.tasks worker, s.device.store.out worker,
        s.searchOut worker))
    (table : ¬complete .search → ∀ id < (s.searchJobs worker bufId).numSearchJob,
      Undisturbed (fun other => s.node.jobs.buf other bufId) g worker ((s.searchJobs worker bufId).searchIn id) →
      Hash.AgreeIn (Hash.hashRegion g ((s.searchJobs worker bufId).searchIn id).hash) s.device.store.table
        t.device.store.table) :
    t.Working bufId worker complete := by
  simp only [Prod.mk.injEq] at same own
  obtain ⟨searches, stage, found⟩ := same
  obtain ⟨stream, deviceBuf, kernel, tasks, cells, out⟩ := own
  have counts : t.counts worker bufId = s.counts worker bufId := by
    rw [Server.counts, searches, node, Server.counts]
  refine ⟨?_, ?_, ?_, ?_⟩
  · rw [counts, stage, stream]
    exact working.stream
  · rw [kernel, stream]
    exact working.running
  · rw [searches, node, deviceBuf, kernel, tasks]
    exact working.kernel
  · rw [searches, node, stage, found, kernel, tasks, cells, out]
    exact working.search.disturb table

/-- A step of one worker's stream or kernel. -/
theorem Server.Serving.local (serving : s.Serving) (turn : s.node.jobs.hand.pc = .kernels bufId)
    (known : s.Known) (node : t.node = s.node)
    (same : (t.searchJobs, t.stage, t.found) = (s.searchJobs, s.stage, s.found))
    (out : ∀ other id, id ≠ bufId → t.searchOut other id = s.searchOut other id)
    (all : Worker workers → StreamOp → Prop) {after : StreamOp → Prop} (own : t.Working bufId worker after)
    (others : ∀ other, other ≠ worker → t.Working bufId other (all other)) : t.Serving := by
  apply serving.round turn node
  · refine ⟨Function.update all worker after, fun other => ?_⟩
    by_cases here : other = worker
    · subst here
      rw [Function.update_self]
      exact own
    · rw [Function.update_of_ne here]
      exact others other here
  · intro other last here delivered
    simp only [Prod.mk.injEq] at same
    have place : slot last ≠ bufId := by
      rw [roundOf, turn] at here
      change s.node.jobs.hand.round = last + 1 at here
      rw [known.buffer turn, here]
      exact (slot_distinct last).1
    apply delivered.mono (congrFun (congrFun same.1 other) _) (congrFun same.2.2 last) (out other _ place)
    · rw [node]
      exact fun _ holds => holds
    · rw [node]
      exact fun _ member => member

end Beside

section Transfers

theorem transfer_turns (clear : command.launch.op = .clearSearchOut) :
    s.transfer worker command =
      (s.turn (.start (worker, 0, 0) (.clear worker (command.num 0)))).turn (.access (worker, 0, 0)) := by
  unfold Server.transfer
  rw [clear]

theorem transfer_clear (clear : command.launch.op = .clearSearchOut) (free : s.device.task (worker, 0, 0) = none) :
    s.transfer worker command =
      { s with
        device := ⟨⟨s.device.store.table, Function.update s.device.store.out worker fun position =>
          if position < 2 * command.num 0 then 0 else s.device.store.out worker position⟩, s.device.task⟩ } := by
  rw [transfer_turns clear]
  simp only [Server.turn, Pool.turn, free, Function.update_self, Hash.begin, Hash.access, Function.update_idem]
  rw [← free, Function.update_eq_self]

theorem transfer_results (copy : command.launch.op = .copySearchOut) :
    s.transfer worker command =
      { s with
        searchOut := Function.update s.searchOut worker (Function.update (s.searchOut worker) command.launch.bufId
          (copied (2 * command.num 0) (s.device.store.out worker) (s.searchOut worker command.launch.bufId))) } := by
  unfold Server.transfer
  rw [copy]

theorem transfer_copy (clear : command.launch.op ≠ .clearSearchOut) (copy : command.launch.op ≠ .copySearchOut) :
    s.transfer worker command =
      { s with deviceBuf := Function.update s.deviceBuf worker ((s.deviceBuf worker).copy
          (s.searchJobs worker command.launch.bufId) (s.node.jobs.buf worker command.launch.bufId) command.num
          command.launch.op) } := by
  unfold Server.transfer
  split
  · contradiction
  · contradiction
  · rfl

/-- The first command of a stream is no kernel. -/
theorem Server.Working.idle (working : s.Working bufId worker complete) (waiting : s.stream worker = command :: rest)
    (transfers : ¬IsKernel command.launch.op) : s.kernel worker = none ∧ ∀ place, s.tasks worker place = none := by
  have idle : s.kernel worker = none := by
    cases here : s.kernel worker with
    | none => rfl
    | some running =>
      obtain ⟨kernelOp, first, others, same, op⟩ := working.running running here
      rw [waiting] at same
      cases same
      rw [op] at transfers
      exact absurd kernelOp transfers
  exact ⟨idle, working.kernel.idle idle⟩

/-- A command other than a kernel has been executed. -/
theorem Server.Working.executed (working : s.Working bufId worker complete) (waiting : s.stream worker = command :: rest)
    (transfers : ¬IsKernel command.launch.op) (node : t.node = s.node)
    (same : (t.searchJobs, t.stage, t.found, t.kernel) = (s.searchJobs, s.stage, s.found, s.kernel))
    (stream : t.stream worker = rest) (tasks : t.tasks worker = s.tasks worker)
    (deviceBuf : t.deviceBuf worker = (s.deviceBuf worker).copy (s.searchJobs worker bufId)
      (s.node.jobs.buf worker bufId) command.num command.launch.op)
    (search : SearchFits (s.searchJobs worker bufId) s.node.Holds
      (fun id => Undisturbed (fun other => s.node.jobs.buf other bufId) g worker ((s.searchJobs worker bufId).searchIn id))
      s.stage (s.found s.node.jobs.hand.round) t.device.store.table none (s.tasks worker) (t.device.store.out worker)
      (t.searchOut worker bufId) fun op => complete op ∨ op = command.launch.op) :
    t.Working bufId worker fun op => complete op ∨ op = command.launch.op := by
  obtain ⟨idle, _⟩ := working.idle waiting transfers
  simp only [Prod.mk.injEq] at same
  obtain ⟨searches, stage, found, kernel⟩ := same
  have fits := working.stream
  rw [waiting] at fits
  obtain ⟨_, num⟩ := fits.called command List.mem_cons_self
  have counts : t.counts worker bufId = s.counts worker bufId := by
    rw [Server.counts, searches, node, Server.counts]
  refine ⟨?_, ?_, ?_, ?_⟩
  · rw [counts, stage, stream]
    exact fits.pop
  · rw [kernel, idle]
    rintro running ⟨⟩
  · rw [searches, node, deviceBuf, kernel, tasks, idle, num]
    have loaded := working.kernel
    rw [idle] at loaded
    exact loaded.copy command.launch.op
  · rw [searches, node, stage, found, kernel, tasks, idle]
    exact search

theorem Server.Working.transfer (working : s.Working bufId worker complete) (waiting : s.stream worker = command :: rest)
    (transfers : ¬IsKernel command.launch.op) :
    ((s.transfer worker command).setStream worker rest).Working bufId worker
      fun op => complete op ∨ op = command.launch.op := by
  have fits := working.stream
  rw [waiting] at fits
  obtain ⟨place, num⟩ := fits.called command List.mem_cons_self
  obtain ⟨idle, tasks⟩ := working.idle waiting transfers
  have search := working.search
  rw [idle] at search
  have next : Function.update s.stream worker rest worker = rest := Function.update_self _ _ _
  by_cases clear : command.launch.op = .clearSearchOut
  · have number : command.num 0 = (s.searchJobs worker bufId).numSearchJob := by
      rw [num, clear]
      rfl
    have unsearched : ¬complete .search := by
      intro done
      have once : command.launch.op ∈ searchOps → ¬complete command.launch.op := fits.once.waiting List.mem_cons_self
      rw [clear] at once
      exact once (by decide) (fits.grounded .search done .clearSearchOut trivial)
    rw [transfer_clear clear (tasks (0, 0))]
    refine working.executed waiting transfers rfl rfl next rfl ?_ ?_
    · rw [clear]
      rfl
    · simp only [Server.setStream, Function.update_self, number, clear]
      exact search.clear unsearched (.inl rfl)
  · by_cases copy : command.launch.op = .copySearchOut
    · have number : command.num 0 = (s.searchJobs worker bufId).numSearchJob := by
        rw [num, copy]
        rfl
      have ready : ∀ other, needs (s.counts worker bufId) command.launch.op other → complete other := fits.ordered.1
      rw [copy] at ready
      rw [transfer_results copy, place]
      refine working.executed waiting transfers rfl rfl next rfl ?_ ?_
      · rw [copy]
        rfl
      · simp only [Server.setStream, Function.update_self, number, copy]
        exact search.copy (ready .clearSearchOut trivial) (ready .search trivial)
    · rw [transfer_copy clear copy, place]
      refine working.executed waiting transfers rfl rfl next rfl (Function.update_self _ _ _) ?_
      apply search.other clear _ copy
      intro kernelOp
      rw [kernelOp] at transfers
      exact transfers trivial

/-- What a command that is no kernel leaves alone. -/
theorem transfer_frame (free : s.device.task (worker, 0, 0) = none) :
    let t := (s.transfer worker command).setStream worker rest
    (t.node = s.node ∧ (t.searchJobs, t.stage, t.found) = (s.searchJobs, s.stage, s.found) ∧
      t.device.store.table = s.device.store.table ∧ t.device.task = s.device.task) ∧
      (∀ other id, id ≠ command.launch.bufId → t.searchOut other id = s.searchOut other id) ∧
      ∀ other, other ≠ worker →
        (t.stream other, t.deviceBuf other, t.kernel other, t.tasks other, t.device.store.out other, t.searchOut other) =
          (s.stream other, s.deviceBuf other, s.kernel other, s.tasks other, s.device.store.out other,
            s.searchOut other) := by
  by_cases clear : command.launch.op = .clearSearchOut
  · rw [transfer_clear clear free]
    refine ⟨⟨rfl, rfl, rfl, rfl⟩, fun _ _ _ => rfl, fun other different => ?_⟩
    simp only [Server.setStream, Function.update_of_ne different]
    rfl
  · by_cases copy : command.launch.op = .copySearchOut
    · rw [transfer_results copy]
      refine ⟨⟨rfl, rfl, rfl, rfl⟩, ?_, fun other different => ?_⟩
      · intro other id different
        by_cases here : other = worker
        · subst here
          simp only [Server.setStream, Function.update_self, Function.update_of_ne different]
        · simp only [Server.setStream, Function.update_of_ne here]
      · simp only [Server.setStream, Function.update_of_ne different]
        rfl
    · rw [transfer_copy clear copy]
      refine ⟨⟨rfl, rfl, rfl, rfl⟩, fun _ _ _ => rfl, fun other different => ?_⟩
      simp only [Server.setStream, Function.update_of_ne different]
      rfl

theorem Server.Serving.transfer (serving : s.Serving) (known : s.Known) (waiting : s.stream worker = command :: rest)
    (transfers : ¬IsKernel command.launch.op) : ((s.transfer worker command).setStream worker rest).Serving := by
  obtain ⟨bufId, turn⟩ := known.busy waiting
  obtain ⟨complete, working⟩ := serving.working bufId turn
  have fits := (working worker).stream
  rw [waiting] at fits
  obtain ⟨place, _⟩ := fits.called command List.mem_cons_self
  have free := ((working worker).idle waiting transfers).2 (0, 0)
  obtain ⟨⟨node, same, table, _⟩, out, others⟩ := @transfer_frame _ _ s worker command rest free
  rw [place] at out
  refine serving.local turn known node same out complete ((working worker).transfer waiting transfers) ?_
  intro other different
  refine (working other).beside node same (others other different) ?_
  intro _ id _ _
  rw [table]
  exact fun b _ => rfl

end Transfers

section Kernels

variable {schedule : Nat → Hash.Schedule g}

/-- The kernels that change the index come behind the searches. -/
theorem searched_before (fits : StreamFits worker (s.counts worker bufId) bufId s.stage (command :: rest) complete)
    (works : IsKernel command.launch.op) (another : command.launch.op ≠ .search)
    (some : 0 < (s.searchJobs worker bufId).numSearchJob) : complete .search := by
  apply fits.ordered.1
  dsimp only
  generalize command.launch.op = op at works another
  cases op with
  | search => exact absurd rfl another
  | delete => exact some
  | insert => exact some
  | _ => cases works

theorem Server.Working.begin (working : s.Working bufId worker complete) (waiting : s.stream worker = command :: rest)
    (works : IsKernel command.launch.op) (idle : s.kernel worker = none) :
    (s.setKernel worker (some ⟨command.launch.op,
      (s.deviceBuf worker).works worker command.num schedule command.launch.op⟩)).Working bufId worker complete := by
  have fits := working.stream
  have search := working.search
  have kernel := working.kernel
  rw [waiting] at fits
  rw [idle] at search kernel
  obtain ⟨_, num⟩ := fits.called command List.mem_cons_self
  have begun := kernel.begin fits.ordered.1 schedule
  rw [← Server.counts, ← num] at begun
  refine ⟨working.stream, ?_, ?_, ?_⟩
  · intro running here
    simp only [Server.setKernel, Function.update_self] at here
    cases here
    exact ⟨works, command, rest, waiting, rfl⟩
  · simp only [Server.setKernel, Function.update_self]
    exact begun
  · simp only [Server.setKernel, Function.update_self]
    by_cases here : command.launch.op = .search
    · have number : command.num 0 = (s.searchJobs worker bufId).numSearchJob := by
        rw [num, here]
        rfl
      have cleared := fits.ordered.1 .clearSearchOut
      have once := fits.once.1
      dsimp only at cleared once
      rw [here] at cleared once ⊢
      exact search.beginSearch number (cleared trivial) (once (by decide)) (kernel.idle rfl)
    · apply search.behind (searched_before fits works here)
      rintro running ⟨⟩
      exact here

/-- Only the scheduler's kernels run. -/
theorem Server.Serving.inRound (serving : s.Serving) {running : RunningKernel workers g}
    (here : s.kernel worker = some running) : ∃ bufId, s.node.jobs.hand.pc = .kernels bufId := by
  by_contra outside
  have idle := ((serving.resting fun bufId turn => outside ⟨bufId, turn⟩).2 worker).1
  rw [here] at idle
  cases idle

theorem Server.Serving.begin (serving : s.Serving) (known : s.Known) (schedule : Nat → Hash.Schedule g)
    (waiting : s.stream worker = command :: rest) (works : IsKernel command.launch.op) (idle : s.kernel worker = none) :
    (s.setKernel worker (some ⟨command.launch.op,
      (s.deviceBuf worker).works worker command.num schedule command.launch.op⟩)).Serving := by
  obtain ⟨bufId, turn⟩ := known.busy waiting
  obtain ⟨complete, working⟩ := serving.working bufId turn
  refine serving.local turn known rfl rfl (fun _ _ _ => rfl) complete ((working worker).begin waiting works idle) ?_
  intro other different
  refine (working other).beside rfl rfl ?_ fun _ _ _ _ _ _ => rfl
  simp only [Server.setKernel, Function.update_of_ne different]
  rfl

theorem start_device {place : Nat × Nat} {work : Hash.Work g (Worker workers)}
    (free : s.device.task (worker, place) = none) :
    s.turn (.start (worker, place) work) =
      { s with
        device := ⟨s.device.store, Function.update s.device.task (worker, place) (some (Hash.begin work))⟩ } := by
  simp only [Server.turn, Pool.turn, free]

theorem tasks_eq : s.tasks worker = fun place => s.device.task (worker, place) := rfl

theorem tasks_self {task : Worker workers × Nat × Nat → Option (Hash.Task g (Worker workers))} {place : Nat × Nat}
    {next : Option (Hash.Task g (Worker workers))} :
    (fun other => Function.update task (worker, place) next (worker, other)) =
      Function.update (fun other => task (worker, other)) place next := by
  funext other
  by_cases same : other = place
  · subst same
    rw [Function.update_self, Function.update_self]
  · have different : (worker, other) ≠ (worker, place) := fun equal => same (congrArg Prod.snd equal)
    rw [Function.update_of_ne same, Function.update_of_ne different]

theorem tasks_other {task : Worker workers × Nat × Nat → Option (Hash.Task g (Worker workers))} {place : Nat × Nat}
    {next : Option (Hash.Task g (Worker workers))} {other : Worker workers} (different : other ≠ worker) :
    (fun here => Function.update task (worker, place) next (other, here)) = fun here => task (other, here) := by
  funext here
  have apart : (other, here) ≠ (worker, place) := fun same => different (congrArg Prod.fst same)
  exact Function.update_of_ne apart _ _

theorem Server.Working.start (working : s.Working bufId worker complete) {running : RunningKernel workers g}
    {place : Nat × Nat} {work : Hash.Work g (Worker workers)} (here : s.kernel worker = some running)
    (unstarted : running.unstarted place = some work) :
    ((s.turn (.start (worker, place) work)).setKernel worker
      (some { running with unstarted := Function.update running.unstarted place none })).Working bufId worker
        complete := by
  obtain ⟨kernelOp, first, rest, waiting, op⟩ := working.running running here
  obtain ⟨taken, free⟩ := working.kernel.takes running here place work unstarted
  have fits := working.stream
  have search := working.search
  have kernel := working.kernel
  rw [waiting] at fits
  rw [here] at search kernel
  rw [start_device free]
  refine ⟨working.stream, ?_, ?_, ?_⟩
  · intro next same
    simp only [Server.setKernel, Function.update_self] at same
    cases same
    exact ⟨kernelOp, first, rest, waiting, op⟩
  · simp only [Server.setKernel, tasks_eq, Function.update_self, tasks_self]
    exact kernel.start unstarted
  · simp only [Server.setKernel, tasks_eq, Function.update_self, tasks_self]
    by_cases searching : running.op = .search
    · rw [searching] at taken
      exact search.start searching taken unstarted
    · apply search.behind
      · rw [← op] at kernelOp searching
        exact searched_before fits kernelOp searching
      · rintro next ⟨⟩
        exact searching

theorem Server.Serving.start (serving : s.Serving) (known : s.Known) {running : RunningKernel workers g}
    {place : Nat × Nat} {work : Hash.Work g (Worker workers)} (here : s.kernel worker = some running)
    (unstarted : running.unstarted place = some work) :
    ((s.turn (.start (worker, place) work)).setKernel worker
      (some { running with unstarted := Function.update running.unstarted place none })).Serving := by
  obtain ⟨bufId, turn⟩ := serving.inRound here
  obtain ⟨complete, working⟩ := serving.working bufId turn
  obtain ⟨_, free⟩ := (working worker).kernel.takes running here place work unstarted
  refine serving.local turn known rfl rfl (fun _ _ _ => rfl) complete ((working worker).start here unstarted) ?_
  intro other different
  rw [start_device free]
  refine (working other).beside rfl rfl ?_ fun _ _ _ _ _ _ => rfl
  simp only [Server.setKernel, tasks_eq, Function.update_of_ne different, tasks_other different]

theorem access_device {place : Nat × Nat} {found : Hash.Task g (Worker workers)}
    (busy : s.device.task (worker, place) = some found) :
    s.turn (.access (worker, place)) =
      { s with
        device := ⟨(Hash.access found s.device.store).2,
          Function.update s.device.task (worker, place) (Hash.access found s.device.store).1⟩ } := by
  simp only [Server.turn, Pool.turn, busy]

theorem Server.Working.access (working : s.Working bufId worker complete) (known : s.Known) {place : Nat × Nat}
    {found : Hash.Task g (Worker workers)} (busy : s.tasks worker place = some found) :
    (s.turn (.access (worker, place))).Working bufId worker complete := by
  obtain ⟨running, here, tends⟩ := working.kernel.tends place found busy
  obtain ⟨kernelOp, first, rest, waiting, op⟩ := working.running running here
  have fits := working.stream
  have search := working.search
  rw [waiting] at fits
  rw [here] at search
  rw [access_device busy]
  refine ⟨working.stream, working.running, ?_, ?_⟩
  · simp only [tasks_eq, tasks_self]
    exact working.kernel.access busy
  · simp only [tasks_eq, tasks_self]
    by_cases searching : running.op = .search
    · rw [searching] at tends
      cases found with
      | search looking =>
        obtain ⟨rfl, inside, elem, rfl⟩ := tends
        rw [here]
        have started : running.unstarted (0, looking.id) = none := by
          cases left : running.unstarted (0, looking.id) with
          | none => rfl
          | some work =>
            have free := (working.kernel.takes running here _ work left).2
            rw [busy] at free
            cases free
        have once := fits.once.1
        dsimp only at once
        rw [op, searching] at once
        have begun : Searched looking.out s.stage := by
          by_contra unsearched
          cases (fits.fresh unsearched).2
        apply search.access busy started elem (once (by decide)) (ne_start_of_searched begun)
        intro position
        rcases Hash.searching_written looking.out position with same | ⟨slot, same⟩
        · exact .inl same
        · rw [same]
          exact .inr (known.index slot)
      | _ => cases tends
    · rw [tends.out (.inl searching), here]
      apply search.behind
      · rw [← op] at kernelOp searching
        exact searched_before fits kernelOp searching
      · rintro next ⟨⟩
        exact searching

theorem Server.Serving.access (serving : s.Serving) (known : s.Known) (lanes : Lanes workers) :
    (s.turn (.access lanes)).Serving := by
  obtain ⟨worker, place⟩ := lanes
  cases busy : s.tasks worker place with
  | none =>
    have same : s.turn (.access (worker, place)) = s := by
      have free : s.device.task (worker, place) = none := busy
      simp only [Server.turn, Pool.turn, free]
    rw [same]
    exact serving
  | some found =>
    have inside : ∃ bufId, s.node.jobs.hand.pc = .kernels bufId := by
      by_contra outside
      have idle := ((serving.resting fun bufId turn => outside ⟨bufId, turn⟩).2 worker).2 place
      rw [busy] at idle
      cases idle
    obtain ⟨bufId, turn⟩ := inside
    obtain ⟨complete, working⟩ := serving.working bufId turn
    obtain ⟨running, _, tends⟩ := (working worker).kernel.tends place found busy
    refine serving.local turn known rfl rfl (fun _ _ _ => rfl) complete ((working worker).access known busy) ?_
    intro other different
    rw [access_device busy]
    refine (working other).beside rfl rfl ?_ ?_
    · simp only [tasks_eq, tasks_other different, tends.out (.inr different)]
    · intro _ id _ undisturbed
      exact tends.away (undisturbed worker (Ne.symm different))

theorem Server.Working.finish (working : s.Working bufId worker complete) {running : RunningKernel workers g}
    (waiting : s.stream worker = command :: rest) (here : s.kernel worker = some running)
    (started : ∀ place, running.unstarted place = none) (ended : ∀ place, s.tasks worker place = none) :
    ((s.setKernel worker none).setStream worker rest).Working bufId worker
      fun op => complete op ∨ op = command.launch.op := by
  obtain ⟨kernelOp, first, others, same, op⟩ := working.running running here
  rw [waiting] at same
  cases same
  have fits := working.stream
  have search := working.search
  rw [waiting] at fits
  rw [here] at search
  refine ⟨?_, ?_, ?_, ?_⟩
  · simp only [Server.setStream, Function.update_self]
    exact fits.pop
  · simp only [Server.setStream, Server.setKernel, Function.update_self]
    rintro next ⟨⟩
  · simp only [Server.setStream, Server.setKernel, Function.update_self]
    rw [op]
    exact working.kernel.finish kernelOp ended
  · simp only [Server.setStream, Server.setKernel, Function.update_self]
    by_cases searching : running.op = .search
    · rw [op, searching]
      exact search.finish searching started ended
    · rw [← op] at kernelOp searching
      have clear : command.launch.op ≠ .clearSearchOut := by
        intro same
        rw [same] at kernelOp
        exact kernelOp
      have copy : command.launch.op ≠ .copySearchOut := by
        intro same
        rw [same] at kernelOp
        exact kernelOp
      apply SearchFits.other _ clear searching copy
      apply search.behind (searched_before fits kernelOp searching)
      rintro next ⟨⟩

theorem Server.Serving.finish (serving : s.Serving) (known : s.Known) {running : RunningKernel workers g}
    (waiting : s.stream worker = command :: rest) (here : s.kernel worker = some running)
    (started : ∀ place, running.unstarted place = none) (ended : ∀ place, s.tasks worker place = none) :
    ((s.setKernel worker none).setStream worker rest).Serving := by
  obtain ⟨bufId, turn⟩ := known.busy waiting
  obtain ⟨complete, working⟩ := serving.working bufId turn
  refine serving.local turn known rfl rfl (fun _ _ _ => rfl) complete
    ((working worker).finish waiting here started ended) ?_
  intro other different
  refine (working other).beside rfl rfl ?_ fun _ _ _ _ _ _ => rfl
  simp only [Server.setStream, Server.setKernel, Function.update_of_ne different]
  rfl

end Kernels

section Runs

variable {initial : Worker workers → Nat → Hash.Loc}

theorem Server.Serving.step (serving : s.Serving) (known : s.Known) (step : ServerStep 0 s t) : t.Serving := by
  cases step with
  | node node step noKernels noRefresh => exact serving.aside known step noKernels noRefresh
  | receive worker elem room => exact serving.receive known worker elem
  | refresh worker turn before => exact serving.refresh known turn
  | search bufId worker turn stage => exact serving.search turn stage
  | decide bufId turn stage =>
    apply serving.stage turn
    · rw [stage]
      exact fun _ => trivial
    · intro other
      split
      all_goals trivial
  | delete bufId worker turn stage =>
    have before : ∀ other, Searched other s.stage := by
      rw [stage]
      exact fun _ => trivial
    have later : ∀ other, Searched other (Stage.nextWorker worker .delete (.insert 0)) := by
      intro other
      unfold Stage.nextWorker
      split
      all_goals trivial
    exact serving.launch turn before (fun _ fits => fits.launchDelete _ (before worker) (later worker)) later
  | insert bufId worker turn stage =>
    have before : ∀ other, Searched other s.stage := by
      rw [stage]
      exact fun _ => trivial
    have later : ∀ other, Searched other (Stage.nextWorker worker .insert .synchronize) := by
      intro other
      unfold Stage.nextWorker
      split
      all_goals trivial
    exact serving.launch turn before (fun _ fits => fits.launchInsert _ (before worker) (later worker)) later
  | synchronize bufId turn stage drained =>
    apply serving.stage turn
    · rw [stage]
      exact fun _ => trivial
    · exact fun _ => trivial
  | kernels bufId turn stage => exact serving.kernels known turn stage
  | transfer worker command rest waiting transfers => exact serving.transfer known waiting transfers
  | begin worker command rest schedule waiting works idle => exact serving.begin known schedule waiting works idle
  | start worker elem work kernel running here => exact serving.start known running here
  | access lanes => exact serving.access known lanes
  | finish worker command rest kernel waiting running started ended =>
    exact serving.finish known waiting running started ended

/-- The jobs in the buffers of the round are on the workers' record. -/
theorem content_queued (known : s.Known) (turn : s.node.jobs.hand.pc = .kernels bufId) {job : Job}
    (member : job ∈ (s.node.jobs.buf worker bufId).content) : job ∈ s.node.jobs.queued worker := by
  have place := known.buffer turn
  subst place
  have waiting := kernels_waiting 0 turn worker
  rw [← pending_waiting waiting] at member
  apply (known.accounted.ledger worker).mem_iff.mpr
  exact List.mem_append_right _ (List.mem_flatMap.mpr ⟨_, slot_mem _, member⟩)

/-- The kernels take up what the workers have queued. -/
theorem takes_permitted (known : s.Known) (turn : s.node.jobs.hand.pc = .kernels bufId) {op : StreamOp}
    {place : Nat × Nat} {work : Hash.Work g (Worker workers)}
    (takes : Takes (s.searchJobs worker bufId) (s.node.jobs.buf worker bufId) worker op place work) :
    s.node.Permits work := by
  cases work with
  | search elem out id schedule => trivial
  | clear out numElem => trivial
  | insert elem =>
    cases op with
    | insert =>
      obtain ⟨new, member, same⟩ := takes
      exact ⟨worker, new, content_queued known turn member, same⟩
    | _ => cases takes
  | delete elem =>
    cases op with
    | delete =>
      obtain ⟨old, member, same⟩ := takes
      exact ⟨worker, old, content_queued known turn member, same⟩
    | _ => cases takes

theorem indexed_step (serving : s.Serving) (known : s.Known) (step : ServerStep 0 s t)
    (reached : (indexed workers 0 g (Lanes workers) initial).Reachable ⟨s.node, s.device⟩) :
    (indexed workers 0 g (Lanes workers) initial).Reachable ⟨t.node, t.device⟩ := by
  cases step with
  | node node step noKernels noRefresh => exact reached.step (.node ⟨s.node, s.device⟩ node step)
  | refresh worker turn before =>
    exact reached.step (.node ⟨s.node, s.device⟩ _ (.refresh s.node worker turn before))
  | kernels bufId turn stage => exact reached.step (.node ⟨s.node, s.device⟩ _ (.launch s.node bufId turn))
  | transfer worker command rest waiting transfers =>
    by_cases clear : command.launch.op = .clearSearchOut
    · rw [transfer_turns clear]
      have begun := reached.step (.turn ⟨s.node, s.device⟩ (.start (worker, 0, 0) (.clear worker (command.num 0))) (by
        rintro who work same
        cases same
        trivial))
      apply begun.step (.turn _ (.access (worker, 0, 0)) _)
      rintro who work ⟨⟩
    · by_cases copy : command.launch.op = .copySearchOut
      · rw [transfer_results copy]
        exact reached
      · rw [transfer_copy clear copy]
        exact reached
  | start worker place work kernel running here =>
    obtain ⟨bufId, turn⟩ := serving.inRound running
    obtain ⟨complete, working⟩ := serving.working bufId turn
    obtain ⟨takes, _⟩ := (working worker).kernel.takes kernel running place work here
    apply reached.step (.turn ⟨s.node, s.device⟩ (.start (worker, place) work) _)
    rintro who other same
    cases same
    exact takes_permitted known turn takes
  | access lanes =>
    apply reached.step (.turn ⟨s.node, s.device⟩ (.access lanes) _)
    rintro who work ⟨⟩
  | _ => exact reached

theorem known_of_reached (streamed : (streams workers 0).Reachable s.streams)
    (reached : (indexed workers 0 g (Lanes workers) initial).Reachable ⟨s.node, s.device⟩) : s.Known :=
  ⟨indexed_node reached, drained_reachable streamed, (index_holds reached).1⟩

theorem server_invariants (reached : (server workers 0 g initial).Reachable s) :
    s.Serving ∧ (indexed workers 0 g (Lanes workers) initial).Reachable ⟨s.node, s.device⟩ := by
  induction reached with
  | @initial s start =>
    obtain ⟨node, device, _, idle, stage⟩ := start
    have hand := node.1.1
    have pc : s.node.jobs.hand.pc = .pop 0 := by rw [hand]; rfl
    refine ⟨⟨?_, ?_, ?_, ?_⟩, .initial ⟨node, device⟩⟩
    · intro bufId turn
      rw [pc] at turn
      cases turn
    · refine fun _ => ⟨stage, fun worker => ⟨(idle worker).2, fun place => ?_⟩⟩
      rw [Server.tasks, device]
      rfl
    · intro worker finished
      rw [pc] at finished
      cases finished
    · intro worker fresh
      have none := fresh.1
      rw [hand] at none
      exact absurd rfl none
  | step before next ih =>
    obtain ⟨serving, indexed⟩ := ih
    have known := known_of_reached (streams_reachable before) indexed
    exact ⟨serving.step known next, indexed_step serving known next indexed⟩

def Server.Reading (s : Server workers g) (worker : Worker workers) : Prop :=
  s.node.jobs.hand.senders worker = .holding ∧ s.node.jobs.refreshed worker = false

/-- The results that a sender has to read are those of the round that has given the buffer to it. -/
theorem reading_delivered (reached : (server workers 0 g initial).Reachable s) {worker : Worker workers}
    (reading : s.Reading worker) :
    (s.node.jobs.hand.batchSet worker).senderBufId = slot (givenRound s.node.jobs worker) ∧
      s.Delivered worker (givenRound s.node.jobs worker) := by
  obtain ⟨serving, indexed⟩ := server_invariants reached
  have known := known_of_reached (streams_reachable reached) indexed
  obtain ⟨holding, unread⟩ := reading
  obtain ⟨round, here, delivered⟩ := serving.given worker (unrefreshed_holding known.lock holding unread)
  have same : givenRound s.node.jobs worker = round := by rw [givenRound, here, Nat.add_sub_cancel]
  rw [same]
  refine ⟨?_, delivered⟩
  rw [known.lock.sender_slot holding]
  change slot (roundOf s.node.jobs worker + 2) = slot round
  rw [here, ← slot_add_three round]

end Runs

end MegaKV.Store
