import MegaKV.Store.Results

namespace MegaKV.Store

open Library Slab Scheduler

variable {workers : Nat} {g : Hash.Geometry}

section Invariant

/-- No other worker's kernel of the round has had a job in the region of the query. -/
def Node.Apart (s : Node workers) (g : Hash.Geometry) (round : Nat) (worker : Worker workers) (query : Hash.SElem) : Prop :=
  ∀ run ∈ s.kernels, run.round = round → run.worker ≠ worker → ∀ job ∈ run.jobs,
    Hash.hashRegion g (jobHash job) ≠ Hash.hashRegion g query.hash

def Undisturbed (bufs : Worker workers → JobBuf) (g : Hash.Geometry) (worker : Worker workers) (query : Hash.SElem) : Prop :=
  ∀ other, other ≠ worker → ∀ job ∈ (bufs other).content,
    Hash.hashRegion g (jobHash job) ≠ Hash.hashRegion g query.hash

variable (s : Server workers g)

def Server.Delivered (worker : Worker workers) (round : Nat) : Prop :=
  let searches := s.searchJobs worker (slot round)
  Results searches s.node.Holds (fun id => s.node.Apart g round worker (searches.searchIn id)) (s.found round)
    (s.searchOut worker (slot round))

def Server.tasks (worker : Worker workers) (place : Nat × Nat) : Option (Hash.Task g (Worker workers)) :=
  s.device.task (worker, place)

/-- A worker's stream and its kernel while the scheduler is at the kernels of a round. -/
structure Server.Working (bufId : Int) (worker : Worker workers) (complete : StreamOp → Prop) : Prop where
  stream : StreamFits worker (s.counts worker bufId) bufId s.stage (s.stream worker) complete
  running : ∀ running, s.kernel worker = some running → IsKernel running.op ∧
    ∃ command rest, s.stream worker = command :: rest ∧ command.launch.op = running.op
  kernel : KernelFits (s.searchJobs worker bufId) (s.node.jobs.buf worker bufId) worker (s.deviceBuf worker)
    (s.kernel worker) (s.tasks worker) complete
  search : SearchFits (s.searchJobs worker bufId) s.node.Holds
    (fun id => Undisturbed (fun other => s.node.jobs.buf other bufId) g worker ((s.searchJobs worker bufId).searchIn id))
    s.stage (s.found s.node.jobs.hand.round) s.device.store.table (s.kernel worker) (s.tasks worker)
    (s.device.store.out worker) (s.searchOut worker bufId) complete

/-- The rounds follow each other, and each buffer goes to its sender with the results of its searches. -/
structure Server.Serving : Prop where
  working : ∀ bufId, s.node.jobs.hand.pc = .kernels bufId →
    ∃ complete : Worker workers → StreamOp → Prop, ∀ worker, s.Working bufId worker (complete worker)
  resting : (∀ bufId, s.node.jobs.hand.pc ≠ .kernels bufId) → s.stage = .search 0 ∧
    ∀ worker, s.kernel worker = none ∧ ∀ place, s.tasks worker place = none
  done : ∀ worker, KernelsDone s.node.jobs.hand.pc worker → s.Delivered worker (roundOf s.node.jobs worker)
  given : ∀ worker, Unrefreshed s.node.jobs worker →
    ∃ round, roundOf s.node.jobs worker = round + 1 ∧ s.Delivered worker round

end Invariant

variable {s t : Server workers g} {worker : Worker workers} {bufId : Int}

section Frames

theorem Server.Delivered.mono {round : Nat} (delivered : s.Delivered worker round)
    (searches : t.searchJobs worker (slot round) = s.searchJobs worker (slot round)) (found : t.found round = s.found round)
    (out : t.searchOut worker (slot round) = s.searchOut worker (slot round))
    (holds : ∀ loc, s.node.Holds loc → t.node.Holds loc) (kernels : ∀ run ∈ s.node.kernels, run ∈ t.node.kernels) :
    t.Delivered worker round := by
  have before : Results (s.searchJobs worker (slot round)) s.node.Holds _ (s.found round)
      (s.searchOut worker (slot round)) := delivered
  rw [Server.Delivered, searches, found, out]
  apply before.mono holds
  intro id apart run member
  exact apart run (kernels run member)

/-- A step that leaves the round's buffers, the streams and the device alone. -/
theorem Server.Working.mono {complete : StreamOp → Prop} (working : s.Working bufId worker complete)
    (searches : t.searchJobs worker bufId = s.searchJobs worker bufId)
    (bufs : ∀ other, t.node.jobs.buf other bufId = s.node.jobs.buf other bufId)
    (round : t.node.jobs.hand.round = s.node.jobs.hand.round) (deviceBuf : t.deviceBuf = s.deviceBuf)
    (device : t.device = s.device) (stream : t.stream = s.stream) (kernel : t.kernel = s.kernel)
    (stage : t.stage = s.stage) (found : t.found = s.found)
    (out : t.searchOut worker bufId = s.searchOut worker bufId) (holds : ∀ loc, s.node.Holds loc → t.node.Holds loc) :
    t.Working bufId worker complete := by
  have counts : t.counts worker bufId = s.counts worker bufId := by
    rw [Server.counts, searches, bufs worker, Server.counts]
  have tasks : t.tasks worker = s.tasks worker := by
    funext place
    rw [Server.tasks, device, Server.tasks]
  have same : (fun other => t.node.jobs.buf other bufId) = fun other => s.node.jobs.buf other bufId := funext bufs
  refine ⟨?_, ?_, ?_, ?_⟩
  · rw [counts, stage, stream]
    exact working.stream
  · rw [kernel, stream]
    exact working.running
  · rw [searches, bufs worker, deviceBuf, kernel, tasks]
    exact working.kernel
  · rw [searches, same, stage, found, round, device, kernel, tasks, out]
    exact working.search.mono holds

/-- The scheduler comes to the kernels of a round. -/
theorem Server.Working.enter (stream : s.stream worker = []) (stage : s.stage = .search 0)
    (kernel : s.kernel worker = none) (tasks : ∀ place, s.tasks worker place = none) :
    s.Working bufId worker fun _ => False := by
  have free : s.tasks worker = fun _ => none := funext tasks
  refine ⟨?_, ?_, ?_, ?_⟩
  · rw [stream, stage]
    exact .enter worker _ bufId
  · rw [kernel]
    rintro running ⟨⟩
  · rw [kernel, free]
    exact .enter _ _ worker _
  · exact .fresh (fun _ done => done) kernel fun begun => absurd stage begun

end Frames

section Aside

/-- A step of the node besides the kernels and the senders' resets. -/
structure Aside (numSchedInsDel : Nat) (s t : Node workers) : Prop where
  kernels : t.kernels = s.kernels
  bufs : ∀ worker id, id ≠ (s.jobs.hand.batchSet worker).receiverBufId → t.jobs.buf worker id = s.jobs.buf worker id
  sees : ∀ worker, Sees s.jobs t.jobs worker
  hand : t.jobs.hand = s.jobs.hand ∨ Step numSchedInsDel s.jobs.hand t.jobs.hand

theorem sees_of_same {s t : JobState workers} (hand : t.hand = s.hand) (refreshed : t.refreshed = s.refreshed)
    (worker : Worker workers) : Sees s t worker := by
  apply Sees.same
  · rw [roundOf, hand, roundOf]
  · rw [hand]
  · rw [Unrefreshed, hand, refreshed, Unrefreshed]

theorem queueDeletes_refreshed (elems : List Hash.DElem) (s : Node workers) :
    (elems.foldl (Node.queueDelete worker) s).jobs.refreshed = s.jobs.refreshed := by
  induction elems generalizing s with
  | nil => rfl
  | cons elem rest ih => exact ih (s.queueDelete worker elem)

variable {numSchedInsDel : Nat}

/-- A worker has changed nothing but the buffer it fills. -/
theorem aside_receiver {s t : Node workers} (worker : Worker workers) (kernels : t.kernels = s.kernels) (hand : t.jobs.hand = s.jobs.hand)
    (refreshed : t.jobs.refreshed = s.jobs.refreshed)
    (bufs : ∀ other id, (other, id) ≠ (worker, (s.jobs.hand.batchSet worker).receiverBufId) →
      t.jobs.buf other id = s.jobs.buf other id) : Aside numSchedInsDel s t := by
  refine ⟨kernels, ?_, sees_of_same hand refreshed, .inl hand⟩
  intro other id different
  apply bufs
  rintro same
  cases same
  exact different rfl

theorem node_aside {s t : Node workers} (step : NodeStep numSchedInsDel s t) (lock : Lockstep s.jobs.hand)
    (clean : ∀ worker, s.jobs.refreshed worker = true → s.jobs.hand.senders worker = .holding)
    (noKernels : ∀ gpuBufId, s.jobs.hand.pc = .kernels gpuBufId → t.jobs.hand.pc = .kernels gpuBufId)
    (noRefresh : ∀ worker, s.jobs.refreshed worker = false → t.jobs.refreshed worker = false) :
    Aside numSchedInsDel s t := by
  cases step with
  | refill worker supply size itList m bufs empty result =>
    obtain ⟨_, _, kernels, hand, _⟩ := queueDeletes_frame worker (s.countedDeletes worker bufs) s
    exact aside_receiver worker kernels hand (queueDeletes_refreshed _ s) fun other id different =>
      queueDeletes_buf (s.countedDeletes worker bufs) different
  | set worker build v key nkey nbyte bytes sig it m batch read signature taken =>
    have same : s.set build worker nkey nbyte bytes sig it m batch =
        (s.filled worker nkey nbyte bytes it m batch).insertJob build worker it nkey nbyte sig := rfl
    rw [same, Node.insertJob]
    split
    · exact aside_receiver worker rfl rfl rfl fun _ _ _ => rfl
    · split
      · exact aside_receiver worker rfl rfl rfl fun other id different => setBuf_changed _ different
      · exact aside_receiver worker rfl rfl rfl fun _ _ _ => rfl
  | touch id pos bound => exact aside_receiver 0 rfl rfl rfl fun _ _ _ => rfl
  | hand t step _ noPush =>
    exact ⟨rfl, fun _ _ _ => rfl, sees_hand lock clean step noKernels noPush, .inr step⟩
  | launch gpuBufId turn => cases noKernels gpuBufId turn
  | refresh worker turn fresh =>
    have set : (s.jobs.refresh worker).refreshed worker = true := refresh_refreshed s.jobs worker
    cases set.symm.trans (noRefresh worker fresh)
  | push worker batch turn fresh pushed =>
    exact ⟨rfl, fun _ _ _ => rfl, sees_push batch fresh, .inr (.push _ worker batch turn pushed)⟩

end Aside

section Known

structure Server.Known (s : Server workers g) : Prop where
  reached : (Store.node workers 0).Reachable s.node
  drained : Drained s.streams
  index : ∀ slot, s.node.Holds (Hash.entry s.device.store.table slot).2

theorem Server.Known.accounted (known : s.Known) : Accounted 0 s.node.jobs :=
  accounted_reachable (consistent_reachable known.reached).jobs

theorem Server.Known.lock (known : s.Known) : Lockstep s.node.jobs.hand :=
  lockstep_reachable (jobs_hand (consistent_reachable known.reached).jobs)

theorem Server.Known.buffer (known : s.Known) (turn : s.node.jobs.hand.pc = .kernels bufId) :
    bufId = slot s.node.jobs.hand.round := by
  have place := known.lock.scheduler
  rw [turn] at place
  exact place

/-- All workers' buffers of the round are with the scheduler. -/
theorem Server.Known.taken (known : s.Known) (turn : s.node.jobs.hand.pc = .kernels bufId) (worker : Worker workers) :
    phase s.node.jobs.hand.pc worker = .taken ∧ slot (roundOf s.node.jobs worker) = bufId := by
  rw [known.buffer turn, roundOf, turn]
  exact ⟨rfl, rfl⟩

theorem Server.Known.idle (known : s.Known) (outside : ∀ bufId, s.node.jobs.hand.pc ≠ .kernels bufId)
    (worker : Worker workers) : s.stream worker = [] :=
  List.map_eq_nil_iff.mp (known.drained (.inr outside) worker)

/-- What waits on a stream is of the round whose kernels the scheduler is at. -/
theorem Server.Known.busy (known : s.Known) {command : Command} {rest : List Command}
    (waiting : s.stream worker = command :: rest) : ∃ bufId, s.node.jobs.hand.pc = .kernels bufId := by
  by_contra outside
  have empty := known.idle (fun bufId turn => outside ⟨bufId, turn⟩) worker
  rw [waiting] at empty
  cases empty

theorem holds_step {s t : Node workers} (reached : (node workers 0).Reachable s) (step : NodeStep 0 s t)
    {loc : Hash.Loc} (holds : s.Holds loc) : t.Holds loc :=
  holds.imp_right fun item => item.step (consistent_reachable reached) step

end Known

section Workers

/-- The receiver has another buffer than the scheduler, and than the sender. -/
theorem Server.Known.receiver_apart (known : s.Known) (worker : Worker workers) :
    (phase s.node.jobs.hand.pc worker = .taken →
      slot (roundOf s.node.jobs worker) ≠ (s.node.jobs.hand.batchSet worker).receiverBufId) ∧
    ∀ last, roundOf s.node.jobs worker = last + 1 →
      slot last ≠ (s.node.jobs.hand.batchSet worker).receiverBufId := by
  rw [known.lock.receiver_slot]
  refine ⟨?_, ?_⟩
  · intro taken
    rw [interval_taken taken]
    exact (slot_distinct (roundOf s.node.jobs worker)).1
  · intro last here
    obtain ⟨next, _, behind⟩ := slot_distinct last
    by_cases taken : phase s.node.jobs.hand.pc worker = .taken
    · rw [interval_taken taken, ← roundOf, here]
      exact behind
    · rw [interval_ready taken, ← roundOf, here]
      exact next

theorem Server.Serving.aside {after : Node workers} (serving : s.Serving) (known : s.Known) (step : NodeStep 0 s.node after)
    (noKernels : ∀ gpuBufId, s.node.jobs.hand.pc = .kernels gpuBufId → after.jobs.hand.pc = .kernels gpuBufId)
    (noRefresh : ∀ worker, s.node.jobs.refreshed worker = false → after.jobs.refreshed worker = false) :
    { s with node := after }.Serving := by
  have aside := node_aside step known.lock known.accounted.clean noKernels noRefresh
  have holds : ∀ loc, s.node.Holds loc → after.Holds loc := fun loc => holds_step known.reached step
  have kernels : ∀ run ∈ s.node.kernels, run ∈ after.kernels := fun run member => aside.kernels ▸ member
  have delivered : ∀ worker round, s.Delivered worker round → { s with node := after }.Delivered worker round :=
    fun worker round before => before.mono rfl rfl rfl holds kernels
  refine ⟨?_, ?_, ?_, ?_⟩
  · intro bufId turn
    by_cases inside : ∃ before, s.node.jobs.hand.pc = .kernels before
    · obtain ⟨before, here⟩ := inside
      have same : before = bufId := by
        cases (noKernels before here).symm.trans turn
        rfl
      subst same
      have round : after.jobs.hand.round = s.node.jobs.hand.round := by
        rcases aside.hand with same | moved
        · rw [same]
        · have counted := countedRound_hand moved noKernels
          rw [countedRound, countedRound, here] at counted
          have now : after.jobs.hand.pc = .kernels before := turn
          rw [now] at counted
          exact counted
      obtain ⟨complete, working⟩ := serving.working before here
      refine ⟨complete, fun worker => ?_⟩
      apply (working worker).mono (t := { s with node := after }) rfl _ round rfl rfl rfl rfl rfl rfl rfl holds
      intro other
      obtain ⟨taken, place⟩ := known.taken here other
      exact aside.bufs other before (place ▸ (known.receiver_apart other).1 taken)
    · have outside : ∀ before, s.node.jobs.hand.pc ≠ .kernels before := fun before here => inside ⟨before, here⟩
      obtain ⟨stage, none⟩ := serving.resting outside
      refine ⟨fun _ _ => False, fun worker => ?_⟩
      exact Server.Working.enter (known.idle outside worker) stage (none worker).1 (none worker).2
  · intro outside
    apply serving.resting
    exact fun bufId here => outside bufId (noKernels bufId here)
  · intro worker finished
    cases aside.sees worker with
    | same round same _ =>
      have before := delivered worker _ (serving.done worker (same.mp finished))
      rw [← round] at before
      exact before
    | given _ _ never _ _ => exact absurd finished never
  · intro worker fresh
    cases aside.sees worker with
    | same round _ same =>
      obtain ⟨last, here, before⟩ := serving.given worker (same.mp fresh)
      exact ⟨last, round.trans here, delivered worker last before⟩
    | given round finished _ _ _ =>
      exact ⟨roundOf s.node.jobs worker, round, delivered worker _ (serving.done worker finished)⟩

/-- A step that changes no buffer the scheduler has, and none whose results its sender has yet to read. -/
theorem Server.Serving.mono (serving : s.Serving) (known : s.Known) (hand : t.node.jobs.hand = s.node.jobs.hand)
    (kernels : t.node.kernels = s.node.kernels) (holds : ∀ loc, s.node.Holds loc → t.node.Holds loc)
    (rest : (t.searchOut, t.deviceBuf, t.device, t.stream, t.kernel, t.stage, t.found) =
      (s.searchOut, s.deviceBuf, s.device, s.stream, s.kernel, s.stage, s.found))
    (taken : ∀ other, phase s.node.jobs.hand.pc other = .taken →
      t.searchJobs other (slot (roundOf s.node.jobs other)) = s.searchJobs other (slot (roundOf s.node.jobs other)) ∧
        t.node.jobs.buf other (slot (roundOf s.node.jobs other)) =
          s.node.jobs.buf other (slot (roundOf s.node.jobs other)))
    (given : ∀ other, Unrefreshed t.node.jobs other → Unrefreshed s.node.jobs other ∧
      ∀ last, roundOf s.node.jobs other = last + 1 → t.searchJobs other (slot last) = s.searchJobs other (slot last)) :
    t.Serving := by
  simp only [Prod.mk.injEq] at rest
  obtain ⟨out, deviceBuf, device, stream, kernel, stage, found⟩ := rest
  have round : ∀ other, roundOf t.node.jobs other = roundOf s.node.jobs other := by
    intro other
    rw [roundOf, hand, roundOf]
  have more : ∀ run ∈ s.node.kernels, run ∈ t.node.kernels := fun run member => kernels ▸ member
  refine ⟨?_, ?_, ?_, ?_⟩
  · intro bufId turn
    rw [hand] at turn
    obtain ⟨complete, working⟩ := serving.working bufId turn
    have same : ∀ other, t.searchJobs other bufId = s.searchJobs other bufId ∧
        t.node.jobs.buf other bufId = s.node.jobs.buf other bufId := by
      intro other
      obtain ⟨here, place⟩ := known.taken turn other
      have kept := taken other here
      rw [place] at kept
      exact kept
    refine ⟨complete, fun worker => ?_⟩
    exact (working worker).mono (same worker).1 (fun other => (same other).2) (congrArg State.round hand) deviceBuf device
      stream kernel stage found (congrFun (congrFun out worker) bufId) holds
  · intro outside
    rw [hand] at outside
    obtain ⟨start, none⟩ := serving.resting outside
    refine ⟨stage.trans start, fun worker => ?_⟩
    rw [kernel]
    refine ⟨(none worker).1, fun place => ?_⟩
    rw [Server.tasks, device]
    exact (none worker).2 place
  · intro worker finished
    rw [hand] at finished
    rw [round]
    exact (serving.done worker finished).mono (taken worker (phase_of_kernelsDone finished)).1 (congrFun found _)
      (congrFun (congrFun out worker) _) holds more
  · intro worker fresh
    obtain ⟨before, kept⟩ := given worker fresh
    obtain ⟨last, here, delivered⟩ := serving.given worker before
    exact ⟨last, (round worker).trans here, delivered.mono (kept last here) (congrFun found _)
      (congrFun (congrFun out worker) _) holds more⟩

theorem Server.Serving.receive (serving : s.Serving) (known : s.Known) (worker : Worker workers) (elem : Hash.SElem) :
    (s.receive worker elem).Serving := by
  apply serving.mono (t := s.receive worker elem) known rfl rfl (fun _ holds => holds) rfl
  · intro other taken
    refine ⟨setSearchJobs_other ?_ _, rfl⟩
    intro same
    obtain ⟨rfl, place⟩ := Prod.mk.inj same
    exact (known.receiver_apart other).1 taken place
  · intro other fresh
    refine ⟨fresh, fun last here => setSearchJobs_other ?_ _⟩
    intro same
    obtain ⟨rfl, place⟩ := Prod.mk.inj same
    exact (known.receiver_apart other).2 last here place

theorem Server.Serving.refresh (serving : s.Serving) (known : s.Known)
    (turn : s.node.jobs.hand.senders worker = .holding) : (s.refresh worker).Serving := by
  have place := known.lock.sender_slot turn
  apply serving.mono (t := s.refresh worker) known rfl rfl (fun _ holds => holds) rfl
  · intro other taken
    have apart : (other, slot (roundOf s.node.jobs other)) ≠
        (worker, (s.node.jobs.hand.batchSet worker).senderBufId) := by
      rw [place]
      intro same
      obtain ⟨rfl, here⟩ := Prod.mk.inj same
      exact (slot_distinct (roundOf s.node.jobs other)).2.2 here
    exact ⟨setSearchJobs_other apart _, setBuf_changed _ apart⟩
  · intro other fresh
    have another : other ≠ worker := by
      rintro rfl
      exact refresh_unrefreshed_self fresh
    refine ⟨(refresh_unrefreshed_other another).mp fresh, fun last here => setSearchJobs_other ?_ _⟩
    exact fun same => another (congrArg Prod.fst same)

end Workers

section Launches

/-- A step of the round besides those of the node. -/
theorem Server.Serving.round (serving : s.Serving) (turn : s.node.jobs.hand.pc = .kernels bufId) (node : t.node = s.node)
    (working : ∃ complete : Worker workers → StreamOp → Prop, ∀ worker, t.Working bufId worker (complete worker))
    (given : ∀ worker last, roundOf s.node.jobs worker = last + 1 → s.Delivered worker last → t.Delivered worker last) :
    t.Serving := by
  refine ⟨?_, ?_, ?_, ?_⟩
  · intro other here
    rw [node, turn] at here
    cases here
    exact working
  · intro outside
    rw [node] at outside
    exact absurd turn (outside bufId)
  · intro worker finished
    rw [node, turn] at finished
    cases finished
  · intro worker fresh
    rw [node] at fresh
    obtain ⟨last, here, delivered⟩ := serving.given worker fresh
    rw [node]
    exact ⟨last, here, given worker last here delivered⟩

/-- With its streams empty a round is over. -/
theorem Server.Working.over {complete : StreamOp → Prop} (working : s.Working bufId worker complete)
    (empty : s.stream worker = []) : s.kernel worker = none ∧ ∀ place, s.tasks worker place = none := by
  have idle : s.kernel worker = none := by
    cases here : s.kernel worker with
    | none => rfl
    | some running =>
      obtain ⟨_, command, rest, waiting, _⟩ := working.running running here
      rw [empty] at waiting
      cases waiting
  exact ⟨idle, working.kernel.idle idle⟩

/-- Commands are put on the stream of `current`. -/
theorem Server.Working.launch {complete : StreamOp → Prop} (working : s.Working bufId worker complete)
    {current : Worker workers} {list : List Command} {stage : Stage workers} (found : Nat → Hash.Table g)
    (stream : StreamFits worker (s.counts worker bufId) bufId stage
      (Function.update s.stream current (s.stream current ++ list) worker) complete)
    (search : SearchFits (s.searchJobs worker bufId) s.node.Holds
      (fun id => Undisturbed (fun other => s.node.jobs.buf other bufId) g worker
        ((s.searchJobs worker bufId).searchIn id))
      stage (found s.node.jobs.hand.round) s.device.store.table (s.kernel worker) (s.tasks worker)
      (s.device.store.out worker) (s.searchOut worker bufId) complete) :
    { s.launch current list stage with found := found }.Working bufId worker complete := by
  refine ⟨stream, ?_, working.kernel, search⟩
  intro running here
  obtain ⟨kernelOp, command, rest, waiting, op⟩ := working.running running here
  by_cases same : worker = current
  · subst same
    refine ⟨kernelOp, command, rest ++ list, ?_, op⟩
    change Function.update s.stream worker _ worker = _
    rw [Function.update_self, waiting, List.cons_append]
  · refine ⟨kernelOp, command, rest, ?_, op⟩
    exact (Function.update_of_ne same _ _).trans waiting

theorem ne_start_of_searched {stage : Stage workers} (searched : Searched worker stage) : stage ≠ .search 0 := by
  rintro rfl
  exact Fin.not_lt_zero worker searched

/-- The searches of a worker are launched. The first launches of a round find nothing at work. -/
theorem Server.Serving.search (serving : s.Serving) (turn : s.node.jobs.hand.pc = .kernels bufId)
    (stage : s.stage = .search worker) : (s.launchSearch worker bufId).Serving := by
  obtain ⟨complete, working⟩ := serving.working bufId turn
  apply serving.round (t := s.launchSearch worker bufId) turn rfl
  · refine ⟨complete, fun other => ?_⟩
    apply (working other).launch
      (if worker = 0 then Function.update s.found s.node.jobs.hand.round s.device.store.table else s.found)
    · have fits := (working other).stream
      rw [stage] at fits
      by_cases here : other = worker
      · subst here
        rw [Function.update_self]
        exact fits.launchSearch _
      · rw [Function.update_of_ne here]
        exact fits.goesOn (searched_other here)
    · by_cases first : worker = 0
      · subst first
        have unsearched : ¬Searched other s.stage := by
          rw [stage]
          exact Fin.not_lt_zero other
        obtain ⟨nothing, empty⟩ := (working other).stream.fresh unsearched
        apply SearchFits.fresh nothing
        · exact ((working other).over empty).1
        · intro _
          rw [if_pos rfl, Function.update_self]
      · rw [if_neg first]
        apply (working other).search.goesOn
        rw [stage]
        intro start
        cases start
        exact first rfl
  · intro other last here before
    apply before.mono (t := s.launchSearch worker bufId) rfl _ rfl (fun _ holds => holds) fun _ member => member
    have different : last ≠ s.node.jobs.hand.round := by
      rw [roundOf, turn] at here
      change s.node.jobs.hand.round = last + 1 at here
      omega
    simp only [Server.launchSearch]
    split
    · exact Function.update_of_ne different _ _
    · rfl

/-- Another launch of the scheduler, after those of the searches. -/
theorem Server.Serving.launch (serving : s.Serving) (turn : s.node.jobs.hand.pc = .kernels bufId)
    {list : List Command} {stage : Stage workers} (before : ∀ other, Searched other s.stage)
    (stream : ∀ complete, StreamFits worker (s.counts worker bufId) bufId s.stage (s.stream worker) complete →
      StreamFits worker (s.counts worker bufId) bufId stage (s.stream worker ++ list) complete)
    (later : ∀ other, Searched other stage) : (s.launch worker list stage).Serving := by
  obtain ⟨complete, working⟩ := serving.working bufId turn
  apply serving.round (t := s.launch worker list stage) turn rfl
  · refine ⟨complete, fun other => ?_⟩
    apply (working other).launch s.found
    · have fits := (working other).stream
      by_cases here : other = worker
      · subst here
        rw [Function.update_self]
        exact stream _ fits
      · rw [Function.update_of_ne here]
        exact fits.goesOn (iff_of_true (later other) (before other))
    · exact (working other).search.goesOn (ne_start_of_searched (before other))
  · intro other last here before
    exact before.mono rfl rfl rfl (fun _ holds => holds) fun _ member => member

theorem launch_nil (s : Server workers g) (worker : Worker workers) (stage : Stage workers) :
    s.launch worker [] stage = { s with stage := stage } := by
  rw [Server.launch, List.append_nil, Function.update_eq_self]

theorem Server.Serving.stage (serving : s.Serving) (turn : s.node.jobs.hand.pc = .kernels bufId) {stage : Stage workers}
    (before : ∀ other, Searched other s.stage) (later : ∀ other, Searched other stage) :
    { s with stage := stage }.Serving := by
  rw [← launch_nil s 0 stage]
  apply serving.launch turn before _ later
  intro complete fits
  rw [List.append_nil]
  exact fits.goesOn (iff_of_true (later 0) (before 0))

end Launches

section Kernels

/-- The kernels of a round have been the only ones to interfere. -/
theorem apart_launched (known : s.Known) {query : Hash.SElem}
    (apart : (s.node.launch 0 bufId).Apart g s.node.jobs.hand.round worker query) :
    Undisturbed (fun other => s.node.jobs.buf other bufId) g worker query := by
  intro other another job member
  have launched : job ∈ (s.node.jobs.buf other bufId).launched := by
    rw [(known.accounted.counted other bufId).launched]
    exact member
  obtain ⟨run, ran, rfl, round, _, inside⟩ := @mem_launched workers 0 other s.node.jobs bufId rfl job launched
  exact apart run (List.mem_append_right _ ran) round another job inside

theorem Server.Serving.kernels (serving : s.Serving) (known : s.Known) (turn : s.node.jobs.hand.pc = .kernels bufId)
    (stage : s.stage = .done) : { s with node := s.node.launch 0 bufId, stage := .search 0 }.Serving := by
  obtain ⟨complete, working⟩ := serving.working bufId turn
  have empty : ∀ worker, s.stream worker = [] :=
    fun worker => List.map_eq_nil_iff.mp (known.drained (.inl stage) worker)
  have place := known.buffer turn
  refine ⟨?_, ?_, ?_, ?_⟩
  · intro other here
    cases here
  · exact fun _ => ⟨rfl, fun worker => (working worker).over (empty worker)⟩
  · intro worker _
    have round := (kernels_round 0 turn worker).1
    change roundOf (s.node.launch 0 bufId).jobs worker = _ at round
    change Server.Delivered _ worker (roundOf (s.node.launch 0 bufId).jobs worker)
    rw [round, Server.Delivered, ← place]
    by_cases none : (s.searchJobs worker bufId).numSearchJob = 0
    · exact .none none
    · have fits := (working worker).stream
      rw [stage, empty worker] at fits
      have arrived := (fits.searched trivial (Nat.pos_of_ne_zero none) .copySearchOut (by decide)).resolve_right
        List.not_mem_nil
      apply ((working worker).search.arrived arrived).mono fun _ holds => holds
      exact fun id apart => apart_launched known apart
  · intro worker fresh
    obtain ⟨last, here, delivered⟩ := serving.given worker fresh
    obtain ⟨after, before⟩ := kernels_round 0 turn worker
    refine ⟨last, after.trans (before.symm.trans here), ?_⟩
    exact delivered.mono rfl rfl rfl (fun _ holds => holds) fun _ member => List.mem_append_left _ member

end Kernels

end MegaKV.Store
