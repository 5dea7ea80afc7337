import MegaKV.Scheduler.Streams
import MegaKV.Store.Index

namespace MegaKV.Store

open Library Slab Scheduler

/-- `search_in` of a buffer, with its counter. -/
structure SearchJobs where
  searchIn : Nat → Hash.SElem
  numSearchJob : Nat

/-- The input arrays that a worker has on the device, for all three of its buffers. -/
structure DeviceBuf where
  searchIn : Nat → Hash.SElem
  deleteIn : Nat → Hash.DElem
  insertIn : Nat → Nat → Hash.IElem
  insertJobNum : Nat → Nat

/-- A launch with the counts it has been called with. -/
structure Command where
  launch : Launch
  num : Nat → Nat

/-- The lanes of a worker's kernel that work on one element of one of the arrays. -/
abbrev Lanes (workers : Nat) := Worker workers × Nat × Nat

section Commands

def SearchJobs.add (searches : SearchJobs) (elem : Hash.SElem) : SearchJobs :=
  { searchIn := Function.update searches.searchIn searches.numSearchJob elem
    numSearchJob := searches.numSearchJob + 1 }

def countsOf (searches : SearchJobs) (buf : JobBuf) : Counts :=
  { numSearchJob := searches.numSearchJob
    numDeleteJob := buf.numDeleteJob
    numInsertJob := buf.numInsertJob
    insertBuf := fun i => (buf.insertBuf i).numInsertJob }

def copied {Elem : Type} (num : Nat) (source target : Nat → Elem) (k : Nat) : Elem :=
  if k < num then source k else target k

def DeviceBuf.copy (device : DeviceBuf) (searches : SearchJobs) (buf : JobBuf) (num : Nat → Nat) : StreamOp → DeviceBuf
  | .copySearchIn => { device with searchIn := copied (num 0) searches.searchIn device.searchIn }
  | .copyDeleteIn => { device with deleteIn := copied (num 0) (fun k => (buf.deleteIn k).elem) device.deleteIn }
  | .copyInsertIn block =>
    let source := fun k => ((buf.insertBuf block).insertIn k).elem
    { device with
      insertIn := Function.update device.insertIn block (copied (num block) source (device.insertIn block)) }
  | .copyInsertNum => { device with insertJobNum := num }
  | _ => device

def IsKernel : StreamOp → Prop
  | .search => True
  | .delete => True
  | .insert => True
  | _ => False

variable {g : Hash.Geometry} {workers : Nat}

def DeviceBuf.works (device : DeviceBuf) (worker : Worker workers) (num : Nat → Nat)
    (schedule : Nat → Hash.Schedule g) : StreamOp → Nat × Nat → Option (Hash.Work g (Worker workers))
  | .search, (block, k) =>
    if block = 0 ∧ k < num 0 then some (.search (device.searchIn k) worker k (schedule k)) else none
  | .delete, (block, k) => if block = 0 ∧ k < num 0 then some (.delete (device.deleteIn k)) else none
  | .insert, (block, k) =>
    if block < numInsertBuf ∧ k < device.insertJobNum block then some (.insert (device.insertIn block k)) else none
  | _, _ => none

variable (counts : Counts) (round : Nat) (bufId : Int)

def commands (num : Nat → Nat) (launches : List Launch) : List Command := launches.map fun launch => ⟨launch, num⟩

def searchCommands : List Command := commands (fun _ => counts.numSearchJob) (searchLaunches counts round bufId)

def deleteCommands : List Command := commands (fun _ => counts.numDeleteJob) (deleteLaunches counts round bufId)

def insertCommands : List Command := commands counts.insertBuf (insertLaunches counts round bufId)

end Commands

section System

variable (workers : Nat) (g : Hash.Geometry)

/-- A kernel that has begun, with the elements that no lanes have taken up. -/
structure RunningKernel where
  op : StreamOp
  unstarted : Nat × Nat → Option (Hash.Work g (Worker workers))

/-- The node with the searches, the streams and the device. `found` records the index as each round has found it. -/
structure Server where
  node : Node workers
  searchJobs : Worker workers → Int → SearchJobs
  searchOut : Worker workers → Int → Nat → Hash.Loc
  deviceBuf : Worker workers → DeviceBuf
  device : Pool (Lanes workers) (Hash.Task g (Worker workers)) (Hash.Device g (Worker workers))
  stream : Worker workers → List Command
  kernel : Worker workers → Option (RunningKernel workers g)
  stage : Stage workers
  found : Nat → Hash.Table g

end System

variable {workers numSchedInsDel : Nat} {g : Hash.Geometry}

section Steps

variable (s : Server workers g) (worker : Worker workers)

def Server.setSearchJobs (id : Int) (searches : SearchJobs) : Server workers g :=
  { s with searchJobs := Function.update s.searchJobs worker (Function.update (s.searchJobs worker) id searches) }

def Server.counts (worker : Worker workers) (id : Int) : Counts :=
  countsOf (s.searchJobs worker id) (s.node.jobs.buf worker id)

def Server.launch (list : List Command) (stage : Stage workers) : Server workers g :=
  { s with stream := Function.update s.stream worker (s.stream worker ++ list), stage := stage }

def Server.turn (turn : Turn (Lanes workers) (Hash.Work g (Worker workers))) : Server workers g :=
  { s with device := s.device.turn Hash.begin Hash.access turn }

/-- What a command other than a kernel does. -/
def Server.transfer (command : Command) : Server workers g :=
  let bufId := command.launch.bufId
  match command.launch.op with
  | .clearSearchOut =>
    (s.turn (.start (worker, 0, 0) (.clear worker (command.num 0)))).turn (.access (worker, 0, 0))
  | .copySearchOut =>
    let out := copied (2 * command.num 0) (s.device.store.out worker) (s.searchOut worker bufId)
    { s with searchOut := Function.update s.searchOut worker (Function.update (s.searchOut worker) bufId out) }
  | op =>
    let device := (s.deviceBuf worker).copy (s.searchJobs worker bufId) (s.node.jobs.buf worker bufId) command.num op
    { s with deviceBuf := Function.update s.deviceBuf worker device }

def Server.setStream (rest : List Command) : Server workers g :=
  { s with stream := Function.update s.stream worker rest }

def Server.setKernel (kernel : Option (RunningKernel workers g)) : Server workers g :=
  { s with kernel := Function.update s.kernel worker kernel }

attribute [local instance (high)] Nat.instNeZeroSucc in
/-- The launches for the searches of a worker, the first of a round for worker 0. -/
def Server.launchSearch (gpuBufId : Int) : Server workers g :=
  let round := s.node.jobs.hand.round
  { s.launch worker (searchCommands (s.counts worker gpuBufId) round gpuBufId) (.nextWorker worker .search .decide) with
    found := if worker = 0 then Function.update s.found round s.device.store.table else s.found }

def Server.receive (elem : Hash.SElem) : Server workers g :=
  let id := (s.node.jobs.hand.batchSet worker).receiverBufId
  s.setSearchJobs worker id ((s.searchJobs worker id).add elem)

/-- `mega_sender_refresh_buffer`. -/
def Server.refresh : Server workers g :=
  let id := (s.node.jobs.hand.batchSet worker).senderBufId
  { s.setSearchJobs worker id { s.searchJobs worker id with numSearchJob := 0 } with
    node := { s.node with jobs := s.node.jobs.refresh worker } }

end Steps

/-- The steps of the node come between those of the device in any order. The commands of a stream follow each other,
    those of different streams do not wait for each other, and the lanes of a kernel access the index in any order. -/
inductive ServerStep (numSchedInsDel : Nat) : Server workers g → Server workers g → Prop where
  | node (s : Server workers g) (t : Node workers) (step : NodeStep numSchedInsDel s.node t)
      (noKernels : ∀ gpuBufId, s.node.jobs.hand.pc = .kernels gpuBufId → t.jobs.hand.pc = .kernels gpuBufId)
      (noRefresh : ∀ worker, s.node.jobs.refreshed worker = false → t.jobs.refreshed worker = false) :
      ServerStep numSchedInsDel s { s with node := t }
  | receive (s : Server workers g) (worker : Worker workers) (elem : Hash.SElem)
      (room : (s.searchJobs worker (s.node.jobs.hand.batchSet worker).receiverBufId).numSearchJob <
        Receiver.batchMaxSearchJob - 1) :
      ServerStep numSchedInsDel s (s.receive worker elem)
  | refresh (s : Server workers g) (worker : Worker workers) (turn : s.node.jobs.hand.senders worker = .holding)
      (before : s.node.jobs.refreshed worker = false) :
      ServerStep numSchedInsDel s (s.refresh worker)
  | search (s : Server workers g) (gpuBufId : Int) (worker : Worker workers)
      (turn : s.node.jobs.hand.pc = .kernels gpuBufId) (stage : s.stage = .search worker) :
      ServerStep numSchedInsDel s (s.launchSearch worker gpuBufId)
  | decide (s : Server workers g) (gpuBufId : Int) (turn : s.node.jobs.hand.pc = .kernels gpuBufId)
      (stage : s.stage = .decide) :
      ServerStep numSchedInsDel s
        { s with stage := if insertsDeletes numSchedInsDel s.node.jobs.hand.schedInsDel then .delete 0 else .done }
  | delete (s : Server workers g) (gpuBufId : Int) (worker : Worker workers)
      (turn : s.node.jobs.hand.pc = .kernels gpuBufId) (stage : s.stage = .delete worker) :
      ServerStep numSchedInsDel s
        (s.launch worker (deleteCommands (s.counts worker gpuBufId) s.node.jobs.hand.round gpuBufId)
          (.nextWorker worker .delete (.insert 0)))
  | insert (s : Server workers g) (gpuBufId : Int) (worker : Worker workers)
      (turn : s.node.jobs.hand.pc = .kernels gpuBufId) (stage : s.stage = .insert worker) :
      ServerStep numSchedInsDel s
        (s.launch worker (insertCommands (s.counts worker gpuBufId) s.node.jobs.hand.round gpuBufId)
          (.nextWorker worker .insert .synchronize))
  | synchronize (s : Server workers g) (gpuBufId : Int) (turn : s.node.jobs.hand.pc = .kernels gpuBufId)
      (stage : s.stage = .synchronize) (drained : ∀ worker, s.stream worker = []) :
      ServerStep numSchedInsDel s { s with stage := .done }
  | kernels (s : Server workers g) (gpuBufId : Int) (turn : s.node.jobs.hand.pc = .kernels gpuBufId)
      (stage : s.stage = .done) :
      ServerStep numSchedInsDel s { s with node := s.node.launch numSchedInsDel gpuBufId, stage := .search 0 }
  | transfer (s : Server workers g) (worker : Worker workers) (command : Command) (rest : List Command)
      (waiting : s.stream worker = command :: rest) (transfers : ¬IsKernel command.launch.op) :
      ServerStep numSchedInsDel s ((s.transfer worker command).setStream worker rest)
  | begin (s : Server workers g) (worker : Worker workers) (command : Command) (rest : List Command)
      (schedule : Nat → Hash.Schedule g) (waiting : s.stream worker = command :: rest)
      (works : IsKernel command.launch.op) (idle : s.kernel worker = none) :
      ServerStep numSchedInsDel s
        (s.setKernel worker
          (some ⟨command.launch.op, (s.deviceBuf worker).works worker command.num schedule command.launch.op⟩))
  | start (s : Server workers g) (worker : Worker workers) (elem : Nat × Nat) (work : Hash.Work g (Worker workers))
      (kernel : RunningKernel workers g) (running : s.kernel worker = some kernel)
      (here : kernel.unstarted elem = some work) :
      ServerStep numSchedInsDel s
        ((s.turn (.start (worker, elem) work)).setKernel worker
          (some { kernel with unstarted := Function.update kernel.unstarted elem none }))
  | access (s : Server workers g) (lanes : Lanes workers) : ServerStep numSchedInsDel s (s.turn (.access lanes))
  | finish (s : Server workers g) (worker : Worker workers) (command : Command) (rest : List Command)
      (kernel : RunningKernel workers g) (waiting : s.stream worker = command :: rest)
      (running : s.kernel worker = some kernel) (started : ∀ elem, kernel.unstarted elem = none)
      (ended : ∀ elem, s.device.task (worker, elem) = none) :
      ServerStep numSchedInsDel s ((s.setKernel worker none).setStream worker rest)

variable (workers numSchedInsDel g) in
attribute [local instance (high)] Nat.instNeZeroSucc in
/-- What the arrays on the device hold at first is not known. -/
def server (initial : Worker workers → Nat → Hash.Loc) : TransitionSystem (Server workers g) :=
  { initial := fun s =>
      (node workers numSchedInsDel).initial s.node ∧ s.device = Hash.blankDevice (Lanes workers) initial ∧
        (∀ worker id, (s.searchJobs worker id).numSearchJob = 0) ∧
        (∀ worker, s.stream worker = [] ∧ s.kernel worker = none) ∧ s.stage = .search 0
    step := ServerStep numSchedInsDel }

section Streams

variable {s t : Server workers g} {worker : Worker workers}

def Server.streams (s : Server workers g) : StreamState workers :=
  { hand := s.node.jobs.hand
    counts := s.counts
    stream := fun worker => (s.stream worker).map Command.launch
    stage := s.stage }

theorem commands_launch (num : Nat → Nat) (launches : List Launch) :
    (commands num launches).map Command.launch = launches := by
  rw [commands, List.map_map]
  exact List.map_id _

theorem stream_launch (s : Server workers g) (worker : Worker workers) (list : List Command) (stage : Stage workers) :
    (s.launch worker list stage).streams = s.streams.launch worker (list.map Command.launch) stage := by
  have streams : (fun other => (Function.update s.stream worker (s.stream worker ++ list) other).map Command.launch) =
      Function.update (fun other => (s.stream other).map Command.launch) worker
        ((s.stream worker).map Command.launch ++ list.map Command.launch) := by
    funext other
    by_cases here : other = worker
    · subst here
      rw [Function.update_self, Function.update_self, List.map_append]
    · rw [Function.update_of_ne here, Function.update_of_ne here]
  rw [Server.streams, StreamState.launch, Server.launch]
  simp only [streams]
  rfl

theorem stream_rest {rest : List Command} :
    (fun other => (Function.update s.stream worker rest other).map Command.launch) =
      Function.update (fun other => (s.stream other).map Command.launch) worker (rest.map Command.launch) := by
  funext other
  by_cases here : other = worker
  · subst here
    rw [Function.update_self, Function.update_self]
  · rw [Function.update_of_ne here, Function.update_of_ne here]

/-- The counters of one buffer have changed. -/
theorem streams_changed {changed : Int} (hand : t.node.jobs.hand = s.node.jobs.hand) (stream : t.stream = s.stream)
    (stage : t.stage = s.stage)
    (others : ∀ other id, (other, id) ≠ (worker, changed) → t.counts other id = s.counts other id) :
    t.streams = s.streams.setCounts worker changed (t.counts worker changed) := by
  have counts : t.counts = Function.update s.counts worker
      (Function.update (s.counts worker) changed (t.counts worker changed)) := by
    funext other id
    by_cases owner : other = worker
    · subst owner
      rw [Function.update_self]
      by_cases here : id = changed
      · subst here
        rw [Function.update_self]
      · rw [Function.update_of_ne here]
        exact others other id fun same => here (congrArg Prod.snd same)
    · rw [Function.update_of_ne owner]
      exact others other id fun same => owner (congrArg Prod.fst same)
  rw [Server.streams, hand, stream, stage]
  exact congrArg (fun counts => StreamState.mk _ counts _ _) counts

theorem setSearchJobs_other {other : Worker workers} {id changed : Int} (different : (other, id) ≠ (worker, changed))
    (searches : SearchJobs) : (s.setSearchJobs worker changed searches).searchJobs other id = s.searchJobs other id := by
  by_cases owner : other = worker
  · subst owner
    have place : id ≠ changed := fun same => different (congrArg (Prod.mk other) same)
    simp only [Server.setSearchJobs, Function.update_self, Function.update_of_ne place]
  · simp only [Server.setSearchJobs, Function.update_of_ne owner]

theorem setBuf_changed (jobs : JobState workers) {buf : JobBuf} {other : Worker workers} {id changed : Int}
    (different : (other, id) ≠ (worker, changed)) :
    (jobs.setBuf worker changed buf).buf other id = jobs.buf other id := by
  apply setBuf_other
  by_cases owner : other = worker
  · refine .inr fun here => different ?_
    rw [owner, here]
  · exact .inl owner

theorem queueDeletes_buf (elems : List Hash.DElem) {node : Node workers} {other : Worker workers} {id : Int}
    (different : (other, id) ≠ (worker, (node.jobs.hand.batchSet worker).receiverBufId)) :
    (elems.foldl (Node.queueDelete worker) node).jobs.buf other id = node.jobs.buf other id := by
  induction elems generalizing node with
  | nil => rfl
  | cons elem rest ih => exact (@ih (node.queueDelete worker elem) different).trans (setBuf_changed node.jobs different)

/-- A step of a worker, for the streams. -/
theorem streams_received {node : Node workers} (hand : node.jobs.hand = s.node.jobs.hand)
    (bufs : ∀ other id, (other, id) ≠ (worker, (s.node.jobs.hand.batchSet worker).receiverBufId) →
      node.jobs.buf other id = s.node.jobs.buf other id) :
    StreamStep numSchedInsDel s.streams { s with node := node }.streams := by
  have counts : ∀ other id, (other, id) ≠ (worker, (s.node.jobs.hand.batchSet worker).receiverBufId) →
      { s with node := node }.counts other id = s.counts other id := by
    intro other id different
    have same := bufs other id different
    simp only [Server.counts, same]
  rw [streams_changed (s := s) (t := { s with node := node }) hand rfl rfl counts]
  exact .receive s.streams worker _

theorem streams_node {node : Node workers} (step : NodeStep numSchedInsDel s.node node)
    (noKernels : ∀ gpuBufId, s.node.jobs.hand.pc = .kernels gpuBufId → node.jobs.hand.pc = .kernels gpuBufId)
    (noRefresh : ∀ worker, s.node.jobs.refreshed worker = false → node.jobs.refreshed worker = false) :
    { s with node := node }.streams = s.streams ∨ StreamStep numSchedInsDel s.streams { s with node := node }.streams := by
  cases step with
  | refill worker supply size itList m bufs empty result =>
    have hand := (queueDeletes_frame worker (s.node.countedDeletes worker bufs) s.node).2.2.2.1
    exact .inr (streams_received hand fun other id different =>
      queueDeletes_buf (s.node.countedDeletes worker bufs) different)
  | set worker build v key nkey nbyte bytes sig it m batch read signature taken =>
    have same : s.node.set build worker nkey nbyte bytes sig it m batch =
        (s.node.filled worker nkey nbyte bytes it m batch).insertJob build worker it nkey nbyte sig := rfl
    rw [same, Node.insertJob]
    split
    · exact .inl rfl
    · split
      · exact .inr (streams_received rfl fun other id different => setBuf_changed _ different)
      · exact .inl rfl
  | touch id pos bound => exact .inl rfl
  | hand t step noKernels noPush => exact .inr (.hand _ t step noKernels)
  | launch gpuBufId turn => cases noKernels gpuBufId turn
  | refresh worker turn fresh =>
    have done := noRefresh worker fresh
    have set : (s.node.jobs.refresh worker).refreshed worker = true := refresh_refreshed s.node.jobs worker
    cases set.symm.trans done
  | push worker batch turn fresh pushed =>
    exact .inr (.hand _ _ (.push _ worker batch turn pushed) noKernels)

theorem transfer_streams (command : Command) : (s.transfer worker command).streams = s.streams := by
  unfold Server.transfer
  split
  · rfl
  · rfl
  · rfl

theorem complete_streams {command : Command} {rest : List Command} (waiting : s.stream worker = command :: rest)
    (same : t.streams = s.streams) :
    StreamStep numSchedInsDel s.streams (t.setStream worker rest).streams := by
  have head : s.streams.stream worker = command.launch :: rest.map Command.launch := by
    change (s.stream worker).map Command.launch = _
    rw [waiting, List.map_cons]
  have after : (t.setStream worker rest).streams =
      { s.streams with stream := Function.update s.streams.stream worker (rest.map Command.launch) } := by
    rw [← same]
    exact congrArg (fun stream => StreamState.mk _ _ stream _) stream_rest
  rw [after]
  exact .complete s.streams worker command.launch _ head

theorem receive_streams (elem : Hash.SElem) :
    (s.receive worker elem).streams = s.streams.setCounts worker (s.node.jobs.hand.batchSet worker).receiverBufId
      ((s.receive worker elem).counts worker (s.node.jobs.hand.batchSet worker).receiverBufId) := by
  apply streams_changed (s := s) (t := s.receive worker elem) rfl rfl rfl
  intro other id different
  have same : (s.receive worker elem).searchJobs other id = s.searchJobs other id := setSearchJobs_other different _
  have node : (s.receive worker elem).node = s.node := rfl
  simp only [Server.counts, node, same]

theorem refresh_streams :
    (s.refresh worker).streams = s.streams.setCounts worker (s.node.jobs.hand.batchSet worker).senderBufId
      (refreshCounts (s.node.jobs.hand.batchSet worker)
        (s.counts worker (s.node.jobs.hand.batchSet worker).senderBufId)) := by
  have own : (s.refresh worker).counts worker (s.node.jobs.hand.batchSet worker).senderBufId =
      refreshCounts (s.node.jobs.hand.batchSet worker)
        (s.counts worker (s.node.jobs.hand.batchSet worker).senderBufId) := by
    have buf : (s.node.jobs.refresh worker).buf worker (s.node.jobs.hand.batchSet worker).senderBufId =
        megaSenderRefreshBuffer (s.node.jobs.hand.batchSet worker)
          (s.node.jobs.buf worker (s.node.jobs.hand.batchSet worker).senderBufId) := setBuf_self
    have searches : (s.refresh worker).searchJobs worker (s.node.jobs.hand.batchSet worker).senderBufId =
        { s.searchJobs worker (s.node.jobs.hand.batchSet worker).senderBufId with numSearchJob := 0 } := by
      simp only [Server.refresh, Server.setSearchJobs, Function.update_self]
    have node : (s.refresh worker).node.jobs = s.node.jobs.refresh worker := rfl
    simp only [Server.counts, countsOf, searches, node, buf, megaSenderRefreshBuffer, refreshCounts]
    split
    · congr 1
      funext i
      by_cases inside : i < numInsertBuf
      · simp only [inside, ite_true]
      · simp only [inside, ite_false]
    · rfl
  rw [← own]
  apply streams_changed (s := s) (t := s.refresh worker) rfl rfl rfl
  intro other id different
  have searches : (s.refresh worker).searchJobs other id = s.searchJobs other id := setSearchJobs_other different _
  have bufs : (s.refresh worker).node.jobs.buf other id = s.node.jobs.buf other id :=
    setBuf_changed s.node.jobs different
  simp only [Server.counts, searches, bufs]

/-- The counters and the streams take the steps of the model without contents. -/
theorem streams_step (step : ServerStep numSchedInsDel s t) :
    t.streams = s.streams ∨ StreamStep numSchedInsDel s.streams t.streams := by
  cases step with
  | node node step noKernels noRefresh => exact streams_node step noKernels noRefresh
  | receive worker elem room =>
    rw [receive_streams]
    exact .inr (.receive s.streams worker _)
  | refresh worker turn before =>
    rw [refresh_streams]
    exact .inr (.refresh s.streams worker turn)
  | search gpuBufId worker turn stage =>
    have after := stream_launch s worker
      (searchCommands (s.counts worker gpuBufId) s.node.jobs.hand.round gpuBufId) (.nextWorker worker .search .decide)
    rw [searchCommands, commands_launch] at after
    have same : (s.launchSearch worker gpuBufId).streams = _ := after
    rw [same]
    exact .inr (.search s.streams gpuBufId worker turn stage)
  | decide gpuBufId turn stage => exact .inr (.decide s.streams gpuBufId turn stage)
  | delete gpuBufId worker turn stage =>
    rw [stream_launch, deleteCommands, commands_launch]
    exact .inr (.delete s.streams gpuBufId worker turn stage)
  | insert gpuBufId worker turn stage =>
    rw [stream_launch, insertCommands, commands_launch]
    exact .inr (.insert s.streams gpuBufId worker turn stage)
  | synchronize gpuBufId turn stage drained =>
    exact .inr (.synchronize s.streams gpuBufId turn stage fun worker => congrArg (List.map Command.launch) (drained worker))
  | kernels gpuBufId turn stage => exact .inr (.kernels s.streams gpuBufId turn stage)
  | transfer worker command rest waiting transfers =>
    exact .inr (complete_streams waiting (transfer_streams command))
  | begin worker command rest schedule waiting works idle => exact .inl rfl
  | start worker elem work kernel running here => exact .inl rfl
  | access lanes => exact .inl rfl
  | finish worker command rest kernel waiting running started ended =>
    exact .inr (complete_streams (t := s.setKernel worker none) waiting rfl)

theorem streams_reachable {initial : Worker workers → Nat → Hash.Loc}
    (reached : (server workers numSchedInsDel g initial).Reachable s) :
    (streams workers numSchedInsDel).Reachable s.streams := by
  induction reached with
  | initial start =>
    obtain ⟨node, _, _, idle, stage⟩ := start
    exact .initial ⟨node.1.1, fun worker => congrArg (List.map Command.launch) (idle worker).1, stage⟩
  | step _ next before =>
    rcases streams_step next with same | step
    · rw [same]
      exact before
    · exact before.step step

end Streams

end MegaKV.Store
