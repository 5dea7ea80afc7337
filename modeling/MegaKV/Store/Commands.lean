import MegaKV.Library.Sequenced
import MegaKV.Store.Server

namespace MegaKV.Store

open Library Slab Scheduler

variable {workers : Nat}

section Round

/-- What a command of a round finds complete on its stream. -/
def needs (counts : Counts) : StreamOp → StreamOp → Prop
  | .search, .copySearchIn => True
  | .search, .clearSearchOut => True
  | .copySearchOut, .clearSearchOut => True
  | .copySearchOut, .search => True
  | .delete, .copyDeleteIn => True
  | .delete, .search => 0 < counts.numSearchJob
  | .insert, .copyInsertIn block => block < numInsertBuf ∧ 0 < counts.insertBuf block
  | .insert, .copyInsertNum => True
  | .insert, .search => 0 < counts.numSearchJob
  | _, _ => False

def searchOps : List StreamOp := [.copySearchIn, .clearSearchOut, .search, .copySearchOut]

def callCounts (counts : Counts) : StreamOp → Nat → Nat
  | .copyDeleteIn => fun _ => counts.numDeleteJob
  | .delete => fun _ => counts.numDeleteJob
  | .copyInsertIn _ => counts.insertBuf
  | .copyInsertNum => counts.insertBuf
  | .insert => counts.insertBuf
  | _ => fun _ => counts.numSearchJob

def Searched (worker : Worker workers) : Stage workers → Prop
  | .search current => worker < current
  | _ => True

/-- The commands on the stream of a round. Those in `complete` are over. -/
structure StreamFits (worker : Worker workers) (counts : Counts) (bufId : Int) (stage : Stage workers) (stream : List Command)
    (complete : StreamOp → Prop) : Prop where
  ordered : Sequenced (needs counts) complete (stream.map fun command => command.launch.op)
  called : ∀ command ∈ stream, command.launch.bufId = bufId ∧ command.num = callCounts counts command.launch.op
  once : OnlyOnce (fun op => op ∈ searchOps) complete (stream.map fun command => command.launch.op)
  grounded : ∀ op, complete op → ∀ other, needs counts op other → complete other
  fresh : ¬Searched worker stage → (∀ op, ¬complete op) ∧ stream = []
  searched : Searched worker stage → 0 < counts.numSearchJob →
    ∀ op ∈ searchOps, complete op ∨ op ∈ stream.map fun command => command.launch.op

end Round

section Stream

variable {counts : Counts} {bufId : Int} {worker : Worker workers} {stage next : Stage workers} {stream : List Command}
  {complete : StreamOp → Prop}

/-- Nothing has been launched yet. -/
theorem StreamFits.enter (worker : Worker workers) (counts : Counts) (bufId : Int) :
    StreamFits worker counts bufId (.search 0) [] fun _ => False := by
  refine ⟨trivial, by rintro command ⟨⟩, trivial, by rintro op ⟨⟩, fun _ => ⟨fun _ done => done, rfl⟩, ?_⟩
  intro before
  exact absurd before (Fin.not_lt_zero worker)

/-- The scheduler goes on with another worker. -/
theorem StreamFits.goesOn (fits : StreamFits worker counts bufId stage stream complete)
    (same : Searched worker next ↔ Searched worker stage) :
    StreamFits worker counts bufId next stream complete := by
  refine ⟨fits.ordered, fits.called, fits.once, fits.grounded, ?_, ?_⟩
  · rw [same]
    exact fits.fresh
  · rw [same]
    exact fits.searched

/-- The scheduler goes on, with further commands on the stream. -/
theorem StreamFits.launch (fits : StreamFits worker counts bufId stage stream complete) {list : List Command}
    (later : Searched worker next)
    (ordered : Sequenced (needs counts) (fun op => complete op ∨ op ∈ stream.map fun command => command.launch.op)
      (list.map fun command => command.launch.op))
    (called : ∀ command ∈ list, command.launch.bufId = bufId ∧ command.num = callCounts counts command.launch.op)
    (once : OnlyOnce (fun op => op ∈ searchOps) complete ((stream ++ list).map fun command => command.launch.op))
    (searched : ¬Searched worker stage → 0 < counts.numSearchJob →
      ∀ op ∈ searchOps, op ∈ list.map fun command => command.launch.op) :
    StreamFits worker counts bufId next (stream ++ list) complete := by
  refine ⟨?_, ?_, once, fits.grounded, fun before => absurd later before, ?_⟩
  · rw [List.map_append]
    exact fits.ordered.append ordered
  · intro command member
    rcases List.mem_append.mp member with old | new
    · exact fits.called command old
    · exact called command new
  · intro _ some op member
    rw [List.map_append]
    by_cases before : Searched worker stage
    · exact (fits.searched before some op member).imp_right fun waiting => List.mem_append_left _ waiting
    · exact .inr (List.mem_append_right _ (searched before some op member))

/-- Further commands that are none of the searches'. -/
theorem StreamFits.launchMore (fits : StreamFits worker counts bufId stage stream complete) {list : List Command}
    (before : Searched worker stage) (later : Searched worker next)
    (ordered : Sequenced (needs counts) (fun op => complete op ∨ op ∈ stream.map fun command => command.launch.op)
      (list.map fun command => command.launch.op))
    (called : ∀ command ∈ list, command.launch.bufId = bufId ∧ command.num = callCounts counts command.launch.op)
    (others : ∀ op ∈ list.map fun command => command.launch.op, op ∉ searchOps) :
    StreamFits worker counts bufId next (stream ++ list) complete := by
  apply fits.launch later ordered called
  · rw [List.map_append]
    exact fits.once.append others
  · exact fun unsearched => absurd before unsearched

/-- The first command of the stream is over. -/
theorem StreamFits.pop {command : Command} {rest : List Command}
    (fits : StreamFits worker counts bufId stage (command :: rest) complete) :
    StreamFits worker counts bufId stage rest fun op => complete op ∨ op = command.launch.op := by
  refine ⟨fits.ordered.2, fun other member => fits.called other (List.mem_cons_of_mem _ member), fits.once.2, ?_, ?_, ?_⟩
  · intro op done other need
    rcases done with before | rfl
    · exact .inl (fits.grounded op before other need)
    · exact .inl (fits.ordered.1 other need)
  · intro before
    cases (fits.fresh before).2
  · intro here some op member
    rcases fits.searched here some op member with done | waiting
    · exact .inl (.inl done)
    · rcases List.mem_cons.mp waiting with first | behind
      · exact .inl (.inr first)
      · exact .inr behind

theorem commands_ops (num : Nat → Nat) (ops : List StreamOp) (round : Nat) (bufId : Int) :
    (commands num (launchAll round bufId ops)).map (fun command => command.launch.op) = ops := by
  rw [commands, launchAll, List.map_map, List.map_map]
  exact List.map_id _

theorem commands_called {num : Nat → Nat} {ops : List StreamOp} {round : Nat}
    (same : ∀ op ∈ ops, num = callCounts counts op) {command : Command}
    (member : command ∈ commands num (launchAll round bufId ops)) :
    command.launch.bufId = bufId ∧ command.num = callCounts counts command.launch.op := by
  obtain ⟨launch, launched, rfl⟩ := List.mem_map.mp member
  obtain ⟨op, inside, rfl⟩ := List.mem_map.mp launched
  exact ⟨rfl, same op inside⟩

theorem searches_sequenced (counts : Counts) (complete : StreamOp → Prop) :
    Sequenced (needs counts) complete [.copySearchIn, .clearSearchOut, .search, .copySearchOut] := by
  refine ⟨?_, ?_, ?_, ?_, trivial⟩
  all_goals
    intro other need
    cases other <;> simp_all [needs]

theorem deletes_sequenced {counts : Counts} (searched : 0 < counts.numSearchJob → complete .search) :
    Sequenced (needs counts) complete [.copyDeleteIn, .delete] := by
  refine ⟨?_, ?_, trivial⟩
  all_goals
    intro other need
    cases other <;> simp_all [needs]

theorem inserts_sequenced {counts : Counts} (searched : 0 < counts.numSearchJob → complete .search) :
    Sequenced (needs counts) complete
      ((((List.range numInsertBuf).filter fun i => counts.insertBuf i ≠ 0).map .copyInsertIn) ++
        [.copyInsertNum, .insert]) := by
  apply Sequenced.append
  · apply Sequenced.of_complete
    intro op member other need
    obtain ⟨block, _, rfl⟩ := List.mem_map.mp member
    cases need
  · refine ⟨?_, ?_, trivial⟩
    · intro other need
      cases need
    · intro other need
      cases other with
      | copyInsertIn block =>
        refine .inl (.inr (List.mem_map.mpr ⟨block, List.mem_filter.mpr ⟨List.mem_range.mpr need.1, ?_⟩, rfl⟩))
        exact decide_eq_true (Nat.pos_iff_ne_zero.mp need.2)
      | copyInsertNum => exact .inr rfl
      | search => exact .inl (.inl (searched need))
      | _ => cases need

theorem searched_next (worker : Worker workers) : Searched worker (.nextWorker worker .search .decide) := by
  unfold Stage.nextWorker
  cases more : following worker with
  | none => trivial
  | some next =>
    have position := following_some more
    change worker < next
    rw [Fin.lt_def]
    omega

/-- The launches for one worker are none of another's. -/
theorem searched_other {current : Worker workers} (different : worker ≠ current) :
    Searched worker (.nextWorker current .search .decide) ↔ Searched worker (.search current) := by
  have apart : worker.val ≠ current.val := fun same => different (Fin.ext same)
  unfold Stage.nextWorker
  cases more : following current with
  | none =>
    have last := following_none more
    have bound := worker.isLt
    refine ⟨fun _ => ?_, fun _ => trivial⟩
    change worker < current
    rw [Fin.lt_def]
    omega
  | some next =>
    have position := following_some more
    change worker < next ↔ worker < current
    rw [Fin.lt_def, Fin.lt_def]
    omega

theorem StreamFits.launchSearch (fits : StreamFits worker counts bufId (.search worker) stream complete) (round : Nat) :
    StreamFits worker counts bufId (.nextWorker worker .search .decide)
      (stream ++ searchCommands counts round bufId) complete := by
  have unsearched : ¬Searched worker (.search worker) := Fin.lt_irrefl worker
  obtain ⟨nothing, rfl⟩ := fits.fresh unsearched
  rw [searchCommands, searchLaunches]
  split
  · rename_i none
    refine fits.launch (searched_next worker) trivial (by rintro command ⟨⟩) trivial ?_
    intro _ some
    rw [none] at some
    cases some
  · apply fits.launch (searched_next worker)
    · rw [commands_ops]
      exact searches_sequenced counts _
    · intro command member
      refine commands_called ?_ member
      simp [callCounts]
    · rw [List.nil_append, commands_ops]
      exact onlyOnce_iff.mpr ⟨fun op _ _ => nothing op, by decide⟩
    · intro _ _ op member
      rw [commands_ops]
      exact member

theorem StreamFits.launchDelete (fits : StreamFits worker counts bufId stage stream complete) (round : Nat)
    (before : Searched worker stage) (later : Searched worker next) :
    StreamFits worker counts bufId next (stream ++ deleteCommands counts round bufId) complete := by
  rw [deleteCommands, deleteLaunches]
  split
  · exact fits.launchMore before later trivial (by rintro command ⟨⟩) (by rintro op ⟨⟩)
  · apply fits.launchMore before later
    · rw [commands_ops]
      exact deletes_sequenced fun some => fits.searched before some _ (by decide)
    · intro command member
      refine commands_called ?_ member
      simp [callCounts]
    · rw [commands_ops]
      decide

theorem StreamFits.launchInsert (fits : StreamFits worker counts bufId stage stream complete) (round : Nat)
    (before : Searched worker stage) (later : Searched worker next) :
    StreamFits worker counts bufId next (stream ++ insertCommands counts round bufId) complete := by
  have inserts : ∀ op ∈ (((List.range numInsertBuf).filter fun i => counts.insertBuf i ≠ 0).map .copyInsertIn) ++
      [.copyInsertNum, .insert], counts.insertBuf = callCounts counts op ∧ op ∉ searchOps := by
    intro op member
    rcases List.mem_append.mp member with copy | last
    · obtain ⟨block, _, rfl⟩ := List.mem_map.mp copy
      exact ⟨rfl, by simp [searchOps]⟩
    · rcases List.mem_pair.mp last with rfl | rfl
      · exact ⟨rfl, by decide⟩
      · exact ⟨rfl, by decide⟩
  rw [insertCommands, insertLaunches]
  split
  · exact fits.launchMore before later trivial (by rintro command ⟨⟩) (by rintro op ⟨⟩)
  · apply fits.launchMore before later
    · rw [commands_ops]
      exact inserts_sequenced fun some => fits.searched before some _ (by decide)
    · intro command member
      exact commands_called (fun op inside => (inserts op inside).1) member
    · rw [commands_ops]
      exact fun op inside => (inserts op inside).2

end Stream

end MegaKV.Store
