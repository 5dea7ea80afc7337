import MegaKV.Store.Recorded

namespace MegaKV.Store

open Library Slab Scheduler

variable {workers numSchedInsDel : Nat} {s t : Node workers} {worker : Worker workers}

def kindOf : Job → KernelKind
  | .delete _ => .delete
  | .insert _ => .insert

section Rounds

variable {hand : JobState workers} {gpuBufId : Int} {run : Kernel workers}

/-- A kernel comes before another of its round only if it deletes or the other one inserts too. -/
def NoLater (first second : Kernel workers) : Prop :=
  first.round < second.round ∨ (first.round = second.round ∧ (first.kind = .insert → second.kind = .insert))

theorem mem_deletes {buf : JobBuf} {job : Job} (member : job ∈ buf.deletes) : ∃ old, job = .delete old := by
  obtain ⟨k, _, same⟩ := List.mem_map.mp member
  exact ⟨_, same.symm⟩

theorem mem_inserts {buf : JobBuf} {job : Job} (member : job ∈ buf.inserts) : ∃ new, job = .insert new := by
  obtain ⟨i, _, inside⟩ := List.mem_flatMap.mp member
  obtain ⟨k, _, same⟩ := List.mem_map.mp inside
  exact ⟨_, same.symm⟩

theorem mem_deleteKernel (member : run ∈ deleteKernel hand gpuBufId worker) :
    run = ⟨worker, hand.hand.round, .delete, (hand.buf worker gpuBufId).deletes⟩ ∧
      (hand.buf worker gpuBufId).numDeleteJob ≠ 0 := by
  unfold deleteKernel at member
  by_cases none : (hand.buf worker gpuBufId).numDeleteJob = 0
  · rw [if_pos none] at member
    cases member
  · rw [if_neg none] at member
    exact ⟨List.mem_singleton.mp member, none⟩

theorem mem_insertKernel (member : run ∈ insertKernel hand gpuBufId worker) :
    run = ⟨worker, hand.hand.round, .insert, (hand.buf worker gpuBufId).inserts⟩ ∧
      (hand.buf worker gpuBufId).numInsertJob ≠ 0 := by
  unfold insertKernel at member
  by_cases none : (hand.buf worker gpuBufId).numInsertJob = 0
  · rw [if_pos none] at member
    cases member
  · rw [if_neg none] at member
    exact ⟨List.mem_singleton.mp member, none⟩

/-- A kernel works on jobs that its worker's pass launches. -/
theorem mem_roundKernels (member : run ∈ roundKernels hand gpuBufId numSchedInsDel) :
    insertsDeletes numSchedInsDel hand.hand.schedInsDel ∧ run.round = hand.hand.round ∧
      ∀ job ∈ run.jobs, job ∈ (hand.buf run.worker gpuBufId).launched := by
  unfold roundKernels at member
  split at member
  · rename_i runs
    refine ⟨runs, ?_⟩
    rcases List.mem_append.mp member with deletes | inserts
    · obtain ⟨worker, _, inside⟩ := List.mem_flatMap.mp deletes
      obtain ⟨rfl, some⟩ := mem_deleteKernel inside
      refine ⟨rfl, ?_⟩
      intro job job_mem
      rw [JobBuf.launched, if_neg some]
      exact List.mem_append_left _ job_mem
    · obtain ⟨worker, _, inside⟩ := List.mem_flatMap.mp inserts
      obtain ⟨rfl, some⟩ := mem_insertKernel inside
      refine ⟨rfl, ?_⟩
      intro job job_mem
      rw [JobBuf.launched, if_neg some]
      exact List.mem_append_right _ job_mem
  · cases member

/-- A job that a pass launches is in a kernel of its kind. -/
theorem mem_launched (runs : insertsDeletes numSchedInsDel hand.hand.schedInsDel) {job : Job}
    (member : job ∈ (hand.buf worker gpuBufId).launched) :
    ∃ run ∈ roundKernels hand gpuBufId numSchedInsDel,
      run.worker = worker ∧ run.round = hand.hand.round ∧ run.kind = kindOf job ∧ job ∈ run.jobs := by
  rw [roundKernels, if_pos runs]
  rcases List.mem_append.mp member with deletes | inserts
  · by_cases none : (hand.buf worker gpuBufId).numDeleteJob = 0
    · rw [if_pos none] at deletes
      cases deletes
    · rw [if_neg none] at deletes
      obtain ⟨old, rfl⟩ := mem_deletes deletes
      have launch : ⟨worker, hand.hand.round, .delete, (hand.buf worker gpuBufId).deletes⟩ ∈
          deleteKernel hand gpuBufId worker := by
        rw [deleteKernel, if_neg none]
        exact List.mem_singleton.mpr rfl
      have place := List.mem_flatMap.mpr ⟨worker, List.mem_finRange worker, launch⟩
      exact ⟨_, List.mem_append_left _ place, rfl, rfl, rfl, deletes⟩
  · by_cases none : (hand.buf worker gpuBufId).numInsertJob = 0
    · rw [if_pos none] at inserts
      cases inserts
    · rw [if_neg none] at inserts
      obtain ⟨new, rfl⟩ := mem_inserts inserts
      have launch : ⟨worker, hand.hand.round, .insert, (hand.buf worker gpuBufId).inserts⟩ ∈
          insertKernel hand gpuBufId worker := by
        rw [insertKernel, if_neg none]
        exact List.mem_singleton.mpr rfl
      have place := List.mem_flatMap.mpr ⟨worker, List.mem_finRange worker, launch⟩
      exact ⟨_, List.mem_append_right _ place, rfl, rfl, rfl, inserts⟩

/-- Within a round all delete kernels are launched before the first insert kernel. -/
theorem roundKernels_ordered (hand : JobState workers) (gpuBufId : Int) (numSchedInsDel : Nat) :
    (roundKernels hand gpuBufId numSchedInsDel).Pairwise NoLater := by
  unfold roundKernels
  split
  · have deletes : ∀ run ∈ (List.finRange (workers + 1)).flatMap (deleteKernel hand gpuBufId),
        run.round = hand.hand.round ∧ run.kind = .delete := by
      intro run member
      obtain ⟨worker, _, inside⟩ := List.mem_flatMap.mp member
      obtain ⟨rfl, _⟩ := mem_deleteKernel inside
      exact ⟨rfl, rfl⟩
    have inserts : ∀ run ∈ (List.finRange (workers + 1)).flatMap (insertKernel hand gpuBufId),
        run.round = hand.hand.round ∧ run.kind = .insert := by
      intro run member
      obtain ⟨worker, _, inside⟩ := List.mem_flatMap.mp member
      obtain ⟨rfl, _⟩ := mem_insertKernel inside
      exact ⟨rfl, rfl⟩
    refine List.pairwise_append.mpr ⟨?_, ?_, ?_⟩
    · apply List.pairwise_of_forall_mem_list
      intro first here second there
      have kind := (deletes first here).2
      refine .inr ⟨(deletes first here).1.trans (deletes second there).1.symm, ?_⟩
      rw [kind]
      exact fun insert => by cases insert
    · apply List.pairwise_of_forall_mem_list
      intro first here second there
      exact .inr ⟨(inserts first here).1.trans (inserts second there).1.symm, fun _ => (inserts second there).2⟩
    · intro first here second there
      exact .inr ⟨(deletes first here).1.trans (inserts second there).1.symm, fun _ => (inserts second there).2⟩
  · exact List.Pairwise.nil

end Rounds

section Launched

/-- The kernels launched so far do what the passes over the buffers say, in the order of the rounds. -/
structure Launched (s : Node workers) : Prop where
  passed : ∀ run ∈ s.kernels, ∀ job ∈ run.jobs,
    ∃ pass ∈ s.jobs.passes run.worker, pass.round = run.round ∧ job ∈ pass.jobs
  covered : ∀ worker, ∀ pass ∈ s.jobs.passes worker, ∀ job ∈ pass.jobs,
    ∃ run ∈ s.kernels, run.worker = worker ∧ run.round = pass.round ∧ run.kind = kindOf job ∧ job ∈ run.jobs
  begun : ∀ run ∈ s.kernels, run.round < countedRound s.jobs.hand
  ordered : s.kernels.Pairwise NoLater

theorem Launched.congr (launched : Launched s) (kernels : t.kernels = s.kernels) (passes : t.jobs.passes = s.jobs.passes)
    (round : countedRound t.jobs.hand = countedRound s.jobs.hand) : Launched t := by
  refine ⟨?_, ?_, ?_, ?_⟩
  · rw [kernels, passes]
    exact launched.passed
  · rw [kernels, passes]
    exact launched.covered
  · rw [kernels, round]
    exact launched.begun
  · rw [kernels]
    exact launched.ordered

theorem launch_passes {gpuBufId : Int} {pass : Pass} :
    pass ∈ (s.launch numSchedInsDel gpuBufId).jobs.passes worker ↔
      pass ∈ s.jobs.passes worker ∨ (insertsDeletes numSchedInsDel s.jobs.hand.schedInsDel ∧
        pass = ⟨s.jobs.hand.round, gpuBufId, (s.jobs.buf worker gpuBufId).launched⟩) := by
  change pass ∈ (if _ then _ else _) ↔ _
  by_cases runs : insertsDeletes numSchedInsDel s.jobs.hand.schedInsDel = true
  · rw [if_pos runs, List.mem_append, List.mem_singleton]
    simp only [runs, true_and]
  · rw [if_neg runs]
    exact (or_iff_left fun both => runs both.1).symm

theorem Launched.launch (launched : Launched s) {gpuBufId : Int} (turn : s.jobs.hand.pc = .kernels gpuBufId) :
    Launched (s.launch numSchedInsDel gpuBufId) := by
  have now : countedRound s.jobs.hand = s.jobs.hand.round := by
    rw [countedRound, turn]
  refine ⟨?_, ?_, ?_, ?_⟩
  · intro run member job inside
    rcases List.mem_append.mp member with old | new
    · obtain ⟨pass, passed, round, ran⟩ := launched.passed run old job inside
      exact ⟨pass, launch_passes.mpr (.inl passed), round, ran⟩
    · obtain ⟨runs, round, jobs⟩ := mem_roundKernels new
      exact ⟨_, launch_passes.mpr (.inr ⟨runs, rfl⟩), round.symm, jobs job inside⟩
  · intro worker pass member job inside
    rcases launch_passes.mp member with before | ⟨runs, rfl⟩
    · obtain ⟨run, ran, facts⟩ := launched.covered worker pass before job inside
      exact ⟨run, List.mem_append_left _ ran, facts⟩
    · obtain ⟨run, ran, facts⟩ := mem_launched runs inside
      exact ⟨run, List.mem_append_right _ ran, facts⟩
  · intro run member
    have next : countedRound (s.launch numSchedInsDel gpuBufId).jobs.hand = s.jobs.hand.round + 1 := rfl
    rw [next]
    rcases List.mem_append.mp member with old | new
    · have before := launched.begun run old
      omega
    · have round := (mem_roundKernels new).2.1
      omega
  · refine List.pairwise_append.mpr ⟨launched.ordered, roundKernels_ordered s.jobs gpuBufId numSchedInsDel, ?_⟩
    intro first here second there
    have before := launched.begun first here
    have round := (mem_roundKernels there).2.1
    exact .inl (by omega)

end Launched

end MegaKV.Store
