import MegaKV.Store.Serial

namespace MegaKV.Store

open Library Slab Scheduler

section Results

variable {workers : Nat} {g : Hash.Geometry} {s : Server workers g} {initial : Worker workers → Nat → Hash.Loc}

/-- A round records the index when nothing is at work on it, and the searches of the round put out what a search there
    finds, unless a kernel of another worker has had a job in the region of the query. -/
theorem searches_looked_up (reached : (server workers 0 g initial).Reachable s) :
    (∀ bufId, s.node.jobs.hand.pc = .kernels bufId → s.stage = .search 0 → ∀ lanes, s.device.task lanes = none) ∧
      ∀ worker, s.Reading worker →
        let id := (s.node.jobs.hand.batchSet worker).senderBufId
        let round := givenRound s.node.jobs worker
        let searches := s.searchJobs worker id
        ∀ k < searches.numSearchJob, s.node.Apart g round worker (searches.searchIn k) →
          Hash.LookedUp (s.found round) (searches.searchIn k) k (s.searchOut worker id) := by
  refine ⟨?_, ?_⟩
  · rintro bufId turn stage ⟨worker, place⟩
    obtain ⟨complete, working⟩ := (server_invariants reached).1.working bufId turn
    have unsearched : ¬Searched worker s.stage := by
      rw [stage]
      exact Fin.not_lt_zero worker
    exact ((working worker).over ((working worker).stream.fresh unsearched).2).2 place
  · intro worker reading
    obtain ⟨place, delivered⟩ := reading_delivered reached reading
    dsimp only
    rw [place]
    exact delivered.looked

theorem searches_looked_up_reread : ∃ s : Server 1 Hash.gpuHash, s.Reading 0 ∧ s.searchOut 0 (slot 1) 0 = 1 ∧
    Hash.LookedUp (s.found 1) storedQuery 0 (s.searchOut 0 (slot 1)) := by
  obtain ⟨s, elem, reread⟩ := reread_exists
  have looked := (searches_looked_up reread.reached).2 0 reread.reading 0
  rw [reread.place, reread.round, reread.searchJobs] at looked
  exact ⟨s, reread.reading, reread.found, looked Nat.one_pos reread.apart⟩

end Results

end MegaKV.Store
