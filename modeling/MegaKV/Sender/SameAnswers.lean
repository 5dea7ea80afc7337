import MegaKV.Sender.PlainRun

namespace MegaKV.Sender

open Slab

section Answers

variable (build : Build) (m : Memory) (buf : SearchBuf) (hit miss totalBytes totalPackets : Nat)

/-- The loop with prefetching answers with values only. -/
def prefetchAnswers (out : Output) : List (Nat × Answer) :=
  out.records.map (fun record => (record.index, .value record.it))

/-- Both loops serve the batch and give each index the same answers. -/
def SameAnswers : Prop :=
  ∃ packets, (plainBatch build m buf hit miss totalBytes totalPackets packets).ended (totalCnt build buf) ∧
    ∃ out flag, prefetchLoop build buf m hit miss totalBytes totalPackets = some (out, flag) ∧
      ∀ i < buf.numSearchJob, ∀ answer,
        (i, answer) ∈ (plainBatch build m buf hit miss totalBytes totalPackets packets).answers ↔
          (i, answer) ∈ prefetchAnswers out

/-- The first location that is not 0 has the item asked for, and a frame can hold it. -/
structure FoundAtOnce (e : Nat × Nat) : Prop where
  located : foundLoc buf e.1 ≠ 0
  passes : Matches build.keyMatch m buf (gathered m buf e)
  fits : FitsFrame build.keyMatch m (foundLoc buf e.1)

end Answers

section Agreement

variable {build : Build} {keyMatch : Bool} {m : Memory} {buf : SearchBuf} {hit miss totalBytes totalPackets : Nat}
  {e : Nat × Nat}

theorem foundLoc_tried (some : foundLoc buf e.1 ≠ 0) : foundLoc buf e.1 ∈ tries keyMatch m buf e := by
  by_cases first : firstLoc buf e.1 = 0
  · have second : foundLoc buf e.1 = secondLoc buf e.1 := if_pos first
    rw [tries, if_neg (fun finds => finds.1 first)]
    apply List.mem_append_right
    rw [second] at some ⊢
    rw [looked_some some]
    exact List.mem_singleton_self _
  · have same : foundLoc buf e.1 = firstLoc buf e.1 := if_neg first
    apply tries_front
    rw [same, looked_some first]
    exact List.mem_singleton_self _

/-- Where the first location that is not 0 has the item, both loops take that item. -/
theorem tries_foundLoc (some : foundLoc buf e.1 ≠ 0) (passes : Matches keyMatch m buf (gathered m buf e)) :
    tries keyMatch m buf e = [foundLoc buf e.1] ∧ plainAnswer keyMatch m buf e = .some (gathered m buf e) := by
  by_cases first : firstLoc buf e.1 = 0
  · have second : foundLoc buf e.1 = secondLoc buf e.1 := if_pos first
    have differs : ¬Finds keyMatch m buf e (firstLoc buf e.1) := fun finds => finds.1 first
    have finds : Finds keyMatch m buf e (secondLoc buf e.1) := by
      rw [← second]
      exact ⟨some, passes⟩
    rw [tries_both differs, plainAnswer, if_neg differs, if_pos finds, first, looked_none, ← second, looked_some some]
    exact ⟨rfl, rfl⟩
  · have same : foundLoc buf e.1 = firstLoc buf e.1 := if_neg first
    have finds : Finds keyMatch m buf e (firstLoc buf e.1) := by
      rw [← same]
      exact ⟨some, passes⟩
    rw [tries_first finds, plainAnswer, if_pos finds, ← same, looked_some some]
    exact ⟨rfl, rfl⟩

theorem prefetchAnswers_mem {i : Nat} {answer : Answer} :
    (i, answer) ∈ prefetchAnswers (writtenOut build buf m hit miss totalBytes totalPackets) ↔
      ∃ e ∈ ownedIn build buf, foundLoc buf e.1 ≠ 0 ∧ Matches build.keyMatch m buf (gathered m buf e) ∧ i = e.1 ∧
        answer = .value (gathered m buf e).it := by
  rw [prefetchAnswers, writtenOut_records, List.map_map]
  constructor
  · intro member
    obtain ⟨g, listed, same⟩ := List.mem_map.mp member
    obtain ⟨hit, passes⟩ := List.mem_filter.mp listed
    obtain ⟨e, found, rfl⟩ := List.mem_map.mp hit
    obtain ⟨owned, some⟩ := List.mem_filter.mp found
    cases same
    exact ⟨e, owned, of_decide_eq_true some, of_decide_eq_true passes, rfl, rfl⟩
  · intro ⟨e, owned, located, passes, index, value⟩
    apply List.mem_map.mpr
    refine ⟨gathered m buf e, List.mem_filter.mpr ⟨?_, decide_eq_true passes⟩, ?_⟩
    · exact List.mem_map_of_mem (List.mem_filter.mpr ⟨owned, decide_eq_true located⟩)
    · rw [index, value]
      rfl

theorem SameAnswers.found (entries : Entries build buf) (same : SameAnswers build m buf hit miss totalBytes totalPackets)
    (member : e ∈ ownedIn build buf) : FoundAtOnce build m buf e := by
  obtain ⟨packets, ended, out, flag, result, agree⟩ := same
  obtain ⟨sofar, answers⟩ := plainBatch_ended ended
  obtain ⟨_, written, _⟩ := @Entries.loop_run build buf m hit miss totalBytes totalPackets entries
  have out : out = writtenOut build buf m hit miss totalBytes totalPackets := by
    rw [written] at result
    cases result
    rfl
  have answer : given build.keyMatch m buf e ∈
      (plainBatch build m buf hit miss totalBytes totalPackets packets).answers := by
    rw [answers]
    exact List.mem_map_of_mem member
  rw [given, agree e.1 (entries.bound member), out, prefetchAnswers_mem] at answer
  obtain ⟨other, owned, some, passes, index, _⟩ := answer
  cases entries.unique member owned index
  exact ⟨some, passes, sofar.fits e member _ (foundLoc_tried some)⟩

theorem same_answers_iff (entries : Entries build buf) (hit miss totalBytes totalPackets : Nat) :
    SameAnswers build m buf hit miss totalBytes totalPackets ↔ ∀ e ∈ ownedIn build buf, FoundAtOnce build m buf e := by
  constructor
  · intro same e member
    exact same.found entries member
  · intro found
    have fits : ∀ e ∈ ownedIn build buf, ∀ l ∈ tries build.keyMatch m buf e, FitsFrame build.keyMatch m l := by
      intro e member l tried
      rw [(tries_foundLoc (found e member).located (found e member).passes).1, List.mem_singleton] at tried
      rw [tried]
      exact (found e member).fits
    obtain ⟨packets, ended⟩ := @plainBatch_ends build m buf hit miss totalBytes totalPackets fits
    obtain ⟨flag, written, _⟩ := @Entries.loop_run build buf m hit miss totalBytes totalPackets entries
    refine ⟨packets, ended, _, flag, written, ?_⟩
    intro i _ answer
    rw [(plainBatch_ended ended).2, prefetchAnswers_mem]
    constructor
    · intro listed
      obtain ⟨e, member, same⟩ := List.mem_map.mp listed
      have atOnce := found e member
      rw [given, (tries_foundLoc atOnce.located atOnce.passes).2] at same
      cases same
      exact ⟨e, member, atOnce.located, atOnce.passes, rfl, rfl⟩
    · intro ⟨e, member, located, passes, index, value⟩
      apply List.mem_map.mpr
      refine ⟨e, member, ?_⟩
      rw [given, (tries_foundLoc located passes).2, index, value]
      rfl

end Agreement

section OneSearch

def loneSearch (first second : Hash.Loc) : SearchBuf :=
  { searchJobList := fun _ => { ethAddr := 0, ip := 7, port := 9, num := 1, index := 0, key := fun _ => 0, nkey := 8 }
    numCompactSearchJob := 1
    numSearchJob := 1
    searchOut := fun k => if k = 0 then first else second }

theorem loneSearch_entries (build : Build) (first second : Hash.Loc) : Entries build (loneSearch first second) := by
  constructor
  · intro _
    rfl
  · obtain ⟨compactJob, keyMatch⟩ := build
    cases compactJob <;> rfl

theorem same_answers_iff_one : SameAnswers ⟨true, false⟩ (uniformMemory plainItem) (loneSearch 1 0) 0 0 0 0 := by
  apply (same_answers_iff (loneSearch_entries ⟨true, false⟩ 1 0) 0 0 0 0).mpr
  intro e member
  have index : e.1 = 0 := by
    have bound := (loneSearch_entries ⟨true, false⟩ 1 0).bound member
    exact Nat.lt_one_iff.mp bound
  refine ⟨?_, (fun impossible => by cases impossible), ?_⟩
  · rw [index]
    decide
  · rw [index]
    exact ⟨by decide, by decide⟩

/-- A GET of which neither location is set is not answered at all. -/
theorem miss_not_answered : Entries ⟨true, false⟩ (loneSearch 0 0) ∧
    ¬SameAnswers ⟨true, false⟩ (uniformMemory plainItem) (loneSearch 0 0) 0 0 0 0 := by
  refine ⟨loneSearch_entries _ _ _, ?_⟩
  intro same
  have found : FoundAtOnce ⟨true, false⟩ (uniformMemory plainItem) (loneSearch 0 0) (0, 1) :=
    same.found (loneSearch_entries _ _ _) (by decide)
  exact found.located rfl

end OneSearch

end MegaKV.Sender
