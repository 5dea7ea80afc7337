import MegaKV.Sender.Prefetch

namespace MegaKV.Sender

open Slab

variable {Target Other : Type} {writer : Writer Target} {other : Writer Other} {keyMatch : Bool} {m : Memory}
  {buf : SearchBuf}

section Rounds

variable (keyMatch m buf) (thisJob : Nat) (out : Output) (g : Gathered)

/-- The item does not fit behind the records of the packet, or belongs to another client. -/
def Breaks : Prop :=
  ethernetMaxFrameLen < out.current.length +
      (if keyMatch then (m.heap g.it).nbytes + 6 else (m.heap g.it).nkey + (m.heap g.it).nbytes + 6) ∨
    (buf.searchJobList thisJob).ip ≠ out.current.ip ∨ (buf.searchJobList thisJob).port ≠ out.current.port

instance : Decidable (Breaks keyMatch m buf thisJob out g) := inferInstanceAs (Decidable (_ ∨ _ ∨ _))

/-- The item passes the comparison of keys, where the build makes one. -/
def Matches : Prop :=
  keyMatch = true → (m.heap g.it).nkey = (buf.searchJobList g.job).nkey ∧
    strncmp (m.heap g.it).data (buf.searchJobList g.job).key (buf.searchJobList g.job).nkey = 0

instance : Decidable (Matches keyMatch m buf g) := inferInstanceAs (Decidable (_ → _ ∧ _))

def Writer.opened (writer : Writer Target) (s : Target) : Target :=
  if Breaks keyMatch m buf thisJob (writer.out s) g then writer.newPacket s (buf.searchJobList thisJob) else s

theorem Writer.write_eq (writer : Writer Target) (s : Target) :
    writer.write keyMatch m buf thisJob s g =
      if Matches keyMatch m buf g then
        writer.writePkt (writer.opened keyMatch m buf thisJob g s) keyMatch g.index g.job g.it (m.heap g.it)
      else writer.addMiss (writer.opened keyMatch m buf thisJob g s) 1 := by
  unfold Writer.write
  cases keyMatch with
  | false =>
    have passes : Matches false m buf g := fun impossible => by cases impossible
    rw [if_pos passes]
    rfl
  | true =>
    by_cases same : (m.heap g.it).nkey = (buf.searchJobList g.job).nkey ∧
        strncmp (m.heap g.it).data (buf.searchJobList g.job).key (buf.searchJobList g.job).nkey = 0
    · have passes : Matches true m buf g := fun _ => same
      rw [if_pos passes]
      simp only [if_true, if_pos same]
      rfl
    · have differs : ¬Matches true m buf g := fun passes => same (passes rfl)
      rw [if_neg differs]
      simp only [if_true, if_neg same]
      rfl

end Rounds

section Ends

theorem prefetchLoop1_index (totalCnt : Nat) (g : Gathering) :
    g.cursor.index + (prefetchLoop1 m buf totalCnt g).items.length ≤
      (prefetchLoop1 m buf totalCnt g).cursor.index + g.items.length := by
  fun_induction prefetchLoop1 m buf totalCnt g with
  | case1 g more other =>
    simp only
    omega
  | case2 g more same cursor hit items room ih =>
    simp only [items, cursor, List.length_append, List.length_singleton] at ih ⊢
    omega
  | case3 g more same cursor hit items full =>
    simp only [items, cursor, List.length_append, List.length_singleton]
    omega
  | case4 g more same cursor miss ih =>
    simp only [cursor] at ih ⊢
    omega
  | case5 g none more ih => exact ih
  | case6 g none last => exact Nat.le_refl _

/-- So many rounds are enough. -/
theorem Writer.groups_ends (writer : Writer Target) {jobs rounds : Nat} {cursor : Cursor} {s : Target}
    (enough : buf.numSearchJob - cursor.index < rounds) :
    ∃ last flag, writer.groups keyMatch m buf jobs rounds cursor s = some (last, flag) := by
  induction rounds generalizing cursor s with
  | zero => omega
  | succ rounds ih =>
    rw [Writer.groups]
    by_cases more : cursor.index < buf.numSearchJob
    · rw [if_pos more]
      have grows := @prefetchLoop1_index m buf jobs { cursor := cursor, items := [], miss := 0, toSend := false }
      generalize prefetchLoop1 m buf jobs { cursor := cursor, items := [], miss := 0, toSend := false } = g at grows
      simp only [List.length_nil, Nat.add_zero] at grows
      by_cases none : g.items.length = 0
      · simp only [if_pos none]
        exact ⟨_, _, rfl⟩
      · simp only [if_neg none]
        by_cases short : g.items.length ≠ prefetchBatchDistance
        · rw [if_pos short]
          exact ⟨_, _, rfl⟩
        · rw [if_neg short]
          exact ih (by omega)
    · rw [if_neg more]
      exact ⟨s, false, rfl⟩

end Ends

section Simulation

variable {related : Target → Other → Prop} {s : Target} {t : Other} {jobs : Nat}

/-- The one writer does step by step what the other one does. -/
structure Simulates (keyMatch : Bool) (m : Memory) (buf : SearchBuf) (writer : Writer Target) (other : Writer Other)
    (related : Target → Other → Prop) : Prop where
  out : ∀ s t, related s t → writer.out s = other.out t
  newPacket : ∀ s t job, related s t → related (writer.newPacket s job) (other.newPacket t job)
  writePkt : ∀ s t g, related s t → Matches keyMatch m buf g →
    related (writer.writePkt s keyMatch g.index g.job g.it (m.heap g.it))
      (other.writePkt t keyMatch g.index g.job g.it (m.heap g.it))
  addMiss : ∀ s t n, related s t → related (writer.addMiss s n) (other.addMiss t n)

theorem Simulates.write (simulates : Simulates keyMatch m buf writer other related) (here : related s t) (thisJob : Nat)
    (g : Gathered) : related (writer.write keyMatch m buf thisJob s g) (other.write keyMatch m buf thisJob t g) := by
  have opened : related (writer.opened keyMatch m buf thisJob g s) (other.opened keyMatch m buf thisJob g t) := by
    unfold Writer.opened
    rw [simulates.out s t here]
    split
    · exact simulates.newPacket s t _ here
    · exact here
  rw [Writer.write_eq, Writer.write_eq]
  split
  · rename_i passes
    exact simulates.writePkt _ _ g opened passes
  · exact simulates.addMiss _ _ 1 opened

theorem Simulates.writes (simulates : Simulates keyMatch m buf writer other related) (here : related s t) (thisJob : Nat)
    (items : List Gathered) :
    related (items.foldl (writer.write keyMatch m buf thisJob) s) (items.foldl (other.write keyMatch m buf thisJob) t) := by
  induction items generalizing s t with
  | nil => exact here
  | cons g rest ih => exact ih (simulates.write here thisJob g)

theorem Simulates.groups (simulates : Simulates keyMatch m buf writer other related) (rounds : Nat) (cursor : Cursor)
    (here : related s t) :
    Option.Rel (fun s t => related s.1 t.1 ∧ s.2 = t.2) (writer.groups keyMatch m buf jobs rounds cursor s)
      (other.groups keyMatch m buf jobs rounds cursor t) := by
  induction rounds generalizing cursor s t with
  | zero => exact .none
  | succ rounds ih =>
    rw [Writer.groups, Writer.groups]
    by_cases more : cursor.index < buf.numSearchJob
    · rw [if_pos more, if_pos more]
      generalize prefetchLoop1 m buf jobs { cursor := cursor, items := [], miss := 0, toSend := false } = g
      have counted := simulates.addMiss s t g.miss here
      have written := simulates.writes counted g.cursor.job g.items
      by_cases none : g.items.length = 0
      · simp only [if_pos none]
        exact .some ⟨counted, rfl⟩
      · simp only [if_neg none]
        by_cases short : g.items.length ≠ prefetchBatchDistance
        · rw [if_pos short, if_pos short]
          exact .some ⟨written, rfl⟩
        · rw [if_neg short, if_neg short]
          exact ih g.cursor written
    · rw [if_neg more, if_neg more]
      exact .some ⟨here, rfl⟩

end Simulation

section Invariants

variable {holds : Target → Prop} {s last : Target} {flag : Bool} {jobs rounds : Nat} {cursor : Cursor}

structure Writer.Keeps (keyMatch : Bool) (m : Memory) (buf : SearchBuf) (writer : Writer Target) (holds : Target → Prop) :
    Prop where
  newPacket : ∀ s job, holds s → holds (writer.newPacket s job)
  writePkt : ∀ s g, holds s → Matches keyMatch m buf g →
    holds (writer.writePkt s keyMatch g.index g.job g.it (m.heap g.it))
  addMiss : ∀ s n, holds s → holds (writer.addMiss s n)

theorem Writer.Keeps.groups (keeps : Writer.Keeps keyMatch m buf writer holds) (here : holds s)
    (result : writer.groups keyMatch m buf jobs rounds cursor s = some (last, flag)) : holds last := by
  have itself : Simulates keyMatch m buf writer writer (fun s t => s = t ∧ holds s) := by
    refine ⟨?_, ?_, ?_, ?_⟩
    · exact fun s t both => congrArg writer.out both.1
    · exact fun s t job both => ⟨congrArg (writer.newPacket · job) both.1, keeps.newPacket s job both.2⟩
    · exact fun s t g both passes => ⟨by rw [both.1], keeps.writePkt s g both.2 passes⟩
    · exact fun s t n both => ⟨congrArg (writer.addMiss · n) both.1, keeps.addMiss s n both.2⟩
  have ran := @Simulates.groups _ _ _ _ _ _ _ _ _ _ jobs itself rounds cursor ⟨rfl, here⟩
  rw [result] at ran
  cases ran with
  | some both => exact both.1.2

end Invariants

end MegaKV.Sender
