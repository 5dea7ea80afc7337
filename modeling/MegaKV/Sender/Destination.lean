import MegaKV.Sender.Writers

namespace MegaKV.Sender

open Slab

section Attribution

variable (buf : SearchBuf)

def ownedFrom (job count : Nat) : List (Nat × Nat) :=
  (List.range' job count).flatMap
    (fun j => (List.range' (buf.searchJobList j).index (buf.searchJobList j).num).map (fun i => (i, j)))

/-- The attribution of a compact job list, whose first job is at position 1. -/
def owned : List (Nat × Nat) := ownedFrom buf 1 buf.numCompactSearchJob

/-- The jobs follow one another from index 0 on and own each index below `num_search_job` once. -/
structure Attributed : Prop where
  start : (buf.searchJobList 1).index = 0
  indexes : (owned buf).map Prod.fst = List.range buf.numSearchJob

def client (job : Nat) : BitVec 32 × BitVec 16 := ((buf.searchJobList job).ip, (buf.searchJobList job).port)

def hits (entries : List (Nat × Nat)) : List (Nat × Nat) := entries.filter (fun e => foundLoc buf e.1 ≠ 0)

/-- The job whose client the group of hit number `k` is sent to: the job of the group's fifth hit,
    or the last job where the group is not full. -/
def groupJob (found : List (Nat × Nat)) (last k : Nat) : Nat :=
  match found[prefetchBatchDistance * (k / prefetchBatchDistance) + (prefetchBatchDistance - 1)]? with
  | some e => e.2
  | none => last

def GroupedBy (found : List (Nat × Nat)) (last : Nat) : Prop :=
  ∀ k e, found[k]? = some e → client buf (groupJob found last k) = client buf e.2

/-- In index order the hits fall into groups of five. All hits of a group belong to one client. -/
def Grouped : Prop := GroupedBy buf (hits buf (owned buf)) buf.numCompactSearchJob

end Attribution

section Groups

theorem distance_pos : 0 < prefetchBatchDistance := by decide

variable {buf : SearchBuf} {found : List (Nat × Nat)} {last : Nat}

theorem groupedBy_nil : GroupedBy buf [] last := by
  intro k e present
  contradiction

theorem groupedBy_short (short : found.length < prefetchBatchDistance) :
    GroupedBy buf found last ↔ ∀ e ∈ found, client buf last = client buf e.2 := by
  have job : ∀ k, groupJob found last k = last := by
    intro k
    have outside : found.length ≤ prefetchBatchDistance * (k / prefetchBatchDistance) + (prefetchBatchDistance - 1) := by
      simp only [prefetchBatchDistance] at *
      omega
    simp only [groupJob, List.getElem?_eq_none outside]
  simp only [GroupedBy, job]
  constructor
  · intro grouped e member
    obtain ⟨k, bound, equal⟩ := List.getElem_of_mem member
    exact grouped k e (by rw [List.getElem?_eq_getElem bound, equal])
  · intro all k e present
    exact all e (List.mem_of_getElem? present)

theorem groupedBy_long {fifth : Nat × Nat} (full : found[prefetchBatchDistance - 1]? = some fifth) :
    GroupedBy buf found last ↔
      (∀ e ∈ found.take prefetchBatchDistance, client buf fifth.2 = client buf e.2) ∧
        GroupedBy buf (found.drop prefetchBatchDistance) last := by
  have first : ∀ k < prefetchBatchDistance, groupJob found last k = fifth.2 := by
    intro k early
    have position : prefetchBatchDistance * (k / prefetchBatchDistance) + (prefetchBatchDistance - 1) =
        prefetchBatchDistance - 1 := by
      rw [Nat.div_eq_of_lt early]
      omega
    simp only [groupJob, position, full]
  have later : ∀ k, groupJob found last (prefetchBatchDistance + k) =
      groupJob (found.drop prefetchBatchDistance) last k := by
    intro k
    have position : prefetchBatchDistance * ((prefetchBatchDistance + k) / prefetchBatchDistance) +
        (prefetchBatchDistance - 1) =
        prefetchBatchDistance + (prefetchBatchDistance * (k / prefetchBatchDistance) + (prefetchBatchDistance - 1)) := by
      rw [Nat.add_div_left k (by decide), Nat.mul_succ]
      omega
    simp only [groupJob, position, List.getElem?_drop]
  constructor
  · intro grouped
    constructor
    · intro e member
      obtain ⟨k, bound, equal⟩ := List.getElem_of_mem member
      rw [List.length_take] at bound
      have present : found[k]? = some e := by
        rw [List.getElem?_eq_getElem (by omega), ← equal, List.getElem_take]
      rw [← first k (by omega)]
      exact grouped k e present
    · intro k e present
      rw [List.getElem?_drop] at present
      rw [← later k]
      exact grouped _ e present
  · intro given k e present
    rcases given with ⟨start, rest⟩
    by_cases early : k < prefetchBatchDistance
    · rw [first k early]
      exact start e (List.mem_of_getElem? (by rw [List.getElem?_take_of_lt early]; exact present))
    · obtain ⟨shift, rfl⟩ := Nat.exists_eq_add_of_le (Nat.not_lt.mp early)
      rw [later shift]
      exact rest shift e (by rw [List.getElem?_drop]; exact present)

end Groups

section Cursors

variable {m : Memory} {buf : SearchBuf} {jobs : Nat}

/-- The cursor stands before the indexes `rest`, which belong to the entries below `jobs`. -/
structure Before (buf : SearchBuf) (jobs : Nat) (c : Cursor) (rest : List (Nat × Nat)) : Prop where
  range : rest = (List.range' c.jobIndex c.num).map (fun i => (i, c.job)) ++ ownedFrom buf (c.job + 1) (jobs - (c.job + 1))
  order : rest.map Prod.fst = List.range' c.index (buf.numSearchJob - c.index)
  inside : c.job < jobs

theorem Before.served {c : Cursor} {rest : List (Nat × Nat)} (here : Before buf jobs c rest) (some : 0 < c.num) :
    c.index = c.jobIndex ∧ c.index < buf.numSearchJob ∧ ∃ later, rest = (c.index, c.job) :: later ∧
      Before buf jobs { c with num := c.num - 1, jobIndex := c.jobIndex + 1, index := c.index + 1 } later := by
  obtain ⟨num, more⟩ : ∃ num, c.num = num + 1 := ⟨c.num - 1, by omega⟩
  have range := here.range
  have order := here.order
  rw [more, List.range'_succ, List.map_cons, List.cons_append] at range
  rw [range, List.map_cons] at order
  have bound : c.index < buf.numSearchJob := by
    by_contra outside
    rw [show buf.numSearchJob - c.index = 0 by omega] at order
    contradiction
  rw [show buf.numSearchJob - c.index = buf.numSearchJob - (c.index + 1) + 1 by omega, List.range'_succ] at order
  obtain ⟨first, others⟩ := List.cons.inj order
  refine ⟨first.symm, bound, _, ?_, ⟨?_, others, here.inside⟩⟩
  · rw [range, ← first]
  · rw [more, Nat.add_sub_cancel]

theorem Before.nextJob {c : Cursor} {rest : List (Nat × Nat)} (here : Before buf jobs c rest) (none : ¬0 < c.num)
    (more : c.job + 1 < jobs) : Before buf jobs (loadJob buf (c.job + 1) c.index) rest := by
  refine ⟨?_, here.order, more⟩
  rw [here.range, show c.num = 0 by omega, show jobs - (c.job + 1) = jobs - (c.job + 1 + 1) + 1 by omega, ownedFrom,
    List.range'_succ, List.flatMap_cons]
  rfl

theorem Before.finished {c : Cursor} {rest : List (Nat × Nat)} (here : Before buf jobs c rest) (none : ¬0 < c.num)
    (last : ¬c.job + 1 < jobs) : rest = [] ∧ c.job = jobs - 1 := by
  have inside := here.inside
  refine ⟨?_, by omega⟩
  rw [here.range, show c.num = 0 by omega, show jobs - (c.job + 1) = 0 by omega]
  rfl

/-- The cursor stands before the indexes `rest` of a list of which `jobs` bounds the positions. -/
structure At (buf : SearchBuf) (jobs : Nat) (c : Cursor) (rest : List (Nat × Nat)) : Prop where
  range : rest = (List.range' c.jobIndex c.num).map (fun i => (i, c.job)) ++ ownedFrom buf (c.job + 1) (jobs - (c.job + 1))
  order : rest.map Prod.fst = List.range' c.index (buf.numSearchJob - c.index)
  inside : c.job < jobs
  owned : ∀ e ∈ rest, e ∈ owned buf

theorem At.before {c : Cursor} {rest : List (Nat × Nat)} (here : At buf jobs c rest) : Before buf jobs c rest :=
  ⟨here.range, here.order, here.inside⟩

theorem Before.at_list {c : Cursor} {rest : List (Nat × Nat)} (here : Before buf jobs c rest)
    (owned : ∀ e ∈ rest, e ∈ owned buf) : At buf jobs c rest := ⟨here.range, here.order, here.inside, owned⟩

theorem At.served {c : Cursor} {rest : List (Nat × Nat)} (here : At buf jobs c rest) (some : 0 < c.num) :
    c.index = c.jobIndex ∧ c.index < buf.numSearchJob ∧ ∃ later, rest = (c.index, c.job) :: later ∧
      At buf jobs { c with num := c.num - 1, jobIndex := c.jobIndex + 1, index := c.index + 1 } later := by
  obtain ⟨same, bound, later, first, next⟩ := here.before.served some
  refine ⟨same, bound, later, first, next.at_list ?_⟩
  intro e member
  exact here.owned e (by rw [first]; exact List.mem_cons_of_mem _ member)

theorem At.nextJob {c : Cursor} {rest : List (Nat × Nat)} (here : At buf jobs c rest) (none : ¬0 < c.num)
    (more : c.job + 1 < jobs) : At buf jobs (loadJob buf (c.job + 1) c.index) rest :=
  (here.before.nextJob none more).at_list here.owned

theorem At.finished {c : Cursor} {rest : List (Nat × Nat)} (here : At buf jobs c rest) (none : ¬0 < c.num)
    (last : ¬c.job + 1 < jobs) : rest = [] ∧ c.job = jobs - 1 := here.before.finished none last

def gathered (m : Memory) (buf : SearchBuf) (e : Nat × Nat) : Gathered :=
  { it := slabLocToPtr m (foundLoc buf e.1), job := e.2, index := e.1 }

/-- `prefetch_loop1` from `rest` on: it stops behind the hit that fills the group, or at the end. -/
structure Gathers (m : Memory) (buf : SearchBuf) (jobs : Nat) (before after : Gathering) (found : List (Nat × Nat)) :
    Prop where
  items : after.items = before.items ++
    (found.take (prefetchBatchDistance - before.items.length)).map (gathered m buf)
  full : ∀ last, found[prefetchBatchDistance - 1 - before.items.length]? = some last →
    after.cursor.job = last.2 ∧ before.cursor.index < after.cursor.index ∧ ∃ later, At buf jobs after.cursor later ∧
      hits buf later = found.drop (prefetchBatchDistance - before.items.length)
  ended : found.length < prefetchBatchDistance - before.items.length → after.cursor.job = jobs - 1

theorem Gathers.hit {before next after : Gathering} {found : List (Nat × Nat)} {e : Nat × Nat}
    (later : Gathers m buf jobs next after found) (items : next.items = before.items ++ [gathered m buf e])
    (room : next.items.length < prefetchBatchDistance) (index : before.cursor.index ≤ next.cursor.index) :
    Gathers m buf jobs before after (e :: found) := by
  have length : next.items.length = before.items.length + 1 := by rw [items, List.length_append, List.length_singleton]
  have left : prefetchBatchDistance - before.items.length = prefetchBatchDistance - next.items.length + 1 := by omega
  have fifth : prefetchBatchDistance - 1 - before.items.length = prefetchBatchDistance - 1 - next.items.length + 1 := by
    omega
  refine ⟨?_, ?_, ?_⟩
  · rw [later.items, items, left, List.take_succ_cons, List.map_cons, List.append_assoc]
    rw [← items]
    rfl
  · intro last present
    rw [fifth, List.getElem?_cons_succ] at present
    obtain ⟨job, grows, rest, here, remaining⟩ := later.full last present
    refine ⟨job, Nat.lt_of_le_of_lt index grows, rest, here, ?_⟩
    rw [left, List.drop_succ_cons]
    exact remaining
  · intro short
    apply later.ended
    rw [List.length_cons] at short
    omega

theorem Gathers.congr {before next after : Gathering} {found : List (Nat × Nat)}
    (later : Gathers m buf jobs next after found) (items : next.items = before.items)
    (index : before.cursor.index ≤ next.cursor.index) : Gathers m buf jobs before after found := by
  refine ⟨?_, ?_, ?_⟩
  · rw [← items]
    exact later.items
  · intro last present
    rw [← items] at present ⊢
    obtain ⟨job, grows, remaining⟩ := later.full last present
    exact ⟨job, Nat.lt_of_le_of_lt index grows, remaining⟩
  · rw [← items]
    exact later.ended

theorem hits_hit {i j : Nat} {rest : List (Nat × Nat)} (hit : foundLoc buf i ≠ 0) :
    hits buf ((i, j) :: rest) = (i, j) :: hits buf rest := by
  simp only [hits]
  rw [List.filter_cons_of_pos (by simpa using hit)]

theorem hits_miss {i j : Nat} {rest : List (Nat × Nat)} (miss : ¬foundLoc buf i ≠ 0) :
    hits buf ((i, j) :: rest) = hits buf rest := by
  simp only [hits]
  rw [List.filter_cons_of_neg (by simpa using miss)]

theorem prefetchLoop1_gathers (g : Gathering) (rest : List (Nat × Nat)) (here : At buf jobs g.cursor rest)
    (room : g.items.length < prefetchBatchDistance) :
    Gathers m buf jobs g (prefetchLoop1 m buf jobs g) (hits buf rest) := by
  induction g using prefetchLoop1.induct m buf jobs generalizing rest with
  | case1 g some wrong => exact absurd (here.served some).1 wrong
  | case2 g some right cursor hit items more ih =>
    obtain ⟨_, _, later, rfl, next⟩ := here.served some
    rw [prefetchLoop1, if_pos some, if_neg right, if_pos hit, if_pos more, hits_hit hit]
    exact (ih later next more).hit rfl more (Nat.le_succ _)
  | case3 g some right hit items full =>
    obtain ⟨_, _, later, rfl, next⟩ := here.served some
    rw [prefetchLoop1, if_pos some, if_neg right, if_pos hit, if_neg full, hits_hit hit]
    have length : g.items.length = prefetchBatchDistance - 1 := by
      simp only [items, List.length_append, List.length_singleton, prefetchBatchDistance] at full room ⊢
      omega
    have one : prefetchBatchDistance - g.items.length = 1 := by
      rw [length]
      rfl
    refine ⟨?_, ?_, ?_⟩
    · rw [one]
      rfl
    · intro last present
      rw [length, Nat.sub_self, List.getElem?_cons_zero] at present
      cases present
      refine ⟨rfl, Nat.lt_succ_self _, later, next, ?_⟩
      rw [one]
      rfl
    · intro short
      rw [one, List.length_cons] at short
      omega
  | case4 g some right cursor miss ih =>
    obtain ⟨_, _, later, rfl, next⟩ := here.served some
    rw [prefetchLoop1, if_pos some, if_neg right, if_neg miss, hits_miss miss]
    exact (ih later next room).congr rfl (Nat.le_succ _)
  | case5 g none more ih =>
    rw [prefetchLoop1, if_neg none, if_pos more]
    exact (ih rest (here.nextJob none more) room).congr rfl (Nat.le_refl _)
  | case6 g none last =>
    obtain ⟨empty, job⟩ := here.finished none last
    rw [prefetchLoop1, if_neg none, if_neg last, empty]
    refine ⟨by simp [hits], ?_, fun _ => job⟩
    intro last present
    simp [hits] at present

end Cursors

section Packets

variable {m : Memory} {buf : SearchBuf}

/-- Every record of the packet answers an index of the client the packet is sent to. -/
def Packet.Addressed (buf : SearchBuf) (packet : Packet) : Prop :=
  ∀ record ∈ packet.records, ∀ job, (record.index, job) ∈ owned buf → (packet.ip, packet.port) = client buf job

def Output.Addressed (buf : SearchBuf) (out : Output) : Prop :=
  ∀ packet ∈ out.packets ++ [out.current], packet.Addressed buf

theorem Output.addressed_iff (out : Output) :
    out.Addressed buf ↔ (∀ packet ∈ out.packets, packet.Addressed buf) ∧ out.current.Addressed buf := by
  simp only [Output.Addressed, List.mem_append, List.mem_singleton]
  exact ⟨fun all => ⟨fun packet member => all packet (.inl member), all _ (.inr rfl)⟩,
    fun ⟨older, last⟩ packet member => member.elim (older packet) (fun same => same ▸ last)⟩

theorem Output.newPacket_packets (out : Output) (job : SearchJob) :
    (out.newPacket job).packets = out.packets ++ [out.current] ∧ (out.newPacket job).current = startPacket job := by
  rw [Output.newPacket]
  split <;> exact ⟨rfl, rfl⟩

theorem Output.newPacket_addressed (out : Output) (job : SearchJob) :
    (out.newPacket job).Addressed buf ↔ out.Addressed buf := by
  obtain ⟨packets, current⟩ := out.newPacket_packets job
  rw [Output.addressed_iff, packets, current]
  have empty : (startPacket job).Addressed buf := by
    intro record member
    contradiction
  exact ⟨fun both => both.1, fun all => ⟨all, empty⟩⟩

theorem Output.writePkt_addressed (out : Output) (index job : Nat) (it : Ptr) (item : Item) :
    (out.writePkt false index job it item).Addressed buf ↔
      out.Addressed buf ∧
        ∀ asker, (index, asker) ∈ owned buf → (out.current.ip, out.current.port) = client buf asker := by
  rw [Output.addressed_iff, Output.addressed_iff, and_assoc]
  apply and_congr Iff.rfl
  simp only [Output.writePkt, Packet.Addressed, List.mem_append, List.mem_singleton]
  constructor
  · exact fun all => ⟨fun record member => all record (.inl member), all _ (.inr rfl)⟩
  · intro ⟨older, last⟩ record member
    rcases member with member | rfl
    · exact older record member
    · exact last

theorem prefetchWrite_addressed (thisJob : Nat) (out : Output) (g : Gathered) :
    (prefetchWrite false m buf thisJob out g).Addressed buf ↔
      out.Addressed buf ∧ ∀ asker, (g.index, asker) ∈ owned buf → client buf thisJob = client buf asker := by
  simp only [prefetchWrite, Writer.write, outputWriter, Bool.false_eq_true, ite_false]
  rw [Output.writePkt_addressed]
  split
  · rw [Output.newPacket_addressed, (out.newPacket_packets _).2]
    rfl
  · rename_i fits
    have same : (out.current.ip, out.current.port) = client buf thisJob := by
      simp only [not_or, ne_eq, Decidable.not_not] at fits
      simp only [client, fits.2.1, fits.2.2]
    rw [same]

theorem prefetchWrites_addressed (thisJob : Nat) (items : List Gathered) (out : Output) :
    (items.foldl (prefetchWrite false m buf thisJob) out).Addressed buf ↔
      out.Addressed buf ∧
        ∀ g ∈ items, ∀ asker, (g.index, asker) ∈ owned buf → client buf thisJob = client buf asker := by
  induction items generalizing out with
  | nil => simp
  | cons g rest ih =>
    rw [List.foldl_cons, ih, prefetchWrite_addressed, and_assoc]
    simp only [List.forall_mem_cons]

theorem Attributed.owner (attributed : Attributed buf) {i j job : Nat} (left : (i, j) ∈ owned buf)
    (right : (i, job) ∈ owned buf) : j = job := by
  have distinct : ((owned buf).map Prod.fst).Nodup := by
    rw [attributed.indexes]
    exact List.nodup_range
  exact congrArg Prod.snd (List.inj_on_of_nodup_map distinct left right rfl)

theorem group_addressed (attributed : Attributed buf) (thisJob : Nat) (out : Output) {found : List (Nat × Nat)}
    (inside : ∀ e ∈ found, e ∈ owned buf) :
    ((found.map (gathered m buf)).foldl (prefetchWrite false m buf thisJob) out).Addressed buf ↔
      out.Addressed buf ∧ ∀ e ∈ found, client buf thisJob = client buf e.2 := by
  rw [prefetchWrites_addressed]
  apply and_congr Iff.rfl
  constructor
  · intro all e member
    exact all _ (List.mem_map_of_mem member) e.2 (inside e member)
  · intro all g member asker owns
    obtain ⟨e, here, rfl⟩ := List.mem_map.mp member
    rw [attributed.owner owns (inside e here)]
    exact all e here

theorem prefetchGroups_addressed (attributed : Attributed buf) {jobs rounds : Nat} {cursor : Cursor} {out : Output}
    {rest : List (Nat × Nat)} (here : At buf jobs cursor rest) (enough : buf.numSearchJob - cursor.index < rounds) :
    ∃ after flag, prefetchGroups false m buf jobs rounds cursor out = some (after, flag) ∧
      (after.Addressed buf ↔ out.Addressed buf ∧ GroupedBy buf (hits buf rest) (jobs - 1)) := by
  induction rounds generalizing cursor out rest with
  | zero => omega
  | succ rounds ih =>
    rw [prefetchGroups, Writer.groups]
    by_cases more : cursor.index < buf.numSearchJob
    · rw [if_pos more]
      have gathers := @prefetchLoop1_gathers m buf jobs { cursor := cursor, items := [], miss := 0, toSend := false } rest
        here distance_pos
      have inside : ∀ e ∈ hits buf rest, e ∈ owned buf := fun e member => here.owned e (List.mem_filter.mp member).1
      generalize prefetchLoop1 m buf jobs { cursor := cursor, items := [], miss := 0, toSend := false } = g at gathers
      generalize hits buf rest = found at gathers inside
      have items := gathers.items
      rw [List.nil_append, List.length_nil, Nat.sub_zero] at items
      have length : g.items.length = min prefetchBatchDistance found.length := by
        rw [items, List.length_map, List.length_take]
      have written := @group_addressed m buf attributed g.cursor.job (out.addMiss g.miss) (found.take prefetchBatchDistance)
        (fun e member => inside e (List.mem_of_mem_take member))
      rw [← items] at written
      change (g.items.foldl (outputWriter.write false m buf g.cursor.job) (outputWriter.addMiss out g.miss)).Addressed buf ↔
        _ at written
      simp only
      by_cases none : g.items.length = 0
      · rw [if_pos none]
        have empty : found = [] := by
          rw [length] at none
          apply List.length_eq_zero_iff.mp
          simp only [prefetchBatchDistance] at none
          omega
        refine ⟨_, _, rfl, ?_⟩
        rw [empty]
        exact ⟨fun all => ⟨all, groupedBy_nil⟩, fun both => both.1⟩
      · rw [if_neg none]
        by_cases short : g.items.length ≠ prefetchBatchDistance
        · rw [if_pos short]
          have few : found.length < prefetchBatchDistance := by omega
          refine ⟨_, _, rfl, ?_⟩
          rw [written, groupedBy_short few, List.take_of_length_le few.le, gathers.ended few]
          rfl
        · rw [if_neg short]
          have many : prefetchBatchDistance - 1 < found.length := by
            simp only [prefetchBatchDistance] at short length ⊢
            omega
          have fifth := List.getElem?_eq_getElem many
          obtain ⟨job, grows, later, next, remaining⟩ := gathers.full _ fifth
          simp only at grows
          obtain ⟨after, flag, result, addressed⟩ := ih next (by omega)
          refine ⟨after, flag, result, ?_⟩
          rw [addressed, written, remaining, groupedBy_long fifth, job, and_assoc]
          rfl
    · have empty : rest = [] := by
        have order := here.order
        rw [show buf.numSearchJob - cursor.index = 0 by omega] at order
        exact List.map_eq_nil_iff.mp order
      rw [if_neg more, empty]
      refine ⟨out, false, rfl, ?_⟩
      exact ⟨fun all => ⟨all, groupedBy_nil⟩, fun both => both.1⟩

theorem responses_addressed_iff (m : Memory) (buf : SearchBuf) (attributed : Attributed buf) (some : 0 < buf.numSearchJob)
    (hit miss totalBytes totalPackets : Nat) :
    ∃ out, sendBatch ⟨true, false⟩ m buf hit miss totalBytes totalPackets = .some out ∧
      (out.Addressed buf ↔ Grouped buf) := by
  have jobs : 0 < buf.numCompactSearchJob := by
    by_contra none
    have indexes := attributed.indexes
    rw [owned, Nat.eq_zero_of_not_pos none] at indexes
    have empty := congrArg List.length indexes
    rw [List.length_range] at empty
    exact absurd empty (Nat.ne_of_lt some)
  have here : At buf (1 + buf.numCompactSearchJob) (loadJob buf 1 (buf.searchJobList 1).index) (owned buf) := by
    refine ⟨?_, ?_, Nat.lt_add_of_pos_right jobs, fun e member => member⟩
    · obtain ⟨count, more⟩ : ∃ count, buf.numCompactSearchJob = count + 1 := ⟨buf.numCompactSearchJob - 1, by omega⟩
      rw [owned, more, ownedFrom, List.range'_succ, List.flatMap_cons]
      simp only [loadJob, ownedFrom]
      rw [show 1 + (count + 1) - (1 + 1) = count by omega]
    · simp only [loadJob]
      rw [attributed.indexes, attributed.start, List.range_eq_range', Nat.sub_zero]
  obtain ⟨after, flag, result, addressed⟩ := @prefetchGroups_addressed m buf attributed _ (buf.numSearchJob + 1) _
    (startOutput (buf.searchJobList 1) hit miss totalBytes totalPackets) _ here (by omega)
  have start : (startOutput (buf.searchJobList 1) hit miss totalBytes totalPackets).Addressed buf := by
    rw [Output.addressed_iff]
    refine ⟨fun packet member => absurd member (by simp [startOutput]), ?_⟩
    intro record member
    contradiction
  have finish : (if flag then { after.complete with totalPackets := after.totalPackets + ioBatchNum }
      else after).Addressed buf ↔ after.Addressed buf := by
    cases flag
    · rfl
    · simp only [ite_true]
      rw [Output.addressed_iff, after.addressed_iff]
      simp only [Output.complete, List.mem_append, List.mem_singleton]
      exact ⟨fun both => ⟨fun packet member => both.1 packet (.inl member), both.2⟩,
        fun both => ⟨fun packet member => member.elim (both.1 packet) (fun same => same ▸ both.2), both.2⟩⟩
  refine ⟨_, ?_, finish.trans (addressed.trans ?_)⟩
  · simp only [sendBatch, firstJob, totalCnt, ite_true, result]
  · rw [show 1 + buf.numCompactSearchJob - 1 = buf.numCompactSearchJob by omega]
    exact ⟨fun both => both.2, fun grouped => ⟨start, grouped⟩⟩

end Packets

section TwoClients

/-- Two clients with one search each, both of which hit; their addresses are `first` and `second`. -/
def twoSearches (first second : BitVec 32) : SearchBuf :=
  { searchJobList := fun job =>
      { ethAddr := 0, ip := if job = 1 then first else second, port := 0, num := 1, index := job - 1,
        key := fun _ => 0, nkey := 8 }
    numCompactSearchJob := 2
    numSearchJob := 2
    searchOut := fun _ => 1 }

theorem twoSearches_attributed (first second : BitVec 32) : Attributed (twoSearches first second) := ⟨rfl, rfl⟩

theorem responses_addressed_iff_same : Attributed (twoSearches 7 7) ∧
    ∃ out, sendBatch ⟨true, false⟩ (uniformMemory plainItem) (twoSearches 7 7) 0 0 0 0 = some out ∧
      out.Addressed (twoSearches 7 7) := by
  obtain ⟨out, result, addressed⟩ := responses_addressed_iff (uniformMemory plainItem) (twoSearches 7 7)
    (twoSearches_attributed 7 7) (by decide) 0 0 0 0
  refine ⟨twoSearches_attributed 7 7, out, result, addressed.mpr ?_⟩
  intro k e _
  simp [client, twoSearches]

theorem response_to_other_client : Attributed (twoSearches 7 9) ∧
    ∃ out, sendBatch ⟨true, false⟩ (uniformMemory plainItem) (twoSearches 7 9) 0 0 0 0 = some out ∧
      ¬out.Addressed (twoSearches 7 9) := by
  have written : ∃ out, sendBatch ⟨true, false⟩ (uniformMemory plainItem) (twoSearches 7 9) 0 0 0 0 = some out ∧
      out.current.ip = 9 ∧ out.current.records.map Record.index = [0, 1] := by
    simp [sendBatch, firstJob, totalCnt, prefetchGroups, Writer.groups, prefetchLoop1, loadJob, twoSearches, foundLoc,
      prefetchBatchDistance, Writer.write, outputWriter, Output.addMiss, ethernetMaxFrameLen, eiuHdrLen, uniformMemory, plainItem, Output.writePkt,
      startOutput, startPacket, Output.newPacket, Output.complete, ioBatchNum]
  obtain ⟨out, result, ip, indexes⟩ := written
  refine ⟨twoSearches_attributed 7 9, out, result, ?_⟩
  intro addressed
  have member : 0 ∈ out.current.records.map Record.index := by
    rw [indexes]
    exact List.mem_cons_self
  obtain ⟨record, present, index⟩ := List.mem_map.mp member
  have same := addressed out.current (List.mem_append_right _ List.mem_cons_self) record present 1
    (by rw [index]; decide)
  have ips := congrArg Prod.fst same
  rw [ip] at ips
  have other : (9 : BitVec 32) ≠ 7 := by decide
  exact other ips

end TwoClients

end MegaKV.Sender
