import MegaKV.Sender.Destination

namespace MegaKV.Sender

open Slab

section Trace

variable (m : Memory) (buf : SearchBuf) (totalCnt : Nat)

/-- The indexes at which `prefetch_loop1` reads `search_out`, each with whether it is taken then. -/
def loop1Trace (g : Gathering) : List (Nat × Bool) :=
  if 0 < g.cursor.num then
    if g.cursor.index ≠ g.cursor.jobIndex then [(g.cursor.index, false)]
    else
      let cursor := { g.cursor with
        num := g.cursor.num - 1, jobIndex := g.cursor.jobIndex + 1, index := g.cursor.index + 1 }
      if foundLoc buf g.cursor.index ≠ 0 then
        let items := g.items ++
          [{ it := slabLocToPtr m (foundLoc buf g.cursor.index), job := g.cursor.job, index := g.cursor.index }]
        if items.length < prefetchBatchDistance then
          (g.cursor.index, true) :: loop1Trace { g with cursor := cursor, items := items }
        else [(g.cursor.index, true)]
      else (g.cursor.index, true) :: loop1Trace { g with cursor := cursor, miss := g.miss + 1 }
  else if g.cursor.job + 1 < totalCnt then
    (g.cursor.index, false) :: loop1Trace { g with cursor := loadJob buf (g.cursor.job + 1) g.cursor.index }
  else [(g.cursor.index, false)]
termination_by (totalCnt - g.cursor.job, g.cursor.num)
decreasing_by
  · exact Prod.Lex.right _ (Nat.sub_lt (by assumption) Nat.one_pos)
  · exact Prod.Lex.right _ (Nat.sub_lt (by assumption) Nat.one_pos)
  · exact Prod.Lex.left _ _ (Nat.sub_lt_sub_left (Nat.lt_of_succ_lt (by assumption)) (Nat.lt_succ_self _))

def groupsTrace : Nat → Cursor → List (Nat × Bool)
  | 0, _ => []
  | rounds + 1, cursor =>
    if cursor.index < buf.numSearchJob then
      let start : Gathering := { cursor := cursor, items := [], miss := 0, toSend := false }
      let g := prefetchLoop1 m buf totalCnt start
      loop1Trace m buf totalCnt start ++
        if g.items.length = prefetchBatchDistance then groupsTrace rounds g.cursor else []
    else []

end Trace

section Loop1

variable {m : Memory} {buf : SearchBuf} {jobs : Nat}

def taken (trace : List (Nat × Bool)) : List Nat := (trace.filter Prod.snd).map Prod.fst

def misses (buf : SearchBuf) (entries : List (Nat × Nat)) : Nat := (entries.filter (fun e => foundLoc buf e.1 = 0)).length

@[simp] theorem taken_cons_true (i : Nat) (trace : List (Nat × Bool)) : taken ((i, true) :: trace) = i :: taken trace := rfl

@[simp] theorem taken_cons_false (i : Nat) (trace : List (Nat × Bool)) : taken ((i, false) :: trace) = taken trace := rfl

theorem taken_append (first second : List (Nat × Bool)) : taken (first ++ second) = taken first ++ taken second := by
  simp only [taken, List.filter_append, List.map_append]

theorem misses_hit {e : Nat × Nat} (hit : foundLoc buf e.1 ≠ 0) (rest : List (Nat × Nat)) :
    misses buf (e :: rest) = misses buf rest := by
  rw [misses, List.filter_cons_of_neg (by simpa using hit)]
  rfl

theorem misses_miss {e : Nat × Nat} (miss : ¬foundLoc buf e.1 ≠ 0) (rest : List (Nat × Nat)) :
    misses buf (e :: rest) = misses buf rest + 1 := by
  rw [misses, List.filter_cons_of_pos (by simpa using miss)]
  rfl

theorem hits_append (first second : List (Nat × Nat)) : hits buf (first ++ second) = hits buf first ++ hits buf second :=
  List.filter_append _ _

theorem misses_append (first second : List (Nat × Nat)) :
    misses buf (first ++ second) = misses buf first + misses buf second := by
  simp only [misses, List.filter_append, List.length_append]

theorem hits_misses (entries : List (Nat × Nat)) : (hits buf entries).length + misses buf entries = entries.length := by
  induction entries with
  | nil => rfl
  | cons e rest ih =>
    by_cases hit : foundLoc buf e.1 ≠ 0
    · rw [hits_hit hit, misses_hit hit, List.length_cons, List.length_cons]
      omega
    · rw [hits_miss hit, misses_miss hit, List.length_cons]
      omega

structure Passes (m : Memory) (buf : SearchBuf) (g after : Gathering) (trace : List (Nat × Bool))
    (front : List (Nat × Nat)) : Prop where
  items : after.items = g.items ++ (hits buf front).map (gathered m buf)
  miss : after.miss = g.miss + misses buf front
  taken : taken trace = front.map Prod.fst
  reads : ∀ read ∈ trace, read.1 ≤ buf.numSearchJob

/-- `prefetch_loop1` stops behind the hit that fills the group, or at the end. -/
inductive Ran (m : Memory) (buf : SearchBuf) (jobs : Nat) (g after : Gathering) (trace : List (Nat × Bool)) :
    List (Nat × Nat) → Prop
  | full (front : List (Nat × Nat)) (e : Nat × Nat) (later : List (Nat × Nat))
      (passes : Passes m buf g after trace (front ++ [e])) (hit : foundLoc buf e.1 ≠ 0)
      (count : after.items.length = prefetchBatchDistance) (flag : after.toSend = g.toSend) (job : after.cursor.job = e.2)
      (grows : g.cursor.index < after.cursor.index) (bound : after.cursor.index ≤ buf.numSearchJob)
      (next : Before buf jobs after.cursor later) :
      Ran m buf jobs g after trace (front ++ e :: later)
  | ended (rest : List (Nat × Nat)) (passes : Passes m buf g after trace rest)
      (few : after.items.length < prefetchBatchDistance) (flag : after.toSend = true)
      (job : after.cursor.job = jobs - 1) : Ran m buf jobs g after trace rest

theorem Passes.hit {g next after : Gathering} {trace : List (Nat × Bool)} {front : List (Nat × Nat)} {e : Nat × Nat}
    (passes : Passes m buf next after trace front) (hit : foundLoc buf e.1 ≠ 0) (inside : e.1 ≤ buf.numSearchJob)
    (items : next.items = g.items ++ [gathered m buf e]) (miss : next.miss = g.miss) :
    Passes m buf g after ((e.1, true) :: trace) (e :: front) where
  items := by rw [passes.items, items, hits_hit hit, List.append_assoc, List.map_cons, List.singleton_append]
  miss := by rw [passes.miss, misses_hit hit, miss]
  taken := by rw [taken_cons_true, passes.taken, List.map_cons]
  reads := List.forall_mem_cons.mpr ⟨inside, passes.reads⟩

theorem Passes.miss' {g next after : Gathering} {trace : List (Nat × Bool)} {front : List (Nat × Nat)} {e : Nat × Nat}
    (passes : Passes m buf next after trace front) (miss : ¬foundLoc buf e.1 ≠ 0) (inside : e.1 ≤ buf.numSearchJob)
    (items : next.items = g.items) (counted : next.miss = g.miss + 1) :
    Passes m buf g after ((e.1, true) :: trace) (e :: front) where
  items := by rw [passes.items, items, hits_miss miss]
  miss := by
    rw [passes.miss, misses_miss miss, counted]
    omega
  taken := by rw [taken_cons_true, passes.taken, List.map_cons]
  reads := List.forall_mem_cons.mpr ⟨inside, passes.reads⟩

/-- The search at hand is taken; a hit joins the group. -/
def Gathering.take (g : Gathering) : Gathering :=
  { g with cursor := { g.cursor with
      num := g.cursor.num - 1, jobIndex := g.cursor.jobIndex + 1, index := g.cursor.index + 1 } }

def Gathering.takeHit (m : Memory) (buf : SearchBuf) (g : Gathering) : Gathering :=
  { g.take with items := g.items ++ [gathered m buf (g.cursor.index, g.cursor.job)] }

def Gathering.takeMiss (g : Gathering) : Gathering := { g.take with miss := g.miss + 1 }

def Gathering.load (buf : SearchBuf) (g : Gathering) : Gathering :=
  { g with cursor := loadJob buf (g.cursor.job + 1) g.cursor.index }

section Equations

variable {g : Gathering}

theorem loop1_hit (some : 0 < g.cursor.num) (right : ¬g.cursor.index ≠ g.cursor.jobIndex)
    (hit : foundLoc buf g.cursor.index ≠ 0) (more : (g.takeHit m buf).items.length < prefetchBatchDistance) :
    prefetchLoop1 m buf jobs g = prefetchLoop1 m buf jobs (g.takeHit m buf) ∧
      loop1Trace m buf jobs g = (g.cursor.index, true) :: loop1Trace m buf jobs (g.takeHit m buf) := by
  constructor
  · rw [prefetchLoop1, if_pos some, if_neg right, if_pos hit]
    exact if_pos more
  · rw [loop1Trace, if_pos some, if_neg right, if_pos hit]
    exact if_pos more

theorem loop1_full (some : 0 < g.cursor.num) (right : ¬g.cursor.index ≠ g.cursor.jobIndex)
    (hit : foundLoc buf g.cursor.index ≠ 0) (full : ¬(g.takeHit m buf).items.length < prefetchBatchDistance) :
    prefetchLoop1 m buf jobs g = g.takeHit m buf ∧ loop1Trace m buf jobs g = [(g.cursor.index, true)] := by
  constructor
  · rw [prefetchLoop1, if_pos some, if_neg right, if_pos hit]
    exact if_neg full
  · rw [loop1Trace, if_pos some, if_neg right, if_pos hit]
    exact if_neg full

theorem loop1_miss (some : 0 < g.cursor.num) (right : ¬g.cursor.index ≠ g.cursor.jobIndex)
    (miss : ¬foundLoc buf g.cursor.index ≠ 0) :
    prefetchLoop1 m buf jobs g = prefetchLoop1 m buf jobs g.takeMiss ∧
      loop1Trace m buf jobs g = (g.cursor.index, true) :: loop1Trace m buf jobs g.takeMiss := by
  constructor
  · rw [prefetchLoop1, if_pos some, if_neg right, if_neg miss]
    rfl
  · rw [loop1Trace, if_pos some, if_neg right, if_neg miss]
    rfl

theorem loop1_load (none : ¬0 < g.cursor.num) (more : g.cursor.job + 1 < jobs) :
    prefetchLoop1 m buf jobs g = prefetchLoop1 m buf jobs (g.load buf) ∧
      loop1Trace m buf jobs g = (g.cursor.index, false) :: loop1Trace m buf jobs (g.load buf) := by
  constructor
  · rw [prefetchLoop1, if_neg none, if_pos more]
    rfl
  · rw [loop1Trace, if_neg none, if_pos more]
    rfl

theorem loop1_end (none : ¬0 < g.cursor.num) (last : ¬g.cursor.job + 1 < jobs) :
    prefetchLoop1 m buf jobs g = { g with toSend := true } ∧ loop1Trace m buf jobs g = [(g.cursor.index, false)] := by
  constructor
  · rw [prefetchLoop1, if_neg none, if_neg last]
  · rw [loop1Trace, if_neg none, if_neg last]

end Equations

/-- A pass whose first entry only has to be put in front. -/
theorem Ran.cons {g next after : Gathering} {trace : List (Nat × Bool)} {e : Nat × Nat} {rest : List (Nat × Nat)}
    (ran : Ran m buf jobs next after trace rest) (flag : next.toSend = g.toSend)
    (grows : g.cursor.index ≤ next.cursor.index)
    (passes : ∀ front, Passes m buf next after trace front → Passes m buf g after ((e.1, true) :: trace) (e :: front)) :
    Ran m buf jobs g after ((e.1, true) :: trace) (e :: rest) := by
  cases ran with
  | full front last later passed hit count same job further bound next =>
    exact .full (e :: front) last later (passes _ passed) hit count (same.trans flag) job
      (Nat.lt_of_le_of_lt grows further) bound next
  | ended _ passed few sends job => exact .ended _ (passes _ passed) few sends job

theorem prefetchLoop1_ran (g : Gathering) (rest : List (Nat × Nat)) (here : Before buf jobs g.cursor rest)
    (start : g.cursor.index ≤ buf.numSearchJob) (room : g.items.length < prefetchBatchDistance) :
    Ran m buf jobs g (prefetchLoop1 m buf jobs g) (loop1Trace m buf jobs g) rest := by
  induction g using prefetchLoop1.induct m buf jobs generalizing rest with
  | case1 g some wrong => exact absurd (here.served some).1 wrong
  | case2 g some right cursor hit items more ih =>
    obtain ⟨_, bound, later, rfl, next⟩ := here.served some
    obtain ⟨result, trace⟩ := @loop1_hit m buf jobs g some right hit more
    rw [result, trace]
    have ran : Ran m buf jobs (g.takeHit m buf) (prefetchLoop1 m buf jobs (g.takeHit m buf))
        (loop1Trace m buf jobs (g.takeHit m buf)) later := ih later next bound more
    apply @Ran.cons m buf jobs g _ _ _ (g.cursor.index, g.cursor.job) later ran rfl (Nat.le_succ _)
    intro front passes
    exact passes.hit hit start rfl rfl
  | case3 g some right hit items full =>
    obtain ⟨_, bound, later, rfl, next⟩ := here.served some
    obtain ⟨result, trace⟩ := @loop1_full m buf jobs g some right hit full
    rw [result, trace]
    apply @Ran.full m buf jobs g (g.takeHit m buf) _ [] (g.cursor.index, g.cursor.job) later _ hit _ rfl rfl
      (Nat.lt_succ_self _) bound next
    · constructor
      · rw [List.nil_append, hits_hit hit]
        rfl
      · rw [List.nil_append, misses_hit hit]
        rfl
      · rfl
      · exact List.forall_mem_cons.mpr ⟨start, fun _ none => by cases none⟩
    · change ¬(g.items ++ [_]).length < prefetchBatchDistance at full
      change (g.items ++ [_]).length = prefetchBatchDistance
      rw [List.length_append, List.length_singleton] at full ⊢
      omega
  | case4 g some right cursor miss ih =>
    obtain ⟨_, bound, later, rfl, next⟩ := here.served some
    obtain ⟨result, trace⟩ := @loop1_miss m buf jobs g some right miss
    rw [result, trace]
    have ran : Ran m buf jobs g.takeMiss (prefetchLoop1 m buf jobs g.takeMiss)
        (loop1Trace m buf jobs g.takeMiss) later := ih later next bound room
    apply @Ran.cons m buf jobs g _ _ _ (g.cursor.index, g.cursor.job) later ran rfl (Nat.le_succ _)
    intro front passes
    exact passes.miss' miss start rfl rfl
  | case5 g none more ih =>
    obtain ⟨result, trace⟩ := @loop1_load m buf jobs g none more
    rw [result, trace]
    have read : ∀ {after : Gathering} {trace : List (Nat × Bool)} {front : List (Nat × Nat)},
        Passes m buf (g.load buf) after trace front → Passes m buf g after ((g.cursor.index, false) :: trace) front :=
      fun passes => ⟨passes.items, passes.miss, passes.taken, List.forall_mem_cons.mpr ⟨start, passes.reads⟩⟩
    cases ih rest (here.nextJob none more) start room with
    | full front e later passes last count flag job grows bound next =>
      exact .full front e later (read passes) last count flag job grows bound next
    | ended _ passes few flag job => exact .ended _ (read passes) few flag job
  | case6 g none last =>
    obtain ⟨empty, job⟩ := here.finished none last
    obtain ⟨result, trace⟩ := @loop1_end m buf jobs g none last
    rw [result, trace, empty]
    refine .ended [] ⟨?_, rfl, rfl, List.forall_mem_cons.mpr ⟨start, fun _ none => by cases none⟩⟩ room rfl job
    exact (List.append_nil _).symm

end Loop1

section Groups

variable {keyMatch : Bool} {m : Memory} {buf : SearchBuf} {jobs : Nat}

/-- The hits in groups of five, each hit with the job its group is written with. -/
def served (last : Nat) (found : List (Nat × Nat)) : List (Nat × (Nat × Nat)) :=
  if long : prefetchBatchDistance - 1 < found.length then
    (found.take prefetchBatchDistance).map (fun e => (found[prefetchBatchDistance - 1].2, e)) ++
      served last (found.drop prefetchBatchDistance)
  else found.map (fun e => (last, e))
termination_by found.length
decreasing_by
  simp only [prefetchBatchDistance, List.length_drop] at *
  omega

def writeServed (keyMatch : Bool) (m : Memory) (buf : SearchBuf) (list : List (Nat × (Nat × Nat))) (out : Output) : Output :=
  list.foldl (fun out h => prefetchWrite keyMatch m buf h.1 out (gathered m buf h.2)) out

/-- The last search is no hit that fills a group. -/
def Flushes (buf : SearchBuf) (rest : List (Nat × Nat)) : Prop :=
  ∃ e, rest.getLast? = some e ∧ ¬(foundLoc buf e.1 ≠ 0 ∧ (hits buf rest).length % prefetchBatchDistance = 0)

theorem served_short {last : Nat} {found : List (Nat × Nat)} (short : found.length < prefetchBatchDistance) :
    served last found = found.map (fun e => (last, e)) := by
  rw [served, dif_neg]
  simp only [prefetchBatchDistance] at *
  omega

theorem served_group {last : Nat} {front later : List (Nat × Nat)} {e : Nat × Nat}
    (five : front.length + 1 = prefetchBatchDistance) :
    served last (front ++ e :: later) = (front ++ [e]).map (fun h => (e.2, h)) ++ served last later := by
  have fourth : prefetchBatchDistance - 1 = front.length := by omega
  have long : prefetchBatchDistance - 1 < (front ++ e :: later).length := by
    rw [List.length_append, List.length_cons]
    omega
  have split : front ++ e :: later = (front ++ [e]) ++ later := by rw [List.append_assoc, List.singleton_append]
  have length : (front ++ [e]).length = prefetchBatchDistance := by rw [List.length_append, List.length_singleton, five]
  have fifth : (front ++ e :: later)[prefetchBatchDistance - 1] = e := by
    simp only [fourth, List.getElem_append_right (Nat.le_refl _), Nat.sub_self, List.getElem_cons_zero]
  rw [served, dif_pos long, fifth, split, ← length, List.take_left, List.drop_left]

section Write

variable (keyMatch m buf) (thisJob : Nat) (out : Output) (g : Gathered)

def opened : Output := if Breaks keyMatch m buf thisJob out g then out.newPacket (buf.searchJobList thisJob) else out

theorem prefetchWrite_eq :
    prefetchWrite keyMatch m buf thisJob out g =
      if Matches keyMatch m buf g then
        (opened keyMatch m buf thisJob out g).writePkt keyMatch g.index g.job g.it (m.heap g.it)
      else (opened keyMatch m buf thisJob out g).addMiss 1 :=
  Writer.write_eq keyMatch m buf thisJob g outputWriter out

end Write

theorem newPacket_addMiss (out : Output) (n : Nat) (job : SearchJob) :
    (out.addMiss n).newPacket job = (out.newPacket job).addMiss n := by
  rw [Output.newPacket, Output.newPacket]
  by_cases full : out.pktMark = ioBatchNum - 1
  · rw [if_pos full]
    exact if_pos full
  · rw [if_neg full]
    exact if_neg full

theorem Output.addMiss_addMiss (out : Output) (n k : Nat) : (out.addMiss n).addMiss k = out.addMiss (n + k) := by
  simp only [Output.addMiss, Nat.add_assoc]

theorem prefetchWrite_addMiss (thisJob : Nat) (out : Output) (g : Gathered) (n : Nat) :
    prefetchWrite keyMatch m buf thisJob (out.addMiss n) g = (prefetchWrite keyMatch m buf thisJob out g).addMiss n := by
  have same : opened keyMatch m buf thisJob (out.addMiss n) g = (opened keyMatch m buf thisJob out g).addMiss n := by
    unfold opened
    rw [newPacket_addMiss]
    change (if Breaks keyMatch m buf thisJob out g then _ else _) = _
    split <;> rfl
  rw [prefetchWrite_eq, prefetchWrite_eq, same]
  split
  · rfl
  · rw [Output.addMiss_addMiss, Output.addMiss_addMiss, Nat.add_comm]

theorem writeServed_addMiss (list : List (Nat × (Nat × Nat))) (out : Output) (n : Nat) :
    writeServed keyMatch m buf list (out.addMiss n) = (writeServed keyMatch m buf list out).addMiss n := by
  induction list generalizing out with
  | nil => rfl
  | cons h rest ih =>
    simp only [writeServed, List.foldl_cons, prefetchWrite_addMiss] at ih ⊢
    exact ih _

theorem writeServed_append (first second : List (Nat × (Nat × Nat))) (out : Output) :
    writeServed keyMatch m buf (first ++ second) out =
      writeServed keyMatch m buf second (writeServed keyMatch m buf first out) := List.foldl_append

/-- One group with its job. -/
theorem group_served (thisJob : Nat) (found : List (Nat × Nat)) (out : Output) :
    (found.map (gathered m buf)).foldl (prefetchWrite keyMatch m buf thisJob) out =
      writeServed keyMatch m buf (found.map (fun e => (thisJob, e))) out := by
  rw [writeServed, List.foldl_map, List.foldl_map]

theorem Flushes.later {front later : List (Nat × Nat)} {e : Nat × Nat} (hit : foundLoc buf e.1 ≠ 0)
    (five : (hits buf front).length + 1 = prefetchBatchDistance) :
    Flushes buf (front ++ e :: later) ↔ Flushes buf later := by
  have count : (hits buf (front ++ e :: later)).length % prefetchBatchDistance =
      (hits buf later).length % prefetchBatchDistance := by
    rw [hits_append, hits_hit hit, List.length_append, List.length_cons, ← Nat.add_assoc, Nat.add_right_comm, five,
      Nat.add_mod_left]
  unfold Flushes
  cases later with
  | nil =>
    rw [List.getLast?_append]
    constructor
    · intro flushes
      obtain ⟨last, present, unfilled⟩ := flushes
      cases present
      exact absurd ⟨hit, count⟩ unfilled
    · intro flushes
      obtain ⟨last, present, _⟩ := flushes
      cases present
  | cons other others =>
    have last : (front ++ e :: other :: others).getLast? = (other :: others).getLast? := by
      rw [← List.singleton_append, ← List.append_assoc, List.getLast?_append_of_ne_nil _ (List.cons_ne_nil _ _)]
    rw [last, count]

theorem Flushes.short {rest : List (Nat × Nat)} (some : rest ≠ []) (few : (hits buf rest).length < prefetchBatchDistance) :
    Flushes buf rest := by
  refine ⟨rest.getLast some, List.getLast?_eq_some_getLast some, ?_⟩
  intro filled
  obtain ⟨hit, full⟩ := filled
  rw [Nat.mod_eq_of_lt few] at full
  have member : rest.getLast some ∈ hits buf rest :=
    List.mem_filter.mpr ⟨List.getLast_mem some, decide_eq_true hit⟩
  rw [List.length_eq_zero_iff.mp full] at member
  cases member

theorem Before.nonempty {c : Cursor} {rest : List (Nat × Nat)} (here : Before buf jobs c rest)
    (more : c.index < buf.numSearchJob) : rest ≠ [] := by
  intro empty
  have order := here.order
  rw [empty, show buf.numSearchJob - c.index = buf.numSearchJob - c.index - 1 + 1 by omega, List.range'_succ] at order
  cases order

theorem prefetchGroups_run {rounds : Nat} {cursor : Cursor} {out : Output} {rest : List (Nat × Nat)}
    (here : Before buf jobs cursor rest) (start : cursor.index ≤ buf.numSearchJob)
    (enough : buf.numSearchJob - cursor.index < rounds) :
    (∃ flag, prefetchGroups keyMatch m buf jobs rounds cursor out =
        some ((writeServed keyMatch m buf (served (jobs - 1) (hits buf rest)) out).addMiss (misses buf rest), flag) ∧
        (flag = true ↔ Flushes buf rest)) ∧
      taken (groupsTrace m buf jobs rounds cursor) = rest.map Prod.fst ∧
      ∀ read ∈ groupsTrace m buf jobs rounds cursor, read.1 ≤ buf.numSearchJob := by
  induction rounds generalizing cursor out rest with
  | zero => omega
  | succ rounds ih =>
    rw [prefetchGroups, Writer.groups, groupsTrace]
    by_cases more : cursor.index < buf.numSearchJob
    · rw [if_pos more, if_pos more]
      have ran := @prefetchLoop1_ran m buf jobs { cursor := cursor, items := [], miss := 0, toSend := false } rest
        here start distance_pos
      dsimp only
      generalize prefetchLoop1 m buf jobs { cursor := cursor, items := [], miss := 0, toSend := false } = g at ran
      generalize loop1Trace m buf jobs { cursor := cursor, items := [], miss := 0, toSend := false } = trace at ran
      cases ran with
      | full front e later passes hit count flag job grows bound next =>
        have items := passes.items
        have miss := passes.miss
        rw [List.nil_append] at items
        rw [Nat.zero_add] at miss
        change cursor.index < g.cursor.index at grows
        have five : (hits buf front).length + 1 = prefetchBatchDistance := by
          rw [← count, items, List.length_map, hits_append, hits_hit hit, List.length_append]
          rfl
        have some : g.items.length ≠ 0 := by
          rw [count]
          decide
        have entries : hits buf (front ++ [e]) = hits buf front ++ [e] := by
          rw [hits_append, hits_hit hit]
          rfl
        rw [if_neg some, if_neg (not_not.mpr count), if_pos count]
        obtain ⟨⟨flag, result, flushes⟩, indexes, reads⟩ :=
          @ih g.cursor (g.items.foldl (prefetchWrite keyMatch m buf g.cursor.job) (out.addMiss g.miss)) later next bound
            (by omega)
        refine ⟨⟨flag, ?_, flushes.trans (Flushes.later hit five).symm⟩, ?_, ?_⟩
        · change prefetchGroups keyMatch m buf jobs rounds g.cursor
            (g.items.foldl (prefetchWrite keyMatch m buf g.cursor.job) (out.addMiss g.miss)) = _
          rw [result, items, group_served, entries, job, writeServed_addMiss, writeServed_addMiss,
            Output.addMiss_addMiss, ← writeServed_append, ← served_group five, miss, ← misses_append, hits_append,
            hits_hit hit, List.append_assoc, List.singleton_append]
        · rw [taken_append, passes.taken, indexes, List.map_append, List.map_append, List.map_cons, List.map_cons,
            List.append_assoc]
          rfl
        · intro read member
          rcases List.mem_append.mp member with earlier | afterwards
          · exact passes.reads read earlier
          · exact reads read afterwards
      | ended _ passes few flag job =>
        have items := passes.items
        have miss := passes.miss
        rw [List.nil_append] at items
        rw [Nat.zero_add] at miss
        have short : (hits buf rest).length < prefetchBatchDistance := by
          rw [items, List.length_map] at few
          exact few
        rw [if_neg (Nat.ne_of_lt few), List.append_nil]
        refine ⟨⟨true, ?_, fun _ => Flushes.short (here.nonempty more) short, fun _ => rfl⟩, passes.taken, passes.reads⟩
        by_cases none : g.items.length = 0
        · rw [if_pos none, flag]
          have empty : hits buf rest = [] := by
            rw [items, List.length_map] at none
            exact List.length_eq_zero_iff.mp none
          rw [empty, @served_short (jobs - 1) [] distance_pos, ← miss]
          rfl
        · rw [if_neg none, if_pos (Nat.ne_of_lt few), flag]
          change some (g.items.foldl (prefetchWrite keyMatch m buf g.cursor.job) (out.addMiss g.miss), true) = _
          rw [items, group_served, job, writeServed_addMiss, served_short short, miss]
    · have empty : rest = [] := by
        have order := here.order
        rw [show buf.numSearchJob - cursor.index = 0 by omega] at order
        exact List.map_eq_nil_iff.mp order
      rw [if_neg more, if_neg more, empty]
      have nothing : served (jobs - 1) (hits buf []) = [] := @served_short (jobs - 1) [] distance_pos
      refine ⟨⟨false, ?_, ?_⟩, rfl, fun _ none => by cases none⟩
      · rw [nothing]
        rfl
      · constructor
        · intro impossible
          cases impossible
        · intro flushes
          obtain ⟨last, present, _⟩ := flushes
          cases present

end Groups

section Batch

variable (build : Build) (buf : SearchBuf)

/-- The indexes with the entries they belong to, where the first entry is that of the build. -/
def ownedIn : List (Nat × Nat) := ownedFrom buf (firstJob build) buf.numCompactSearchJob

/-- The entries of the build follow one another from index 0 on and own each index below `num_search_job` once. -/
structure AttributedIn : Prop where
  start : (buf.searchJobList (firstJob build)).index = 0
  indexes : (ownedIn build buf).map Prod.fst = List.range buf.numSearchJob

def prefetchStart : Cursor := loadJob buf (firstJob build) (buf.searchJobList (firstJob build)).index

/-- The loop of one batch over its groups, in front of the last flush. -/
def prefetchLoop (m : Memory) (hit miss totalBytes totalPackets : Nat) : Option (Output × Bool) :=
  prefetchGroups build.keyMatch m buf (totalCnt build buf) (buf.numSearchJob + 1) (prefetchStart build buf)
    (startOutput (buf.searchJobList (firstJob build)) hit miss totalBytes totalPackets)

variable {build buf} {m : Memory} {hit miss totalBytes totalPackets : Nat}

theorem sendBatch_loop :
    sendBatch build m buf hit miss totalBytes totalPackets =
      match prefetchLoop build buf m hit miss totalBytes totalPackets with
      | none => none
      | some (out, toSend) =>
        some (if toSend then { out.complete with totalPackets := out.totalPackets + ioBatchNum } else out) := rfl

theorem AttributedIn.before (attributed : AttributedIn build buf) (some : 0 < buf.numSearchJob) :
    Before buf (totalCnt build buf) (prefetchStart build buf) (ownedIn build buf) := by
  have jobs : 0 < buf.numCompactSearchJob := by
    by_contra none
    have indexes := attributed.indexes
    rw [ownedIn, Nat.eq_zero_of_not_pos none] at indexes
    have empty := congrArg List.length indexes
    rw [List.length_range] at empty
    exact absurd empty (Nat.ne_of_lt some)
  refine ⟨?_, ?_, Nat.lt_add_of_pos_right jobs⟩
  · obtain ⟨count, more⟩ : ∃ count, buf.numCompactSearchJob = count + 1 := ⟨buf.numCompactSearchJob - 1, by omega⟩
    rw [ownedIn, totalCnt, more, ownedFrom, List.range'_succ, List.flatMap_cons]
    simp only [prefetchStart, loadJob, ownedFrom]
    rw [show firstJob build + (count + 1) - (firstJob build + 1) = count by omega]
  · simp only [prefetchStart, loadJob]
    rw [attributed.indexes, attributed.start, List.range_eq_range', Nat.sub_zero]

def writtenOut (build : Build) (buf : SearchBuf) (m : Memory) (hit miss totalBytes totalPackets : Nat) : Output :=
  (writeServed build.keyMatch m buf (served (totalCnt build buf - 1) (hits buf (ownedIn build buf)))
    (startOutput (buf.searchJobList (firstJob build)) hit miss totalBytes totalPackets)).addMiss
      (misses buf (ownedIn build buf))

theorem prefetchLoop_run (attributed : AttributedIn build buf) (some : 0 < buf.numSearchJob) :
    (∃ flag, prefetchLoop build buf m hit miss totalBytes totalPackets =
        .some (writtenOut build buf m hit miss totalBytes totalPackets, flag) ∧
        (flag = true ↔ Flushes buf (ownedIn build buf))) ∧
      taken (groupsTrace m buf (totalCnt build buf) (buf.numSearchJob + 1) (prefetchStart build buf)) =
        List.range buf.numSearchJob ∧
      ∀ read ∈ groupsTrace m buf (totalCnt build buf) (buf.numSearchJob + 1) (prefetchStart build buf),
        read.1 ≤ buf.numSearchJob := by
  have start : (prefetchStart build buf).index ≤ buf.numSearchJob := by
    rw [prefetchStart, attributed.start]
    exact Nat.zero_le _
  obtain ⟨ended, indexes, reads⟩ := @prefetchGroups_run build.keyMatch m buf _ (buf.numSearchJob + 1) _
    (startOutput (buf.searchJobList (firstJob build)) hit miss totalBytes totalPackets) _ (attributed.before some) start
    (by omega)
  rw [attributed.indexes] at indexes
  exact ⟨ended, indexes, reads⟩

/-- The entries own each index once, from 0 on; a batch without searches has none. -/
structure Entries (build : Build) (buf : SearchBuf) : Prop where
  start : 0 < buf.numSearchJob → (buf.searchJobList (firstJob build)).index = 0
  indexes : (ownedIn build buf).map Prod.fst = List.range buf.numSearchJob

theorem Entries.loop_run (entries : Entries build buf) :
    ∃ flag, prefetchLoop build buf m hit miss totalBytes totalPackets =
      some (writtenOut build buf m hit miss totalBytes totalPackets, flag) ∧
      (flag = true ↔ Flushes buf (ownedIn build buf)) := by
  by_cases none : buf.numSearchJob = 0
  · have empty : ownedIn build buf = [] := by
      have indexes := entries.indexes
      rw [none] at indexes
      exact List.map_eq_nil_iff.mp indexes
    refine ⟨false, ?_, ?_⟩
    · have nothing : served (totalCnt build buf - 1) (hits buf []) = [] := @served_short _ [] (by decide)
      rw [writtenOut, empty, nothing]
      simp only [prefetchLoop, none, prefetchGroups, Writer.groups, Nat.not_lt_zero, if_false]
      rfl
    · rw [empty]
      constructor
      · intro impossible
        cases impossible
      · intro flushes
        obtain ⟨last, present, _⟩ := flushes
        cases present
  · have some := Nat.pos_of_ne_zero none
    exact (prefetchLoop_run ⟨entries.start some, entries.indexes⟩ some).1

theorem Entries.bound (entries : Entries build buf) {e : Nat × Nat} (member : e ∈ ownedIn build buf) :
    e.1 < buf.numSearchJob := by
  apply List.mem_range.mp
  rw [← entries.indexes]
  exact List.mem_map_of_mem member

theorem Entries.owner (entries : Entries build buf) {i : Nat} (inside : i < buf.numSearchJob) :
    ∃ job, (i, job) ∈ ownedIn build buf := by
  have member := List.mem_range.mpr inside
  rw [← entries.indexes] at member
  obtain ⟨⟨j, job⟩, present, same⟩ := List.mem_map.mp member
  cases same
  exact ⟨job, present⟩

theorem Entries.unique (entries : Entries build buf) {e other : Nat × Nat} (member : e ∈ ownedIn build buf)
    (another : other ∈ ownedIn build buf) (same : e.1 = other.1) : e = other := by
  have distinct : ((ownedIn build buf).map Prod.fst).Nodup := by
    rw [entries.indexes]
    exact List.nodup_range
  exact List.inj_on_of_nodup_map distinct member another same

end Batch

section Records

variable {keyMatch : Bool} {m : Memory} {buf : SearchBuf}

def Output.records (out : Output) : List Record := (out.packets ++ [out.current]).flatMap Packet.records

def recordOf (keyMatch : Bool) (m : Memory) (g : Gathered) : Record :=
  let item := m.heap g.it
  { index := g.index
    job := g.job
    it := g.it
    nbytes := item.nbytes
    value := if keyMatch then (List.range item.nbytes).map (fun k => item.data (item.nkey + k))
      else (List.range (item.nbytes + item.nkey)).map item.data }

theorem Output.records_eq (out : Output) :
    out.records = out.packets.flatMap Packet.records ++ out.current.records := by
  rw [Output.records, List.flatMap_append, List.flatMap_singleton]

theorem opened_records (thisJob : Nat) (out : Output) (g : Gathered) :
    (opened keyMatch m buf thisJob out g).records = out.records := by
  unfold opened
  split
  · obtain ⟨packets, current⟩ := out.newPacket_packets (buf.searchJobList thisJob)
    rw [Output.records_eq, packets, current]
    exact List.append_nil _
  · rfl

theorem opened_counts (thisJob : Nat) (out : Output) (g : Gathered) :
    (opened keyMatch m buf thisJob out g).hit = out.hit ∧ (opened keyMatch m buf thisJob out g).miss = out.miss := by
  unfold opened
  split
  · unfold Output.newPacket
    split <;> exact ⟨rfl, rfl⟩
  · exact ⟨rfl, rfl⟩

theorem writePkt_records (out : Output) (g : Gathered) :
    (out.writePkt keyMatch g.index g.job g.it (m.heap g.it)).records = out.records ++ [recordOf keyMatch m g] := by
  rw [Output.records_eq, Output.records_eq, List.append_assoc]
  rfl

theorem prefetchWrite_records (thisJob : Nat) (out : Output) (g : Gathered) :
    (prefetchWrite keyMatch m buf thisJob out g).records =
      out.records ++ if Matches keyMatch m buf g then [recordOf keyMatch m g] else [] := by
  rw [prefetchWrite_eq]
  split
  · rw [writePkt_records, opened_records]
  · rw [List.append_nil, ← @opened_records keyMatch m buf thisJob out g]
    rfl

theorem prefetchWrite_counts (thisJob : Nat) (out : Output) (g : Gathered) :
    (prefetchWrite keyMatch m buf thisJob out g).hit + (prefetchWrite keyMatch m buf thisJob out g).miss =
      out.hit + out.miss + 1 := by
  obtain ⟨hit, miss⟩ := @opened_counts keyMatch m buf thisJob out g
  rw [prefetchWrite_eq]
  split
  · change (opened keyMatch m buf thisJob out g).hit + 1 + (opened keyMatch m buf thisJob out g).miss = _
    omega
  · change (opened keyMatch m buf thisJob out g).hit + ((opened keyMatch m buf thisJob out g).miss + 1) = _
    omega

theorem writeServed_records (list : List (Nat × (Nat × Nat))) (out : Output) :
    (writeServed keyMatch m buf list out).records =
      out.records ++ (((list.map Prod.snd).map (gathered m buf)).filter (fun g => Matches keyMatch m buf g)).map
        (recordOf keyMatch m) := by
  induction list generalizing out with
  | nil => exact (List.append_nil _).symm
  | cons h rest ih =>
    change (writeServed keyMatch m buf rest (prefetchWrite keyMatch m buf h.1 out (gathered m buf h.2))).records = _
    rw [ih, prefetchWrite_records, List.map_cons, List.map_cons, List.append_assoc]
    congr 1
    by_cases passes : Matches keyMatch m buf (gathered m buf h.2)
    · rw [if_pos passes, List.filter_cons_of_pos (by simpa using passes)]
      rfl
    · rw [if_neg passes, List.filter_cons_of_neg (by simpa using passes)]
      rfl

theorem writeServed_counts (list : List (Nat × (Nat × Nat))) (out : Output) :
    (writeServed keyMatch m buf list out).hit + (writeServed keyMatch m buf list out).miss =
      out.hit + out.miss + list.length := by
  induction list generalizing out with
  | nil => rfl
  | cons h rest ih =>
    change (writeServed keyMatch m buf rest (prefetchWrite keyMatch m buf h.1 out (gathered m buf h.2))).hit +
      (writeServed keyMatch m buf rest (prefetchWrite keyMatch m buf h.1 out (gathered m buf h.2))).miss = _
    rw [ih, prefetchWrite_counts, List.length_cons]
    omega

theorem served_snd (last : Nat) (found : List (Nat × Nat)) : (served last found).map Prod.snd = found := by
  induction found using served.induct with
  | case1 found long ih =>
    rw [served, dif_pos long, List.map_append, ih, List.map_map]
    change (found.take prefetchBatchDistance).map id ++ _ = _
    rw [List.map_id, List.take_append_drop]
  | case2 found short =>
    rw [served, dif_neg short, List.map_map]
    exact List.map_id _

theorem startOutput_records (job : SearchJob) (hit miss totalBytes totalPackets : Nat) :
    (startOutput job hit miss totalBytes totalPackets).records = [] := rfl

variable {build : Build} {hit miss totalBytes totalPackets : Nat}

theorem writtenOut_records :
    (writtenOut build buf m hit miss totalBytes totalPackets).records =
      (((hits buf (ownedIn build buf)).map (gathered m buf)).filter (fun g => Matches build.keyMatch m buf g)).map
        (recordOf build.keyMatch m) := by
  change (writeServed build.keyMatch m buf _ _).records = _
  rw [writeServed_records, startOutput_records, List.nil_append, served_snd]

theorem writtenOut_counts (attributed : AttributedIn build buf) :
    (writtenOut build buf m hit miss totalBytes totalPackets).hit +
      (writtenOut build buf m hit miss totalBytes totalPackets).miss = hit + miss + buf.numSearchJob := by
  have length : (ownedIn build buf).length = buf.numSearchJob := by
    rw [← List.length_map, attributed.indexes, List.length_range]
  have lists : (served (totalCnt build buf - 1) (hits buf (ownedIn build buf))).length =
      (hits buf (ownedIn build buf)).length := by
    rw [← List.length_map, served_snd]
  have counts := @writeServed_counts build.keyMatch m buf (served (totalCnt build buf - 1) (hits buf (ownedIn build buf)))
    (startOutput (buf.searchJobList (firstJob build)) hit miss totalBytes totalPackets)
  have parts := @hits_misses buf (ownedIn build buf)
  rw [lists] at counts
  rw [writtenOut, Output.addMiss]
  dsimp only
  rw [← Nat.add_assoc, counts, ← length, ← parts]
  exact Nat.add_assoc _ _ _

end Records

section EachOnce

variable {buf : SearchBuf}

/-- The loop ends, with each index taken once and in order, and a record for each index with a location. -/
theorem prefetch_takes_each_once (m : Memory) (attributed : Attributed buf) (some : 0 < buf.numSearchJob)
    (hit miss totalBytes totalPackets : Nat) :
    ∃ after flag out,
      prefetchLoop ⟨true, false⟩ buf m hit miss totalBytes totalPackets = .some (after, flag) ∧
      sendBatch ⟨true, false⟩ m buf hit miss totalBytes totalPackets = .some out ∧
      taken (groupsTrace m buf (totalCnt ⟨true, false⟩ buf) (buf.numSearchJob + 1) (prefetchStart ⟨true, false⟩ buf)) =
        List.range buf.numSearchJob ∧
      (∀ read ∈ groupsTrace m buf (totalCnt ⟨true, false⟩ buf) (buf.numSearchJob + 1) (prefetchStart ⟨true, false⟩ buf),
        (read.1 <<< 1) + 1 ≤ 2 * buf.numSearchJob + 1) ∧
      after.records.map Record.index = (List.range buf.numSearchJob).filter (fun i => foundLoc buf i ≠ 0) ∧
      after.hit + after.miss = hit + miss + buf.numSearchJob ∧ out.hit = after.hit ∧ out.miss = after.miss := by
  have entries : AttributedIn ⟨true, false⟩ buf := ⟨attributed.start, attributed.indexes⟩
  obtain ⟨⟨flag, result, _⟩, indexes, reads⟩ := @prefetchLoop_run _ buf m hit miss totalBytes totalPackets entries some
  have sent := @sendBatch_loop ⟨true, false⟩ buf m hit miss totalBytes totalPackets
  rw [result] at sent
  refine ⟨_, flag, _, result, sent, indexes, ?_, ?_, ?_, ?_, ?_⟩
  · intro read member
    have bound := reads read member
    rw [Nat.shiftLeft_eq]
    omega
  · have all : ∀ g, Matches false m buf g := fun g impossible => by cases impossible
    rw [writtenOut_records, List.filter_eq_self.mpr (fun g _ => decide_eq_true (all g)), List.map_map, List.map_map,
      ← entries.indexes, List.filter_map]
    rfl
  · exact writtenOut_counts entries
  · cases flag <;> rfl
  · cases flag <;> rfl

theorem prefetch_takes_each_once_two : ∃ out,
    sendBatch ⟨true, false⟩ (uniformMemory plainItem) (twoSearches 7 9) 0 0 0 0 = some out ∧ out.hit + out.miss = 2 := by
  obtain ⟨after, _, out, _, sent, _, _, _, counts, hit, miss⟩ :=
    prefetch_takes_each_once (uniformMemory plainItem) (twoSearches_attributed 7 9) (by decide) 0 0 0 0
  refine ⟨out, sent, ?_⟩
  rw [hit, miss]
  exact counts

end EachOnce

end MegaKV.Sender
