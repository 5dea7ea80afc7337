import MegaKV.Slab.Calls
import MegaKV.Slab.ChunkSize
import MegaKV.Slab.DeleteJobs

namespace MegaKV.Slab

open Library

section Moves

variable (bitmap : Bitmap) (used : Nat → Bool) (attempts : Nat → Attempts)

/-- The hand evicts in its move `t`, if it has not stopped before. -/
def due (t : Nat) : Bool := Clock.due (span bitmap) (clock bitmap) t

def moveOffset (t : Nat) : Nat := ((clock bitmap).hand + t) % span bitmap

def dueBefore (t : Nat) : Nat := (List.range t).countP (due bitmap)

def Visited (t : Nat) : Prop := due bitmap t = true ∧ dueBefore bitmap (64 * (t / 64)) < evictBatchSize

def takes (t : Nat) : Bool := due bitmap t && used (moveOffset bitmap t)

/-- The buffers in which the moves before `t` record their delete jobs. -/
def recorded (t : Nat) : List Nat :=
  ((List.range t).filter (takes bitmap used)).flatMap (fun u => (attempts (dueBefore bitmap u)).ids)

/-- Each of these attempts has found room for one more job. -/
def Unfilled (counts : Nat → Nat) (ids : List Nat) : Prop := ∀ b ∈ ids, counts b + ids.count b < batchMaxDeleteJob

/-- The bitmap has a word, and the hand visits no offset behind the slabs, unless a full delete buffer
    ends the loop before. -/
structure Steady (limit : Nat) (counts : Nat → Nat) : Prop where
  some : 0 < bitmap.currentSize
  inside : ∀ t, Visited bitmap t → Unfilled counts (recorded bitmap used attempts t) → moveOffset bitmap t < limit

/-- A class from which items can be evicted: the hand also visits an item in use if there is one. -/
structure Evictable (limit : Nat) (counts : Nat → Nat) : Prop extends Steady bitmap used attempts limit counts where
  reaches : (∃ o, used o = true) → ∃ t, Visited bitmap t ∧ used (moveOffset bitmap t) = true

variable {bitmap used attempts} {counts : Nat → Nat}

theorem dueBefore_succ (t : Nat) : dueBefore bitmap (t + 1) = if due bitmap t then dueBefore bitmap t + 1 else dueBefore bitmap t := by
  unfold dueBefore
  rw [List.range_succ, List.countP_append, List.countP_singleton]
  split <;> rfl

theorem dueBefore_mono {s t : Nat} (before : s ≤ t) : dueBefore bitmap s ≤ dueBefore bitmap t :=
  (List.range_sublist.mpr before).countP_le

theorem recorded_succ (t : Nat) :
    recorded bitmap used attempts (t + 1) =
      if takes bitmap used t then recorded bitmap used attempts t ++ (attempts (dueBefore bitmap t)).ids
      else recorded bitmap used attempts t := by
  unfold recorded
  rw [List.range_succ, List.filter_append, List.filter_singleton]
  cases takes bitmap used t with
  | false => simp
  | true => simp

theorem recorded_sublist {s t : Nat} (before : s ≤ t) :
    (recorded bitmap used attempts s).Sublist (recorded bitmap used attempts t) := by
  induction t, before using Nat.le_induction with
  | base => exact List.Sublist.refl _
  | succ t _ ih =>
    rw [recorded_succ]
    split
    · exact ih.trans (List.sublist_append_left _ _)
    · exact ih

theorem Unfilled.of_sublist {ids more : List Nat} (unfilled : Unfilled counts more) (sublist : ids.Sublist more) :
    Unfilled counts ids := by
  intro b member
  have room := unfilled b (sublist.subset member)
  have fewer := sublist.count_le b
  omega

theorem StopsAt.visited_iff {words : Nat} (here : StopsAt bitmap evictBatchSize words)
    (inside : bitmap.walker < bitmap.currentSize) (t : Nat) :
    Visited bitmap t ↔ t < 64 * words ∧ due bitmap t = true := by
  have length : ∀ k, (Clock.offsets (span bitmap) k (clock bitmap)).length = dueBefore bitmap k := by
    intro k
    rw [Clock.offsets_eq k _ (hand_lt inside), List.length_map, ← List.countP_eq_length_filter]
    rfl
  obtain ⟨enough, few⟩ := here
  rw [length] at enough
  have word : t / 64 < words ↔ t < 64 * words := by omega
  unfold Visited
  rw [← word, and_comm]
  apply and_congr_left
  intro _
  constructor
  · intro less
    by_contra late
    have more := @dueBefore_mono bitmap (64 * words) (64 * (t / 64)) (by omega)
    omega
  · intro early
    have less := few (t / 64) early
    rw [length] at less
    exact less

end Moves

section Record

variable {bufs : DeleteBufs} {offset : Nat} {it : Item}

theorem unfilled_cons_iff {counts : Nat → Nat} {b : Nat} {again : List Nat} (room : counts b + 1 < batchMaxDeleteJob) :
    Unfilled counts (b :: again) ↔ Unfilled (Function.update counts b (counts b + 1)) again := by
  constructor
  · intro unfilled x member
    have before := unfilled x (List.mem_cons_of_mem b member)
    by_cases here : x = b
    · rw [here, List.count_cons_self] at before
      rw [here, Function.update_self]
      omega
    · rw [List.count_cons_of_ne (Ne.symm here)] at before
      rw [Function.update_of_ne here]
      exact before
  · intro unfilled x member
    by_cases here : x = b
    · rw [here, List.count_cons_self]
      by_cases more : b ∈ again
      · have later := unfilled b more
        rw [Function.update_self] at later
        omega
      · rw [List.count_eq_zero_of_not_mem more]
        exact room
    · have later := unfilled x ((List.mem_cons.mp member).resolve_left here)
      rw [Function.update_of_ne here] at later
      rw [List.count_cons_of_ne (Ne.symm here)]
      exact later

/-- The jobs of an item are all counted, or the loop is left. -/
theorem recordDelete_counts (located : offset = ((it.loc <<< slabIdBits) % 2 ^ 32) >>> slabIdBits) (ids : List Nat) :
    ∃ bufs' left, recordDelete offset it ids bufs = .ok (bufs', left) ∧
      (left = false → Unfilled (counts bufs) ids ∧ ∀ b, counts bufs' b = counts bufs b + ids.count b) ∧
      (left = true → ¬Unfilled (counts bufs) ids) := by
  induction ids generalizing bufs with
  | nil =>
    refine ⟨bufs, false, rfl, ?_, ?_⟩
    · intro _
      exact ⟨fun b member => absurd member List.not_mem_nil, fun b => rfl⟩
    · intro impossible
      contradiction
  | cons b again ih =>
    by_cases room : counts bufs b + 1 < batchMaxDeleteJob
    · obtain ⟨bufs', left, result, stays, leaves⟩ := @ih (Function.update bufs b ((bufs b).write (deleteJob it)).count)
      rw [counts_count] at stays leaves
      refine ⟨bufs', left, (recordDelete_room located room).trans result, ?_, ?_⟩
      · intro goes
        obtain ⟨unfilled, counted⟩ := stays goes
        refine ⟨(unfilled_cons_iff room).mpr unfilled, ?_⟩
        intro x
        rw [counted x]
        by_cases here : x = b
        · rw [here, Function.update_self, List.count_cons_self]
          omega
        · rw [Function.update_of_ne here, List.count_cons_of_ne (Ne.symm here)]
      · intro ends unfilled
        exact leaves ends ((unfilled_cons_iff room).mp unfilled)
    · obtain ⟨bufs', full, _⟩ := recordDelete_full again located room
      refine ⟨bufs', true, full, ?_, ?_⟩
      · intro impossible
        contradiction
      · intro _ unfilled
        have less := unfilled b List.mem_cons_self
        rw [List.count_cons_self] at less
        omega

end Record

section Loop

variable {p : Slabclass} {id : Nat} {before : Ptr → Item} {bitmap : Bitmap} {used : Nat → Bool}
  {attempts : Nat → Attempts} {counted : Nat → Nat} {start stop : Nat} {eviction : Eviction} {nodes : List Ptr}

structure Sofar (p : Slabclass) (id : Nat) (before : Ptr → Item) (bitmap : Bitmap) (used : Nat → Bool)
    (attempts : Nat → Attempts) (counted : Nat → Nat) (start : Nat) (eviction : Eviction) (nodes : List Ptr) :
    Prop where
  evicted : Evicted p id before eviction nodes
  earlier : ∀ q ∈ nodes, ∃ u < start, takes bitmap used u = true ∧ q = itemAt p id (moveOffset bitmap u)
  complete : nodes = [] → ∀ u < start, takes bitmap used u = false
  jobs : ∀ b, counts eviction.bufs b = counted b + (recorded bitmap used attempts start).count b
  unfilled : Unfilled counted (recorded bitmap used attempts start)

def Derails (p : Slabclass) (bitmap : Bitmap) (used : Nat → Bool) (attempts : Nat → Attempts) (counted : Nat → Nat)
    (start stop : Nat) : Prop :=
  ∃ t, start ≤ t ∧ t < stop ∧ due bitmap t = true ∧ ¬moveOffset bitmap t < perslab * p.slabs ∧
    Unfilled counted (recorded bitmap used attempts t)

structure Ground (p : Slabclass) (id : Nat) (before : Ptr → Item) (bitmap : Bitmap) (used : Nat → Bool) (stop : Nat) :
    Prop where
  located : ∀ o < perslab * p.slabs, Located p id before o
  distinct : ∀ u t, u < t → t < stop → due bitmap u = true → due bitmap t = true →
    moveOffset bitmap u < perslab * p.slabs → moveOffset bitmap u ≠ moveOffset bitmap t
  used : ∀ o, used o = true ↔ o < perslab * p.slabs ∧ (before (itemAt p id o)).flags = 0

theorem Ground.fresh (ground : Ground p id before bitmap used stop) (valid : id ≤ powerLargest)
    (sofar : Sofar p id before bitmap used attempts counted start eviction nodes) (inner : start < stop)
    (here : due bitmap start = true) (inside : moveOffset bitmap start < perslab * p.slabs) :
    itemAt p id (moveOffset bitmap start) ∉ nodes := by
  intro member
  obtain ⟨u, earlier, takes, item⟩ := sofar.earlier _ member
  rw [MegaKV.Slab.takes, Bool.and_eq_true] at takes
  have low := ((ground.used _).mp takes.2).1
  have same := (ground.located _ inside).job_inj valid (ground.located _ low) (by rw [item])
  exact ground.distinct u start earlier inner takes.1 here low same.symm

theorem Sofar.pass (sofar : Sofar p id before bitmap used attempts counted start eviction nodes)
    (passes : takes bitmap used start = false) :
    Sofar p id before bitmap used attempts counted (start + 1) eviction nodes := by
  have same : recorded bitmap used attempts (start + 1) = recorded bitmap used attempts start := by
    rw [recorded_succ, passes]
    rfl
  refine ⟨sofar.evicted, ?_, ?_, ?_, ?_⟩
  · intro q member
    obtain ⟨u, earlier, rest⟩ := sofar.earlier q member
    exact ⟨u, Nat.lt_succ_of_lt earlier, rest⟩
  · intro empty u bound
    by_cases here : u = start
    · rw [here]
      exact passes
    · exact sofar.complete empty u (by omega)
  · rw [same]
    exact sofar.jobs
  · rw [same]
    exact sofar.unfilled

theorem Sofar.take (sofar : Sofar p id before bitmap used attempts counted start eviction nodes)
    (inside : moveOffset bitmap start < perslab * p.slabs)
    (free : (eviction.heap (itemAt p id (moveOffset bitmap start))).flags = 0) (taken : takes bitmap used start = true)
    {bufs : DeleteBufs} (unfilled : Unfilled (counts eviction.bufs) (attempts (dueBefore bitmap start)).ids)
    (more : ∀ b, counts bufs b = counts eviction.bufs b + (attempts (dueBefore bitmap start)).ids.count b) :
    Sofar p id before bitmap used attempts counted (start + 1)
      { eviction.free (itemAt p id (moveOffset bitmap start)) with bufs := bufs }
      (itemAt p id (moveOffset bitmap start) :: nodes) := by
  have longer : recorded bitmap used attempts (start + 1) =
      recorded bitmap used attempts start ++ (attempts (dueBefore bitmap start)).ids := by
    rw [recorded_succ, taken]
    rfl
  refine ⟨(sofar.evicted.add inside free).record bufs, ?_, ?_, ?_, ?_⟩
  · intro q member
    rcases List.mem_cons.mp member with here | older
    · exact ⟨start, Nat.lt_succ_self start, taken, here⟩
    · obtain ⟨u, earlier, rest⟩ := sofar.earlier q older
      exact ⟨u, Nat.lt_succ_of_lt earlier, rest⟩
  · intro impossible
    contradiction
  · intro b
    rw [longer, List.count_append, ← Nat.add_assoc, ← sofar.jobs b]
    exact more b
  · intro b member
    rw [longer, List.count_append, ← Nat.add_assoc, ← sofar.jobs b]
    by_cases recent : b ∈ (attempts (dueBefore bitmap start)).ids
    · exact unfilled b recent
    · have older := (List.mem_append.mp (longer ▸ member)).resolve_right recent
      have room := sofar.unfilled b older
      rw [← sofar.jobs b] at room
      rw [List.count_eq_zero_of_not_mem recent]
      exact room

/-- Behind a move that ends the loop none is come to. -/
theorem Sofar.stopped (sofar : Sofar p id before bitmap used attempts counted start eviction nodes)
    (taken : takes bitmap used start = true)
    (filled : ¬Unfilled (counts eviction.bufs) (attempts (dueBefore bitmap start)).ids) :
    ¬Derails p bitmap used attempts counted (start + 1) stop := by
  intro derails
  obtain ⟨t, after, _, _, _, unfilled⟩ := derails
  apply filled
  have upto := unfilled.of_sublist (recorded_sublist after)
  rw [recorded_succ, taken, if_pos rfl] at upto
  intro b member
  have room := upto b (List.mem_append_right _ member)
  rw [List.count_append, ← Nat.add_assoc, ← sofar.jobs b] at room
  exact room

def remaining (bitmap : Bitmap) (start len : Nat) : List Nat :=
  ((List.range' start len).filter (due bitmap)).map (moveOffset bitmap)

theorem remaining_succ (bitmap : Bitmap) (start len : Nat) :
    remaining bitmap start (len + 1) =
      if due bitmap start then moveOffset bitmap start :: remaining bitmap (start + 1) len
      else remaining bitmap (start + 1) len := by
  unfold remaining
  rw [List.range'_succ, List.filter_cons]
  split
  · rfl
  · rfl

/-- How the loop ends: with a failed assertion, or with a list that is empty where no move takes an item. -/
theorem evictLoop_moves (valid : id ≤ powerLargest) (ground : Ground p id before bitmap used stop) (len : Nat) :
    ∀ start eviction nodes, start + len = stop →
      Sofar p id before bitmap used attempts counted start eviction nodes →
      (Derails p bitmap used attempts counted start stop ∧
          evictLoop p id attempts (dueBefore bitmap start) (remaining bitmap start len) eviction = .error .assertion) ∨
        (¬Derails p bitmap used attempts counted start stop ∧ ∃ after later,
          evictLoop p id attempts (dueBefore bitmap start) (remaining bitmap start len) eviction = .ok after ∧
            Evicted p id before after later ∧ (later = [] ↔ ∀ t < stop, takes bitmap used t = false)) := by
  induction len with
  | zero =>
    intro start eviction nodes last sofar
    refine .inr ⟨?_, eviction, nodes, rfl, sofar.evicted, ?_⟩
    · intro derails
      obtain ⟨t, from', until', _⟩ := derails
      omega
    · have same : start = stop := last
      rw [← same]
      refine ⟨sofar.complete, ?_⟩
      intro none
      by_contra some
      obtain ⟨q, member⟩ := List.exists_mem_of_ne_nil nodes some
      obtain ⟨u, earlier, takes, _⟩ := sofar.earlier q member
      rw [none u earlier] at takes
      contradiction
  | succ len ih =>
    intro start eviction nodes last sofar
    have inner : start < stop := by omega
    have next : start + 1 + len = stop := by omega
    have later (derails : ¬(due bitmap start = true ∧ ¬moveOffset bitmap start < perslab * p.slabs)) :
        Derails p bitmap used attempts counted (start + 1) stop ↔ Derails p bitmap used attempts counted start stop := by
      constructor
      · intro given
        obtain ⟨t, after, rest⟩ := given
        exact ⟨t, by omega, rest⟩
      · intro given
        obtain ⟨t, after, until', dueHere, outside, unfilled⟩ := given
        have other : start ≠ t := by
          intro same
          subst same
          exact derails ⟨dueHere, outside⟩
        exact ⟨t, by omega, until', dueHere, outside, unfilled⟩
    cases here : due bitmap start with
    | false =>
      have passes : takes bitmap used start = false := by rw [takes, here, Bool.false_and]
      have rest := ih (start + 1) eviction nodes next (sofar.pass passes)
      rw [dueBefore_succ, here] at rest
      rw [remaining_succ, here, ← later (by simp [here])]
      exact rest
    | true =>
      rw [remaining_succ, here, if_pos rfl]
      by_cases inside : moveOffset bitmap start < perslab * p.slabs
      · have unlisted := ground.fresh valid sofar inner here inside
        have same := sofar.evicted.frame _ unlisted
        rw [← later (by simp [inside])]
        by_cases free : (eviction.heap (itemAt p id (moveOffset bitmap start))).flags = 0
        · have taken : takes bitmap used start = true := by
            rw [takes, here, Bool.true_and, ground.used]
            rw [same] at free
            exact ⟨inside, free⟩
          have place := (ground.located _ inside).offset
          rw [← (sofar.evicted.add inside free).loc] at place
          obtain ⟨bufs, left, record, stays, leaves⟩ :=
            @recordDelete_counts eviction.bufs _ _ place (attempts (dueBefore bitmap start)).ids
          cases left with
          | false =>
            obtain ⟨unfilled, more⟩ := stays rfl
            have rest := ih (start + 1) _ _ next (sofar.take inside free taken unfilled more)
            rw [dueBefore_succ, here, if_pos rfl] at rest
            rw [evictLoop_recorded inside rfl free record]
            exact rest
          | true =>
            refine .inr ⟨sofar.stopped taken (leaves rfl), _, _, evictLoop_stopped inside rfl free record,
              (sofar.evicted.add inside free).record bufs, ?_⟩
            constructor
            · intro impossible
              contradiction
            · intro none
              rw [none start inner] at taken
              contradiction
        · have passes : takes bitmap used start = false := by
            rw [takes, here, Bool.true_and, ← Bool.not_eq_true, ground.used]
            rw [same] at free
            exact fun both => free both.2
          have rest := ih (start + 1) eviction nodes next (sofar.pass passes)
          rw [dueBefore_succ, here, if_pos rfl] at rest
          rw [evictLoop_busy inside free]
          exact rest
      · refine .inl ⟨⟨start, Nat.le_refl start, inner, here, inside, sofar.unfilled⟩, ?_⟩
        rw [evictLoop, if_neg inside]

end Loop

section Items

variable {m : Memory} {id : Nat} {attempts : Nat → Attempts} {bufs : DeleteBufs}

def Memory.inUse (m : Memory) (id o : Nat) : Bool :=
  decide (o < perslab * (m.slabclass id).slabs ∧ (m.heap (m.item id o)).flags = 0)

inductive EvictionEnds (bitmap : Bitmap) (used : Nat → Bool) (attempts : Nat → Attempts) (limit : Nat)
    (counts : Nat → Nat) : Except Halt (Option Ptr × Memory × DeleteBufs) → Prop
  | fails (unsteady : ¬Steady bitmap used attempts limit counts) :
      EvictionEnds bitmap used attempts limit counts (.error .assertion)
  | exits (steady : Steady bitmap used attempts limit counts)
      (none : ∀ t, Visited bitmap t → used (moveOffset bitmap t) = false) :
      EvictionEnds bitmap used attempts limit counts (.error .exit)
  | returns (steady : Steady bitmap used attempts limit counts) (t : Nat) (visited : Visited bitmap t)
      (taken : used (moveOffset bitmap t) = true) (it : Ptr) (m' : Memory) (bufs' : DeleteBufs) :
      EvictionEnds bitmap used attempts limit counts (.ok (some it, m', bufs'))

theorem Memory.Sound.ground (sound : m.Sound) (valid : id ≤ powerLargest) (some : 0 < (m.slabclass id).bitmap.currentSize)
    {words : Nat} (here : StopsAt (m.slabclass id).bitmap evictBatchSize words) :
    Ground (m.slabclass id) id m.heap (m.slabclass id).bitmap (m.inUse id) (64 * words) := by
  have inner := hand_lt ((sound.reached id).valid.walker_lt some)
  refine ⟨fun o bound => ⟨sound.loc id o ⟨valid, bound⟩, sound.offset_lt ⟨valid, bound⟩⟩, ?_, ?_⟩
  · intro u t before last first second inside same
    have slabs := sound.slabs id
    have one : 0 < (m.slabclass id).slabs := by
      apply Nat.pos_of_ne_zero
      intro none
      rw [none] at inside
      exact absurd inside (Nat.not_lt_zero _)
    have nodup := Clock.offsets_nodup inner ⟨_, rfl⟩ (by simp only [span, evictBatchSize]; omega) here.2
    rw [Clock.offsets_eq _ _ inner] at nodup
    have equal := List.inj_on_of_nodup_map nodup
      (List.mem_filter.mpr ⟨List.mem_range.mpr (Nat.lt_trans before last), first⟩)
      (List.mem_filter.mpr ⟨List.mem_range.mpr last, second⟩) same
    exact Nat.ne_of_lt before equal
  · intro o
    exact decide_eq_true_iff

theorem remaining_offsets {bitmap : Bitmap} (inside : bitmap.walker < bitmap.currentSize) (moves : Nat) :
    Clock.offsets (span bitmap) moves (clock bitmap) = remaining bitmap 0 moves := by
  rw [Clock.offsets_eq _ _ (hand_lt inside), List.range_eq_range']
  rfl

theorem derails_iff_unsteady {p : Slabclass} {bitmap : Bitmap} {used : Nat → Bool} {counted : Nat → Nat} {stop : Nat}
    (some : 0 < bitmap.currentSize) (visited : ∀ t, Visited bitmap t ↔ t < stop ∧ due bitmap t = true) :
    Derails p bitmap used attempts counted 0 stop ↔ ¬Steady bitmap used attempts (perslab * p.slabs) counted := by
  constructor
  · intro derails steady
    obtain ⟨t, _, bound, here, outside, unfilled⟩ := derails
    exact outside (steady.inside t ((visited t).mpr ⟨bound, here⟩) unfilled)
  · intro unsteady
    by_contra straight
    apply unsteady
    refine ⟨some, ?_⟩
    intro t visit unfilled
    by_contra outside
    obtain ⟨bound, here⟩ := (visited t).mp visit
    exact straight ⟨t, Nat.zero_le t, bound, here, outside, unfilled⟩

theorem evictItems_ends (sound : m.Sound) (valid : id ≤ powerLargest) (attempts : Nat → Attempts) (bufs : DeleteBufs) :
    EvictionEnds (m.slabclass id).bitmap (m.inUse id) attempts (perslab * (m.slabclass id).slabs) (counts bufs)
      (evictItems id attempts m bufs) := by
  by_cases empty : (m.slabclass id).bitmap.currentSize = 0
  · have fails : bitmapEvictBatch (m.slabclass id).bitmap evictBatchSize = none := by
      rw [bitmapEvictBatch, if_neg]
      intro both
      exact both.1 empty
    have result : evictItems id attempts m bufs = .error .assertion := by
      simp only [evictItems, fails]
    rw [result]
    apply EvictionEnds.fails
    intro steady
    exact Nat.ne_of_gt steady.some empty
  · have some := Nat.pos_of_ne_zero empty
    have walker := (sound.reached id).valid.walker_lt some
    obtain ⟨words, _, here⟩ := stops evictBatchSize walker
    have batch := bitmapEvictBatch_eq (sound.reached id).valid some (by decide) here
    have visited := here.visited_iff walker
    have start : Sofar (m.slabclass id) id m.heap (m.slabclass id).bitmap (m.inUse id) attempts (counts bufs) 0
        { heap := m.heap, itList := none, evictCnt := 0, bufs := bufs } [] :=
      ⟨Evicted.start _ _ _ _, fun q member => absurd member List.not_mem_nil,
        fun _ u below => absurd below (Nat.not_lt_zero u), fun _ => rfl, fun b member => absurd member List.not_mem_nil⟩
    have derails_iff := @derails_iff_unsteady attempts (m.slabclass id) _ (m.inUse id) (counts bufs) _ some visited
    rw [remaining_offsets walker] at batch
    rcases evictLoop_moves valid (sound.ground valid some here) (64 * words) 0 _ _ (Nat.zero_add _) start with
      ⟨derails, loop⟩ | ⟨straight, after, later, loop, evicted, none_iff⟩
    · have result : evictItems id attempts m bufs = .error .assertion := by
        simp only [evictItems, batch]
        rw [show dueBefore (m.slabclass id).bitmap 0 = 0 from rfl] at loop
        rw [loop]
      rw [result]
      exact .fails (derails_iff.mp derails)
    · have steady := not_not.mp (fun unsteady => straight (derails_iff.mpr unsteady))
      have zero : dueBefore (m.slabclass id).bitmap 0 = 0 := rfl
      rw [zero] at loop
      by_cases none : ∀ t < 64 * words, takes (m.slabclass id).bitmap (m.inUse id) t = false
      · have count : after.evictCnt = 0 := by
          rw [evicted.count, none_iff.mpr none]
          rfl
        have result : evictItems id attempts m bufs = .error .exit := by
          simp only [evictItems, batch, loop, if_pos count]
        rw [result]
        apply EvictionEnds.exits steady
        intro t visit
        obtain ⟨bound, dueHere⟩ := (visited t).mp visit
        have passes := none t bound
        rw [takes, dueHere, Bool.true_and] at passes
        exact passes
      · have nonempty : later ≠ [] := fun empty => none (none_iff.mp empty)
        have count : after.evictCnt ≠ 0 := by
          rw [evicted.count]
          exact fun zero => nonempty (List.length_eq_zero_iff.mp zero)
        simp only [not_forall, Bool.not_eq_false] at none
        obtain ⟨t, bound, taken⟩ := none
        rw [takes, Bool.and_eq_true] at taken
        obtain ⟨m', result, _⟩ := evictItems_of batch loop count
        rw [result]
        cases head : after.itList with
        | none =>
          have chain := evicted.chain
          rw [head] at chain
          exact absurd chain.nil_of_none nonempty
        | some it => exact .returns steady t ((visited t).mpr ⟨bound, taken.1⟩) taken.2 it m' after.bufs

end Items

section Rounds

variable {m : Memory} {id : Nat} {supply : Supply} {attempts : Nat → Attempts} {bufs : DeleteBufs}

/-- The call evicts, from this bitmap; a failed `malloc` or `realloc` leaves it ahead of the slabs. -/
inductive EvictsFrom (supply : Supply) (id : Nat) (m : Memory) : Bitmap → Prop
  | kept (stops : m.memoryFull = true ∨ m.LimitReached id ∨ (m.slabclass id).Capped) :
      EvictsFrom supply id m (m.slabclass id).bitmap
  | ahead (passes : ¬(m.memoryFull = true ∨ m.LimitReached id ∨ (m.slabclass id).Capped))
      (missing : ¬supply.Covers (m.slabclass id)) :
      EvictsFrom supply id m
        { (m.slabclass id).bitmap with currentSize := (m.slabclass id).bitmap.currentSize + perslab / bitsPerWord }

theorem EvictsFrom.unique {bitmap other : Bitmap} (here : EvictsFrom supply id m bitmap)
    (there : EvictsFrom supply id m other) : bitmap = other := by
  cases here with
  | kept stops =>
    cases there with
    | kept _ => rfl
    | ahead passes _ => exact absurd stops passes
  | ahead passes _ =>
    cases there with
    | kept stops => exact absurd stops passes
    | ahead _ _ => rfl

theorem slabsAllocBatch_failed (free : m.memoryFull = false) {m' : Memory}
    (result : doSlabsAllocBatch supply id m = .ok (none, m')) : slabsAllocBatch supply id m = .ok (none, m') := by
  simp only [slabsAllocBatch, free, result]
  rfl

theorem slabsAllocBatch_grown (sound : m.Sound) (valid : id ≤ powerLargest) (free : m.memoryFull = false) {head : Ptr}
    {p : Slabclass} (result : doSlabsAllocBatch supply id m = .ok (some head, m.newSlab id p))
    (slabs : p.slabs = (m.slabclass id).slabs) : ∃ it m', slabsAllocBatch supply id m = .ok (some it, m') := by
  have outcome : ∃ first, slabsAllocBatch supply id m = .ok (first, m.newSlab id p) := by
    simp only [slabsAllocBatch, free, result]
    split
    · contradiction
    · split
      · exact ⟨_, rfl⟩
      · exact ⟨_, rfl⟩
  obtain ⟨first, taken⟩ := outcome
  cases first with
  | some it => exact ⟨it, _, taken⟩
  | none =>
    have same := (slabsAllocBatch_none sound valid taken).2.1.slabs id
    simp only [Memory.newSlab, m.setClass_class, slabs] at same
    omega

/-- Either the call gets a new slab, or it sets `memory_full` and evicts. -/
theorem slabsAllocBatch_ends (sound : m.Sound) (valid : id ≤ powerLargest) (free : m.memoryFull = false)
    (supply : Supply) :
    ((∀ bitmap, ¬EvictsFrom supply id m bitmap) ∧ ∃ it m', slabsAllocBatch supply id m = .ok (some it, m')) ∨
      ∃ bitmap filled, EvictsFrom supply id m bitmap ∧ slabsAllocBatch supply id m = .ok (none, filled) ∧
        (filled.slabclass id).bitmap = bitmap := by
  have open' : ¬m.memoryFull = true := by simp [free]
  obtain ⟨head, m', result⟩ := doSlabsAllocBatch_ok supply id m
  cases doSlabsAllocBatch_exit result with
  | refused stops => exact .inr ⟨_, _, .kept (.inr stops), slabsAllocBatch_failed free result, rfl⟩
  | failed p passes missing longer =>
    have whole : ¬(m.memoryFull = true ∨ m.LimitReached id ∨ (m.slabclass id).Capped) :=
      fun either => either.elim open' passes
    refine .inr ⟨_, _, .ahead whole missing, slabsAllocBatch_failed free result, ?_⟩
    simp only [m.setClass_class, longer.bitmap]
  | grown p passes covers longer =>
    refine .inl ⟨?_, slabsAllocBatch_grown sound valid free result longer.slabs⟩
    intro bitmap evicts
    cases evicts with
    | kept stops => exact stops.elim open' passes
    | ahead _ missing => exact missing covers

theorem Memory.SameItems.inUse {m' : Memory} (same : m.SameItems m') (id : Nat) : m'.inUse id = m.inUse id := by
  funext o
  simp only [Memory.inUse, same.slabs, same.item, same.heap]

theorem EvictionEnds.round {bitmap : Bitmap} {used : Nat → Bool} {limit : Nat} {counted : Nat → Nat} {rounds : Nat}
    (full : m.memoryFull = true)
    (ends : EvictionEnds bitmap used attempts limit counted (evictItems id attempts m bufs)) :
    EvictionEnds bitmap used attempts limit counted (itemAllocRounds supply attempts id (rounds + 1) m bufs) := by
  have same : itemAllocRounds supply attempts id (rounds + 1) m bufs = evictItems id attempts m bufs := by
    rw [itemAllocRounds, if_pos full]
    cases result : evictItems id attempts m bufs with
    | error halt => rfl
    | ok triple =>
      rw [result] at ends
      cases ends
      rfl
  rw [same]
  exact ends

theorem itemAllocRounds_ends (sound : m.Sound) (valid : id ≤ powerLargest) (supply : Supply)
    (attempts : Nat → Attempts) (bufs : DeleteBufs) :
    ((∀ bitmap, ¬EvictsFrom supply id m bitmap) ∧
        ∃ it m' bufs', itemAllocRounds supply attempts id 2 m bufs = .ok (some it, m', bufs')) ∨
      ∃ bitmap, EvictsFrom supply id m bitmap ∧
        EvictionEnds bitmap (m.inUse id) attempts (perslab * (m.slabclass id).slabs) (counts bufs)
          (itemAllocRounds supply attempts id 2 m bufs) := by
  cases full : m.memoryFull with
  | true => exact .inr ⟨_, .kept (.inl full), (evictItems_ends sound valid attempts bufs).round full⟩
  | false =>
    have open' : ¬m.memoryFull = true := by simp [full]
    rcases slabsAllocBatch_ends sound valid full supply with
      ⟨none, it, m', taken⟩ | ⟨bitmap, filled, evicts, refused, words⟩
    · refine .inl ⟨none, it, m', bufs, ?_⟩
      rw [itemAllocRounds, if_neg open', taken]
    · obtain ⟨filledFull, same, next⟩ := slabsAllocBatch_none sound valid refused
      have again : itemAllocRounds supply attempts id 2 m bufs = itemAllocRounds supply attempts id 1 filled bufs := by
        rw [itemAllocRounds, if_neg open', refused]
      refine .inr ⟨bitmap, evicts, ?_⟩
      rw [again, ← words, ← same.inUse, ← same.slabs]
      exact (evictItems_ends next valid attempts bufs).round filledFull

end Rounds

section Runs

variable (Worker : Type) [DecidableEq Worker]

/-- A call of `item_alloc_batch`, in the state in which it is made. -/
structure BatchCall where
  state : State Worker
  worker : Worker
  supply : Supply
  attempts : Nat → Attempts
  kvsize : Nat

variable {Worker}

def BatchCall.bufs (call : BatchCall Worker) : DeleteBufs := (call.state.batchSet call.worker).buf

def BatchCall.clsid (call : BatchCall Worker) : Except Halt (Option Nat) :=
  slabsClsid ((sizeofItem + call.kvsize) % 2 ^ 32)

def BatchCall.result (call : BatchCall Worker) : Except Halt (Option Ptr × Memory × DeleteBufs) :=
  itemAllocBatch call.supply call.attempts call.kvsize call.state.memory call.bufs

def BatchCall.after (call : BatchCall Worker) : Option (State Worker) :=
  match call.result with
  | .error _ => none
  | .ok (itList, m, bufs) =>
    some ({ call.state with memory := m }.setBatch call.worker
      { localSlab := Function.update (call.state.batchSet call.worker).localSlab (pickList call.kvsize) itList
        buf := bufs })

/-- No assertion fails, and items are returned as long as one of the class is in use. -/
def BatchCall.Safe (call : BatchCall Worker) : Prop :=
  call.result ≠ .error .assertion ∧
    ∀ id, call.clsid = .ok (some id) → (∃ o, call.state.memory.inUse id o = true) →
      ∃ it m bufs, call.result = .ok (some it, m, bufs)

def BatchCall.Returns (call : BatchCall Worker) : Prop := ∃ it m bufs, call.result = .ok (some it, m, bufs)

def BatchCall.Populated (call : BatchCall Worker) : Prop :=
  ∀ id bitmap, call.clsid = .ok (some id) → EvictsFrom call.supply id call.state.memory bitmap →
    ∃ o, call.state.memory.inUse id o = true

/-- If the call evicts, it finds a class from which items can be evicted. -/
def BatchCall.Meets (call : BatchCall Worker) : Prop :=
  ∀ id bitmap, call.clsid = .ok (some id) → EvictsFrom call.supply id call.state.memory bitmap →
    Evictable bitmap (call.state.memory.inUse id) call.attempts (perslab * (call.state.memory.slabclass id).slabs)
      (counts call.bufs)

/-- The allocations of a run, and the state they lead to; without a state the process has ended. -/
inductive BatchRun (Worker : Type) [DecidableEq Worker] : List (BatchCall Worker) → Option (State Worker) → Prop
  | init {s : State Worker} (initial : Initial s) : BatchRun Worker [] (some s)
  | call {calls : List (BatchCall Worker)} {s : State Worker} (run : BatchRun Worker calls (some s)) (worker : Worker)
      (supply : Supply) (attempts : Nat → Attempts) (kvsize id : Nat)
      (fits : slabsClsid ((sizeofItem + kvsize) % 2 ^ 32) = .ok (some id))
      (empty : (s.batchSet worker).localSlab (pickList kvsize) = none) :
      BatchRun Worker (calls ++ [⟨s, worker, supply, attempts, kvsize⟩])
        (BatchCall.mk s worker supply attempts kvsize).after
  | take {calls : List (BatchCall Worker)} {s : State Worker} (run : BatchRun Worker calls (some s)) (worker : Worker)
      (i : Nat) (it : Ptr) (m : Memory) (batch : Batch)
      (result : takeItem i s.memory (s.batchSet worker) = .ok (it, m, batch)) :
      BatchRun Worker calls (some ({ s with memory := m }.setBatch worker batch))
  | store {calls : List (BatchCall Worker)} {s : State Worker} (run : BatchRun Worker calls (some s)) (it : Ptr)
      (nkey nbytes : Nat) (data : Nat → Byte) : BatchRun Worker calls (some (s.store it nkey nbytes data))
  | touch {calls : List (BatchCall Worker)} {s : State Worker} (run : BatchRun Worker calls (some s)) (id pos : Nat)
      (bound : pos < 2 ^ 32) : BatchRun Worker calls (some (s.touch id pos))
  | schedule {calls : List (BatchCall Worker)} {s : State Worker} (run : BatchRun Worker calls (some s))
      (worker : Worker) (buf : DeleteBufs) :
      BatchRun Worker calls (some (s.setBatch worker { s.batchSet worker with buf := buf }))

theorem BatchCall.after_ok {call : BatchCall Worker} {itList : Option Ptr} {m : Memory} {bufs : DeleteBufs}
    (result : call.result = .ok (itList, m, bufs)) :
    call.after = some ({ call.state with memory := m }.setBatch call.worker
      { localSlab := Function.update (call.state.batchSet call.worker).localSlab (pickList call.kvsize) itList
        buf := bufs }) := by
  rw [BatchCall.after, result]

theorem BatchCall.after_held {call : BatchCall Worker} {lists : Worker × Nat → List Ptr} {classes : Worker × Nat → Nat}
    (held : Held call.state lists classes)
    (empty : (call.state.batchSet call.worker).localSlab (pickList call.kvsize) = none) {next : State Worker}
    (outcome : call.after = some next) : ∃ lists classes, Held next lists classes := by
  cases result : call.result with
  | error halt =>
    rw [BatchCall.after, result] at outcome
    contradiction
  | ok triple =>
    obtain ⟨itList, m, bufs⟩ := triple
    rw [BatchCall.after_ok result] at outcome
    cases outcome
    rcases refill_held held (refill_none empty result) with ⟨after, _⟩ | ⟨id, nodes, _, _, after⟩
    · exact ⟨_, _, after⟩
    · exact ⟨_, _, after⟩

theorem BatchRun.held {calls : List (BatchCall Worker)} {outcome : Option (State Worker)}
    (run : BatchRun Worker calls outcome) : ∀ s, outcome = some s → ∃ lists classes, Held s lists classes := by
  induction run with
  | init initial =>
    intro s same
    cases same
    exact ⟨_, _, held_initial initial⟩
  | call run worker supply attempts kvsize id fits empty ih =>
    intro s same
    obtain ⟨lists, classes, held⟩ := ih _ rfl
    have refilled := @BatchCall.after_held _ _ ⟨_, worker, supply, attempts, kvsize⟩ lists classes held empty
    exact refilled same
  | take run worker i it m batch result ih =>
    intro s same
    cases same
    obtain ⟨lists, classes, held⟩ := ih _ rfl
    obtain ⟨rest, _, _, _, _, _, after⟩ := takeItem_held held result
    exact ⟨_, _, after⟩
  | store run it nkey nbytes data ih =>
    intro s same
    cases same
    obtain ⟨lists, classes, held⟩ := ih _ rfl
    exact ⟨_, _, held.store it nkey nbytes data⟩
  | touch run id pos bound ih =>
    intro s same
    cases same
    obtain ⟨lists, classes, held⟩ := ih _ rfl
    exact ⟨_, _, held.touch id bound⟩
  | schedule run worker buf ih =>
    intro s same
    cases same
    obtain ⟨lists, classes, held⟩ := ih _ rfl
    exact ⟨_, _, held.schedule worker buf⟩

theorem BatchRun.calls_sound {calls : List (BatchCall Worker)} {outcome : Option (State Worker)}
    (run : BatchRun Worker calls outcome) :
    ∀ call ∈ calls, call.state.memory.Sound ∧ ∃ id, call.clsid = .ok (some id) := by
  induction run with
  | init _ =>
    intro call member
    contradiction
  | call run worker supply attempts kvsize id fits empty ih =>
    intro call member
    rcases List.mem_append.mp member with earlier | last
    · exact ih call earlier
    · obtain ⟨lists, classes, held⟩ := run.held _ rfl
      rw [List.mem_singleton.mp last]
      exact ⟨held.sound, id, fits⟩
  | take _ _ _ _ _ _ _ ih => exact ih
  | store _ _ _ _ _ ih => exact ih
  | touch _ _ _ _ ih => exact ih
  | schedule _ _ _ ih => exact ih

omit [DecidableEq Worker] in
theorem BatchCall.result_eq {call : BatchCall Worker} {id : Nat} (fits : call.clsid = .ok (some id)) :
    call.result = itemAllocRounds call.supply call.attempts id 2 call.state.memory call.bufs := by
  unfold BatchCall.result itemAllocBatch
  rw [show slabsClsid ((sizeofItem + call.kvsize) % 2 ^ 32) = .ok (some id) from fits]

theorem EvictionEnds.safe_iff {bitmap : Bitmap} {used : Nat → Bool} {attempts : Nat → Attempts} {limit : Nat}
    {counted : Nat → Nat} {result : Except Halt (Option Ptr × Memory × DeleteBufs)}
    (ends : EvictionEnds bitmap used attempts limit counted result) :
    (result ≠ .error .assertion ∧ ((∃ o, used o = true) → ∃ it m bufs, result = .ok (some it, m, bufs))) ↔
      Evictable bitmap used attempts limit counted := by
  cases ends with
  | fails unsteady =>
    constructor
    · intro safe
      exact absurd rfl safe.1
    · intro evictable
      exact absurd evictable.toSteady unsteady
  | exits steady missed =>
    constructor
    · intro safe
      refine ⟨steady, ?_⟩
      intro busy
      obtain ⟨it, m, bufs, impossible⟩ := safe.2 busy
      contradiction
    · intro evictable
      refine ⟨fun same => by simp at same, ?_⟩
      intro busy
      obtain ⟨t, visited, taken⟩ := evictable.reaches busy
      rw [missed t visited] at taken
      contradiction
  | returns steady t visited taken it m bufs =>
    constructor
    · intro _
      exact ⟨steady, fun _ => ⟨t, visited, taken⟩⟩
    · intro _
      refine ⟨?_, fun _ => ⟨it, m, bufs, rfl⟩⟩
      intro impossible
      contradiction

theorem EvictionEnds.busy {bitmap : Bitmap} {used : Nat → Bool} {attempts : Nat → Attempts} {limit : Nat}
    {counted : Nat → Nat} {it : Ptr} {m : Memory} {bufs : DeleteBufs}
    (ends : EvictionEnds bitmap used attempts limit counted (.ok (some it, m, bufs))) : ∃ o, used o = true := by
  cases ends with
  | returns _ t _ taken => exact ⟨_, taken⟩

omit [DecidableEq Worker] in
theorem BatchCall.safe_iff {call : BatchCall Worker} (sound : call.state.memory.Sound) {id : Nat}
    (fits : call.clsid = .ok (some id)) : call.Safe ↔ call.Meets := by
  have same : ∀ other, call.clsid = .ok (some other) → other = id := by
    intro other found
    rw [fits] at found
    cases found
    rfl
  rcases itemAllocRounds_ends sound (slabsClsid_le fits) call.supply call.attempts call.bufs with
    ⟨missed, it, m, bufs, result⟩ | ⟨bitmap, evicts, ends⟩
  · rw [← BatchCall.result_eq fits] at result
    constructor
    · intro _ other bitmap found evicts
      rw [same other found] at evicts
      exact absurd evicts (missed bitmap)
    · intro _
      refine ⟨?_, fun _ _ _ => ⟨it, m, bufs, result⟩⟩
      rw [result]
      exact fun impossible => nomatch impossible
  · rw [← BatchCall.result_eq fits] at ends
    have safe := ends.safe_iff
    constructor
    · intro held other bitmap' found evicts'
      rw [same other found] at evicts' ⊢
      rw [evicts'.unique evicts]
      exact safe.mp ⟨held.1, held.2 id fits⟩
    · intro meets
      obtain ⟨unfailed, returns⟩ := safe.mpr (meets id bitmap fits evicts)
      refine ⟨unfailed, ?_⟩
      intro other found
      rw [same other found]
      exact returns

omit [DecidableEq Worker] in
theorem BatchCall.returns_iff {call : BatchCall Worker} (sound : call.state.memory.Sound) {id : Nat}
    (fits : call.clsid = .ok (some id)) : call.Returns ↔ call.Safe ∧ call.Populated := by
  have same : ∀ other, call.clsid = .ok (some other) → other = id := by
    intro other found
    rw [fits] at found
    cases found
    rfl
  constructor
  · intro returns
    refine ⟨⟨?_, fun _ _ _ => returns⟩, ?_⟩
    · obtain ⟨it, m, bufs, result⟩ := returns
      rw [result]
      exact fun impossible => nomatch impossible
    · intro other bitmap' found evicts'
      rw [same other found] at evicts' ⊢
      rcases itemAllocRounds_ends sound (slabsClsid_le fits) call.supply call.attempts call.bufs with
        ⟨missed, _⟩ | ⟨bitmap, evicts, ends⟩
      · exact absurd evicts' (missed bitmap')
      · obtain ⟨it, m, bufs, result⟩ := returns
        rw [← BatchCall.result_eq fits, result] at ends
        exact ends.busy
  · intro both
    rcases itemAllocRounds_ends sound (slabsClsid_le fits) call.supply call.attempts call.bufs with
      ⟨_, it, m, bufs, result⟩ | ⟨bitmap, evicts, _⟩
    · exact ⟨it, m, bufs, (BatchCall.result_eq fits).trans result⟩
    · exact both.1.2 id fits (both.2 id bitmap fits evicts)

theorem allocations_safe_iff {calls : List (BatchCall Worker)} {outcome : Option (State Worker)}
    (run : BatchRun Worker calls outcome) :
    ((∀ call ∈ calls, call.Safe) ↔ ∀ call ∈ calls, call.Meets) ∧
      ((∀ call ∈ calls, call.Returns) ↔ ∀ call ∈ calls, call.Meets ∧ call.Populated) := by
  constructor
  · apply forall₂_congr
    intro call member
    obtain ⟨sound, id, fits⟩ := run.calls_sound call member
    exact call.safe_iff sound fits
  · apply forall₂_congr
    intro call member
    obtain ⟨sound, id, fits⟩ := run.calls_sound call member
    rw [call.returns_iff sound fits, call.safe_iff sound fits]

theorem evictItems_frame {m m' : Memory} {id : Nat} {attempts : Nat → Attempts} {bufs bufs' : DeleteBufs}
    {itList : Option Ptr} (result : evictItems id attempts m bufs = .ok (itList, m', bufs')) :
    m'.memoryFull = m.memoryFull ∧ ∀ other ≠ id, m'.slabclass other = m.slabclass other := by
  simp only [evictItems] at result
  split at result
  · contradiction
  · split at result
    · contradiction
    · split at result
      · contradiction
      · cases result
        exact ⟨rfl, fun other differs => m.setClass_other _ differs⟩

omit [DecidableEq Worker] in
theorem BatchCall.Safe.nonempty {call : BatchCall Worker} (safe : call.Safe) {id : Nat}
    (fits : call.clsid = .ok (some id)) (full : call.state.memory.memoryFull = true) :
    (call.state.memory.slabclass id).bitmap.currentSize ≠ 0 := by
  intro empty
  have fails : bitmapEvictBatch (call.state.memory.slabclass id).bitmap evictBatchSize = none := by
    rw [bitmapEvictBatch, if_neg]
    intro both
    exact both.1 empty
  apply safe.1
  rw [BatchCall.result_eq fits, itemAllocRounds, if_pos full]
  simp only [evictItems, fails]

/-- A call that fills the memory and evicts leaves a class without a slab to fail. -/
theorem BatchRun.unused_class {calls : List (BatchCall Worker)} {s : State Worker}
    (run : BatchRun Worker calls (some s)) (worker : Worker) {supply : Supply} {id kvsize : Nat} {filled : Memory}
    (free : s.memory.memoryFull = false) (fits : slabsClsid ((sizeofItem + kvsize) % 2 ^ 32) = .ok (some id))
    (refused : slabsAllocBatch supply id s.memory = .ok (none, filled)) (full : filled.memoryFull = true)
    (busy : ∃ o, s.memory.inUse id o = true) (attempts : Nat → Attempts)
    (empty : (s.batchSet worker).localSlab (pickList kvsize) = none) {other otherId : Nat}
    (otherFits : slabsClsid ((sizeofItem + other) % 2 ^ 32) = .ok (some otherId)) (differs : otherId ≠ id)
    (unused : (filled.slabclass otherId).bitmap.currentSize = 0) (lists : pickList other ≠ pickList kvsize)
    (vacant : (s.batchSet worker).localSlab (pickList other) = none) :
    ¬∀ calls (outcome : Option (State Worker)), BatchRun Worker calls outcome → ∀ call ∈ calls, call.Safe := by
  intro safe
  have evicting := run.call worker supply attempts kvsize id fits empty
  have made := List.mem_append_right calls
    (List.mem_singleton.mpr (rfl : BatchCall.mk s worker supply attempts kvsize = _))
  obtain ⟨it, m, bufs, result⟩ := (safe _ _ evicting _ made).2 id fits busy
  have sound := (evicting.calls_sound _ made).1
  have after : BatchCall.after ⟨s, worker, supply, attempts, kvsize⟩ = some ({ s with memory := m }.setBatch worker
      { localSlab := Function.update (s.batchSet worker).localSlab (pickList kvsize) (some it), buf := bufs }) :=
    BatchCall.after_ok result
  rw [after] at evicting
  have still : (({ s with memory := m }.setBatch worker
      { localSlab := Function.update (s.batchSet worker).localSlab (pickList kvsize) (some it),
        buf := bufs }).batchSet worker).localSlab (pickList other) = none := by
    rw [setBatch_batch]
    exact (Function.update_of_ne lists _ _).trans vacant
  have last := evicting.call worker supply attempts other otherId otherFits still
  have failing := safe _ _ last _ (List.mem_append_right _ (List.mem_singleton.mpr rfl))
  rw [@BatchCall.result_eq _ ⟨s, worker, supply, attempts, kvsize⟩ id fits] at result
  obtain ⟨_, evicted⟩ := Evicts.evicted sound (slabsClsid_le fits) (.fills free refused) result
  obtain ⟨stillFull, others⟩ := evictItems_frame evicted
  have empty' := (congrArg (fun p => p.bitmap.currentSize) (others otherId differs)).trans unused
  exact failing.nonempty otherFits (stillFull.trans full) empty'

end Runs

section OneWorkerFull

attribute [local instance] twoWorkers in
def grantedCall : BatchCall (Fin 2) := ⟨startState, 0, ampleSupply, calm, 16⟩

theorem firstFits : slabsClsid ((sizeofItem + 16) % 2 ^ 32) = .ok (some 0) := slabsClsid_first (by decide) (by decide)

theorem grantedCall_run : BatchRun (Fin 2) [grantedCall] grantedCall.after :=
  .call (.init ⟨⟨emptyBitmap, fun _ => emptyItem, rfl, rfl⟩, fun _ _ => rfl⟩) 0 ampleSupply calm 16 0 firstFits rfl

theorem grantedCall_after : grantedCall.after = some ({ startState with memory := firstMemory }.setBatch 0 firstBatch) := by
  have picked : pickList 16 = 0 := pickList_first (by decide)
  have result : grantedCall.result = .ok (some ⟨0, 40⟩, firstMemory, startBatch.buf) := startMemory_itemAlloc _
  rw [BatchCall.after_ok result]
  change some ({ startState with memory := firstMemory }.setBatch 0
    { localSlab := Function.update startBatch.localSlab (pickList 16) (some ⟨0, 40⟩), buf := startBatch.buf }) = _
  rw [picked]
  rfl

theorem smallState_run : BatchRun (Fin 2) [grantedCall] (some smallState) := by
  have run := grantedCall_run
  rw [grantedCall_after] at run
  have batch : ({ startState with memory := firstMemory }.setBatch 0 firstBatch).batchSet 0 = firstBatch :=
    setBatch_batch _ 0 _
  have taken := run.take 0 0 ⟨0, 40⟩ _ _ (takeItem_head _ (congrArg (fun b => b.localSlab 0) batch))
  rw [batch] at taken
  have same : ({ ({ startState with memory := firstMemory }.setBatch 0 firstBatch) with
      memory := (handOut 0 ⟨0, 40⟩ firstMemory firstBatch).1 }).setBatch 0 (handOut 0 ⟨0, 40⟩ firstMemory firstBatch).2 =
      smallState := by
    unfold smallState State.setBatch
    rw [Function.update_idem]
  rw [← same]
  exact taken

theorem smallMemory_item : smallState.memory.inUse 0 1 = true := by
  have item : smallState.memory.item 0 1 = ⟨0, 40⟩ := by rfl
  have memory : smallState.memory = (handOut 0 ⟨0, 40⟩ firstMemory firstBatch).1 := rfl
  have free : (smallState.memory.heap (smallState.memory.item 0 1)).flags = 0 := by
    rw [item, memory]
    simp only [handOut, Function.update_self]
  have inside : 1 < perslab * (smallState.memory.slabclass 0).slabs := by decide
  exact decide_eq_true ⟨inside, free⟩

/-- The class has a slab, but no memory for a second. -/
theorem smallMemory_fails : ∃ filled, slabsAllocBatch failingSupply 0 smallState.memory = .ok (none, filled) ∧
    filled.memoryFull = true ∧ (filled.slabclass 1).bitmap.currentSize = 0 := by
  obtain ⟨head, m', result⟩ := doSlabsAllocBatch_ok failingSupply 0 smallState.memory
  have exit := doSlabsAllocBatch_exit result
  cases exit with
  | refused _ => exact ⟨_, slabsAllocBatch_failed rfl result, rfl, rfl⟩
  | failed p _ _ _ => exact ⟨_, slabsAllocBatch_failed rfl result, rfl, rfl⟩
  | grown p _ covers _ => exact absurd covers.2 (by decide)

theorem secondFits : slabsClsid ((sizeofItem + 48) % 2 ^ 32) = .ok (some 1) := by
  decide

theorem pickList_second : pickList 48 = 1 := by
  decide

theorem smallState_vacant (i : Nat) : (smallState.batchSet 1).localSlab i = none := rfl

/-- The other worker has filled the memory, and the second class has no slab yet. -/
theorem unused_class_fails : ¬∀ calls (outcome : Option (State (Fin 2))), BatchRun (Fin 2) calls outcome →
    ∀ call ∈ calls, call.Safe := by
  obtain ⟨filled, refused, full, unused⟩ := smallMemory_fails
  have lists : pickList 48 ≠ pickList 16 := by
    rw [pickList_second, pickList_first (by decide)]
    decide
  have free : smallState.memory.memoryFull = false := rfl
  exact smallState_run.unused_class 1 free firstFits refused full ⟨1, smallMemory_item⟩ calm (smallState_vacant _)
    secondFits (by decide) unused lists (smallState_vacant _)

/-- Without memory for a second slab the one item in use is evicted. -/
theorem second_evicted {m : Memory} (sound : m.Sound) (slabclass : m.slabclass = firstMemory.slabclass)
    (free : m.memoryFull = false) (memMalloced : m.memMalloced = firstMemory.memMalloced)
    (second : SecondUsed (m.slabclass 0) m.heap) {bufs : DeleteBufs} (room : counts bufs 0 + 1 < batchMaxDeleteJob) :
    ∃ m', itemAllocBatch failingSupply calm 16 m bufs = .ok (some ⟨0, 40⟩, m',
        Function.update bufs 0 ((bufs 0).write (deleteJob (m.heap ⟨0, 40⟩))).count) ∧
      (m'.heap ⟨0, 40⟩).loc = 1 := by
  have valid : 0 ≤ powerLargest := Nat.zero_le _
  have evicts : EvictsFrom failingSupply 0 m { (m.slabclass 0).bitmap with
      currentSize := (m.slabclass 0).bitmap.currentSize + perslab / bitsPerWord } := by
    apply EvictsFrom.ahead
    · rintro (full | limit | capped)
      · rw [free] at full
        cases full
      · rw [Memory.LimitReached, memMalloced] at limit
        exact absurd limit.1 (by decide)
      · rw [Slabclass.Capped, slabclass] at capped
        exact absurd capped (by decide)
    · exact fun covers => absurd covers.2 (by decide)
  rcases slabsAllocBatch_ends sound valid free failingSupply with ⟨none, _⟩ | ⟨bitmap, filled, found, refused, words⟩
  · exact absurd evicts (none _)
  · have bitmap_eq := words.trans (found.unique evicts)
    rw [slabclass] at bitmap_eq
    obtain ⟨full, same, next⟩ := slabsAllocBatch_none sound valid refused
    obtain ⟨rest, after, batch, others⟩ := fresh_evict (next.reached 0).valid (by rw [bitmap_eq]; exact fun _ => rfl)
      (by rw [bitmap_eq]; rfl) (by rw [span, bitmap_eq]; decide)
    have still : SecondUsed (filled.slabclass 0) filled.heap :=
      second.kept (same.slabs 0) (same.slabList 0) (fun q => by rw [same.heap]) (fun q => by rw [same.heap])
    obtain ⟨m', evicted, loc⟩ := still.evicts batch others room
    refine ⟨m', ?_, loc⟩
    rw [itemAllocBatch, firstFits]
    simp only [itemAllocRounds, free, refused, full, evicted, same.heap, Bool.false_eq_true, if_true, if_false]

attribute [local instance] twoWorkers in
/-- The other worker gets no second slab. -/
def evictingCall : BatchCall (Fin 2) := ⟨smallState, 1, failingSupply, calm, 16⟩

theorem evictingCall_result : ∃ m bufs, evictingCall.result = .ok (some ⟨0, 40⟩, m, bufs) := by
  have run := smallState_run.call 1 failingSupply calm 16 0 firstFits (smallState_vacant _)
  have sound : smallState.memory.Sound :=
    (run.calls_sound evictingCall (List.mem_append_right _ (List.mem_singleton.mpr rfl))).1
  have room : counts evictingCall.bufs 0 + 1 < batchMaxDeleteJob := by decide
  obtain ⟨m, result, _⟩ := second_evicted sound rfl rfl rfl fullMemory_second room
  exact ⟨m, _, result⟩

/-- The second call evicts the item in use. -/
theorem allocations_safe_iff_evicted : ∃ s m bufs, smallState.memory.inUse 0 1 = true ∧
    evictingCall.result = .ok (some (smallState.memory.item 0 1), m, bufs) ∧
    BatchRun (Fin 2) [grantedCall, evictingCall] (some s) ∧
    ∀ call ∈ [grantedCall, evictingCall], call.Meets ∧ call.Populated := by
  obtain ⟨m, bufs, result⟩ := evictingCall_result
  have run := smallState_run.call 1 failingSupply calm 16 0 firstFits (smallState_vacant _)
  rw [show BatchCall.mk smallState 1 failingSupply calm 16 = evictingCall from rfl, BatchCall.after_ok result] at run
  have granted : grantedCall.Returns := ⟨_, _, _, startMemory_itemAlloc _⟩
  have returns : ∀ call ∈ [grantedCall, evictingCall], call.Returns := by
    intro call member
    rcases List.mem_pair.mp member with rfl | rfl
    · exact granted
    · exact ⟨_, _, _, result⟩
  exact ⟨_, m, bufs, smallMemory_item, result, run, (allocations_safe_iff run).2.mp returns⟩

end OneWorkerFull

end MegaKV.Slab
