import MegaKV.Sender.SameAnswers

namespace MegaKV.Sender

open Slab Library

section Evictions

/-- Calls of `bitmap_evict_batch` one after another, with all they return and the number of words they go through. -/
inductive Evictions : Bitmap → List Nat → Nat → Bitmap → Prop
  | none (bitmap : Bitmap) : Evictions bitmap [] 0 bitmap
  | call {bitmap next last : Bitmap} {offsetArray later : List Nat} {words more : Nat} (num : Nat) (positive : 1 ≤ num)
      (result : bitmapEvictBatch bitmap num = some (offsetArray, next)) (here : StopsAt bitmap num words)
      (rest : Evictions next later more last) : Evictions bitmap (offsetArray ++ later) (words + more) last

/-- The walker's next visit does not return the offset: no calls that visit each word once at most do. -/
def Spared (bitmap : Bitmap) (o : Nat) : Prop :=
  ∀ offsetArray words last, Evictions bitmap offsetArray words last → words ≤ bitmap.currentSize → o ∉ offsetArray

variable {bitmap last : Bitmap} {offsetArray : List Nat} {words o : Nat}

theorem Evictions.offsets (evictions : Evictions bitmap offsetArray words last) (valid : bitmap.Valid) :
    offsetArray = Clock.offsets (span bitmap) (64 * words) (clock bitmap) := by
  induction evictions with
  | none bitmap => rfl
  | @call bitmap next last offsetArray later words more num positive result here rest ih =>
    have nonempty : 0 < bitmap.currentSize := by
      by_contra empty
      rw [bitmapEvictBatch, if_neg (fun both => empty (Nat.pos_of_ne_zero both.1))] at result
      cases result
    rw [bitmapEvictBatch_eq valid nonempty positive here] at result
    cases result
    obtain ⟨nextValid, _, same, walked⟩ := leaveWords_walk words valid (valid.walker_lt nonempty)
    rw [ih nextValid, same, walked, Nat.mul_add, Clock.offsets_add]

theorem spared_of_clear (valid : bitmap.Valid) (clear : (clock bitmap).bits o = false) : Spared bitmap o := by
  intro offsetArray words last evictions once member
  rw [evictions.offsets valid] at member
  by_cases nonempty : 0 < bitmap.currentSize
  · rw [Clock.offsets_eq _ _ (hand_lt (valid.walker_lt nonempty))] at member
    obtain ⟨t, visited, here⟩ := List.mem_map.mp member
    obtain ⟨range, evicts⟩ := List.mem_filter.mp visited
    have bound := List.mem_range.mp range
    have early : t / span bitmap = 0 := by
      apply Nat.div_eq_of_lt
      unfold span
      omega
    rw [Clock.due, here, clear, early] at evicts
    cases evicts
  · rw [show words = 0 by omega] at member
    cases member

end Evictions

section Recorded

variable (keyMatch : Bool) (m : Memory) (buf : SearchBuf)

/-- The location at which the loop without prefetching finds the item. -/
def plainLoc (e : Nat × Nat) : Option Hash.Loc :=
  if Finds keyMatch m buf e (firstLoc buf e.1) then some (firstLoc buf e.1)
  else if Finds keyMatch m buf e (secondLoc buf e.1) then some (secondLoc buf e.1)
  else none

def recordLoc (record : Record) : Hash.Loc :=
  if firstLoc buf record.index ≠ 0 ∧ record.it = slabLocToPtr m (firstLoc buf record.index) then
    firstLoc buf record.index
  else secondLoc buf record.index

variable {keyMatch m buf} {e : Nat × Nat} {loc : Hash.Loc}

theorem plainAnswer_eq : plainAnswer keyMatch m buf e = (plainLoc keyMatch m buf e).map (itemFor m e) := by
  unfold plainAnswer plainLoc
  by_cases first : Finds keyMatch m buf e (firstLoc buf e.1)
  · rw [if_pos first, if_pos first]
    rfl
  · rw [if_neg first, if_neg first]
    by_cases second : Finds keyMatch m buf e (secondLoc buf e.1)
    · rw [if_pos second, if_pos second]
      rfl
    · rw [if_neg second, if_neg second]
      rfl

theorem plainLoc_cases (found : plainLoc keyMatch m buf e = some loc) :
    Finds keyMatch m buf e (firstLoc buf e.1) ∧ loc = firstLoc buf e.1 ∨
      ¬Finds keyMatch m buf e (firstLoc buf e.1) ∧ Finds keyMatch m buf e (secondLoc buf e.1) ∧ loc = secondLoc buf e.1 := by
  unfold plainLoc at found
  by_cases first : Finds keyMatch m buf e (firstLoc buf e.1)
  · rw [if_pos first] at found
    cases found
    exact .inl ⟨first, rfl⟩
  · rw [if_neg first] at found
    by_cases second : Finds keyMatch m buf e (secondLoc buf e.1)
    · rw [if_pos second] at found
      cases found
      exact .inr ⟨first, second, rfl⟩
    · rw [if_neg second] at found
      cases found

theorem plainLoc_tried (found : plainLoc keyMatch m buf e = some loc) : loc ∈ tries keyMatch m buf e := by
  rcases plainLoc_cases found with ⟨finds, rfl⟩ | ⟨differs, finds, rfl⟩
  · rw [tries_first finds, looked_some finds.1]
    exact List.mem_singleton_self _
  · rw [tries_both differs, looked_some finds.1]
    exact List.mem_append_right _ (List.mem_singleton_self _)

theorem recordLoc_plain (found : plainLoc keyMatch m buf e = some loc) :
    recordLoc m buf (recordOf keyMatch m (itemFor m e loc)) = loc := by
  rcases plainLoc_cases found with ⟨finds, rfl⟩ | ⟨differs, finds, rfl⟩
  · exact if_pos ⟨finds.1, rfl⟩
  · apply if_neg
    rintro ⟨first, same⟩
    -- two locations of one item pass or fail the comparison together
    have item : itemFor m e (secondLoc buf e.1) = itemFor m e (firstLoc buf e.1) := by
      change Gathered.mk (slabLocToPtr m (secondLoc buf e.1)) _ _ = _
      rw [show slabLocToPtr m (secondLoc buf e.1) = slabLocToPtr m (firstLoc buf e.1) from same]
      rfl
    have passes := finds.2
    rw [item] at passes
    exact differs ⟨first, passes⟩

theorem recordLoc_prefetch : recordLoc m buf (recordOf keyMatch m (gathered m buf e)) = foundLoc buf e.1 := by
  by_cases first : firstLoc buf e.1 = 0
  · have second : foundLoc buf e.1 = secondLoc buf e.1 := if_pos first
    rw [second]
    exact if_neg fun both => both.1 first
  · have same : foundLoc buf e.1 = firstLoc buf e.1 := if_neg first
    unfold recordLoc recordOf gathered
    rw [same]
    exact if_pos ⟨first, rfl⟩

end Recorded

section Protection

variable (build : Build) (m : Memory) (buf : SearchBuf) (hit miss totalBytes totalPackets : Nat)

/-- The items at the locations are safe from the next eviction, and no other bit has changed. -/
structure Protects (m m' : Memory) (locs : List Hash.Loc) : Prop where
  cleared : ∀ loc ∈ locs, bitOf m' (locBit loc) = false
  spared : ∀ loc ∈ locs, Reached (m'.slabclass (locClass loc)).bitmap →
    Spared (m'.slabclass (locClass loc)).bitmap (locOffset loc)
  others : ∀ b, b ∉ locs.map locBit → bitOf m' b = bitOf m b

def PrefetchProtects : Prop :=
  ∃ out flag, prefetchLoop build buf m hit miss totalBytes totalPackets = some (out, flag) ∧
    Protects m m (out.records.map (recordLoc m buf))

def PlainProtects : Prop :=
  ∀ packets, (plainBatch build m buf hit miss totalBytes totalPackets packets).ended (totalCnt build buf) →
    Protects m (sendPlain build m buf hit miss totalBytes totalPackets packets).m
      (((sendPlain build m buf hit miss totalBytes totalPackets packets).out.packets.flatMap Packet.records).map
        (recordLoc m buf))

/-- The bit of each item that the prefetching loop answers with is clear already. -/
def HitsClear : Prop :=
  ∀ e ∈ ownedIn build buf, foundLoc buf e.1 ≠ 0 → Matches build.keyMatch m buf (gathered m buf e) →
    bitOf m (locBit (foundLoc buf e.1)) = false

/-- The bits that the loop without prefetching finds set are bits of items it answers with, unless it never ends. -/
def TriesAnswered : Prop :=
  (∀ e ∈ ownedIn build buf, ∀ l ∈ tries build.keyMatch m buf e, FitsFrame build.keyMatch m l) →
    ∀ e ∈ ownedIn build buf, ∀ l ∈ tries build.keyMatch m buf e, bitOf m (locBit l) = true →
      ∃ other ∈ ownedIn build buf, ∃ loc, plainLoc build.keyMatch m buf other = some loc ∧ locBit loc = locBit l

variable {build m buf hit miss totalBytes totalPackets} {m' : Memory} {locs : List Hash.Loc} {records : List Record}
  {all : List (Nat × Nat)} {keyMatch : Bool}

theorem Protects.of_bits (cleared : ∀ loc ∈ locs, bitOf m' (locBit loc) = false)
    (others : ∀ b, b ∉ locs.map locBit → bitOf m' b = bitOf m b) : Protects m m' locs where
  cleared := cleared
  spared := fun loc member reached => spared_of_clear reached.valid (cleared loc member)
  others := others

theorem prefetch_protects_iff (entries : Entries build buf) :
    PrefetchProtects build m buf hit miss totalBytes totalPackets ↔ HitsClear build m buf := by
  obtain ⟨flag, written, _⟩ := @Entries.loop_run build buf m hit miss totalBytes totalPackets entries
  constructor
  · rintro ⟨out, _, result, protects⟩ e owned some passes
    rw [written] at result
    cases result
    apply protects.cleared
    rw [writtenOut_records, List.map_map]
    have listed : gathered m buf e ∈ ((hits buf (ownedIn build buf)).map (gathered m buf)).filter
        (fun g => Matches build.keyMatch m buf g) :=
      List.mem_filter.mpr ⟨List.mem_map_of_mem (List.mem_filter.mpr ⟨owned, decide_eq_true some⟩), decide_eq_true passes⟩
    rw [← @recordLoc_prefetch build.keyMatch m buf e]
    exact List.mem_map_of_mem (f := recordLoc m buf ∘ recordOf build.keyMatch m) listed
  · intro clear
    refine ⟨_, flag, written, .of_bits ?_ fun _ _ => rfl⟩
    intro loc member
    rw [writtenOut_records, List.map_map] at member
    obtain ⟨g, listed, rfl⟩ := List.mem_map.mp member
    obtain ⟨hit, passes⟩ := List.mem_filter.mp listed
    obtain ⟨e, found, rfl⟩ := List.mem_map.mp hit
    obtain ⟨owned, some⟩ := List.mem_filter.mp found
    rw [Function.comp_apply, recordLoc_prefetch]
    exact clear e owned (of_decide_eq_true some) (of_decide_eq_true passes)

theorem plainRecords_locs :
    ((all.filterMap (plainAnswer keyMatch m buf)).map (recordOf keyMatch m)).map (recordLoc m buf) =
      all.filterMap (plainLoc keyMatch m buf) := by
  induction all with
  | nil => rfl
  | cons e rest ih =>
    rw [List.filterMap_cons, List.filterMap_cons, plainAnswer_eq]
    cases found : plainLoc keyMatch m buf e with
    | none => exact ih
    | some loc =>
      change recordLoc m buf _ :: _ = _
      rw [ih, recordLoc_plain found]

/-- What the loop without prefetching leaves protects exactly if it looks at no other item with its bit set. -/
theorem Sofar.protects_iff (sofar : Sofar keyMatch m buf all all records m') :
    Protects m m' (records.map (recordLoc m buf)) ↔
      ∀ e ∈ all, ∀ l ∈ tries keyMatch m buf e, bitOf m (locBit l) = true →
        ∃ other ∈ all, ∃ loc, plainLoc keyMatch m buf other = some loc ∧ locBit loc = locBit l := by
  obtain ⟨list, touched, only, every⟩ := sofar.touched
  rw [sofar.records, plainRecords_locs]
  constructor
  · intro protects e member l tried set
    by_contra elsewhere
    have unlisted : locBit l ∉ (all.filterMap (plainLoc keyMatch m buf)).map locBit := by
      intro listed
      obtain ⟨loc, recorded, same⟩ := List.mem_map.mp listed
      obtain ⟨other, present, found⟩ := List.mem_filterMap.mp recorded
      exact elsewhere ⟨other, present, loc, found, same⟩
    have kept := protects.others _ unlisted
    rw [touched.bits, set, decide_eq_false (not_not.mpr (every e member _ (List.mem_map_of_mem tried)))] at kept
    cases kept
  · intro answered
    apply Protects.of_bits
    · intro loc recorded
      obtain ⟨other, present, found⟩ := List.mem_filterMap.mp recorded
      have listed := every other present _ (List.mem_map_of_mem (plainLoc_tried found))
      rw [touched.bits, decide_eq_false (not_not.mpr listed), Bool.and_false]
    · intro b unlisted
      rw [touched.bits]
      by_cases here : b ∈ list
      · obtain ⟨e, member, tried⟩ := only b here
        obtain ⟨l, looked, rfl⟩ := List.mem_map.mp tried
        have clear : bitOf m (locBit l) = false := by
          by_contra set
          obtain ⟨other, present, loc, found, same⟩ := answered e member l looked (eq_true_of_ne_false set)
          apply unlisted
          rw [← same]
          exact List.mem_map_of_mem (List.mem_filterMap.mpr ⟨other, present, found⟩)
        rw [clear, Bool.false_and]
      · rw [decide_eq_true here, Bool.and_true]

theorem plain_protects_iff :
    PlainProtects build m buf hit miss totalBytes totalPackets ↔ TriesAnswered build m buf := by
  constructor
  · intro protects fits
    obtain ⟨packets, ended⟩ := @plainBatch_ends build m buf hit miss totalBytes totalPackets fits
    have left := protects packets ended
    rw [← plainBatch_state] at left
    exact (plainBatch_ended ended).1.protects_iff.mp left
  · intro answered packets ended
    have sofar := (plainBatch_ended ended).1
    rw [← plainBatch_state]
    exact sofar.protects_iff.mpr (answered sofar.fits)

/-- Without a comparison of keys the loop looks at no item that it does not send. -/
theorem triesAnswered_without_keys (plain : build.keyMatch = false) : TriesAnswered build m buf := by
  intro _ e member l tried _
  refine ⟨e, member, l, ?_, rfl⟩
  have passes : ∀ g, Matches build.keyMatch m buf g := fun g keyed => absurd (plain.symm.trans keyed) (by decide)
  by_cases first : firstLoc buf e.1 = 0
  · have differs : ¬Finds build.keyMatch m buf e (firstLoc buf e.1) := fun finds => finds.1 first
    rw [tries_both differs, first, looked_none, List.nil_append] at tried
    by_cases second : secondLoc buf e.1 = 0
    · rw [second, looked_none] at tried
      cases tried
    · rw [looked_some second, List.mem_singleton] at tried
      rw [tried, plainLoc, if_neg differs, if_pos ⟨second, passes _⟩]
  · have finds : Finds build.keyMatch m buf e (firstLoc buf e.1) := ⟨first, passes _⟩
    rw [tries_first finds, looked_some first, List.mem_singleton] at tried
    rw [tried, plainLoc, if_pos finds]

theorem hits_protected_iff (entries : Entries build buf) (m : Memory) (hit miss totalBytes totalPackets : Nat) :
    (PrefetchProtects build m buf hit miss totalBytes totalPackets ↔ HitsClear build m buf) ∧
      (PlainProtects build m buf hit miss totalBytes totalPackets ↔ TriesAnswered build m buf) :=
  ⟨prefetch_protects_iff entries, plain_protects_iff⟩

theorem hits_protected_iff_one :
    (PrefetchProtects ⟨true, false⟩ (uniformMemory plainItem) (loneSearch 1 0) 0 0 0 0 ↔
        HitsClear ⟨true, false⟩ (uniformMemory plainItem) (loneSearch 1 0)) ∧
      (PlainProtects ⟨true, false⟩ (uniformMemory plainItem) (loneSearch 1 0) 0 0 0 0 ↔
        TriesAnswered ⟨true, false⟩ (uniformMemory plainItem) (loneSearch 1 0)) :=
  hits_protected_iff (loneSearch_entries ⟨true, false⟩ 1 0) (uniformMemory plainItem) 0 0 0 0

end Protection

section Stale

/-- A memory in which no item has been looked at since the walker came by. -/
def staleMemory : Memory :=
  { uniformMemory plainItem with
    slabclass := fun id => { (uniformMemory plainItem).slabclass id with
      bitmap := { ((uniformMemory plainItem).slabclass id).bitmap with map := fun _ => BitVec.allOnes 64 } } }

/-- The prefetching loop sends the value and leaves the item to the next eviction. -/
theorem stale_hit_unprotected : Entries ⟨true, false⟩ (loneSearch 1 0) ∧
    ¬PrefetchProtects ⟨true, false⟩ staleMemory (loneSearch 1 0) 0 0 0 0 := by
  refine ⟨loneSearch_entries _ _ _, ?_⟩
  intro protects
  have clear := (prefetch_protects_iff (loneSearch_entries _ _ _)).mp protects (0, 1) (by decide) (by decide)
    fun impossible => by cases impossible
  have set : bitOf staleMemory (locBit 1) = true := by decide
  exact absurd (clear.symm.trans set) (by decide)

end Stale

end MegaKV.Sender
