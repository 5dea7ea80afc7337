import MegaKV.Hash.Search

namespace MegaKV.Hash

variable {g : Geometry}

def Source (elems : List IElem) (sig : Sign) (loc : Loc) : Prop := ∃ elem ∈ elems, elem.sig = sig ∧ elem.loc = loc

/-- The slots whose signature is relevant are as zeroed or hold an inserted pair. -/
def Sourced (relevant : Sign → Prop) (elems : List IElem) (table : Table g) : Prop :=
  ∀ slot, relevant (entry table slot).1 →
    entry table slot = (0, 0) ∨ Source elems (entry table slot).1 (entry table slot).2

theorem Source.append {elems : List IElem} {sig : Sign} {loc : Loc} (source : Source elems sig loc) (more : List IElem) :
    Source (elems ++ more) sig loc := by
  obtain ⟨elem, member, same⟩ := source
  exact ⟨elem, List.mem_append_left more member, same⟩

theorem Source.last (elems : List IElem) (elem : IElem) : Source (elems ++ [elem]) elem.sig elem.loc :=
  ⟨elem, by simp, rfl, rfl⟩

theorem sourced_zero (relevant : Sign → Prop) (elems : List IElem) : Sourced relevant elems (zeroTable g) :=
  fun _ _ => .inl rfl

variable {relevant : Sign → Prop} {elems : List IElem} {table : Table g}

theorem Sourced.append (sourced : Sourced relevant elems table) (more : List IElem) :
    Sourced relevant (elems ++ more) table := by
  intro slot matters
  rcases sourced slot matters with zero | source
  · exact .inl zero
  · exact .inr (source.append more)

theorem Sourced.update {after : Table g} {slot : g.Index × g.Lane} {pair : Sign × Loc}
    (sourced : Sourced relevant elems table) (source : relevant pair.1 → pair = (0, 0) ∨ Source elems pair.1 pair.2)
    (updated : entry after = Function.update (entry table) slot pair) : Sourced relevant elems after := by
  intro other matters
  rw [updated] at matters ⊢
  by_cases same : other = slot
  · subst same
    rw [Function.update_self] at matters ⊢
    exact source matters
  · rw [Function.update_of_ne same] at matters ⊢
    exact sourced other matters

theorem Sourced.setLoc (sourced : Sourced relevant elems table) {b : g.Index} {simdLane : g.Lane} {sig : Sign}
    {loc : Loc} (held : (table b).sig simdLane = sig) (source : Source elems sig loc) :
    Sourced relevant elems (setLoc table b simdLane loc) := by
  have updated : entry (MegaKV.Hash.setLoc table b simdLane loc) =
      Function.update (entry table) (b, simdLane) (sig, loc) := by
    rw [entry_setLoc, held]
  exact sourced.update (fun _ => .inr source) updated

theorem Sourced.putElem (sourced : Sourced relevant elems table) {sig : Sign} {loc : Loc}
    (source : Source elems sig loc) (b : g.Index) (simdLane : g.Lane) :
    Sourced relevant elems (putElem table b simdLane sig loc) :=
  sourced.update (fun _ => .inr source) (entry_putElem table b simdLane sig loc)

/-- A chain passes on pairs that were inserted. -/
theorem Sourced.cuckooEvict {elem : IElem} {carry : Carry g} (all : ∀ sig, sig ≠ 0 → relevant sig)
    (sourced : Sourced relevant elems carry.table) (source : Source elems carry.sig carry.loc) (left : Nat) :
    Sourced relevant elems (cuckooEvict elem left carry) := by
  apply @cuckooEvict_rule g elem (Sourced relevant elems)
    (fun carry => Sourced relevant elems carry.table ∧ Source elems carry.sig carry.loc)
  · intro carry simdLane both found
    exact both.1.setLoc (probe_held found) both.2
  · intro carry simdLane both _
    exact both.1.putElem both.2 _ _
  · intro carry both full
    have after : Sourced relevant elems (carry.evict elem).table := both.1.putElem both.2 _ _
    have nonzero := ((probe_full_iff _ _ _).mp full (majorLane g elem.sig)).2
    rcases both.1 (carry.target g elem, majorLane g elem.sig) (all _ nonzero) with zero | victim
    · exact absurd (congrArg Prod.fst zero) nonzero
    · exact ⟨after, after, victim⟩
  · exact ⟨sourced, source⟩

theorem Sourced.hashInsertCuckoo (all : ∀ sig, sig ≠ 0 → relevant sig) (sourced : Sourced relevant elems table)
    (elem : IElem) : Sourced relevant (elems ++ [elem]) (hashInsertCuckoo table elem) := by
  have before := sourced.append [elem]
  have source := Source.last elems elem
  unfold MegaKV.Hash.hashInsertCuckoo
  split
  · exact before
  · split
    · rename_i found
      exact before.setLoc (probe_held found) source
    · exact before.putElem source _ _
    · exact before.cuckooEvict all source maxCuckooNum

theorem holdsElem_iff (table : Table g) (elem : DElem) (slot : g.Index × g.Lane) :
    holdsElem (table slot.1) elem slot.2 = true ↔ entry table slot = (elem.sig, elem.loc) := by
  simp [holdsElem, entry, Prod.ext_iff]

theorem clearElem_entry (table : Table g) (b : g.Index) (elem : DElem) (slot : g.Index × g.Lane) :
    entry (clearElem table b elem) slot =
      if slot.1 = b ∧ entry table slot = (elem.sig, elem.loc) then (0, elem.loc) else entry table slot := by
  obtain ⟨c, simdLane⟩ := slot
  by_cases same : c = b
  · subst same
    by_cases held : entry table (c, simdLane) = (elem.sig, elem.loc)
    · have cleared := (holdsElem_iff table elem (c, simdLane)).mpr held
      rw [if_pos ⟨rfl, held⟩]
      apply Prod.ext
      · exact (clearElem_sig table c elem simdLane).trans (if_pos cleared)
      · have kept : (entry (clearElem table c elem) (c, simdLane)).2 = (entry table (c, simdLane)).2 := by
          simp [entry, clearElem]
        rw [kept, held]
    · have kept : ¬holdsElem (table c) elem simdLane = true := fun equal => held ((holdsElem_iff table elem _).mp equal)
      rw [if_neg fun both => held both.2]
      apply Prod.ext
      · exact (clearElem_sig table c elem simdLane).trans (if_neg kept)
      · simp [entry, clearElem]
  · rw [if_neg fun both => same both.1]
    simp only [entry, clearElem_other table elem same]

/-- `hash_delete` looks into the second bucket only if the element is not in the first. -/
def Finds (table : Table g) (elem : DElem) (slot : g.Index × g.Lane) : Prop :=
  entry table slot = (elem.sig, elem.loc) ∧
    (slot.1 = bucketIndex g elem.hash ∨ slot.1 = secondIndex g elem.hash elem.sig ∧
      ∀ simdLane, entry table (bucketIndex g elem.hash, simdLane) ≠ (elem.sig, elem.loc))

section Deletions

variable {elem : DElem} {slot : g.Index × g.Lane}

theorem votes_iff (b : g.Index) :
    ballot (holdsElem (table b) elem) ≠ 0 ↔ ∃ simdLane, entry table (b, simdLane) = (elem.sig, elem.loc) := by
  rw [ballot_ne_zero_iff]
  exact exists_congr fun simdLane => holdsElem_iff table elem (b, simdLane)

theorem clearElem_absent {b : g.Index} (absent : ∀ simdLane, entry table (b, simdLane) ≠ (elem.sig, elem.loc)) :
    entry (clearElem table b elem) = entry table := by
  funext ⟨c, simdLane⟩
  rw [clearElem_entry]
  apply if_neg
  rintro ⟨rfl, held⟩
  exact absent simdLane held

theorem hashDelete_found (finds : Finds table elem slot) : entry (hashDelete table elem) slot = (0, elem.loc) := by
  obtain ⟨held, place⟩ := finds
  rw [hashDelete]
  rcases place with first | ⟨second, absent⟩
  · have voted := (votes_iff (bucketIndex g elem.hash)).mpr ⟨slot.2, by rw [← first]; exact held⟩
    rw [if_pos voted, clearElem_entry, if_pos ⟨first, held⟩]
  · have unvoted : ¬ballot (holdsElem (table (bucketIndex g elem.hash)) elem) ≠ 0 := by
      rw [votes_iff]
      rintro ⟨simdLane, equal⟩
      exact absent simdLane equal
    rw [if_neg unvoted, clearElem_entry, clearElem_absent absent, if_pos ⟨second, held⟩]

theorem hashDelete_missed (missed : ¬Finds table elem slot) : entry (hashDelete table elem) slot = entry table slot := by
  rw [hashDelete]
  by_cases voted : ballot (holdsElem (table (bucketIndex g elem.hash)) elem) ≠ 0
  · rw [if_pos voted, clearElem_entry]
    exact if_neg fun both => missed ⟨both.2, .inl both.1⟩
  · have absent : ∀ simdLane, entry table (bucketIndex g elem.hash, simdLane) ≠ (elem.sig, elem.loc) := by
      intro simdLane equal
      exact voted ((votes_iff _).mpr ⟨simdLane, equal⟩)
    rw [if_neg voted, clearElem_entry, clearElem_absent absent]
    exact if_neg fun both => missed ⟨both.2, .inr ⟨both.1, absent⟩⟩

theorem hashDelete_kept (table : Table g) (elem : DElem) (slot : g.Index × g.Lane) :
    entry (hashDelete table elem) slot = entry table slot ∨ entry (hashDelete table elem) slot = (0, elem.loc) := by
  by_cases finds : Finds table elem slot
  · exact .inr (hashDelete_found finds)
  · exact .inl (hashDelete_missed finds)

theorem Sourced.hashDelete (none : ¬relevant 0) (sourced : Sourced relevant elems table) (elem : DElem) :
    Sourced relevant elems (hashDelete table elem) := by
  intro slot matters
  rcases hashDelete_kept table elem slot with kept | cleared
  · rw [kept] at matters ⊢
    exact sourced slot matters
  · rw [cleared] at matters
    exact absurd matters none

end Deletions

theorem inserted_append (ops : List Op) (op : Op) : inserted (ops ++ [op]) = inserted ops ++ op.inserts.toList := by
  simp only [inserted, List.filterMap_append, List.filterMap_cons, List.filterMap_nil]
  cases op.inserts <;> rfl

end MegaKV.Hash
