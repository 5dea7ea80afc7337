import Mathlib

namespace Library

section Order

variable {Op : Type} (needs : Op → Op → Prop) (single : Op → Prop)

/-- Of operations that complete in order, each finds complete what it needs. -/
def Sequenced (complete : Op → Prop) : List Op → Prop
  | [] => True
  | op :: rest => (∀ other, needs op other → complete other) ∧ Sequenced (fun other => complete other ∨ other = op) rest

/-- Of operations that complete in order, none of the single ones has been complete before. -/
def OnlyOnce (complete : Op → Prop) : List Op → Prop
  | [] => True
  | op :: rest => (single op → ¬complete op) ∧ OnlyOnce (fun other => complete other ∨ other = op) rest

variable {needs single} {complete more : Op → Prop} {list later : List Op}

theorem Sequenced.mono (ordered : Sequenced needs complete list) (included : ∀ op, complete op → more op) :
    Sequenced needs more list := by
  induction list generalizing complete more with
  | nil => trivial
  | cons op rest ih =>
    refine ⟨fun other need => included other (ordered.1 other need), ?_⟩
    exact ih ordered.2 fun other before => before.imp_left (included other)

theorem Sequenced.append (ordered : Sequenced needs complete list)
    (next : Sequenced needs (fun op => complete op ∨ op ∈ list) later) : Sequenced needs complete (list ++ later) := by
  induction list generalizing complete with
  | nil => exact next.mono fun op before => before.resolve_right List.not_mem_nil
  | cons op rest ih =>
    refine ⟨ordered.1, ih ordered.2 (next.mono ?_)⟩
    intro other before
    rcases before with done | member
    · exact .inl (.inl done)
    · rcases List.mem_cons.mp member with here | behind
      · exact .inl (.inr here)
      · exact .inr behind

/-- Operations that need only what is complete. -/
theorem Sequenced.of_complete (needed : ∀ op ∈ list, ∀ other, needs op other → complete other) :
    Sequenced needs complete list := by
  induction list generalizing complete with
  | nil => trivial
  | cons op rest ih =>
    refine ⟨needed op List.mem_cons_self, ih ?_⟩
    exact fun next member other need => .inl (needed next (List.mem_cons_of_mem op member) other need)

theorem onlyOnce_iff :
    OnlyOnce single complete list ↔ (∀ op ∈ list, single op → ¬complete op) ∧
      list.Pairwise fun op other => single other → other ≠ op := by
  induction list generalizing complete with
  | nil => simp [OnlyOnce]
  | cons op rest ih =>
    rw [OnlyOnce, ih, List.forall_mem_cons, List.pairwise_cons]
    constructor
    · rintro ⟨first, others, apart⟩
      refine ⟨⟨first, fun next member once done => others next member once (.inl done)⟩, ?_, apart⟩
      exact fun next member once same => others next member once (.inr same)
    · rintro ⟨⟨first, others⟩, differ, apart⟩
      refine ⟨first, ?_, apart⟩
      rintro next member once (done | same)
      · exact others next member once done
      · exact differ next member once same

/-- Single operations are not complete while they wait. -/
theorem OnlyOnce.waiting (once : OnlyOnce single complete list) {op : Op} (member : op ∈ list) (alone : single op) :
    ¬complete op := (onlyOnce_iff.mp once).1 op member alone

/-- No single operation comes behind others. -/
theorem OnlyOnce.append (once : OnlyOnce single complete list) (never : ∀ op ∈ later, ¬single op) :
    OnlyOnce single complete (list ++ later) := by
  obtain ⟨fresh, apart⟩ := onlyOnce_iff.mp once
  refine onlyOnce_iff.mpr ⟨?_, List.pairwise_append.mpr ⟨apart, ?_, ?_⟩⟩
  · intro op member alone
    rcases List.mem_append.mp member with before | behind
    · exact fresh op before alone
    · exact absurd alone (never op behind)
  · exact List.pairwise_of_forall_mem_list fun op _ other member alone => absurd alone (never other member)
  · exact fun op _ other member alone => absurd alone (never other member)

end Order

end Library
