import Mathlib

namespace Library

section Past

variable {Event : Type} {p q r : Event → Prop} {holds : List Event → Prop} {history more : List Event} {event : Event}

/-- `p` has happened, and no `q` since. -/
def Since (p q : Event → Prop) (history : List Event) : Prop :=
  ∃ before first after, history = before ++ first :: after ∧ p first ∧ ∀ later ∈ after, ¬q later

/-- `r` has happened at a time when the past was as `holds` says. -/
def Happened (r : Event → Prop) (holds : List Event → Prop) (history : List Event) : Prop :=
  ∃ before first after, history = before ++ first :: after ∧ r first ∧ holds before

/-- An event of a longer history is the last one or was there before. -/
theorem append_single_split {before after : List Event} {first : Event}
    (split : history ++ [event] = before ++ first :: after) :
    (before = history ∧ first = event ∧ after = []) ∨
      ∃ rest, after = rest ++ [event] ∧ history = before ++ first :: rest := by
  rcases List.eq_nil_or_concat after with empty | ⟨rest, last, longer⟩
  · subst empty
    obtain ⟨same, single⟩ := List.append_inj' split rfl
    exact .inl ⟨same.symm, (List.singleton_inj.mp single).symm, rfl⟩
  · rw [List.concat_eq_append] at longer
    subst longer
    have regrouped : history ++ [event] = (before ++ first :: rest) ++ [last] := by
      rw [split, List.append_assoc, List.cons_append]
    obtain ⟨same, single⟩ := List.append_inj' regrouped rfl
    have equal := List.singleton_inj.mp single
    subst equal
    exact .inr ⟨rest, rfl, same⟩

theorem not_since_nil : ¬Since p q ([] : List Event) := by
  rintro ⟨before, first, after, split, _⟩
  simp at split

theorem not_happened_nil : ¬Happened r holds ([] : List Event) := by
  rintro ⟨before, first, after, split, _⟩
  simp at split

theorem since_append_single : Since p q (history ++ [event]) ↔ p event ∨ (Since p q history ∧ ¬q event) := by
  constructor
  · rintro ⟨before, first, after, split, here, none⟩
    rcases append_single_split split with ⟨_, same, _⟩ | ⟨rest, longer, earlier⟩
    · rw [← same]
      exact .inl here
    · subst longer
      have quiet : ∀ later ∈ rest, ¬q later := fun later member => none later (List.mem_append_left _ member)
      exact .inr ⟨⟨before, first, rest, earlier, here, quiet⟩, none event (by simp)⟩
  · rintro (here | ⟨⟨before, first, after, split, here, none⟩, quiet⟩)
    · exact ⟨history, event, [], rfl, here, by simp⟩
    · refine ⟨before, first, after ++ [event], by simp [split], here, ?_⟩
      intro later member
      rcases List.mem_append.mp member with old | new
      · exact none later old
      · rw [List.mem_singleton.mp new]
        exact quiet

theorem happened_append_single :
    Happened r holds (history ++ [event]) ↔ (r event ∧ holds history) ∨ Happened r holds history := by
  constructor
  · rintro ⟨before, first, after, split, here, past⟩
    rcases append_single_split split with ⟨same, equal, _⟩ | ⟨rest, _, earlier⟩
    · rw [← same, ← equal]
      exact .inl ⟨here, past⟩
    · exact .inr ⟨before, first, rest, earlier, here, past⟩
  · rintro (⟨here, past⟩ | ⟨before, first, after, split, here, past⟩)
    · exact ⟨history, event, [], rfl, here, past⟩
    · exact ⟨before, first, after ++ [event], by simp [split], here, past⟩

/-- Events that are no `q` end nothing. -/
theorem since_append (quiet : ∀ event ∈ more, ¬q event) :
    Since p q (history ++ more) ↔ (∃ event ∈ more, p event) ∨ Since p q history := by
  induction more using List.reverseRecOn with
  | nil => simp
  | append_singleton more event ih =>
    have still := ih fun earlier member => quiet earlier (List.mem_append_left _ member)
    have last := quiet event (by simp)
    rw [← List.append_assoc, since_append_single, still]
    constructor
    · rintro (here | ⟨⟨earlier, member, here⟩ | past, _⟩)
      · exact .inl ⟨event, by simp, here⟩
      · exact .inl ⟨earlier, List.mem_append_left _ member, here⟩
      · exact .inr past
    · rintro (⟨earlier, member, here⟩ | past)
      · rcases List.mem_append.mp member with old | new
        · exact .inr ⟨.inl ⟨earlier, old, here⟩, last⟩
        · rw [List.mem_singleton.mp new] at here
          exact .inl here
      · exact .inr ⟨.inr past, last⟩

theorem happened_append (quiet : ∀ event ∈ more, ¬r event) :
    Happened r holds (history ++ more) ↔ Happened r holds history := by
  induction more using List.reverseRecOn with
  | nil => simp
  | append_singleton more event ih =>
    have still := ih fun earlier member => quiet earlier (List.mem_append_left _ member)
    rw [← List.append_assoc, happened_append_single, still]
    exact or_iff_right fun here => quiet event (by simp) here.1

theorem Since.member (since : Since p q history) : ∃ event ∈ history, p event := by
  obtain ⟨before, first, after, split, here, _⟩ := since
  exact ⟨first, by simp [split], here⟩

end Past

section Order

variable {α : Type} {p q : α → Prop} {R : α → α → Prop} {l : List α}

end Order

end Library
