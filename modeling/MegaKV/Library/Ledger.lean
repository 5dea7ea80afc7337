import Mathlib

namespace Library

open scoped List

section Places

variable {Id Item : Type}

/-- Of all places one has grown. -/
theorem flatMap_perm_of_grown {ids : List Id} {before after : Id → List Item} {id : Id} {extra : List Item}
    (distinct : ids.Nodup) (member : id ∈ ids) (grown : (after id).Perm (before id ++ extra))
    (frame : ∀ other ∈ ids, other ≠ id → after other = before other) :
    (ids.flatMap after).Perm (ids.flatMap before ++ extra) := by
  induction ids with
  | nil => cases member
  | cons first rest later =>
    obtain ⟨absent, distinct⟩ := List.nodup_cons.mp distinct
    have restFrame : ∀ other ∈ rest, other ≠ id → after other = before other :=
      fun other inside => frame other (List.mem_cons_of_mem first inside)
    rw [List.flatMap_cons, List.flatMap_cons]
    cases List.mem_cons.mp member with
    | inl here =>
      subst here
      have same : rest.flatMap after = rest.flatMap before := by
        apply List.flatMap_congr
        intro other inside
        exact restFrame other inside fun equal => absent (equal ▸ inside)
      rw [same, List.append_assoc]
      calc after id ++ rest.flatMap before
          ~ (before id ++ extra) ++ rest.flatMap before := grown.append_right _
        _ ~ before id ++ (rest.flatMap before ++ extra) := by
            rw [List.append_assoc]
            exact List.perm_append_comm.append_left (before id)
    | inr there =>
      have different : first ≠ id := fun equal => absent (equal ▸ there)
      rw [frame first List.mem_cons_self different, List.append_assoc]
      exact (later distinct there restFrame).append_left (before first)

/-- One of those that are present is taken away. -/
theorem filter_perm_of_taken {Value : Type} [DecidableEq Id] {ids : List Id} {value : Id → Option Value} {id : Id}
    (distinct : ids.Nodup) (member : id ∈ ids) (present : (value id).isSome) :
    (ids.filter fun other => (value other).isSome).Perm
      (id :: ids.filter fun other => (Function.update value id none other).isSome) := by
  have listed : id ∈ ids.filter fun other => (value other).isSome := List.mem_filter.mpr ⟨member, present⟩
  have rest : (ids.filter fun other => (value other).isSome).erase id =
      ids.filter fun other => (Function.update value id none other).isSome := by
    rw [(distinct.filter _).erase_eq_filter, List.filter_filter]
    apply List.filter_congr
    intro other _
    by_cases here : other = id
    · subst here
      simp
    · simp [here]
  rw [← rest]
  exact List.perm_cons_erase listed

def Balanced (ids : List Id) (entered left : List Item) (held : Id → List Item) : Prop :=
  entered.Perm (left ++ ids.flatMap held)

variable {ids : List Id} {entered left : List Item} {held after : Id → List Item} {id : Id}

theorem balanced_vacant (vacant : ∀ id, held id = []) : Balanced ids ([] : List Item) [] held := by
  have nothing : ids.flatMap held = [] := by
    rw [List.flatMap_eq_nil_iff]
    exact fun id _ => vacant id
  rw [Balanced, nothing]
  exact List.Perm.refl _

theorem Balanced.congr (balanced : Balanced ids entered left held) (same : ∀ id ∈ ids, after id = held id) :
    Balanced ids entered left after := by
  rw [Balanced, List.flatMap_congr same]
  exact balanced

theorem Balanced.enter (balanced : Balanced ids entered left held) (distinct : ids.Nodup) (member : id ∈ ids)
    (item : Item) (grown : (after id).Perm (held id ++ [item]))
    (frame : ∀ other ∈ ids, other ≠ id → after other = held other) :
    Balanced ids (entered ++ [item]) left after := by
  have places := flatMap_perm_of_grown distinct member grown frame
  unfold Balanced
  calc entered ++ [item]
      ~ (left ++ ids.flatMap held) ++ [item] := balanced.append_right [item]
    _ ~ left ++ ids.flatMap after := by
        rw [List.append_assoc]
        exact places.symm.append_left left

/-- A place is emptied, and what it held goes out. -/
theorem Balanced.leave (balanced : Balanced ids entered left held) (distinct : ids.Nodup) (member : id ∈ ids)
    (emptied : after id = []) (frame : ∀ other ∈ ids, other ≠ id → after other = held other) :
    Balanced ids entered (left ++ held id) after := by
  have grown : (held id).Perm (after id ++ held id) := by
    rw [emptied, List.nil_append]
  have places := flatMap_perm_of_grown distinct member grown
    fun other inside different => (frame other inside different).symm
  unfold Balanced
  calc entered
      ~ left ++ ids.flatMap held := balanced
    _ ~ left ++ (ids.flatMap after ++ held id) := places.append_left left
    _ ~ (left ++ held id) ++ ids.flatMap after := by
        rw [List.append_assoc]
        exact List.perm_append_comm.append_left left

theorem Balanced.entered_of_left (balanced : Balanced ids entered left held) {item : Item} (gone : item ∈ left) :
    item ∈ entered :=
  balanced.mem_iff.mpr (List.mem_append_left _ gone)

theorem Balanced.left_or_held (balanced : Balanced ids entered left held) {item : Item} (came : item ∈ entered) :
    item ∈ left ∨ ∃ id ∈ ids, item ∈ held id := by
  rw [Balanced] at balanced
  rcases List.mem_append.mp (balanced.mem_iff.mp came) with gone | stays
  · exact .inl gone
  · exact .inr (List.mem_flatMap.mp stays)

end Places

end Library
