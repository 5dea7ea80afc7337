import Mathlib.Data.List.Basic

namespace Library

variable {α σ τ : Type*}

/-- A part can be filled with the items one after another. -/
def Joins (fits : σ → α → Prop) (add : σ → α → σ) : σ → List α → Prop
  | _, [] => True
  | s, a :: rest => fits s a ∧ Joins fits add (add s a) rest

/-- The items in parts: a part ends where the next item does not fit, and that item starts the next part. -/
inductive Parts (fits : σ → α → Prop) (add : σ → α → σ) (fresh : α → σ) : σ → List (List α) → List α → Prop
  | last {s : σ} {front : List α} (joins : Joins fits add s front) : Parts fits add fresh s [front] front
  | next {s : σ} {front part rest : List α} {a : α} {later : List (List α)} (joins : Joins fits add s front)
      (full : ¬fits (front.foldl add s) a) (others : Parts fits add fresh (fresh a) (part :: later) rest) :
      Parts fits add fresh s (front :: (a :: part) :: later) (front ++ a :: rest)

section Parts

variable {fits : σ → α → Prop} {add : σ → α → σ} {fresh : α → σ} {s : σ} {a : α} {part list rest : List α}
  {later parts : List (List α)}

theorem Parts.cons (parts : Parts fits add fresh (add s a) (part :: later) list) (room : fits s a) :
    Parts fits add fresh s ((a :: part) :: later) (a :: list) := by
  cases parts with
  | last joins => exact .last ⟨room, joins⟩
  | @next _ _ other rest b others joins full rest' =>
    exact @Parts.next _ _ fits add fresh s (a :: part) other rest b others ⟨room, joins⟩ full rest'

/-- Every list of items has its parts, a first one at least. -/
theorem parts_exist (fits : σ → α → Prop) (add : σ → α → σ) (fresh : α → σ) (s : σ) (list : List α) :
    ∃ part later, Parts fits add fresh s (part :: later) list := by
  induction list generalizing s with
  | nil => exact ⟨[], [], .last trivial⟩
  | cons a rest ih =>
    by_cases room : fits s a
    · obtain ⟨part, later, parts⟩ := ih (add s a)
      exact ⟨_, _, parts.cons room⟩
    · obtain ⟨part, later, parts⟩ := ih (fresh a)
      exact ⟨[], (a :: part) :: later, @Parts.next _ _ fits add fresh s [] part rest a later trivial room parts⟩

theorem Parts.first (cut : Parts fits add fresh s parts list) : ∃ part later, parts = part :: later := by
  cases cut with
  | last => exact ⟨_, _, rfl⟩
  | next => exact ⟨_, _, rfl⟩

/-- No part but the first one is empty. -/
theorem Parts.later_some (cut : Parts fits add fresh s (part :: later) list) : ∀ other ∈ later, other ≠ [] := by
  generalize all : part :: later = parts at cut
  induction cut generalizing part later with
  | last joins =>
    cases all
    exact List.forall_mem_nil _
  | next joins full others ih =>
    cases all
    exact List.forall_mem_cons.mpr ⟨List.cons_ne_nil _ _, ih rfl⟩

theorem Parts.flatten (cut : Parts fits add fresh s parts list) : parts.flatten = list := by
  induction cut with
  | last joins => exact List.append_nil _
  | next joins full others ih =>
    rw [List.flatten_cons] at ih
    rw [List.flatten_cons, List.flatten_cons, List.cons_append, ih]

section Run

variable {step : τ → α → τ} {holds : List (List α) → List α → σ → τ → Prop}
  (joined : ∀ done current s t a, holds done current s t → fits s a → holds done (current ++ [a]) (add s a) (step t a))
  (opened : ∀ done current s t a, holds done current s t → ¬fits s a → holds (done ++ [current]) [a] (fresh a) (step t a))
include joined

theorem Joins.run {done : List (List α)} {current : List α} {t : τ} (joins : Joins fits add s list)
    (here : holds done current s t) : holds done (current ++ list) (list.foldl add s) (list.foldl step t) := by
  induction list generalizing s t current with
  | nil =>
    rw [List.append_nil]
    exact here
  | cons a rest ih =>
    have next := ih joins.2 (joined _ _ _ _ _ here joins.1)
    rw [List.append_assoc, List.singleton_append] at next
    exact next

include opened

/-- A loop that opens a new part for an item exactly where the item does not fit makes these parts. -/
theorem Parts.run {done : List (List α)} {current : List α} {t : τ} (parts : Parts fits add fresh s (part :: later) list)
    (here : holds done current s t) :
    ∃ before last s', done ++ (current ++ part) :: later = before ++ [last] ∧
      holds before last s' (list.foldl step t) := by
  generalize all : part :: later = segments at parts
  induction parts generalizing part later done current t with
  | last joins =>
    cases all
    exact ⟨done, _, _, rfl, joins.run joined here⟩
  | @next s front other rest a others joins full parts ih =>
    cases all
    have filled := joins.run joined here
    obtain ⟨before, last, s', split, holds⟩ := ih (opened _ _ _ _ a filled full) rfl
    refine ⟨before, last, s', ?_, ?_⟩
    · rw [← split, List.append_assoc, List.singleton_append, List.singleton_append]
    · rw [List.foldl_append, List.foldl_cons]
      exact holds

end Run

end Parts

end Library
