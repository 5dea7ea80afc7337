import Mathlib.Tactic.Common
import Mathlib.Data.List.Basic

namespace Library

/-- The bytes of a memory that may be read, by offset. -/
abbrev View := Nat → Option (BitVec 8)

/-- Why a computation that reads through a view ends without a result. -/
inductive Stop (ε : Type) where
  | outside (offset : Nat)
  | halt (error : ε)

namespace View

def whole (bytes : Nat → BitVec 8) : View := fun k => some (bytes k)

def cut (bytes : Nat → BitVec 8) (len : Nat) : View := fun k => if k < len then some (bytes k) else none

def Le (v w : View) : Prop := ∀ k byte, v k = some byte → w k = some byte

def window (bytes : Nat → BitVec 8) (ptr n : Nat) : Nat → BitVec 8 := fun k => if k < n then bytes (ptr + k) else 0

def read {ε : Type} (v : View) (ptr n : Nat) : Except (Stop ε) (Nat → BitVec 8) :=
  match (List.range n).find? (fun k => (v (ptr + k)).isNone) with
  | some k => .error (.outside (ptr + k))
  | none => .ok (window (fun k => (v k).getD 0) ptr n)

theorem cut_le_whole (bytes : Nat → BitVec 8) (len : Nat) : (cut bytes len).Le (whole bytes) := by
  intro k byte shown
  unfold cut at shown
  split at shown
  · exact shown
  · contradiction

section Reads

variable {ε : Type} {v : View} {ptr n : Nat}

theorem window_congr {bytes other : Nat → BitVec 8} (agree : ∀ k < n, bytes (ptr + k) = other (ptr + k)) :
    window bytes ptr n = window other ptr n := by
  funext k
  unfold window
  split
  · exact agree k ‹_›
  · rfl

theorem read_shown (shown : ∀ k < n, v (ptr + k) ≠ none) :
    (v.read ptr n : Except (Stop ε) (Nat → BitVec 8)) = .ok (window (fun k => (v k).getD 0) ptr n) := by
  have found : (List.range n).find? (fun k => (v (ptr + k)).isNone) = none := by
    rw [List.find?_eq_none]
    intro k member
    have present := shown k (List.mem_range.mp member)
    cases byte : v (ptr + k)
    · contradiction
    · simp
  rw [read, found]

theorem read_missing {k : Nat} (inside : k < n) (missing : v (ptr + k) = none) :
    ∃ offset, (v.read ptr n : Except (Stop ε) (Nat → BitVec 8)) = .error (.outside offset) := by
  have found : ((List.range n).find? (fun k => (v (ptr + k)).isNone)).isSome := by
    rw [List.find?_isSome]
    exact ⟨k, List.mem_range.mpr inside, by rw [missing]; rfl⟩
  obtain ⟨offset, first⟩ := Option.isSome_iff_exists.mp found
  exact ⟨ptr + offset, by rw [read, first]⟩

theorem read_whole (bytes : Nat → BitVec 8) (ptr n : Nat) :
    ((whole bytes).read ptr n : Except (Stop ε) (Nat → BitVec 8)) = .ok (window bytes ptr n) :=
  read_shown (fun _ _ => Option.some_ne_none _)

theorem read_cut (bytes : Nat → BitVec 8) {len : Nat} (inside : ptr + n ≤ len) :
    ((cut bytes len).read ptr n : Except (Stop ε) (Nat → BitVec 8)) = .ok (window bytes ptr n) := by
  have below : ∀ k < n, ptr + k < len := fun k before => by omega
  rw [read_shown]
  · congr 1
    apply window_congr
    intro k before
    simp only [cut, if_pos (below k before), Option.getD_some]
  · intro k before
    rw [cut, if_pos (below k before)]
    exact Option.some_ne_none _

theorem read_cut_outside (bytes : Nat → BitVec 8) {len : Nat} (some : 0 < n) (outside : len < ptr + n) :
    ∃ offset, ((cut bytes len).read ptr n : Except (Stop ε) (Nat → BitVec 8)) = .error (.outside offset) := by
  have last : n - 1 < n := by omega
  apply read_missing last
  exact if_neg (by omega)

end Reads

theorem cut_congr {bytes other : Nat → BitVec 8} {len : Nat} (agree : ∀ k < len, other k = bytes k) :
    cut other len = cut bytes len := by
  funext k
  unfold cut
  split
  · rw [agree k ‹_›]
  · rfl

end View

section Reading

variable {ε α β : Type}

def Inside (result : Except (Stop ε) α) : Prop := ∀ k, result ≠ .error (.outside k)

theorem Inside.ok (a : α) : Inside (.ok a : Except (Stop ε) α) := by
  intro k same
  cases same

theorem Inside.halt (error : ε) : Inside (.error (.halt error) : Except (Stop ε) α) := by
  intro k same
  cases same

theorem Inside.first {x : Except (Stop ε) α} {g : α → Except (Stop ε) β} (inside : Inside (x >>= g)) : Inside x := by
  intro k outside
  rw [outside] at inside
  exact inside k rfl

theorem Inside.bind {x : Except (Stop ε) α} {g : α → Except (Stop ε) β} (first : Inside x)
    (later : ∀ a, x = .ok a → Inside (g a)) : Inside (x >>= g) := by
  cases result : x with
  | error stop =>
    intro k outside
    apply first k
    rw [result]
    exact congrArg Except.error (Except.error.inj outside)
  | ok a => exact later a result

theorem ok_of_bind {x : Except ε α} {g : α → Except ε β} {b : β} (result : x >>= g = .ok b) :
    ∃ a, x = .ok a ∧ g a = .ok b := by
  cases x with
  | error stop => cases result
  | ok a => exact ⟨a, rfl, result⟩

/-- Where it reads nothing outside a view, it computes the same on every larger one. -/
def Stable (f : View → Except (Stop ε) α) : Prop := ∀ v w, View.Le v w → Inside (f v) → f w = f v

/-- On every memory it reads up to `stop`. -/
def Extent (f : View → Except (Stop ε) α) (stop : Nat) : Prop :=
  ∀ bytes len, (stop ≤ len → ∃ a, f (View.cut bytes len) = .ok a) ∧ (len < stop → ¬Inside (f (View.cut bytes len)))

theorem Stable.const (result : Except (Stop ε) α) : Stable (fun _ => result) := fun _ _ _ _ => rfl

theorem Stable.bind {f : View → Except (Stop ε) α} {g : α → View → Except (Stop ε) β} (first : Stable f)
    (later : ∀ a, Stable (g a)) : Stable (fun v => f v >>= fun a => g a v) := by
  intro v w le inside
  change Inside (f v >>= fun a => g a v) at inside
  change (f w >>= fun a => g a w) = (f v >>= fun a => g a v)
  rw [first v w le inside.first]
  cases result : f v with
  | error stop => rfl
  | ok a =>
    rw [result] at inside
    exact later a v w le inside

theorem Stable.ite {condition : Prop} [Decidable condition] {f g : View → Except (Stop ε) α}
    (yes : condition → Stable f) (no : ¬condition → Stable g) : Stable (fun v => if condition then f v else g v) := by
  by_cases holds : condition
  · simp only [if_pos holds]
    exact yes holds
  · simp only [if_neg holds]
    exact no holds

theorem read_stable (ptr n : Nat) : Stable (fun v => (v.read ptr n : Except (Stop ε) (Nat → BitVec 8))) := by
  intro v w le inside
  have shown : ∀ k < n, v (ptr + k) ≠ none := by
    intro k before missing
    obtain ⟨offset, outside⟩ := @View.read_missing ε v ptr n k before missing
    exact inside offset outside
  have more : ∀ k < n, w (ptr + k) = v (ptr + k) := by
    intro k before
    obtain ⟨byte, present⟩ := Option.ne_none_iff_exists'.mp (shown k before)
    rw [present]
    exact le _ _ present
  have every : ∀ k < n, w (ptr + k) ≠ none := by
    intro k before
    rw [more k before]
    exact shown k before
  change w.read ptr n = v.read ptr n
  rw [View.read_shown shown, View.read_shown every]
  congr 1
  apply View.window_congr
  intro k before
  rw [more k before]

variable {f : View → Except (Stop ε) α} {bytes : Nat → BitVec 8} {len s t : Nat}

theorem Extent.inside_iff (extent : Extent f s) : Inside (f (View.cut bytes len)) ↔ s ≤ len := by
  constructor
  · intro inside
    by_contra beyond
    exact (extent bytes len).2 (Nat.lt_of_not_le beyond) inside
  · intro within
    obtain ⟨a, result⟩ := (extent bytes len).1 within
    rw [result]
    exact Inside.ok a

/-- A whole memory shows all that such a computation reads. -/
theorem Extent.whole (extent : Extent f s) (stable : Stable f) (bytes : Nat → BitVec 8) :
    ∃ a, f (View.whole bytes) = .ok a := by
  obtain ⟨a, result⟩ := (extent bytes s).1 (Nat.le_refl s)
  have inside : Inside (f (View.cut bytes s)) := by
    rw [result]
    exact Inside.ok a
  exact ⟨a, (stable _ _ (View.cut_le_whole bytes s) inside).trans result⟩

theorem Extent.congr (extent : Extent f s) (same : s = t) : Extent f t := same ▸ extent

theorem Extent.const (a : α) : Extent (fun _ => (.ok a : Except (Stop ε) α)) 0 := by
  intro bytes len
  exact ⟨fun _ => ⟨a, rfl⟩, fun below => absurd below (Nat.not_lt_zero _)⟩

theorem Extent.bind {g : α → View → Except (Stop ε) β} (first : Extent f s) (later : ∀ a, Extent (g a) t) :
    Extent (fun v => f v >>= fun a => g a v) (max s t) := by
  intro bytes len
  change (_ → ∃ b, (f (View.cut bytes len) >>= fun a => g a (View.cut bytes len)) = .ok b) ∧
    (_ → ¬Inside (f (View.cut bytes len) >>= fun a => g a (View.cut bytes len)))
  constructor
  · intro within
    obtain ⟨a, result⟩ := (first bytes len).1 (by omega)
    obtain ⟨b, next⟩ := (later a bytes len).1 (by omega)
    rw [result]
    exact ⟨b, next⟩
  · intro beyond inside
    have start := first.inside_iff.mp inside.first
    obtain ⟨a, result⟩ := (first bytes len).1 start
    rw [result] at inside
    exact (later a bytes len).2 (by omega) inside

theorem Extent.ite {condition : Prop} [Decidable condition] {g : View → Except (Stop ε) α} (yes : Extent f s)
    (no : Extent g t) : Extent (fun v => if condition then f v else g v) (if condition then s else t) := by
  by_cases holds : condition
  · simp only [if_pos holds]
    exact yes
  · simp only [if_neg holds]
    exact no

theorem read_extent (ptr n : Nat) :
    Extent (fun v => (v.read ptr n : Except (Stop ε) (Nat → BitVec 8))) (if n = 0 then 0 else ptr + n) := by
  intro bytes len
  constructor
  · intro within
    by_cases empty : n = 0
    · rw [empty]
      exact ⟨_, View.read_shown (fun k before => absurd before (Nat.not_lt_zero k))⟩
    · rw [if_neg empty] at within
      exact ⟨_, View.read_cut bytes within⟩
  · intro beyond inside
    by_cases empty : n = 0
    · rw [if_pos empty] at beyond
      exact Nat.not_lt_zero _ beyond
    · rw [if_neg empty] at beyond
      obtain ⟨offset, outside⟩ := View.read_cut_outside bytes (Nat.pos_of_ne_zero empty) beyond
      exact inside offset outside

theorem word_extent (ptr : Nat) {n : Nat} (some : n ≠ 0) :
    Extent (fun v => (v.read ptr n : Except (Stop ε) (Nat → BitVec 8))) (ptr + n) :=
  (read_extent ptr n).congr (if_neg some)

end Reading

end Library
