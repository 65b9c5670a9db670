import Mathlib.Data.List.Sort

/-!
This module contains sorting by a comparison that the caller gives, the way the standard library of C++
offers it: what the comparison has to be, and what is known about the outcome. Elements that are
equivalent may come in any order.
-/

universe u

/--
A strict weak ordering.
-/
structure WeakOrder {α : Type u} (lt : α → α → Bool) : Prop where
  asymm : ∀ a b, lt a b = true → lt b a = false
  trans_not : ∀ a b c, lt a b = false → lt b c = false → lt a c = false

theorem WeakOrder.of_key {α : Type u} (key : α → Int)
    : WeakOrder (fun a b => decide (key a < key b)) where
  asymm := by
    intro a b h
    simp only [decide_eq_true_eq, decide_eq_false_iff_not] at h ⊢
    omega
  trans_not := by
    intro a b c hab hbc
    simp only [decide_eq_false_iff_not] at hab hbc ⊢
    omega

structure StdSort (α : Type u) where
  sort : (α → α → Bool) → List α → List α
  perm : ∀ {lt}, WeakOrder lt → ∀ l, (sort lt l).Perm l
  sorted : ∀ {lt}, WeakOrder lt → ∀ l, (sort lt l).Pairwise (fun a b => lt b a = false)

namespace StdSort

variable {α : Type u}

def insertion : StdSort α where
  sort lt := List.insertionSort (fun a b => lt b a = false)
  perm := fun _ l => List.perm_insertionSort _ l
  sorted := by
    intro lt h l
    have : Std.Total (fun a b => lt b a = false) := by
      constructor
      intro a b
      cases hab : lt b a with
      | false => exact .inl rfl
      | true => exact .inr (h.asymm b a hab)
    have : IsTrans α (fun a b => lt b a = false) :=
      ⟨fun a b c hab hbc => h.trans_not c b a hbc hab⟩
    exact List.pairwise_insertionSort _ l

variable (s : StdSort α) {lt : α → α → Bool}

theorem mem_sort (h : WeakOrder lt) {l : List α} {a : α} : a ∈ s.sort lt l ↔ a ∈ l :=
  (s.perm h l).mem_iff

theorem nodup_sort (h : WeakOrder lt) {l : List α} : (s.sort lt l).Nodup ↔ l.Nodup :=
  (s.perm h l).nodup_iff

end StdSort
