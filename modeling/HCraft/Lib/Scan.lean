import Mathlib.Data.List.Basic

/-!
This module contains automata that reject a text, or get through it.
-/

universe u v

namespace Scan

variable {σ : Type u} {α : Type v} (step : σ → α → Option σ)

/--
The state behind the text, if the automaton gets that far.
-/
def scan (s : σ) (text : List α) : Option σ :=
  text.foldlM step s

variable {step} {s : σ} {text text' : List α}

theorem scan_cons (a : α) : scan step s (a :: text) = step s a >>= fun s => scan step s text :=
  List.foldlM_cons

theorem scan_append
    : scan step s (text ++ text') = scan step s text >>= fun s => scan step s text' :=
  List.foldlM_append

/--
It is in the same state again, or rejects the text.
-/
def Decides (step : σ → α → Option σ) (s : σ) (text : List α) (p : Prop) : Prop :=
  (p → scan step s text = some s) ∧ (¬ p → scan step s text = none)

theorem Decides.iff {p q : Prop} (h : Decides step s text p) (hpq : p ↔ q)
    : Decides step s text q := by
  rw [← propext hpq]
  exact h

theorem decides_true (h : scan step s text = some s) : Decides step s text True :=
  ⟨fun _ => h, fun hnot => absurd trivial hnot⟩

theorem Decides.append {p q : Prop} (h : Decides step s text p) (h' : Decides step s text' q)
    : Decides step s (text ++ text') (p ∧ q) := by
  constructor
  . rintro ⟨hp, hq⟩
    rw [scan_append, h.1 hp]
    exact h'.1 hq
  . intro hnot
    rw [scan_append]
    by_cases hp : p
    . rw [h.1 hp]
      exact h'.2 (fun hq => hnot ⟨hp, hq⟩)
    . rw [h.2 hp]
      rfl

theorem scan_of_forall (h : ∀ a ∈ text, step s a = some s) : scan step s text = some s := by
  induction text with
  | nil => rfl
  | cons a text ih =>
    rw [scan_cons, h a List.mem_cons_self]
    exact ih (fun a ha => h a (List.mem_cons_of_mem _ ha))

theorem scan_flatMap {β : Type v} {f : β → List α} {xs : List β}
    (h : ∀ x ∈ xs, scan step s (f x) = some s) : scan step s (xs.flatMap f) = some s := by
  induction xs with
  | nil => rfl
  | cons x xs ih =>
    rw [List.flatMap_cons, scan_append, h x List.mem_cons_self]
    exact ih (fun x hx => h x (List.mem_cons_of_mem _ hx))

theorem decides_flatMap {β : Type v} {f : β → List α} {p : β → Prop}
    (h : ∀ x, Decides step s (f x) (p x)) (xs : List β)
    : Decides step s (xs.flatMap f) (∀ x ∈ xs, p x) := by
  induction xs with
  | nil =>
    constructor
    . intro _
      rfl
    . intro hnot
      exact absurd (fun x hx => absurd hx List.not_mem_nil) hnot
  | cons x xs ih =>
    rw [List.flatMap_cons]
    exact ((h x).append ih).iff List.forall_mem_cons.symm

end Scan
