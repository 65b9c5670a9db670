import Mathlib.Logic.Function.Basic

/-!
This module contains a heap of objects that are allocated, changed and deleted. The pointers it hands
out are never reused, so a pointer to a deleted object stays one.
-/

universe u

structure Heap (α : Type u) where
  cells : Nat → Option α
  next : Nat
  fresh : ∀ p, next ≤ p → cells p = none

namespace Heap

variable {α : Type u}

def empty : Heap α :=
  { cells := fun _ => none, next := 0, fresh := fun _ _ => rfl }

/--
The object `p` points to, if it has not been deleted.
-/
def get (h : Heap α) (p : Nat) : Option α :=
  h.cells p

def Alive (h : Heap α) (p : Nat) : Prop :=
  ∃ a, h.get p = some a

/--
Allocates an object at `h.next`.
-/
def alloc (h : Heap α) (a : α) : Heap α where
  cells := Function.update h.cells h.next (some a)
  next := h.next + 1
  fresh := by
    intro p hp
    rw [Function.update_of_ne (by omega)]
    exact h.fresh p (by omega)

def modify (h : Heap α) (p : Nat) (f : α → α) : Heap α where
  cells := Function.update h.cells p ((h.cells p).map f)
  next := h.next
  fresh := by
    intro q hq
    by_cases hqp : q = p
    . rw [hqp, Function.update_self, ← hqp, h.fresh q hq]
      rfl
    . rw [Function.update_of_ne hqp]
      exact h.fresh q hq

def free (h : Heap α) (p : Nat) : Heap α where
  cells := Function.update h.cells p none
  next := h.next
  fresh := by
    intro q hq
    by_cases hqp : q = p
    . rw [hqp, Function.update_self]
    . rw [Function.update_of_ne hqp]
      exact h.fresh q hq

variable {h : Heap α} {p q : Nat} {a : α} {f : α → α}

theorem lt_next (hp : h.get p = some a) : p < h.next := by
  apply Nat.lt_of_not_le
  intro hle
  have hnone : h.get p = none := h.fresh p hle
  rw [hnone] at hp
  injection hp

theorem get_next : h.get h.next = none :=
  h.fresh h.next (Nat.le_refl _)

@[simp]
theorem get_alloc_next : (h.alloc a).get h.next = some a := by
  simp [get, alloc]

theorem get_alloc_of_ne (hp : p ≠ h.next) : (h.alloc a).get p = h.get p := by
  simp [get, alloc, hp]

theorem get_alloc_of_some {b : α} (hp : h.get p = some b) : (h.alloc a).get p = some b := by
  rw [get_alloc_of_ne (Nat.ne_of_lt (lt_next hp)), hp]

theorem get_modify : (h.modify p f).get q = if q = p then (h.get q).map f else h.get q := by
  by_cases hqp : q = p
  . simp [get, modify, hqp]
  . simp [get, modify, hqp]

@[simp]
theorem get_modify_self : (h.modify p f).get p = (h.get p).map f := by
  simp [get_modify]

@[simp]
theorem next_modify : (h.modify p f).next = h.next := rfl

@[simp]
theorem get_free_self : (h.free p).get p = none := by
  simp [get, free]

theorem get_free_of_ne (hqp : q ≠ p) : (h.free p).get q = h.get q := by
  simp [get, free, hqp]

end Heap
