import HCraft.Lib.Slice
import Mathlib.Data.Set.Insert
import Mathlib.Logic.Function.Basic

/-!
This module contains stores that keep the values of their keys in extents of a list: ranges of whole
sectors that do not overlap.
-/

universe u v

@[ext]
structure Extent where
  loc : Nat
  size : Nat
  deriving DecidableEq, Repr

namespace Extent

def stop (e : Extent) : Nat :=
  e.loc + e.size

def Separate (e e' : Extent) : Prop :=
  e.stop ≤ e'.loc ∨ e'.stop ≤ e.loc

theorem Separate.symm {e e' : Extent} (h : e.Separate e') : e'.Separate e :=
  Or.symm h

end Extent

namespace Extents

open Slice

variable {α : Type u} {ι : Type v}

/--
In `data` the keys of `S` have the values `c`, in the extents of the layout `l`. A sector has `u`
elements, and the sectors before `first` are not given out.
-/
structure Stored (u first : Nat) (data : List α) (l : ι → Option Extent) (S : Set ι)
    (c : ι → List α) : Prop where
  aligned : u ∣ data.length
  inside : ∀ i ∈ S, ∀ e, l i = some e → first ≤ e.loc ∧ 1 ≤ e.size ∧ u * e.stop ≤ data.length
  separate : ∀ i ∈ S, ∀ j ∈ S, i ≠ j → ∀ e e', l i = some e → l j = some e' → e.Separate e'
  holds : ∀ i ∈ S, ∀ e, l i = some e → slice data (u * e.loc) (u * e.size) = c i

variable {u first : Nat} {data : List α} {l : ι → Option Extent} {S : Set ι} {c : ι → List α}

namespace Stored

theorem of_none (haligned : u ∣ data.length) : Stored u first data (fun _ => none) S c where
  aligned := haligned
  inside := by
    intro _ _ _ h
    contradiction
  separate := by
    intro _ _ _ _ _ _ _ h
    contradiction
  holds := by
    intro _ _ _ h
    contradiction

theorem mono (h : Stored u first data l S c) {S' : Set ι} (hS : S' ⊆ S)
    : Stored u first data l S' c where
  aligned := h.aligned
  inside := fun i hi => h.inside i (hS hi)
  separate := fun i hi j hj => h.separate i (hS hi) j (hS hj)
  holds := fun i hi => h.holds i (hS hi)

theorem patch_front (h : Stored u first data l S c) (fill : α) {pos : Nat} {ys : List α}
    (hpos : pos + ys.length ≤ u * first) (hlen : pos + ys.length ≤ data.length)
    : Stored u first (patch fill data pos ys) l S c := by
  have hlength : (patch fill data pos ys).length = data.length := by
    rw [length_patch (by omega)]
    omega
  constructor
  . rw [hlength]
    exact h.aligned
  . rw [hlength]
    exact h.inside
  . exact h.separate
  . intro i hi e he
    have hloc := Nat.mul_le_mul_left u (h.inside i hi e he).1
    rw [slice_patch_of_after (by omega) (by omega)]
    exact h.holds i hi e he

variable [DecidableEq ι]

/--
Writing the value of a key over an extent which is free, or the key's own.
-/
theorem write (h : Stored u first data l S c) (fill : α) {i : ι} {e : Extent} {ys : List α}
    (hlen : ys.length = u * e.size) (hfirst : first ≤ e.loc) (hsize : 1 ≤ e.size)
    (hloc : u * e.loc ≤ data.length)
    (hfree : ∀ j ∈ S, j ≠ i → ∀ e', l j = some e' → e.Separate e')
    : Stored u first (patch fill data (u * e.loc) ys) (Function.update l i (some e)) (insert i S)
        (Function.update c i ys) := by
  have hstop : u * e.stop = u * e.loc + u * e.size := Nat.mul_add u e.loc e.size
  have hmem : ∀ j ∈ insert i S, j ≠ i → j ∈ S := by
    intro j hj hne
    cases hj with
    | inl heq => contradiction
    | inr hj => exact hj
  have hsep : ∀ j ∈ insert i S, j ≠ i → ∀ e', l j = some e' → e.Separate e' :=
    fun j hj hne => hfree j (hmem j hj hne) hne
  constructor
  . rw [length_patch hloc, hlen, ← hstop]
    rcases Nat.le_total data.length (u * e.stop) with hle | hle
    . rw [Nat.max_eq_right hle]
      apply Nat.dvd_mul_right
    . rw [Nat.max_eq_left hle]
      exact h.aligned
  . intro j hj e' he'
    rw [length_patch hloc, hlen, ← hstop]
    by_cases hji : j = i
    . rw [hji, Function.update_self] at he'
      injection he' with he'
      rw [← he']
      refine ⟨hfirst, hsize, ?_⟩
      apply Nat.le_max_right
    . rw [Function.update_of_ne hji] at he'
      obtain ⟨hfirst', hsize', hin⟩ := h.inside j (hmem j hj hji) e' he'
      refine ⟨hfirst', hsize', ?_⟩
      omega
  . intro j hj k hk hjk e₁ e₂ h₁ h₂
    by_cases hji : j = i
    . have hki : k ≠ i := fun heq => hjk (hji.trans heq.symm)
      rw [hji, Function.update_self] at h₁
      rw [Function.update_of_ne hki] at h₂
      injection h₁ with h₁
      rw [← h₁]
      exact hsep k hk hki e₂ h₂
    . rw [Function.update_of_ne hji] at h₁
      by_cases hki : k = i
      . rw [hki, Function.update_self] at h₂
        injection h₂ with h₂
        rw [← h₂]
        exact (hsep j hj hji e₁ h₁).symm
      . rw [Function.update_of_ne hki] at h₂
        exact h.separate j (hmem j hj hji) k (hmem k hk hki) hjk e₁ e₂ h₁ h₂
  . intro j hj e' he'
    by_cases hji : j = i
    . rw [hji, Function.update_self] at he' ⊢
      injection he' with he'
      rw [← he', ← hlen]
      exact slice_patch hloc
    . rw [Function.update_of_ne hji] at he' ⊢
      rw [← h.holds j (hmem j hj hji) e' he']
      have hstop' : u * e'.stop = u * e'.loc + u * e'.size := Nat.mul_add u e'.loc e'.size
      cases hsep j hj hji e' he' with
      | inl hafter =>
        have := Nat.mul_le_mul_left u hafter
        apply slice_patch_of_after hloc
        omega
      | inr hbefore =>
        have := Nat.mul_le_mul_left u hbefore
        apply slice_patch_of_before hloc
        omega

theorem append (h : Stored u first data l S c) (hu : 0 < u) (hfirst : u * first ≤ data.length)
    (i : ι) {size : Nat} {ys : List α} (hlen : ys.length = u * size) (hsize : 1 ≤ size)
    : Stored u first (data ++ ys) (Function.update l i (some ⟨data.length / u, size⟩)) (insert i S)
        (Function.update c i ys) := by
  cases ys with
  | nil =>
    have := Nat.mul_pos hu hsize
    rw [← hlen] at this
    contradiction
  | cons y ys =>
    have hend : u * (data.length / u) = data.length := Nat.mul_div_cancel' h.aligned
    have hle : first ≤ data.length / u := by
      rw [Nat.le_div_iff_mul_le hu, Nat.mul_comm]
      exact hfirst
    have hfree : ∀ j ∈ S, j ≠ i → ∀ e', l j = some e' →
        (⟨data.length / u, size⟩ : Extent).Separate e' := by
      intro j hj _ e' he'
      right
      rw [Nat.le_div_iff_mul_le hu, Nat.mul_comm]
      exact (h.inside j hj e' he').2.2
    have hwrite := h.write y hlen hle hsize (by dsimp only; omega) hfree
    dsimp only at hwrite
    rw [hend, patch_length] at hwrite
    exact hwrite

end Stored

end Extents
