import Mathlib.Data.List.FinRange
import Mathlib.Data.List.Induction
import Mathlib.Logic.Function.Basic

/-!
This module contains loops over arrays whose iterations own disjoint cells, and loops in which every
iteration sees to something that the others leave alone.
-/

universe u v w

namespace Loop

variable {ι : Type u} {κ : Type v} {α : Type w} [DecidableEq ι] {body : (κ → α) → ι → κ → α}
variable {owner : κ → ι} {f : κ → α → α}

theorem foldl_apply (hbody : ∀ s i k, body s i k = if owner k = i then f k (s k) else s k)
    {is : List ι} (his : is.Nodup) (s : κ → α) (k : κ)
    : is.foldl body s k = if owner k ∈ is then f k (s k) else s k := by
  induction is generalizing s with
  | nil => simp
  | cons i is ih =>
    rw [List.nodup_cons] at his
    rw [List.foldl_cons, ih his.right, hbody]
    by_cases hi : owner k = i
    . have hnot : owner k ∉ is := hi ▸ his.left
      simp [hi, his.left]
    . simp [hi]

theorem foldl_finRange {n : Nat} {body : (κ → α) → Fin n → κ → α} (f : κ → α → α)
    (owner : κ → Fin n)
    (hbody : ∀ s i k, body s i k = if owner k = i then f k (s k) else s k) (s : κ → α)
    : (List.finRange n).foldl body s = fun k => f k (s k) := by
  funext k
  rw [foldl_apply hbody (List.nodup_finRange n), if_pos (List.mem_finRange _)]

section Established

variable {S : Type v} {g : S → ι → S} {I : S → Prop} {Q : ι → S → Prop}

omit [DecidableEq ι] in
/--
What each iteration brings about and no other one undoes holds for all of them in the end.
-/
theorem foldl_established (hI : ∀ s i, I s → I (g s i)) (hset : ∀ s i, I s → Q i (g s i))
    (hkeep : ∀ s i j, I s → Q j s → Q j (g s i)) {s : S} (hs : I s) (is : List ι)
    : I (is.foldl g s) ∧ ∀ i ∈ is, Q i (is.foldl g s) := by
  induction is using List.reverseRecOn with
  | nil => exact ⟨hs, nofun⟩
  | append_singleton is i ih =>
    obtain ⟨hinv, hdone⟩ := ih
    rw [List.foldl_append, List.foldl_cons, List.foldl_nil]
    refine ⟨hI _ i hinv, fun j hj => ?_⟩
    cases List.mem_append.mp hj with
    | inl hj => exact hkeep _ i j hinv (hdone j hj)
    | inr hj =>
      rw [List.mem_singleton.mp hj]
      exact hset _ i hinv

end Established

end Loop
