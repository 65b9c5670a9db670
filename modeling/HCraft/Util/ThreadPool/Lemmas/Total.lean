import Mathlib.Algebra.BigOperators.Fin
import Mathlib.Algebra.Order.BigOperators.Group.Finset
import Mathlib.Algebra.Order.BigOperators.Group.List
import HCraft.Util.ThreadPool.Lemmas.Sound

/-!
This module contains how to add up what the queue of the pool and its workers hold.
-/

namespace HCraft

variable {n : Nat} {σ φ ρ : Type}

theorem sum_update_add (f : Fin n → Nat) (w : Fin n) (b : Nat)
    : Finset.univ.sum (Function.update f w b) + f w = ∑ w', f w' + b := by
  have hrest := Finset.add_sum_erase Finset.univ f (Finset.mem_univ w)
  rw [Finset.sum_update_of_mem (Finset.mem_univ w), ← hrest, Finset.sdiff_singleton_eq_erase]
  omega

namespace ThreadPool

variable (f : PoolJob σ φ ρ → Nat) (g : Worker σ φ ρ → Nat)

def total (pool : ThreadPool n σ φ ρ) : Nat :=
  (pool.jobs.map f).sum + ∑ w, g (pool.workers w)

variable {f g} {pool : ThreadPool n σ φ ρ}

theorem total_setWorker (w : Fin n) (s : Worker σ φ ρ)
    : (pool.setWorker w s).total f g + g (pool.workers w) = pool.total f g + g s := by
  have hupdate : (fun w' => g ((pool.setWorker w s).workers w'))
      = Function.update (fun w' => g (pool.workers w')) w (g s) := by
    funext w'
    rw [setWorker_workers]
    by_cases hw : w' = w
    . rw [hw, Function.update_self, Function.update_self]
    . rw [Function.update_of_ne hw, Function.update_of_ne hw]
  have hsum := sum_update_add (fun w' => g (pool.workers w')) w (g s)
  unfold total
  rw [hupdate, setWorker_jobs]
  omega

theorem total_setWorker_of_eq {w : Fin n} {s : Worker σ φ ρ} (h : g s = g (pool.workers w))
    : (pool.setWorker w s).total f g = pool.total f g := by
  have := @total_setWorker n σ φ ρ f g pool w s
  omega

theorem total_setSeq [DecidableEq σ] (seq : σ) (cls : SeqClass n φ ρ)
    : (pool.setSeq seq cls).total f g = pool.total f g := rfl

theorem total_pop {j : PoolJob σ φ ρ} {jobs : List (PoolJob σ φ ρ)} (hjobs : pool.jobs = j :: jobs)
    (w : Fin n)
    : (({ pool with jobs := jobs } : ThreadPool n σ φ ρ).setWorker w (.popped j)).total f g
        + f j + g (pool.workers w)
        =
      pool.total f g + g (.popped j) := by
  have hsum := @total_setWorker n σ φ ρ f g { pool with jobs := jobs } w (.popped j)
  unfold total at hsum ⊢
  rw [hjobs, List.map_cons, List.sum_cons]
  dsimp only at hsum ⊢
  omega

section Counters

variable [DecidableEq ρ]

theorem total_addRef (refc : Option ρ) (d : Int)
    : (pool.addRef refc d).total f g = pool.total f g := by
  unfold total
  rw [addRef_jobs, addRef_workers]

theorem total_enqueue (task : Task σ φ) (refc : Option ρ)
    : (pool.enqueue task refc).2.total f g
        =
      pool.total f g + if pool.accepting then f ⟨task, refc⟩ else 0 := by
  unfold ThreadPool.enqueue
  cases pool.accepting with
  | false => rfl
  | true =>
    rw [if_neg (by decide), if_pos rfl]
    dsimp only
    rw [total_addRef]
    unfold total
    simp only [List.map_append, List.map_cons, List.map_nil, List.sum_append, List.sum_cons,
      List.sum_nil]
    omega

end Counters

theorem le_total_of_mem {j : PoolJob σ φ ρ} (h : j ∈ pool.jobs) : f j ≤ pool.total f g := by
  have hle := List.single_le_sum (fun _ _ => Nat.zero_le _) _ (List.mem_map_of_mem (f := f) h)
  unfold total
  omega

theorem le_total_of_worker (w : Fin n) : g (pool.workers w) ≤ pool.total f g := by
  have hle := Finset.single_le_sum (f := fun w => g (pool.workers w)) (fun _ _ => Nat.zero_le _)
    (Finset.mem_univ w)
  unfold total
  omega

theorem total_eq_zero (hjobs : ∀ j ∈ pool.jobs, f j = 0) (hworkers : ∀ w, g (pool.workers w) = 0)
    : pool.total f g = 0 := by
  have hsum : (pool.jobs.map f).sum = 0 := by
    rw [List.sum_eq_zero_iff]
    intro x hx
    obtain ⟨j, hj, hweight⟩ := List.mem_map.mp hx
    rw [← hweight, hjobs j hj]
  have hrest : ∑ w, g (pool.workers w) = 0 := Finset.sum_eq_zero (fun w _ => hworkers w)
  unfold total
  omega

end ThreadPool

end HCraft
