import HCraft.Util.Binary
import Mathlib.Logic.Function.Iterate

/-!
This module contains the workers of the server and the distribution of connections among them.
-/

namespace HCraft

namespace Server

structure Worker where
  evs : Int -- number of events
  deriving DecidableEq, Repr

def Worker.incr (w : Worker) : Worker :=
  { w with evs := Bin.wrap32 (w.evs + 1) }

/--
The loop of `min_worker`: `workers` are the ones from number `i` on, and `min` is the number and the
worker that `min` points to.
-/
def minFrom (workers : List Worker) (i : Nat) (min : Option (Nat × Worker))
    : Option (Nat × Worker) :=
  match workers with
  | [] => min
  | w :: workers =>
    match min with
    | none => minFrom workers (i + 1) (some (i, w))
    | some (j, v) => minFrom workers (i + 1) (if w.evs > v.evs then some (i, w) else some (j, v))

/--
The number of the worker that is returned, and the workers after that.
-/
def minWorker (workers : List Worker) : Option Nat × List Worker :=
  match minFrom workers 0 none with
  | none => (none, workers)
  | some (j, _) => (some j, workers.modify j Worker.incr)

/--
The workers after `k` calls of `min_worker`.
-/
def afterCalls (workers : List Worker) (k : Nat) : List Worker :=
  (fun workers => (minWorker workers).2)^[k] workers

variable {workers front : List Worker} {w v : Worker} {i j : Nat}

theorem minFrom_some (hj : front[j]? = some v) (hmax : ∀ w ∈ front, w.evs ≤ v.evs)
    : ∃ j' v', minFrom workers front.length (some (j, v)) = some (j', v')
        ∧ (front ++ workers)[j']? = some v' ∧ ∀ w ∈ front ++ workers, w.evs ≤ v'.evs := by
  induction workers generalizing front j v with
  | nil =>
    refine ⟨j, v, rfl, ?_, ?_⟩
    . rw [List.append_nil]
      exact hj
    . rw [List.append_nil]
      exact hmax
  | cons w workers ih =>
    have hlen : front.length + 1 = (front ++ [w]).length := by simp
    rw [minFrom, List.append_cons, hlen]
    split
    . next hmore =>
      apply ih
      . simp
      . intro u hu
        cases List.mem_append.mp hu with
        | inl hu => exact le_of_lt (lt_of_le_of_lt (hmax u hu) hmore)
        | inr hu => rw [List.mem_singleton.mp hu]
    . next hless =>
      apply ih
      . rw [List.getElem?_append_left (List.getElem?_eq_some_iff.mp hj).1]
        exact hj
      . intro u hu
        cases List.mem_append.mp hu with
        | inl hu => exact hmax u hu
        | inr hu =>
          rw [List.mem_singleton.mp hu]
          exact not_lt.mp hless

/--
The worker that is returned has the most events, not the least.
-/
theorem minWorker_spec (hne : workers ≠ [])
    : ∃ j v, minWorker workers = (some j, workers.modify j Worker.incr)
        ∧ workers[j]? = some v ∧ ∀ w ∈ workers, w.evs ≤ v.evs := by
  cases workers with
  | nil => exact absurd rfl hne
  | cons w workers =>
    obtain ⟨j, v, hmin, hj, hmax⟩ := @minFrom_some workers [w] w 0 rfl (by simp)
    refine ⟨j, v, ?_, hj, hmax⟩
    have hfrom : minFrom (w :: workers) 0 none = some (j, v) := hmin
    rw [minWorker, hfrom]

@[simp]
theorem length_minWorker (workers : List Worker) : (minWorker workers).2.length = workers.length := by
  unfold minWorker
  split
  . rfl
  . exact List.length_modify ..

theorem length_afterCalls (workers : List Worker) (k : Nat)
    : (afterCalls workers k).length = workers.length := by
  induction k generalizing workers with
  | zero => rfl
  | succ k ih =>
    rw [afterCalls, Function.iterate_succ_apply]
    exact (ih _).trans (length_minWorker workers)

/--
The largest and the smallest count differ by at most one.
-/
def Spread (workers : List Worker) : Prop :=
  ∀ v ∈ workers, ∀ w ∈ workers, v.evs - w.evs ≤ 1

/--
The call of `min_worker` returns a worker with the least events, and leaves the counts spread.
-/
def Balances (workers : List Worker) : Prop :=
  (∃ j v, (minWorker workers).1 = some j ∧ workers[j]? = some v ∧ ∀ w ∈ workers, v.evs ≤ w.evs)
    ∧ Spread (minWorker workers).2

theorem balances_of_length_eq_one (h : workers.length = 1) : Balances workers := by
  obtain ⟨w, rfl⟩ := List.length_eq_one_iff.mp h
  refine ⟨⟨0, w, rfl, rfl, by simp⟩, ?_⟩
  obtain ⟨v, hv⟩ := List.length_eq_one_iff.mp (length_minWorker [w])
  unfold Spread
  rw [hv]
  simp

theorem balances_of_zero (hne : workers ≠ []) (hzero : ∀ w ∈ workers, w.evs = 0)
    : Balances workers := by
  obtain ⟨j, v, hmin, hj, _⟩ := minWorker_spec hne
  have hv : v ∈ workers := List.mem_of_getElem? hj
  unfold Balances
  rw [hmin]
  refine ⟨⟨j, v, rfl, hj, ?_⟩, ?_⟩
  . intro w hw
    rw [hzero v hv, hzero w hw]
  . have hevs : ∀ u ∈ workers.modify j Worker.incr, u.evs = 0 ∨ u.evs = 1 := by
      intro u hu
      obtain ⟨i, hi⟩ := List.mem_iff_getElem?.mp hu
      rw [List.getElem?_modify] at hi
      obtain ⟨w, hw, rfl⟩ := Option.map_eq_some_iff.mp hi
      have hw := hzero w (List.mem_of_getElem? hw)
      split
      . exact .inr (by simp [Worker.incr, hw, Bin.wrap32])
      . exact .inl hw
    intro u hu u' hu'
    have := hevs u hu
    have := hevs u' hu'
    omega

/--
The second call returns the worker of the first one.
-/
theorem not_balances_afterCalls_one (hlen : 2 ≤ workers.length) (hzero : ∀ w ∈ workers, w.evs = 0)
    : ¬ Balances (afterCalls workers 1) := by
  have hne : workers ≠ [] := by
    rintro rfl
    simp at hlen
  obtain ⟨j, v, hmin, hj, _⟩ := minWorker_spec hne
  have hafter : afterCalls workers 1 = workers.modify j Worker.incr := by
    rw [afterCalls, Function.iterate_one, hmin]
  rw [hafter]
  rintro ⟨⟨j₂, v₂, hmin₂, hj₂, hleast⟩, _⟩
  have hne₂ : workers.modify j Worker.incr ≠ [] := by
    rw [← List.length_pos_iff, List.length_modify]
    omega
  obtain ⟨j₃, v₃, hmin₃, hj₃, hmost⟩ := minWorker_spec hne₂
  have heq : j₃ = j₂ := by
    rw [hmin₃] at hmin₂
    exact Option.some.inj hmin₂
  rw [heq, hj₂] at hj₃
  injection hj₃ with hv
  rw [← hv] at hmost
  -- one worker has an event and another one has none
  have hone : ∃ u ∈ workers.modify j Worker.incr, u.evs = 1 := by
    refine ⟨v.incr, ?_, by simp [Worker.incr, hzero v (List.mem_of_getElem? hj), Bin.wrap32]⟩
    apply List.mem_of_getElem? (i := j)
    simp [hj]
  have hnone : ∃ u ∈ workers.modify j Worker.incr, u.evs = 0 := by
    obtain ⟨i, hi, hij⟩ : ∃ i, i < workers.length ∧ j ≠ i := by
      by_cases h : j = 0
      . exact ⟨1, by omega, by omega⟩
      . exact ⟨0, by omega, h⟩
    refine ⟨workers[i], ?_, hzero _ (List.getElem_mem hi)⟩
    apply List.mem_of_getElem? (i := i)
    rw [List.getElem?_modify_ne _ _ hij]
    exact List.getElem?_eq_getElem hi
  obtain ⟨u, hu, hu1⟩ := hone
  obtain ⟨u', hu', hu0⟩ := hnone
  have := hmost u hu
  have := hleast u' hu'
  omega

/--
All calls balance the workers if there is only one of either.
-/
theorem balances_afterCalls_iff (hne : workers ≠ []) (hzero : ∀ w ∈ workers, w.evs = 0) (k : Nat)
    : (∀ i < k, Balances (afterCalls workers i)) ↔ workers.length = 1 ∨ k ≤ 1 := by
  have hpos := List.length_pos_iff.mpr hne
  constructor
  . intro h
    by_contra hmany
    rw [not_or] at hmany
    exact not_balances_afterCalls_one (by omega) hzero (h 1 (by omega))
  . intro h i hi
    cases h with
    | inl hone =>
      apply balances_of_length_eq_one
      rw [length_afterCalls, hone]
    | inr hk =>
      have hi : i = 0 := by omega
      rw [hi]
      exact balances_of_zero hne hzero

theorem balances_afterCalls_iff_two
    : (∀ i < 7, Balances (afterCalls [⟨0⟩, ⟨0⟩] i)) ↔ [(⟨0⟩ : Worker), ⟨0⟩].length = 1 ∨ 7 ≤ 1 :=
  balances_afterCalls_iff (by simp) (by simp) 7

/--
Of two workers the first one gets both connections.
-/
theorem not_balances_two : ¬ ∀ i < 2, Balances (afterCalls [⟨0⟩, ⟨0⟩] i) := by
  intro h
  have hspread := (h 1 (by omega)).2 ⟨2⟩ (by decide +kernel) ⟨0⟩ (by decide +kernel)
  revert hspread
  decide

end Server

end HCraft
