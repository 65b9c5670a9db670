import HCraft.Util.ThreadPool.Lemmas.Sequential

/-!
This module contains what the workers of the pool and the mutexes of the classes say of each other.
-/

namespace HCraft

open Transition

variable {n : Nat} {σ φ ρ : Type}

/--
Only wrappers come back for the next job.
-/
def Worker.Proper : Worker σ φ ρ → Prop
  | .returned ⟨.plain _, _⟩ => False
  | .requeueing ⟨.plain _, _⟩ _ => False
  | _ => True

namespace ThreadPool

/--
Calls of `enqueue` and `enqueue_seq`, and the steps of the workers.
-/
def Label.Submits : Label n σ φ ρ → Prop
  | .stopJobs _ _ => False
  | .disableSeq _ => False
  | .join => False
  | .stop => False
  | _ => True

/--
A worker that holds the mutex of a class is about to requeue.
-/
structure Sound (pool : ThreadPool n σ φ ρ) : Prop where
  running : pool.running = true
  proper : ∀ w, (pool.workers w).Proper
  mtx : ∀ seq w, (pool.seqs seq).mtx = some (.seqWrapper w)
    → ∃ fn refc next, pool.workers w = .requeueing ⟨.seqWrapper fn seq, refc⟩ next

theorem sound_init : (init : ThreadPool n σ φ ρ).Sound where
  running := rfl
  proper _ := trivial
  mtx := nofun

namespace Sound

variable {pool : ThreadPool n σ φ ρ}

theorem setWorker (h : pool.Sound) {w : Fin n} {s : Worker σ φ ρ} (hs : s.Proper)
    (hmtx : ∀ seq, (pool.seqs seq).mtx ≠ some (.seqWrapper w)) : (pool.setWorker w s).Sound where
  running := h.running
  proper := by
    intro w'
    rw [setWorker_workers]
    by_cases hw : w' = w
    . rw [hw, Function.update_self]
      exact hs
    . rw [Function.update_of_ne hw]
      exact h.proper w'
  mtx := by
    intro seq w' hheld
    rw [setWorker_workers]
    by_cases hw : w' = w
    . rw [hw] at hheld
      exact absurd hheld (hmtx seq)
    . rw [Function.update_of_ne hw]
      exact h.mtx seq w' hheld

theorem not_holder (h : pool.Sound) {w : Fin n} (hw : ∀ j next, pool.workers w ≠ .requeueing j next)
    (seq : σ) : (pool.seqs seq).mtx ≠ some (.seqWrapper w) := by
  intro hheld
  obtain ⟨fn, refc, next, hw'⟩ := h.mtx seq w hheld
  exact hw _ _ hw'

section Classes

variable [DecidableEq σ]

theorem setSeq (h : pool.Sound) {s : σ} {cls : SeqClass n φ ρ}
    (hmtx : ∀ w, cls.mtx = some (.seqWrapper w) → (pool.seqs s).mtx = some (.seqWrapper w))
    : (pool.setSeq s cls).Sound where
  running := h.running
  proper := h.proper
  mtx := by
    intro seq w hheld
    rw [setSeq_seqs] at hheld
    by_cases hs : seq = s
    . rw [hs, Function.update_self] at hheld
      rw [hs]
      exact h.mtx s w (hmtx w hheld)
    . rw [Function.update_of_ne hs] at hheld
      exact h.mtx seq w hheld

theorem lock (h : pool.Sound) {s : σ} {cls : SeqClass n φ ρ} {w : Fin n} {fn : φ}
    {refc : Option ρ} {next : Job φ ρ} (hmtx : cls.mtx = some (.seqWrapper w))
    (hw : ∀ j next, pool.workers w ≠ .requeueing j next)
    : ((pool.setSeq s cls).setWorker w (.requeueing ⟨.seqWrapper fn s, refc⟩ next)).Sound where
  running := h.running
  proper := by
    intro w'
    rw [setWorker_workers]
    by_cases hw' : w' = w
    . rw [hw', Function.update_self]
      trivial
    . rw [Function.update_of_ne hw']
      exact h.proper w'
  mtx := by
    intro seq w' hheld
    rw [setWorker_seqs, setSeq_seqs] at hheld
    rw [setWorker_workers]
    by_cases hs : seq = s
    . rw [hs, Function.update_self, hmtx] at hheld
      injection hheld with hheld
      injection hheld with hheld
      rw [← hheld, Function.update_self, hs]
      exact ⟨fn, refc, next, rfl⟩
    . rw [Function.update_of_ne hs] at hheld
      obtain ⟨fn', refc', next', heq⟩ := h.mtx seq w' hheld
      have hne : w' ≠ w := by
        intro hww
        rw [hww] at heq
        exact hw _ _ heq
      rw [Function.update_of_ne hne]
      exact ⟨fn', refc', next', heq⟩

theorem unlock (h : pool.Sound) {s : σ} {cls : SeqClass n φ ρ} {w : Fin n} {fn : φ}
    {refc : Option ρ} {next : Job φ ρ} (hmtx : cls.mtx = none)
    (hw : pool.workers w = .requeueing ⟨.seqWrapper fn s, refc⟩ next)
    : ((pool.setSeq s cls).setWorker w (.leaving ⟨.seqWrapper fn s, refc⟩)).Sound := by
  have hset : (pool.setSeq s cls).Sound := by
    apply h.setSeq
    intro w' hheld
    rw [hmtx] at hheld
    cases hheld
  apply hset.setWorker (by trivial)
  intro seq hheld
  rw [setSeq_seqs] at hheld
  by_cases hs : seq = s
  . rw [hs, Function.update_self, hmtx] at hheld
    cases hheld
  . rw [Function.update_of_ne hs] at hheld
    obtain ⟨fn', refc', next', heq⟩ := h.mtx seq w hheld
    rw [hw] at heq
    injection heq with heq
    injection heq with heq
    injection heq with _ heq
    exact hs heq.symm

end Classes

section Counters

variable [DecidableEq ρ]

theorem addRef (h : pool.Sound) (refc : Option ρ) (d : Int) : (pool.addRef refc d).Sound where
  running := by
    cases refc with
    | none => exact h.running
    | some r => exact h.running
  proper := by
    rw [addRef_workers]
    exact h.proper
  mtx := by
    rw [addRef_workers, addRef_seqs]
    exact h.mtx

theorem enqueue (h : pool.Sound) (task : Task σ φ) (refc : Option ρ)
    : (pool.enqueue task refc).2.Sound := by
  unfold ThreadPool.enqueue
  split
  . exact h
  . have hpool : ({ pool with jobs := pool.jobs ++ [⟨task, refc⟩] } : ThreadPool n σ φ ρ).Sound :=
      ⟨h.running, h.proper, h.mtx⟩
    exact hpool.addRef refc 1

theorem step [DecidableEq σ] {pool' : ThreadPool n σ φ ρ} {l : Label n σ φ ρ} (h : pool.Sound)
    (hl : l.Submits ∨ l = .join) (hstep : pool.step l = some pool') : pool'.Sound := by
  cases step_moves hstep with
  | enqueue fn refc => exact h.enqueue _ _
  | enqueueSeq s fn refc hmtx =>
    apply h.setSeq
    intro w hheld
    unfold SeqClass.enqueueSeq at hheld
    split at hheld
    . exact hheld
    . split at hheld
      . injection hheld with hheld
        cases hheld
      . exact hheld
  | enqueueSeqPush s job hmtx =>
    apply (h.enqueue _ _).setSeq
    intro w hheld
    cases hheld
  | stopJobs s cb hmtx =>
    cases hl with
    | inl hl => exact absurd hl id
    | inr hl => cases hl
  | disableSeq s hmtx =>
    cases hl with
    | inl hl => exact absurd hl id
    | inr hl => cases hl
  | join => exact ⟨h.running, h.proper, h.mtx⟩
  | stop =>
    cases hl with
    | inl hl => exact absurd hl id
    | inr hl => cases hl
  | pop w j jobs hw _ hjobs =>
    have hpool : ({ pool with jobs := jobs } : ThreadPool n σ φ ρ).Sound :=
      ⟨h.running, h.proper, h.mtx⟩
    exact hpool.setWorker (by trivial) (h.not_holder (by simp [hw]))
  | callPlain w fn refc hw => exact h.setWorker (by trivial) (h.not_holder (by simp [hw]))
  | callSeq w fn s refc hw =>
    apply (h.setSeq (fun _ hheld => by exact hheld)).setWorker (by trivial)
    apply not_holder (h.setSeq (fun _ hheld => by exact hheld))
    simp [hw]
  | returnPlain w fn refc hw => exact h.setWorker (by trivial) (h.not_holder (by simp [hw]))
  | returnSeq w fn s refc hw => exact h.setWorker (by trivial) (h.not_holder (by simp [hw]))
  | release w fn s refc hw hmtx hjobs =>
    apply (h.setSeq (fun _ hheld => by exact hheld)).setWorker (by trivial)
    apply not_holder (h.setSeq (fun _ hheld => by exact hheld))
    simp [hw]
  | next w fn s refc next jobs hw hmtx hjobs => exact h.lock rfl (by simp [hw])
  | requeue w fn s refc next hw => exact (h.enqueue _ _).unlock rfl (by rw [enqueue_workers, hw])
  | leave w j hw =>
    apply (h.addRef _ _).setWorker (by trivial)
    rw [addRef_seqs]
    exact h.not_holder (by simp [hw])

end Counters

end Sound

end ThreadPool

end HCraft
