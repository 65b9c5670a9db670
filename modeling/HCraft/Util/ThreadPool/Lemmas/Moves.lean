import HCraft.Util.ThreadPool.Impl

/-!
This module contains what each step of the pool finds and what it leaves behind.
-/

namespace HCraft

namespace ThreadPool

variable {n : Nat} {σ φ ρ : Type} [DecidableEq σ] [DecidableEq ρ]

inductive Moves (pool : ThreadPool n σ φ ρ) : Label n σ φ ρ → ThreadPool n σ φ ρ → Prop where
  | enqueue (fn : φ) (refc : Option ρ)
    : Moves pool (.enqueue fn refc) (pool.enqueue (.plain fn) refc).2
  | enqueueSeq (s : σ) (fn : φ) (refc : Option ρ) (hmtx : (pool.seqs s).mtx = none)
    : Moves pool (.enqueueSeq s fn refc) (pool.setSeq s ((pool.seqs s).enqueueSeq ⟨fn, refc⟩))
  | enqueueSeqPush (s : σ) (job : Job φ ρ) (hmtx : (pool.seqs s).mtx = some (.enqueueSeq job))
    : Moves pool (.enqueueSeqPush s)
        ((pool.enqueue (.seqWrapper job.fn s) job.refc).2.setSeq s
          ((pool.seqs s).enqueued job (pool.enqueue (.seqWrapper job.fn s) job.refc).1))
  | stopJobs (s : σ) (cb : φ → Bool) (hmtx : (pool.seqs s).mtx = none)
    : Moves pool (.stopJobs s cb) (pool.setSeq s ((pool.seqs s).stopJobs cb))
  | disableSeq (s : σ) (hmtx : (pool.seqs s).mtx = none)
    : Moves pool (.disableSeq s) (pool.setSeq s (pool.seqs s).disableSeq)
  | join : Moves pool .join { pool with accepting := false }
  | stop : Moves pool .stop { pool with running := false }
  | pop (w : Fin n) (j : PoolJob σ φ ρ) (jobs : List (PoolJob σ φ ρ))
    (hw : pool.workers w = .waiting) (hrunning : pool.running = true) (hjobs : pool.jobs = j :: jobs)
    : Moves pool (.pop w) (({ pool with jobs := jobs } : ThreadPool n σ φ ρ).setWorker w (.popped j))
  | callPlain (w : Fin n) (fn : φ) (refc : Option ρ)
    (hw : pool.workers w = .popped ⟨.plain fn, refc⟩)
    : Moves pool (.call w) (pool.setWorker w (.running ⟨.plain fn, refc⟩))
  | callSeq (w : Fin n) (fn : φ) (s : σ) (refc : Option ρ)
    (hw : pool.workers w = .popped ⟨.seqWrapper fn s, refc⟩)
    : Moves pool (.call w)
        ((pool.setSeq s { pool.seqs s with started := (pool.seqs s).started ++ [⟨fn, refc⟩] })
          |>.setWorker w (.running ⟨.seqWrapper fn s, refc⟩))
  | returnPlain (w : Fin n) (fn : φ) (refc : Option ρ)
    (hw : pool.workers w = .running ⟨.plain fn, refc⟩)
    : Moves pool (.return w) (pool.setWorker w (.leaving ⟨.plain fn, refc⟩))
  | returnSeq (w : Fin n) (fn : φ) (s : σ) (refc : Option ρ)
    (hw : pool.workers w = .running ⟨.seqWrapper fn s, refc⟩)
    : Moves pool (.return w) (pool.setWorker w (.returned ⟨.seqWrapper fn s, refc⟩))
  | release (w : Fin n) (fn : φ) (s : σ) (refc : Option ρ)
    (hw : pool.workers w = .returned ⟨.seqWrapper fn s, refc⟩) (hmtx : (pool.seqs s).mtx = none)
    (hjobs : (pool.seqs s).jobs = [])
    : Moves pool (.lockSeq w)
        ((pool.setSeq s { pool.seqs s with free := true }).setWorker w
          (.leaving ⟨.seqWrapper fn s, refc⟩))
  | next (w : Fin n) (fn : φ) (s : σ) (refc : Option ρ) (next : Job φ ρ) (jobs : List (Job φ ρ))
    (hw : pool.workers w = .returned ⟨.seqWrapper fn s, refc⟩) (hmtx : (pool.seqs s).mtx = none)
    (hjobs : (pool.seqs s).jobs = next :: jobs)
    : Moves pool (.lockSeq w)
        ((pool.setSeq s { pool.seqs s with jobs := jobs, mtx := some (.seqWrapper w) }).setWorker w
          (.requeueing ⟨.seqWrapper fn s, refc⟩ next))
  | requeue (w : Fin n) (fn : φ) (s : σ) (refc : Option ρ) (next : Job φ ρ)
    (hw : pool.workers w = .requeueing ⟨.seqWrapper fn s, refc⟩ next)
    : Moves pool (.requeue w)
        (((pool.enqueue (.seqWrapper next.fn s) next.refc).2.setSeq s
          { pool.seqs s with mtx := none }).setWorker w (.leaving ⟨.seqWrapper fn s, refc⟩))
  | leave (w : Fin n) (j : PoolJob σ φ ρ) (hw : pool.workers w = .leaving j)
    : Moves pool (.leave w) ((pool.addRef j.refc (-1)).setWorker w .waiting)

theorem step_moves {pool pool' : ThreadPool n σ φ ρ} {l : Label n σ φ ρ}
    (h : pool.step l = some pool') : pool.Moves l pool' := by
  cases l with
  | enqueue fn refc =>
    injection h with h
    subst h
    exact .enqueue fn refc
  | enqueueSeq s fn refc =>
    simp only [step] at h
    split at h
    . contradiction
    . next hmtx =>
      injection h with h
      subst h
      exact .enqueueSeq s fn refc (by simpa using hmtx)
  | enqueueSeqPush s =>
    simp only [step] at h
    split at h
    . next job hmtx =>
      injection h with h
      subst h
      exact .enqueueSeqPush s job hmtx
    . contradiction
  | stopJobs s cb =>
    simp only [step] at h
    split at h
    . contradiction
    . next hmtx =>
      injection h with h
      subst h
      exact .stopJobs s cb (by simpa using hmtx)
  | disableSeq s =>
    simp only [step] at h
    split at h
    . contradiction
    . next hmtx =>
      injection h with h
      subst h
      exact .disableSeq s (by simpa using hmtx)
  | join =>
    injection h with h
    subst h
    exact .join
  | stop =>
    injection h with h
    subst h
    exact .stop
  | pop w =>
    simp only [step] at h
    split at h
    . next j jobs hw hrunning hjobs =>
      injection h with h
      subst h
      exact .pop w j jobs hw hrunning hjobs
    . contradiction
  | call w =>
    simp only [step] at h
    split at h
    . next fn refc hw =>
      injection h with h
      subst h
      exact .callPlain w fn refc hw
    . next fn s refc hw =>
      injection h with h
      subst h
      exact .callSeq w fn s refc hw
    . contradiction
  | «return» w =>
    simp only [step] at h
    split at h
    . next fn refc hw =>
      injection h with h
      subst h
      exact .returnPlain w fn refc hw
    . next fn s refc hw =>
      injection h with h
      subst h
      exact .returnSeq w fn s refc hw
    . contradiction
  | lockSeq w =>
    simp only [step] at h
    split at h
    . next fn s refc hw =>
      split at h
      . contradiction
      . next hmtx =>
        have hnone : (pool.seqs s).mtx = none := by simpa using hmtx
        split at h
        . next hjobs =>
          injection h with h
          subst h
          exact .release w fn s refc hw hnone hjobs
        . next next jobs hjobs =>
          injection h with h
          subst h
          exact .next w fn s refc next jobs hw hnone hjobs
    . contradiction
  | requeue w =>
    simp only [step] at h
    split at h
    . next fn s refc next hw =>
      injection h with h
      subst h
      exact .requeue w fn s refc next hw
    . contradiction
  | leave w =>
    simp only [step] at h
    split at h
    . next j hw =>
      injection h with h
      subst h
      exact .leave w j hw
    . contradiction

end ThreadPool

end HCraft
