import HCraft.Util.ThreadPool.Lemmas.RefCounter

/-!
This module contains what it takes for a sequence class to be done with: once it is disabled while
the pool has none of its jobs, the pool never has one again.
-/

namespace HCraft

namespace ThreadPool

variable {n : Nat} {σ φ ρ : Type} {pool pool' : ThreadPool n σ φ ρ}

/--
The job is in the queue, or a worker has it in hand.
-/
def InPool (pool : ThreadPool n σ φ ρ) (j : PoolJob σ φ ρ) : Prop :=
  j ∈ pool.jobs ∨ ∃ w, (pool.workers w).job = some j

theorem InPool.of_worker {w : Fin n} {j : PoolJob σ φ ρ} (h : (pool.workers w).job = some j)
    : pool.InPool j :=
  .inr ⟨w, h⟩

theorem InPool.congr {j : PoolJob σ φ ρ} (hjobs : pool'.jobs = pool.jobs)
    (hworkers : pool'.workers = pool.workers) : pool'.InPool j ↔ pool.InPool j := by
  unfold InPool
  rw [hjobs, hworkers]

theorem inPool_setWorker {w : Fin n} {s : Worker σ φ ρ} {j : PoolJob σ φ ρ}
    (h : (pool.setWorker w s).InPool j) : pool.InPool j ∨ s.job = some j := by
  cases h with
  | inl hjobs => exact .inl (.inl hjobs)
  | inr hworker =>
    obtain ⟨w', hw'⟩ := hworker
    rw [setWorker_workers] at hw'
    by_cases hw : w' = w
    . rw [hw, Function.update_self] at hw'
      exact .inr hw'
    . rw [Function.update_of_ne hw] at hw'
      exact .inl (.of_worker hw')

theorem inPool_advance {w : Fin n} {s s' : Worker σ φ ρ} {j : PoolJob σ φ ρ}
    (h : (pool.setWorker w s').InPool j) (hw : pool.workers w = s) (hjob : s'.job = s.job)
    : pool.InPool j := by
  cases inPool_setWorker h with
  | inl hold => exact hold
  | inr hj =>
    apply InPool.of_worker
    rw [hw, ← hjob]
    exact hj

theorem inPool_enqueue [DecidableEq ρ] {task : Task σ φ} {refc : Option ρ} {j : PoolJob σ φ ρ}
    (h : (pool.enqueue task refc).2.InPool j) : pool.InPool j ∨ j.task = task := by
  unfold enqueue at h
  split at h
  . exact .inl h
  . cases h with
    | inl hjobs =>
      dsimp only at hjobs
      rw [addRef_jobs] at hjobs
      cases List.mem_append.mp hjobs with
      | inl hold => exact .inl (.inl hold)
      | inr hnew =>
        rw [List.mem_singleton.mp hnew]
        exact .inr rfl
    | inr hworker =>
      dsimp only at hworker
      rw [addRef_workers] at hworker
      exact .inl (.inr hworker)

/--
The class takes no jobs and has none, nor does anybody have its mutex.
-/
structure Disabled (pool : ThreadPool n σ φ ρ) (seq : σ) : Prop where
  accepting : (pool.seqs seq).accepting = false
  jobs : (pool.seqs seq).jobs = []
  mtx : (pool.seqs seq).mtx = none
  absent : ∀ fn refc, ¬ pool.InPool ⟨.seqWrapper fn seq, refc⟩

theorem Disabled.ne_of_inHand {seq seq' : σ} (h : pool.Disabled seq) {w : Fin n} {fn : φ}
    {refc : Option ρ} {s : Worker σ φ ρ} (hw : pool.workers w = s)
    (hjob : s.job = some ⟨.seqWrapper fn seq', refc⟩) : seq ≠ seq' := by
  rintro rfl
  apply h.absent fn refc
  apply InPool.of_worker
  rw [hw]
  exact hjob

section Steps

variable [DecidableEq σ] [DecidableEq ρ]

/--
A job comes into the pool through `enqueue`, through `enqueue_seq` while that has the mutex of the
class, or in place of one of the same class.
-/
theorem inPool_step {l : Label n σ φ ρ} (hstep : pool.step l = some pool') {j : PoolJob σ φ ρ}
    (h : pool'.InPool j)
    : pool.InPool j
        ∨ (∃ fn refc, l = .enqueue fn refc ∧ j.task = .plain fn)
        ∨ ∃ fn seq, j.task = .seqWrapper fn seq
          ∧ ((pool.seqs seq).mtx ≠ none ∨ ∃ fn' refc, pool.InPool ⟨.seqWrapper fn' seq, refc⟩) := by
  cases step_moves hstep with
  | enqueue fn refc =>
    cases inPool_enqueue h with
    | inl hold => exact .inl hold
    | inr htask => exact .inr (.inl ⟨fn, refc, rfl, htask⟩)
  | enqueueSeq seq fn refc hmtx => exact .inl h
  | enqueueSeqPush seq job hmtx =>
    cases inPool_enqueue h with
    | inl hold => exact .inl hold
    | inr htask => exact .inr (.inr ⟨job.fn, seq, htask, .inl (by simp [hmtx])⟩)
  | stopJobs seq cb hmtx => exact .inl h
  | disableSeq seq hmtx => exact .inl h
  | join => exact .inl h
  | stop => exact .inl h
  | pop w j' jobs hw _ hjobs =>
    left
    cases inPool_setWorker h with
    | inl hold =>
      cases hold with
      | inl hmem =>
        left
        rw [hjobs]
        exact List.mem_cons_of_mem _ hmem
      | inr hworker => exact .inr hworker
    | inr hjob =>
      injection hjob with hjob
      left
      rw [hjobs, hjob]
      exact List.mem_cons_self
  | callPlain w fn refc hw => exact .inl (inPool_advance h hw rfl)
  | callSeq w fn seq refc hw => exact .inl (inPool_advance h hw rfl)
  | returnPlain w fn refc hw => exact .inl (inPool_advance h hw rfl)
  | returnSeq w fn seq refc hw => exact .inl (inPool_advance h hw rfl)
  | release w fn seq refc hw hmtx hjobs => exact .inl (inPool_advance h hw rfl)
  | next w fn seq refc next jobs hw hmtx hjobs => exact .inl (inPool_advance h hw rfl)
  | requeue w fn seq refc next hw =>
    have hown : pool.InPool ⟨.seqWrapper fn seq, refc⟩ := by
      apply InPool.of_worker
      rw [hw]
      rfl
    cases inPool_setWorker h with
    | inl hold =>
      cases inPool_enqueue hold with
      | inl hold => exact .inl hold
      | inr htask => exact .inr (.inr ⟨next.fn, seq, htask, .inr ⟨fn, refc, hown⟩⟩)
    | inr hjob =>
      injection hjob with hjob
      exact .inl (hjob ▸ hown)
  | leave w j' hw =>
    cases inPool_setWorker h with
    | inl hold =>
      left
      exact (InPool.congr (addRef_jobs ..) (addRef_workers ..)).mp hold
    | inr hjob => cases hjob

theorem disabled_disableSeq {seq : σ} (hstep : pool.step (.disableSeq seq) = some pool')
    (habsent : ∀ fn refc, ¬ pool.InPool ⟨.seqWrapper fn seq, refc⟩) : pool'.Disabled seq := by
  cases step_moves hstep with
  | disableSeq s hmtx =>
    constructor
    . simp [SeqClass.disableSeq]
    . simp [SeqClass.disableSeq]
    . simpa [SeqClass.disableSeq] using hmtx
    . exact habsent

theorem Disabled.seqs_step {seq : σ} (h : pool.Disabled seq) {l : Label n σ φ ρ}
    (hstep : pool.step l = some pool')
    : (pool'.seqs seq).accepting = false ∧ (pool'.seqs seq).jobs = []
        ∧ (pool'.seqs seq).mtx = none := by
  have hsame := And.intro h.accepting (And.intro h.jobs h.mtx)
  cases step_moves hstep with
  | enqueue fn refc =>
    rw [enqueue_seqs]
    exact hsame
  | enqueueSeq seq' fn refc hmtx =>
    rw [setSeq_seqs]
    by_cases hseq : seq = seq'
    . subst hseq
      rw [Function.update_self]
      unfold SeqClass.enqueueSeq
      rw [h.accepting]
      exact hsame
    . rw [Function.update_of_ne hseq]
      exact hsame
  | enqueueSeqPush seq' job hmtx =>
    by_cases hseq : seq = seq'
    . rw [← hseq, h.mtx] at hmtx
      cases hmtx
    . rw [setSeq_seqs, Function.update_of_ne hseq, enqueue_seqs]
      exact hsame
  | stopJobs seq' cb hmtx =>
    rw [setSeq_seqs]
    by_cases hseq : seq = seq'
    . subst hseq
      rw [Function.update_self]
      simp [SeqClass.stopJobs, hsame]
    . rw [Function.update_of_ne hseq]
      exact hsame
  | disableSeq seq' hmtx =>
    rw [setSeq_seqs]
    by_cases hseq : seq = seq'
    . subst hseq
      rw [Function.update_self]
      simp [SeqClass.disableSeq, hsame]
    . rw [Function.update_of_ne hseq]
      exact hsame
  | join => exact hsame
  | stop => exact hsame
  | pop w j jobs hw _ hjobs => exact hsame
  | callPlain w fn refc hw => exact hsame
  | callSeq w fn seq' refc hw =>
    rw [setWorker_seqs, setSeq_seqs, Function.update_of_ne (h.ne_of_inHand hw rfl)]
    exact hsame
  | returnPlain w fn refc hw => exact hsame
  | returnSeq w fn seq' refc hw => exact hsame
  | release w fn seq' refc hw hmtx hjobs =>
    rw [setWorker_seqs, setSeq_seqs, Function.update_of_ne (h.ne_of_inHand hw rfl)]
    exact hsame
  | next w fn seq' refc next jobs hw hmtx hjobs =>
    rw [setWorker_seqs, setSeq_seqs, Function.update_of_ne (h.ne_of_inHand hw rfl)]
    exact hsame
  | requeue w fn seq' refc next hw =>
    rw [setWorker_seqs, setSeq_seqs, Function.update_of_ne (h.ne_of_inHand hw rfl), enqueue_seqs]
    exact hsame
  | leave w j hw =>
    rw [setWorker_seqs, addRef_seqs]
    exact hsame

theorem Disabled.step {seq : σ} (h : pool.Disabled seq) {l : Label n σ φ ρ}
    (hstep : pool.step l = some pool') : pool'.Disabled seq := by
  obtain ⟨haccepting, hjobs, hmtx⟩ := h.seqs_step hstep
  refine ⟨haccepting, hjobs, hmtx, ?_⟩
  intro fn refc hin
  rcases inPool_step hstep hin with hold | ⟨fn', refc', _, htask⟩ | ⟨fn', seq', htask, hwhere⟩
  . exact h.absent fn refc hold
  . cases htask
  . cases htask
    cases hwhere with
    | inl hheld => exact hheld h.mtx
    | inr hown =>
      obtain ⟨fn', refc', hown⟩ := hown
      exact h.absent fn' refc' hown

end Steps

end ThreadPool

end HCraft
