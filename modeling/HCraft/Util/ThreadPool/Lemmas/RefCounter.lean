import HCraft.Util.ThreadPool.Lemmas.Total

/-!
This module contains what a reference counter says of the jobs that have been charged to it.
-/

namespace HCraft

open Transition

variable {n : Nat} {σ φ ρ : Type}

/--
The job of the pool that a worker has in hand.
-/
def Worker.job : Worker σ φ ρ → Option (PoolJob σ φ ρ)
  | .waiting => none
  | .popped j => some j
  | .running j => some j
  | .returned j => some j
  | .requeueing j _ => some j
  | .leaving j => some j

/--
The counters of the jobs that a worker has not finished yet.
-/
def Worker.refcs : Worker σ φ ρ → List (Option ρ)
  | .waiting => []
  | .popped j => [j.refc]
  | .running j => [j.refc]
  | .returned j => [j.refc]
  | .requeueing j next => [j.refc, next.refc]
  | .leaving j => [j.refc]

/--
The counters of the jobs of class `seq` that a worker is not through with.
-/
def Worker.classRefcs [DecidableEq σ] (s : Worker σ φ ρ) (seq : σ) : List (Option ρ) :=
  match s with
  | .waiting => []
  | .popped j => (j.seqJob seq).toList.map (·.refc)
  | .running j => (j.seqJob seq).toList.map (·.refc)
  | .returned j => (j.seqJob seq).toList.map (·.refc)
  | .requeueing j next => (j.seqJob seq).toList.flatMap (fun job => [job.refc, next.refc])
  | .leaving _ => []

theorem seqJob_refc [DecidableEq σ] {j : PoolJob σ φ ρ} {seq : σ} {job : Job φ ρ}
    (h : j.seqJob seq = some job) : job.refc = j.refc := by
  unfold PoolJob.seqJob at h
  split at h
  . cases h
  . split at h
    . injection h with h
      rw [← h]
    . cases h

theorem job_of_hold [DecidableEq σ] {s : Worker σ φ ρ} {seq : σ} {x : Hold φ ρ}
    (h : s.hold seq = some x)
    : ∃ j, s.job = some j ∧ ∃ job, j.seqJob seq = some job ∧ job.refc ∈ s.classRefcs seq := by
  cases s with
  | waiting => cases h
  | leaving j => cases h
  | popped j =>
    obtain ⟨job, hjob, _⟩ := Option.map_eq_some_iff.mp h
    exact ⟨j, rfl, job, hjob, by simp [Worker.classRefcs, hjob]⟩
  | running j =>
    obtain ⟨job, hjob, _⟩ := Option.map_eq_some_iff.mp h
    exact ⟨j, rfl, job, hjob, by simp [Worker.classRefcs, hjob]⟩
  | returned j =>
    obtain ⟨job, hjob, _⟩ := Option.map_eq_some_iff.mp h
    exact ⟨j, rfl, job, hjob, by simp [Worker.classRefcs, hjob]⟩
  | requeueing j next =>
    obtain ⟨job, hjob, _⟩ := Option.map_eq_some_iff.mp h
    exact ⟨j, rfl, job, hjob, by simp [Worker.classRefcs, hjob]⟩

section Weights

variable [DecidableEq ρ]

/--
A job charged to `r` weighs one.
-/
def PoolJob.weight (j : PoolJob σ φ ρ) (r : ρ) : Nat :=
  if j.refc = some r then 1 else 0

def Worker.weight (s : Worker σ φ ρ) (r : ρ) : Nat :=
  match s.job with
  | none => 0
  | some j => j.weight r

theorem weight_waiting (r : ρ) : (Worker.waiting : Worker σ φ ρ).weight r = 0 := rfl

theorem weight_popped (j : PoolJob σ φ ρ) (r : ρ) : (Worker.popped j).weight r = j.weight r := rfl

theorem weight_leaving (j : PoolJob σ φ ρ) (r : ρ) : (Worker.leaving j).weight r = j.weight r := rfl

end Weights

namespace ThreadPool

section Balance

variable [DecidableEq ρ]

/--
The jobs charged to `r` that the pool knows of.
-/
def charges (pool : ThreadPool n σ φ ρ) (r : ρ) : Nat :=
  pool.total (·.weight r) (·.weight r)

def Balanced (pool : ThreadPool n σ φ ρ) : Prop :=
  ∀ r, pool.refs r = pool.charges r

variable {pool : ThreadPool n σ φ ρ}

theorem refs_addRef (refc : Option ρ) (d : Int) (r : ρ)
    : (pool.addRef refc d).refs r = pool.refs r + if refc = some r then d else 0 := by
  unfold addRef
  split
  . simp
  . next r' =>
    by_cases hr : r' = r
    . simp [hr]
    . simp [hr, Function.update_of_ne (Ne.symm hr)]

theorem balanced_init : (init : ThreadPool n σ φ ρ).Balanced := by
  intro r
  simp [init, charges, total, Worker.weight, Worker.job]

theorem Balanced.setSeq [DecidableEq σ] (h : pool.Balanced) (seq : σ) (cls : SeqClass n φ ρ)
    : (pool.setSeq seq cls).Balanced :=
  h

theorem Balanced.setWorker (h : pool.Balanced) {w : Fin n} {s : Worker σ φ ρ}
    (hjob : s.job = (pool.workers w).job) : (pool.setWorker w s).Balanced := by
  intro r
  have hweight : s.weight r = (pool.workers w).weight r := by rw [Worker.weight, hjob, Worker.weight]
  have hsame := @total_setWorker_of_eq n σ φ ρ (·.weight r) (·.weight r) pool w s hweight
  unfold charges
  rw [hsame]
  exact h r

theorem Balanced.enqueue (h : pool.Balanced) (task : Task σ φ) (refc : Option ρ)
    : (pool.enqueue task refc).2.Balanced := by
  intro r
  have hbefore := h r
  unfold charges at hbefore ⊢
  rw [total_enqueue]
  unfold ThreadPool.enqueue
  cases pool.accepting with
  | false => exact hbefore
  | true =>
    rw [if_neg (by decide), if_pos rfl]
    dsimp only
    rw [refs_addRef, Nat.cast_add, ← hbefore, PoolJob.weight]
    split <;> rfl

theorem Balanced.pop (h : pool.Balanced) {w : Fin n} {j : PoolJob σ φ ρ}
    {jobs : List (PoolJob σ φ ρ)} (hwait : pool.workers w = .waiting) (hjobs : pool.jobs = j :: jobs)
    : (({ pool with jobs := jobs } : ThreadPool n σ φ ρ).setWorker w (.popped j)).Balanced := by
  intro r
  have hsum := @total_pop n σ φ ρ (·.weight r) (·.weight r) pool j jobs hjobs w
  have hrefs : (({ pool with jobs := jobs } : ThreadPool n σ φ ρ).setWorker w (.popped j)).refs r
      = pool.refs r := rfl
  have hbefore := h r
  unfold charges at hbefore ⊢
  rw [hwait, weight_waiting, weight_popped] at hsum
  rw [hrefs, hbefore]
  omega

theorem Balanced.leave (h : pool.Balanced) {w : Fin n} {j : PoolJob σ φ ρ}
    (hw : pool.workers w = .leaving j)
    : ((pool.addRef j.refc (-1)).setWorker w .waiting).Balanced := by
  intro r
  have hsum := @total_setWorker n σ φ ρ (·.weight r) (·.weight r) (pool.addRef j.refc (-1)) w .waiting
  have hrefs : ((pool.addRef j.refc (-1)).setWorker w .waiting).refs r
      = (pool.addRef j.refc (-1)).refs r := rfl
  have hbefore := h r
  unfold charges at hbefore ⊢
  rw [total_addRef, addRef_workers, hw, weight_waiting, weight_leaving, PoolJob.weight] at hsum
  rw [hrefs, refs_addRef, hbefore]
  split
  . next hr =>
    rw [if_pos hr] at hsum
    omega
  . next hr =>
    rw [if_neg hr] at hsum
    omega

theorem Balanced.step [DecidableEq σ] {pool' : ThreadPool n σ φ ρ} {l : Label n σ φ ρ}
    (h : pool.Balanced) (hstep : pool.step l = some pool') : pool'.Balanced := by
  cases step_moves hstep with
  | enqueue fn refc => exact h.enqueue _ _
  | enqueueSeq s fn refc hmtx => exact h.setSeq _ _
  | enqueueSeqPush s job hmtx => exact (h.enqueue _ _).setSeq _ _
  | stopJobs s cb hmtx => exact h.setSeq _ _
  | disableSeq s hmtx => exact h.setSeq _ _
  | join => exact h
  | stop => exact h
  | pop w j jobs hw _ hjobs => exact h.pop hw hjobs
  | callPlain w fn refc hw => exact h.setWorker (by rw [hw]; rfl)
  | callSeq w fn s refc hw => exact (h.setSeq _ _).setWorker (by rw [setSeq_workers, hw]; rfl)
  | returnPlain w fn refc hw => exact h.setWorker (by rw [hw]; rfl)
  | returnSeq w fn s refc hw => exact h.setWorker (by rw [hw]; rfl)
  | release w fn s refc hw hmtx hjobs =>
    exact (h.setSeq _ _).setWorker (by rw [setSeq_workers, hw]; rfl)
  | next w fn s refc next jobs hw hmtx hjobs =>
    exact (h.setSeq _ _).setWorker (by rw [setSeq_workers, hw]; rfl)
  | requeue w fn s refc next hw =>
    apply ((h.enqueue _ _).setSeq _ _).setWorker
    rw [setSeq_workers, enqueue_workers, hw]
    rfl
  | leave w j hw => exact h.leave hw

/--
A job that has been submitted with counter `r` waits or is with a worker.
-/
def Unfinished (pool : ThreadPool n σ φ ρ) (r : ρ) : Prop :=
  (∃ seq, ∃ job ∈ (pool.seqs seq).jobs, job.refc = some r)
    ∨ (∃ j ∈ pool.jobs, j.refc = some r)
    ∨ ∃ w, some r ∈ (pool.workers w).refcs

theorem charges_pos_of_mem {j : PoolJob σ φ ρ} {r : ρ} (hmem : j ∈ pool.jobs) (hr : j.refc = some r)
    : 0 < pool.charges r := by
  have hle := @le_total_of_mem n σ φ ρ (·.weight r) (·.weight r) pool j hmem
  rw [PoolJob.weight, if_pos hr] at hle
  exact hle

theorem charges_pos_of_job {w : Fin n} {j : PoolJob σ φ ρ} {r : ρ}
    (hw : (pool.workers w).job = some j) (hr : j.refc = some r) : 0 < pool.charges r := by
  have hle := @le_total_of_worker n σ φ ρ (·.weight r) (·.weight r) pool w
  rw [Worker.weight, hw] at hle
  dsimp only at hle
  rw [PoolJob.weight, if_pos hr] at hle
  exact hle

theorem charges_eq_zero {r : ρ} (h : ¬ pool.Unfinished r) : pool.charges r = 0 := by
  unfold Unfinished at h
  simp only [not_or, not_exists, not_and] at h
  apply total_eq_zero
  . intro j hj
    exact if_neg (h.2.1 j hj)
  . intro w
    have hw := h.2.2 w
    unfold Worker.weight
    split
    . rfl
    . next j hj =>
      rw [PoolJob.weight, if_neg]
      intro hr
      apply hw
      cases hs : pool.workers w <;> simp_all [Worker.job, Worker.refcs]

end Balance

section Classes

variable [DecidableEq σ]

/--
The counters of the jobs that class `seq` is not through with.
-/
def Outstanding (pool : ThreadPool n σ φ ρ) (seq : σ) (c : Option ρ) : Prop :=
  (∃ job ∈ (pool.seqs seq).jobs, job.refc = c)
    ∨ (∃ job, (pool.seqs seq).mtx = some (.enqueueSeq job) ∧ job.refc = c)
    ∨ (∃ j ∈ pool.jobs, ∃ job, j.seqJob seq = some job ∧ job.refc = c)
    ∨ ∃ w, c ∈ (pool.workers w).classRefcs seq

variable {pool : ThreadPool n σ φ ρ} {seq : σ} {c : Option ρ}

theorem outstanding_setWorker {w : Fin n} {s : Worker σ φ ρ}
    (h : (pool.setWorker w s).Outstanding seq c)
    : pool.Outstanding seq c ∨ c ∈ s.classRefcs seq := by
  rcases h with hjobs | hmtx | hqueued | ⟨w', hheld⟩
  . exact .inl (.inl hjobs)
  . exact .inl (.inr (.inl hmtx))
  . exact .inl (.inr (.inr (.inl hqueued)))
  . rw [setWorker_workers] at hheld
    by_cases hw : w' = w
    . rw [hw, Function.update_self] at hheld
      exact .inr hheld
    . rw [Function.update_of_ne hw] at hheld
      exact .inl (.inr (.inr (.inr ⟨w', hheld⟩)))

theorem outstanding_setWorker_of_subset {w : Fin n} {s : Worker σ φ ρ}
    (hsub : s.classRefcs seq ⊆ (pool.workers w).classRefcs seq)
    (h : (pool.setWorker w s).Outstanding seq c) : pool.Outstanding seq c := by
  cases outstanding_setWorker h with
  | inl h => exact h
  | inr h => exact .inr (.inr (.inr ⟨w, hsub h⟩))

theorem outstanding_setSeq {s : σ} {cls : SeqClass n φ ρ} (h : (pool.setSeq s cls).Outstanding seq c)
    : pool.Outstanding seq c
        ∨ s = seq ∧ ((∃ job ∈ cls.jobs, job.refc = c)
          ∨ ∃ job, cls.mtx = some (.enqueueSeq job) ∧ job.refc = c) := by
  by_cases hs : s = seq
  . subst hs
    rcases h with hjobs | hmtx | hqueued | hheld
    . rw [setSeq_seqs, Function.update_self] at hjobs
      exact .inr ⟨rfl, .inl hjobs⟩
    . rw [setSeq_seqs, Function.update_self] at hmtx
      exact .inr ⟨rfl, .inr hmtx⟩
    . exact .inl (.inr (.inr (.inl hqueued)))
    . exact .inl (.inr (.inr (.inr hheld)))
  . left
    unfold Outstanding at h
    rw [setSeq_seqs, Function.update_of_ne (Ne.symm hs)] at h
    exact h

theorem outstanding_setSeq_of_subset {s : σ} {cls : SeqClass n φ ρ}
    (hjobs : cls.jobs ⊆ (pool.seqs s).jobs)
    (hmtx : ∀ job, cls.mtx = some (.enqueueSeq job) → (pool.seqs s).mtx = some (.enqueueSeq job))
    (h : (pool.setSeq s cls).Outstanding seq c) : pool.Outstanding seq c := by
  rcases outstanding_setSeq h with h | ⟨rfl, ⟨job, hmem, hc⟩ | ⟨job, hm, hc⟩⟩
  . exact h
  . exact .inl ⟨job, hjobs hmem, hc⟩
  . exact .inr (.inl ⟨job, hmtx job hm, hc⟩)

theorem outstanding_enqueue [DecidableEq ρ] {task : Task σ φ} {refc : Option ρ}
    (h : (pool.enqueue task refc).2.Outstanding seq c)
    : pool.Outstanding seq c
        ∨ ∃ job, (PoolJob.mk task refc).seqJob seq = some job ∧ job.refc = c := by
  unfold ThreadPool.enqueue at h
  split at h
  . exact .inl h
  . unfold Outstanding at h
    dsimp only at h
    rw [addRef_jobs, addRef_seqs, addRef_workers] at h
    rcases h with hjobs | hmtx | ⟨j, hmem, hj⟩ | hheld
    . exact .inl (.inl hjobs)
    . exact .inl (.inr (.inl hmtx))
    . rw [List.mem_append, List.mem_singleton] at hmem
      cases hmem with
      | inl hmem => exact .inl (.inr (.inr (.inl ⟨j, hmem, hj⟩)))
      | inr hmem =>
        subst hmem
        exact .inr hj
    . exact .inl (.inr (.inr (.inr hheld)))

theorem outstanding_addRef [DecidableEq ρ] {refc : Option ρ} {d : Int}
    (h : (pool.addRef refc d).Outstanding seq c) : pool.Outstanding seq c := by
  unfold Outstanding at h
  rw [addRef_jobs, addRef_seqs, addRef_workers] at h
  exact h

theorem HasToken.not_outstanding (h : HasToken seq pool) (hfree : (pool.seqs seq).free = true)
    : ¬ pool.Outstanding seq c := by
  obtain ⟨_, t, hmatches⟩ := h
  have ht : t = .free := by
    have := hmatches.free
    rw [view_cls, hfree] at this
    cases t with
    | free => rfl
    | _ => simp [View.Token.isFree] at this
  subst ht
  rintro (⟨job, hmem, _⟩ | ⟨job, hmtx, _⟩ | ⟨j, hmem, job, hjob, _⟩ | ⟨w, hheld⟩)
  . exact absurd (hmatches.first trivial) (List.ne_nil_of_mem hmem)
  . have := hmatches.mtx
    rw [view_cls, hmtx] at this
    cases this
  . have hqueued : job ∈ (pool.view seq).queued := List.mem_filterMap.mpr ⟨j, hmem, hjob⟩
    rw [hmatches.queued] at hqueued
    cases hqueued
  . have hnone : (pool.workers w).hold seq = none := congrFun hmatches.held w
    cases hw : pool.workers w with
    | waiting => simp [hw, Worker.classRefcs] at hheld
    | leaving j => simp [hw, Worker.classRefcs] at hheld
    | _ => simp_all [Worker.hold, Worker.classRefcs]

variable [DecidableEq ρ]

/--
Only `enqueue_seq` brings a counter into a class.
-/
theorem outstanding_step {pool' : ThreadPool n σ φ ρ} {l : Label n σ φ ρ}
    (hstep : pool.step l = some pool') (h : pool'.Outstanding seq c)
    : pool.Outstanding seq c ∨ ∃ fn, l = .enqueueSeq seq fn c := by
  cases step_moves hstep with
  | enqueue fn refc =>
    rcases outstanding_enqueue h with h | ⟨job, hjob, _⟩
    . exact .inl h
    . cases hjob
  | enqueueSeq s fn refc hmtx =>
    unfold SeqClass.enqueueSeq at h
    split at h
    . exact .inl (outstanding_setSeq_of_subset (List.Subset.refl _) (fun _ hm => by exact hm) h)
    . split at h
      . rcases outstanding_setSeq h with h | ⟨rfl, ⟨job, hmem, hc⟩ | ⟨job, hm, hc⟩⟩
        . exact .inl h
        . exact .inl (.inl ⟨job, hmem, hc⟩)
        . injection hm with hm
          injection hm with hm
          subst hm
          exact .inr ⟨fn, by rw [← hc]⟩
      . rcases outstanding_setSeq h with h | ⟨rfl, ⟨job, hmem, hc⟩ | ⟨job, hm, hc⟩⟩
        . exact .inl h
        . rw [List.mem_append, List.mem_singleton] at hmem
          cases hmem with
          | inl hmem => exact .inl (.inl ⟨job, hmem, hc⟩)
          | inr hmem =>
            subst hmem
            exact .inr ⟨fn, by rw [← hc]⟩
        . rw [hmtx] at hm
          cases hm
  | enqueueSeqPush s job hmtx =>
    left
    rcases outstanding_setSeq h with h | ⟨rfl, ⟨job', hmem, hc⟩ | ⟨job', hm, hc⟩⟩
    . rcases outstanding_enqueue h with h | ⟨job', hjob, hc⟩
      . exact h
      . obtain ⟨rfl, rfl⟩ := seqJob_seqWrapper_eq_some hjob
        exact .inr (.inl ⟨job, hmtx, hc⟩)
    . exact .inl ⟨job', hmem, hc⟩
    . cases hm
  | stopJobs s cb hmtx =>
    exact .inl (outstanding_setSeq_of_subset (List.filter_subset_self _) (fun _ hm => by exact hm) h)
  | disableSeq s hmtx =>
    exact .inl (outstanding_setSeq_of_subset (List.nil_subset _) (fun _ hm => by exact hm) h)
  | join => exact .inl h
  | stop => exact .inl h
  | pop w j jobs hw _ hjobs =>
    left
    cases outstanding_setWorker h with
    | inl h =>
      rcases h with hwaiting | hmtx | ⟨j', hmem, hj⟩ | hheld
      . exact .inl hwaiting
      . exact .inr (.inl hmtx)
      . refine .inr (.inr (.inl ⟨j', ?_, hj⟩))
        rw [hjobs]
        exact List.mem_cons_of_mem _ hmem
      . exact .inr (.inr (.inr hheld))
    | inr h =>
      rw [Worker.classRefcs, List.mem_map] at h
      rcases h with ⟨job, hmem, hc⟩
      rw [Option.mem_toList] at hmem
      refine .inr (.inr (.inl ⟨j, ?_, job, hmem, hc⟩))
      rw [hjobs]
      exact List.mem_cons_self
  | callPlain w fn refc hw =>
    exact .inl (outstanding_setWorker_of_subset (by rw [hw]; exact List.Subset.refl _) h)
  | callSeq w fn s refc hw =>
    have h := outstanding_setWorker_of_subset (by rw [setSeq_workers, hw]; exact List.Subset.refl _) h
    exact .inl
      (outstanding_setSeq_of_subset (by exact List.Subset.refl _) (fun _ hm => by exact hm) h)
  | returnPlain w fn refc hw => exact .inl (outstanding_setWorker_of_subset (List.nil_subset _) h)
  | returnSeq w fn s refc hw =>
    exact .inl (outstanding_setWorker_of_subset (by rw [hw]; exact List.Subset.refl _) h)
  | release w fn s refc hw hmtx hjobs =>
    have h := outstanding_setWorker_of_subset (List.nil_subset _) h
    exact .inl
      (outstanding_setSeq_of_subset (by exact List.Subset.refl _) (fun _ hm => by exact hm) h)
  | next w fn s refc next jobs hw hmtx hjobs =>
    left
    cases outstanding_setWorker h with
    | inl h =>
      apply outstanding_setSeq_of_subset _ _ h
      . rw [hjobs]
        exact List.subset_cons_self _ _
      . intro job hm
        cases hm
    | inr h =>
      by_cases hs : s = seq
      . subst hs
        rw [Worker.classRefcs, seqJob_seqWrapper] at h
        simp only [Option.toList_some, List.flatMap_cons, List.flatMap_nil, List.append_nil,
          List.mem_cons, List.not_mem_nil, or_false] at h
        cases h with
        | inl h =>
          refine .inr (.inr (.inr ⟨w, ?_⟩))
          rw [hw, Worker.classRefcs, seqJob_seqWrapper, h]
          exact List.mem_cons_self
        | inr h =>
          refine .inl ⟨next, ?_, h.symm⟩
          rw [hjobs]
          exact List.mem_cons_self
      . rw [Worker.classRefcs, seqJob_of_ne _ _ hs] at h
        cases h
  | requeue w fn s refc next hw =>
    left
    have h := outstanding_setWorker_of_subset (List.nil_subset _) h
    rcases outstanding_setSeq h with h | ⟨rfl, ⟨job', hmem, hc⟩ | ⟨job', hm, hc⟩⟩
    . rcases outstanding_enqueue h with h | ⟨job', hjob, hc⟩
      . exact h
      . obtain ⟨rfl, rfl⟩ := seqJob_seqWrapper_eq_some hjob
        refine .inr (.inr (.inr ⟨w, ?_⟩))
        rw [hw, Worker.classRefcs, seqJob_seqWrapper, ← hc]
        exact List.mem_cons_of_mem _ List.mem_cons_self
    . exact .inl ⟨job', hmem, hc⟩
    . cases hm
  | leave w j hw =>
    exact .inl (outstanding_addRef (outstanding_setWorker_of_subset (List.nil_subset _) h))

/--
If the step is a call of `enqueue_seq` on a class that is busy, then all the jobs of the class have
been charged to the counter of the new one.
-/
def SharesCounter (pool : ThreadPool n σ φ ρ) : Label n σ φ ρ → Prop
  | .enqueueSeq seq _ refc =>
    (pool.seqs seq).free = false → ∀ c, pool.Outstanding seq c → c = refc
  | _ => True

/--
Every counter is positive for as long as there are jobs that have been submitted with it.
-/
def Protects (pool : ThreadPool n σ φ ρ) : Prop :=
  ∀ r, (pool.Unfinished r → 0 < pool.refs r) ∧ (¬ pool.Unfinished r → pool.refs r = 0)

/--
The jobs of a class have one counter among them.
-/
structure Charged (pool : ThreadPool n σ φ ρ) : Prop where
  balanced : pool.Balanced
  tokens : ∀ seq, HasToken seq pool
  uniform : ∀ seq, ∃ c, ∀ c', pool.Outstanding seq c' → c' = c
  sound : pool.Sound

/--
A class with a waiting job has a wrapper around, which is charged.
-/
theorem Charged.charges_pos_of_waiting (h : pool.Charged) {job : Job φ ρ} {r : ρ}
    (hmem : job ∈ (pool.seqs seq).jobs) (hr : job.refc = some r) : 0 < pool.charges r := by
  obtain ⟨c, huniform⟩ := h.uniform seq
  have hc := huniform _ (.inl ⟨job, hmem, hr⟩)
  obtain ⟨_, t, hmatches⟩ := h.tokens seq
  cases t with
  | free => exact absurd (hmatches.first trivial) (List.ne_nil_of_mem hmem)
  | pushing job' => exact absurd (hmatches.first trivial) (List.ne_nil_of_mem hmem)
  | queued job' =>
    have hqueued : job' ∈ (pool.view seq).queued := by
      rw [hmatches.queued]
      exact List.mem_singleton_self _
    obtain ⟨j, hj, hjob⟩ := List.mem_filterMap.mp hqueued
    have hrefc := huniform _ (.inr (.inr (.inl ⟨j, hj, job', hjob, rfl⟩)))
    apply charges_pos_of_mem hj
    rw [← seqJob_refc hjob, hrefc, hc]
  | held w x =>
    have hheld : (pool.workers w).hold seq = some x := by
      have := congrFun hmatches.held w
      rw [View.Token.inHand, Function.update_self] at this
      exact this
    obtain ⟨j, hj, job', hjob, hout⟩ := job_of_hold hheld
    have hrefc := huniform _ (.inr (.inr (.inr ⟨w, hout⟩)))
    apply charges_pos_of_job hj
    rw [← seqJob_refc hjob, hrefc, hc]

theorem charged_init : (init : ThreadPool n σ φ ρ).Charged where
  balanced := balanced_init
  tokens seq := hasToken_init seq
  uniform seq := by
    refine ⟨none, ?_⟩
    intro c h
    rcases h with ⟨job, hmem, _⟩ | ⟨job, hmtx, _⟩ | ⟨j, hmem, _⟩ | ⟨w, hheld⟩
    . cases hmem
    . cases hmtx
    . cases hmem
    . cases hheld
  sound := sound_init

theorem Charged.step {pool' : ThreadPool n σ φ ρ} {l : Label n σ φ ρ} (h : pool.Charged)
    (hl : l.Submits) (hshares : pool.SharesCounter l) (hstep : pool.step l = some pool')
    : pool'.Charged where
  balanced := h.balanced.step hstep
  tokens seq := by
    apply (h.tokens seq).step _ _ hstep
    . cases l <;> trivial
    . cases l <;> trivial
  uniform seq := by
    by_cases hbusy : ∃ fn c, l = .enqueueSeq seq fn c
    . rcases hbusy with ⟨fn, c, rfl⟩
      refine ⟨c, ?_⟩
      intro c' hout
      rcases outstanding_step hstep hout with hold | ⟨fn', heq⟩
      . cases hfree : (pool.seqs seq).free with
        | false => exact hshares hfree c' hold
        | true => exact absurd hold ((h.tokens seq).not_outstanding hfree)
      . injection heq with _ _ heq
        exact heq.symm
    . obtain ⟨c, huniform⟩ := h.uniform seq
      refine ⟨c, ?_⟩
      intro c' hout
      rcases outstanding_step hstep hout with hold | ⟨fn, heq⟩
      . exact huniform c' hold
      . exact absurd ⟨fn, c', heq⟩ hbusy
  sound := h.sound.step (.inl hl) hstep

theorem Charged.charges_pos (h : pool.Charged) {r : ρ} (hunfinished : pool.Unfinished r)
    : 0 < pool.charges r := by
  rcases hunfinished with ⟨seq, job, hmem, hr⟩ | ⟨j, hmem, hr⟩ | ⟨w, hw⟩
  . exact h.charges_pos_of_waiting hmem hr
  . exact charges_pos_of_mem hmem hr
  . cases hs : pool.workers w with
    | waiting =>
      rw [hs] at hw
      cases hw
    | requeueing j next =>
      have hj : (pool.workers w).job = some j := by rw [hs, Worker.job]
      rw [hs, Worker.refcs, List.mem_cons, List.mem_singleton] at hw
      cases hw with
      | inl hw => exact charges_pos_of_job hj hw.symm
      | inr hw =>
        -- the wrapper is charged to the same counter as the job it goes on with
        obtain ⟨seq, job, hjob⟩ : ∃ seq job, j.seqJob seq = some job := by
          have hproper := h.sound.proper w
          rw [hs] at hproper
          rcases j with ⟨task, refc⟩
          cases task with
          | plain fn => exact absurd hproper id
          | seqWrapper fn seq => exact ⟨seq, _, seqJob_seqWrapper fn refc seq⟩
        obtain ⟨c, huniform⟩ := h.uniform seq
        have hmem (c' : Option ρ) (hc' : c' ∈ [job.refc, next.refc]) : c' = c := by
          refine huniform c' (.inr (.inr (.inr ⟨w, ?_⟩)))
          rw [hs, Worker.classRefcs, hjob]
          simpa using hc'
        apply charges_pos_of_job hj
        rw [← seqJob_refc hjob, hmem job.refc (by simp), ← hmem next.refc (by simp), hw]
    | popped j =>
      rw [hs, Worker.refcs, List.mem_singleton] at hw
      exact charges_pos_of_job (by rw [hs, Worker.job]) hw.symm
    | running j =>
      rw [hs, Worker.refcs, List.mem_singleton] at hw
      exact charges_pos_of_job (by rw [hs, Worker.job]) hw.symm
    | returned j =>
      rw [hs, Worker.refcs, List.mem_singleton] at hw
      exact charges_pos_of_job (by rw [hs, Worker.job]) hw.symm
    | leaving j =>
      rw [hs, Worker.refcs, List.mem_singleton] at hw
      exact charges_pos_of_job (by rw [hs, Worker.job]) hw.symm

theorem Charged.protects (h : pool.Charged) : pool.Protects := by
  intro r
  have hrefs := h.balanced r
  constructor
  . intro hunfinished
    have := h.charges_pos hunfinished
    omega
  . intro hnone
    have := charges_eq_zero hnone
    omega

/--
The counters protect their owners throughout a run in which no class that is busy is given a job with
another counter than its own.
-/
theorem protects_always {ls : List (Label n σ φ ρ)} (hsubmits : ∀ l ∈ ls, l.Submits)
    (hshares : EachStep ThreadPool.step SharesCounter init ls)
    : Always ThreadPool.step Protects (init : ThreadPool n σ φ ρ) ls := by
  have hboth : EachStep ThreadPool.step (fun pool l => l.Submits ∧ SharesCounter pool l) init ls :=
    hshares.and_of_forall hsubmits
  have hcharged := always_of_eachStep (I := Charged)
    (fun _ _ _ h hl hstep => h.step hl.1 hl.2 hstep) charged_init hboth
  exact hcharged.mono (fun _ h => h.protects)

theorem protects_always_two
    : Always ThreadPool.step Protects (init : ThreadPool 1 Unit Nat Bool)
      [.enqueueSeq () 1 (some true), .enqueueSeqPush (), .enqueueSeq () 2 (some true), .pop 0,
        .call 0, .return 0, .lockSeq 0, .requeue 0, .leave 0] := by
  apply protects_always
  . simp [Label.Submits]
  . intro s₁ h₁
    injection h₁ with h₁
    subst h₁
    refine ⟨fun hfree => (Bool.noConfusion hfree), ?_⟩
    intro s₂ h₂
    injection h₂ with h₂
    subst h₂
    refine ⟨trivial, ?_⟩
    intro s₃ h₃
    refine ⟨?_, EachStep.of_forall (by simp [SharesCounter])⟩
    rintro _ c (⟨job, hmem, _⟩ | ⟨job, hmtx, _⟩ | ⟨j, hmem, job, hjob, hc⟩ | ⟨w, hheld⟩)
    . cases hmem
    . cases hmtx
    . cases hmem with
      | head => exact hc ▸ seqJob_refc hjob
      | tail _ hmem => cases hmem
    . cases hheld

/--
The second job waits for the first one, and nothing has been charged to its counter.
-/
theorem not_protects_always
    : ¬ ∀ ls : List (Label 1 Unit Nat Bool), (∀ l ∈ ls, l.Submits)
        → Always ThreadPool.step Protects init ls := by
  intro h
  have halways := h [.enqueueSeq () 1 (some true), .enqueueSeqPush (),
    .enqueueSeq () 2 (some false)] (by simp [Label.Submits])
  have hlast := (halways.last rfl false).1 (.inl ⟨(), ⟨2, some false⟩, List.mem_cons_self, rfl⟩)
  exact absurd hlast (by decide)

end Classes

end ThreadPool

end HCraft
