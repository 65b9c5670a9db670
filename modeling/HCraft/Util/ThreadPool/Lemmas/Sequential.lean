import HCraft.Util.ThreadPool.Lemmas.Step

/-!
This module contains the promise of a sequence class, that its jobs run one at a time and in order,
over whole runs of the pool, and what `stop_jobs` does to it.
-/

namespace HCraft

open Transition

variable {n : Nat} {σ φ ρ : Type}

namespace View

/--
`stop_jobs` leaves the token alone as long as it does not free a class that has one.
-/
theorem Matches.stopJobs {v : View n φ ρ} {t : Token n φ ρ} (h : v.Matches t) {cb : φ → Bool}
    (hspare : v.cls.free = true ∨ ∃ job ∈ v.cls.jobs, cb job.fn = false)
    : ({ v with cls := v.cls.stopJobs cb } : View n φ ρ).Matches t where
  free := by
    cases hspare with
    | inl hfree =>
      have := h.free
      rw [hfree] at this
      simp [SeqClass.stopJobs, hfree, this]
    | inr hkept =>
      rcases hkept with ⟨job, hmem, hkeep⟩
      have hne : (v.cls.jobs.filter (fun job => !cb job.fn)).isEmpty = false := by
        rw [List.isEmpty_eq_false_iff_exists_mem]
        exact ⟨job, List.mem_filter.mpr ⟨hmem, by simp [hkeep]⟩⟩
      simp [SeqClass.stopJobs, hne, h.free]
  mtx := h.mtx
  queued := h.queued
  held := h.held
  accepted := by
    have hlen : v.cls.accepted.length - v.cls.jobs.length
        = (v.cls.started ++ t.unstarted).length := by
      rw [h.accepted, List.length_append, Nat.add_sub_cancel]
    have htake : v.cls.accepted.take (v.cls.started ++ t.unstarted).length
        = v.cls.started ++ t.unstarted := by
      rw [h.accepted, List.take_left]
    simp only [SeqClass.stopJobs]
    rw [hlen, htake]
  first := by
    intro hfirst
    simp [SeqClass.stopJobs, h.first hfirst]

/--
A class that is freed while its wrapper is around.
-/
theorem Matches.not_sequential_stopJobs {v : View n φ ρ} {t : Token n φ ρ} (h : v.Matches t)
    {cb : φ → Bool} (hfree : v.cls.free = false) (hall : ∀ job ∈ v.cls.jobs, cb job.fn = true)
    : ¬ ({ v with cls := v.cls.stopJobs cb } : View n φ ρ).Sequential := by
  intro hseq
  have hempty : v.cls.jobs.filter (fun job => !cb job.fn) = [] := by
    rw [List.filter_eq_nil_iff]
    intro job hmem
    simp [hall job hmem]
  have hone : v.wrappers = 1 := h.sequential.free.mp hfree
  have hsame : ({ v with cls := v.cls.stopJobs cb } : View n φ ρ).wrappers = v.wrappers := rfl
  have := hseq.free.mpr (by rw [hsame, hone])
  simp [SeqClass.stopJobs, hempty] at this

end View

namespace ThreadPool

variable [DecidableEq σ]

/--
No job is left in the queue or with a worker, and nobody is about to hand one over.
-/
def Idle (pool : ThreadPool n σ φ ρ) : Prop :=
  pool.jobs = [] ∧ (∀ w, pool.workers w = .waiting) ∧ ∀ seq, (pool.seqs seq).mtx = none

/--
The steps of a pool that keeps accepting, next to a class that is not disabled.
-/
def Label.KeepsOpen (seq : σ) : Label n σ φ ρ → Prop
  | .join => False
  | .disableSeq s => s ≠ seq
  | _ => True

/--
The steps that leave the jobs of the class in place.
-/
def Label.KeepsJobs (seq : σ) : Label n σ φ ρ → Prop
  | .stopJobs s _ => s ≠ seq
  | _ => True

/--
If the step is a call of `stop_jobs` on the class, then the class is free or a waiting job stays.
-/
def Spares (seq : σ) (pool : ThreadPool n σ φ ρ) : Label n σ φ ρ → Prop
  | .stopJobs s cb =>
    s = seq → (pool.seqs seq).free = true ∨ ∃ job ∈ (pool.seqs seq).jobs, cb job.fn = false
  | _ => True

/--
The pool accepts, and the class has one wrapper or none.
-/
def HasToken (seq : σ) (pool : ThreadPool n σ φ ρ) : Prop :=
  pool.accepting = true ∧ ∃ t, (pool.view seq).Matches t

theorem hasToken_init (seq : σ) : HasToken seq (init : ThreadPool n σ φ ρ) :=
  ⟨rfl, .free, ⟨rfl, rfl, rfl, rfl, rfl, fun _ => rfl⟩⟩

theorem HasToken.sequential {seq : σ} {pool : ThreadPool n σ φ ρ} (h : HasToken seq pool)
    : (pool.view seq).Sequential :=
  have ⟨_, _, hmatches⟩ := h
  hmatches.sequential

theorem drained_of_idle {seq : σ} {pool : ThreadPool n σ φ ρ} (h : (pool.view seq).Sequential)
    (hidle : pool.Idle)
    : (pool.seqs seq).jobs = [] ∧ (pool.seqs seq).started = (pool.seqs seq).accepted := by
  obtain ⟨hjobs, hworkers, hmtx⟩ := hidle
  have hqueued : (pool.view seq).queued = [] := by simp [view, hjobs]
  have hheld : (pool.view seq).held = fun _ => none := by
    funext w
    simp [view, hworkers w, Worker.hold]
  have hzero : (pool.view seq).wrappers = 0 := by
    simp [View.wrappers, hqueued, hheld, hmtx]
  have hpending : (pool.view seq).pending = [] := by
    simp [View.pending, hqueued, hheld]
  have hnone : (pool.seqs seq).jobs = [] := h.drained hzero
  have horder := h.order
  rw [hpending, view_cls, hnone, List.append_nil, List.append_nil] at horder
  exact ⟨hnone, horder.symm⟩

variable [DecidableEq ρ]

theorem HasToken.step {seq : σ} {pool pool' : ThreadPool n σ φ ρ} {l : Label n σ φ ρ}
    (h : HasToken seq pool) (hopen : l.KeepsOpen seq) (hspare : pool.Spares seq l)
    (hstep : pool.step l = some pool') : HasToken seq pool' := by
  obtain ⟨hacc, t, hmatches⟩ := h
  refine ⟨?_, ?_⟩
  . rw [step_accepting hstep, hacc]
    rintro rfl
    exact hopen
  . rcases step_view hstep hacc seq with hsame | hview | ⟨cb, rfl, hview⟩ | rfl
    . rw [hsame]
      exact ⟨t, hmatches⟩
    . exact hmatches.step hview
    . rw [hview]
      exact ⟨t, hmatches.stopJobs (hspare rfl)⟩
    . exact absurd rfl hopen

/--
The jobs of a class run one at a time and in the order in which they were accepted, and a pool with
nothing to do has run all of them.
-/
theorem sequential_always (seq : σ) {ls : List (Label n σ φ ρ)}
    (hopen : ∀ l ∈ ls, l.KeepsOpen seq) (hkeep : ∀ l ∈ ls, l.KeepsJobs seq)
    : Always step (fun pool => (pool.view seq).Sequential
        ∧ (pool.Idle → (pool.seqs seq).jobs = []
            ∧ (pool.seqs seq).started = (pool.seqs seq).accepted)) init ls := by
  have hspares : ∀ (pool : ThreadPool n σ φ ρ), ∀ l ∈ ls, l.KeepsOpen seq ∧ pool.Spares seq l := by
    intro pool l hl
    refine ⟨hopen l hl, ?_⟩
    have := hkeep l hl
    cases l with
    | stopJobs s cb => exact fun hs => absurd hs this
    | _ => trivial
  have hkept : ∀ (pool : ThreadPool n σ φ ρ) l pool', HasToken seq pool →
      l.KeepsOpen seq ∧ pool.Spares seq l → pool.step l = some pool' → HasToken seq pool' :=
    fun _ _ _ h hl hstep => h.step hl.1 hl.2 hstep
  have htoken := always_of_eachStep hkept (hasToken_init seq) (EachStep.of_forall hspares)
  exact htoken.mono (fun _ h => ⟨h.sequential, drained_of_idle h.sequential⟩)

theorem sequential_always_two
    : Always step (fun pool => (pool.view ()).Sequential
        ∧ (pool.Idle → (pool.seqs ()).jobs = []
            ∧ (pool.seqs ()).started = (pool.seqs ()).accepted))
      (init : ThreadPool 1 Unit Nat Empty)
      [.enqueueSeq () 1 none, .enqueueSeqPush (), .enqueueSeq () 2 none, .pop 0, .call 0, .return 0,
        .lockSeq 0, .requeue 0, .leave 0, .pop 0, .call 0, .return 0, .lockSeq 0, .leave 0] :=
  sequential_always () (by simp [Label.KeepsOpen]) (by simp [Label.KeepsJobs])

/--
With `stop_jobs` the promise holds throughout a run if and only if no call of it empties `jobs` while
the class is busy.
-/
theorem sequential_always_iff (seq : σ) {ls : List (Label n σ φ ρ)}
    (hopen : ∀ l ∈ ls, l.KeepsOpen seq)
    : Always step (fun pool => (pool.view seq).Sequential) init ls
        ↔
      EachStep step (Spares seq) init ls := by
  refine always_iff_eachStep (I := HasToken seq) (fun _ => HasToken.sequential) ?_ ?_
    (hasToken_init seq) hopen
  . exact fun _ _ _ h hl hspare hstep => h.step hl hspare hstep
  . intro pool l pool' h hl hspare hstep
    obtain ⟨hacc, t, hmatches⟩ := h
    cases l with
    | stopJobs s cb =>
      simp only [Spares, not_forall, not_or, not_exists, not_and, Bool.not_eq_false] at hspare
      obtain ⟨hs, hfree, hall⟩ := hspare
      subst hs
      simp only [ThreadPool.step] at hstep
      split at hstep
      . contradiction
      . injection hstep with hstep
        rw [← hstep, view_setSeq]
        exact hmatches.not_sequential_stopJobs (by simpa using hfree) hall
    | _ => exact absurd trivial hspare

theorem sequential_always_iff_keepOdd
    : Always step (fun pool => (pool.view ()).Sequential) (init : ThreadPool 1 Unit Nat Empty)
          [.enqueueSeq () 1 none, .enqueueSeqPush (), .enqueueSeq () 2 none, .enqueueSeq () 3 none,
            .stopJobs () (· % 2 == 0), .pop 0]
        ↔
      EachStep step (Spares ()) (init : ThreadPool 1 Unit Nat Empty)
          [.enqueueSeq () 1 none, .enqueueSeqPush (), .enqueueSeq () 2 none, .enqueueSeq () 3 none,
            .stopJobs () (· % 2 == 0), .pop 0] :=
  sequential_always_iff () (by simp [Label.KeepsOpen])

/--
A call of `stop_jobs` finds nothing to stop while job 1 is running, and job 2 runs next to it.
-/
theorem stopJobs_two_running
    : ∃ pool, exec step (init : ThreadPool 2 Unit Nat Empty)
          [.enqueueSeq () 1 none, .enqueueSeqPush (), .pop 0, .call 0, .stopJobs () (fun _ => true),
            .enqueueSeq () 2 none, .enqueueSeqPush (), .pop 1, .call 1] = some pool
        ∧ pool.workers 0 = .running ⟨.seqWrapper 1 (), none⟩
        ∧ pool.workers 1 = .running ⟨.seqWrapper 2 (), none⟩
        ∧ (pool.view ()).wrappers = 2 :=
  ⟨_, rfl, rfl, rfl, rfl⟩

end ThreadPool

end HCraft
