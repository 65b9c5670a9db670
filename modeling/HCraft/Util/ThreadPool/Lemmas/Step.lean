import HCraft.Util.ThreadPool.Lemmas.Moves
import HCraft.Util.ThreadPool.Lemmas.Token

/-!
This module contains what a step of the pool means to a sequence class, and how it moves the token.
-/

namespace HCraft

variable {n : Nat} {σ φ ρ : Type}

namespace View

/--
The steps that one class sees, `stop_jobs` and `disable_seq` apart.
-/
inductive Step : View n φ ρ → View n φ ρ → Prop where
  | enqueueFirst (v : View n φ ρ) (job : Job φ ρ) (hmtx : v.cls.mtx = none)
      (hfree : v.cls.free = true)
      : Step v { v with cls := { v.cls with free := false, mtx := some (.enqueueSeq job) } }
  | enqueueNext (v : View n φ ρ) (job : Job φ ρ) (hmtx : v.cls.mtx = none)
      (hfree : v.cls.free = false)
      : Step v { v with cls := { v.cls with
          jobs := v.cls.jobs ++ [job], accepted := v.cls.accepted ++ [job] } }
  | push (v : View n φ ρ) (job : Job φ ρ) (hmtx : v.cls.mtx = some (.enqueueSeq job))
      : Step v { v with
          cls := { v.cls with mtx := none, accepted := v.cls.accepted ++ [job] }
          queued := v.queued ++ [job] }
  | pop (v : View n φ ρ) (w : Fin n) (job : Job φ ρ) (queued : List (Job φ ρ))
      (hqueued : v.queued = job :: queued) (hheld : v.held w = none)
      : Step v { v with
          queued := queued
          held := Function.update v.held w (some (.popped job)) }
  | call (v : View n φ ρ) (w : Fin n) (job : Job φ ρ) (hheld : v.held w = some (.popped job))
      : Step v { v with
          cls := { v.cls with started := v.cls.started ++ [job] }
          held := Function.update v.held w (some .running) }
  | return (v : View n φ ρ) (w : Fin n) (hheld : v.held w = some .running)
      : Step v { v with held := Function.update v.held w (some .returned) }
  | release (v : View n φ ρ) (w : Fin n) (hheld : v.held w = some .returned)
      (hmtx : v.cls.mtx = none) (hjobs : v.cls.jobs = [])
      : Step v { v with
          cls := { v.cls with free := true }
          held := Function.update v.held w none }
  | next (v : View n φ ρ) (w : Fin n) (job : Job φ ρ) (jobs : List (Job φ ρ))
      (hheld : v.held w = some .returned) (hmtx : v.cls.mtx = none)
      (hjobs : v.cls.jobs = job :: jobs)
      : Step v { v with
          cls := { v.cls with jobs := jobs, mtx := some (.seqWrapper w) }
          held := Function.update v.held w (some (.requeueing job)) }
  | requeue (v : View n φ ρ) (w : Fin n) (job : Job φ ρ)
      (hheld : v.held w = some (.requeueing job))
      : Step v { v with
          cls := { v.cls with mtx := none }
          queued := v.queued ++ [job]
          held := Function.update v.held w none }

/--
A worker that has a wrapper in hand has the only one.
-/
theorem Matches.eq_held {v : View n φ ρ} {t : Token n φ ρ} (h : v.Matches t) {w : Fin n}
    {x : Hold φ ρ} (hheld : v.held w = some x) : t = .held w x := by
  rw [h.held] at hheld
  cases t with
  | held w' y =>
    by_cases hw : w = w'
    . subst hw
      simp only [Token.inHand, Function.update_self, Option.some.injEq] at hheld
      rw [hheld]
    . simp [Token.inHand, Function.update_of_ne hw] at hheld
  | _ => simp [Token.inHand] at hheld

theorem Matches.step {v v' : View n φ ρ} {t : Token n φ ρ} (h : v.Matches t) (hstep : Step v v')
    : ∃ t', v'.Matches t' := by
  cases hstep with
  | enqueueFirst job hmtx hfree =>
    have ht : t = .free := by
      have := h.free
      rw [hfree] at this
      cases t with
      | free => rfl
      | _ => simp [Token.isFree] at this
    subst ht
    refine ⟨.pushing job, ⟨rfl, rfl, h.queued, h.held, ?_, fun _ => h.first trivial⟩⟩
    simpa [Token.unstarted] using h.accepted
  | enqueueNext job hmtx hfree =>
    have hbusy : ¬ t.isFirst := by
      intro hfirst
      have hf := h.free
      have hm := h.mtx
      rw [hfree] at hf
      rw [hmtx] at hm
      cases t with
      | free => simp [Token.isFree] at hf
      | pushing => simp [Token.mtx] at hm
      | _ => exact hfirst
    refine ⟨t, ⟨h.free, h.mtx, h.queued, h.held, ?_, fun hfirst => absurd hfirst hbusy⟩⟩
    simp [h.accepted]
  | push job hmtx =>
    have ht : t = .pushing job := by
      have := h.mtx
      rw [hmtx] at this
      cases t with
      | pushing job' => simpa [Token.mtx] using this.symm
      | held w x => cases x <;> simp [Token.mtx] at this
      | _ => simp [Token.mtx] at this
    subst ht
    have hjobs := h.first trivial
    refine ⟨.queued job, ⟨h.free, rfl, ?_, h.held, ?_, fun hfirst => hfirst.elim⟩⟩
    . simp [h.queued, Token.inQueue]
    . simp [h.accepted, hjobs, Token.unstarted]
  | pop w job queued hqueued hheld =>
    have ht : t = .queued job ∧ queued = [] := by
      have := h.queued
      rw [hqueued] at this
      cases t with
      | queued job' => simpa [Token.inQueue] using this.symm
      | _ => simp [Token.inQueue] at this
    rcases ht with ⟨rfl, rfl⟩
    refine ⟨.held w (.popped job), ⟨h.free, h.mtx, rfl, ?_, h.accepted, fun hfirst => hfirst.elim⟩⟩
    rw [h.held]
    rfl
  | call w job hheld =>
    have ht := h.eq_held hheld
    subst ht
    refine ⟨.held w .running, ⟨h.free, h.mtx, h.queued, ?_, ?_, fun hfirst => hfirst.elim⟩⟩
    . simp [h.held, Token.inHand]
    . simp [h.accepted, Token.unstarted, Hold.unstarted]
  | «return» w hheld =>
    have ht := h.eq_held hheld
    subst ht
    refine ⟨.held w .returned, ⟨h.free, h.mtx, h.queued, ?_, h.accepted, fun hfirst => hfirst.elim⟩⟩
    simp [h.held, Token.inHand]
  | release w hheld hmtx hjobs =>
    have ht := h.eq_held hheld
    subst ht
    refine ⟨.free, ⟨rfl, hmtx, h.queued, ?_, ?_, fun _ => hjobs⟩⟩
    . simp [h.held, Token.inHand]
    . simpa [Token.unstarted, Hold.unstarted] using h.accepted
  | next w job jobs hheld hmtx hjobs =>
    have ht := h.eq_held hheld
    subst ht
    refine ⟨.held w (.requeueing job), ⟨h.free, rfl, h.queued, ?_, ?_, fun hfirst => hfirst.elim⟩⟩
    . simp [h.held, Token.inHand]
    . simp [h.accepted, hjobs, Token.unstarted, Hold.unstarted]
  | requeue w job hheld =>
    have ht := h.eq_held hheld
    subst ht
    refine ⟨.queued job, ⟨h.free, rfl, ?_, ?_, h.accepted, fun hfirst => hfirst.elim⟩⟩
    . simp [h.queued, Token.inQueue]
    . simp [h.held, Token.inHand]

end View

section Pool

variable [DecidableEq σ]

@[simp]
theorem seqJob_plain (fn : φ) (refc : Option ρ) (seq : σ)
    : (PoolJob.mk (.plain fn) refc).seqJob seq = none := rfl

@[simp]
theorem seqJob_seqWrapper (fn : φ) (refc : Option ρ) (seq : σ)
    : (PoolJob.mk (.seqWrapper fn seq) refc).seqJob seq = some ⟨fn, refc⟩ := by
  simp [PoolJob.seqJob]

theorem seqJob_of_ne (fn : φ) (refc : Option ρ) {seq seq' : σ} (h : seq' ≠ seq)
    : (PoolJob.mk (.seqWrapper fn seq') refc).seqJob seq = none := by
  simp [PoolJob.seqJob, h]

theorem seqJob_seqWrapper_eq_some {fn : φ} {refc : Option ρ} {seq seq' : σ} {job : Job φ ρ}
    (h : (PoolJob.mk (.seqWrapper fn seq') refc).seqJob seq = some job)
    : seq' = seq ∧ ⟨fn, refc⟩ = job := by
  by_cases hs : seq' = seq
  . subst hs
    rw [seqJob_seqWrapper] at h
    exact ⟨rfl, Option.some.inj h⟩
  . rw [seqJob_of_ne _ _ hs] at h
    cases h

namespace ThreadPool

variable (pool : ThreadPool n σ φ ρ)

@[simp]
theorem view_cls (seq : σ) : (pool.view seq).cls = pool.seqs seq := rfl

@[simp]
theorem view_setSeq (seq : σ) (cls : SeqClass n φ ρ)
    : (pool.setSeq seq cls).view seq = { pool.view seq with cls := cls } := by
  simp [view]

theorem view_setSeq_of_ne {seq seq' : σ} (h : seq' ≠ seq) (cls : SeqClass n φ ρ)
    : (pool.setSeq seq' cls).view seq = pool.view seq := by
  simp [view, Function.update_of_ne (Ne.symm h)]

@[simp]
theorem view_setWorker (w : Fin n) (s : Worker σ φ ρ) (seq : σ)
    : (pool.setWorker w s).view seq
        =
      { pool.view seq with held := Function.update (pool.view seq).held w (s.hold seq) } := by
  simp only [view, setWorker_seqs, setWorker_jobs, setWorker_workers, View.mk.injEq, true_and]
  funext w'
  by_cases hw : w' = w
  . simp [hw]
  . simp [Function.update_of_ne hw]

theorem view_setWorker_of_hold {w : Fin n} {s : Worker σ φ ρ} {seq : σ}
    (h : s.hold seq = (pool.workers w).hold seq)
    : (pool.setWorker w s).view seq = pool.view seq := by
  have hheld : Function.update (pool.view seq).held w (s.hold seq) = (pool.view seq).held := by
    rw [h]
    exact Function.update_eq_self w (pool.view seq).held
  rw [view_setWorker, hheld]

section Counters

variable [DecidableEq ρ]

@[simp]
theorem view_addRef (refc : Option ρ) (d : Int) (seq : σ)
    : (pool.addRef refc d).view seq = pool.view seq := by
  simp [view]

theorem view_enqueue {pool : ThreadPool n σ φ ρ} (h : pool.accepting = true) (task : Task σ φ)
    (refc : Option ρ) (seq : σ)
    : (pool.enqueue task refc).2.view seq
        =
      { pool.view seq with
        queued := (pool.view seq).queued ++ ((PoolJob.mk task refc).seqJob seq).toList } := by
  obtain ⟨_, hjobs⟩ := enqueue_of_accepting refc task h
  simp only [view, enqueue_seqs, enqueue_workers, hjobs, List.filterMap_append, View.mk.injEq,
    true_and, and_true, List.append_cancel_left_eq]
  cases hj : (PoolJob.mk task refc).seqJob seq <;> simp [hj]

theorem view_enqueue_of_none {pool : ThreadPool n σ φ ρ} (h : pool.accepting = true)
    {task : Task σ φ} {refc : Option ρ} {seq : σ} (hnone : (PoolJob.mk task refc).seqJob seq = none)
    : (pool.enqueue task refc).2.view seq = pool.view seq := by
  rw [view_enqueue h, hnone, Option.toList_none, List.append_nil]

variable {pool}

/--
What a step of an accepting pool is to one class: nothing, a step of the class, or one of the calls
that take jobs away from it.
-/
theorem step_view {pool' : ThreadPool n σ φ ρ} {l : Label n σ φ ρ} (h : pool.step l = some pool')
    (hacc : pool.accepting = true) (seq : σ)
    : pool'.view seq = pool.view seq
        ∨ View.Step (pool.view seq) (pool'.view seq)
        ∨ (∃ cb, l = .stopJobs seq cb
          ∧ pool'.view seq = { pool.view seq with cls := (pool.seqs seq).stopJobs cb })
        ∨ l = .disableSeq seq := by
  cases step_moves h with
  | enqueue fn refc => exact .inl (view_enqueue_of_none hacc rfl)
  | enqueueSeq s fn refc hmtx =>
    by_cases hs : s = seq
    . subst hs
      rw [view_setSeq]
      unfold SeqClass.enqueueSeq
      split
      . left
        rfl
      . right; left
        split
        . next hfree => exact .enqueueFirst (pool.view s) ⟨fn, refc⟩ hmtx hfree
        . next hfree => exact .enqueueNext (pool.view s) ⟨fn, refc⟩ hmtx (by simpa using hfree)
    . left
      exact view_setSeq_of_ne pool hs _
  | enqueueSeqPush s job hmtx =>
    by_cases hs : s = seq
    . subst hs
      right; left
      have := View.Step.push (pool.view s) job hmtx
      rw [view_setSeq, view_enqueue hacc, (enqueue_of_accepting job.refc _ hacc).1]
      simpa [SeqClass.enqueued] using this
    . left
      rw [view_setSeq_of_ne _ hs, view_enqueue_of_none hacc (seqJob_of_ne _ _ hs)]
  | stopJobs s cb hmtx =>
    by_cases hs : s = seq
    . subst hs
      right; right; left
      exact ⟨cb, rfl, view_setSeq pool s _⟩
    . left
      exact view_setSeq_of_ne pool hs _
  | disableSeq s hmtx =>
    by_cases hs : s = seq
    . subst hs
      right; right; right
      rfl
    . left
      exact view_setSeq_of_ne pool hs _
  | join => exact .inl rfl
  | stop => exact .inl rfl
  | pop w j jobs hw _ hjobs =>
    have hheld : (pool.view seq).held w = none := by simp [view, hw, Worker.hold]
    cases hj : j.seqJob seq with
    | none =>
      left
      have hsame : ({ pool with jobs := jobs } : ThreadPool n σ φ ρ).view seq = pool.view seq := by
        simp [view, hjobs, hj]
      rw [view_setWorker_of_hold, hsame]
      simp [hw, Worker.hold, hj]
    | some job =>
      right; left
      have hqueued : (pool.view seq).queued = job :: jobs.filterMap (·.seqJob seq) := by
        simp [view, hjobs, hj]
      have := View.Step.pop (pool.view seq) w job _ hqueued hheld
      rw [view_setWorker, Worker.hold, hj]
      exact this
  | callPlain w fn refc hw =>
    left
    apply view_setWorker_of_hold
    simp [hw, Worker.hold]
  | callSeq w fn s refc hw =>
    by_cases hs : s = seq
    . subst hs
      right; left
      have hheld : (pool.view s).held w = some (.popped ⟨fn, refc⟩) := by
        simp [view, hw, Worker.hold]
      have := View.Step.call (pool.view s) w ⟨fn, refc⟩ hheld
      rw [view_setWorker, view_setSeq]
      simpa [Worker.hold] using this
    . left
      rw [view_setWorker_of_hold, view_setSeq_of_ne _ hs]
      simp [hw, Worker.hold, seqJob_of_ne _ _ hs]
  | returnPlain w fn refc hw =>
    left
    apply view_setWorker_of_hold
    simp [hw, Worker.hold]
  | returnSeq w fn s refc hw =>
    by_cases hs : s = seq
    . subst hs
      right; left
      have hheld : (pool.view s).held w = some .running := by simp [view, hw, Worker.hold]
      have := View.Step.return (pool.view s) w hheld
      rw [view_setWorker]
      simpa [Worker.hold] using this
    . left
      apply view_setWorker_of_hold
      simp [hw, Worker.hold, seqJob_of_ne _ _ hs]
  | release w fn s refc hw hmtx hjobs =>
    by_cases hs : s = seq
    . subst hs
      right; left
      have hheld : (pool.view s).held w = some .returned := by simp [view, hw, Worker.hold]
      have := View.Step.release (pool.view s) w hheld hmtx hjobs
      rw [view_setWorker, view_setSeq]
      simpa [Worker.hold] using this
    . left
      rw [view_setWorker_of_hold, view_setSeq_of_ne _ hs]
      simp [hw, Worker.hold, seqJob_of_ne _ _ hs]
  | next w fn s refc job jobs hw hmtx hjobs =>
    by_cases hs : s = seq
    . subst hs
      right; left
      have hheld : (pool.view s).held w = some .returned := by simp [view, hw, Worker.hold]
      have := View.Step.next (pool.view s) w job jobs hheld hmtx hjobs
      rw [view_setWorker, view_setSeq]
      simpa [Worker.hold] using this
    . left
      rw [view_setWorker_of_hold, view_setSeq_of_ne _ hs]
      simp [hw, Worker.hold, seqJob_of_ne _ _ hs]
  | requeue w fn s refc job hw =>
    by_cases hs : s = seq
    . subst hs
      right; left
      have hheld : (pool.view s).held w = some (.requeueing job) := by simp [view, hw, Worker.hold]
      have := View.Step.requeue (pool.view s) w job hheld
      rw [view_setWorker, view_setSeq, view_enqueue hacc]
      simpa [Worker.hold] using this
    . left
      rw [view_setWorker_of_hold, view_setSeq_of_ne _ hs,
        view_enqueue_of_none hacc (seqJob_of_ne _ _ hs)]
      simp [hw, Worker.hold, seqJob_of_ne _ _ hs]
  | leave w j hw =>
    left
    rw [view_setWorker_of_hold, view_addRef]
    simp [hw, Worker.hold]

theorem step_accepting {pool' : ThreadPool n σ φ ρ} {l : Label n σ φ ρ}
    (h : pool.step l = some pool') (hl : l ≠ .join) : pool'.accepting = pool.accepting := by
  cases step_moves h with
  | join => exact absurd rfl hl
  | _ => simp

end Counters

end ThreadPool

end Pool

end HCraft
