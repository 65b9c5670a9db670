import HCraft.Util.ThreadPool.Lemmas.Ledger
import HCraft.Util.ThreadPool.Release

/-!
This module contains what becomes of the jobs of a class that is released.
-/

namespace HCraft

open Transition

variable {n : Nat} {σ φ ρ : Type} [DecidableEq σ]

namespace ThreadPool

variable {pool pool' : ThreadPool n σ φ ρ} {seq : σ}

/--
No wrapper of the class is in the queue, or with a worker that may still come for the class.
-/
def Unused (seq : σ) (pool : ThreadPool n σ φ ρ) : Prop :=
  (pool.view seq).queued = [] ∧ ∀ w, (pool.view seq).held w = none

instance (seq : σ) (pool : ThreadPool n σ φ ρ) : Decidable (Unused seq pool) :=
  decidable_of_iff
    ((pool.view seq).queued.isEmpty = true ∧ ∀ w, ((pool.view seq).held w).isNone = true)
    (by simp [Unused])

/--
No job waits in the class, and nobody holds its mutex.
-/
def Emptied (seq : σ) (pool : ThreadPool n σ φ ρ) : Prop :=
  (pool.seqs seq).jobs = [] ∧ (pool.seqs seq).mtx = none

theorem Emptied.setSeq (h : Emptied seq pool) {s : σ} {cls : SeqClass n φ ρ}
    (hcls : s = seq → cls.jobs = [] ∧ cls.mtx = none) : Emptied seq (pool.setSeq s cls) := by
  unfold Emptied
  rw [setSeq_seqs]
  by_cases hs : seq = s
  . rw [hs, Function.update_self]
    exact hcls hs.symm
  . rw [Function.update_of_ne hs]
    exact h

omit [DecidableEq σ] in
theorem Emptied.congr (h : Emptied seq pool) (hseqs : pool'.seqs seq = pool.seqs seq)
    : Emptied seq pool' := by
  unfold Emptied
  rw [hseqs]
  exact h

variable [DecidableEq ρ]

theorem Emptied.step (h : Emptied seq pool) {l : Label n σ φ ρ} (hl : l.Submits)
    (hnew : ∀ fn refc, l ≠ .enqueueSeq seq fn refc) (hstep : pool.step l = some pool')
    : Emptied seq pool' := by
  cases step_moves hstep with
  | enqueue fn refc =>
    apply h.congr
    rw [enqueue_seqs]
  | enqueueSeq s fn refc hmtx =>
    apply h.setSeq
    rintro rfl
    exact absurd rfl (hnew fn refc)
  | enqueueSeqPush s job hmtx =>
    apply Emptied.setSeq
    . apply h.congr
      rw [enqueue_seqs]
    . rintro rfl
      rw [h.right] at hmtx
      cases hmtx
  | stopJobs s cb hmtx => exact absurd hl id
  | disableSeq s hmtx => exact absurd hl id
  | join => exact absurd hl id
  | stop => exact absurd hl id
  | pop w j jobs hw _ hjobs => exact h
  | callPlain w fn refc hw => exact h
  | callSeq w fn s refc hw =>
    apply Emptied.congr _ (congrFun (setWorker_seqs _ _ _) _)
    apply h.setSeq
    rintro rfl
    exact h
  | returnPlain w fn refc hw => exact h
  | returnSeq w fn s refc hw => exact h
  | release w fn s refc hw hmtx hjobs =>
    apply Emptied.congr _ (congrFun (setWorker_seqs _ _ _) _)
    apply h.setSeq
    rintro rfl
    exact h
  | next w fn s refc next jobs hw hmtx hjobs =>
    apply Emptied.congr _ (congrFun (setWorker_seqs _ _ _) _)
    apply h.setSeq
    rintro rfl
    rw [h.left] at hjobs
    cases hjobs
  | requeue w fn s refc next hw =>
    apply Emptied.congr _ (congrFun (setWorker_seqs _ _ _) _)
    apply Emptied.setSeq
    . apply h.congr
      rw [enqueue_seqs]
    . rintro rfl
      exact ⟨h.left, rfl⟩
  | leave w j hw =>
    apply h.congr
    rw [setWorker_seqs, addRef_seqs]

theorem Unused.step (h : Unused seq pool) (hemptied : Emptied seq pool)
    (hacc : pool.accepting = true) {l : Label n σ φ ρ} (hl : l.Submits)
    (hnew : ∀ fn refc, l ≠ .enqueueSeq seq fn refc) (hstep : pool.step l = some pool')
    : Unused seq pool' := by
  have hemptied' := hemptied.step hl hnew hstep
  have ⟨hqueued, hheld⟩ := h
  rcases step_view hstep hacc seq with hsame | hview | ⟨cb, rfl, _⟩ | rfl
  . unfold Unused
    rw [hsame]
    exact h
  . generalize hv : pool.view seq = v at hview hqueued hheld
    generalize hv' : pool'.view seq = v' at hview
    have hmtx : v.cls.mtx = none := by
      rw [← hv]
      exact hemptied.right
    have hjobs : v.cls.jobs = [] := by
      rw [← hv]
      exact hemptied.left
    have hmtx' : v'.cls.mtx = none := by
      rw [← hv']
      exact hemptied'.right
    have hjobs' : v'.cls.jobs = [] := by
      rw [← hv']
      exact hemptied'.left
    cases hview with
    | enqueueFirst job => cases hmtx'
    | enqueueNext job => exact absurd hjobs' (by simp)
    | push job hpush =>
      rw [hmtx] at hpush
      cases hpush
    | pop w job queued hpop =>
      rw [hqueued] at hpop
      cases hpop
    | call w job hw | «return» w hw | release w hw | next w job jobs hw | requeue w job hw =>
      rw [hheld w] at hw
      cases hw
  . exact absurd hl id
  . exact absurd hl id

end ThreadPool

namespace Releasing

open ThreadPool

variable {st st' : Releasing n σ φ ρ} {seq : σ}

def Action.Submits : Action n σ φ ρ → Prop
  | .pool l => l.Submits
  | _ => True

/--
If the step deletes the class, then no wrapper of it is left.
-/
def WhenUnused (seq : σ) : Except Fault (Releasing n σ φ ρ) → Action n σ φ ρ → Prop
  | .ok st, .delete => Unused seq st.pool
  | _, _ => True

instance (seq : σ) : ∀ r (a : Action n σ φ ρ), Decidable (WhenUnused seq r a)
  | .ok st, .delete => inferInstanceAs (Decidable (Unused seq st.pool))
  | .ok _, .pool _ => .isTrue trivial
  | .ok _, .disableSeq => .isTrue trivial
  | .error _, _ => .isTrue trivial

structure Invariant (seq : σ) (st : Releasing n σ φ ρ) : Prop where
  accepting : st.pool.accepting = true
  emptied : st.phase ≠ .live → Emptied seq st.pool
  unused : st.phase = .deleted → Unused seq st.pool

theorem invariant_init (seq : σ) : Invariant seq (init : Releasing n σ φ ρ) where
  accepting := rfl
  emptied h := absurd rfl h
  unused h := by cases h

variable [DecidableEq ρ]

omit [DecidableEq ρ] in
theorem not_touches (hunused : Unused seq st.pool) (hemptied : Emptied seq st.pool) {l : Label n σ φ ρ}
    (hl : l.Submits) : touches seq st.pool l = false := by
  obtain ⟨_, hheld⟩ := hunused
  cases l with
  | enqueueSeqPush s =>
    simp only [touches]
    rw [decide_eq_false_iff_not]
    rintro ⟨rfl, hmtx⟩
    rw [hemptied.right] at hmtx
    cases hmtx
  | stopJobs s cb => exact absurd hl id
  | disableSeq s => exact absurd hl id
  | lockSeq w =>
    simp only [touches]
    split
    . next fn s refc hw =>
      rw [decide_eq_false_iff_not]
      rintro rfl
      have hnone := hheld w
      simp [view, hw, Worker.hold] at hnone
    . rfl
  | requeue w =>
    simp only [touches]
    split
    . next fn s refc next hw =>
      rw [decide_eq_false_iff_not]
      rintro rfl
      have hnone := hheld w
      simp [view, hw, Worker.hold] at hnone
    . rfl
  | _ => rfl

/--
What a step of the pool is while it is not one that comes for a deleted class.
-/
theorem act_pool (h : Invariant seq st) {l : Label n σ φ ρ} (hl : l.Submits)
    {r : Except Fault (Releasing n σ φ ρ)} (hact : st.act seq (.pool l) = some r)
    : ∃ pool, st.pool.step l = some pool ∧ r = .ok { st with pool }
        ∧ (st.phase ≠ .live → ∀ fn refc, l ≠ .enqueueSeq seq fn refc) := by
  have htouch : ¬ (st.phase = .deleted ∧ touches seq st.pool l) := by
    rintro ⟨hphase, htouch⟩
    rw [not_touches (h.unused hphase) (h.emptied (by simp [hphase])) hl] at htouch
    cases htouch
  have hplain (hact : (st.pool.step l).map (fun pool => Except.ok { st with pool }) = some r)
      : ∃ pool, st.pool.step l = some pool ∧ r = .ok { st with pool } := by
    obtain ⟨pool, hstep, hr⟩ := Option.map_eq_some_iff.mp hact
    exact ⟨pool, hstep, hr.symm⟩
  cases l with
  | enqueueSeq s fn refc =>
    simp only [act] at hact
    split at hact
    . cases hact
    . next hnot =>
      obtain ⟨pool, hstep, hr⟩ := hplain hact
      refine ⟨pool, hstep, hr, ?_⟩
      intro hphase fn' refc' heq
      injection heq with hs
      exact hnot ⟨hs, hphase⟩
  | _ =>
    simp only [act] at hact
    rw [if_neg htouch] at hact
    obtain ⟨pool, hstep, hr⟩ := hplain hact
    exact ⟨pool, hstep, hr, fun _ _ _ => nofun⟩

section Accounts

variable [DecidableEq φ]

omit [DecidableEq σ] [DecidableEq φ] [DecidableEq ρ] in
theorem entry_eq_some {task : Task σ φ} {fn : φ} (h : task.entry = (some seq, fn))
    : task = .seqWrapper fn seq := by
  cases task with
  | plain fn' => cases h
  | seqWrapper fn' s =>
    cases h
    rfl

omit [DecidableEq ρ] in
theorem unfinished_of_unused {pool : ThreadPool n σ φ ρ} (hunused : Unused seq pool)
    (hemptied : Emptied seq pool) (fn : φ) : pool.unfinished (some seq, fn) = 0 := by
  obtain ⟨hqueued, hheld⟩ := hunused
  have hclass : pool.classJobs (some seq, fn) = 0 := by
    unfold classJobs
    dsimp only
    rw [hemptied.left]
    rfl
  unfold unfinished
  rw [hclass, Nat.zero_add]
  apply total_eq_zero
  . intro j hj
    apply if_neg
    intro heq
    injection heq with heq
    have hnone : j.seqJob seq = none := List.filterMap_eq_nil_iff.mp hqueued j hj
    rw [PoolJob.seqJob, entry_eq_some heq] at hnone
    simp at hnone
  . intro w
    apply if_neg
    intro heq
    have hnone := hheld w
    simp only [view] at hnone
    cases hw : pool.workers w with
    | popped j | running j =>
      rw [hw] at heq hnone
      injection heq with heq
      rw [Worker.hold, PoolJob.seqJob, entry_eq_some heq] at hnone
      simp at hnone
    | requeueing j next =>
      rcases j with ⟨task, refc⟩
      rw [hw] at heq hnone
      cases task with
      | plain fn' => cases heq
      | seqWrapper fn' s =>
        injection heq with heq
        injection heq with hs
        injection hs with hs
        subst hs
        simp [Worker.hold] at hnone
    | _ =>
      rw [hw] at heq
      cases heq

omit [DecidableEq ρ] in
theorem unfinished_disableSeq (pool : ThreadPool n σ φ ρ) (seq : σ) (fn : φ)
    : (pool.setSeq seq (pool.seqs seq).disableSeq).unfinished (some seq, fn)
          + ((pool.seqs seq).jobs.map (·.fn)).count fn
        =
      pool.unfinished (some seq, fn) := by
  have hnone : (pool.setSeq seq (pool.seqs seq).disableSeq).classJobs (some seq, fn) = 0 := by
    unfold classJobs
    dsimp only
    rw [setSeq_seqs, Function.update_self]
    rfl
  have hclass : pool.classJobs (some seq, fn) = ((pool.seqs seq).jobs.map (·.fn)).count fn := rfl
  unfold unfinished
  rw [hnone, total_setSeq, hclass]
  omega

/--
What the steps of the pool leave behind.
-/
def onPool {α : Type} (f : ThreadPool n σ φ ρ → Label n σ φ ρ → Option α)
    : Except Fault (Releasing n σ φ ρ) → Action n σ φ ρ → Option α
  | .ok st, .pool l => f st.pool l
  | _, _ => none

/--
How often a job of the class has been handed to the callback.
-/
def handedTo (st : Releasing n σ φ ρ) (fn : φ) : Nat :=
  (st.handed.map (·.fn)).count fn

theorem act_spec (h : Invariant seq st) {a : Action n σ φ ρ} (ha : a.Submits)
    (hunused : WhenUnused seq (.ok st) a) {r : Except Fault (Releasing n σ φ ρ)}
    (hact : st.act seq a = some r)
    : ∃ st', r = .ok st' ∧ Invariant seq st'
        ∧ ∀ fn, st'.pool.unfinished (some seq, fn)
              + one (onPool finishes (.ok st) a) (some seq, fn) + st'.handedTo fn
            = st.pool.unfinished (some seq, fn)
              + one (onPool accepts (.ok st) a) (some seq, fn) + st.handedTo fn := by
  cases a with
  | pool l =>
    obtain ⟨pool, hstep, hr, hnew⟩ := act_pool h ha hact
    have hjoin : l ≠ .join := by
      rintro rfl
      exact ha
    refine ⟨{ st with pool }, hr, ?_, ?_⟩
    . exact {
        accepting := (step_accepting hstep hjoin).trans h.accepting
        emptied := fun hphase => (h.emptied hphase).step ha (hnew hphase) hstep
        unused := by
          intro hphase
          have hlive : st.phase ≠ .live := by
            intro hlive
            rw [hlive] at hphase
            cases hphase
          exact (h.unused hphase).step (h.emptied hlive) h.accepting ha (hnew hlive) hstep
      }
    . intro fn
      have hsum := unfinished_step (.inl ha) hstep (some seq, fn)
      have hdrops : st.pool.drops l = none := by
        cases l with
        | requeue w => exact if_pos h.accepting
        | _ => rfl
      rw [hdrops, one_none, Nat.add_zero] at hsum
      have hsame : ({ st with pool } : Releasing n σ φ ρ).handedTo fn = st.handedTo fn := rfl
      simp only [onPool]
      omega
  | disableSeq =>
    simp only [act] at hact
    split at hact
    . obtain ⟨pool, hstep, hr⟩ := Option.map_eq_some_iff.mp hact
      simp only [ThreadPool.step] at hstep
      split at hstep
      . cases hstep
      . next hmtx =>
        injection hstep with hstep
        subst hstep
        refine ⟨_, hr.symm, ?_, ?_⟩
        . exact {
            accepting := h.accepting
            emptied := by
              intro _
              unfold Emptied
              dsimp only
              rw [setSeq_seqs, Function.update_self]
              rw [Option.not_isSome_iff_eq_none] at hmtx
              exact ⟨rfl, hmtx⟩
            unused := by
              intro hphase
              cases hphase
          }
        . intro fn
          have hsum := unfinished_disableSeq st.pool seq fn
          simp only [onPool, one_none, handedTo, List.map_append, List.count_append]
          omega
    . cases hact
  | delete =>
    simp only [act] at hact
    split at hact
    . next hphase =>
      injection hact with hr
      refine ⟨_, hr.symm, ?_, fun fn => rfl⟩
      exact {
        accepting := h.accepting
        emptied := fun _ => h.emptied (by simp [hphase])
        unused := fun _ => hunused
      }
    . cases hact

theorem exec_spec (h : Invariant seq st) {acts : List (Action n σ φ ρ)}
    (hacts : ∀ a ∈ acts, a.Submits) (hunused : EachStep (step seq) (WhenUnused seq) (.ok st) acts)
    {r : Except Fault (Releasing n σ φ ρ)} (hexec : exec (step seq) (.ok st) acts = some r)
    : ∃ st', r = .ok st' ∧ Invariant seq st'
        ∧ ∀ fn, st'.pool.unfinished (some seq, fn)
              + (history (step seq) (onPool finishes) (.ok st) acts).count (some seq, fn)
              + st'.handedTo fn
            = st.pool.unfinished (some seq, fn)
              + (history (step seq) (onPool accepts) (.ok st) acts).count (some seq, fn)
              + st.handedTo fn := by
  induction acts generalizing st with
  | nil =>
    injection hexec with hexec
    exact ⟨st, hexec.symm, h, fun _ => rfl⟩
  | cons a acts ih =>
    obtain ⟨r₁, hstep, hrest⟩ := exec_cons.mp hexec
    obtain ⟨hgood, hunused'⟩ := hunused r₁ hstep
    obtain ⟨st₁, hr₁, h₁, hnow⟩ := act_spec h (hacts a List.mem_cons_self) hgood hstep
    subst hr₁
    obtain ⟨st', hr, h', hthen⟩ := ih h₁ (fun a ha => hacts a (List.mem_cons_of_mem _ ha)) hunused'
      hrest
    refine ⟨st', hr, h', ?_⟩
    intro fn
    have hnow := hnow fn
    have hthen := hthen fn
    rw [history_cons hstep, history_cons hstep]
    simp only [List.count_append, count_toList]
    omega

/--
The class has not been used after its deletion, and each job of it that has been accepted has finished,
has been handed to the callback or is still to be done, which none is once the class is deleted.
-/
def Released (seq : σ) (acts : List (Action n σ φ ρ)) (r : Except Fault (Releasing n σ φ ρ)) : Prop :=
  ∃ st, r = .ok st
    ∧ ∀ fn, (history (step seq) (onPool accepts) (.ok init) acts).count (some seq, fn)
          = (history (step seq) (onPool finishes) (.ok init) acts).count (some seq, fn)
            + st.handedTo fn + st.pool.unfinished (some seq, fn)
        ∧ (st.phase = .deleted → st.pool.unfinished (some seq, fn) = 0)

/--
`release_seq` is safe in every run in which no wrapper of the class is left when it is deleted.
-/
theorem released_of_unused (seq : σ) {acts : List (Action n σ φ ρ)}
    (hacts : ∀ a ∈ acts, a.Submits)
    (hunused : EachStep (step seq) (WhenUnused seq) (.ok init) acts)
    {r : Except Fault (Releasing n σ φ ρ)} (hexec : exec (step seq) (.ok init) acts = some r)
    : Released seq acts r := by
  obtain ⟨st, hr, h, hsum⟩ := exec_spec (invariant_init seq) hacts hunused hexec
  refine ⟨st, hr, ?_⟩
  intro fn
  have hsum := hsum fn
  have hnone : (init : Releasing n σ φ ρ).handedTo fn = 0 := rfl
  have hinit : (init : Releasing n σ φ ρ).pool.unfinished (some seq, fn) = 0 := unfinished_init _
  refine ⟨by omega, ?_⟩
  intro hphase
  exact unfinished_of_unused (h.unused hphase) (h.emptied (by simp [hphase])) fn

end Accounts

section Runs

/--
The class is released once its only job has run.
-/
def releasedIdle : List (Action 1 Unit Nat Empty) :=
  [.pool (.enqueueSeq () 1 none), .pool (.enqueueSeqPush ()), .pool (.pop 0), .pool (.call 0),
    .pool (.return 0), .pool (.lockSeq 0), .disableSeq, .delete, .pool (.leave 0)]

theorem released_of_unused_idle
    : ∃ r, exec (step ()) (.ok init) releasedIdle = some r ∧ Released () releasedIdle r := by
  refine ⟨_, rfl, ?_⟩
  apply released_of_unused ()
  . simp [releasedIdle, Action.Submits, Label.Submits]
  . decide
  . rfl

/--
The class is released while its only job is running.
-/
def releasedRunning : List (Action 1 Unit Nat Empty) :=
  [.pool (.enqueueSeq () 1 none), .pool (.enqueueSeqPush ()), .pool (.pop 0), .pool (.call 0),
    .disableSeq, .delete, .pool (.return 0), .pool (.lockSeq 0)]

/--
The wrapper comes back for a class that is deleted.
-/
theorem not_released
    : ¬ ∀ (acts : List (Action 1 Unit Nat Empty)) r, (∀ a ∈ acts, a.Submits)
        → exec (step ()) (.ok init) acts = some r → Released () acts r := by
  intro h
  have hexec : exec (step ()) (.ok (init : Releasing 1 Unit Nat Empty)) releasedRunning
      = some (.error .useAfterFree) := rfl
  obtain ⟨st, hr, _⟩ := h releasedRunning _
    (by simp [releasedRunning, Action.Submits, Label.Submits]) hexec
  cases hr

end Runs

end Releasing

end HCraft
