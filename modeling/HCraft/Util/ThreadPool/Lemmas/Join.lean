import HCraft.Util.ThreadPool.Lemmas.Ledger

/-!
This module contains what `join` waits for.
-/

namespace HCraft

open Transition

variable {n : Nat} {σ φ ρ : Type}

/--
How far a worker is from waiting.
-/
def Worker.rank : Worker σ φ ρ → Nat
  | .waiting => 0
  | .leaving _ => 1
  | .requeueing _ _ => 2
  | .returned _ => 3
  | .running _ => 4
  | .popped _ => 5

namespace ThreadPool

section Progress

variable [DecidableEq σ] [DecidableEq ρ] {pool : ThreadPool n σ φ ρ}

/--
A pool that `join` has been called on.
-/
structure Closed (pool : ThreadPool n σ φ ρ) : Prop where
  sound : pool.Sound
  accepting : pool.accepting = false

omit [DecidableEq σ] in
theorem enqueue_of_closed (h : pool.accepting = false) (task : Task σ φ) (refc : Option ρ)
    : pool.enqueue task refc = (false, pool) := by
  unfold ThreadPool.enqueue
  rw [h]
  rfl

theorem Closed.step {pool' : ThreadPool n σ φ ρ} {l : Label n σ φ ρ} (h : pool.Closed)
    (hl : l.Submits) (hstep : pool.step l = some pool') : pool'.Closed where
  sound := h.sound.step (.inl hl) hstep
  accepting := by
    have hne : l ≠ .join := by
      rintro rfl
      exact hl
    rw [step_accepting hstep hne, h.accepting]

/--
A run of submissions and worker steps.
-/
def Reaches (pool pool' : ThreadPool n σ φ ρ) : Prop :=
  ∃ ls, (∀ l ∈ ls, l.Submits) ∧ exec ThreadPool.step pool ls = some pool'

theorem Reaches.refl (pool : ThreadPool n σ φ ρ) : pool.Reaches pool :=
  ⟨[], nofun, rfl⟩

theorem Reaches.head {pool₁ pool₂ : ThreadPool n σ φ ρ} {l : Label n σ φ ρ} (hl : l.Submits)
    (hstep : pool.step l = some pool₁) (h : pool₁.Reaches pool₂) : pool.Reaches pool₂ := by
  rcases h with ⟨ls, hls, hexec⟩
  exact ⟨l :: ls, List.forall_mem_cons.mpr ⟨hl, hls⟩, exec_cons.mpr ⟨pool₁, hstep, hexec⟩⟩

theorem Reaches.trans {pool₁ pool₂ : ThreadPool n σ φ ρ} (h₁ : pool.Reaches pool₁)
    (h₂ : pool₁.Reaches pool₂) : pool.Reaches pool₂ := by
  rcases h₁ with ⟨ls₁, hls₁, hexec₁⟩
  rcases h₂ with ⟨ls₂, hls₂, hexec₂⟩
  refine ⟨ls₁ ++ ls₂, ?_, exec_append.mpr ⟨pool₁, hexec₁, hexec₂⟩⟩
  intro l hl
  cases List.mem_append.mp hl with
  | inl hl => exact hls₁ l hl
  | inr hl => exact hls₂ l hl

theorem Closed.exists_unlocked (h : pool.Closed) (s : σ) {w : Fin n}
    (hw : ∀ j next, pool.workers w ≠ .requeueing j next)
    : ∃ pool', pool.Reaches pool' ∧ pool'.Closed ∧ (pool'.seqs s).mtx = none
        ∧ pool'.jobs = pool.jobs ∧ pool'.workers w = pool.workers w := by
  cases hmtx : (pool.seqs s).mtx with
  | none => exact ⟨pool, .refl pool, h, hmtx, rfl, rfl⟩
  | some holder =>
    cases holder with
    | enqueueSeq job =>
      have hstep : pool.step (.enqueueSeqPush s)
          = some (pool.setSeq s ((pool.seqs s).enqueued job false)) := by
        simp only [ThreadPool.step, hmtx, enqueue_of_closed h.accepting]
      refine ⟨_, .head (by trivial) hstep (.refl _), h.step (by trivial) hstep, ?_, rfl, rfl⟩
      rw [setSeq_seqs, Function.update_self]
      rfl
    | seqWrapper w' =>
      obtain ⟨fn, refc, next, hw'⟩ := h.sound.mtx s w' hmtx
      have hstep : pool.step (.requeue w') = some ((pool.setSeq s
          { pool.seqs s with mtx := none }).setWorker w' (.leaving ⟨.seqWrapper fn s, refc⟩)) := by
        simp only [ThreadPool.step, hw', enqueue_of_closed h.accepting]
      have hne : w ≠ w' := by
        rintro rfl
        exact hw _ _ hw'
      refine ⟨_, .head (by trivial) hstep (.refl _), h.step (by trivial) hstep, ?_, rfl, ?_⟩
      . rw [setWorker_seqs, setSeq_seqs, Function.update_self]
      . rw [setWorker_workers, Function.update_of_ne hne]
        rfl

theorem Closed.advance (h : pool.Closed) {pool₁ : ThreadPool n σ φ ρ} {l : Label n σ φ ρ} {w : Fin n}
    {s : Worker σ φ ρ} (rank : Nat) (hl : l.Submits)
    (hstep : pool.step l = some (pool₁.setWorker w s)) (hjobs : pool₁.jobs = pool.jobs)
    (hlt : s.rank < rank)
    : ∃ pool', pool.Reaches pool' ∧ pool'.Closed ∧ pool'.jobs = pool.jobs
        ∧ (pool'.workers w).rank < rank := by
  refine ⟨_, .head hl hstep (.refl _), h.step hl hstep, hjobs, ?_⟩
  rw [setWorker_workers, Function.update_self]
  exact hlt

/--
A worker that is not waiting can go on, without a change to the queue.
-/
theorem Closed.exists_rank_lt (h : pool.Closed) {w : Fin n} (hrank : 0 < (pool.workers w).rank)
    : ∃ pool', pool.Reaches pool' ∧ pool'.Closed ∧ pool'.jobs = pool.jobs
        ∧ (pool'.workers w).rank < (pool.workers w).rank := by
  cases hw : pool.workers w with
  | waiting =>
    rw [hw] at hrank
    cases hrank
  | popped j =>
    rcases j with ⟨task, refc⟩
    cases task with
    | plain fn =>
      have hstep : pool.step (.call w) = some (pool.setWorker w (.running ⟨.plain fn, refc⟩)) := by
        simp only [ThreadPool.step, hw]
      exact h.advance _ (by trivial) hstep rfl (by simp [Worker.rank])
    | seqWrapper fn s =>
      have hstep : pool.step (.call w) = some ((pool.setSeq s { pool.seqs s with
          started := (pool.seqs s).started ++ [⟨fn, refc⟩] }).setWorker w
            (.running ⟨.seqWrapper fn s, refc⟩)) := by
        simp only [ThreadPool.step, hw]
      exact h.advance _ (by trivial) hstep rfl (by simp [Worker.rank])
  | running j =>
    rcases j with ⟨task, refc⟩
    cases task with
    | plain fn =>
      have hstep : pool.step (.return w)
          = some (pool.setWorker w (.leaving ⟨.plain fn, refc⟩)) := by
        simp only [ThreadPool.step, hw]
      exact h.advance _ (by trivial) hstep rfl (by simp [Worker.rank])
    | seqWrapper fn s =>
      have hstep : pool.step (.return w)
          = some (pool.setWorker w (.returned ⟨.seqWrapper fn s, refc⟩)) := by
        simp only [ThreadPool.step, hw]
      exact h.advance _ (by trivial) hstep rfl (by simp [Worker.rank])
  | returned j =>
    have hproper := h.sound.proper w
    rw [hw] at hproper
    rcases j with ⟨task, refc⟩
    cases task with
    | plain fn => exact absurd hproper id
    | seqWrapper fn s =>
      obtain ⟨pool₁, hreach, hclosed, hmtx, hjobs, hw₁⟩ := h.exists_unlocked s
        (w := w) (by simp [hw])
      rw [hw] at hw₁
      cases hwaiting : (pool₁.seqs s).jobs with
      | nil =>
        have hstep : pool₁.step (.lockSeq w) = some ((pool₁.setSeq s
            { pool₁.seqs s with free := true }).setWorker w (.leaving ⟨.seqWrapper fn s, refc⟩)) := by
          simp [ThreadPool.step, hw₁, hmtx, hwaiting]
        obtain ⟨pool', hreach', hclosed', hjobs', hlt⟩ := hclosed.advance 3 (by trivial) hstep rfl
          (by simp [Worker.rank])
        exact ⟨pool', hreach.trans hreach', hclosed', hjobs'.trans hjobs, hlt⟩
      | cons next jobs =>
        have hstep : pool₁.step (.lockSeq w) = some ((pool₁.setSeq s
            { pool₁.seqs s with jobs := jobs, mtx := some (.seqWrapper w) }).setWorker w
              (.requeueing ⟨.seqWrapper fn s, refc⟩ next)) := by
          simp [ThreadPool.step, hw₁, hmtx, hwaiting]
        obtain ⟨pool', hreach', hclosed', hjobs', hlt⟩ := hclosed.advance 3 (by trivial) hstep rfl
          (by simp [Worker.rank])
        exact ⟨pool', hreach.trans hreach', hclosed', hjobs'.trans hjobs, hlt⟩
  | requeueing j next =>
    have hproper := h.sound.proper w
    rw [hw] at hproper
    rcases j with ⟨task, refc⟩
    cases task with
    | plain fn => exact absurd hproper id
    | seqWrapper fn s =>
      have hstep : pool.step (.requeue w) = some ((pool.setSeq s
          { pool.seqs s with mtx := none }).setWorker w (.leaving ⟨.seqWrapper fn s, refc⟩)) := by
        simp only [ThreadPool.step, hw, enqueue_of_closed h.accepting]
      exact h.advance _ (by trivial) hstep rfl (by simp [Worker.rank])
  | leaving j =>
    have hstep : pool.step (.leave w)
        = some ((pool.addRef j.refc (-1)).setWorker w .waiting) := by
      simp only [ThreadPool.step, hw]
    exact h.advance _ (by trivial) hstep (addRef_jobs _ _ _) (by simp [Worker.rank])

theorem Closed.exists_waiting (h : pool.Closed) (w : Fin n)
    : ∃ pool', pool.Reaches pool' ∧ pool'.Closed ∧ pool'.jobs = pool.jobs
        ∧ pool'.workers w = .waiting := by
  generalize hrank : (pool.workers w).rank = rank
  induction rank using Nat.strong_induction_on generalizing pool with
  | _ rank ih =>
    by_cases hpos : 0 < rank
    . obtain ⟨pool₁, hreach, hclosed, hjobs, hlt⟩ :=
        h.exists_rank_lt (w := w) (by rw [hrank]; exact hpos)
      rw [hrank] at hlt
      obtain ⟨pool₂, hreach₂, hclosed₂, hjobs₂, hw⟩ := ih _ hlt hclosed rfl
      exact ⟨pool₂, hreach.trans hreach₂, hclosed₂, hjobs₂.trans hjobs, hw⟩
    . refine ⟨pool, .refl pool, h, rfl, ?_⟩
      cases hw : pool.workers w with
      | waiting => rfl
      | _ =>
        rw [hw, Worker.rank] at hrank
        omega

/--
The last job of the queue can still be to do when the queue is empty.
-/
theorem Closed.exists_popped (h : pool.Closed) (w : Fin n) (hne : pool.jobs ≠ [])
    : ∃ pool' j, pool.Reaches pool' ∧ pool'.jobs = [] ∧ pool'.workers w = .popped j := by
  generalize hjobs : pool.jobs = jobs at hne
  induction jobs generalizing pool with
  | nil => exact absurd rfl hne
  | cons j jobs ih =>
    obtain ⟨pool₁, hreach, hclosed, hjobs₁, hw⟩ := h.exists_waiting w
    rw [hjobs] at hjobs₁
    have hstep : pool₁.step (.pop w)
        = some (({ pool₁ with jobs := jobs } : ThreadPool n σ φ ρ).setWorker w (.popped j)) := by
      simp only [ThreadPool.step, hw, hclosed.sound.running, hjobs₁]
    have hreach₂ := hreach.trans (.head (by trivial) hstep (.refl _))
    cases hrest : jobs with
    | nil =>
      refine ⟨_, j, hreach₂, hrest, ?_⟩
      rw [setWorker_workers, Function.update_self]
    | cons j' jobs' =>
      obtain ⟨pool₂, j₂, hreach₃, hempty, hpopped⟩ := ih (hclosed.step (by trivial) hstep) rfl
        (by rw [hrest]; exact List.cons_ne_nil _ _)
      exact ⟨pool₂, j₂, hreach₂.trans hreach₃, hempty, hpopped⟩

/--
Without workers nothing leaves the queue.
-/
theorem jobs_ne_nil_of_step {pool pool' : ThreadPool 0 σ φ ρ} {l : Label 0 σ φ ρ}
    (hne : pool.jobs ≠ []) (hstep : pool.step l = some pool') : pool'.jobs ≠ [] := by
  have henqueue (task : Task σ φ) (refc : Option ρ) : (pool.enqueue task refc).2.jobs ≠ [] := by
    unfold ThreadPool.enqueue
    split
    . exact hne
    . dsimp only
      rw [addRef_jobs]
      exact List.append_ne_nil_of_left_ne_nil hne _
  cases step_moves hstep with
  | enqueue fn refc => exact henqueue _ _
  | enqueueSeq s fn refc hmtx => exact hne
  | enqueueSeqPush s job hmtx => exact henqueue _ _
  | stopJobs s cb hmtx => exact hne
  | disableSeq s hmtx => exact hne
  | join => exact hne
  | stop => exact hne
  | pop w => exact w.elim0
  | callPlain w => exact w.elim0
  | callSeq w => exact w.elim0
  | returnPlain w => exact w.elim0
  | returnSeq w => exact w.elim0
  | release w => exact w.elim0
  | next w => exact w.elim0
  | requeue w => exact w.elim0
  | leave w => exact w.elim0

theorem jobs_ne_nil_of_exec {pool pool' : ThreadPool 0 σ φ ρ} {ls : List (Label 0 σ φ ρ)}
    (hne : pool.jobs ≠ []) (hexec : exec ThreadPool.step pool ls = some pool')
    : pool'.jobs ≠ [] := by
  induction ls generalizing pool with
  | nil =>
    injection hexec with hexec
    rw [← hexec]
    exact hne
  | cons l ls ih =>
    obtain ⟨t, hstep, hrest⟩ := exec_cons.mp hexec
    exact ih (jobs_ne_nil_of_step hne hstep) hrest

end Progress

section Join

variable [DecidableEq σ] [DecidableEq φ] [DecidableEq ρ]

/--
Every job for which `enqueue` or `enqueue_seq` has returned true in the run has finished running.
-/
def AllFinished (n : Nat) (ls : List (Label n σ φ ρ)) : Prop :=
  ∀ e, (history ThreadPool.step accepts init ls).count e
    ≤ (history ThreadPool.step finishes init ls).count e

/--
A call of `join` that finds the pool as `pool` returns at once if the queue is empty, and otherwise
when it finds the queue empty after the steps `ls`.
-/
def JoinReturns (pool : ThreadPool n σ φ ρ) (ls : List (Label n σ φ ρ))
    (pool' : ThreadPool n σ φ ρ) : Prop :=
  pool.jobs = [] ∧ ls = [] ∨ pool.jobs ≠ [] ∧ pool'.jobs = []

/--
No job waits, in the pool or in a class, or is with a worker.
-/
structure Settled (pool : ThreadPool n σ φ ρ) : Prop where
  jobs : pool.jobs = []
  workers : ∀ w, (pool.workers w).inHand = none
  seqs : ∀ seq, (pool.seqs seq).jobs = []

variable {pool : ThreadPool n σ φ ρ}

omit [DecidableEq ρ] in
theorem Settled.unfinished (h : pool.Settled) (e : Option σ × φ) : pool.unfinished e = 0 := by
  have hclass : pool.classJobs e = 0 := by
    unfold classJobs
    split
    . rfl
    . next seq _ =>
      rw [h.seqs seq]
      rfl
  unfold ThreadPool.unfinished
  rw [hclass, Nat.zero_add]
  apply total_eq_zero
  . intro j hj
    rw [h.jobs] at hj
    cases hj
  . intro w
    rw [h.workers w]
    rfl

omit [DecidableEq ρ] in
theorem unfinished_pos_of_inHand {w : Fin n} {e : Option σ × φ}
    (h : (pool.workers w).inHand = some e) : 0 < pool.unfinished e := by
  have hle := @le_total_of_worker n σ φ ρ (fun j => one (some j.task.entry) e)
    (fun s => one s.inHand e) pool w
  rw [h, one, if_pos rfl] at hle
  unfold ThreadPool.unfinished
  omega

omit [DecidableEq ρ] in
theorem exists_unfinished (hjobs : pool.jobs = []) (h : ¬ pool.Settled)
    : ∃ e, 0 < pool.unfinished e := by
  by_contra hnone
  simp only [not_exists, Nat.not_lt, Nat.le_zero] at hnone
  apply h
  refine ⟨hjobs, ?_, ?_⟩
  . intro w
    cases hw : (pool.workers w).inHand with
    | none => rfl
    | some e =>
      have := unfinished_pos_of_inHand hw
      have := hnone e
      omega
  . intro seq
    cases hseq : (pool.seqs seq).jobs with
    | nil => rfl
    | cons job jobs =>
      have := hnone (some seq, job.fn)
      unfold ThreadPool.unfinished classJobs at this
      dsimp only at this
      rw [hseq, List.map_cons, List.count_cons_self] at this
      omega

theorem not_allFinished {ls : List (Label n σ φ ρ)} (hls : ∀ l ∈ ls, l.Submits ∨ l = .join)
    (hexec : exec ThreadPool.step init ls = some pool) {e : Option σ × φ}
    (he : 0 < pool.unfinished e) : ¬ AllFinished n ls := by
  intro h
  have hsum := unfinished_exec hls hexec e
  have hfinished := h e
  rw [unfinished_init] at hsum
  omega

/--
`join` waits for the jobs that have been accepted if and only if there is nothing to wait for when it
is called, a pool without workers apart, in which it never returns if a job is queued.
-/
theorem join_waits_iff {ls : List (Label n σ φ ρ)} (hls : ∀ l ∈ ls, l.Submits)
    (hexec : exec ThreadPool.step init ls = some pool)
    : (∀ ls' pool', (∀ l ∈ ls', l.Submits) → exec ThreadPool.step pool (.join :: ls') = some pool'
        → JoinReturns pool ls' pool' → AllFinished n (ls ++ .join :: ls'))
        ↔
      pool.Settled ∨ n = 0 ∧ pool.jobs ≠ [] := by
  have hleft {ls' : List (Label n σ φ ρ)} (hls' : ∀ l ∈ ls', l.Submits)
      : ∀ l ∈ ls ++ .join :: ls', l.Submits ∨ l = .join := by
    intro l hl
    rcases List.mem_append.mp hl with hl | hl
    . exact .inl (hls l hl)
    . rcases List.mem_cons.mp hl with hl | hl
      . exact .inr hl
      . exact .inl (hls' l hl)
  have hjoin : pool.step .join = some { pool with accepting := false } := rfl
  constructor
  . intro h
    by_contra hnot
    rw [not_or, not_and] at hnot
    by_cases hjobs : pool.jobs = []
    . obtain ⟨e, he⟩ := exists_unfinished hjobs hnot.1
      have hrun : exec ThreadPool.step pool [.join] = some { pool with accepting := false } := rfl
      apply not_allFinished (hleft (by simp)) (exec_append.mpr ⟨pool, hexec, hrun⟩) he
      exact h [] _ (by simp) hrun (.inl ⟨hjobs, rfl⟩)
    . have hpos : 0 < n := by
        by_contra hzero
        exact hnot.2 (by omega) hjobs
      have hclosed : ({ pool with accepting := false } : ThreadPool n σ φ ρ).Closed :=
        ⟨(sound_exec sound_init (fun l hl => .inl (hls l hl)) hexec).step (.inr rfl) hjoin, rfl⟩
      obtain ⟨pool', j, ⟨ls', hls', hexec'⟩, hempty, hpopped⟩ :=
        hclosed.exists_popped ⟨0, hpos⟩ hjobs
      have hrun := exec_cons.mpr ⟨_, hjoin, hexec'⟩
      have he : 0 < pool'.unfinished j.task.entry := by
        apply unfinished_pos_of_inHand (w := ⟨0, hpos⟩)
        rw [hpopped]
        rfl
      apply not_allFinished (hleft hls') (exec_append.mpr ⟨pool, hexec, hrun⟩) he
      exact h ls' pool' hls' hrun (.inr ⟨hjobs, hempty⟩)
  . rintro h ls' pool' hls' hrun hreturns
    rcases hreturns with ⟨hjobs, rfl⟩ | ⟨hne, hempty⟩
    . have hsettled : pool.Settled := by
        cases h with
        | inl h => exact h
        | inr h => exact absurd hjobs h.2
      intro e
      have hsum := unfinished_exec (fun l hl => .inl (hls l hl)) hexec e
      have hdrops : history step drops (init : ThreadPool n σ φ ρ) ls = [] := history_drops rfl hls
      rw [hsettled.unfinished, unfinished_init, hdrops] at hsum
      rw [history_append hexec, history_append hexec, history_cons hjoin, history_cons hjoin,
        List.count_append, List.count_append]
      simp only [accepts, finishes, history, Option.toList_none, List.append_nil, List.count_nil]
      simp only [List.count_nil] at hsum
      omega
    . rcases h with hsettled | ⟨rfl, _⟩
      . exact absurd hsettled.jobs hne
      . obtain ⟨t, hstep, hrest⟩ := exec_cons.mp hrun
        exact absurd hempty (jobs_ne_nil_of_exec (jobs_ne_nil_of_step hne hstep) hrest)

/--
A job that is running, while the queue is empty.
-/
def oneRunning : List (Label 1 Unit Nat Empty) :=
  [.enqueue 1 none, .pop 0, .call 0]

def oneRunningPool : ThreadPool 1 Unit Nat Empty :=
  { init with workers := fun _ => .running ⟨.plain 1, none⟩ }

theorem exec_oneRunning
    : exec ThreadPool.step (init : ThreadPool 1 Unit Nat Empty) oneRunning = some oneRunningPool := by
  have hworkers (s s' s'' : Worker Unit Nat Empty) : Function.update (Function.update
      (fun _ : Fin 1 => s) 0 s') 0 s'' = fun _ => s'' := by
    funext w
    rw [Subsingleton.elim w 0, Function.update_self]
  have hexec : exec ThreadPool.step (init : ThreadPool 1 Unit Nat Empty) oneRunning
      = some { oneRunningPool with workers := Function.update (Function.update
          (fun _ => .waiting) 0 (.popped ⟨.plain 1, none⟩)) 0 (.running ⟨.plain 1, none⟩) } := rfl
  rw [hexec, hworkers]
  rfl

theorem join_waits_iff_oneRunning
    : (∀ ls' pool', (∀ l ∈ ls', l.Submits)
        → exec ThreadPool.step oneRunningPool (.join :: ls') = some pool'
        → JoinReturns oneRunningPool ls' pool' → AllFinished 1 (oneRunning ++ .join :: ls'))
        ↔
      oneRunningPool.Settled ∨ 1 = 0 ∧ oneRunningPool.jobs ≠ [] :=
  join_waits_iff (by simp [oneRunning, Label.Submits]) exec_oneRunning

/--
`join` returns while the job is running.
-/
theorem not_join_waits
    : ¬ ∀ (ls ls' : List (Label 1 Unit Nat Empty)) pool pool', (∀ l ∈ ls, l.Submits)
        → (∀ l ∈ ls', l.Submits) → exec ThreadPool.step init ls = some pool
        → exec ThreadPool.step pool (.join :: ls') = some pool' → JoinReturns pool ls' pool'
        → AllFinished 1 (ls ++ .join :: ls') := by
  intro h
  have hfinished := h oneRunning [] oneRunningPool _ (by simp [oneRunning, Label.Submits]) (by simp)
    exec_oneRunning rfl (.inl ⟨rfl, rfl⟩) (none, 1)
  exact absurd hfinished (by decide)

end Join

end ThreadPool

end HCraft
