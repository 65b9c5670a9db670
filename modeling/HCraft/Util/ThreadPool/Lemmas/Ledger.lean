import HCraft.Util.ThreadPool.Lemmas.Total

/-!
This module contains what becomes of the jobs that the pool has accepted.
-/

namespace HCraft

open Transition

variable {n : Nat} {σ φ ρ : Type}

/--
The class a function has been submitted to, if any, and the function.
-/
def Task.entry : Task σ φ → Option σ × φ
  | .plain fn => (none, fn)
  | .seqWrapper fn seq => (some seq, fn)

/--
What a worker still has to call, or to have called.
-/
def Worker.inHand : Worker σ φ ρ → Option (Option σ × φ)
  | .waiting => none
  | .popped j => some j.task.entry
  | .running j => some j.task.entry
  | .returned _ => none
  | .requeueing ⟨.plain _, _⟩ _ => none
  | .requeueing ⟨.seqWrapper _ seq, _⟩ next => some (some seq, next.fn)
  | .leaving _ => none

namespace Worker

@[simp]
theorem inHand_waiting : (waiting : Worker σ φ ρ).inHand = none := rfl

variable (j : PoolJob σ φ ρ)

@[simp]
theorem inHand_popped : (popped j).inHand = some j.task.entry := rfl

@[simp]
theorem inHand_running : (running j).inHand = some j.task.entry := rfl

@[simp]
theorem inHand_returned : (returned j).inHand = none := rfl

@[simp]
theorem inHand_requeueing (fn : φ) (seq : σ) (refc : Option ρ) (next : Job φ ρ)
    : (requeueing ⟨.seqWrapper fn seq, refc⟩ next).inHand = some (some seq, next.fn) := rfl

@[simp]
theorem inHand_leaving : (leaving j).inHand = none := rfl

end Worker

namespace ThreadPool

/--
The job for which the step is a call of `enqueue` or `enqueue_seq` that returns true.
-/
def accepts (pool : ThreadPool n σ φ ρ) : Label n σ φ ρ → Option (Option σ × φ)
  | .enqueue fn _ => if pool.accepting then some (none, fn) else none
  | .enqueueSeq seq fn _ =>
    if (pool.seqs seq).accepting && !(pool.seqs seq).free then some (some seq, fn) else none
  | .enqueueSeqPush seq =>
    match (pool.seqs seq).mtx with
    | some (.enqueueSeq job) => if pool.accepting then some (some seq, job.fn) else none
    | _ => none
  | _ => none

/--
The job whose function returns in the step.
-/
def finishes (pool : ThreadPool n σ φ ρ) : Label n σ φ ρ → Option (Option σ × φ)
  | .return w =>
    match pool.workers w with
    | .running j => some j.task.entry
    | _ => none
  | _ => none

/--
The job that `seq_wrapper` cannot hand to the pool in the step.
-/
def drops (pool : ThreadPool n σ φ ρ) : Label n σ φ ρ → Option (Option σ × φ)
  | .requeue w => if pool.accepting then none else (pool.workers w).inHand
  | _ => none

section Ledger

variable [DecidableEq σ] [DecidableEq φ]

def one (a : Option (Option σ × φ)) (e : Option σ × φ) : Nat :=
  if a = some e then 1 else 0

def classJobs (pool : ThreadPool n σ φ ρ) (e : Option σ × φ) : Nat :=
  match e.1 with
  | none => 0
  | some seq => ((pool.seqs seq).jobs.map (·.fn)).count e.2

/--
How often a job is in a class, in the queue of the pool or with a worker without having run.
-/
def unfinished (pool : ThreadPool n σ φ ρ) (e : Option σ × φ) : Nat :=
  pool.classJobs e + pool.total (fun j => one (some j.task.entry) e) (fun s => one s.inHand e)

theorem one_none (e : Option σ × φ) : one none e = 0 := rfl

section Classes

variable {pool : ThreadPool n σ φ ρ} {s : σ} {cls : SeqClass n φ ρ}

theorem classJobs_setSeq_of_eq (h : cls.jobs = (pool.seqs s).jobs) (e : Option σ × φ)
    : (pool.setSeq s cls).classJobs e = pool.classJobs e := by
  unfold classJobs
  split
  . rfl
  . next seq hseq =>
    rw [setSeq_seqs]
    by_cases hs : seq = s
    . rw [hs, Function.update_self, h]
    . rw [Function.update_of_ne hs]

theorem classJobs_setSeq_append {job : Job φ ρ} (h : cls.jobs = (pool.seqs s).jobs ++ [job])
    (e : Option σ × φ)
    : (pool.setSeq s cls).classJobs e = pool.classJobs e + one (some (some s, job.fn)) e := by
  rcases e with ⟨seq, fn⟩
  cases seq with
  | none => simp [classJobs, one]
  | some seq =>
    simp only [classJobs, one, setSeq_seqs, Option.some.injEq, Prod.mk.injEq]
    by_cases hs : seq = s
    . subst hs
      rw [Function.update_self, h, List.map_append, List.count_append]
      by_cases hfn : job.fn = fn <;> simp [hfn]
    . rw [Function.update_of_ne hs, if_neg (fun heq => hs heq.1.symm), Nat.add_zero]

theorem classJobs_setSeq_cons {job : Job φ ρ} (h : (pool.seqs s).jobs = job :: cls.jobs)
    (e : Option σ × φ)
    : (pool.setSeq s cls).classJobs e + one (some (some s, job.fn)) e = pool.classJobs e := by
  rcases e with ⟨seq, fn⟩
  cases seq with
  | none => simp [classJobs, one]
  | some seq =>
    simp only [classJobs, one, setSeq_seqs, Option.some.injEq, Prod.mk.injEq]
    by_cases hs : seq = s
    . subst hs
      rw [Function.update_self, h, List.map_cons, List.count_cons]
      by_cases hfn : job.fn = fn <;> simp [hfn]
    . rw [Function.update_of_ne hs, if_neg (fun heq => hs heq.1.symm), Nat.add_zero]

theorem unfinished_setSeq_of_eq (h : cls.jobs = (pool.seqs s).jobs) (e : Option σ × φ)
    : (pool.setSeq s cls).unfinished e = pool.unfinished e := by
  unfold unfinished
  rw [classJobs_setSeq_of_eq h, total_setSeq]

theorem unfinished_setSeq_cons {job : Job φ ρ} (h : (pool.seqs s).jobs = job :: cls.jobs)
    (e : Option σ × φ)
    : (pool.setSeq s cls).unfinished e + one (some (some s, job.fn)) e = pool.unfinished e := by
  have hclass := classJobs_setSeq_cons h e
  unfold unfinished
  rw [total_setSeq]
  omega

theorem unfinished_setWorker (pool : ThreadPool n σ φ ρ) (w : Fin n) (s : Worker σ φ ρ)
    (e : Option σ × φ)
    : (pool.setWorker w s).unfinished e + one (pool.workers w).inHand e
        =
      pool.unfinished e + one s.inHand e := by
  have hsum := @total_setWorker n σ φ ρ (fun j => one (some j.task.entry) e)
    (fun s => one s.inHand e) pool w s
  have hclass : (pool.setWorker w s).classJobs e = pool.classJobs e := rfl
  unfold unfinished
  omega

variable [DecidableEq ρ]

omit [DecidableEq σ] in
theorem classJobs_enqueue (task : Task σ φ) (refc : Option ρ) (e : Option σ × φ)
    : (pool.enqueue task refc).2.classJobs e = pool.classJobs e := by
  unfold classJobs
  rw [enqueue_seqs]

omit [DecidableEq σ] in
theorem classJobs_addRef (refc : Option ρ) (d : Int) (e : Option σ × φ)
    : (pool.addRef refc d).classJobs e = pool.classJobs e := by
  unfold classJobs
  rw [addRef_seqs]

theorem unfinished_enqueue (pool : ThreadPool n σ φ ρ) (task : Task σ φ) (refc : Option ρ)
    (e : Option σ × φ)
    : (pool.enqueue task refc).2.unfinished e
        =
      pool.unfinished e + one (if pool.accepting then some task.entry else none) e := by
  unfold unfinished
  rw [classJobs_enqueue, total_enqueue]
  cases pool.accepting with
  | false => rfl
  | true =>
    dsimp only
    rw [if_pos rfl, if_pos rfl]
    omega

theorem unfinished_addRef (pool : ThreadPool n σ φ ρ) (refc : Option ρ) (d : Int) (e : Option σ × φ)
    : (pool.addRef refc d).unfinished e = pool.unfinished e := by
  unfold unfinished
  rw [classJobs_addRef, total_addRef]

/--
No job is lost or made up: what a step adds and takes away adds up.
-/
theorem unfinished_step {pool' : ThreadPool n σ φ ρ} {l : Label n σ φ ρ}
    (hl : l.Submits ∨ l = .join) (hstep : pool.step l = some pool') (e : Option σ × φ)
    : pool'.unfinished e + one (pool.finishes l) e + one (pool.drops l) e
        =
      pool.unfinished e + one (pool.accepts l) e := by
  cases step_moves hstep with
  | enqueue fn refc =>
    rw [unfinished_enqueue]
    rfl
  | enqueueSeq s fn refc hmtx =>
    unfold SeqClass.enqueueSeq
    simp only [finishes, drops, accepts, one_none, Nat.add_zero]
    split
    . next hacc =>
      simp only [Bool.not_eq_eq_eq_not, Bool.not_true] at hacc
      rw [unfinished_setSeq_of_eq rfl, hacc]
      rfl
    . next hacc =>
      have hacc : (pool.seqs s).accepting = true := by simpa using hacc
      split
      . next hfree =>
        rw [unfinished_setSeq_of_eq (by exact rfl), hacc, hfree]
        rfl
      . next hfree =>
        have hfree : (pool.seqs s).free = false := by simpa using hfree
        unfold unfinished
        rw [@classJobs_setSeq_append n σ φ ρ _ _ pool s _ ⟨fn, refc⟩ (by exact rfl), total_setSeq,
          hacc, hfree]
        simp only [Bool.not_false, Bool.and_self, if_true]
        omega
  | enqueueSeqPush s job hmtx =>
    rw [unfinished_setSeq_of_eq (by rw [enqueue_seqs]; rfl), unfinished_enqueue]
    simp only [finishes, drops, accepts, hmtx, one_none, Nat.add_zero]
    rfl
  | stopJobs s cb hmtx =>
    cases hl with
    | inl hl => exact absurd hl id
    | inr hl => cases hl
  | disableSeq s hmtx =>
    cases hl with
    | inl hl => exact absurd hl id
    | inr hl => cases hl
  | join => rfl
  | stop =>
    cases hl with
    | inl hl => exact absurd hl id
    | inr hl => cases hl
  | pop w j jobs hw _ hjobs =>
    have hsum := @total_pop n σ φ ρ (fun j => one (some j.task.entry) e)
      (fun s => one s.inHand e) pool j jobs hjobs w
    have hclass : (({ pool with jobs := jobs } : ThreadPool n σ φ ρ).setWorker w
        (.popped j)).classJobs e = pool.classJobs e := rfl
    rw [hw] at hsum
    simp only [Worker.inHand_waiting, Worker.inHand_popped, one_none, Nat.add_zero] at hsum
    simp only [unfinished, finishes, drops, accepts, one_none, Nat.add_zero]
    omega
  | callPlain w fn refc hw =>
    have hsum := unfinished_setWorker pool w (.running ⟨.plain fn, refc⟩) e
    rw [hw] at hsum
    simp only [Worker.inHand_popped, Worker.inHand_running] at hsum
    simp only [finishes, drops, accepts, one_none, Nat.add_zero]
    omega
  | callSeq w fn s refc hw =>
    have hsum := unfinished_setWorker (pool.setSeq s { pool.seqs s with
      started := (pool.seqs s).started ++ [⟨fn, refc⟩] }) w (.running ⟨.seqWrapper fn s, refc⟩) e
    rw [unfinished_setSeq_of_eq (by exact rfl), setSeq_workers, hw] at hsum
    simp only [Worker.inHand_popped, Worker.inHand_running] at hsum
    simp only [finishes, drops, accepts, one_none, Nat.add_zero]
    omega
  | returnPlain w fn refc hw =>
    have hsum := unfinished_setWorker pool w (.leaving ⟨.plain fn, refc⟩) e
    rw [hw] at hsum
    simp only [Worker.inHand_running, Worker.inHand_leaving, one_none, Nat.add_zero] at hsum
    simp only [finishes, drops, accepts, hw, one_none, Nat.add_zero]
    exact hsum
  | returnSeq w fn s refc hw =>
    have hsum := unfinished_setWorker pool w (.returned ⟨.seqWrapper fn s, refc⟩) e
    rw [hw] at hsum
    simp only [Worker.inHand_running, Worker.inHand_returned, one_none, Nat.add_zero] at hsum
    simp only [finishes, drops, accepts, hw, one_none, Nat.add_zero]
    exact hsum
  | release w fn s refc hw hmtx hjobs =>
    have hsum := unfinished_setWorker (pool.setSeq s { pool.seqs s with free := true }) w
      (.leaving ⟨.seqWrapper fn s, refc⟩) e
    rw [unfinished_setSeq_of_eq (by exact rfl), setSeq_workers, hw] at hsum
    simp only [Worker.inHand_returned, Worker.inHand_leaving, one_none, Nat.add_zero] at hsum
    simp only [finishes, drops, accepts, one_none, Nat.add_zero]
    exact hsum
  | next w fn s refc next jobs hw hmtx hjobs =>
    generalize hcls : ({ pool.seqs s with
      jobs := jobs, mtx := some (.seqWrapper w) } : SeqClass n φ ρ) = cls
    have hleft : (pool.seqs s).jobs = next :: cls.jobs := by rw [hjobs, ← hcls]
    -- the job goes from the class to the worker
    have hsum := unfinished_setWorker (pool.setSeq s cls) w
      (.requeueing ⟨.seqWrapper fn s, refc⟩ next) e
    have hclass := unfinished_setSeq_cons hleft e
    rw [setSeq_workers, hw] at hsum
    simp only [Worker.inHand_returned, Worker.inHand_requeueing, one_none, Nat.add_zero] at hsum
    simp only [finishes, drops, accepts, one_none, Nat.add_zero]
    omega
  | requeue w fn s refc next hw =>
    have hsum := unfinished_setWorker ((pool.enqueue (.seqWrapper next.fn s) next.refc).2.setSeq s
        { pool.seqs s with mtx := none }) w (.leaving ⟨.seqWrapper fn s, refc⟩) e
    rw [unfinished_setSeq_of_eq (by rw [enqueue_seqs]), unfinished_enqueue, setSeq_workers,
      enqueue_workers, hw] at hsum
    simp only [Worker.inHand_requeueing, Worker.inHand_leaving, Task.entry, one_none,
      Nat.add_zero] at hsum
    simp only [finishes, drops, accepts, hw, one_none, Nat.add_zero]
    cases hacc : pool.accepting with
    | false =>
      rw [hacc] at hsum
      simp only [Bool.false_eq_true, if_false, one_none, Nat.add_zero, Worker.inHand_requeueing]
        at hsum ⊢
      exact hsum
    | true =>
      rw [hacc] at hsum
      simp only [if_true, one_none, Nat.add_zero] at hsum ⊢
      omega
  | leave w j hw =>
    have hsum := unfinished_setWorker (pool.addRef j.refc (-1)) w .waiting e
    rw [unfinished_addRef, addRef_workers, hw] at hsum
    simp only [Worker.inHand_leaving, Worker.inHand_waiting, one_none, Nat.add_zero] at hsum
    simp only [finishes, drops, accepts, one_none, Nat.add_zero]
    exact hsum

end Classes

section Runs

variable [DecidableEq ρ] {pool pool' : ThreadPool n σ φ ρ} {ls : List (Label n σ φ ρ)}

omit [DecidableEq ρ] in
theorem count_toList (a : Option (Option σ × φ)) (e : Option σ × φ) : a.toList.count e = one a e := by
  cases a with
  | none => rfl
  | some a =>
    rw [Option.toList_some, List.count_singleton]
    unfold one
    by_cases h : a = e <;> simp [h]

/--
What has been accepted has finished, has been dropped or is still to be done.
-/
theorem unfinished_exec (hls : ∀ l ∈ ls, l.Submits ∨ l = .join)
    (hexec : exec step pool ls = some pool') (e : Option σ × φ)
    : pool'.unfinished e + (history step finishes pool ls).count e
        + (history step drops pool ls).count e
        =
      pool.unfinished e + (history step accepts pool ls).count e := by
  induction ls generalizing pool with
  | nil =>
    injection hexec with hexec
    rw [hexec]
    rfl
  | cons l ls ih =>
    obtain ⟨t, hstep, hrest⟩ := exec_cons.mp hexec
    have hnow := unfinished_step (hls l List.mem_cons_self) hstep e
    have hthen := ih (fun l hl => hls l (List.mem_cons_of_mem _ hl)) hrest
    rw [history_cons hstep, history_cons hstep, history_cons hstep]
    simp only [List.count_append, count_toList]
    omega

omit [DecidableEq ρ] in
theorem unfinished_init (e : Option σ × φ)
    : (init : ThreadPool n σ φ ρ).unfinished e = 0 := by
  have hclass : (init : ThreadPool n σ φ ρ).classJobs e = 0 := by
    unfold classJobs
    split <;> rfl
  unfold unfinished
  rw [hclass, Nat.zero_add]
  apply total_eq_zero
  . intro j hj
    cases hj
  . intro w
    rfl

omit [DecidableEq φ] in
theorem sound_exec (h : pool.Sound) (hls : ∀ l ∈ ls, l.Submits ∨ l = .join)
    (hexec : exec step pool ls = some pool') : pool'.Sound := by
  induction ls generalizing pool with
  | nil =>
    injection hexec with hexec
    rw [← hexec]
    exact h
  | cons l ls ih =>
    obtain ⟨t, hstep, hrest⟩ := exec_cons.mp hexec
    exact ih (h.step (hls l List.mem_cons_self) hstep)
      (fun l hl => hls l (List.mem_cons_of_mem _ hl)) hrest

omit [DecidableEq φ] in
theorem history_drops (hacc : pool.accepting = true) (hls : ∀ l ∈ ls, l.Submits)
    : history step drops pool ls = [] := by
  induction ls generalizing pool with
  | nil => rfl
  | cons l ls ih =>
    unfold history
    split
    . rfl
    . next t hstep =>
      have hne : l ≠ .join := by
        rintro rfl
        exact hls .join List.mem_cons_self
      have hnone : pool.drops l = none := by
        cases l with
        | requeue w => exact if_pos hacc
        | _ => rfl
      rw [hnone, Option.toList_none, List.nil_append]
      apply ih
      . rw [step_accepting hstep hne, hacc]
      . exact fun l hl => hls l (List.mem_cons_of_mem _ hl)

end Runs

end Ledger

end ThreadPool

end HCraft
