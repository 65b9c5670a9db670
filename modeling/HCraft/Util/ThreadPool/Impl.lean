import Mathlib.Logic.Function.Basic
import HCraft.Lib.Transition

/-!
This module contains the thread pool of `util/thread_pool.cpp` as a transition system. Its steps are
the critical sections of the two mutexes and the calls of the job functions; the ones that call
`enqueue` under the mutex of a sequence class are split there.
-/

namespace HCraft

/--
A pool of one worker has a first one.
-/
instance neZeroOne : @NeZero Nat Zero.ofOfNat0 1 := ⟨Nat.one_ne_zero⟩

/--
A function object with its context pointer, and the counter it is charged to.
-/
structure Job (φ ρ : Type) where
  fn : φ
  refc : Option ρ
  deriving DecidableEq, Repr

/--
Who holds the mutex of a sequence class while waiting for that of the pool.
-/
inductive Holder (n : Nat) (φ ρ : Type) where
  /-- a call of `enqueue_seq` that hands `job` to the pool -/
  | enqueueSeq (job : Job φ ρ)
  /-- the wrapper that worker `w` runs -/
  | seqWrapper (w : Fin n)

/--
`accepted` and `started` are history, no function reads them: the jobs accepted and not stopped
since, in the order in which their calls took the mutex, and the jobs whose function has been
called.
-/
structure SeqClass (n : Nat) (φ ρ : Type) where
  mtx : Option (Holder n φ ρ)
  free : Bool
  accepting : Bool
  jobs : List (Job φ ρ)
  accepted : List (Job φ ρ)
  started : List (Job φ ρ)

/--
The functions in the queue of the pool.
-/
inductive Task (σ φ : Type) where
  | plain (fn : φ)
  /-- `seq_wrapper` with a `seq_ctx_t` -/
  | seqWrapper (fn : φ) (seq : σ)
  deriving DecidableEq, Repr

structure PoolJob (σ φ ρ : Type) where
  task : Task σ φ
  refc : Option ρ
  deriving DecidableEq, Repr

/--
Where a worker stands in `worker_func`, and in `seq_wrapper` if that is what it runs.
-/
inductive Worker (σ φ ρ : Type) where
  | waiting
  /-- the job is off the queue, its function has not been called yet -/
  | popped (j : PoolJob σ φ ρ)
  | running (j : PoolJob σ φ ρ)
  /-- the function has returned to `seq_wrapper`, which goes for the mutex of the class -/
  | returned (j : PoolJob σ φ ρ)
  /-- `next` is off the queue of the class and goes to the pool -/
  | requeueing (j : PoolJob σ φ ρ) (next : Job φ ρ)
  /-- only the counter and the `delete` are left -/
  | leaving (j : PoolJob σ φ ρ)

/--
A pool of `n` workers with the sequence classes `σ` and the reference counters `ρ`.
-/
structure ThreadPool (n : Nat) (σ φ ρ : Type) where
  running : Bool
  accepting : Bool
  jobs : List (PoolJob σ φ ρ)
  workers : Fin n → Worker σ φ ρ
  seqs : σ → SeqClass n φ ρ
  refs : ρ → Int

namespace SeqClass

variable {n : Nat} {φ ρ : Type}

def createSeq : SeqClass n φ ρ :=
  { mtx := none, free := true, accepting := true, jobs := [], accepted := [], started := [] }

/--
`enqueue_seq` up to the call of `enqueue`, if it comes to that.
-/
def enqueueSeq (cls : SeqClass n φ ρ) (job : Job φ ρ) : SeqClass n φ ρ :=
  if !cls.accepting then
    cls
  else if cls.free then
    { cls with free := false, mtx := some (.enqueueSeq job) }
  else
    { cls with jobs := cls.jobs ++ [job], accepted := cls.accepted ++ [job] }

/--
The rest of `enqueue_seq`, with what `enqueue` has returned.
-/
def enqueued (cls : SeqClass n φ ρ) (job : Job φ ρ) (res : Bool) : SeqClass n φ ρ :=
  { cls with mtx := none, accepted := if res then cls.accepted ++ [job] else cls.accepted }

def stopJobs (cls : SeqClass n φ ρ) (cb : φ → Bool) : SeqClass n φ ρ :=
  let jobs := cls.jobs.filter (fun job => !cb job.fn)
  { cls with
    jobs := jobs
    free := if jobs.isEmpty then true else cls.free
    accepted := cls.accepted.take (cls.accepted.length - cls.jobs.length) ++ jobs }

def disableSeq (cls : SeqClass n φ ρ) : SeqClass n φ ρ :=
  { cls with
    accepting := false
    free := true
    jobs := []
    accepted := cls.accepted.take (cls.accepted.length - cls.jobs.length) }

end SeqClass

namespace ThreadPool

variable {n : Nat} {σ φ ρ : Type}

/--
A pool after `init`, with classes fresh from `create_seq`.
-/
def init : ThreadPool n σ φ ρ :=
  { running := true, accepting := true, jobs := [], workers := fun _ => .waiting,
    seqs := fun _ => .createSeq, refs := fun _ => 0 }

def addRef [DecidableEq ρ] (pool : ThreadPool n σ φ ρ) (refc : Option ρ) (d : Int) : ThreadPool n σ φ ρ :=
  match refc with
  | none => pool
  | some r => { pool with refs := Function.update pool.refs r (pool.refs r + d) }

def setWorker (pool : ThreadPool n σ φ ρ) (w : Fin n) (s : Worker σ φ ρ) : ThreadPool n σ φ ρ :=
  { pool with workers := Function.update pool.workers w s }

def setSeq [DecidableEq σ] (pool : ThreadPool n σ φ ρ) (seq : σ) (cls : SeqClass n φ ρ)
    : ThreadPool n σ φ ρ :=
  { pool with seqs := Function.update pool.seqs seq cls }

def enqueue [DecidableEq ρ] (pool : ThreadPool n σ φ ρ) (task : Task σ φ) (refc : Option ρ)
    : Bool × ThreadPool n σ φ ρ :=
  if !pool.accepting then
    (false, pool)
  else
    let pool : ThreadPool n σ φ ρ := { pool with jobs := pool.jobs ++ [⟨task, refc⟩] }
    (true, pool.addRef refc 1)

inductive Label (n : Nat) (σ φ ρ : Type) where
  | enqueue (fn : φ) (refc : Option ρ)
  | enqueueSeq (seq : σ) (fn : φ) (refc : Option ρ)
  /-- the call of `enqueue` in `enqueue_seq` -/
  | enqueueSeqPush (seq : σ)
  | stopJobs (seq : σ) (cb : φ → Bool)
  | disableSeq (seq : σ)
  | join
  | stop
  /-- a worker takes the front of the queue -/
  | pop (w : Fin n)
  | call (w : Fin n)
  | return (w : Fin n)
  /-- the locked part of `seq_wrapper` -/
  | lockSeq (w : Fin n)
  /-- the call of `enqueue` in `seq_wrapper` -/
  | requeue (w : Fin n)
  | leave (w : Fin n)

/--
One step; `none` if it is blocked or not next.
-/
def step [DecidableEq σ] [DecidableEq ρ] (pool : ThreadPool n σ φ ρ)
    : Label n σ φ ρ → Option (ThreadPool n σ φ ρ)
  | .enqueue fn refc => some (pool.enqueue (.plain fn) refc).2
  | .enqueueSeq seq fn refc =>
    if (pool.seqs seq).mtx.isSome then
      none
    else
      some (pool.setSeq seq ((pool.seqs seq).enqueueSeq ⟨fn, refc⟩))
  | .enqueueSeqPush seq =>
    match (pool.seqs seq).mtx with
    | some (.enqueueSeq job) =>
      let (res, pool') := pool.enqueue (.seqWrapper job.fn seq) job.refc
      some (pool'.setSeq seq ((pool.seqs seq).enqueued job res))
    | _ => none
  | .stopJobs seq cb =>
    if (pool.seqs seq).mtx.isSome then
      none
    else
      some (pool.setSeq seq ((pool.seqs seq).stopJobs cb))
  | .disableSeq seq =>
    if (pool.seqs seq).mtx.isSome then
      none
    else
      some (pool.setSeq seq (pool.seqs seq).disableSeq)
  | .join => some { pool with accepting := false }
  | .stop => some { pool with running := false }
  | .pop w =>
    match pool.workers w, pool.running, pool.jobs with
    | .waiting, true, j :: jobs =>
      let pool := { pool with jobs := jobs }
      some (pool.setWorker w (.popped j))
    | _, _, _ => none
  | .call w =>
    match pool.workers w with
    | .popped ⟨.plain fn, refc⟩ => some (pool.setWorker w (.running ⟨.plain fn, refc⟩))
    | .popped ⟨.seqWrapper fn seq, refc⟩ =>
      let cls := pool.seqs seq
      some ((pool.setSeq seq { cls with started := cls.started ++ [⟨fn, refc⟩] }).setWorker w
        (.running ⟨.seqWrapper fn seq, refc⟩))
    | _ => none
  | .return w =>
    match pool.workers w with
    | .running ⟨.plain fn, refc⟩ => some (pool.setWorker w (.leaving ⟨.plain fn, refc⟩))
    | .running ⟨.seqWrapper fn seq, refc⟩ =>
      some (pool.setWorker w (.returned ⟨.seqWrapper fn seq, refc⟩))
    | _ => none
  | .lockSeq w =>
    match pool.workers w with
    | .returned ⟨.seqWrapper fn seq, refc⟩ =>
      let cls := pool.seqs seq
      if cls.mtx.isSome then
        none
      else
        match cls.jobs with
        | [] =>
          some ((pool.setSeq seq { cls with free := true }).setWorker w
            (.leaving ⟨.seqWrapper fn seq, refc⟩))
        | next :: jobs =>
          some ((pool.setSeq seq { cls with jobs := jobs, mtx := some (.seqWrapper w) }).setWorker w
            (.requeueing ⟨.seqWrapper fn seq, refc⟩ next))
    | _ => none
  | .requeue w =>
    match pool.workers w with
    | .requeueing ⟨.seqWrapper fn seq, refc⟩ next =>
      -- nobody looks at what `enqueue` returns
      let pool' := (pool.enqueue (.seqWrapper next.fn seq) next.refc).2
      some ((pool'.setSeq seq { pool.seqs seq with mtx := none }).setWorker w
        (.leaving ⟨.seqWrapper fn seq, refc⟩))
    | _ => none
  | .leave w =>
    match pool.workers w with
    | .leaving j => some ((pool.addRef j.refc (-1)).setWorker w .waiting)
    | _ => none

section Frame

variable (pool : ThreadPool n σ φ ρ)

@[simp]
theorem setWorker_jobs (w : Fin n) (s : Worker σ φ ρ) : (pool.setWorker w s).jobs = pool.jobs := rfl

@[simp]
theorem setWorker_workers (w : Fin n) (s : Worker σ φ ρ)
    : (pool.setWorker w s).workers = Function.update pool.workers w s := rfl

@[simp]
theorem setWorker_seqs (w : Fin n) (s : Worker σ φ ρ) : (pool.setWorker w s).seqs = pool.seqs := rfl

@[simp]
theorem setWorker_accepting (w : Fin n) (s : Worker σ φ ρ)
    : (pool.setWorker w s).accepting = pool.accepting := rfl

section Classes

variable [DecidableEq σ] (seq : σ) (cls : SeqClass n φ ρ)

@[simp]
theorem setSeq_jobs : (pool.setSeq seq cls).jobs = pool.jobs := rfl

@[simp]
theorem setSeq_workers : (pool.setSeq seq cls).workers = pool.workers := rfl

@[simp]
theorem setSeq_seqs : (pool.setSeq seq cls).seqs = Function.update pool.seqs seq cls := rfl

@[simp]
theorem setSeq_accepting : (pool.setSeq seq cls).accepting = pool.accepting := rfl

end Classes

section Counters

variable [DecidableEq ρ] (refc : Option ρ)

@[simp]
theorem addRef_jobs (d : Int) : (pool.addRef refc d).jobs = pool.jobs := by
  cases refc <;> rfl

@[simp]
theorem addRef_workers (d : Int) : (pool.addRef refc d).workers = pool.workers := by
  cases refc <;> rfl

@[simp]
theorem addRef_seqs (d : Int) : (pool.addRef refc d).seqs = pool.seqs := by
  cases refc <;> rfl

@[simp]
theorem addRef_accepting (d : Int) : (pool.addRef refc d).accepting = pool.accepting := by
  cases refc <;> rfl

variable (task : Task σ φ)

@[simp]
theorem enqueue_workers : (pool.enqueue task refc).2.workers = pool.workers := by
  unfold enqueue
  split <;> simp

@[simp]
theorem enqueue_seqs : (pool.enqueue task refc).2.seqs = pool.seqs := by
  unfold enqueue
  split <;> simp

@[simp]
theorem enqueue_accepting : (pool.enqueue task refc).2.accepting = pool.accepting := by
  unfold enqueue
  split <;> simp

variable {pool}

/--
A pool that keeps accepting takes every job.
-/
theorem enqueue_of_accepting (h : pool.accepting = true)
    : (pool.enqueue task refc).1 = true
        ∧ (pool.enqueue task refc).2.jobs = pool.jobs ++ [⟨task, refc⟩] := by
  simp [enqueue, h]

end Counters

end Frame

end ThreadPool

end HCraft
