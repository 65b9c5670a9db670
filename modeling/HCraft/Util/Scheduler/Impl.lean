import Mathlib.Logic.Function.Basic
import HCraft.Lib.Transition
import HCraft.Util.Fault

/-!
This module contains the scheduler of `util/scheduler.cpp` as a transition system: its own thread, the
threads that create tasks and arm them, and the one that starts and stops it.
-/

namespace HCraft

namespace Scheduler

/--
`std::chrono::milliseconds` in ticks of the system clock.
-/
def milliseconds (n : Int) : Int := 1000000 * n

/--
The fields that neither the constructor nor `create` sets are `none`.
-/
structure Task where
  interval : Option Int
  next : Option Int
  once : Option Bool
  active : Bool
  deriving DecidableEq, Repr

/--
An assignment of `run` or `run_once`. They take no mutex, so that the thread of the scheduler can see
the task between any two of them.
-/
inductive Write where
  | next (time : Int)
  | interval (interval : Int)
  | once (once : Bool)
  | active
  deriving DecidableEq, Repr

namespace Task

/--
A task fresh from `create`.
-/
def create : Task :=
  { interval := none, next := none, once := none, active := false }

def write (task : Task) : Write → Task
  | .next time => { task with next := some time }
  | .interval interval => { task with interval := some interval }
  | .once once => { task with once := some once }
  | .active => { task with active := true }

def runOnce (now delay : Int) : List Write :=
  [.next (now + milliseconds delay), .interval 0, .once true, .active]

def run (now interval delay : Int) : List Write :=
  [.next (now + milliseconds delay), .interval interval, .once false, .active]

end Task

/--
Where the thread stands in `worker_func`.
-/
inductive Thread where
  | absent
  /-- at the condition of the loop -/
  | looping
  | sleeping
  /-- `left` rounds of the inner loop to go; it holds `task_mtx` -/
  | scanning (left : Nat) (now : Int)
  /-- in the function of a task; it holds `task_mtx` -/
  | calling (task : Nat) (left : Nat)
  | exited
  deriving DecidableEq, Repr

def Thread.holds : Thread → Bool
  | .scanning _ _ => true
  | .calling _ _ => true
  | _ => false

end Scheduler

open Scheduler in
/--
The threads `κ` are those that arm tasks, each with the assignments it has still to make. `finished`
is history, no function reads it: the tasks that have run for the last time.
-/
structure Scheduler (κ : Type) where
  tasks : List Nat
  heap : Nat → Option Task
  created : Nat
  running : Bool
  /-- `stop` waits for the thread -/
  stopping : Bool
  thread : Thread
  callers : κ → List (Nat × Write)
  finished : List Nat

namespace Scheduler

variable {κ : Type}

def init : Scheduler κ :=
  { tasks := [], heap := fun _ => none, created := 0, running := false, stopping := false,
    thread := .absent, callers := fun _ => [], finished := [] }

inductive Label (κ : Type) where
  | create
  /-- a call of `run` -/
  | run (k : κ) (task : Nat) (now interval delay : Int)
  /-- a call of `run_once` -/
  | runOnce (k : κ) (task : Nat) (now delay : Int)
  /-- the next assignment of a call -/
  | write (k : κ)
  | start
  /-- `stop` up to the `join` -/
  | stop
  /-- the rest of `stop` -/
  | joined
  /-- the condition of the loop -/
  | check
  /-- awake again, with the mutex taken and the clock read -/
  | lock (now : Int)
  /-- the inner loop, up to the call of the function if there is one -/
  | visit
  /-- the function has returned -/
  | returned (now : Int)
  | unlock
  deriving DecidableEq, Repr

/--
The `delete`s of `stop`, which leave the pointers in the list.
-/
def deleteAll (heap : Nat → Option Task) : List Nat → Except Fault (Nat → Option Task)
  | [] => .ok heap
  | id :: ids =>
    match heap id with
    | none => .error .useAfterFree
    | some _ => deleteAll (Function.update heap id none) ids

/--
The first half of a round: a task from the front of the list, either called or put at its end.
-/
def visit (st : Scheduler κ) (left : Nat) (now : Int) : Except Fault (Scheduler κ) :=
  match st.tasks with
  | [] => .error .readOutside
  | id :: rest =>
    match st.heap id with
    | none => .error .useAfterFree
    | some task =>
      -- `next` is read last, and nothing resets `active`
      if task.active then
        match task.next with
        | none => .error .uninitialised
        | some next =>
          if next ≤ now then
            .ok { st with tasks := rest, thread := .calling id left }
          else
            .ok { st with tasks := rest ++ [id], thread := .scanning left now }
      else
        .ok { st with tasks := rest ++ [id], thread := .scanning left now }

/--
The second half: a task that has run goes to the end of the list, unless it was to run once.
-/
def returned (st : Scheduler κ) (id left : Nat) (now : Int) : Except Fault (Scheduler κ) :=
  match st.heap id with
  | none => .error .useAfterFree
  | some task =>
    match task.once with
    | none => .error .uninitialised
    | some true =>
      .ok { st with thread := .scanning left now, finished := st.finished ++ [id] }
    | some false =>
      match task.interval with
      | none => .error .uninitialised
      | some interval =>
        .ok { st with
          tasks := st.tasks ++ [id]
          heap := Function.update st.heap id
            (some { task with next := some (now + milliseconds interval) })
          thread := .scanning left now }

variable [DecidableEq κ]

/--
A thread that has got a reference from `create` begins a call.
-/
def call (st : Scheduler κ) (k : κ) (id : Nat) (writes : List Write) : Option (Scheduler κ) :=
  if id < st.created ∧ st.callers k = [] then
    some { st with callers := Function.update st.callers k (writes.map (fun w => (id, w))) }
  else
    none

/--
One step; `none` if it is blocked or not next.
-/
def act (st : Scheduler κ) : Label κ → Option (Except Fault (Scheduler κ))
  | .create =>
    if st.thread.holds then
      none
    else
      some (.ok { st with
        tasks := st.tasks ++ [st.created]
        heap := Function.update st.heap st.created (some .create)
        created := st.created + 1 })
  | .run k id now interval delay => (st.call k id (Task.run now interval delay)).map .ok
  | .runOnce k id now delay => (st.call k id (Task.runOnce now delay)).map .ok
  | .write k =>
    match st.callers k with
    | [] => none
    | (id, w) :: rest =>
      match st.heap id with
      | none => some (.error .useAfterFree)
      | some task =>
        some (.ok { st with
          heap := Function.update st.heap id (some (task.write w))
          callers := Function.update st.callers k rest })
  | .start =>
    if st.running then
      some (.ok st)
    else if st.stopping then
      none
    else
      some (.ok { st with running := true, thread := .looping })
  | .stop =>
    if !st.running then
      some (.ok st)
    else
      some (.ok { st with running := false, stopping := true })
  | .joined =>
    if st.stopping ∧ st.thread = .exited then
      some ((deleteAll st.heap st.tasks).map (fun heap =>
        { st with heap, stopping := false, thread := .absent }))
    else
      none
  | .check =>
    match st.thread with
    | .looping => some (.ok { st with thread := if st.running then .sleeping else .exited })
    | _ => none
  | .lock now =>
    match st.thread with
    | .sleeping => some (.ok { st with thread := .scanning st.tasks.length now })
    | _ => none
  | .visit =>
    match st.thread with
    | .scanning (left + 1) now => some (st.visit left now)
    | _ => none
  | .returned now =>
    match st.thread with
    | .calling id left => some (st.returned id left now)
    | _ => none
  | .unlock =>
    match st.thread with
    | .scanning 0 _ => some (.ok { st with thread := .looping })
    | _ => none

def step : Except Fault (Scheduler κ) → Label κ → Option (Except Fault (Scheduler κ))
  | .error _, _ => none
  | .ok st, l => st.act l

end Scheduler

end HCraft
