import HCraft.Util.Scheduler.Impl

/-!
This module contains what a task of the scheduler is for: a timer that goes off once, or again and
again, and never before it is due.
-/

namespace HCraft

namespace Scheduler

/--
`again` is the interval of a timer that goes off again.
-/
inductive Timer where
  | idle
  /-- the call that arms it is under way -/
  | arming (due : Int) (again : Option Int)
  | waiting (due : Int) (again : Option Int)
  | busy (again : Option Int)
  | done
  deriving DecidableEq, Repr

/--
What there is to see of a task; the last three with the clock as the worker has read it.
-/
inductive TimerEvent where
  | run (now interval delay : Int)
  | runOnce (now delay : Int)
  | armed
  | skipped (now : Int)
  | called (now : Int)
  | returned (now : Int)
  deriving DecidableEq, Repr

/--
A pass may skip a timer only before it is due, and call it only from then on. The next time is counted
from the end of the call.
-/
def Timer.step : Timer → TimerEvent → Option Timer
  | .idle, .run now interval delay => some (.arming (now + milliseconds delay) (some interval))
  | .idle, .runOnce now delay => some (.arming (now + milliseconds delay) none)
  | .idle, .skipped _ => some .idle
  | .arming due again, .armed => some (.waiting due again)
  | .arming due again, .skipped _ => some (.arming due again)
  | .waiting due again, .skipped now => if now < due then some (.waiting due again) else none
  | .waiting due again, .called now => if due ≤ now then some (.busy again) else none
  | .busy (some interval), .returned now =>
    some (.waiting (now + milliseconds interval) (some interval))
  | .busy none, .returned _ => some .done
  | _, _ => none

variable {κ : Type} [DecidableEq κ]

/--
What a step shows of the task `id`.
-/
def shows (id : Nat) : Except Fault (Scheduler κ) → Label κ → Option TimerEvent
  | .ok _, .run _ id' now interval delay =>
    if id' = id then some (.run now interval delay) else none
  | .ok _, .runOnce _ id' now delay => if id' = id then some (.runOnce now delay) else none
  | .ok st, .write k => if (st.callers k).head? = some (id, .active) then some .armed else none
  | .ok st, .visit =>
    match st.thread with
    | .scanning (left + 1) now =>
      if st.tasks.head? = some id then
        match st.visit left now with
        | .ok { thread := .calling _ _, .. } => some (.called now)
        | .ok _ => some (.skipped now)
        | .error _ => none
      else
        none
    | _ => none
  | .ok st, .returned now =>
    match st.thread with
    | .calling id' _ => if id' = id then some (.returned now) else none
    | _ => none
  | _, _ => none

end Scheduler

end HCraft
