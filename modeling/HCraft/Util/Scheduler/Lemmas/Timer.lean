import HCraft.Lib.Simulation
import HCraft.Util.Scheduler.Lemmas.Sound
import HCraft.Util.Scheduler.Timer

/-!
This module contains the proof that the tasks of the scheduler are timers.
-/

namespace HCraft

namespace Scheduler

open Transition

variable {κ : Type}

/--
No call is under way that arms the task.
-/
def Quiet (st : Scheduler κ) (id : Nat) : Prop :=
  ∀ k, ∀ p ∈ st.callers k, p.1 ≠ id

/--
Nobody has armed the task yet.
-/
def Untouched (st : Scheduler κ) (id : Nat) : Prop :=
  (st.heap id).all (fun task => !task.active) = true ∧ st.Quiet id

/--
The steps of a program that arms each task by one call, and does not delete them.
-/
def ArmsOnce : Except Fault (Scheduler κ) → Label κ → Prop
  | .ok st, .run _ id _ _ _ => st.Untouched id
  | .ok st, .runOnce _ id _ _ => st.Untouched id
  | _, .joined => False
  | _, _ => True

namespace Task

/--
What the worker does after a call of the function.
-/
def Repeats (task : Task) : Option Int → Prop
  | some interval => task.once = some false ∧ task.interval = some interval
  | none => task.once = some true

/--
What a call sets, but for `active`.
-/
def settings (due : Int) (again : Option Int) : List Write :=
  [.next due, .interval (again.getD 0), .once again.isNone]

theorem repeats_settings (task : Task) (due : Int) (again : Option Int)
    : ((settings due again).foldl write task).next = some due
        ∧ ((settings due again).foldl write task).Repeats again := by
  cases again <;> simp [settings, write, Repeats]

theorem active_not_mem_settings (due : Int) (again : Option Int)
    : Write.active ∉ settings due again := by
  simp [settings]

theorem active_write {task : Task} {w : Write} (hw : w ≠ .active)
    : (task.write w).active = task.active := by
  cases w with
  | active => exact absurd rfl hw
  | _ => rfl

theorem Repeats.active {task : Task} {again : Option Int} (h : task.Repeats again)
    : (task.write .active).Repeats again := by
  cases again <;> exact h

end Task

/--
What the timers of a task know of it.
-/
structure View (κ : Type) where
  task : Option Task
  /-- the assignments still to come -/
  pending : κ → List Write
  calling : Bool
  finished : Bool

def view (st : Scheduler κ) (id : Nat) : View κ :=
  { task := st.heap id
    pending := fun k => ((st.callers k).filter (fun p => p.1 = id)).map Prod.snd
    calling := match st.thread with
      | .calling id' _ => id' = id
      | _ => false
    finished := id ∈ st.finished }

/--
Where the timer of a task stands.
-/
inductive Follows (v : View κ) : Timer → Prop where
  | idle (htask : ∀ task, v.task = some task → task.active = false) (hquiet : ∀ k, v.pending k = [])
      : Follows v .idle
  | arming {due : Int} {again : Option Int} {task : Task} {k : κ} {writes : List Write}
      (htask : v.task = some task) (hactive : task.active = false)
      (hpending : v.pending k = writes ++ [.active]) (hwrites : .active ∉ writes)
      (hnext : (writes.foldl Task.write task).next = some due)
      (hagain : (writes.foldl Task.write task).Repeats again)
      (hquiet : ∀ k', k' ≠ k → v.pending k' = [])
      : Follows v (.arming due again)
  | waiting {due : Int} {again : Option Int} {task : Task} (htask : v.task = some task)
      (hactive : task.active = true) (hnext : task.next = some due) (hagain : task.Repeats again)
      (hquiet : ∀ k, v.pending k = []) (hcalling : v.calling = false)
      : Follows v (.waiting due again)
  | busy {again : Option Int} {task : Task} (htask : v.task = some task)
      (hactive : task.active = true) (hagain : task.Repeats again) (hquiet : ∀ k, v.pending k = [])
      (hcalling : v.calling = true)
      : Follows v (.busy again)
  | done {task : Task} (htask : v.task = some task) (hactive : task.active = true)
      (hquiet : ∀ k, v.pending k = []) (hfinished : v.finished = true) (hcalling : v.calling = false)
      : Follows v .done

theorem Untouched.quiet {st : Scheduler κ} {id : Nat} (h : st.Untouched id) (k : κ)
    : (st.view id).pending k = [] := by
  simp only [view, List.map_eq_nil_iff, List.filter_eq_nil_iff, decide_eq_true_eq]
  exact h.2 k

/--
The timer of an untouched task has not been set.
-/
theorem Follows.idle_of_untouched {st : Scheduler κ} {id : Nat} {timer : Timer}
    (h : Follows (st.view id) timer) (huntouched : st.Untouched id) : timer = .idle := by
  have hinactive : ∀ task, (st.view id).task = some task → task.active = false := by
    intro task (htask : st.heap id = some task)
    have := huntouched.1
    rw [htask] at this
    simpa using this
  cases h with
  | idle _ _ => rfl
  | @arming due again task k writes _ _ hpending _ _ _ _ =>
    have := huntouched.quiet k
    rw [hpending] at this
    simp at this
  | waiting htask hactive _ _ _ _ => simp [hinactive _ htask] at hactive
  | busy htask hactive _ _ _ => simp [hinactive _ htask] at hactive
  | done htask hactive _ _ _ => simp [hinactive _ htask] at hactive

theorem map_filter_pending (id : Nat) (writes : List Write)
    : ((writes.map (fun w => (id, w))).filter (fun p => p.1 = id)).map Prod.snd = writes := by
  induction writes with
  | nil => rfl
  | cons w writes ih => simpa using ih

theorem filter_pending_of_ne {id id' : Nat} (hne : id' ≠ id) (writes : List Write)
    : (writes.map (fun w => (id', w))).filter (fun p => p.1 = id) = [] := by
  simp [List.filter_eq_nil_iff, hne]

section Steps

variable {st st' : Scheduler κ} {id : Nat} {timer : Timer}

theorem view_create_of_ne (hne : id ≠ st.created)
    : view { st with
        tasks := st.tasks ++ [st.created]
        heap := Function.update st.heap st.created (some .create)
        created := st.created + 1 } id
      = st.view id := by
  simp [view, hne]

theorem Follows.create (hsound : Sound st) (h : Follows (st.view id) timer)
    : Follows (view { st with
        tasks := st.tasks ++ [st.created]
        heap := Function.update st.heap st.created (some .create)
        created := st.created + 1 } id) timer := by
  by_cases hne : id = st.created
  . subst hne
    have hnone : st.heap st.created = none := by
      cases hheap : st.heap st.created with
      | none => rfl
      | some task =>
        have := (hsound.heap st.created).mp (by rw [hheap]; rfl)
        exact absurd this (Nat.lt_irrefl _)
    have hno : ∀ task, (st.view st.created).task ≠ some task := by
      intro task (htask : st.heap st.created = some task)
      rw [hnone] at htask
      cases htask
    cases h with
    | idle _ hquiet =>
      refine .idle ?_ hquiet
      intro task htask
      simp only [view, Function.update_self, Option.some.injEq] at htask
      subst htask
      rfl
    | arming htask _ _ _ _ _ _ => exact absurd htask (hno _)
    | waiting htask _ _ _ _ _ => exact absurd htask (hno _)
    | busy htask _ _ _ _ => exact absurd htask (hno _)
    | done htask _ _ _ _ => exact absurd htask (hno _)
  . rw [view_create_of_ne hne]
    exact h

variable [DecidableEq κ]

theorem view_call_of_ne {k : κ} {id' : Nat} (hne : id' ≠ id) (hidle : st.callers k = [])
    (writes : List Write)
    : view { st with callers := Function.update st.callers k (writes.map (fun w => (id', w))) } id
        =
      st.view id := by
  simp only [view, View.mk.injEq, and_self, and_true, true_and]
  funext k'
  by_cases hk : k' = k
  . subst hk
    rw [Function.update_self, filter_pending_of_ne hne, hidle]
    rfl
  . rw [Function.update_of_ne hk]

/--
A call that arms the task, up to its first assignment.
-/
theorem Follows.call (h : Follows (st.view id) .idle) (hid : ∃ task, st.heap id = some task)
    (k : κ) (due : Int) (again : Option Int)
    : Follows (view { st with
        callers := Function.update st.callers k
          ((Task.settings due again ++ [Write.active]).map (fun w => (id, w))) } id)
        (.arming due again) := by
  obtain ⟨task, hheap⟩ := hid
  cases h with
  | idle htask hquiet =>
    obtain ⟨hnext, hagain⟩ := task.repeats_settings due again
    refine .arming (k := k) hheap (htask task hheap) ?_ (Task.active_not_mem_settings due again)
      hnext hagain ?_
    . simp only [view, Function.update_self]
      exact map_filter_pending id _
    . intro k' hk
      have := hquiet k'
      simpa only [view, Function.update_of_ne hk] using this

theorem view_write_of_ne {k : κ} {id' : Nat} {w : Write} {rest : List (Nat × Write)} (hne : id' ≠ id)
    (hcallers : st.callers k = (id', w) :: rest) (task : Option Task)
    : view { st with
        heap := Function.update st.heap id' task, callers := Function.update st.callers k rest } id
        =
      st.view id := by
  simp only [view, View.mk.injEq, and_self, and_true]
  refine ⟨Function.update_of_ne (Ne.symm hne) .., ?_⟩
  funext k'
  by_cases hk : k' = k
  . subst hk
    rw [Function.update_self, hcallers]
    simp [hne]
  . rw [Function.update_of_ne hk]

theorem pending_write {k : κ} {w : Write} {rest : List (Nat × Write)}
    (hcallers : st.callers k = (id, w) :: rest) (task : Option Task)
    : (st.view id).pending k = w :: (view { st with
        heap := Function.update st.heap id task, callers := Function.update st.callers k rest }
          id).pending k := by
  simp [view, hcallers]

theorem pending_write_of_ne {k k' : κ} (hk : k' ≠ k) (rest : List (Nat × Write))
    (task : Option Task)
    : (view { st with
        heap := Function.update st.heap id task, callers := Function.update st.callers k rest }
          id).pending k'
        =
      (st.view id).pending k' := by
  simp only [view, Function.update_of_ne hk]

omit [DecidableEq κ] in
theorem Sound.calling_of_inactive (hsound : Sound st) {task : Task} (hheap : st.heap id = some task)
    (hactive : task.active = false) : (st.view id).calling = false := by
  simp only [view]
  split
  . next id' left hthread =>
    obtain ⟨task', hheap', hactive'⟩ := hsound.calling id' left hthread
    rw [decide_eq_false_iff_not]
    rintro rfl
    rw [hheap] at hheap'
    injection hheap' with heq
    subst heq
    simp [hactive] at hactive'
  . rfl

/--
One assignment; the last one arms the task.
-/
theorem Follows.write (hsound : Sound st) {k : κ} {w : Write} {rest : List (Nat × Write)}
    {task : Task} (h : Follows (st.view id) timer) (hcallers : st.callers k = (id, w) :: rest)
    (hheap : st.heap id = some task)
    : Matches Timer.step (fun st timer => Follows (view st id) timer)
        { st with
          heap := Function.update st.heap id (some (task.write w))
          callers := Function.update st.callers k rest }
        timer (shows id (.ok st) (.write k)) := by
  have hpending := pending_write hcallers (some (task.write w))
  have hother : ∀ k', k' ≠ k → (view { st with
      heap := Function.update st.heap id (some (task.write w))
      callers := Function.update st.callers k rest } id).pending k' = (st.view id).pending k' :=
    fun k' hk => pending_write_of_ne hk ..
  have hnot : ¬ ∀ k, (st.view id).pending k = [] := by
    intro hquiet
    rw [hquiet k] at hpending
    cases hpending
  cases h with
  | @arming due again task' k' writes htask hactive hwhole hwrites hnext hagain hquiet =>
    have hk : k = k' := by
      by_contra hne
      rw [hquiet k hne] at hpending
      cases hpending
    subst hk
    have hsame : st.heap id = some task' := htask
    rw [hheap] at hsame
    injection hsame with heq
    subst heq
    rw [hwhole] at hpending
    cases writes with
    | nil =>
      rw [List.nil_append, List.cons.injEq] at hpending
      obtain ⟨rfl, hnil⟩ := hpending
      have hshows : shows id (.ok st) (.write k) = some .armed := by simp [shows, hcallers]
      rw [hshows]
      refine ⟨.waiting due again, rfl, .waiting (Function.update_self ..) rfl hnext hagain.active ?_
        (hsound.calling_of_inactive hheap hactive)⟩
      intro k'
      by_cases hk : k' = k
      . subst hk
        exact hnil.symm
      . exact (hother k' hk).trans (hquiet k' hk)
    | cons w' writes =>
      rw [List.cons_append, List.cons.injEq] at hpending
      obtain ⟨rfl, hrest⟩ := hpending
      rw [List.mem_cons, not_or] at hwrites
      have hshows : shows id (.ok st) (.write k) = none := by
        simp [shows, hcallers, Ne.symm hwrites.1]
      rw [hshows]
      exact .arming (Function.update_self ..)
        ((Task.active_write (Ne.symm hwrites.1)).trans hactive) hrest.symm hwrites.2 hnext hagain
        (fun k' hk => (hother k' hk).trans (hquiet k' hk))
  | idle _ hquiet => exact absurd hquiet hnot
  | waiting _ _ _ _ hquiet _ => exact absurd hquiet hnot
  | busy _ _ _ hquiet _ => exact absurd hquiet hnot
  | done _ _ hquiet _ _ => exact absurd hquiet hnot

omit [DecidableEq κ] in
theorem visit_of_not_due {left : Nat} {now : Int} {rest : List Nat} {task : Task}
    (htasks : st.tasks = id :: rest) (hheap : st.heap id = some task)
    (hnot : task.active = true → ∃ next, task.next = some next ∧ now < next)
    : st.visit left now
        = .ok { st with tasks := rest ++ [id], thread := .scanning left now } := by
  simp only [visit, htasks, hheap]
  split
  . next hactive =>
    obtain ⟨next, hnext, hlt⟩ := hnot hactive
    simp only [hnext]
    rw [if_neg (by omega)]
  . rfl

omit [DecidableEq κ] in
theorem visit_of_due {left : Nat} {now next : Int} {rest : List Nat} {task : Task}
    (htasks : st.tasks = id :: rest) (hheap : st.heap id = some task) (hactive : task.active = true)
    (hnext : task.next = some next) (hdue : next ≤ now)
    : st.visit left now = .ok { st with tasks := rest, thread := .calling id left } := by
  simp only [visit, htasks, hheap, hactive, hnext, if_true]
  rw [if_pos hdue]

omit [DecidableEq κ] in
theorem calling_of_thread {thread : Thread} (hthread : st.thread = thread)
    (hno : ∀ left, thread ≠ .calling id left) : (st.view id).calling = false := by
  simp only [view]
  split
  . next id' left h =>
    rw [decide_eq_false_iff_not]
    rintro rfl
    exact hno left (hthread.symm.trans h)
  . rfl

omit [DecidableEq κ] in
/--
A skipped timer is not due.
-/
theorem Follows.skip (hsound : Sound st) {left : Nat} {now : Int} {rest : List Nat} {task : Task}
    (h : Follows (st.view id) timer) (hthread : st.thread = .scanning (left + 1) now)
    (htasks : st.tasks = id :: rest) (hheap : st.heap id = some task)
    (hnot : task.active = true → ∃ next, task.next = some next ∧ now < next)
    : timer.step (.skipped now) = some timer := by
  have hcalling : (st.view id).calling = false :=
    calling_of_thread hthread (fun _ h => by cases h)
  have hid : id ∈ st.tasks := by simp [htasks]
  have hunfinished := (hsound.mem_tasks hid).2
  cases h with
  | idle _ _ => rfl
  | arming _ _ _ _ _ _ _ => rfl
  | waiting htask hactive hnext _ _ _ =>
    have hsame : st.heap id = some _ := htask
    rw [hheap] at hsame
    injection hsame with heq
    subst heq
    obtain ⟨next, hnext', hlt⟩ := hnot hactive
    rw [hnext] at hnext'
    injection hnext' with heq
    subst heq
    simp [Timer.step, hlt]
  | busy _ _ _ _ hcall => simp [hcalling] at hcall
  | done _ _ _ hfinished _ => simp [view, hunfinished] at hfinished

omit [DecidableEq κ] in
/--
A timer that is called is due.
-/
theorem Follows.called (hsound : Sound st) {left : Nat} {now next : Int} {rest : List Nat}
    {task : Task} (h : Follows (st.view id) timer) (hthread : st.thread = .scanning (left + 1) now)
    (htasks : st.tasks = id :: rest) (hheap : st.heap id = some task) (hactive : task.active = true)
    (hnext : task.next = some next) (hdue : next ≤ now)
    : Matches Timer.step (fun st timer => Follows (view st id) timer)
        { st with tasks := rest, thread := .calling id left } timer (some (.called now)) := by
  have hcalling : (st.view id).calling = false :=
    calling_of_thread hthread (fun _ h => by cases h)
  have hid : id ∈ st.tasks := by simp [htasks]
  have hunfinished := (hsound.mem_tasks hid).2
  have hsame : ∀ task', (st.view id).task = some task' → task' = task := by
    intro task' (htask : st.heap id = some task')
    rw [hheap] at htask
    injection htask with heq
    exact heq.symm
  cases h with
  | idle hinactive _ => simp [hinactive task hheap] at hactive
  | arming htask hinactive _ _ _ _ _ =>
    rw [hsame _ htask, hactive] at hinactive
    cases hinactive
  | @waiting due again task' htask _ hnext' hagain hquiet _ =>
    obtain rfl := hsame _ htask
    rw [hnext] at hnext'
    injection hnext' with heq
    subst heq
    refine ⟨.busy again, by simp [Timer.step, hdue], .busy hheap hactive hagain hquiet ?_⟩
    simp [view]
  | busy _ _ _ _ hcall => simp [hcalling] at hcall
  | done _ _ _ hfinished _ => simp [view, hunfinished] at hfinished

omit [DecidableEq κ] in
/--
A timer whose function has returned is the one that was called.
-/
theorem Follows.busy_of_calling (hsound : Sound st) {left : Nat} {task : Task}
    (h : Follows (st.view id) timer) (hthread : st.thread = .calling id left)
    (hheap : st.heap id = some task)
    : ∃ again, timer = .busy again ∧ task.Repeats again ∧ task.active = true
        ∧ ∀ k, (st.view id).pending k = [] := by
  have hcalling : (st.view id).calling = true := by simp [view, hthread]
  have hsame : ∀ task', (st.view id).task = some task' → task' = task := by
    intro task' (htask : st.heap id = some task')
    rw [hheap] at htask
    injection htask with heq
    exact heq.symm
  obtain ⟨task', hheap', hactive⟩ := hsound.calling id left hthread
  obtain rfl := hsame _ hheap'
  cases h with
  | idle hinactive _ => simp [hinactive _ hheap] at hactive
  | arming htask hinactive _ _ _ _ _ =>
    rw [hsame _ htask, hactive] at hinactive
    cases hinactive
  | waiting _ _ _ _ _ hcall => simp [hcalling] at hcall
  | @busy again _ htask _ hagain hquiet _ =>
    obtain rfl := hsame _ htask
    exact ⟨again, rfl, hagain, hactive, hquiet⟩
  | done _ _ _ _ hcall => simp [hcalling] at hcall

omit [DecidableEq κ] in
/--
A step on other tasks.
-/
theorem Follows.frame {l : Label κ} (h : Follows (st.view id) timer) (hview : st'.view id = st.view id)
    (hshows : shows id (.ok st) l = none)
    : Matches Timer.step (fun st timer => Follows (view st id) timer) st' timer
        (shows id (.ok st) l) := by
  rw [hshows, Matches, hview]
  exact h

theorem Follows.move (hsound : Sound st) {l : Label κ} (hmoves : Moves st l st')
    (harms : ArmsOnce (.ok st) l) (h : Follows (st.view id) timer)
    : Matches Timer.step (fun st timer => Follows (view st id) timer) st' timer
        (shows id (.ok st) l) := by
  cases hmoves with
  | create _ => exact h.create hsound
  | @run k id' now interval delay hid hidle =>
    by_cases hne : id' = id
    . subst hne
      have hidlet := h.idle_of_untouched harms
      subst hidlet
      rw [shows, if_pos rfl]
      exact ⟨_, rfl, h.call (hsound.mem_heap hid) k _ (some interval)⟩
    . exact h.frame (view_call_of_ne hne hidle _) (if_neg hne)
  | @runOnce k id' now delay hid hidle =>
    by_cases hne : id' = id
    . subst hne
      have hidlet := h.idle_of_untouched harms
      subst hidlet
      rw [shows, if_pos rfl]
      exact ⟨_, rfl, h.call (hsound.mem_heap hid) k _ none⟩
    . exact h.frame (view_call_of_ne hne hidle _) (if_neg hne)
  | @write k id' w rest task hcallers hheap =>
    by_cases hne : id' = id
    . subst hne
      exact h.write hsound hcallers hheap
    . exact h.frame (view_write_of_ne hne hcallers _) (by simp [shows, hcallers, hne])
  | restart _ => exact h
  | start hrunning hstopping =>
    apply h.frame _ rfl
    have habsent := hsound.absent.mpr ⟨hrunning, hstopping⟩
    simp [view, habsent]
  | stopped _ => exact h
  | stop _ => exact h
  | check hthread =>
    apply h.frame _ rfl
    cases hrunning : st.running <;> simp [view, hthread]
  | lock hthread =>
    apply h.frame _ rfl
    simp [view, hthread]
  | @skip id' left now rest task hthread htasks hheap hnot =>
    have hview : view { st with tasks := rest ++ [id'], thread := .scanning left now } id
        = st.view id := by
      simp [view, hthread]
    have hshows : shows id (.ok st) .visit = if id' = id then some (.skipped now) else none := by
      simp [shows, hthread, htasks, visit_of_not_due htasks hheap hnot]
    by_cases hne : id' = id
    . subst hne
      rw [hshows, if_pos rfl]
      refine ⟨timer, h.skip hsound hthread htasks hheap hnot, ?_⟩
      dsimp only
      rw [hview]
      exact h
    . exact h.frame hview (hshows.trans (if_neg hne))
  | @call id' left now next rest task hthread htasks hheap hactive hnext hdue =>
    have hshows : shows id (.ok st) .visit = if id' = id then some (.called now) else none := by
      simp [shows, hthread, htasks, visit_of_due htasks hheap hactive hnext hdue]
    by_cases hne : id' = id
    . subst hne
      rw [hshows, if_pos rfl]
      exact h.called hsound hthread htasks hheap hactive hnext hdue
    . apply h.frame _ (hshows.trans (if_neg hne))
      simp [view, hthread, hne]
  | @last id' left now task hthread hheap honce =>
    have hshows : shows id (.ok st) (.returned now)
        = if id' = id then some (.returned now) else none := by
      simp [shows, hthread]
    by_cases hne : id' = id
    . subst hne
      rw [hshows, if_pos rfl]
      obtain ⟨again, rfl, hagain, hactive, hquiet⟩ := h.busy_of_calling hsound hthread hheap
      cases again with
      | none =>
        refine ⟨.done, rfl, .done hheap hactive hquiet ?_ ?_⟩
        . simp [view]
        . simp [view]
      | some interval =>
        have := hagain.1
        rw [honce] at this
        cases this
    . apply h.frame _ (hshows.trans (if_neg hne))
      simp [view, hthread, hne, Ne.symm hne]
  | @again id' left now interval task hthread hheap honce hinterval =>
    have hshows : shows id (.ok st) (.returned now)
        = if id' = id then some (.returned now) else none := by
      simp [shows, hthread]
    by_cases hne : id' = id
    . subst hne
      rw [hshows, if_pos rfl]
      obtain ⟨again, rfl, hagain, hactive, hquiet⟩ := h.busy_of_calling hsound hthread hheap
      cases again with
      | none =>
        rw [Task.Repeats, honce] at hagain
        cases hagain
      | some interval' =>
        have hsame := hagain.2
        rw [hinterval] at hsame
        injection hsame with heq
        subst heq
        refine ⟨.waiting (now + milliseconds interval) (some interval), rfl,
          .waiting (Function.update_self ..) hactive rfl hagain hquiet ?_⟩
        simp [view]
    . apply h.frame _ (hshows.trans (if_neg hne))
      simp [view, hthread, hne, Ne.symm hne]
  | unlock hthread =>
    apply h.frame _ rfl
    simp [view, hthread]

end Steps

variable [DecidableEq κ]

omit [DecidableEq κ] in
theorem follows_init (id : Nat) : Follows (view (init : Scheduler κ) id) .idle :=
  .idle (fun _ htask => by cases htask) (fun _ => rfl)

/--
Every task is a timer: it is never called before it is due, every pass that finds it due calls it, the
next time is counted from the end of the call, and one that was to run once is never called again.
-/
theorem shows_timer (id : Nat) {ls : List (Label κ)}
    (harms : EachStep step ArmsOnce (.ok init) ls)
    : ∃ timer, exec Timer.step .idle (history step (shows id) (.ok (init : Scheduler κ)) ls)
        = some timer := by
  have hsim : ∀ res l res' timer,
      (∃ st : Scheduler κ, res = .ok st ∧ Sound st ∧ Follows (st.view id) timer) →
      ArmsOnce res l → step res l = some res' →
        Matches Timer.step
          (fun res timer => ∃ st : Scheduler κ, res = .ok st ∧ Sound st ∧ Follows (st.view id) timer)
          res' timer (shows id res l) := by
    rintro _ l res' timer ⟨st, rfl, hsound, hfollows⟩ harms hact
    have hl : l ≠ .joined := by
      rintro rfl
      exact harms
    obtain ⟨st', rfl, hmoves, hsound'⟩ := hsound.step hl hact
    have hmatch := hfollows.move hsound hmoves harms
    cases hshows : shows id (.ok st) l with
    | none =>
      rw [hshows] at hmatch
      exact ⟨st', rfl, hsound', hmatch⟩
    | some event =>
      rw [hshows] at hmatch
      obtain ⟨timer', hstep, hfollows'⟩ := hmatch
      exact ⟨timer', hstep, st', rfl, hsound', hfollows'⟩
  exact accepted_of_simulation hsim ⟨init, rfl, sound_init, follows_init id⟩ harms

/--
A task that runs every second, armed while a pass goes on.
-/
theorem shows_timer_again
    : ∃ timer, exec Timer.step .idle (history step (shows 0) (.ok (init : Scheduler Unit))
        [.create, .start, .run () 0 5 1000 0, .write (), .check, .lock 4, .write (), .write (),
          .visit, .unlock, .write (), .check, .lock 6, .visit, .returned 9, .unlock, .check,
          .lock 1000000008, .visit, .unlock, .check, .lock 1000000009, .visit]) = some timer :=
  shows_timer 0 (by simp [EachStep, ArmsOnce, Untouched, Quiet, step, act, init, call, Task.create])

end Scheduler

end HCraft
