import Mathlib.Data.List.Basic
import Mathlib.Data.List.Range
import HCraft.Util.Scheduler.Impl

/-!
This module contains what holds of the scheduler in every state that it goes through until its tasks
are deleted.
-/

namespace HCraft

namespace Scheduler

open Transition

variable {κ : Type}

/--
All that the worker reads of a task is set.
-/
structure Task.Ready (task : Task) : Prop where
  interval : task.interval.isSome = true
  next : task.next.isSome = true
  once : task.once.isSome = true

/--
`task'` has every field set that `task` has.
-/
structure Task.Fills (task task' : Task) : Prop where
  interval : task.interval.isSome = true → task'.interval.isSome = true
  next : task.next.isSome = true → task'.next.isSome = true
  once : task.once.isSome = true → task'.once.isSome = true

theorem Task.Ready.fills {task task' : Task} (h : task.Ready) (hfills : task.Fills task')
    : task'.Ready :=
  ⟨hfills.interval h.interval, hfills.next h.next, hfills.once h.once⟩

theorem Task.fills_refl (task : Task) : task.Fills task :=
  ⟨id, id, id⟩

theorem Task.fills_write (task : Task) (w : Write) : task.Fills (task.write w) := by
  cases w <;> constructor <;> simp [Task.write]

theorem Task.Fills.write {task task' : Task} (h : task.Fills task') (w : Write)
    : (task.write w).Fills (task'.write w) := by
  obtain ⟨hinterval, hnext, honce⟩ := h
  cases w <;> constructor <;> simp [Task.write] <;> assumption

/--
No assignment of a call that is under way activates a task that is not ready.
-/
def Pending (heap : Nat → Option Task) : List (Nat × Write) → Prop
  | [] => True
  | (id, w) :: rest =>
    ∃ task, heap id = some task ∧ (w = .active → task.Ready)
      ∧ Pending (Function.update heap id (some (task.write w))) rest

/--
`heap'` has every task of `heap`, with no fewer fields set.
-/
def Grows (heap heap' : Nat → Option Task) : Prop :=
  ∀ id task, heap id = some task → ∃ task', heap' id = some task' ∧ task.Fills task'

theorem grows_update {heap : Nat → Option Task} {id : Nat} {task task' : Task}
    (hheap : heap id = some task) (hfills : task.Fills task')
    : Grows heap (Function.update heap id (some task')) := by
  intro id' task'' hid'
  by_cases h : id' = id
  . subst h
    rw [hheap] at hid'
    injection hid' with hid'
    subst hid'
    exact ⟨task', by simp, hfills⟩
  . exact ⟨task'', by simpa [h] using hid', task''.fills_refl⟩

theorem Pending.mono {heap heap' : Nat → Option Task} {writes : List (Nat × Write)}
    (hgrows : Grows heap heap') (h : Pending heap writes) : Pending heap' writes := by
  induction writes generalizing heap heap' with
  | nil => trivial
  | cons hd rest ih =>
    obtain ⟨id, w⟩ := hd
    obtain ⟨task, hheap, hready, hrest⟩ := h
    obtain ⟨task', hheap', hfills⟩ := hgrows id task hheap
    refine ⟨task', hheap', fun hw => (hready hw).fills hfills, ih ?_ hrest⟩
    intro id' t ht
    by_cases h : id' = id
    . subst h
      rw [Function.update_self] at ht
      injection ht with ht
      subst ht
      exact ⟨_, Function.update_self .., hfills.write w⟩
    . rw [Function.update_of_ne h] at ht
      obtain ⟨t', ht', hf⟩ := hgrows id' t ht
      exact ⟨t', by rw [Function.update_of_ne h, ht'], hf⟩

theorem pending_run {heap : Nat → Option Task} {id : Nat} {task : Task} (hheap : heap id = some task)
    (now interval delay : Int)
    : Pending heap ((Task.run now interval delay).map (fun w => (id, w))) := by
  simp only [Task.run, List.map_cons, List.map_nil, Pending]
  refine ⟨task, hheap, by simp, _, Function.update_self .., by simp, _, Function.update_self ..,
    by simp, _, Function.update_self .., ?_, trivial⟩
  intro _
  constructor <;> simp [Task.write]

theorem pending_runOnce {heap : Nat → Option Task} {id : Nat} {task : Task}
    (hheap : heap id = some task) (now delay : Int)
    : Pending heap ((Task.runOnce now delay).map (fun w => (id, w))) := by
  simp only [Task.runOnce, List.map_cons, List.map_nil, Pending]
  refine ⟨task, hheap, by simp, _, Function.update_self .., by simp, _, Function.update_self ..,
    by simp, _, Function.update_self .., ?_, trivial⟩
  intro _
  constructor <;> simp [Task.write]

/--
How many rounds the pass still has to go.
-/
def Thread.left : Thread → Nat
  | .scanning left _ => left
  | .calling _ left => left
  | _ => 0

/--
The tasks as they stood when the pass began: those it has already put back, the one it is at, and the
rest.
-/
def Thread.order (tasks : List Nat) : Thread → List Nat
  | .scanning left _ => tasks.drop left ++ tasks.take left
  | .calling id left => tasks.drop left ++ id :: tasks.take left
  | _ => tasks

theorem Thread.order_of_not_holds {thread : Thread} (h : thread.holds = false) (tasks : List Nat)
    : thread.order tasks = tasks := by
  cases thread with
  | scanning left now => cases h
  | calling id left => cases h
  | _ => rfl

theorem Thread.order_scanning_length (tasks : List Nat) (now : Int)
    : (Thread.scanning tasks.length now).order tasks = tasks := by
  simp [Thread.order]

theorem Thread.order_scanning_zero (tasks : List Nat) (now : Int)
    : (Thread.scanning 0 now).order tasks = tasks := by
  simp [Thread.order]

/--
The task that the pass is at keeps its place when it is put back.
-/
theorem Thread.order_put_back {rest : List Nat} {left : Nat} (hleft : left ≤ rest.length) (id : Nat)
    (now : Int)
    : (Thread.scanning left now).order (rest ++ [id]) = (Thread.calling id left).order rest := by
  simp [Thread.order, List.drop_append_of_le_length hleft, List.take_append_of_le_length hleft]

/--
The tasks that are not through, in the order in which they were created.
-/
def waiting (st : Scheduler κ) : List Nat :=
  (List.range st.created).filter (fun id => id ∉ st.finished)

theorem nodup_waiting (st : Scheduler κ) : st.waiting.Nodup :=
  List.nodup_range.filter _

/--
Holds until the tasks are deleted.
-/
structure Sound (st : Scheduler κ) : Prop where
  order : st.thread.order st.tasks = st.waiting
  left : st.thread.left ≤ st.tasks.length
  finished : ∀ id ∈ st.finished, id < st.created
  heap : ∀ id, (st.heap id).isSome = true ↔ id < st.created
  ready : ∀ id task, st.heap id = some task → task.active = true → task.Ready
  calling : ∀ id left, st.thread = .calling id left
    → ∃ task, st.heap id = some task ∧ task.active = true
  pending : ∀ k, Pending st.heap (st.callers k)
  absent : st.thread = .absent ↔ st.running = false ∧ st.stopping = false

theorem sound_init : Sound (init : Scheduler κ) where
  order := rfl
  left := Nat.le_refl _
  finished := by simp [init]
  heap := by simp [init]
  ready := by simp [init]
  calling := by simp [init]
  pending := fun _ => trivial
  absent := by simp [init]

theorem Sound.mem_heap {st : Scheduler κ} (h : Sound st) {id : Nat} (hid : id < st.created)
    : ∃ task, st.heap id = some task :=
  Option.isSome_iff_exists.mp ((h.heap id).mpr hid)

theorem Sound.mem_tasks {st : Scheduler κ} (h : Sound st) {id : Nat} (hid : id ∈ st.tasks)
    : id < st.created ∧ id ∉ st.finished := by
  have hmem : id ∈ st.thread.order st.tasks := by
    rw [← List.take_append_drop st.thread.left st.tasks, List.mem_append] at hid
    cases hthread : st.thread with
    | scanning left now =>
      rw [hthread] at hid
      exact List.mem_append.mpr hid.symm
    | calling id' left =>
      rw [hthread] at hid
      exact List.mem_append.mpr (hid.symm.imp_right (List.mem_cons_of_mem _))
    | _ =>
      rw [hthread] at hid
      simpa [Thread.left, Thread.order] using hid
  rw [h.order, waiting, List.mem_filter] at hmem
  simpa using hmem

variable [DecidableEq κ]

/--
A step that is no fault.
-/
inductive Moves : Scheduler κ → Label κ → Scheduler κ → Prop where
  | create {st : Scheduler κ} (hfree : st.thread.holds = false)
      : Moves st .create { st with
          tasks := st.tasks ++ [st.created]
          heap := Function.update st.heap st.created (some .create)
          created := st.created + 1 }
  | run {st : Scheduler κ} {k : κ} {id : Nat} {now interval delay : Int}
      (hid : id < st.created) (hidle : st.callers k = [])
      : Moves st (.run k id now interval delay) { st with
          callers := Function.update st.callers k
            ((Task.run now interval delay).map (fun w => (id, w))) }
  | runOnce {st : Scheduler κ} {k : κ} {id : Nat} {now delay : Int}
      (hid : id < st.created) (hidle : st.callers k = [])
      : Moves st (.runOnce k id now delay) { st with
          callers := Function.update st.callers k
            ((Task.runOnce now delay).map (fun w => (id, w))) }
  | write {st : Scheduler κ} {k : κ} {id : Nat} {w : Write}
      {rest : List (Nat × Write)} {task : Task}
      (hcallers : st.callers k = (id, w) :: rest) (hheap : st.heap id = some task)
      : Moves st (.write k) { st with
          heap := Function.update st.heap id (some (task.write w))
          callers := Function.update st.callers k rest }
  | restart {st : Scheduler κ} (hrunning : st.running = true) : Moves st .start st
  | start {st : Scheduler κ} (hrunning : st.running = false) (hstopping : st.stopping = false)
      : Moves st .start { st with running := true, thread := .looping }
  | stopped {st : Scheduler κ} (hrunning : st.running = false) : Moves st .stop st
  | stop {st : Scheduler κ} (hrunning : st.running = true)
      : Moves st .stop { st with running := false, stopping := true }
  | check {st : Scheduler κ} (hthread : st.thread = .looping)
      : Moves st .check { st with thread := if st.running then .sleeping else .exited }
  | lock {st : Scheduler κ} {now : Int} (hthread : st.thread = .sleeping)
      : Moves st (.lock now) { st with thread := .scanning st.tasks.length now }
  | skip {st : Scheduler κ} {id left : Nat} {now : Int} {rest : List Nat} {task : Task}
      (hthread : st.thread = .scanning (left + 1) now) (htasks : st.tasks = id :: rest)
      (hheap : st.heap id = some task)
      (hnot : task.active = true → ∃ next, task.next = some next ∧ now < next)
      : Moves st .visit { st with tasks := rest ++ [id], thread := .scanning left now }
  | call {st : Scheduler κ} {id left : Nat} {now next : Int} {rest : List Nat} {task : Task}
      (hthread : st.thread = .scanning (left + 1) now) (htasks : st.tasks = id :: rest)
      (hheap : st.heap id = some task) (hactive : task.active = true)
      (hnext : task.next = some next) (hdue : next ≤ now)
      : Moves st .visit { st with tasks := rest, thread := .calling id left }
  | last {st : Scheduler κ} {id left : Nat} {now : Int} {task : Task}
      (hthread : st.thread = .calling id left) (hheap : st.heap id = some task)
      (honce : task.once = some true)
      : Moves st (.returned now) { st with
          thread := .scanning left now, finished := st.finished ++ [id] }
  | again {st : Scheduler κ} {id left : Nat} {now interval : Int} {task : Task}
      (hthread : st.thread = .calling id left) (hheap : st.heap id = some task)
      (honce : task.once = some false) (hinterval : task.interval = some interval)
      : Moves st (.returned now) { st with
          tasks := st.tasks ++ [id]
          heap := Function.update st.heap id
            (some { task with next := some (now + milliseconds interval) })
          thread := .scanning left now }
  | unlock {st : Scheduler κ} {now : Int} (hthread : st.thread = .scanning 0 now)
      : Moves st .unlock { st with thread := .looping }

section Steps

variable {st st' : Scheduler κ} {l : Label κ}

/--
A new task comes last.
-/
theorem filter_range_succ {n : Nat} {finished : List Nat} (h : ∀ id ∈ finished, id < n)
    : (List.range (n + 1)).filter (fun id => id ∉ finished)
        =
      (List.range n).filter (fun id => id ∉ finished) ++ [n] := by
  rw [List.range_succ, List.filter_append]
  have hn : n ∉ finished := fun hmem => Nat.lt_irrefl n (h n hmem)
  simp [hn]

/--
A task that is through leaves the others in their order.
-/
theorem filter_append_singleton {ids before after finished : List Nat} {id : Nat} (hnodup : ids.Nodup)
    (h : before ++ id :: after = ids.filter (fun i => i ∉ finished))
    : before ++ after = ids.filter (fun i => i ∉ finished ++ [id]) := by
  have hnd : (before ++ id :: after).Nodup := h ▸ hnodup.filter _
  rw [List.nodup_append] at hnd
  obtain ⟨_, hafter, hdisj⟩ := hnd
  have hfilter : ids.filter (fun i => i ∉ finished ++ [id])
      = (ids.filter (fun i => i ∉ finished)).filter (fun i => i ≠ id) := by
    rw [List.filter_filter]
    apply List.filter_congr
    intro i _
    simp only [List.mem_append, List.mem_singleton, not_or, Bool.decide_and, Bool.and_comm]
  rw [hfilter, ← h, List.filter_append, List.filter_cons]
  have hb : before.filter (fun i => i ≠ id) = before := by
    rw [List.filter_eq_self]
    intro i hi
    simpa using hdisj i hi id List.mem_cons_self
  have ha : after.filter (fun i => i ≠ id) = after := by
    rw [List.filter_eq_self]
    intro i hi
    have := (List.nodup_cons.mp hafter).1
    simp only [ne_eq, decide_eq_true_eq]
    intro heq
    exact this (heq ▸ hi)
  rw [hb, ha]
  simp

/--
A caller waits where the lists say so, the worker reads nothing that is not there.
-/
theorem Sound.moves (h : Sound st) (hl : l ≠ .joined) {res : Except Fault (Scheduler κ)}
    (hact : st.act l = some res) : ∃ st', res = .ok st' ∧ Moves st l st' := by
  cases l with
  | create =>
    simp only [act] at hact
    split at hact
    . cases hact
    . next hfree =>
      cases hact
      exact ⟨_, rfl, .create (by simpa using hfree)⟩
  | run k id now interval delay =>
    simp only [act, call] at hact
    split at hact
    . next hcall =>
      cases hact
      exact ⟨_, rfl, .run hcall.1 hcall.2⟩
    . cases hact
  | runOnce k id now delay =>
    simp only [act, call] at hact
    split at hact
    . next hcall =>
      cases hact
      exact ⟨_, rfl, .runOnce hcall.1 hcall.2⟩
    . cases hact
  | write k =>
    simp only [act] at hact
    split at hact
    . cases hact
    . next id w rest hcallers =>
      have hpending := h.pending k
      rw [hcallers] at hpending
      obtain ⟨task, hheap, _, _⟩ := hpending
      rw [hheap] at hact
      cases hact
      exact ⟨_, rfl, .write hcallers hheap⟩
  | start =>
    simp only [act] at hact
    split at hact
    . next hrunning =>
      cases hact
      exact ⟨_, rfl, .restart hrunning⟩
    . next hrunning =>
      split at hact
      . cases hact
      . next hstopping =>
        cases hact
        exact ⟨_, rfl, .start (by simpa using hrunning) (by simpa using hstopping)⟩
  | stop =>
    simp only [act] at hact
    split at hact
    . next hrunning =>
      cases hact
      exact ⟨_, rfl, .stopped (by simpa using hrunning)⟩
    . next hrunning =>
      cases hact
      exact ⟨_, rfl, .stop (by simpa using hrunning)⟩
  | joined => exact absurd rfl hl
  | check =>
    simp only [act] at hact
    split at hact
    . next hthread =>
      cases hact
      exact ⟨_, rfl, .check hthread⟩
    . cases hact
  | lock now =>
    simp only [act] at hact
    split at hact
    . next hthread =>
      cases hact
      exact ⟨_, rfl, .lock hthread⟩
    . cases hact
  | visit =>
    simp only [act] at hact
    split at hact
    . next left now hthread =>
      cases hact
      have hleft := h.left
      rw [hthread] at hleft
      cases htasks : st.tasks with
      | nil =>
        rw [htasks] at hleft
        exact absurd hleft (by simp [Thread.left])
      | cons id rest =>
        have hid : id ∈ st.tasks := by simp [htasks]
        obtain ⟨task, hheap⟩ := h.mem_heap (h.mem_tasks hid).1
        simp only [visit, htasks, hheap]
        split
        . next hactive =>
          obtain ⟨next, hnext⟩ := Option.isSome_iff_exists.mp (h.ready id task hheap hactive).next
          simp only [hnext]
          split
          . next hdue => exact ⟨_, rfl, .call hthread htasks hheap hactive hnext hdue⟩
          . next hdue =>
            exact ⟨_, rfl, .skip hthread htasks hheap (fun _ => ⟨next, hnext, by omega⟩)⟩
        . next hactive =>
          exact ⟨_, rfl, .skip hthread htasks hheap (fun h => absurd h hactive)⟩
    . cases hact
  | returned now =>
    simp only [act] at hact
    split at hact
    . next id left hthread =>
      cases hact
      obtain ⟨task, hheap, hactive⟩ := h.calling id left hthread
      have hready := h.ready id task hheap hactive
      obtain ⟨once, honce⟩ := Option.isSome_iff_exists.mp hready.once
      obtain ⟨interval, hinterval⟩ := Option.isSome_iff_exists.mp hready.interval
      cases once with
      | true =>
        refine ⟨_, ?_, .last hthread hheap honce⟩
        simp only [returned, hheap, honce]
      | false =>
        refine ⟨_, ?_, .again hthread hheap honce hinterval⟩
        simp only [returned, hheap, honce, hinterval]
    . cases hact
  | unlock =>
    simp only [act] at hact
    split at hact
    . next now hthread =>
      cases hact
      exact ⟨_, rfl, .unlock hthread⟩
    . cases hact

omit [DecidableEq κ] in
theorem Sound.create (h : Sound st) (hfree : st.thread.holds = false)
    : Sound { st with
        tasks := st.tasks ++ [st.created]
        heap := Function.update st.heap st.created (some .create)
        created := st.created + 1 } where
  order := by
    have horder := h.order
    rw [Thread.order_of_not_holds hfree] at horder ⊢
    rw [horder]
    exact (filter_range_succ h.finished).symm
  left := by
    have := h.left
    simp only [List.length_append]
    omega
  finished := fun id hid => Nat.lt_succ_of_lt (h.finished id hid)
  heap := by
    intro id
    by_cases hid : id = st.created
    . subst hid
      simp
    . simp only [Function.update_of_ne hid, h.heap id]
      omega
  ready := by
    intro id task hheap hactive
    by_cases hid : id = st.created
    . subst hid
      simp only [Function.update_self, Option.some.injEq] at hheap
      subst hheap
      cases hactive
    . simp only [Function.update_of_ne hid] at hheap
      exact h.ready id task hheap hactive
  calling := by
    intro id left (hthread : st.thread = .calling id left)
    rw [hthread] at hfree
    cases hfree
  pending := by
    intro k
    apply (h.pending k).mono
    intro id task hheap
    have hid : id ≠ st.created := by
      intro heq
      have := (h.heap id).mp (by simp [hheap])
      omega
    exact ⟨task, by simp [hid, hheap], task.fills_refl⟩
  absent := h.absent

theorem Sound.call (h : Sound st) (k : κ) {writes : List (Nat × Write)}
    (hwrites : Pending st.heap writes)
    : Sound { st with callers := Function.update st.callers k writes } where
  order := h.order
  left := h.left
  finished := h.finished
  heap := h.heap
  ready := h.ready
  calling := h.calling
  pending := by
    intro k'
    by_cases hk : k' = k
    . subst hk
      simpa using hwrites
    . simpa [hk] using h.pending k'
  absent := h.absent

omit [DecidableEq κ] in
/--
A task keeps what it has, and is ready once it is active.
-/
theorem Sound.update (h : Sound st) {id : Nat} {task task' : Task} (hheap : st.heap id = some task)
    (hfills : task.Fills task') (hready : task'.active = true → task'.Ready)
    (hactive : task.active = true → task'.active = true)
    : Sound { st with heap := Function.update st.heap id (some task') } where
  order := h.order
  left := h.left
  finished := h.finished
  heap := by
    intro id'
    by_cases hid : id' = id
    . subst hid
      simpa [hheap] using (h.heap id').mp (by simp [hheap])
    . simpa [hid] using h.heap id'
  ready := by
    intro id' t ht
    by_cases hid : id' = id
    . subst hid
      simp only [Function.update_self, Option.some.injEq] at ht
      subst ht
      exact hready
    . simp only [Function.update_of_ne hid] at ht
      exact h.ready id' t ht
  calling := by
    intro id' left hthread
    obtain ⟨t, ht, hact⟩ := h.calling id' left hthread
    by_cases hid : id' = id
    . subst hid
      rw [hheap] at ht
      injection ht with ht
      subst ht
      exact ⟨task', by simp, hactive hact⟩
    . exact ⟨t, by simp [hid, ht], hact⟩
  pending := fun k => (h.pending k).mono (grows_update hheap hfills)
  absent := h.absent

omit [DecidableEq κ] in
/--
What only concerns the thread and its list.
-/
theorem Sound.turn (h : Sound st) {tasks finished : List Nat} {thread : Thread}
    {running stopping : Bool}
    (horder : thread.order tasks = (List.range st.created).filter (fun id => id ∉ finished))
    (hleft : thread.left ≤ tasks.length) (hfinished : ∀ id ∈ finished, id < st.created)
    (hcalling : ∀ id left, thread = .calling id left →
      ∃ task, st.heap id = some task ∧ task.active = true)
    (habsent : thread = .absent ↔ running = false ∧ stopping = false)
    : Sound { st with tasks, finished, thread, running, stopping } :=
  ⟨horder, hleft, hfinished, h.heap, h.ready, hcalling, h.pending, habsent⟩

theorem Sound.move (h : Sound st) (hmoves : Moves st l st') : Sound st' := by
  cases hmoves with
  | create hfree => exact h.create hfree
  | run hid _ =>
    obtain ⟨task, hheap⟩ := h.mem_heap hid
    exact h.call _ (pending_run hheap ..)
  | runOnce hid _ =>
    obtain ⟨task, hheap⟩ := h.mem_heap hid
    exact h.call _ (pending_runOnce hheap ..)
  | @write k id w rest task hcallers hheap =>
    have hpending := h.pending k
    rw [hcallers] at hpending
    obtain ⟨task', hheap', hready, hrest⟩ := hpending
    rw [hheap] at hheap'
    injection hheap' with heq
    subst heq
    have hactive : (task.write w).active = true → (task.write w).Ready := by
      intro hact
      by_cases hw : w = .active
      . exact (hready hw).fills (task.fills_write w)
      . refine (h.ready id task hheap ?_).fills (task.fills_write w)
        cases w <;> first | exact hact | exact absurd rfl hw
    have hmono : task.active = true → (task.write w).active = true := by
      intro hact
      cases w <;> first | exact hact | rfl
    exact (h.update hheap (task.fills_write w) hactive hmono).call k hrest
  | restart _ => exact h
  | start hrunning hstopping =>
    have habsent := h.absent.mpr ⟨hrunning, hstopping⟩
    have horder := h.order
    rw [habsent] at horder
    exact h.turn horder (Nat.zero_le _) h.finished (fun _ _ hthread => by cases hthread)
      (by simp)
  | stopped _ => exact h
  | stop hrunning =>
    refine h.turn h.order h.left h.finished h.calling ?_
    have hnot : st.thread ≠ .absent := by
      intro habsent
      have := (h.absent.mp habsent).1
      simp [hrunning] at this
    simp [hnot]
  | check hthread =>
    have horder := h.order
    rw [hthread] at horder
    have hnot : st.running = true ∨ st.stopping = true := by
      have := h.absent
      rw [hthread] at this
      cases hr : st.running <;> cases hs : st.stopping <;> simp_all
    refine h.turn ?_ ?_ h.finished ?_ ?_
    . split <;> exact horder
    . split <;> exact Nat.zero_le _
    . intro id left hcalling
      split at hcalling <;> cases hcalling
    . split
      . next hrunning => simp [hrunning]
      . next hrunning => simpa [hrunning] using hnot
  | lock hthread =>
    have horder := h.order
    have habsent := h.absent
    rw [hthread] at horder habsent
    apply h.turn ((Thread.order_scanning_length ..).trans horder) (Nat.le_refl _) h.finished
      (fun _ _ hthread => by cases hthread)
    simpa using habsent
  | @skip id left now rest task hthread htasks hheap _ =>
    have horder := h.order
    have hleft := h.left
    have habsent := h.absent
    rw [hthread] at horder hleft habsent
    rw [htasks] at horder hleft
    simp only [Thread.left, List.length_cons, Nat.add_le_add_iff_right] at hleft
    refine h.turn ((Thread.order_put_back hleft ..).trans horder) ?_ h.finished
      (fun _ _ hthread => by cases hthread) ?_
    . simp only [Thread.left, List.length_append, List.length_singleton]
      omega
    . simpa using habsent
  | @call id left now next rest task hthread htasks hheap hactive _ _ =>
    have horder := h.order
    have hleft := h.left
    have habsent := h.absent
    rw [hthread] at horder hleft habsent
    rw [htasks] at horder hleft
    simp only [Thread.left, List.length_cons, Nat.add_le_add_iff_right] at hleft
    refine h.turn horder hleft h.finished ?_ ?_
    . intro id' left' heq
      cases heq
      exact ⟨task, hheap, hactive⟩
    . simpa using habsent
  | @last id left now task hthread hheap _ =>
    have horder := h.order
    have hleft := h.left
    have habsent := h.absent
    rw [hthread] at horder hleft habsent
    refine h.turn ?_ hleft ?_ (fun _ _ hthread => by cases hthread) ?_
    . exact filter_append_singleton List.nodup_range horder
    . intro i hi
      rw [List.mem_append, List.mem_singleton] at hi
      cases hi with
      | inl hi => exact h.finished i hi
      | inr hi =>
        subst hi
        exact (h.heap i).mp (by simp [hheap])
    . simpa using habsent
  | @again id left now interval task hthread hheap honce hinterval =>
    have horder := h.order
    have hleft := h.left
    have habsent := h.absent
    rw [hthread] at horder hleft habsent
    obtain ⟨task', hheap', hactive⟩ := h.calling id left hthread
    rw [hheap] at hheap'
    injection hheap' with heq
    subst heq
    have hfills : task.Fills { task with next := some (now + milliseconds interval) } :=
      ⟨fun h => h, fun _ => rfl, fun h => h⟩
    have hready := (h.ready id task hheap hactive).fills hfills
    refine (h.update hheap hfills (fun _ => hready) (fun _ => hactive)).turn
      ((Thread.order_put_back hleft ..).trans horder) ?_ h.finished
      (fun _ _ hthread => by cases hthread) ?_
    . simp only [Thread.left, List.length_append, List.length_singleton] at hleft ⊢
      omega
    . simpa using habsent
  | unlock hthread =>
    have horder := h.order
    have habsent := h.absent
    rw [hthread] at horder habsent
    rw [Thread.order_scanning_zero] at horder
    refine h.turn ?_ (Nat.zero_le _) h.finished (fun _ _ hthread => by cases hthread) ?_
    . exact horder
    . simpa using habsent

end Steps

/--
What `stop` deletes is gone, each task once, and the others stay.
-/
theorem deleteAll_of_nodup {heap : Nat → Option Task} {ids : List Nat} (hnodup : ids.Nodup)
    (hheap : ∀ id ∈ ids, (heap id).isSome = true)
    : deleteAll heap ids = .ok (fun id => if id ∈ ids then none else heap id) := by
  induction ids generalizing heap with
  | nil => simp [deleteAll]
  | cons id ids ih =>
    rw [List.nodup_cons] at hnodup
    obtain ⟨task, htask⟩ := Option.isSome_iff_exists.mp (hheap id List.mem_cons_self)
    simp only [deleteAll, htask]
    rw [ih hnodup.2]
    . congr 1
      funext id'
      by_cases hid : id' = id
      . subst hid
        simp
      . simp [hid]
    . intro id' hid'
      have hne : id' ≠ id := fun heq => hnodup.1 (heq ▸ hid')
      rw [Function.update_of_ne hne]
      exact hheap id' (List.mem_cons_of_mem _ hid')

theorem Sound.joined {st : Scheduler κ} (h : Sound st) {res : Except Fault (Scheduler κ)}
    (hact : st.act .joined = some res)
    : ∃ st', res = .ok st' ∧ ∀ id, (st'.heap id).isSome = true ↔ id ∈ st'.finished := by
  simp only [act] at hact
  split at hact
  . next hexited =>
    have horder := h.order
    rw [hexited.2] at horder
    have htasks : st.tasks = st.waiting := horder
    rw [htasks, deleteAll_of_nodup st.nodup_waiting ?_] at hact
    . cases hact
      refine ⟨_, rfl, fun id => ?_⟩
      have hheap := h.heap id
      have hfinished := h.finished id
      by_cases hid : id ∈ st.waiting
      . have := (List.mem_filter.mp hid).2
        simp only [decide_eq_true_eq] at this
        simp [hid, this]
      . simp only [hid, if_false, hheap]
        constructor
        . intro hlt
          by_contra hnot
          exact hid (List.mem_filter.mpr ⟨List.mem_range.mpr hlt, by simpa using hnot⟩)
        . exact hfinished
    . intro id hid
      exact (h.heap id).mpr (List.mem_range.mp (List.mem_filter.mp hid).1)
  . cases hact

/--
A step of a run that has not deleted the tasks.
-/
theorem Sound.step {st : Scheduler κ} (h : Sound st) {l : Label κ} (hl : l ≠ .joined)
    {res : Except Fault (Scheduler κ)} (hact : Scheduler.step (.ok st) l = some res)
    : ∃ st', res = .ok st' ∧ Moves st l st' ∧ Sound st' := by
  obtain ⟨st', hres, hmoves⟩ := h.moves hl hact
  exact ⟨st', hres, hmoves, h.move hmoves⟩

theorem always_sound {ls : List (Label κ)} (hls : ∀ l ∈ ls, l ≠ .joined)
    : Always step (fun res => ∃ st : Scheduler κ, res = .ok st ∧ Sound st) (.ok init) ls := by
  refine always_of_eachStep ?_ ⟨init, rfl, sound_init⟩
    (EachStep.of_forall (fun _ l hl => hls l hl))
  rintro _ l res ⟨st, rfl, h⟩ hl hact
  obtain ⟨st', hres, _, h'⟩ := h.step hl hact
  exact ⟨st', hres, h'⟩

/--
Whoever creates tasks and arms them, and however the single assignments fall between the reads of the
worker, nothing is read that is not set or not there; `stop` then deletes every task once, but for the
ones that have run for the last time, which nobody deletes.
-/
theorem always_no_fault {ls : List (Label κ)} (hls : ∀ l ∈ ls, l ≠ .joined)
    : Always step (fun res => ∃ st : Scheduler κ, res = .ok st ∧
        ∀ res', st.act .joined = some res' →
          ∃ st', res' = .ok st' ∧ ∀ id, (st'.heap id).isSome = true ↔ id ∈ st'.finished)
      (.ok init) ls := by
  apply (always_sound hls).mono
  rintro _ ⟨st, rfl, h⟩
  exact ⟨st, rfl, fun _ hact => h.joined hact⟩

/--
A task that runs once and one that runs again, and a second pass in which neither is due.
-/
theorem always_no_fault_two
    : Always step (fun res => ∃ st : Scheduler Unit, res = .ok st ∧
        ∀ res', st.act .joined = some res' →
          ∃ st', res' = .ok st' ∧ ∀ id, (st'.heap id).isSome = true ↔ id ∈ st'.finished)
      (.ok init)
      [.start, .create, .check, .run () 0 0 1000 0, .write (), .lock 5, .visit, .unlock, .write (),
        .write (), .create, .write (), .runOnce () 1 6 0, .check, .write (), .write (), .write (),
        .write (), .lock 7000000, .visit, .returned 8000000, .visit, .returned 9000000, .unlock,
        .check, .lock 9000001, .visit, .stop, .unlock, .check] :=
  always_no_fault (by simp)

end Scheduler

end HCraft
