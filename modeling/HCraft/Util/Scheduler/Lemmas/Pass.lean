import HCraft.Util.Scheduler.Lemmas.Sound

/-!
This module contains the passes of the scheduler over its tasks.
-/

namespace HCraft

namespace Scheduler

open Transition

variable {κ : Type} [DecidableEq κ]

/--
The task a step takes off the front of the list.
-/
def visited : Except Fault (Scheduler κ) → Label κ → Option Nat
  | .ok st, .visit => st.tasks.head?
  | _, _ => none

/--
What the pass has still to visit.
-/
def remaining (st : Scheduler κ) : List Nat :=
  st.tasks.take st.thread.left

section Steps

variable {st st' : Scheduler κ} {l : Label κ}

/--
Within a pass the worker goes through the list from front to back, whatever the other threads do.
-/
theorem Sound.remaining (h : Sound st) (hmoves : Moves st l st') (hholds : st.thread.holds = true)
    (hl : l ≠ .unlock)
    : st'.thread.holds = true
        ∧ st.remaining = (visited (.ok st) l).toList ++ st'.remaining := by
  have hleft := h.left
  cases hmoves with
  | create hfree => simp [hfree] at hholds
  | start hrunning hstopping =>
    rw [h.absent.mpr ⟨hrunning, hstopping⟩] at hholds
    cases hholds
  | check hthread =>
    rw [hthread] at hholds
    cases hholds
  | lock hthread =>
    rw [hthread] at hholds
    cases hholds
  | @skip id left now rest task hthread htasks _ _ =>
    rw [hthread, htasks] at hleft
    simp only [Thread.left, List.length_cons, Nat.add_le_add_iff_right] at hleft
    refine ⟨rfl, ?_⟩
    simp [Scheduler.remaining, visited, hthread, htasks, Thread.left,
      List.take_append_of_le_length hleft]
  | call hthread htasks _ _ _ _ =>
    refine ⟨rfl, ?_⟩
    simp [Scheduler.remaining, visited, hthread, htasks, Thread.left]
  | last hthread _ _ =>
    refine ⟨rfl, ?_⟩
    simp [Scheduler.remaining, visited, hthread, Thread.left]
  | again hthread _ _ _ =>
    rw [hthread, Thread.left] at hleft
    refine ⟨rfl, ?_⟩
    simp [Scheduler.remaining, visited, hthread, Thread.left,
      List.take_append_of_le_length hleft]
  | unlock _ => exact absurd rfl hl
  | _ => exact ⟨hholds, rfl⟩

theorem act_joined_of_holds (hholds : st.thread.holds = true) : st.act .joined = none := by
  simp only [act, ite_eq_right_iff, reduceCtorEq, imp_false, not_and]
  intro _ hexited
  rw [hexited] at hholds
  cases hholds

theorem Sound.history_pass (h : Sound st) (hholds : st.thread.holds = true) {pass : List (Label κ)}
    (hpass : ∀ l ∈ pass, l ≠ .unlock) {res : Except Fault (Scheduler κ)}
    (hexec : exec Scheduler.step (.ok st) pass = some res)
    : ∃ st', res = .ok st' ∧ Sound st'
        ∧ st.remaining = history Scheduler.step visited (.ok st) pass ++ st'.remaining := by
  induction pass generalizing st with
  | nil =>
    cases hexec
    exact ⟨st, rfl, h, rfl⟩
  | cons l pass ih =>
    obtain ⟨mid, hstep, hrest⟩ := exec_cons.mp hexec
    have hl : l ≠ .joined := by
      rintro rfl
      exact absurd ((act_joined_of_holds hholds).symm.trans hstep) (by simp)
    obtain ⟨st₁, rfl, hmoves, h₁⟩ := h.step hl hstep
    obtain ⟨hholds₁, hremaining⟩ := h.remaining hmoves hholds (hpass l List.mem_cons_self)
    obtain ⟨st', hres, h', hhist⟩ :=
      ih h₁ hholds₁ (fun l hl => hpass l (List.mem_cons_of_mem _ hl)) hrest
    refine ⟨st', hres, h', ?_⟩
    rw [history_cons hstep, hremaining, hhist, List.append_assoc]

end Steps

/--
A pass visits every task that is not through once, in the order in which they were created, whatever is
created, armed or stopped in the meantime.
-/
theorem history_visited {before pass : List (Label κ)} {now : Int}
    (hbefore : ∀ l ∈ before, l ≠ .joined) (hpass : ∀ l ∈ pass, l ≠ .unlock)
    (hrun : (exec step (.ok init) (before ++ .lock now :: (pass ++ [.unlock]))).isSome = true)
    : ∃ st : Scheduler κ, exec step (.ok init) before = some (.ok st)
        ∧ history step visited (.ok st) (.lock now :: pass)
          = (List.range st.created).filter (fun id => id ∉ st.finished) := by
  obtain ⟨res, hres⟩ := Option.isSome_iff_exists.mp hrun
  obtain ⟨mid, hexec, hrest⟩ := exec_append.mp hres
  obtain ⟨st, rfl, h⟩ := (always_sound hbefore).last hexec
  refine ⟨st, hexec, ?_⟩
  obtain ⟨mid, hlock, htail⟩ := exec_cons.mp hrest
  obtain ⟨st₁, rfl, hmoves, h₁⟩ := h.step (by simp) hlock
  obtain ⟨st₂, hexec', hunlock⟩ := exec_append.mp htail
  cases hmoves with
  | lock hthread =>
    obtain ⟨st', rfl, h', hhist⟩ := h₁.history_pass rfl hpass hexec'
    obtain ⟨_, hact, _⟩ := exec_cons.mp hunlock
    obtain ⟨_, _, hmoves', _⟩ := h'.step (by simp) hact
    cases hmoves' with
    | unlock hthread' =>
      have horder := h.order
      rw [hthread] at horder
      have hwaiting : st.tasks = st.waiting := horder
      have hnone : st'.remaining = [] := by
        rw [Scheduler.remaining, hthread']
        rfl
      rw [hnone, List.append_nil] at hhist
      have hall : Scheduler.remaining { st with thread := .scanning st.tasks.length now }
          = st.tasks := by
        simp [Scheduler.remaining, Thread.left]
      rw [history_cons hlock, ← hhist, hall, hwaiting]
      rfl

/--
The second pass, in which one of three tasks is through and one is armed.
-/
theorem history_visited_second
    : ∃ st : Scheduler Unit, exec step (.ok init)
          [.create, .start, .create, .check, .runOnce () 1 0 0, .write (), .write (), .write (),
            .write (), .lock 5, .visit, .visit, .returned 6, .unlock, .create, .check]
            = some (.ok st)
        ∧ history step visited (.ok st)
            [.lock 7, .visit, .run () 0 3 4 5, .stop, .write (), .visit]
          = (List.range st.created).filter (fun id => id ∉ st.finished) :=
  history_visited (by simp) (by simp) rfl

end Scheduler

end HCraft
