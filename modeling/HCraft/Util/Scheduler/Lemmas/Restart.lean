import HCraft.Util.Scheduler.Lemmas.Sound

/-!
This module contains what becomes of a scheduler that is started again after it was stopped.
-/

namespace HCraft

namespace Scheduler

open Transition

variable {κ : Type} [DecidableEq κ]

/--
The list begins with a task that was deleted, and no function is running.
-/
structure Dangles (st : Scheduler κ) : Prop where
  front : ∃ id rest, st.tasks = id :: rest ∧ st.heap id = none ∧ id < st.created
  idle : ∀ id left, st.thread ≠ .calling id left

section Steps

variable {st st' : Scheduler κ}

omit [DecidableEq κ] in
theorem Dangles.deleteAll (h : Dangles st) : deleteAll st.heap st.tasks = .error .useAfterFree := by
  obtain ⟨id, rest, htasks, hheap, _⟩ := h.front
  simp [Scheduler.deleteAll, htasks, hheap]

omit [DecidableEq κ] in
theorem Dangles.visit (h : Dangles st) (left : Nat) (now : Int)
    : st.visit left now = .error .useAfterFree := by
  obtain ⟨id, rest, htasks, hheap, _⟩ := h.front
  simp [Scheduler.visit, htasks, hheap]

omit [DecidableEq κ] in
/--
What leaves the front of the list and the deleted tasks alone.
-/
theorem Dangles.keep (h : Dangles st) (htasks : st.tasks <+: st'.tasks)
    (hheap : ∀ id, id < st.created → st.heap id = none → st'.heap id = none)
    (hcreated : st.created ≤ st'.created) (hidle : ∀ id left, st'.thread ≠ .calling id left)
    : Dangles st' := by
  obtain ⟨id, rest, hfront, hnone, hid⟩ := h.front
  obtain ⟨more, hmore⟩ := htasks
  refine ⟨⟨id, rest ++ more, ?_, hheap id hid hnone, Nat.lt_of_lt_of_le hid hcreated⟩, hidle⟩
  rw [← hmore, hfront, List.cons_append]

theorem Dangles.call (h : Dangles st) {k : κ} {id : Nat} {writes : List Write}
    (hcall : st.call k id writes = some st') : Dangles st' := by
  simp only [Scheduler.call] at hcall
  split at hcall
  . cases hcall
    exact h.keep (List.prefix_refl _) (fun _ _ hnone => hnone) (Nat.le_refl _) h.idle
  . cases hcall

/--
Whatever is done with the scheduler, the deleted task stays at the front.
-/
theorem Dangles.act (h : Dangles st) {l : Label κ} {res : Except Fault (Scheduler κ)}
    (hact : st.act l = some res)
    : res = .error .useAfterFree
        ∨ (l ≠ .visit ∧ l ≠ .joined ∧ ∃ st', res = .ok st' ∧ Dangles st') := by
  cases l with
  | create =>
    simp only [Scheduler.act] at hact
    split at hact
    . cases hact
    . cases hact
      refine .inr ⟨by simp, by simp, _, rfl, h.keep (List.prefix_append ..) ?_ (Nat.le_succ _) h.idle⟩
      intro id hid hnone
      exact (Function.update_of_ne (Nat.ne_of_lt hid) ..).trans hnone
  | run k id now interval delay =>
    obtain ⟨st', hcall, rfl⟩ := Option.map_eq_some_iff.mp hact
    exact .inr ⟨by simp, by simp, st', rfl, h.call hcall⟩
  | runOnce k id now delay =>
    obtain ⟨st', hcall, rfl⟩ := Option.map_eq_some_iff.mp hact
    exact .inr ⟨by simp, by simp, st', rfl, h.call hcall⟩
  | write k =>
    simp only [Scheduler.act] at hact
    split at hact
    . cases hact
    . next id w rest hcallers =>
      split at hact
      . cases hact
        exact .inl rfl
      . next task hheap =>
        cases hact
        refine .inr ⟨by simp, by simp, _, rfl, h.keep (List.prefix_refl _) ?_ (Nat.le_refl _) h.idle⟩
        intro id' _ hnone
        have hne : id' ≠ id := by
          rintro rfl
          rw [hheap] at hnone
          cases hnone
        exact (Function.update_of_ne hne ..).trans hnone
  | start =>
    simp only [Scheduler.act] at hact
    split at hact
    . cases hact
      exact .inr ⟨by simp, by simp, _, rfl, h⟩
    . split at hact
      . cases hact
      . cases hact
        exact .inr ⟨by simp, by simp, _, rfl,
          h.keep (List.prefix_refl _) (fun _ _ h => h) (Nat.le_refl _) (by simp)⟩
  | stop =>
    simp only [Scheduler.act] at hact
    split at hact
    . cases hact
      exact .inr ⟨by simp, by simp, _, rfl, h⟩
    . cases hact
      exact .inr ⟨by simp, by simp, _, rfl,
        h.keep (List.prefix_refl _) (fun _ _ h => h) (Nat.le_refl _) h.idle⟩
  | joined =>
    simp only [Scheduler.act, h.deleteAll] at hact
    split at hact
    . cases hact
      exact .inl rfl
    . cases hact
  | check =>
    simp only [Scheduler.act] at hact
    split at hact
    . cases hact
      refine .inr ⟨by simp, by simp, _, rfl,
        h.keep (List.prefix_refl _) (fun _ _ h => h) (Nat.le_refl _) ?_⟩
      intro id left
      dsimp only
      split <;> simp
    . cases hact
  | lock now =>
    simp only [Scheduler.act] at hact
    split at hact
    . cases hact
      exact .inr ⟨by simp, by simp, _, rfl,
        h.keep (List.prefix_refl _) (fun _ _ h => h) (Nat.le_refl _) (by simp)⟩
    . cases hact
  | visit =>
    simp only [Scheduler.act] at hact
    split at hact
    . cases hact
      exact .inl (h.visit ..)
    . cases hact
  | returned now =>
    simp only [Scheduler.act] at hact
    split at hact
    . next id left hthread => exact absurd hthread (h.idle id left)
    . cases hact
  | unlock =>
    simp only [Scheduler.act] at hact
    split at hact
    . cases hact
      exact .inr ⟨by simp, by simp, _, rfl,
        h.keep (List.prefix_refl _) (fun _ _ h => h) (Nat.le_refl _) (by simp)⟩
    . cases hact

theorem Dangles.exec (h : Dangles st) {ls : List (Label κ)} {l : Label κ}
    (hl : l = .visit ∨ l = .joined) {res : Except Fault (Scheduler κ)}
    (hexec : Transition.exec step (.ok st) (ls ++ [l]) = some res) : res = .error .useAfterFree := by
  induction ls generalizing st with
  | nil =>
    obtain ⟨mid, hact, hnil⟩ := exec_cons.mp hexec
    cases hnil
    cases h.act hact with
    | inl herror => exact herror
    | inr hok => exact absurd hl (by simp [hok.1, hok.2.1])
  | cons l' ls ih =>
    obtain ⟨mid, hact, hrest⟩ := exec_cons.mp hexec
    cases h.act hact with
    | inl herror =>
      subst herror
      cases ls <;> cases hrest
    | inr hok =>
      obtain ⟨_, _, st', rfl, h'⟩ := hok
      exact ih h' hrest

/--
The list still holds what was deleted.
-/
theorem Sound.dangles (h : Sound st) (hjoined : st.act .joined = some (.ok st'))
    {id : Nat} (hid : id < st.created) (hnot : id ∉ st.finished) : Dangles st' := by
  simp only [Scheduler.act] at hjoined
  split at hjoined
  . next hexited =>
    have horder := h.order
    rw [hexited.2] at horder
    have htasks : st.tasks = st.waiting := horder
    rw [htasks, deleteAll_of_nodup st.nodup_waiting ?_] at hjoined
    . cases hjoined
      have hmem : id ∈ st.waiting := List.mem_filter.mpr ⟨List.mem_range.mpr hid, by simpa using hnot⟩
      cases hwaiting : st.waiting with
      | nil => simp [hwaiting] at hmem
      | cons first rest =>
        have hfirst : first ∈ st.tasks := by simp [htasks, hwaiting]
        refine ⟨⟨first, rest, rfl, by simp, (h.mem_tasks hfirst).1⟩, by simp⟩
    . intro id hid
      exact (h.heap id).mpr (List.mem_range.mp (List.mem_filter.mp hid).1)
  . cases hjoined

end Steps

/--
A scheduler that is stopped while a task is still to run must not be started again: `stop` leaves the
pointers in the list, so that the first task a pass visits is a deleted one, and so is the first one
that another `stop` deletes.
-/
theorem restart_faults {before after : List (Label κ)} {l : Label κ}
    (hbefore : ∀ l ∈ before, l ≠ .joined)
    (hwaiting : ∃ st : Scheduler κ, exec step (.ok init) before = some (.ok st)
      ∧ ∃ id < st.created, id ∉ st.finished)
    (hl : l = .visit ∨ l = .joined)
    : ∀ res, exec step (.ok (init : Scheduler κ)) (before ++ .joined :: (after ++ [l])) = some res →
        res = .error .useAfterFree := by
  intro res hexec
  obtain ⟨st, hst, id, hid, hnot⟩ := hwaiting
  obtain ⟨mid, hmid, hrest⟩ := exec_append.mp hexec
  rw [hst] at hmid
  cases hmid
  obtain ⟨_, heq, h⟩ := (always_sound hbefore).last hst
  cases heq
  obtain ⟨joined, hact, htail⟩ := exec_cons.mp hrest
  obtain ⟨st', rfl, _⟩ := h.joined hact
  exact (h.dangles hact hid hnot).exec hl htail

/--
The tasks of `init_scheduler` when the server is started a second time.
-/
theorem restart_faults_server
    : exec step (.ok (init : Scheduler Unit))
        (([.start, .create, .run () 0 0 1000 0, .stop, .check] : List (Label Unit)) ++ .joined
          :: (([.start, .create, .check, .lock 5] : List (Label Unit)) ++ [.visit]))
        =
      some (.error .useAfterFree) := by
  have hsome : (exec step (.ok (init : Scheduler Unit))
      (([.start, .create, .run () 0 0 1000 0, .stop, .check] : List (Label Unit)) ++ .joined
        :: (([.start, .create, .check, .lock 5] : List (Label Unit)) ++ [.visit]))).isSome := by
    rfl
  obtain ⟨res, hres⟩ := Option.isSome_iff_exists.mp hsome
  rw [hres, restart_faults (by simp) ⟨_, rfl, 0, by decide, by decide⟩ (.inl rfl) res hres]

end Scheduler

end HCraft
