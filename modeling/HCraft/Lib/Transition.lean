import Mathlib.Data.List.Basic

/-!
This module contains runs of labelled transition systems and the rules that carry an invariant along
them.
-/

universe u v

namespace Transition

variable {S : Type u} {L : Type v} (step : S → L → Option S)

/--
The state after a sequence of steps, if each of them is possible.
-/
def exec (s : S) : List L → Option S
  | [] => some s
  | l :: ls => (step s l).bind (exec · ls)

/--
What the steps of a run leave behind.
-/
def history {α : Type} (f : S → L → Option α) (s : S) : List L → List α
  | [] => []
  | l :: ls =>
    match step s l with
    | none => []
    | some s' => (f s l).toList ++ history f s' ls

/--
`P` holds in every state a run goes through.
-/
def Always (P : S → Prop) (s : S) : List L → Prop
  | [] => P s
  | l :: ls => P s ∧ ∀ s', step s l = some s' → Always P s' ls

/--
`R` holds of every step a run takes.
-/
def EachStep (R : S → L → Prop) (s : S) : List L → Prop
  | [] => True
  | l :: ls => ∀ s', step s l = some s' → R s l ∧ EachStep R s' ls

variable {step}

@[simp]
theorem exec_nil (s : S) : exec step s [] = some s := rfl

theorem exec_cons {s s' : S} {l : L} {ls : List L}
    : exec step s (l :: ls) = some s' ↔ ∃ t, step s l = some t ∧ exec step t ls = some s' := by
  simp [exec, Option.bind_eq_some_iff]

theorem exec_append {s s' : S} {ls ls' : List L}
    : exec step s (ls ++ ls') = some s'
        ↔
      ∃ t, exec step s ls = some t ∧ exec step t ls' = some s' := by
  induction ls generalizing s with
  | nil => simp
  | cons l ls ih =>
    simp only [List.cons_append, exec_cons, ih]
    constructor
    . rintro ⟨t, hstep, t', hexec, hrest⟩
      exact ⟨t', ⟨t, hstep, hexec⟩, hrest⟩
    . rintro ⟨t', ⟨t, hstep, hexec⟩, hrest⟩
      exact ⟨t, hstep, t', hexec, hrest⟩

theorem history_cons {α : Type} {f : S → L → Option α} {s s' : S} {l : L}
    (hstep : step s l = some s') (ls : List L)
    : history step f s (l :: ls) = (f s l).toList ++ history step f s' ls := by
  rw [history, hstep]

theorem history_append {α : Type} {f : S → L → Option α} {s s' : S} {ls : List L}
    (hexec : exec step s ls = some s') (ls' : List L)
    : history step f s (ls ++ ls') = history step f s ls ++ history step f s' ls' := by
  induction ls generalizing s with
  | nil =>
    injection hexec with hexec
    rw [hexec]
    rfl
  | cons l ls ih =>
    obtain ⟨t, hstep, hrest⟩ := exec_cons.mp hexec
    rw [List.cons_append, history_cons hstep, history_cons hstep, ih hrest, List.append_assoc]

instance EachStep.decidable {R : S → L → Prop} [∀ s l, Decidable (R s l)] (s : S) (ls : List L)
    : Decidable (EachStep step R s ls) :=
  match ls with
  | [] => .isTrue trivial
  | l :: ls =>
    match h : step s l with
    | none => .isTrue (by simp [EachStep, h])
    | some s' =>
      have : Decidable (EachStep step R s' ls) := EachStep.decidable s' ls
      decidable_of_iff (R s l ∧ EachStep step R s' ls) (by simp [EachStep, h])

instance Always.decidable {P : S → Prop} [DecidablePred P] (s : S) (ls : List L)
    : Decidable (Always step P s ls) :=
  match ls with
  | [] => inferInstanceAs (Decidable (P s))
  | l :: ls =>
    match h : step s l with
    | none => decidable_of_iff (P s) (by simp [Always, h])
    | some s' =>
      have : Decidable (Always step P s' ls) := Always.decidable s' ls
      decidable_of_iff (P s ∧ Always step P s' ls) (by simp [Always, h])

section Invariant

variable {I P : S → Prop} {R : S → L → Prop}

theorem Always.mono {Q : S → Prop} (hPQ : ∀ s, P s → Q s) {s : S} {ls : List L}
    (h : Always step P s ls) : Always step Q s ls := by
  induction ls generalizing s with
  | nil => exact hPQ s h
  | cons l ls ih => exact ⟨hPQ s h.1, fun s' hstep => ih (h.2 s' hstep)⟩

theorem Always.first {s : S} {ls : List L} (h : Always step P s ls) : P s := by
  cases ls with
  | nil => exact h
  | cons l ls => exact h.1

theorem Always.last {s s' : S} {ls : List L} (h : Always step P s ls)
    (hexec : exec step s ls = some s') : P s' := by
  induction ls generalizing s with
  | nil =>
    injection hexec with hexec
    exact hexec ▸ h
  | cons l ls ih =>
    obtain ⟨t, hstep, hrest⟩ := exec_cons.mp hexec
    exact ih (h.2 t hstep) hrest

theorem EachStep.cons_of_step {s s' : S} {l : L} {ls : List L} (hstep : step s l = some s') (hR : R s l)
    (hrest : EachStep step R s' ls) : EachStep step R s (l :: ls) := by
  intro t ht
  rw [hstep] at ht
  injection ht with ht
  rw [← ht]
  exact ⟨hR, hrest⟩

theorem EachStep.mono {Q : S → L → Prop} (hRQ : ∀ s l, R s l → Q s l) {s : S} {ls : List L}
    (h : EachStep step R s ls) : EachStep step Q s ls := by
  induction ls generalizing s with
  | nil => trivial
  | cons l ls ih => exact fun s' hstep => ⟨hRQ s l (h s' hstep).1, ih (h s' hstep).2⟩

theorem EachStep.of_forall {s : S} {ls : List L} (h : ∀ s, ∀ l ∈ ls, R s l)
    : EachStep step R s ls := by
  induction ls generalizing s with
  | nil => trivial
  | cons l ls ih =>
    exact fun s' _ => ⟨h s l (by simp), ih (fun s l hl => h s l (by simp [hl]))⟩

theorem EachStep.and_of_forall {A : L → Prop} {s : S} {ls : List L} (h : EachStep step R s ls)
    (hA : ∀ l ∈ ls, A l) : EachStep step (fun s l => A l ∧ R s l) s ls := by
  induction ls generalizing s with
  | nil => trivial
  | cons l ls ih =>
    intro s' hstep
    obtain ⟨hR, hrest⟩ := h s' hstep
    exact ⟨⟨hA l (by simp), hR⟩, ih hrest (fun l hl => hA l (by simp [hl]))⟩

/--
What every step preserves holds at the end of a run.
-/
theorem exec_preserves (hstep : ∀ s l s', I s → step s l = some s' → I s') {s s' : S} {ls : List L}
    (hI : I s) (hexec : exec step s ls = some s') : I s' := by
  induction ls generalizing s with
  | nil =>
    injection hexec with hexec
    exact hexec ▸ hI
  | cons l ls ih =>
    obtain ⟨t, hs, hrest⟩ := exec_cons.mp hexec
    exact ih (hstep s l t hI hs) hrest

/--
The invariant rule: what the good steps preserve holds throughout a run of good steps.
-/
theorem always_of_eachStep
    (hstep : ∀ s l s', I s → R s l → step s l = some s' → I s')
    {s : S} {ls : List L} (hI : I s) (h : EachStep step R s ls) : Always step I s ls := by
  induction ls generalizing s with
  | nil => exact hI
  | cons l ls ih =>
    refine ⟨hI, fun s' hs => ?_⟩
    obtain ⟨hR, hrest⟩ := h s' hs
    exact ih (hstep s l s' hI hR hs) hrest

/--
What the invariant says of every step holds of the steps of a run.
-/
theorem eachStep_of_invariant {A : L → Prop}
    (hstep : ∀ s l s', I s → A l → step s l = some s' → R s l ∧ I s')
    {s : S} {ls : List L} (hI : I s) (hA : ∀ l ∈ ls, A l) : EachStep step R s ls := by
  induction ls generalizing s with
  | nil => trivial
  | cons l ls ih =>
    intro s' hs
    obtain ⟨hR, hI'⟩ := hstep s l s' hI (hA l (by simp)) hs
    exact ⟨hR, ih hI' (fun l hl => hA l (by simp [hl]))⟩

/--
Two properties of steps that agree under the invariant hold in the same runs.
-/
theorem eachStep_congr {Q : S → L → Prop}
    (hiff : ∀ s l s', I s → step s l = some s' → (Q s l ↔ R s l))
    (hkeep : ∀ s l s', I s → R s l → step s l = some s' → I s')
    {s : S} {ls : List L} (hI : I s) : EachStep step Q s ls ↔ EachStep step R s ls := by
  induction ls generalizing s with
  | nil => simp [EachStep]
  | cons l ls ih =>
    constructor
    . intro h s' hs
      obtain ⟨hQ, hrest⟩ := h s' hs
      have hR := (hiff s l s' hI hs).mp hQ
      exact ⟨hR, (ih (hkeep s l s' hI hR hs)).mp hrest⟩
    . intro h s' hs
      obtain ⟨hR, hrest⟩ := h s' hs
      exact ⟨(hiff s l s' hI hs).mpr hR, (ih (hkeep s l s' hI hR hs)).mpr hrest⟩

/--
Where the invariant is what is wanted and no other step keeps it, the good steps are exactly the ones
to allow. `A` are the steps in question.
-/
theorem always_iff_eachStep {A : L → Prop} (hIP : ∀ s, I s → P s)
    (hgood : ∀ s l s', I s → A l → R s l → step s l = some s' → I s')
    (hbad : ∀ s l s', I s → A l → ¬ R s l → step s l = some s' → ¬ P s')
    {s : S} {ls : List L} (hI : I s) (hA : ∀ l ∈ ls, A l)
    : Always step P s ls ↔ EachStep step R s ls := by
  induction ls generalizing s with
  | nil =>
    simp only [Always, EachStep, iff_true]
    exact hIP s hI
  | cons l ls ih =>
    have hl := hA l (by simp)
    have hls : ∀ l ∈ ls, A l := fun l hl => hA l (by simp [hl])
    constructor
    . intro h s' hs
      have hrest := h.2 s' hs
      have hR : R s l := by
        by_contra hR
        exact hbad s l s' hI hl hR hs hrest.first
      exact ⟨hR, (ih (hgood s l s' hI hl hR hs) hls).mp hrest⟩
    . intro h
      refine ⟨hIP s hI, fun s' hs => ?_⟩
      obtain ⟨hR, hrest⟩ := h s' hs
      exact (ih (hgood s l s' hI hl hR hs) hls).mpr hrest

end Invariant

end Transition
