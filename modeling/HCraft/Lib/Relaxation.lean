import Mathlib.Algebra.BigOperators.Group.Finset.Basic
import Mathlib.Algebra.Order.BigOperators.Group.Finset
import Mathlib.Data.Finset.Card
import Mathlib.Logic.Function.Basic
import Mathlib.Order.WellFounded
import Mathlib.Data.Prod.Lex
import Mathlib.Tactic.Ring

/-!
This module contains relaxation by a worklist: cells are recomputed one at a time, in any order, and
whatever may depend on a cell that has changed is put on the list. Some cells have a fixed value.
-/

universe u v

/--
`next p` is what is looked at again when the cell at `p` changes. Several places may share a cell.
-/
structure Relaxation (π : Type u) (α : Type v) where
  cell : π → Option α
  fixed : α → Option Nat
  rule : (α → Nat) → α → Nat
  next : π → List π

namespace Relaxation

variable {π : Type u} {α : Type v} [DecidableEq α]

/--
`calls` are the places that still have to be looked at before the next item of `updates` is taken, the
first one next.
-/
@[ext]
structure State (π : Type u) (α : Type v) where
  value : α → Nat
  updates : List π
  calls : List π

variable (R : Relaxation π α) (s : State π α)

def put (p : π) (c : α) (v : Nat) : State π α :=
  { s with value := Function.update s.value c v, calls := R.next p ++ s.calls }

def recompute (p : π) : State π α :=
  match R.cell p with
  | none => s
  | some c => if R.rule s.value c ≠ s.value c then R.put s p c (R.rule s.value c) else s

def enqueue (p : π) : Option (State π α) :=
  match R.cell p with
  | none => none
  | some c =>
    match R.fixed c with
    | none => some { s with updates := s.updates ++ [p] }
    | some v => if v ≠ s.value c then some (R.put s p c v) else some s

inductive Step : State π α → State π α → Prop where
  | work (s : State π α) (i : Nat) (h : i < s.updates.length) (hcalls : s.calls = [])
      : Step s (R.recompute { s with updates := s.updates.eraseIdx i } s.updates[i])
  | call (s s' : State π α) (p : π) (rest : List π) (hcalls : s.calls = p :: rest)
      (henqueue : R.enqueue { s with calls := rest } p = some s') : Step s s'

section Enqueue

variable {R : Relaxation π α} {s s' : State π α} {p : π}

theorem enqueue_value (h : R.enqueue s p = some s') (c : α)
    : s'.value c = s.value c ∨ R.fixed c = some (s'.value c) := by
  unfold enqueue at h
  split at h
  . cases h
  . next c' _ =>
    split at h
    . injection h with h
      subst h
      exact .inl rfl
    . next v hfixed =>
      split at h
      . injection h with h
        subst h
        by_cases hc : c = c'
        . subst hc
          right
          simp only [put, Function.update_self]
          exact hfixed
        . left
          simp only [put, Function.update_of_ne hc]
      . injection h with h
        subst h
        exact .inl rfl

theorem enqueue_kept (h : R.enqueue s p = some s') {c : α}
    (hc : R.fixed c = none ∨ R.fixed c = some (s.value c)) : s'.value c = s.value c := by
  cases enqueue_value h c with
  | inl hsame => exact hsame
  | inr hfixed =>
    cases hc with
    | inl hnone =>
      rw [hnone] at hfixed
      cases hfixed
    | inr hsome =>
      rw [hsome] at hfixed
      injection hfixed with hfixed
      exact hfixed.symm

end Enqueue

section Digits

/--
The highest digit in which two numbers differ decides.
-/
theorem sum_digits_lt {f g : Nat → Nat} {b n K : Nat} (hK : K < n) (hf : ∀ k, f k < b)
    (hlt : f K < g K) (heq : ∀ k, K < k → f k = g k)
    : ∑ k ∈ Finset.range n, f k * b ^ k < ∑ k ∈ Finset.range n, g k * b ^ k := by
  have hsmall (n : Nat) : ∑ k ∈ Finset.range n, f k * b ^ k < b ^ n := by
    induction n with
    | zero => simp
    | succ n ih =>
      rw [Finset.sum_range_succ, Nat.pow_succ]
      have hdigit : f n * b ^ n + b ^ n ≤ b * b ^ n := by
        rw [← Nat.succ_mul]
        exact Nat.mul_le_mul_right _ (hf n)
      rw [Nat.mul_comm (b ^ n) b]
      omega
  induction n with
  | zero => omega
  | succ n ih =>
    rw [Finset.sum_range_succ, Finset.sum_range_succ]
    by_cases hn : K = n
    . subst hn
      have hdigit : f K * b ^ K + b ^ K ≤ g K * b ^ K := by
        rw [← Nat.succ_mul]
        exact Nat.mul_le_mul_right _ hlt
      have := hsmall K
      omega
    . have := ih (by omega)
      rw [heq n (by omega)]
      omega

end Digits

section Potential

variable (cells : Finset α) (N : Nat)

/--
The cells that are on the wrong side of the level `k`.
-/
def wrong (v : α → Nat) (k : Nat) : Finset α :=
  cells.filter (fun c => R.fixed c = none ∧ ¬ (k ≤ v c ↔ k ≤ R.rule v c))

def potential (v : α → Nat) : Nat :=
  ∑ k ∈ Finset.range (N + 1), (R.wrong cells v k).card * (cells.card + 1) ^ k

/--
Which cells reach the level `k` is decided by those above it.
-/
def Levelled : Prop :=
  ∀ k (v v' : α → Nat), (∀ c, k < v c ↔ k < v' c) → ∀ c, k ≤ R.rule v c ↔ k ≤ R.rule v' c

variable {R cells N} {v : α → Nat} {c : α}

omit [DecidableEq α] in
theorem mem_wrong {k : Nat}
    : c ∈ R.wrong cells v k
        ↔
      c ∈ cells ∧ R.fixed c = none ∧ ¬ (k ≤ v c ↔ k ≤ R.rule v c) := by
  unfold wrong
  rw [Finset.mem_filter]

omit [DecidableEq α] in
theorem wrong_congr {v' : α → Nat} {k : Nat} (hR : R.Levelled) (h : ∀ c, k ≤ v' c ↔ k ≤ v c)
    (h' : ∀ c, k < v' c ↔ k < v c) : R.wrong cells v' k = R.wrong cells v k := by
  ext c
  rw [mem_wrong, mem_wrong, h, hR k v' v h' c]

/--
Recomputing a cell puts it right at the highest level where it was wrong, and changes nothing above.
-/
theorem potential_update_lt (hR : R.Levelled) (hc : c ∈ cells) (hfixed : R.fixed c = none)
    (hv : v c ≤ N) (hrule : R.rule v c ≤ N) (hne : R.rule v c ≠ v c)
    : R.potential cells N (Function.update v c (R.rule v c)) < R.potential cells N v := by
  let v' := Function.update v c (R.rule v c)
  let K := max (v c) (R.rule v c)
  have hself : v' c = R.rule v c := Function.update_self ..
  have hother (a : α) (ha : a ≠ c) : v' a = v a := Function.update_of_ne ha ..
  -- above `K` no cell changes sides
  have habove (k : Nat) (hk : K < k) (a : α) : k ≤ v' a ↔ k ≤ v a := by
    by_cases ha : a = c
    . rw [ha, hself]
      omega
    . rw [hother a ha]
  have hstrict (k : Nat) (hk : K ≤ k) (a : α) : k < v' a ↔ k < v a := habove (k + 1) (by omega) a
  have hwrongK : R.wrong cells v' K ⊂ R.wrong cells v K := by
    rw [Finset.ssubset_iff_of_subset]
    . refine ⟨c, mem_wrong.mpr ⟨hc, hfixed, by omega⟩, ?_⟩
      rw [mem_wrong, hself, hR K v' v (hstrict K (Nat.le_refl K)) c]
      simp
    . intro a ha
      rw [mem_wrong, hR K v' v (hstrict K (Nat.le_refl K)) a] at ha
      by_cases hac : a = c
      . rw [hac, hself] at ha
        simp at ha
      . rw [hother a hac] at ha
        exact mem_wrong.mpr ha
  apply sum_digits_lt (K := K)
  . omega
  . intro k
    exact Nat.lt_succ_of_le (Finset.card_le_card (Finset.filter_subset _ _))
  . exact Finset.card_lt_card hwrongK
  . intro k hk
    rw [wrong_congr hR (habove k hk) (hstrict k (Nat.le_of_lt hk))]

end Potential

section Termination

/--
What is needed for the list to run empty: finitely many cells, values up to `N`, and a rule that works
level by level.
-/
structure Bounded (cells : Finset α) (N : Nat) : Prop where
  cell_mem : ∀ p c, R.cell p = some c → c ∈ cells
  levelled : R.Levelled
  rule_le : ∀ v c, (∀ c, v c ≤ N) → R.rule v c ≤ N
  fixed_le : ∀ c v, R.fixed c = some v → v ≤ N

variable (cells : Finset α) (N : Nat)

/--
The item is a place with a fixed cell.
-/
def AtFixed (p : π) : Prop :=
  ∃ c, R.cell p = some c ∧ R.fixed c ≠ none

instance (p : π) : Decidable (R.AtFixed p) :=
  match h : R.cell p with
  | none => .isFalse (by simp [AtFixed, h])
  | some c => decidable_of_iff (R.fixed c ≠ none) (by simp [AtFixed, h])

/--
The cells with a fixed value that have another one.
-/
def unset (v : α → Nat) : Finset α :=
  cells.filter (fun c => ∃ x ∈ R.fixed c, x ≠ v c)

/--
No item with a fixed cell ever gets on the list again, no fixed cell is changed by an enqueue once it
has its value, and recomputing any other cell lowers the potential.
-/
def measure (s : State π α) : Nat ×ₗ Nat ×ₗ Nat ×ₗ Nat :=
  toLex (s.updates.countP (R.AtFixed ·),
    toLex ((R.unset cells s.value).card,
      toLex (R.potential cells N s.value, 2 * s.calls.length + s.updates.length)))

variable {R cells N} {s : State π α} {p : π} {c : α} {v : α → Nat}

section Measure

variable {s' : State π α}

omit [DecidableEq α] in
theorem measure_lt_of_countP (h : s'.updates.countP (R.AtFixed ·) < s.updates.countP (R.AtFixed ·))
    : R.measure cells N s' < R.measure cells N s := by
  unfold measure
  rw [Prod.Lex.toLex_lt_toLex]
  exact .inl h

variable (hcount : s'.updates.countP (R.AtFixed ·) = s.updates.countP (R.AtFixed ·))
include hcount

omit [DecidableEq α] in
theorem measure_lt_of_unset (h : (R.unset cells s'.value).card < (R.unset cells s.value).card)
    : R.measure cells N s' < R.measure cells N s := by
  unfold measure
  rw [Prod.Lex.toLex_lt_toLex, Prod.Lex.toLex_lt_toLex]
  exact .inr ⟨hcount, .inl h⟩

variable (hunset : R.unset cells s'.value = R.unset cells s.value)
include hunset

omit [DecidableEq α] in
theorem measure_lt_of_potential (h : R.potential cells N s'.value < R.potential cells N s.value)
    : R.measure cells N s' < R.measure cells N s := by
  unfold measure
  rw [Prod.Lex.toLex_lt_toLex, Prod.Lex.toLex_lt_toLex, Prod.Lex.toLex_lt_toLex]
  exact .inr ⟨hcount, .inr ⟨congrArg Finset.card hunset, .inl h⟩⟩

omit [DecidableEq α] hunset in
theorem measure_lt_of_length (hvalue : s'.value = s.value)
    (h : 2 * s'.calls.length + s'.updates.length < 2 * s.calls.length + s.updates.length)
    : R.measure cells N s' < R.measure cells N s := by
  unfold measure
  rw [hvalue, Prod.Lex.toLex_lt_toLex, Prod.Lex.toLex_lt_toLex, Prod.Lex.toLex_lt_toLex]
  exact .inr ⟨hcount, .inr ⟨rfl, .inr ⟨rfl, h⟩⟩⟩

end Measure

omit [DecidableEq α] in
theorem mem_unset : c ∈ R.unset cells v ↔ c ∈ cells ∧ ∃ x, R.fixed c = some x ∧ x ≠ v c := by
  unfold unset
  rw [Finset.mem_filter]
  simp

theorem unset_update_lt (hc : c ∈ cells) {x : Nat} (hfixed : R.fixed c = some x) (hne : x ≠ v c)
    : (R.unset cells (Function.update v c x)).card < (R.unset cells v).card := by
  apply Finset.card_lt_card
  rw [Finset.ssubset_iff_of_subset]
  . refine ⟨c, mem_unset.mpr ⟨hc, x, hfixed, hne⟩, ?_⟩
    simp [mem_unset, hfixed]
  . intro a ha
    obtain ⟨hmem, y, hy, hya⟩ := mem_unset.mp ha
    by_cases hac : a = c
    . subst hac
      rw [hfixed] at hy
      injection hy with hy
      simp [hy] at hya
    . rw [Function.update_of_ne hac] at hya
      exact mem_unset.mpr ⟨hmem, y, hy, hya⟩

theorem unset_update_of_not_fixed (hfixed : R.fixed c = none) (x : Nat)
    : R.unset cells (Function.update v c x) = R.unset cells v := by
  ext a
  rw [mem_unset, mem_unset]
  by_cases hac : a = c
  . simp [hac, hfixed]
  . rw [Function.update_of_ne hac]

theorem countP_eraseIdx (q : π → Bool) (l : List π) (i : Nat) (hi : i < l.length)
    : l.countP q = (l.eraseIdx i).countP q + if q l[i] then 1 else 0 := by
  induction l generalizing i with
  | nil => simp at hi
  | cons a l ih =>
    cases i with
    | zero => simp [List.countP_cons]
    | succ i =>
      simp only [List.eraseIdx_cons_succ, List.countP_cons, List.getElem_cons_succ]
      rw [ih i (by simpa using hi)]
      omega

omit [DecidableEq α] in
theorem countP_eraseIdx_of_not {l : List π} {i : Nat} {hi : i < l.length} (h : ¬ R.AtFixed l[i])
    : (l.eraseIdx i).countP (R.AtFixed ·) = l.countP (R.AtFixed ·) := by
  rw [countP_eraseIdx _ l i hi, decide_eq_false h]
  simp

omit [DecidableEq α] in
theorem countP_eraseIdx_lt {l : List π} {i : Nat} {hi : i < l.length} (h : R.AtFixed l[i])
    : (l.eraseIdx i).countP (R.AtFixed ·) < l.countP (R.AtFixed ·) := by
  rw [countP_eraseIdx _ l i hi, decide_eq_true h]
  simp

theorem measure_recompute_lt (hR : R.Bounded cells N) (hv : ∀ c, s.value c ≤ N) {i : Nat}
    (hi : i < s.updates.length)
    : R.measure cells N (R.recompute { s with updates := s.updates.eraseIdx i } s.updates[i])
        <
      R.measure cells N s := by
  have hlength := List.length_eraseIdx_of_lt hi
  unfold recompute
  split
  . next hcell =>
    have hat : ¬ R.AtFixed s.updates[i] := by simp [AtFixed, hcell]
    apply measure_lt_of_length (countP_eraseIdx_of_not hat)
    . rfl
    . dsimp only
      omega
  . next c hcell =>
    by_cases hfixed : R.fixed c = none
    . have hat : ¬ R.AtFixed s.updates[i] := by simp [AtFixed, hcell, hfixed]
      split
      . next hne =>
        apply measure_lt_of_potential (countP_eraseIdx_of_not hat)
          (unset_update_of_not_fixed hfixed _)
        exact potential_update_lt hR.levelled (hR.cell_mem _ c hcell) hfixed (hv c)
          (hR.rule_le s.value c hv) hne
      . apply measure_lt_of_length (countP_eraseIdx_of_not hat)
        . rfl
        . dsimp only
          omega
    . have hat : R.AtFixed s.updates[i] := ⟨c, hcell, hfixed⟩
      apply measure_lt_of_countP
      split
      . exact countP_eraseIdx_lt hat
      . exact countP_eraseIdx_lt hat

theorem measure_enqueue_lt (hR : R.Bounded cells N) {s' : State π α} {rest : List π}
    (hcalls : s.calls = p :: rest) (henqueue : R.enqueue { s with calls := rest } p = some s')
    : R.measure cells N s' < R.measure cells N s := by
  have hlength : s.calls.length = rest.length + 1 := by rw [hcalls, List.length_cons]
  unfold enqueue at henqueue
  split at henqueue
  . cases henqueue
  . next c hcell =>
    split at henqueue
    . next hfixed =>
      injection henqueue with henqueue
      subst henqueue
      have hat : ¬ R.AtFixed p := by simp [AtFixed, hcell, hfixed]
      apply measure_lt_of_length
      . simp [List.countP_append, hat]
      . rfl
      . simp only [List.length_append, List.length_singleton]
        omega
    . next x hfixed =>
      split at henqueue
      . next hne =>
        injection henqueue with henqueue
        subst henqueue
        exact measure_lt_of_unset rfl (unset_update_lt (hR.cell_mem p c hcell) hfixed hne)
      . injection henqueue with henqueue
        subst henqueue
        apply measure_lt_of_length
        . rfl
        . rfl
        . dsimp only
          omega

theorem value_le_of_step (hR : R.Bounded cells N) {s' : State π α} (hv : ∀ c, s.value c ≤ N)
    (h : R.Step s s') : ∀ c, s'.value c ≤ N := by
  have hput (s : State π α) (p : π) (c : α) (x : Nat) (hx : x ≤ N) (hv : ∀ c, s.value c ≤ N)
      : ∀ a, (R.put s p c x).value a ≤ N := by
    intro a
    unfold put
    dsimp only
    by_cases ha : a = c
    . rw [ha, Function.update_self]
      exact hx
    . rw [Function.update_of_ne ha]
      exact hv a
  cases h with
  | work i hi hcalls =>
    unfold recompute
    split
    . exact hv
    . next c hcell =>
      split
      . exact hput _ _ _ _ (hR.rule_le _ c hv) hv
      . exact hv
  | call _ p rest hcalls henqueue =>
    unfold enqueue at henqueue
    split at henqueue
    . cases henqueue
    . next c hcell =>
      split at henqueue
      . injection henqueue with henqueue
        subst henqueue
        exact hv
      . next x hfixed =>
        split at henqueue
        . injection henqueue with henqueue
          subst henqueue
          exact hput _ _ _ _ (hR.fixed_le c x hfixed) hv
        . injection henqueue with henqueue
          subst henqueue
          exact hv

/--
No run goes on forever, whichever items are taken.
-/
theorem acc_step (hR : R.Bounded cells N) (hv : ∀ c, s.value c ≤ N)
    : Acc (fun s' s => R.Step s s') s := by
  induction h : R.measure cells N s using WellFoundedLT.induction generalizing s with
  | ind n ih =>
    subst h
    constructor
    intro s' hstep
    refine ih _ ?_ (value_le_of_step hR hv hstep) rfl
    cases hstep with
    | work i hi hcalls => exact measure_recompute_lt hR hv hi
    | call _ p rest hcalls henqueue => exact measure_enqueue_lt hR hcalls henqueue

end Termination

section Settled

variable (good : π → Prop)

/--
On the good places the rule is about the cell of a place and those from which `next` leads to it.
-/
structure Local : Prop where
  cell_inj : ∀ p q, good p → good q → R.cell p = R.cell q → p = q
  rule_self : ∀ p c, good p → R.cell p = some c →
    ∀ v x, R.rule (Function.update v c x) c = R.rule v c
  rule_of_not_mem : ∀ p q c d, good p → good q → R.cell p = some c → R.cell q = some d →
    p ∉ R.next q → c ≠ d → ∀ v x, R.rule (Function.update v d x) c = R.rule v c
  next_not_good : ∀ p, ¬ good p → ∃ q ∈ R.next p, ¬ good q

/--
Wherever a cell is not what the rule says, the list has it.
-/
def Covered (s : State π α) : Prop :=
  ∀ p c, good p → R.cell p = some c → R.fixed c = none → R.rule s.value c ≠ s.value c →
    p ∈ s.updates ∨ p ∈ s.calls

variable {R good} {s s' : State π α} {p : π} {c : α}

/--
A change at `p` leaves nothing uncovered, if the cell is right now or has a fixed value.
-/
theorem Covered.put (hL : R.Local good) (h : R.Covered good s) (hp : good p) (hc : R.cell p = some c)
    {x : Nat} (hx : R.fixed c = none → x = R.rule s.value c) {s' : State π α}
    (hvalue : s'.value = Function.update s.value c x) (hnext : ∀ q ∈ R.next p, q ∈ s'.calls)
    (hkeep : ∀ q, q ≠ p → q ∈ s.updates ∨ q ∈ s.calls → q ∈ s'.updates ∨ q ∈ s'.calls)
    : R.Covered good s' := by
  intro q d hq hd hfixed hwrong
  rw [hvalue] at hwrong
  by_cases hqp : q = p
  . subst hqp
    rw [hc] at hd
    injection hd with hd
    subst hd
    rw [hL.rule_self q c hq hc, Function.update_self, hx hfixed] at hwrong
    exact absurd rfl hwrong
  . by_cases hmem : q ∈ R.next p
    . exact .inr (hnext q hmem)
    . have hdc : d ≠ c := by
        rintro rfl
        exact hqp (hL.cell_inj q p hq hp (hd.trans hc.symm))
      rw [hL.rule_of_not_mem q p d c hq hp hd hc hmem hdc, Function.update_of_ne hdc] at hwrong
      exact hkeep q hqp (h q d hq hd hfixed hwrong)

theorem mem_eraseIdx_of_ne {l : List π} {i : Nat} (hi : i < l.length) {q : π} (hq : q ∈ l)
    (hne : q ≠ l[i]) : q ∈ l.eraseIdx i := by
  obtain ⟨j, hj, hqj⟩ := List.mem_iff_getElem.mp hq
  rw [List.mem_eraseIdx_iff_getElem]
  refine ⟨j, hj, ?_, hqj⟩
  rintro rfl
  exact hne hqj.symm

/--
A step keeps the list complete, as long as only good places are looked at.
-/
theorem Covered.step (hL : R.Local good) (h : R.Covered good s) (hcalls : ∀ p ∈ s.calls, good p)
    (hcalls' : ∀ p ∈ s'.calls, good p) (hstep : R.Step s s') : R.Covered good s' := by
  cases hstep with
  | work i hi hnone =>
    unfold recompute at hcalls' ⊢
    split
    . next hcell =>
      intro q d hq hd hfixed hwrong
      have hne : q ≠ s.updates[i] := by
        rintro rfl
        rw [hcell] at hd
        cases hd
      cases h q d hq hd hfixed hwrong with
      | inl hmem => exact .inl (mem_eraseIdx_of_ne hi hmem hne)
      | inr hmem => exact .inr hmem
    . next c hcell =>
      simp only [hcell] at hcalls'
      split
      . next hne =>
        rw [if_pos hne] at hcalls'
        have hgood : good s.updates[i] := by
          by_contra hbad
          obtain ⟨q, hq, hqbad⟩ := hL.next_not_good _ hbad
          exact hqbad (hcalls' q (List.mem_append_left _ hq))
        apply h.put hL hgood hcell (fun _ => rfl) rfl
        . intro q hq
          exact List.mem_append_left _ hq
        . intro q hqne hmem
          cases hmem with
          | inl hmem => exact .inl (mem_eraseIdx_of_ne hi hmem hqne)
          | inr hmem => exact .inr (List.mem_append_right _ hmem)
      . next hright =>
        intro q d hq hd hfixed hwrong
        have hne : q ≠ s.updates[i] := by
          rintro rfl
          rw [hcell] at hd
          injection hd with hd
          subst hd
          exact hright hwrong
        cases h q d hq hd hfixed hwrong with
        | inl hmem => exact .inl (mem_eraseIdx_of_ne hi hmem hne)
        | inr hmem => exact .inr hmem
  | call _ p rest hnext henqueue =>
    have hgood : good p := hcalls p (by simp [hnext])
    -- what was covered by another call, or is fixed, still is
    have hkeep (q : π) (hq : q ≠ p) (hmem : q ∈ s.updates ∨ q ∈ s.calls)
        : q ∈ s.updates ∨ q ∈ rest := by
      rw [hnext, List.mem_cons] at hmem
      tauto
    unfold enqueue at henqueue
    split at henqueue
    . cases henqueue
    . next c hcell =>
      split at henqueue
      . injection henqueue with henqueue
        subst henqueue
        intro q d hq hd hfixed hwrong
        dsimp only
        rw [List.mem_append, List.mem_singleton]
        by_cases hqp : q = p
        . exact .inl (.inr hqp)
        . cases hkeep q hqp (h q d hq hd hfixed hwrong) with
          | inl hmem => exact .inl (.inl hmem)
          | inr hmem => exact .inr hmem
      . next x hx =>
        split at henqueue
        . injection henqueue with henqueue
          subst henqueue
          apply h.put hL hgood hcell (fun hfixed => absurd (hx.symm.trans hfixed) (by nofun)) rfl
          . intro q hq
            exact List.mem_append_left _ hq
          . intro q hqp hmem
            cases hkeep q hqp hmem with
            | inl hmem => exact .inl hmem
            | inr hmem => exact .inr (List.mem_append_right _ hmem)
        . injection henqueue with henqueue
          subst henqueue
          intro q d hq hd hfixed hwrong
          have hqp : q ≠ p := by
            rintro rfl
            rw [hcell] at hd
            injection hd with hd
            subst hd
            rw [hx] at hfixed
            cases hfixed
          exact hkeep q hqp (h q d hq hd hfixed hwrong)

end Settled

end Relaxation
