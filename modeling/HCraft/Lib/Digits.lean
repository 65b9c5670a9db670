import Mathlib.Algebra.Group.Nat.Defs
import Mathlib.Data.List.Induction

/-!
This module contains numbers written with digits, the highest digit first, with zeros in front.
-/

namespace Digits

def value (b : Nat) (ds : List Nat) : Nat :=
  ds.foldl (fun n d => n * b + d) 0

theorem value_append (b : Nat) (ds : List Nat) (d : Nat)
    : value b (ds ++ [d]) = value b ds * b + d := by
  rw [value, List.foldl_append]
  rfl

theorem foldl_eq (b : Nat) (ds : List Nat) (n : Nat)
    : ds.foldl (fun n d => n * b + d) n = n * b ^ ds.length + value b ds := by
  unfold value
  induction ds generalizing n with
  | nil => simp
  | cons d ds ih =>
    rw [List.foldl_cons, List.foldl_cons, ih, ih (0 * b + d), List.length_cons, Nat.pow_succ,
      Nat.add_mul, Nat.add_mul, Nat.zero_mul, Nat.zero_mul, Nat.mul_assoc, Nat.mul_comm b]
    omega

theorem value_cons (b d : Nat) (ds : List Nat)
    : value b (d :: ds) = d * b ^ ds.length + value b ds := by
  rw [value, List.foldl_cons, foldl_eq, Nat.zero_mul, Nat.zero_add]

theorem value_lt {b : Nat} {ds : List Nat} (h : ∀ d ∈ ds, d < b) : value b ds < b ^ ds.length := by
  induction ds with
  | nil => simp [value]
  | cons d ds ih =>
    have hd := h d List.mem_cons_self
    have hds := ih (fun d hd => h d (List.mem_cons_of_mem _ hd))
    rw [value_cons, List.length_cons, Nat.pow_succ, Nat.mul_comm (b ^ ds.length)]
    have hle : (d + 1) * b ^ ds.length ≤ b * b ^ ds.length := Nat.mul_le_mul_right _ hd
    rw [Nat.add_mul, Nat.one_mul] at hle
    omega

section Base

variable {b : Nat} {ds : List Nat}

theorem digitChar_eq_zero_iff {d : Nat} (h : d < 16) : Nat.digitChar d = '0' ↔ d = 0 := by
  have hall : ∀ d : Fin 16, Nat.digitChar d.val = '0' ↔ d.val = 0 := by decide
  exact hall ⟨d, h⟩

theorem dropWhile_digitChar (hb : 1 < b) (hle : b ≤ 16) (h : ∀ d ∈ ds, d < b)
    : (ds.map Nat.digitChar).dropWhile (· == '0')
        = if value b ds = 0 then [] else Nat.toDigits b (value b ds) := by
  induction ds using List.reverseRecOn with
  | nil => rfl
  | append_singleton ds d ih =>
    have hd : d < b := h d (by simp)
    have hds := ih (fun d hd => h d (by simp [hd]))
    have hzero := @digitChar_eq_zero_iff d (by omega)
    rw [List.map_append, List.map_singleton, List.dropWhile_append, hds, value_append]
    by_cases hv : value b ds = 0
    . rw [hv, if_pos rfl, Nat.zero_mul, Nat.zero_add]
      by_cases hd0 : d = 0
      . rw [hd0]
        rfl
      . rw [if_neg hd0, Nat.toDigits_of_lt_base hd, List.isEmpty_nil, if_pos rfl,
          List.dropWhile_cons_of_neg]
        simpa [hzero] using hd0
    . have hpos : 0 < value b ds * b := Nat.mul_pos (by omega) (by omega)
      have hsum : value b ds * b + d ≠ 0 := by omega
      rw [if_neg hv, if_neg hsum, if_neg (by simp [Nat.toDigits_ne_nil]), Nat.mul_comm,
        ← Nat.toDigits_append_toDigits hb (by omega) hd, Nat.toDigits_of_lt_base hd]

/--
There are no zeros in front if the number has as many digits as are written.
-/
theorem map_digitChar_eq_toDigits_iff (hb : 1 < b) (hle : b ≤ 16) (h : ∀ d ∈ ds, d < b)
    (hpos : 0 < value b ds)
    : ds.map Nat.digitChar = Nat.toDigits b (value b ds) ↔ b ^ (ds.length - 1) ≤ value b ds := by
  have hdrop := dropWhile_digitChar hb hle h
  rw [if_neg (by omega)] at hdrop
  rw [← hdrop]
  cases ds with
  | nil => simp [value] at hpos
  | cons d ds =>
    have hd := h d List.mem_cons_self
    have hds := value_lt (fun d hd => h d (List.mem_cons_of_mem _ hd))
    have hzero := @digitChar_eq_zero_iff d (by omega)
    rw [value_cons, List.length_cons, Nat.add_sub_cancel, List.map_cons]
    by_cases hd0 : d = 0
    . rw [List.dropWhile_cons_of_pos (by simp [hd0]), hd0]
      constructor
      . intro heq
        have hlen := congrArg List.length heq
        have hshort := (List.dropWhile_suffix (l := ds.map Nat.digitChar) (· == '0')).length_le
        rw [List.length_cons] at hlen
        omega
      . intro hge
        omega
    . rw [List.dropWhile_cons_of_neg (by simpa [hzero] using hd0)]
      have hmul : 1 * b ^ ds.length ≤ d * b ^ ds.length := Nat.mul_le_mul_right _ (by omega)
      simp only [true_iff]
      omega

end Base

end Digits
