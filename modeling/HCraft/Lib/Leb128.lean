import Mathlib.Data.List.Basic
import Mathlib.Tactic.Ring

/-!
This module contains little endian base 128 numerals: seven payload bits per byte, with the
eighth bit set on every byte but the last.
-/

namespace Leb128

/--
The continuation bit: there are more bytes to come.
-/
def more (b : UInt8) : Bool :=
  b &&& 0x80 ≠ 0

theorem more_iff {b : UInt8} : more b = true ↔ 128 ≤ b.toNat := by
  have hand : ∀ i : Fin 256, i.val &&& 128 = i.val / 128 * 128 := by decide +kernel
  have hb := hand ⟨b.toNat, b.toNat_lt⟩
  have hbits : (b &&& 0x80).toNat = b.toNat / 128 * 128 := by
    rw [UInt8.toNat_and]
    exact hb
  have hzero : b &&& 0x80 = 0 ↔ (b &&& 0x80).toNat = 0 := by
    rw [← UInt8.toNat_inj]
    rfl
  have := b.toNat_lt
  simp only [more, ne_eq, decide_not, Bool.not_eq_true', decide_eq_false_iff_not, hzero, hbits]
  omega

theorem more_eq_false_iff {b : UInt8} : more b = false ↔ b.toNat < 128 := by
  rw [← Bool.not_eq_true, more_iff]
  omega

theorem toNat_and_payload (b : UInt8) : (b &&& 0x7F).toNat = b.toNat % 128 := by
  rw [UInt8.toNat_and]
  exact Nat.and_two_pow_sub_one_eq_mod b.toNat 7

/--
The number a byte string denotes, lowest group first.
-/
def value : List UInt8 → Nat
  | [] => 0
  | b :: bs => b.toNat % 128 + 128 * value bs

/--
`bs` is one complete numeral: its last byte, and only that one, has no continuation bit.
-/
def Terminated : List UInt8 → Prop
  | [] => False
  | b :: bs => if more b then Terminated bs else bs = []

/--
The shortest numeral of `n`.
-/
def encode (n : Nat) : List UInt8 :=
  if n < 128 then
    [UInt8.ofNat n]
  else
    UInt8.ofNat (n % 128 + 128) :: encode (n / 128)

theorem value_lt (bs : List UInt8) : value bs < 128 ^ bs.length := by
  induction bs with
  | nil => simp [value]
  | cons b bs ih =>
    simp only [value, List.length_cons, Nat.pow_succ]
    have : b.toNat % 128 < 128 := Nat.mod_lt _ (by omega)
    omega

theorem Terminated.length_pos {bs : List UInt8} (h : Terminated bs) : 0 < bs.length := by
  cases bs with
  | nil => exact h.elim
  | cons => simp

/--
Every byte string starts with a complete numeral unless it consists of continuation bytes.
-/
theorem exists_terminated_or_more (arr : List UInt8)
    : (∃ bs rest, arr = bs ++ rest ∧ Terminated bs) ∨ (∀ b ∈ arr, more b = true) := by
  induction arr with
  | nil => simp
  | cons b arr ih =>
    cases hb : more b with
    | false =>
      refine Or.inl ⟨[b], arr, rfl, ?_⟩
      simp [Terminated, hb]
    | true =>
      cases ih with
      | inl h =>
        rcases h with ⟨bs, rest, rfl, hbs⟩
        refine Or.inl ⟨b :: bs, rest, rfl, ?_⟩
        simpa [Terminated, hb] using hbs
      | inr h =>
        right
        intro x hx
        cases List.mem_cons.mp hx with
        | inl heq => rw [heq, hb]
        | inr hmem => exact h x hmem

theorem Terminated.findIdx? {bs : List UInt8} (h : Terminated bs) (rest : List UInt8)
    : (bs ++ rest).findIdx? (fun b => !more b) = some (bs.length - 1) := by
  induction bs with
  | nil => exact h.elim
  | cons b bs ih =>
    cases hb : more b with
    | false =>
      have : bs = [] := by simpa [Terminated, hb] using h
      simp [List.findIdx?_cons, hb, this]
    | true =>
      have hbs : Terminated bs := by simpa [Terminated, hb] using h
      have := hbs.length_pos
      rw [List.cons_append, List.findIdx?_cons]
      simp only [hb, Bool.not_true, Bool.false_eq_true, ↓reduceIte, ih hbs, Option.map_some,
        List.length_cons, Option.some.injEq]
      omega

theorem findIdx?_of_more {arr : List UInt8} (h : ∀ b ∈ arr, more b = true)
    : arr.findIdx? (fun b => !more b) = none := by
  simpa [List.findIdx?_eq_none_iff] using h

theorem Terminated.more_of_append {bs pre post : List UInt8} (h : Terminated bs)
    (heq : bs = pre ++ post) (hpost : post ≠ []) : ∀ b ∈ pre, more b = true := by
  induction pre generalizing bs with
  | nil => simp
  | cons b pre ih =>
    subst heq
    cases hb : more b with
    | false =>
      have : pre ++ post = [] := by simpa [Terminated, hb] using h
      exact absurd (List.append_eq_nil_iff.mp this).2 hpost
    | true =>
      have htail : Terminated (pre ++ post) := by simpa [Terminated, hb] using h
      intro x hx
      cases List.mem_cons.mp hx with
      | inl heq => rw [heq, hb]
      | inr hmem => exact ih htail rfl x hmem

theorem Terminated.not_all_more {bs : List UInt8} (h : Terminated bs)
    : ¬ ∀ b ∈ bs, more b = true := by
  intro hall
  have hsome := h.findIdx? []
  rw [List.append_nil, findIdx?_of_more hall] at hsome
  contradiction

theorem terminated_encode (n : Nat) : Terminated (encode n) := by
  fun_induction encode n with
  | case1 n hn =>
    have : more (UInt8.ofNat n) = false := by
      rw [more_eq_false_iff, UInt8.toNat_ofNat']
      omega
    simp [Terminated, this]
  | case2 n hn ih =>
    have : more (UInt8.ofNat (n % 128 + 128)) = true := by
      rw [more_iff, UInt8.toNat_ofNat']
      omega
    rw [Terminated, if_pos this]
    exact ih

@[simp]
theorem value_encode (n : Nat) : value (encode n) = n := by
  fun_induction encode n with
  | case1 n hn =>
    simp only [value, UInt8.toNat_ofNat']
    omega
  | case2 n hn ih =>
    simp only [value, ih, UInt8.toNat_ofNat']
    omega

theorem length_encode_pos (n : Nat) : 0 < (encode n).length :=
  (terminated_encode n).length_pos

theorem length_encode_le {n k : Nat} (hk : 0 < k) (h : n < 128 ^ k) : (encode n).length ≤ k := by
  induction k generalizing n with
  | zero => omega
  | succ k ih =>
    unfold encode
    split
    . simp
    . next hn =>
      cases Nat.eq_zero_or_pos k with
      | inl hzero =>
        subst hzero
        omega
      | inr hpos =>
        have : n / 128 < 128 ^ k := by
          rw [Nat.pow_succ] at h
          omega
        have := ih hpos this
        simp only [List.length_cons]
        omega

end Leb128
