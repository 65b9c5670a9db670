import Mathlib.Algebra.Group.Nat.Defs
import Mathlib.Data.List.Basic

/-!
This module contains unsigned numbers of a fixed number of bytes, the highest byte first.
-/

namespace BigEndian

def encode : Nat → Nat → List UInt8
  | 0, _ => []
  | n + 1, v => UInt8.ofNat (v / 256 ^ n) :: encode n v

def decode (bs : List UInt8) : Nat :=
  bs.foldl (fun v b => v * 256 + b.toNat) 0

@[simp]
theorem length_encode (n v : Nat) : (encode n v).length = n := by
  induction n with
  | zero => rfl
  | succ n ih => rw [encode, List.length_cons, ih]

theorem foldl_eq (bs : List UInt8) (v : Nat)
    : bs.foldl (fun v b => v * 256 + b.toNat) v = v * 256 ^ bs.length + decode bs := by
  unfold decode
  induction bs generalizing v with
  | nil => simp
  | cons b bs ih =>
    rw [List.foldl_cons, List.foldl_cons, ih, ih (0 * 256 + b.toNat), List.length_cons, Nat.pow_succ]
    rw [Nat.add_mul, Nat.add_mul, Nat.mul_assoc, Nat.mul_comm 256, Nat.zero_mul]
    omega

theorem decode_cons (b : UInt8) (bs : List UInt8)
    : decode (b :: bs) = b.toNat * 256 ^ bs.length + decode bs := by
  rw [decode, List.foldl_cons, foldl_eq, Nat.zero_mul, Nat.zero_add]

theorem decode_lt (bs : List UInt8) : decode bs < 256 ^ bs.length := by
  induction bs with
  | nil => simp [decode]
  | cons b bs ih =>
    have hb := b.toNat_lt
    rw [decode_cons, List.length_cons, Nat.pow_succ]
    have : b.toNat * 256 ^ bs.length ≤ 255 * 256 ^ bs.length := Nat.mul_le_mul_right _ (by omega)
    omega

theorem decode_encode (n v : Nat) : decode (encode n v) = v % 256 ^ n := by
  induction n with
  | zero =>
    rw [Nat.pow_zero, Nat.mod_one]
    rfl
  | succ n ih =>
    have hbyte : (UInt8.ofNat (v / 256 ^ n)).toNat = v / 256 ^ n % 256 := UInt8.toNat_ofNat'
    rw [encode, decode_cons, length_encode, ih, hbyte, Nat.pow_succ (m := n), Nat.mod_mul,
      Nat.mul_comm, Nat.add_comm]

theorem decode_encode_of_lt {n v : Nat} (h : v < 256 ^ n) : decode (encode n v) = v := by
  rw [decode_encode, Nat.mod_eq_of_lt h]

end BigEndian
