import HCraft.Lib.BigEndian
import HCraft.Lib.Digits
import HCraft.System.Authenticator

/-!
This module contains which digests are written as the session server expects.
-/

namespace HCraft

/--
The digest as a big-endian number in two's complement
-/
def Digest.toInt (digest : Digest) : Int :=
  if BigEndian.decode digest.bytes < 2 ^ 159 then
    BigEndian.decode digest.bytes
  else
    BigEndian.decode digest.bytes - 2 ^ 160

namespace Authenticator

/--
The shortest signed hexadecimal notation
-/
def mcDigest (n : Int) : List Char :=
  (if n < 0 then ['-'] else []) ++ Nat.toDigits 16 n.natAbs

section Negate

variable {b : UInt8} {bs : Bytes}

theorem negate_cons_of_carry (h : (negate bs).2 = true)
    : negate (b :: bs) = ((~~~b + 1) :: (negate bs).1, ~~~b == 0xFF) := by
  simp only [negate, h, if_true]

theorem negate_cons_of_not_carry (h : ¬ (negate bs).2 = true)
    : negate (b :: bs) = (~~~b :: (negate bs).1, false) := by
  rw [Bool.not_eq_true] at h
  simp only [negate, h, Bool.false_eq_true, if_false]

theorem length_negate (bs : Bytes) : (negate bs).1.length = bs.length := by
  induction bs with
  | nil => rfl
  | cons b bs ih =>
    by_cases hc : (negate bs).2 = true
    . rw [negate_cons_of_carry hc, List.length_cons, List.length_cons, ih]
    . rw [negate_cons_of_not_carry hc, List.length_cons, List.length_cons, ih]

theorem decode_negate (bs : Bytes)
    : BigEndian.decode (negate bs).1 + BigEndian.decode bs
        = if (negate bs).2 then 0 else 256 ^ bs.length := by
  induction bs with
  | nil => rfl
  | cons b bs ih =>
    have hb := b.toNat_lt
    have hnot : (~~~b).toNat = 255 - b.toNat := UInt8.toNat_not b
    rw [List.length_cons, Nat.pow_succ, Nat.mul_comm (256 ^ bs.length)]
    by_cases hc : (negate bs).2 = true
    . -- the bytes behind `b` are zero
      rw [if_pos hc] at ih
      rw [negate_cons_of_carry hc, BigEndian.decode_cons, BigEndian.decode_cons, length_negate]
      by_cases hzero : b.toNat = 0
      . have hb0 : b = 0 := UInt8.toNat_inj.mp hzero
        have hff : (~~~(0 : UInt8) == 0xFF) = true := by decide
        have hover : (~~~(0 : UInt8) + 1).toNat = 0 := by decide
        rw [hb0, if_pos hff, hover, UInt8.toNat_zero]
        omega
      . have hne : ¬ (~~~b == 0xFF) = true := by
          rw [beq_iff_eq, ← UInt8.toNat_inj, hnot]
          simp only [UInt8.reduceToNat]
          omega
        have hsucc : (~~~b + 1).toNat = 256 - b.toNat := by
          rw [UInt8.toNat_add, hnot]
          simp only [UInt8.reduceToNat]
          omega
        have hsplit : 256 * 256 ^ bs.length
            = (256 - b.toNat) * 256 ^ bs.length + b.toNat * 256 ^ bs.length := by
          rw [← Nat.add_mul, Nat.sub_add_cancel (by omega)]
        rw [if_neg hne, hsucc]
        omega
    . rw [if_neg hc] at ih
      have hsplit : 255 * 256 ^ bs.length
          = (255 - b.toNat) * 256 ^ bs.length + b.toNat * 256 ^ bs.length := by
        rw [← Nat.add_mul, Nat.sub_add_cancel (by omega)]
      rw [negate_cons_of_not_carry hc, if_neg (by simp), BigEndian.decode_cons,
        BigEndian.decode_cons, length_negate, hnot]
      omega

end Negate

section Text

/--
The halves of the bytes
-/
def nibbles (bs : Bytes) : List Nat :=
  bs.flatMap (fun b => [b.toNat / 16, b.toNat % 16])

theorem nibbles_cons (b : UInt8) (bs : Bytes)
    : nibbles (b :: bs) = b.toNat / 16 :: b.toNat % 16 :: nibbles bs := by
  rw [nibbles, List.flatMap_cons]
  rfl

theorem length_nibbles (bs : Bytes) : (nibbles bs).length = 2 * bs.length := by
  induction bs with
  | nil => rfl
  | cons b bs ih =>
    rw [nibbles_cons, List.length_cons, List.length_cons, List.length_cons, ih]
    omega

theorem lt_of_mem_nibbles {bs : Bytes} {d : Nat} (h : d ∈ nibbles bs) : d < 16 := by
  obtain ⟨b, _, hd⟩ := List.mem_flatMap.mp h
  have hb := b.toNat_lt
  simp only [List.mem_cons, List.not_mem_nil, or_false] at hd
  omega

theorem value_nibbles (bs : Bytes) : Digits.value 16 (nibbles bs) = BigEndian.decode bs := by
  induction bs with
  | nil => rfl
  | cons b bs ih =>
    have hpow : 16 ^ (2 * bs.length) = 256 ^ bs.length := by rw [Nat.pow_mul]
    have hb : b.toNat * 256 ^ bs.length
        = b.toNat / 16 * (256 ^ bs.length * 16) + b.toNat % 16 * 256 ^ bs.length := by
      rw [Nat.mul_comm (256 ^ bs.length) 16, ← Nat.mul_assoc, ← Nat.add_mul]
      congr 1
      omega
    rw [nibbles_cons, Digits.value_cons, Digits.value_cons, ih, BigEndian.decode_cons,
      List.length_cons, Nat.pow_succ, length_nibbles, hpow, hb, Nat.add_assoc]

theorem hexByte_eq (b : UInt8)
    : hexByte b = [Nat.digitChar (b.toNat / 16), Nat.digitChar (b.toNat % 16)] := by
  have hall : ∀ d : Fin 16, hex.getD d.val '0' = Nat.digitChar d.val := by decide
  have hb := b.toNat_lt
  have hhigh : (b >>> 4).toNat = b.toNat / 16 := by
    rw [UInt8.toNat_shiftRight, Nat.shiftRight_eq_div_pow]
    rfl
  have hlow : (b &&& 15).toNat = b.toNat % 16 := by
    rw [UInt8.toNat_and]
    exact Nat.and_two_pow_sub_one_eq_mod b.toNat 4
  rw [hexByte, hhigh, hlow]
  exact congrArg₂ (fun c d => [c, d]) (hall ⟨b.toNat / 16, by omega⟩) (hall ⟨b.toNat % 16, by omega⟩)

theorem flatMap_hexByte (bs : Bytes) : bs.flatMap hexByte = (nibbles bs).map Nat.digitChar := by
  induction bs with
  | nil => rfl
  | cons b bs ih =>
    rw [List.flatMap_cons, ih, hexByte_eq, nibbles_cons]
    rfl

end Text

section Digest

variable (digest : Digest)

theorem and_sign_iff (b : UInt8) : (b &&& 0x80 != 0) = true ↔ 128 ≤ b.toNat := by
  have hall : ∀ n : Fin 256, (UInt8.ofNat n.val &&& 0x80 != 0) = true ↔ 128 ≤ n.val := by
    decide +kernel
  have hb := hall ⟨b.toNat, b.toNat_lt⟩
  rw [UInt8.ofNat_toNat] at hb
  exact hb

/--
The sign bit is the highest bit of the first byte.
-/
theorem neg_iff
    : (digest.bytes.headD 0 &&& 0x80 != 0) = true ↔ 2 ^ 159 ≤ BigEndian.decode digest.bytes := by
  obtain ⟨bytes, hlen⟩ := digest
  cases bytes with
  | nil => cases hlen
  | cons b bs =>
    have hlen' : bs.length = 19 := by simpa using hlen
    have htail := BigEndian.decode_lt bs
    have hb := and_sign_iff b
    dsimp only [List.headD_cons]
    rw [hb, BigEndian.decode_cons, hlen']
    rw [hlen'] at htail
    omega

theorem digestStr_of_nonneg (h : BigEndian.decode digest.bytes < 2 ^ 159)
    : digestStr digest
        = if BigEndian.decode digest.bytes = 0 then
            []
          else
            Nat.toDigits 16 (BigEndian.decode digest.bytes) := by
  have hneg : ¬ (digest.bytes.headD 0 &&& 0x80 != 0) = true := by
    rw [neg_iff]
    omega
  rw [Bool.not_eq_true] at hneg
  simp only [digestStr, hneg, Bool.false_eq_true, if_false, List.nil_append]
  rw [flatMap_hexByte, Digits.dropWhile_digitChar (by omega) (by omega)
    (fun d hd => lt_of_mem_nibbles hd), value_nibbles]

theorem digestStr_of_neg (h : 2 ^ 159 ≤ BigEndian.decode digest.bytes)
    : digestStr digest = '-' :: (nibbles (negate digest.bytes).1).map Nat.digitChar := by
  have hneg := (neg_iff digest).mpr h
  simp only [digestStr, hneg, if_true, List.singleton_append]
  rw [List.dropWhile_cons_of_neg (by decide), flatMap_hexByte]

theorem decode_negate_of_neg (h : 2 ^ 159 ≤ BigEndian.decode digest.bytes)
    : BigEndian.decode (negate digest.bytes).1 = 2 ^ 160 - BigEndian.decode digest.bytes := by
  have hsum := decode_negate digest.bytes
  rw [digest.length_eq] at hsum
  split at hsum
  . omega
  . omega

/--
The digest is written as expected unless it is zero or negative with a zero behind the sign.
-/
theorem digestStr_iff
    : digestStr digest = mcDigest digest.toInt
        ↔
      0 < digest.toInt ∨ digest.toInt ≤ -16 ^ 39 := by
  have hlt := BigEndian.decode_lt digest.bytes
  rw [digest.length_eq] at hlt
  by_cases h : BigEndian.decode digest.bytes < 2 ^ 159
  . have hint : digest.toInt = BigEndian.decode digest.bytes := if_pos h
    have hsign : ¬ (BigEndian.decode digest.bytes : Int) < 0 := by omega
    rw [digestStr_of_nonneg digest h, hint, mcDigest, if_neg hsign, List.nil_append,
      Int.natAbs_natCast]
    by_cases hzero : BigEndian.decode digest.bytes = 0
    . rw [hzero, if_pos rfl]
      simp [Nat.toDigits_zero]
    . rw [if_neg hzero]
      simp only [true_iff]
      omega
  . have hint : digest.toInt = BigEndian.decode digest.bytes - 2 ^ 160 := if_neg h
    have hmag := decode_negate_of_neg digest (by omega)
    have habs : digest.toInt.natAbs = BigEndian.decode (negate digest.bytes).1 := by omega
    have hlen : (nibbles (negate digest.bytes).1).length - 1 = 39 := by
      rw [length_nibbles, length_negate, digest.length_eq]
    have hpos : 0 < Digits.value 16 (nibbles (negate digest.bytes).1) := by
      rw [value_nibbles]
      omega
    have hiff := Digits.map_digitChar_eq_toDigits_iff (by omega) (by omega)
      (fun d hd => lt_of_mem_nibbles hd) hpos
    rw [value_nibbles, hlen] at hiff
    rw [digestStr_of_neg digest (by omega), mcDigest, if_pos (by omega), habs,
      List.singleton_append, List.cons.injEq, hiff]
    simp only [true_and]
    omega

/--
Minus one is written with 39 zeros, and zero without any.
-/
theorem not_digestStr_minus_one
    : digestStr ⟨List.replicate 20 0xFF, rfl⟩ = '-' :: (List.replicate 39 '0' ++ ['1'])
        ∧ mcDigest (Digest.toInt ⟨List.replicate 20 0xFF, rfl⟩) = ['-', '1']
        ∧ digestStr ⟨List.replicate 20 0, rfl⟩ = []
        ∧ mcDigest (Digest.toInt ⟨List.replicate 20 0, rfl⟩) = ['0'] := by
  decide +kernel

end Digest

end Authenticator

end HCraft
