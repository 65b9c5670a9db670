import HCraft.World.Chunk.Lemmas.Cells

/-!
This module contains what writing the light of one block does to the others.
-/

namespace HCraft

namespace Chunk

section Nibbles

variable {b v : UInt8}

theorem and_low (h : v.toNat < 16) : v &&& (0x0F : UInt8) = v := by
  apply UInt8.toNat_inj.mp
  have hand : (v &&& (0x0F : UInt8)).toNat = v.toNat % 16 := Nat.and_two_pow_sub_one_eq_mod _ 4
  rw [hand, Nat.mod_eq_of_lt h]

theorem high_shiftRight (h : v.toNat < 16) : ((b &&& (0x0F : UInt8)) ||| v <<< 4) >>> 4 = v := by
  rw [← and_low h]
  apply UInt8.toBitVec_inj.mp
  apply BitVec.eq_of_getLsbD_eq
  intro i hi
  interval_cases i <;> simp

theorem high_and : ((b &&& (0x0F : UInt8)) ||| v <<< 4) &&& (0x0F : UInt8) = b &&& 0x0F := by
  apply UInt8.toBitVec_inj.mp
  apply BitVec.eq_of_getLsbD_eq
  intro i hi
  interval_cases i <;> simp

theorem low_and (h : v.toNat < 16) : ((b &&& (0xF0 : UInt8)) ||| v) &&& (0x0F : UInt8) = v := by
  rw [← and_low h]
  apply UInt8.toBitVec_inj.mp
  apply BitVec.eq_of_getLsbD_eq
  intro i hi
  interval_cases i <;> simp

theorem low_shiftRight (h : v.toNat < 16) : ((b &&& (0xF0 : UInt8)) ||| v) >>> 4 = b >>> 4 := by
  rw [← and_low h]
  apply UInt8.toBitVec_inj.mp
  apply BitVec.eq_of_getLsbD_eq
  intro i hi
  interval_cases i <;> simp

theorem low_lt (b : UInt8) : (b &&& (0x0F : UInt8)).toNat < 16 := by
  have hand : (b &&& (0x0F : UInt8)).toNat = b.toNat % 16 := Nat.and_two_pow_sub_one_eq_mod _ 4
  omega

theorem high_lt (b : UInt8) : (b >>> (4 : UInt8)).toNat < 16 := by
  have hshift : (b >>> (4 : UInt8)).toNat = b.toNat >>> 4 := UInt8.toNat_shiftRight b 4
  have := b.toNat_lt
  rw [hshift, Nat.shiftRight_eq_div_pow]
  omega

variable {light : Fin 2048 → UInt8} {i j : Fin 4096}

theorem getNibble_lt : (getNibble light i).toNat < 16 := by
  unfold getNibble
  split
  . exact high_lt _
  . exact low_lt _

theorem and_one (n : Nat) : n &&& 1 = n % 2 :=
  Nat.and_two_pow_sub_one_eq_mod n 1

theorem half_eq_iff : half i = half j ↔ i.val / 2 = j.val / 2 := by
  unfold half
  simp only [Fin.mk.injEq, Nat.shiftRight_eq_div_pow]

theorem getNibble_setNibble_self (h : v.toNat < 16) : getNibble (setNibble light i v) i = v := by
  unfold getNibble setNibble
  by_cases hi : i.val &&& 1 ≠ 0
  . simp only [if_pos hi, Function.update_self]
    exact high_shiftRight h
  . simp only [if_neg hi, Function.update_self]
    exact low_and h

theorem getNibble_setNibble_of_ne (h : v.toNat < 16) (hji : j ≠ i)
    : getNibble (setNibble light i v) j = getNibble light j := by
  unfold getNibble setNibble
  by_cases hhalf : half j = half i
  . have hparity : j.val &&& 1 ≠ i.val &&& 1 := by
      rw [half_eq_iff] at hhalf
      rw [and_one, and_one]
      omega
    have hi' : i.val &&& 1 < 2 := by
      rw [and_one]
      omega
    have hj' : j.val &&& 1 < 2 := by
      rw [and_one]
      omega
    by_cases hi : i.val &&& 1 ≠ 0
    . have hj : ¬ j.val &&& 1 ≠ 0 := by omega
      simp only [if_pos hi, if_neg hj, hhalf, Function.update_self]
      exact high_and
    . have hj : j.val &&& 1 ≠ 0 := by omega
      simp only [if_neg hi, if_pos hj, hhalf, Function.update_self]
      exact low_shiftRight h
  . by_cases hi : i.val &&& 1 ≠ 0
    . simp only [if_pos hi, Function.update_of_ne hhalf]
    . simp only [if_neg hi, Function.update_of_ne hhalf]

end Nibbles

variable {c : Chunk} {x x' z z' : Fin 16} {y y' : Fin 256} {sl : UInt8}

/--
The sky light of a block.
-/
def skyLight (c : Chunk) (x : Fin 16) (y : Fin 256) (z : Fin 16) : Nat :=
  (c.getSkyLight x y z).1.toNat

theorem skyLight_eq
    : c.skyLight x y z = (getNibble (c.getSub (subIndex y)).sl (index x y z)).toNat := rfl

theorem skyLight_lt : c.skyLight x y z < 16 :=
  getNibble_lt

theorem skyLight_setSkyLight (hsl : sl.toNat < 16)
    : (c.setSkyLight x y z sl).skyLight x' y' z'
        =
      if x' = x ∧ y' = y ∧ z' = z then sl.toNat else c.skyLight x' y' z' := by
  rw [skyLight_eq, skyLight_eq]
  unfold setSkyLight
  split
  . next h =>
    rw [h.left, h.right.left, h.right.right, getSub_setSub_self, getNibble_setNibble_self hsl]
  . next h =>
    by_cases hsy : subIndex y' = subIndex y
    . have hindex : index x' y' z' ≠ index x y z := by
        rw [ne_eq, index_inj hsy]
        exact h
      rw [hsy, getSub_setSub_self, getNibble_setNibble_of_ne hsl hindex]
    . rw [getSub_setSub_of_ne hsy]

section Touch

theorem getSub_touchSub (sy : Fin 16) : (c.touchSub y).getSub sy = c.getSub sy := by
  unfold touchSub
  by_cases hsy : sy = subIndex y
  . rw [hsy, getSub_setSub_self]
  . rw [getSub_setSub_of_ne hsy]

@[simp]
theorem skyLight_touchSub : (c.touchSub y').skyLight x y z = c.skyLight x y z := by
  rw [skyLight_eq, skyLight_eq, getSub_touchSub]

@[simp]
theorem getId_touchSub : (c.touchSub y').getId x y z = c.getId x y z := by
  rw [getId_eq, getId_eq, getSub_touchSub]

theorem getId_setSkyLight : (c.setSkyLight x' y' z' sl).getId x y z = c.getId x y z := by
  unfold setSkyLight
  exact getId_setSub rfl

end Touch

end Chunk

end HCraft
