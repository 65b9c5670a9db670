import HCraft.World.Chunk.Impl
import Mathlib.Tactic.IntervalCases

/-!
This module contains what writing one cell of a chunk does to the others.
-/

namespace HCraft

namespace Chunk

section Types

variable {t id : UInt16} {val : UInt8}

theorem toNat_and_meta (t : UInt16) : (t &&& 0x000F).toNat = t.toNat % 16 :=
  Nat.and_two_pow_sub_one_eq_mod _ 4

theorem toNat_shiftLeft_id (h : id.toNat < 4096) : (id <<< 4).toNat = id.toNat * 16 := by
  have hshift : (id <<< 4).toNat = id.toNat <<< 4 % 2 ^ 16 := UInt16.toNat_shiftLeft id 4
  rw [hshift, Nat.shiftLeft_eq]
  omega

theorem toNat_shiftRight_four (t : UInt16) : (t >>> 4).toNat = t.toNat / 16 := by
  have hshift : (t >>> 4).toNat = t.toNat >>> 4 := UInt16.toNat_shiftRight t 4
  rw [hshift, Nat.shiftRight_eq_div_pow]

theorem and_id (t : UInt16) : t &&& (0xFFF0 : UInt16) = (t >>> 4) <<< 4 := by
  apply UInt16.toBitVec_inj.mp
  apply BitVec.eq_of_getLsbD_eq
  intro i hi
  interval_cases i <;> simp

theorem shiftRight_lt (t : UInt16) : (t >>> 4).toNat < 4096 := by
  have := t.toNat_lt
  rw [toNat_shiftRight_four]
  omega

theorem toNat_pack (h : id.toNat < 4096) {m : UInt16} (hm : m.toNat < 16)
    : (id <<< 4 ||| m).toNat = id.toNat * 16 + m.toNat := by
  rw [UInt16.toNat_or, toNat_shiftLeft_id h, Nat.mul_comm]
  exact (@Nat.two_pow_add_eq_or_of_lt 4 m.toNat hm id.toNat).symm

theorem pack_shiftRight (h : id.toNat < 4096) {m : UInt16} (hm : m.toNat < 16)
    : (id <<< 4 ||| m) >>> 4 = id := by
  apply UInt16.toNat_inj.mp
  rw [toNat_shiftRight_four, toNat_pack h hm]
  omega

theorem toNat_and_meta_lt (t : UInt16) : (t &&& 0x000F).toNat < 16 := by
  rw [toNat_and_meta]
  omega

theorem setId_shiftRight (h : id.toNat < 4096)
    : ((t &&& (0x000F : UInt16)) ||| id <<< 4) >>> 4 = id := by
  rw [UInt16.or_comm]
  exact pack_shiftRight h (toNat_and_meta_lt t)

theorem setMeta_shiftRight {m : UInt16} (hm : m.toNat < 16)
    : ((t &&& (0xFFF0 : UInt16)) ||| m) >>> 4 = t >>> 4 := by
  rw [and_id]
  exact pack_shiftRight (shiftRight_lt t) hm

end Types

section Subs

variable {ch : Chunk} {sy sy' : Fin 16} {sub : SubChunk}

@[simp]
theorem getSub_setSub_self : (ch.setSub sy sub).getSub sy = sub := by
  simp [getSub, setSub]

@[simp]
theorem getSub_setSub_of_ne (h : sy' ≠ sy) : (ch.setSub sy sub).getSub sy' = ch.getSub sy' := by
  simp [getSub, setSub, h]

@[simp]
theorem hmap_setSub : (ch.setSub sy sub).hmap = ch.hmap := rfl

@[simp]
theorem getHeight_setSub {x z : Fin 16} : (ch.setSub sy sub).getHeight x z = ch.getHeight x z := rfl

@[simp]
theorem getSub_setHeight {x z : Fin 16} {h : Int}
    : (ch.setHeight x z h).getSub sy = ch.getSub sy := rfl

end Subs

section Places

variable {x x' z z' : Fin 16} {y y' : Fin 256}

theorem hind_inj : hind x z = hind x' z' ↔ x = x' ∧ z = z' := by
  unfold hind
  simp only [Fin.mk.injEq, or_sixteen]
  omega

theorem index_inj (hy : subIndex y = subIndex y')
    : index x y z = index x' y' z' ↔ x = x' ∧ y = y' ∧ z = z' := by
  unfold subIndex at hy
  unfold index
  simp only [Fin.mk.injEq, Nat.shiftRight_eq_div_pow] at hy
  simp only [Fin.mk.injEq, index_eq]
  omega

end Places

variable {ch : Chunk} {x x' z z' : Fin 16} {y y' : Fin 256}

theorem getId_eq : ch.getId x y z = (ch.getSub (subIndex y)).types (index x y z) >>> 4 := by
  unfold getId getSub
  cases ch.subs (subIndex y) with
  | none => simp [SubChunk.new]
  | some sub => simp

theorem getId_congr {ch' : Chunk} (h : ∀ sy, (ch'.getSub sy).types = (ch.getSub sy).types)
    : ch'.getId x y z = ch.getId x y z := by
  rw [getId_eq, getId_eq, h]

theorem getId_setHeight {h : Int} : (ch.setHeight x' z' h).getId x y z = ch.getId x y z := by
  apply getId_congr
  intro sy
  rfl

theorem getId_setSub {sub : SubChunk} (h : sub.types = (ch.getSub (subIndex y')).types)
    : (ch.setSub (subIndex y') sub).getId x y z = ch.getId x y z := by
  apply getId_congr
  intro sy
  by_cases hsy : sy = subIndex y'
  . rw [hsy, getSub_setSub_self, h]
  . rw [getSub_setSub_of_ne hsy]

theorem getId_setType_self (f : UInt16 → UInt16)
    : (ch.setType x y z f).getId x y z
        =
      f ((ch.getSub (subIndex y)).types (index x y z)) >>> 4 := by
  unfold setType
  rw [getId_eq, getSub_setSub_self]
  dsimp only
  rw [Function.update_self]

theorem getId_setType_of_ne (h : ¬ (x' = x ∧ y' = y ∧ z' = z)) (f : UInt16 → UInt16)
    : (ch.setType x y z f).getId x' y' z' = ch.getId x' y' z' := by
  unfold setType
  rw [getId_eq, getId_eq]
  by_cases hsy : subIndex y' = subIndex y
  . have hindex : index x' y' z' ≠ index x y z := by
      rw [ne_eq, index_inj hsy]
      exact h
    rw [hsy, getSub_setSub_self]
    dsimp only
    rw [Function.update_of_ne hindex]
  . rw [getSub_setSub_of_ne hsy]

theorem getId_setType {f : UInt16 → UInt16} {id : UInt16} (hf : ∀ t, f t >>> 4 = id)
    : (ch.setType x y z f).getId x' y' z'
        =
      if x' = x ∧ y' = y ∧ z' = z then id else ch.getId x' y' z' := by
  split
  . next h =>
    rw [h.left, h.right.left, h.right.right, getId_setType_self, hf]
  . next h => exact getId_setType_of_ne h f

theorem getId_setMeta {val : UInt8} (hval : val.toNat < 16)
    : (ch.setMeta x y z val).getId x' y' z' = ch.getId x' y' z' := by
  have hlt : val.toUInt16.toNat < 16 := by
    rw [UInt8.toNat_toUInt16]
    exact hval
  unfold setMeta
  by_cases h : x' = x ∧ y' = y ∧ z' = z
  . rw [h.left, h.right.left, h.right.right, getId_setType_self, setMeta_shiftRight hlt, getId_eq]
  . exact getId_setType_of_ne h _

end Chunk

end HCraft
