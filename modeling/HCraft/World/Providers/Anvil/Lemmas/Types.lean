import HCraft.Lib.Loop
import HCraft.World.Chunk.Lemmas.Cells
import HCraft.World.Providers.Anvil.ChunkNbt

/-!
This module contains the types of a section, taken apart into its arrays and put together again.
-/

namespace HCraft

namespace ChunkNbt

open Chunk

theorem loadBlocks_eq (types : Fin 4096 → UInt16) (bytes : Fin 4096 → UInt8)
    : loadBlocks types bytes = fun j => (bytes j).toUInt16 <<< 4 := by
  unfold loadBlocks
  apply Loop.foldl_finRange (fun j _ => (bytes j).toUInt16 <<< 4) (fun j => j)
  intro types i j
  by_cases h : j = i
  . rw [h, Function.update_self, if_pos rfl]
  . rw [Function.update_of_ne h, if_neg h]

theorem and_one_ne_zero (j : Fin 4096) : (j.val &&& 1 ≠ 0) ↔ j.val % 2 = 1 := by
  rw [Nat.and_one_is_mod]
  omega

theorem half_eq (j : Fin 4096) : (half j).val = j.val / 2 := by
  unfold half
  dsimp only
  rw [Nat.shiftRight_eq_div_pow]

theorem toNat_nibble (b : UInt8) : (b.toUInt16 &&& (15 : UInt16)) = (b &&& (0x0F : UInt8)).toUInt16 := by
  apply UInt16.toNat_inj.mp
  rw [UInt16.toNat_and, UInt8.toNat_toUInt16, UInt8.toNat_toUInt16, UInt8.toNat_and]
  rfl

theorem toNat_high_nibble (b : UInt8) : b.toUInt16 >>> 4 = (b >>> 4).toUInt16 := by
  apply UInt16.toNat_inj.mp
  rw [toNat_shiftRight_four, UInt8.toNat_toUInt16, UInt8.toNat_toUInt16]
  have : (b >>> 4).toNat = b.toNat >>> 4 := UInt8.toNat_shiftRight b 4
  rw [this, Nat.shiftRight_eq_div_pow]

theorem loadNibbles_eq (mask : UInt16) (place : UInt16 → UInt16) (types : Fin 4096 → UInt16)
    (bytes : Fin 2048 → UInt8)
    : loadNibbles mask place types bytes
        =
      fun j => (types j &&& mask) ||| place (getNibble bytes j).toUInt16 := by
  unfold loadNibbles
  apply Loop.foldl_finRange
    (fun j t => (t &&& mask) ||| place (getNibble bytes j).toUInt16) half
  intro types i j
  by_cases hodd : j = odd i
  . have hhalf : half j = i := by
      apply Fin.ext
      rw [half_eq, hodd]
      dsimp only [odd]
      omega
    have hne : odd i ≠ even i := by
      unfold odd even
      simp only [ne_eq, Fin.mk.injEq]
      omega
    have hbit : j.val &&& 1 ≠ 0 := by
      rw [and_one_ne_zero, hodd]
      dsimp only [odd]
      omega
    unfold getNibble
    rw [if_pos hhalf, if_pos hbit, hhalf, hodd, Function.update_self, Function.update_of_ne hne,
      toNat_high_nibble]
  . rw [Function.update_of_ne hodd]
    by_cases heven : j = even i
    . have hhalf : half j = i := by
        apply Fin.ext
        rw [half_eq, heven]
        dsimp only [even]
        omega
      have hbit : ¬ (j.val &&& 1 ≠ 0) := by
        rw [and_one_ne_zero, heven]
        dsimp only [even]
        omega
      unfold getNibble
      rw [if_pos hhalf, if_neg hbit, hhalf, heven, Function.update_self, toNat_nibble]
    . have hhalf : half j ≠ i := by
        intro hhalf
        have := half_eq j
        rw [hhalf] at this
        unfold odd at hodd
        unfold even at heven
        rw [Fin.ext_iff] at hodd heven
        dsimp only at hodd heven
        omega
      rw [if_neg hhalf, Function.update_of_ne heven]

section Make

variable {f : UInt16 → UInt16} {types : Fin 4096 → UInt16}

theorem length_makeNibbles : (makeNibbles f types).length = 2048 := List.length_ofFn

theorem length_makeBlocks : (makeBlocks types).length = 4096 := List.length_ofFn

theorem low_nibble (a b : UInt16)
    : (((a &&& (15 : UInt16)).toUInt8 ||| ((b &&& (15 : UInt16)) <<< 4).toUInt8) &&& (0x0F : UInt8))
        =
      (a &&& (15 : UInt16)).toUInt8 := by
  apply UInt8.toBitVec_inj.mp
  apply BitVec.eq_of_getLsbD_eq
  intro i hi
  interval_cases i <;> simp

theorem high_nibble (a b : UInt16)
    : (((a &&& (15 : UInt16)).toUInt8 ||| ((b &&& (15 : UInt16)) <<< 4).toUInt8) >>> 4)
        =
      (b &&& (15 : UInt16)).toUInt8 := by
  apply UInt8.toBitVec_inj.mp
  apply BitVec.eq_of_getLsbD_eq
  intro i hi
  interval_cases i <;> simp

theorem getNibble_makeNibbles {g : UInt16 → UInt16} (hf : ∀ t, f t = g t &&& (15 : UInt16))
    {bytes : Fin 2048 → UInt8}
    (hbytes : ∀ i, bytes i
      = (f (types (even i))).toUInt8 ||| (f (types (odd i)) <<< 4).toUInt8)
    (j : Fin 4096)
    : getNibble bytes j = (f (types j)).toUInt8 := by
  have hj := half_eq j
  unfold getNibble
  rw [hbytes, hf, hf, hf]
  split
  . next hbit =>
    have hodd : odd (half j) = j := by
      apply Fin.ext
      dsimp only [odd]
      rw [and_one_ne_zero] at hbit
      omega
    rw [high_nibble, hodd]
  . next hbit =>
    have heven : even (half j) = j := by
      apply Fin.ext
      dsimp only [even]
      rw [and_one_ne_zero] at hbit
      omega
    rw [low_nibble, heven]

end Make

theorem toUInt16_toUInt8 {t : UInt16} (h : t.toNat < 256) : t.toUInt8.toUInt16 = t := by
  apply UInt16.toNat_inj.mp
  rw [UInt8.toNat_toUInt16, UInt16.toNat_toUInt8, Nat.mod_eq_of_lt h]

theorem and_lt (t m : UInt16) {n : Nat} (h : m.toNat < n) : (t &&& m).toNat < n := by
  rw [UInt16.toNat_and]
  exact Nat.lt_of_le_of_lt Nat.and_le_right h

theorem types_pack (t : UInt16)
    : ((((((t >>> 4) &&& (0xFF : UInt16)) <<< 4) &&& (0x0FFF : UInt16))
          ||| (((t >>> 12) &&& (15 : UInt16)) <<< 12)) &&& (0xFFF0 : UInt16))
        ||| (t &&& (15 : UInt16))
        =
      t := by
  apply UInt16.toBitVec_inj.mp
  apply BitVec.eq_of_getLsbD_eq
  intro i hi
  interval_cases i <;> simp

/--
The three arrays give back every bit of the types.
-/
theorem load_makeTypes {types types' : Fin 4096 → UInt16} {blocks : Fin 4096 → UInt8}
    {add data : Fin 2048 → UInt8}
    (hblocks : ∀ i, blocks i = ((types i >>> 4) &&& (0xFF : UInt16)).toUInt8)
    (hadd : ∀ i, add i = ((types (even i) >>> 12) &&& (15 : UInt16)).toUInt8
      ||| (((types (odd i) >>> 12) &&& (15 : UInt16)) <<< 4).toUInt8)
    (hdata : ∀ i, data i = (types (even i) &&& (15 : UInt16)).toUInt8
      ||| ((types (odd i) &&& (15 : UInt16)) <<< 4).toUInt8)
    : loadData (loadAdd (loadBlocks types' blocks) add) data = types := by
  have hadd' := @getNibble_makeNibbles (fun t => (t >>> 12) &&& (15 : UInt16)) types (· >>> 12)
    (fun _ => rfl) add hadd
  have hdata' := @getNibble_makeNibbles (fun t => t &&& (15 : UInt16)) types (·)
    (fun _ => rfl) data hdata
  unfold loadData loadAdd
  rw [loadBlocks_eq, loadNibbles_eq, loadNibbles_eq]
  funext j
  dsimp only
  rw [hadd', hdata', hblocks]
  rw [toUInt16_toUInt8 (and_lt _ _ (by decide)), toUInt16_toUInt8 (and_lt _ _ (by decide)),
    toUInt16_toUInt8 (and_lt _ _ (by decide))]
  exact types_pack (types j)

end ChunkNbt

end HCraft
