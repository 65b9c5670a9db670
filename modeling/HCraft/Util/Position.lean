import HCraft.Entity.Impl
import HCraft.World.Lighting.Impl
import Mathlib.Data.Rat.Floor

/-!
This module contains the conversions between positions: a coordinate is cast to an `int`, which rounds
toward zero, where the shifts that follow round down.
-/

namespace HCraft

/--
A `block_pos` of any height, where a `BlockPos` is one of a block of the world.
-/
structure BlockCoords where
  x : Int
  y : Int
  z : Int
  deriving DecidableEq

def BlockCoords.chunkPos (pos : BlockCoords) : ChunkPos :=
  ⟨pos.x >>> (4 : Nat), pos.z >>> (4 : Nat)⟩

def EntityPos.blockPos (pos : EntityPos) : BlockCoords :=
  ⟨pos.x.toInt, pos.y.toInt, pos.z.toInt⟩

namespace Coord

/--
The integer part of `x` is an `int`.
-/
def Fits (x : ℚ) : Prop :=
  -2 ^ 31 ≤ x.num.tdiv x.den ∧ x.num.tdiv x.den < 2 ^ 31

/--
The integer part of `x` is what it is rounded down to.
-/
def CutsDown (x : ℚ) : Prop :=
  0 ≤ x ∨ x.den = 1

theorem den_dvd_num_iff (x : ℚ) : (x.den : Int) ∣ x.num ↔ x.den = 1 := by
  constructor
  . intro h
    have hdvd : x.den ∣ x.num.natAbs := Int.natCast_dvd.mp h
    have hgcd : Nat.gcd x.num.natAbs x.den = x.den := Nat.gcd_eq_right hdvd
    exact hgcd.symm.trans x.reduced
  . intro h
    rw [h]
    exact Int.one_dvd _

theorem toInt_of_fits {x : ℚ} (hfits : Fits x) : Coord.toInt (some x) = x.num.tdiv x.den :=
  if_pos hfits

theorem toInt_of_cutsDown {x : ℚ} (hfits : Fits x) (h : CutsDown x)
    : Coord.toInt (some x) = ⌊x⌋ := by
  have hnum : 0 ≤ x.num ∨ (x.den : Int) ∣ x.num := by
    rw [Rat.num_nonneg, den_dvd_num_iff]
    exact h
  rw [toInt_of_fits hfits, Int.tdiv_eq_ediv, if_pos hnum, Int.add_zero, Rat.floor_def']

theorem toInt_of_not_cutsDown {x : ℚ} (hfits : Fits x) (h : ¬ CutsDown x)
    : Coord.toInt (some x) = ⌊x⌋ + 1 := by
  have hnum : ¬ (0 ≤ x.num ∨ (x.den : Int) ∣ x.num) := by
    rw [Rat.num_nonneg, den_dvd_num_iff]
    exact h
  rw [toInt_of_fits hfits, Int.tdiv_eq_ediv, if_neg hnum, Rat.floor_def',
    Int.sign_eq_one_of_pos (Int.natCast_pos.mpr x.den_pos)]

theorem toInt_eq_floor_iff {x : ℚ} (hfits : Fits x)
    : Coord.toInt (some x) = ⌊x⌋ ↔ CutsDown x := by
  by_cases h : CutsDown x
  . rw [toInt_of_cutsDown hfits h]
    exact iff_of_true rfl h
  . rw [toInt_of_not_cutsDown hfits h]
    apply iff_of_false _ h
    omega

theorem floor_div_sixteen (x : ℚ) : ⌊x / 16⌋ = ⌊x⌋ / 16 :=
  Int.floor_div_natCast x 16

/--
Only where the block next to a border is on the other side of it does the chunk come out wrong.
-/
theorem toInt_shiftRight_eq_iff {x : ℚ} (hfits : Fits x)
    : Coord.toInt (some x) >>> (4 : Nat) = ⌊x / 16⌋ ↔ CutsDown x ∨ ⌊x⌋ % 16 ≠ 15 := by
  rw [floor_div_sixteen, Int.shiftRight_eq_div_pow]
  by_cases h : CutsDown x
  . rw [toInt_of_cutsDown hfits h]
    exact iff_of_true rfl (.inl h)
  . rw [toInt_of_not_cutsDown hfits h, or_iff_right h]
    omega

end Coord

open Coord

namespace EntityPos

/--
All conversions of `pos`, which is at `x`, `y` and `z`, round down.
-/
structure ConvertsDown (pos : EntityPos) (x y z : ℚ) : Prop where
  chunk : pos.chunkPos = ⟨⌊x / 16⌋, ⌊z / 16⌋⟩
  block : pos.blockPos = ⟨⌊x⌋, ⌊y⌋, ⌊z⌋⟩
  chunkOfBlock : pos.blockPos.chunkPos = pos.chunkPos
  insideX : 16 * pos.chunkPos.x ≤ pos.blockPos.x ∧ pos.blockPos.x < 16 * pos.chunkPos.x + 16
  insideZ : 16 * pos.chunkPos.z ≤ pos.blockPos.z ∧ pos.blockPos.z < 16 * pos.chunkPos.z + 16

theorem shiftRight_inside (n : Int)
    : 16 * n >>> (4 : Nat) ≤ n ∧ n < 16 * n >>> (4 : Nat) + 16 := by
  rw [Int.shiftRight_eq_div_pow]
  omega

variable {x y z : ℚ} (yaw pitch : Coord) (onGround : Bool)

theorem chunkPos_eq_iff (hx : Fits x) (hz : Fits z)
    : chunkPos ⟨some x, some y, some z, yaw, pitch, onGround⟩ = ⟨⌊x / 16⌋, ⌊z / 16⌋⟩
        ↔
      (CutsDown x ∨ ⌊x⌋ % 16 ≠ 15) ∧ (CutsDown z ∨ ⌊z⌋ % 16 ≠ 15) := by
  rw [← toInt_shiftRight_eq_iff hx, ← toInt_shiftRight_eq_iff hz]
  exact ChunkPos.mk.injEq .. |>.to_iff

theorem blockPos_eq_iff (hx : Fits x) (hy : Fits y) (hz : Fits z)
    : blockPos ⟨some x, some y, some z, yaw, pitch, onGround⟩ = ⟨⌊x⌋, ⌊y⌋, ⌊z⌋⟩
        ↔
      CutsDown x ∧ CutsDown y ∧ CutsDown z := by
  rw [← toInt_eq_floor_iff hx, ← toInt_eq_floor_iff hy, ← toInt_eq_floor_iff hz]
  exact BlockCoords.mk.injEq .. |>.to_iff

/--
The conversions round down unless a coordinate is negative and between two blocks.
-/
theorem convertsDown_iff (hx : Fits x) (hy : Fits y) (hz : Fits z)
    : ConvertsDown ⟨some x, some y, some z, yaw, pitch, onGround⟩ x y z
        ↔
      CutsDown x ∧ CutsDown y ∧ CutsDown z := by
  constructor
  . intro h
    exact (blockPos_eq_iff yaw pitch onGround hx hy hz).mp h.block
  . intro h
    constructor
    . apply (chunkPos_eq_iff yaw pitch onGround hx hz).mpr
      exact ⟨.inl h.1, .inl h.2.2⟩
    . exact (blockPos_eq_iff yaw pitch onGround hx hy hz).mpr h
    . rfl
    . exact shiftRight_inside _
    . exact shiftRight_inside _

theorem convertsDown_iff_quarter
    : ConvertsDown ⟨some (1 / 4), some 64, some (-3), none, none, true⟩ (1 / 4) 64 (-3)
        ↔
      CutsDown (1 / 4) ∧ CutsDown 64 ∧ CutsDown (-3) :=
  convertsDown_iff none none true (by unfold Fits; decide +kernel) (by unfold Fits; decide +kernel)
    (by unfold Fits; decide +kernel)

/--
Half a block west of the origin is taken to be in the chunk east of it.
-/
theorem not_convertsDown_half
    : ¬ ConvertsDown ⟨some (-1 / 2), some 64, some 0, some 0, some 0, true⟩ (-1 / 2) 64 0 := by
  intro h
  have hchunk := h.chunk
  revert hchunk
  decide +kernel

end EntityPos

end HCraft
