import HCraft.Network.Builders.Mc18.Impl
import HCraft.Network.Handlers.Mc18.Fields
import HCraft.Network.Packet.Lemmas.Frame
import Mathlib.Data.Nat.Bitwise

/-!
This module contains which positions are read back as they were packed.
-/

namespace HCraft

open Bin Mc18PacketBuilder

theorem and_mask26 (n : Nat) : n &&& 0x3FFFFFF = n % 2 ^ 26 := Nat.and_two_pow_sub_one_eq_mod n 26
theorem and_mask12 (n : Nat) : n &&& 0xFFF = n % 2 ^ 12 := Nat.and_two_pow_sub_one_eq_mod n 12

theorem toNat_packPos (x y z : Int)
    : (packPos x y z).toNat
        =
      (Bin.unsigned32 x % 2 ^ 26) * 2 ^ 38
        + ((Bin.unsigned32 y % 2 ^ 12) * 2 ^ 26 + Bin.unsigned32 z % 2 ^ 26) := by
  unfold packPos
  rw [and_mask26, and_mask26, and_mask12]
  have hx : Bin.unsigned32 x % 2 ^ 26 < 2 ^ 26 := Nat.mod_lt _ (by omega)
  have hy : Bin.unsigned32 y % 2 ^ 12 < 2 ^ 12 := Nat.mod_lt _ (by omega)
  have hz : Bin.unsigned32 z % 2 ^ 26 < 2 ^ 26 := Nat.mod_lt _ (by omega)
  generalize Bin.unsigned32 x % 2 ^ 26 = a at hx ⊢
  generalize Bin.unsigned32 y % 2 ^ 12 = b at hy ⊢
  generalize Bin.unsigned32 z % 2 ^ 26 = c at hz ⊢
  simp only [UInt64.toNat_or, UInt64.toNat_shiftLeft, UInt64.toNat_ofNat', UInt64.reduceToNat]
  rw [Nat.mod_eq_of_lt (by omega : a < 2 ^ 64), Nat.mod_eq_of_lt (by omega : b < 2 ^ 64),
    Nat.mod_eq_of_lt (by omega : c < 2 ^ 64)]
  simp only [Nat.reduceMod]
  rw [Nat.mod_eq_of_lt (by rw [Nat.shiftLeft_eq]; omega),
    Nat.mod_eq_of_lt (by rw [Nat.shiftLeft_eq]; omega), Nat.or_assoc,
    shiftLeft_or_eq_add (k := 26) (by omega), shiftLeft_or_eq_add (k := 38) (by omega)]

theorem and_sign_eq_zero_iff {num bit : UInt32} {w : Nat} (hbit : bit.toNat = 2 ^ w)
    (h : num.toNat < 2 ^ (w + 1)) : num &&& bit = 0 ↔ num.toNat < 2 ^ w := by
  rw [← UInt32.toNat_inj, UInt32.toNat_and, hbit, Nat.and_two_pow, UInt32.toNat_zero]
  cases htest : num.toNat.testBit w with
  | false =>
    simp only [Bool.toNat_false, Nat.zero_mul, true_iff]
    by_contra hge
    have hbit := Nat.testBit_of_two_pow_le_and_two_pow_add_one_gt (Nat.le_of_not_lt hge) h
    rw [htest] at hbit
    cases hbit
  | true =>
    have hle := Nat.ge_two_pow_of_testBit htest
    have hpos : 0 < 2 ^ w := Nat.two_pow_pos w
    simp only [Bool.toNat_true, Nat.one_mul]
    omega

theorem int32_orSign {num : UInt32} {x : Int} (hnum : num.toNat = unsigned32 x % 2 ^ 26)
    (hlo : -2 ^ 25 ≤ x) (hhi : x < 2 ^ 25) : int32 (orSign 26 num num).toNat = x := by
  have hlt : num.toNat < 2 ^ 26 := by
    rw [hnum]
    exact Nat.mod_lt _ (by omega)
  have hzero := @and_sign_eq_zero_iff num ((1 : UInt32) <<< ((26 : UInt32) - 1)) 25 (by decide) hlt
  unfold orSign
  split
  . next hneg =>
    have hge := hzero.not.mp hneg
    have hor : (num ||| (0xFFFFFFFF : UInt32) <<< (26 : UInt32)).toNat = 0x3F * 2 ^ 26 + num.toNat := by
      rw [UInt32.toNat_or, Nat.or_comm, ← shiftLeft_or_eq_add hlt]
      rfl
    rw [hor]
    unfold unsigned32 at hnum
    unfold int32 wrap32
    omega
  . next hpos =>
    have hlow := hzero.mp (not_not.mp hpos)
    unfold unsigned32 at hnum
    unfold int32 wrap32
    omega

theorem unpackPos_packPos {x y z : Int} (hx : -2 ^ 25 ≤ x ∧ x < 2 ^ 25) (hy : -2 ^ 11 ≤ y ∧ y < 2 ^ 11)
    (hz : -2 ^ 25 ≤ z ∧ z < 2 ^ 25) : unpackPos (packPos x y z) = (x, y, z) ↔ 0 ≤ y := by
  have hpos := toNat_packPos x y z
  have hxlt : unsigned32 x % 2 ^ 26 < 2 ^ 26 := Nat.mod_lt _ (by omega)
  have hylt : unsigned32 y % 2 ^ 12 < 2 ^ 12 := Nat.mod_lt _ (by omega)
  have hzlt : unsigned32 z % 2 ^ 26 < 2 ^ 26 := Nat.mod_lt _ (by omega)
  have hxnum : (packPos x y z >>> 38).toUInt32.toNat = unsigned32 x % 2 ^ 26 := by
    rw [UInt64.toNat_toUInt32, UInt64.toNat_shiftRight, hpos, Nat.shiftRight_eq_div_pow]
    simp only [UInt64.reduceToNat, Nat.reduceMod]
    omega
  have hynum : ((packPos x y z >>> 26) &&& 0xFFF).toUInt32.toNat = unsigned32 y % 2 ^ 12 := by
    rw [UInt64.toNat_toUInt32, UInt64.toNat_and, UInt64.toNat_shiftRight, hpos,
      Nat.shiftRight_eq_div_pow]
    simp only [UInt64.reduceToNat, Nat.reduceMod, and_mask12]
    omega
  have hznum : (packPos x y z &&& 0x3FFFFFF).toUInt32.toNat = unsigned32 z % 2 ^ 26 := by
    rw [UInt64.toNat_toUInt32, UInt64.toNat_and, hpos]
    simp only [UInt64.reduceToNat, and_mask26]
    omega
  have hz := int32_orSign hznum hz.1 hz.2
  have hsign := @and_sign_eq_zero_iff _ ((1 : UInt32) <<< ((12 : UInt32) - 1)) 11 (by decide)
    (by rw [hynum]; exact hylt)
  rw [hynum] at hsign
  unfold unpackPos
  dsimp only
  rw [Prod.mk.injEq, Prod.mk.injEq, hynum, hz]
  constructor
  . rintro ⟨_, heq, _⟩
    rw [int32_eq_self (by omega)] at heq
    omega
  . intro hnonneg
    have hy12 : unsigned32 y % 2 ^ 12 = y.toNat := by
      unfold unsigned32
      omega
    have hsame := hsign.mpr (by omega)
    refine ⟨?_, ?_, rfl⟩
    . rw [orSign, if_neg (not_not.mpr hsame)]
      exact int32_orSign hxnum hx.1 hx.2
    . rw [int32_eq_self (by omega)]
      omega

section Spawn

variable {x y z : Int}

theorem writeVarint_of_lt {n : Nat} (h : n < 128) : writeVarint n = [UInt8.ofNat n] := by
  rw [writeVarint_eq_encode, Leb128.encode, if_pos h]

theorem makeSpawnPosition_eq (x y z : Int)
    : makeSpawnPosition x y z = Packet.build [.varint 5, .long (packPos x y z)] := by
  unfold makeSpawnPosition Packet.build
  simp only [Packet.putFields, Field.putTo, bind_assoc]
  rfl

theorem makeSpawnPosition_spec (x y z : Int)
    : ∃ pack, makeSpawnPosition x y z = .ok pack
        ∧ pack.data = 9 :: 5 :: writeLongBe (packPos x y z).toNat := by
  have hbody : Packet.body [.varint 5, .long (packPos x y z)]
      = 5 :: writeLongBe (packPos x y z).toNat := by
    simp only [Packet.body, List.flatMap_cons, List.flatMap_nil, Field.encode, List.append_nil]
    rw [writeVarint_of_lt (by decide)]
    rfl
  obtain ⟨pack, hpack, hdata⟩ := @Packet.build_spec [.varint 5, .long (packPos x y z)]
    (by simp [Field.Valid]) (by rw [hbody, List.length_cons, length_writeLongBe]; omega)
  refine ⟨pack, (makeSpawnPosition_eq x y z).trans hpack, ?_⟩
  rw [hdata, hbody, List.length_cons, length_writeLongBe, writeVarint_of_lt (by omega)]
  rfl

theorem readPos_writeLongBe (pos : UInt64) (beyond : Bytes)
    : (PacketReader.ofPacket (writeLongBe pos.toNat) beyond).readPos
        = some (unpackPos pos, (PacketReader.ofPacket (writeLongBe pos.toNat) beyond).skip 8) := by
  have hread := @PacketReader.readFixed_spec _ _ _ _ 8 _ _
    (PacketReader.ahead_ofPacket (writeLongBe pos.toNat) beyond)
    (readLongBe_writeLongBe pos.toNat_lt beyond)
  rw [PacketReader.readPos, PacketReader.readLong, hread, Option.map_some]
  dsimp only [bind, Option.bind]
  rw [UInt64.ofNat_toNat]
  rfl

/--
A position is read back if its height is not negative.
-/
theorem readPos_makeSpawnPosition_iff (x y z : Int) (hx : -2 ^ 25 ≤ x ∧ x < 2 ^ 25)
    (hy : -2 ^ 11 ≤ y ∧ y < 2 ^ 11) (hz : -2 ^ 25 ≤ z ∧ z < 2 ^ 25)
    : ∃ pack bs, makeSpawnPosition x y z = .ok pack ∧ pack.data = 9 :: 5 :: bs
        ∧ ∀ beyond,
            (PacketReader.ofPacket bs beyond).readPos.map Prod.fst = some (x, y, z)
              ↔
            0 ≤ y := by
  obtain ⟨pack, hpack, hdata⟩ := makeSpawnPosition_spec x y z
  refine ⟨pack, _, hpack, hdata, ?_⟩
  intro beyond
  rw [readPos_writeLongBe, Option.map_some, Option.some.injEq]
  exact unpackPos_packPos hx hy hz

theorem readPos_makeSpawnPosition_house
    : ∃ pack bs, makeSpawnPosition (-3) 64 9 = .ok pack ∧ pack.data = 9 :: 5 :: bs
        ∧ ∀ beyond,
            (PacketReader.ofPacket bs beyond).readPos.map Prod.fst = some (-3, 64, 9)
              ↔
            0 ≤ (64 : Int) :=
  readPos_makeSpawnPosition_iff (-3) 64 9 (by decide) (by decide) (by decide)

/--
The sign of the height is read as that of `x`.
-/
theorem not_readPos_makeSpawnPosition_void
    : ∃ pack bs, makeSpawnPosition 0 (-1) 0 = .ok pack ∧ pack.data = 9 :: 5 :: bs
        ∧ (PacketReader.ofPacket bs []).readPos.map Prod.fst = some (-4096, 4095, 0)
        ∧ ((-4096, 4095, 0) : Int × Int × Int) ≠ (0, -1, 0) := by
  obtain ⟨pack, hpack, hdata⟩ := makeSpawnPosition_spec 0 (-1) 0
  refine ⟨pack, _, hpack, hdata, ?_, by decide⟩
  rw [readPos_writeLongBe, Option.map_some]
  decide +kernel

end Spawn

end HCraft
