import HCraft.Util.Binary

/-!
This module contains that the readers of varints undo the writers, and that no shorter bytes would do.
-/

namespace HCraft

namespace Bin

/--
Both readers are loops that stop at the first byte without the continuation bit, and set `olen` only
there.
-/
structure ReadsVar {α : Type} (go : Nat → Bytes → Nat → Nat → Option (α × Option Nat)) : Prop where
  unset : ∀ arr i n v k, go 0 arr i n ≠ some (v, some k)
  past : ∀ fuel i n, go (fuel + 1) [] i n = none
  last : ∀ fuel b arr i n, b &&& 0x80 = 0 →
    ∃ v, go (fuel + 1) (b :: arr) i n = some (v, some (i + 1))
  more : ∀ fuel b arr i n, ¬ (b &&& 0x80 = 0) →
    ∃ n', go (fuel + 1) (b :: arr) i n = go fuel arr (i + 1) n'

theorem ReadsVar.terminated {α : Type} {go : Nat → Bytes → Nat → Nat → Option (α × Option Nat)}
    (hgo : ReadsVar go) {arr : Bytes} {fuel i n k : Nat} {v : α}
    (h : go fuel arr i n = some (v, some k))
    : ∃ bs rest, arr = bs ++ rest ∧ Leb128.Terminated bs ∧ bs.length ≤ fuel ∧ k = i + bs.length := by
  induction fuel generalizing arr i n with
  | zero => exact absurd h (hgo.unset arr i n v k)
  | succ fuel ih =>
    cases arr with
    | nil => simp [hgo.past] at h
    | cons b arr =>
      by_cases hlast : b &&& 0x80 = 0
      . obtain ⟨v', hv'⟩ := hgo.last fuel b arr i n hlast
        rw [hv'] at h
        simp only [Option.some.injEq, Prod.mk.injEq] at h
        refine ⟨[b], arr, rfl, ?_, by simp, h.2.symm⟩
        simp [Leb128.Terminated, Leb128.more, hlast]
      . obtain ⟨n', hn'⟩ := hgo.more fuel b arr i n hlast
        rw [hn'] at h
        obtain ⟨bs, rest, rfl, hbs, hlen, rfl⟩ := ih h
        refine ⟨b :: bs, rest, rfl, ?_, by simpa using hlen, ?_⟩
        . simpa [Leb128.Terminated, Leb128.more, hlast] using hbs
        . rw [List.length_cons]
          omega

theorem readVarint.readsVar : ReadsVar readVarint.go where
  unset _ _ _ _ _ := by simp [go]
  past _ _ _ := rfl
  last _ _ _ _ _ h := by simp [go, h]
  more _ _ _ _ _ h := by simp [go, h]

theorem readVarlong.readsVar : ReadsVar readVarlong.go where
  unset _ _ _ _ _ := by simp [go]
  past _ _ _ := rfl
  last _ _ _ _ _ h := by simp [go, h]
  more _ _ _ _ _ h := by simp [go, h]

theorem terminated_of_readVarint {bs rest : Bytes} {v : Int}
    (h : readVarint (bs ++ rest) = some (v, some bs.length))
    : Leb128.Terminated bs ∧ bs.length ≤ 5 ∧ v = int32 (Leb128.value bs) := by
  obtain ⟨bs', rest', heq, hbs', hlen, hk⟩ := readVarint.readsVar.terminated h
  rw [Nat.zero_add] at hk
  obtain ⟨rfl, rfl⟩ := List.append_inj heq hk
  rw [readVarint_of_terminated hbs' rest hlen] at h
  simp only [Option.some.injEq, Prod.mk.injEq, and_true] at h
  exact ⟨hbs', hlen, h.symm⟩

theorem terminated_of_readVarlong {bs rest : Bytes} {v : Nat}
    (h : readVarlong (bs ++ rest) = some (v, some bs.length))
    : Leb128.Terminated bs ∧ (bs.length < 10 → v = Leb128.value bs) := by
  obtain ⟨bs', rest', heq, hbs', hlen, hk⟩ := readVarlong.readsVar.terminated h
  rw [Nat.zero_add] at hk
  obtain ⟨rfl, rfl⟩ := List.append_inj heq hk
  refine ⟨hbs', ?_⟩
  intro hshort
  have hvalue : Leb128.value bs < 128 ^ 9 :=
    Nat.lt_of_lt_of_le (Leb128.value_lt bs) (Nat.pow_le_pow_right (by omega) (by omega))
  have hgo := @readVarlong.go_of_terminated bs hbs' rest 10 0 0 (by simp) rfl hlen (by omega)
  rw [readVarlong, hgo] at h
  simp only [Option.some.injEq, Prod.mk.injEq] at h
  rw [← h.1, Nat.zero_add, Nat.pow_zero, Nat.one_mul]

/--
`enc` encodes `val`: it is read back whatever follows, and nothing shorter is.
-/
structure Encodes {α : Type} (read : Bytes → Option (α × Option Nat)) (max : Nat) (enc : Bytes)
    (val : α) : Prop where
  read_append : ∀ rest, read (enc ++ rest) = some (val, some enc.length)
  one_le_length : 1 ≤ enc.length
  length_le : enc.length ≤ max
  shortest : ∀ bs rest, read (bs ++ rest) = some (val, some bs.length) → enc.length ≤ bs.length

theorem encodes_writeVarint (v : UInt32)
    : Encodes readVarint 5 (writeVarint v.toNat) (int32 v.toNat) := by
  have hv := v.toNat_lt
  have hlen : (Leb128.encode v.toNat).length ≤ 5 := Leb128.length_encode_le (by omega) (by omega)
  rw [writeVarint_eq_encode]
  constructor
  . intro rest
    rw [readVarint_of_terminated (Leb128.terminated_encode _) rest hlen, Leb128.value_encode]
  . exact Leb128.length_encode_pos _
  . exact hlen
  . intro bs rest h
    obtain ⟨hbs, _, heq⟩ := terminated_of_readVarint h
    by_cases hfive : 5 ≤ bs.length
    . omega
    . have hlt := Leb128.value_lt bs
      have hvalue : Leb128.value bs < 128 ^ 4 :=
        Nat.lt_of_lt_of_le hlt (Nat.pow_le_pow_right (by omega) (by omega))
      -- four groups do not reach the sign bit
      have hsame : v.toNat = Leb128.value bs := by
        unfold int32 wrap32 at heq
        omega
      rw [← hsame] at hlt
      exact Leb128.length_encode_le hbs.length_pos hlt

theorem encodes_writeVarlong (w : UInt64)
    : Encodes readVarlong 10 (writeVarlong w.toNat) w.toNat := by
  have hw := w.toNat_lt
  have hlen : (Leb128.encode w.toNat).length ≤ 10 := Leb128.length_encode_le (by omega) (by omega)
  rw [writeVarlong, writeVarint_eq_encode]
  constructor
  . exact readVarlong_encode hw
  . exact Leb128.length_encode_pos _
  . exact hlen
  . intro bs rest h
    obtain ⟨hbs, heq⟩ := terminated_of_readVarlong h
    by_cases hten : 10 ≤ bs.length
    . omega
    . have hlt := Leb128.value_lt bs
      rw [← heq (by omega)] at hlt
      exact Leb128.length_encode_le hbs.length_pos hlt

/--
Varints and varlongs round-trip.
-/
theorem encodes_written (v : UInt32) (w : UInt64)
    : Encodes readVarint 5 (writeVarint v.toNat) (int32 v.toNat)
        ∧ Encodes readVarlong 10 (writeVarlong w.toNat) w.toNat :=
  ⟨encodes_writeVarint v, encodes_writeVarlong w⟩

end Bin

end HCraft
