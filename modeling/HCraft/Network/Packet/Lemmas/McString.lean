import HCraft.Lib.Utf8
import HCraft.Network.Packet.Lemmas.Frame

/-!
This module contains which strings are read back as they were written.
-/

namespace HCraft

namespace Bin

theorem leadingOnes_eq_zero_iff (b : UInt8) : leadingOnes b = 0 ↔ b.toNat < 128 := by
  have hall : ∀ n : Fin 256, leadingOnes.go 8 n.val = 0 ↔ n.val < 128 := by decide +kernel
  exact hall ⟨b.toNat, b.toNat_lt⟩

/--
Of the bytes that were announced the leading ones are stored, and all of them only if none but the
last starts a longer character.
-/
theorem readMcString.go_some {ptr out : Bytes} {n room : Nat} (h : go ptr n room = some (some out))
    : out <+: ptr ∧ out.length ≤ n
        ∧ (out.length = n ↔ ∀ b ∈ ptr.take (n - 1), b.toNat < 128) := by
  induction ptr generalizing out n room with
  | nil =>
    cases n with
    | zero => simp_all [go]
    | succ n => simp [go] at h
  | cons f ptr ih =>
    cases n with
    | zero => simp_all [go]
    | succ n =>
      unfold go at h
      dsimp only at h
      split at h
      . simp at h
      . cases room with
        | zero => simp at h
        | succ room =>
          dsimp only at h
          obtain ⟨res, hres, hmap⟩ := Option.map_eq_some_iff.mp h
          obtain ⟨out', rfl, rfl⟩ := Option.map_eq_some_iff.mp hmap
          obtain ⟨hpre, hle, hiff⟩ := ih hres
          refine ⟨List.cons_prefix_cons.mpr ⟨rfl, hpre⟩, by simp only [List.length_cons]; omega, ?_⟩
          have hzero := leadingOnes_eq_zero_iff f
          cases n with
          | zero =>
            have hnil : out' = [] := List.eq_nil_of_length_eq_zero (by omega)
            simp [hnil]
          | succ n =>
            rw [Nat.add_sub_cancel, List.take_succ_cons, List.forall_mem_cons, List.length_cons]
            by_cases hascii : f.toNat < 128
            . -- a byte that stands alone leaves all the others
              have hsame : n + 1 - (leadingOnes f - 1) = n + 1 := by omega
              rw [hsame] at hiff
              rw [Nat.add_right_cancel_iff, hiff, Nat.add_sub_cancel]
              simp only [hascii, true_and]
            . simp only [hascii, false_and, iff_false]
              omega

theorem readMcString.go_ascii {bs : Bytes} (h : ∀ b ∈ bs, b.toNat < 128) (rest : Bytes) {room : Nat}
    (hroom : bs.length ≤ room) : go (bs ++ rest) bs.length room = some (some bs) := by
  induction bs generalizing room with
  | nil => cases rest <;> rfl
  | cons f bs ih =>
    have hf := (leadingOnes_eq_zero_iff f).mpr (h f List.mem_cons_self)
    cases room with
    | zero => simp at hroom
    | succ room =>
      have hbs := ih (fun b hb => h b (List.mem_cons_of_mem _ hb)) (by simpa using hroom)
      rw [List.cons_append, List.length_cons, go, hf]
      simp [hbs]

section Written

variable {bs : Bytes}

theorem readMcString_writeVarint (hlt : bs.length < 2 ^ 31) (rest : Bytes) (outLen : Nat)
    : readMcString (writeVarint bs.length ++ bs ++ rest) outLen
        = (readMcString.go (bs ++ rest) bs.length (outLen - 1)).map
            (·, wrap32 (writeVarint bs.length ++ bs).length) := by
  have hlen : (Leb128.encode bs.length).length ≤ 5 := Leb128.length_encode_le (by omega) (by omega)
  have hread := readVarint_of_terminated (Leb128.terminated_encode bs.length) (bs ++ rest) hlen
  rw [Leb128.value_encode, int32_eq_self hlt] at hread
  rw [writeVarint_eq_encode, List.append_assoc, readMcString, hread]
  simp only [Option.bind_eq_bind, Option.bind_some, Option.getD_some, List.drop_left,
    Int.toNat_natCast, Option.pure_def, List.length_append, Nat.cast_add]
  rw [Int.add_comm]
  cases readMcString.go (bs ++ rest) bs.length (outLen - 1) <;> rfl

theorem readMcString_mcString_iff {s : List Char} (hs : '\x00' ∉ s) {outLen : Nat}
    (hlt : (s.flatMap String.utf8EncodeChar).length < outLen) (hout : outLen < 2 ^ 31)
    (rest : Bytes)
    : readMcString (Packet.mcString (s.flatMap String.utf8EncodeChar) ++ rest) outLen
          = some (some (s.flatMap String.utf8EncodeChar),
              wrap32 (Packet.mcString (s.flatMap String.utf8EncodeChar)).length)
        ↔
      ∀ c ∈ s, c.val.toNat < 128 := by
  rw [mcString_eq (Utf8.zero_not_mem_flatMap hs) (by omega), readMcString_writeVarint (by omega)]
  constructor
  . intro h
    rw [← Utf8.all_ascii_iff]
    obtain ⟨out, hout, heq⟩ := Option.map_eq_some_iff.mp h
    rw [Prod.mk.injEq] at heq
    rw [heq.1] at hout
    have hiff := (readMcString.go_some hout).2.2.mp rfl
    rw [List.take_append_of_le_length (by omega), ← List.dropLast_eq_take] at hiff
    exact hiff
  . intro h
    have hascii : ∀ b ∈ s.flatMap String.utf8EncodeChar, b.toNat < 128 := by
      intro b hb
      obtain ⟨c, hc, hb⟩ := List.mem_flatMap.mp hb
      have hlow := h c hc
      rcases Utf8.encodeChar_cases c with ⟨heq, _⟩ | ⟨_, hgt, _⟩
      . rw [heq, List.mem_singleton] at hb
        rw [hb, UInt8.toNat_ofNat']
        omega
      . omega
    rw [readMcString.go_ascii hascii rest (by omega), Option.map_some]

end Written

section Accepted

/--
`out` are the bytes that the prefix of `arr` announces.
-/
def Payload (arr out : Bytes) : Prop :=
  ∃ len vl, readVarint arr = some (len, vl)
    ∧ out.length = len.toNat ∧ out <+: arr.drop (vl.getD 0)

/--
Of the bytes that the prefix of `arr` announces none in front of the last is above ASCII.
-/
def Plain (arr : Bytes) : Prop :=
  ∃ len vl, readVarint arr = some (len, vl)
    ∧ ∀ b ∈ (arr.drop (vl.getD 0)).take (len.toNat - 1), b.toNat < 128

theorem payload_iff_plain {arr out : Bytes} {outLen : Nat} {olen : Int}
    (h : readMcString arr outLen = some (some out, olen)) : Payload arr out ↔ Plain arr := by
  unfold readMcString at h
  simp only [Option.bind_eq_bind, Option.bind_eq_some_iff] at h
  obtain ⟨⟨len, vl⟩, hread, res, hgo, hres⟩ := h
  simp only [Option.pure_def, Option.some.injEq, Prod.mk.injEq] at hres
  rw [hres.1] at hgo
  obtain ⟨hpre, _, hiff⟩ := readMcString.go_some hgo
  constructor
  . rintro ⟨len', vl', hread', hlen, _⟩
    rw [hread, Option.some.injEq, Prod.mk.injEq] at hread'
    rw [← hread'.1] at hlen
    exact ⟨len, vl, hread, hiff.mp hlen⟩
  . rintro ⟨len', vl', hread', hplain⟩
    rw [hread, Option.some.injEq, Prod.mk.injEq] at hread'
    rw [← hread'.1, ← hread'.2] at hplain
    exact ⟨len, vl, hread, hiff.mpr hplain, hpre⟩

/--
What holds of the strings that are written, and of the bytes that are accepted.
-/
theorem mcString_iff (s : List Char) (outLen : Nat) (rest : Bytes) (hs : '\x00' ∉ s)
    (hlt : (s.flatMap String.utf8EncodeChar).length < outLen) (hout : outLen < 2 ^ 31)
    : (readMcString (Packet.mcString (s.flatMap String.utf8EncodeChar) ++ rest) outLen
            = some (some (s.flatMap String.utf8EncodeChar),
                wrap32 (Packet.mcString (s.flatMap String.utf8EncodeChar)).length)
          ↔
        ∀ c ∈ s, c.val.toNat < 128)
      ∧ ∀ arr n out olen, readMcString arr n = some (some out, olen) →
          (Payload arr out ↔ Plain arr) :=
  ⟨readMcString_mcString_iff hs hlt hout rest, fun _ _ _ _ => payload_iff_plain⟩

theorem mcString_iff_hi
    : (readMcString (Packet.mcString (['h', 'i'].flatMap String.utf8EncodeChar) ++ [0x7F]) 16
            = some (some (['h', 'i'].flatMap String.utf8EncodeChar),
                wrap32 (Packet.mcString (['h', 'i'].flatMap String.utf8EncodeChar)).length)
          ↔
        ∀ c ∈ ['h', 'i'], c.val.toNat < 128)
      ∧ ∀ arr n out olen, readMcString arr n = some (some out, olen) →
          (Payload arr out ↔ Plain arr) :=
  mcString_iff ['h', 'i'] 16 [0x7F] (by decide) (by decide) (by decide)

/--
Of U+00E9 only the first byte comes back.
-/
theorem not_mcString_e9
    : ¬ (readMcString (Packet.mcString (['\u00e9'].flatMap String.utf8EncodeChar)) 16
            = some (some (['\u00e9'].flatMap String.utf8EncodeChar),
                wrap32 (Packet.mcString (['\u00e9'].flatMap String.utf8EncodeChar)).length))
      ∧ readMcString [0x02, 0xC3, 0xA9] 16 = some (some [0xC3], 3)
      ∧ ¬ Payload [0x02, 0xC3, 0xA9] [0xC3] := by
  have hread : readMcString [0x02, 0xC3, 0xA9] 16 = some (some [0xC3], 3) := by decide +kernel
  refine ⟨by decide +kernel, hread, ?_⟩
  rw [payload_iff_plain hread]
  rintro ⟨len, vl, hlen, hplain⟩
  have hlen' : readVarint [0x02, 0xC3, 0xA9] = some (2, some 1) := by decide +kernel
  rw [hlen', Option.some.injEq, Prod.mk.injEq] at hlen
  rw [← hlen.1, ← hlen.2] at hplain
  exact absurd (hplain 0xC3 (by decide)) (by decide)

end Accepted

end Bin

end HCraft
