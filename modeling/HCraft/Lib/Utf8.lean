import Mathlib.Data.List.Basic

/-!
This module contains what bytes the encoding of a character can consist of.
-/

namespace Utf8

theorem encodeChar_cases (c : Char)
    : String.utf8EncodeChar c = [UInt8.ofNat c.val.toNat] ∧ c.val.toNat ≤ 0x7F
        ∨ 2 ≤ (String.utf8EncodeChar c).length ∧ 0x7F < c.val.toNat
          ∧ ∀ b ∈ String.utf8EncodeChar c, 128 ≤ b.toNat := by
  unfold String.utf8EncodeChar
  dsimp only
  split
  . next h => exact .inl ⟨rfl, h⟩
  . next h =>
    right
    rw [Nat.not_le] at h
    split
    . refine ⟨by simp, h, ?_⟩
      simp only [List.mem_cons, List.not_mem_nil, or_false, forall_eq_or_imp, forall_eq]
      simp only [UInt8.toNat_ofNat']
      omega
    . split
      . refine ⟨by simp, h, ?_⟩
        simp only [List.mem_cons, List.not_mem_nil, or_false, forall_eq_or_imp, forall_eq]
        simp only [UInt8.toNat_ofNat']
        omega
      . refine ⟨by simp, h, ?_⟩
        simp only [List.mem_cons, List.not_mem_nil, or_false, forall_eq_or_imp, forall_eq]
        simp only [UInt8.toNat_ofNat']
        omega

theorem zero_not_mem_encodeChar {c : Char} (h : c ≠ '\x00') : 0 ∉ String.utf8EncodeChar c := by
  intro hzero
  rcases encodeChar_cases c with ⟨heq, hascii⟩ | ⟨_, _, hlarge⟩
  . rw [heq, List.mem_singleton] at hzero
    have hnat := congrArg UInt8.toNat hzero
    rw [UInt8.toNat_ofNat', UInt8.toNat_zero] at hnat
    apply h
    rw [← Char.val_inj, ← UInt32.toNat_inj]
    change c.val.toNat = 0
    omega
  . exact absurd (hlarge 0 hzero) (by decide)

theorem zero_not_mem_flatMap {s : List Char} (h : '\x00' ∉ s)
    : 0 ∉ s.flatMap String.utf8EncodeChar := by
  rw [List.mem_flatMap]
  rintro ⟨c, hc, hzero⟩
  exact zero_not_mem_encodeChar (fun heq => h (heq ▸ hc)) hzero

/--
A character above ASCII puts a byte above ASCII in front of the last one.
-/
theorem all_ascii_iff (s : List Char)
    : (∀ b ∈ (s.flatMap String.utf8EncodeChar).dropLast, b.toNat < 128)
        ↔
      ∀ c ∈ s, c.val.toNat < 128 := by
  constructor
  . intro h c hc
    obtain ⟨pre, post, rfl⟩ := List.append_of_mem hc
    rcases encodeChar_cases c with ⟨_, hascii⟩ | ⟨hlen, _, hlarge⟩
    . omega
    . rcases henc : String.utf8EncodeChar c with _ | ⟨b, _ | ⟨b', bs⟩⟩
      . simp [henc] at hlen
      . simp [henc] at hlen
      . have hb := h b (by simp [henc, List.dropLast_append_of_ne_nil])
        have := hlarge b (by simp [henc])
        omega
  . intro h b hb
    obtain ⟨c, hc, hb⟩ := List.mem_flatMap.mp ((List.dropLast_sublist _).subset hb)
    have := h c hc
    rcases encodeChar_cases c with ⟨heq, _⟩ | ⟨_, hgt, _⟩
    . rw [heq, List.mem_singleton] at hb
      rw [hb, UInt8.toNat_ofNat']
      omega
    . omega

end Utf8
