import HCraft.Network.PacketDelimiter

/-!
This module contains where the functions that look at varints agree with each other.
-/

namespace HCraft

namespace Bin

section Size

theorem varintSize.go_of_neg {num : Int} (h : num < 0) (fuel s : Nat) : go fuel num s = none := by
  induction fuel generalizing num s with
  | zero =>
    unfold go
    rw [if_neg (by omega)]
  | succ fuel ih =>
    unfold go
    rw [if_neg (by omega)]
    -- the shift rounds down, so the number stays negative
    apply ih
    rw [Int.shiftRight_eq_div_pow]
    omega

theorem varintSize_eq_iff (v : UInt32)
    : varintSize (int32 v.toNat) = some (writeVarint v.toNat).length ↔ v.toNat < 2 ^ 31 := by
  have hnonneg := int32_nonneg_iff v.toNat_lt
  by_cases hlt : v.toNat < 2 ^ 31
  . rw [int32_eq_self hlt, writeVarint_eq_encode, varintSize_eq_encode (by omega)]
    simpa using hlt
  . have hneg : int32 v.toNat < 0 := by omega
    rw [varintSize, if_neg (by omega), varintSize.go_of_neg hneg]
    simpa using hlt

end Size

section Arrays

def Complete (arr : Bytes) : Prop :=
  ∃ b ∈ arr.take 5, Leb128.more b = false

def Incomplete (arr : Bytes) : Prop :=
  arr.length < 5 ∧ ∀ b ∈ arr, Leb128.more b = true

def Invalid (arr : Bytes) : Prop :=
  ¬ Complete arr ∧ ¬ Incomplete arr

/--
All that is asked about a number at the start of an array gets the same answer.
-/
structure HelpersAgree (arr : Bytes) : Prop where
  got_complete : Complete arr → gotVarint arr = 1
  got_incomplete : Incomplete arr → gotVarint arr = 0
  got_invalid : Invalid arr → gotVarint arr = -1
  read_got : gotVarint arr = 1 → ∃ v i, arr.findIdx? (!Leb128.more ·) = some i
    ∧ readVarint arr = some (v, some (i + 1))
  remaining_incomplete : Incomplete arr → Mc17PacketDelimiter.remaining arr = 1
  remaining_invalid : Invalid arr → Mc17PacketDelimiter.remaining arr = -1

theorem complete_iff {bs : Bytes} (h : Leb128.Terminated bs) (rest : Bytes)
    : Complete (bs ++ rest) ↔ bs.length ≤ 5 := by
  constructor
  . rintro ⟨b, hb, hlast⟩
    by_contra hlong
    -- five bytes of a longer number all carry the bit
    have hmore := h.more_of_append (List.take_append_drop 5 bs).symm
      (by rw [ne_eq, List.drop_eq_nil_iff]; omega)
    rw [List.take_append_of_le_length (by omega)] at hb
    rw [hmore b hb] at hlast
    cases hlast
  . intro hlen
    by_contra hnone
    apply h.not_all_more
    intro b hb
    by_contra hlast
    apply hnone
    refine ⟨b, ?_, by simpa using hlast⟩
    rw [List.take_append, List.take_of_length_le hlen]
    exact List.mem_append_left _ hb

theorem not_incomplete {bs : Bytes} (h : Leb128.Terminated bs) (rest : Bytes)
    : ¬ Incomplete (bs ++ rest) := by
  rintro ⟨_, hmore⟩
  exact h.not_all_more (fun b hb => hmore b (List.mem_append_left _ hb))

theorem not_complete_of_more {arr : Bytes} (h : ∀ b ∈ arr, Leb128.more b = true)
    : ¬ Complete arr := by
  rintro ⟨b, hb, hlast⟩
  rw [h b (List.mem_of_mem_take hb)] at hlast
  cases hlast

theorem helpersAgree_of_terminated {bs : Bytes} (h : Leb128.Terminated bs) (rest : Bytes)
    : HelpersAgree (bs ++ rest) ↔ bs.length ≠ 6 := by
  have hcomplete := complete_iff h rest
  have hincomplete := not_incomplete h rest
  have hgot := gotVarint_of_terminated h rest
  have hpos := h.length_pos
  constructor
  . intro hagree hsix
    have hinvalid := hagree.got_invalid ⟨by rw [hcomplete]; omega, hincomplete⟩
    rw [hgot, if_neg (by omega)] at hinvalid
    cases hinvalid
  . intro hne
    constructor
    . intro hc
      rw [hcomplete] at hc
      rw [hgot, if_neg (by omega)]
    . exact fun hi => absurd hi hincomplete
    . intro hi
      have := hcomplete.not.mp hi.1
      rw [hgot, if_pos (by omega)]
    . intro hone
      rw [hgot] at hone
      have hlen : bs.length ≤ 5 := by
        by_contra hlong
        rw [if_pos (by omega)] at hone
        cases hone
      refine ⟨int32 (Leb128.value bs), bs.length - 1, h.findIdx? rest, ?_⟩
      rw [readVarint_of_terminated h rest hlen, Nat.sub_add_cancel hpos]
    . exact fun hi => absurd hi hincomplete
    . intro hi
      have := hcomplete.not.mp hi.1
      exact Mc17PacketDelimiter.remaining_of_long h rest (by omega)

theorem helpersAgree_of_more {arr : Bytes} (h : ∀ b ∈ arr, Leb128.more b = true)
    : HelpersAgree arr ↔ arr.length < 5 := by
  have hcomplete := not_complete_of_more h
  have hgot := gotVarint_of_more h
  constructor
  . intro hagree
    by_contra hlong
    have hinvalid := hagree.got_invalid ⟨hcomplete, fun hi => hlong hi.1⟩
    rw [hgot] at hinvalid
    cases hinvalid
  . intro hlen
    constructor
    . exact fun hc => absurd hc hcomplete
    . exact fun _ => hgot
    . exact fun hi => absurd ⟨hlen, h⟩ hi.2
    . intro hone
      rw [hgot] at hone
      cases hone
    . intro _
      rw [Mc17PacketDelimiter.remaining_of_more h, if_neg (by omega)]
    . exact fun hi => absurd ⟨hlen, h⟩ hi.2

theorem helpersAgree_iff (arr : Bytes)
    : HelpersAgree arr
        ↔
      arr.findIdx? (!Leb128.more ·) ≠ some 5
        ∧ (5 ≤ arr.length → ∃ b ∈ arr, Leb128.more b = false) := by
  rcases Leb128.exists_terminated_or_more arr with ⟨bs, rest, rfl, h⟩ | h
  . have hpos := h.length_pos
    have hlast : ∃ b ∈ bs ++ rest, Leb128.more b = false := by
      by_contra hnone
      apply h.not_all_more
      intro b hb
      by_contra hb'
      exact hnone ⟨b, List.mem_append_left _ hb, by simpa using hb'⟩
    rw [helpersAgree_of_terminated h, h.findIdx?]
    simp only [ne_eq, Option.some.injEq, hlast, implies_true, and_true]
    omega
  . have hnone : ¬ ∃ b ∈ arr, Leb128.more b = false := by
      rintro ⟨b, hb, hlast⟩
      rw [h b hb] at hlast
      cases hlast
    rw [helpersAgree_of_more h, Leb128.findIdx?_of_more h]
    simp only [hnone, imp_false, ne_eq, reduceCtorEq, not_false_eq_true, true_and]
    omega

theorem helpers_agree_iff (v : UInt32) (arr : Bytes)
    : (varintSize (int32 v.toNat) = some (writeVarint v.toNat).length ↔ v.toNat < 2 ^ 31)
        ∧ (HelpersAgree arr
            ↔
          arr.findIdx? (!Leb128.more ·) ≠ some 5
            ∧ (5 ≤ arr.length → ∃ b ∈ arr, Leb128.more b = false)) :=
  ⟨varintSize_eq_iff v, helpersAgree_iff arr⟩

theorem not_helpers_agree_minus_one
    : ¬ varintSize (int32 0xFFFFFFFF) = some (writeVarint 0xFFFFFFFF).length
        ∧ ¬ HelpersAgree [0x80, 0x80, 0x80, 0x80, 0x80, 0x00] := by
  constructor
  . have hneg : int32 0xFFFFFFFF < 0 := by decide
    rw [varintSize, if_neg (by omega), varintSize.go_of_neg hneg]
    simp
  . intro hagree
    have hinvalid := hagree.got_invalid
      ⟨by unfold Complete; decide, by unfold Incomplete; decide⟩
    exact absurd hinvalid (by decide)

end Arrays

end Bin

end HCraft
