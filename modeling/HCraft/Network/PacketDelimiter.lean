import HCraft.Lib.Framing
import HCraft.Util.Binary

/-!
This module contains the delimiter that finds packet boundaries from protocol 1.7 on, and the
framer it implements.
-/

namespace HCraft

def READ_BUFFER_SIZE : Nat := 512

namespace Mc17PacketDelimiter

/--
The number of bytes still missing from the packet whose first bytes are `arr`; negative if `arr`
starts no packet.
-/
def remaining (arr : Bytes) : Int :=
  let got := arr.length
  let idx := arr.findIdx? (fun b => b &&& 0x80 = 0)
  let i := idx.getD got
  if i ≥ 5 then
    -1
  else if idx.isNone then
    1
  else
    match Bin.readVarint arr with
    | some (len, _) => Bin.wrap32 (len + i + 1 - got)
    | none => -1 -- not reached: byte `i` ends the number

/--
Why a stream cannot go on with a packet.
-/
inductive Stop where
  /-- five continuation bytes -/
  | invalid
  /-- the announced length is negative -/
  | negative
  /-- the packet would not fit the read buffer -/
  | tooBig
  /-- length and prefix together leave the range of `int` -/
  | huge
  deriving DecidableEq, Repr

/--
What a length prefix of `k` bytes that denotes `n` announces.
-/
def announce (n k : Nat) : Framing.Head Stop :=
  let total := Bin.int32 n + k
  if 5 < k then
    .stop .invalid
  else if Bin.int32 n < 0 then
    .stop .negative
  else if 2 ^ 31 ≤ total then
    .stop .huge
  else if (READ_BUFFER_SIZE : Int) < total then
    .stop .tooBig
  else
    .frame total.toNat

/--
What the length prefix at the head of a stream announces.
-/
def head (s : Bytes) : Framing.Head Stop :=
  match s.findIdx? (fun b => !Leb128.more b) with
  | some i => announce (Leb128.value (s.take (i + 1))) (i + 1)
  | none => if 5 ≤ s.length then .stop .invalid else .more

theorem head_of_terminated {bs : Bytes} (h : Leb128.Terminated bs) (rest : Bytes)
    : head (bs ++ rest) = announce (Leb128.value bs) bs.length := by
  have := h.length_pos
  have hlen : bs.length - 1 + 1 = bs.length := by omega
  rw [head, h.findIdx? rest]
  simp only [hlen, List.take_left]

theorem head_of_more {s : Bytes} (h : ∀ b ∈ s, Leb128.more b = true)
    : head s = if 5 ≤ s.length then .stop .invalid else .more := by
  rw [head, Leb128.findIdx?_of_more h]

theorem announce_ne_more (n k : Nat) : announce n k ≠ .more := by
  unfold announce
  dsimp
  repeat' split
  all_goals simp

/--
An announced frame includes its prefix and fits the buffer.
-/
theorem announce_eq_frame {n k total : Nat} (h : announce n k = .frame total)
    : k ≤ 5 ∧ 0 ≤ Bin.int32 n ∧ (total : Int) = Bin.int32 n + k ∧ total ≤ READ_BUFFER_SIZE := by
  unfold announce at h
  dsimp at h
  split at h
  . injection h
  . split at h
    . injection h
    . split at h
      . injection h
      . split at h
        . injection h
        . injection h with h
          omega

theorem head_eq_more_iff {s : Bytes}
    : head s = .more ↔ (∀ b ∈ s, Leb128.more b = true) ∧ s.length < 5 := by
  cases Leb128.exists_terminated_or_more s with
  | inl h =>
    rcases h with ⟨bs, rest, rfl, hbs⟩
    rw [head_of_terminated hbs]
    simp only [announce_ne_more, false_iff, not_and]
    intro hall
    exact absurd (fun b hb => hall b (List.mem_append_left _ hb)) hbs.not_all_more
  | inr h =>
    rw [head_of_more h]
    split
    . next hlen =>
      simp only [reduceCtorEq, false_iff, not_and]
      omega
    . next hlen =>
      simp only [true_iff]
      exact ⟨h, by omega⟩

theorem head_eq_huge_iff {s : Bytes}
    : head s = .stop .huge
        ↔
      ∃ bs rest, s = bs ++ rest ∧ Leb128.Terminated bs ∧ bs.length ≤ 5
        ∧ 2 ^ 31 ≤ Bin.int32 (Leb128.value bs) + bs.length := by
  constructor
  . intro h
    cases Leb128.exists_terminated_or_more s with
    | inl hs =>
      rcases hs with ⟨bs, rest, rfl, hbs⟩
      refine ⟨bs, rest, rfl, hbs, ?_⟩
      rw [head_of_terminated hbs] at h
      unfold announce at h
      dsimp only at h
      split at h
      . injection h with h
        injection h
      . split at h
        . injection h with h
          injection h
        . split at h
          . next hk _ hbig => exact ⟨by omega, hbig⟩
          . split at h
            . injection h with h
              injection h
            . injection h
    | inr hs =>
      rw [head_of_more hs] at h
      split at h
      . injection h with h
        injection h
      . injection h
  . rintro ⟨bs, rest, rfl, hbs, hk, hbig⟩
    rw [head_of_terminated hbs]
    unfold announce
    dsimp only
    rw [if_neg (by omega), if_neg (by omega), if_pos hbig]

/--
The framing the delimiter implements: a packet is its length as a varint and that many bytes.
-/
def framer : Framer UInt8 Stop where
  head := head
  frame_pos := by
    intro s n h
    cases Leb128.exists_terminated_or_more s with
    | inl hs =>
      rcases hs with ⟨bs, rest, rfl, hbs⟩
      rw [head_of_terminated hbs] at h
      have := announce_eq_frame h
      have := hbs.length_pos
      omega
    | inr hs =>
      rw [head_of_more hs] at h
      split at h <;> contradiction
  append_of_ne_more := by
    intro s h t
    cases Leb128.exists_terminated_or_more s with
    | inl hs =>
      rcases hs with ⟨bs, rest, rfl, hbs⟩
      rw [List.append_assoc, head_of_terminated hbs, head_of_terminated hbs]
    | inr hs =>
      have hlen : 5 ≤ s.length := by
        by_contra hlt
        exact h (head_eq_more_iff.mpr ⟨hs, by omega⟩)
      rw [head_of_more hs, if_pos hlen]
      cases Leb128.exists_terminated_or_more (s ++ t) with
      | inl hst =>
        rcases hst with ⟨bs, rest, heq, hbs⟩
        -- the number cannot end inside `s`
        have hlong : s.length < bs.length := by
          by_contra hle
          have hpre : bs <+: s := by
            have hbst : bs <+: s ++ t := by
              rw [heq]
              exact List.prefix_append bs rest
            exact List.prefix_of_prefix_length_le hbst (List.prefix_append s t) (by omega)
          exact hbs.not_all_more (fun b hb => hs b (hpre.subset hb))
        rw [heq, head_of_terminated hbs, announce, if_pos (by omega)]
      | inr hst =>
        rw [head_of_more hst, if_pos (by simp; omega)]
  take_of_frame := by
    intro s n h
    cases Leb128.exists_terminated_or_more s with
    | inl hs =>
      rcases hs with ⟨bs, rest, rfl, hbs⟩
      rw [head_of_terminated hbs] at h
      have := announce_eq_frame h
      have hle : bs.length ≤ n := by omega
      rw [List.take_append, List.take_of_length_le hle, head_of_terminated hbs, h]
    | inr hs =>
      rw [head_of_more hs] at h
      split at h <;> contradiction
  head_nil := rfl

theorem remaining_of_terminated {bs : Bytes} (h : Leb128.Terminated bs) (rest : Bytes)
    (hlen : bs.length ≤ 5)
    : remaining (bs ++ rest)
        =
      Bin.wrap32 (Bin.int32 (Leb128.value bs) - rest.length) := by
  have hidx := h.findIdx? rest
  have := h.length_pos
  simp only [Leb128.more, ne_eq, decide_not, Bool.not_not] at hidx
  unfold remaining
  simp only [hidx, Option.getD_some, Option.isNone_some, Bool.false_eq_true, ↓reduceIte,
    Bin.readVarint_of_terminated h rest hlen, List.length_append]
  have hrem : Bin.int32 (Leb128.value bs) + ((bs.length - 1 : Nat) : Int) + 1
        - ((bs.length + rest.length : Nat) : Int)
      = Bin.int32 (Leb128.value bs) - rest.length := by
    omega
  rw [if_neg (by omega), hrem]

theorem remaining_of_long {bs : Bytes} (h : Leb128.Terminated bs) (rest : Bytes)
    (hlen : 5 < bs.length) : remaining (bs ++ rest) = -1 := by
  have hidx := h.findIdx? rest
  simp only [Leb128.more, ne_eq, decide_not, Bool.not_not] at hidx
  unfold remaining
  simp only [hidx, Option.getD_some]
  rw [if_pos (by omega)]

theorem remaining_of_more {arr : Bytes} (h : ∀ b ∈ arr, Leb128.more b = true)
    : remaining arr = if 5 ≤ arr.length then -1 else 1 := by
  have hidx := Leb128.findIdx?_of_more h
  simp only [Leb128.more, ne_eq, decide_not, Bool.not_not] at hidx
  simp [remaining, hidx]

end Mc17PacketDelimiter

end HCraft
