import HCraft.Lib.Framing
import HCraft.Lib.Leb128

/-!
This module contains the framing in which every frame is the length of its body as a numeral and
then the body.
-/

namespace Leb128

open Framing

def head (s : List UInt8) : Head Empty :=
  match s.findIdx? (fun b => !more b) with
  | some i => .frame (i + 1 + value (s.take (i + 1)))
  | none => .more

theorem head_of_terminated {bs : List UInt8} (h : Terminated bs) (rest : List UInt8)
    : head (bs ++ rest) = .frame (bs.length + value bs) := by
  have := h.length_pos
  have hlen : bs.length - 1 + 1 = bs.length := by omega
  rw [head, h.findIdx? rest]
  simp only [hlen, List.take_left]

theorem head_of_more {s : List UInt8} (h : ∀ b ∈ s, more b = true) : head s = .more := by
  rw [head, findIdx?_of_more h]

theorem head_eq_more_iff {s : List UInt8} : head s = .more ↔ ∀ b ∈ s, more b = true := by
  constructor
  . intro h
    cases exists_terminated_or_more s with
    | inl hs =>
      rcases hs with ⟨bs, rest, rfl, hbs⟩
      rw [head_of_terminated hbs] at h
      injection h
    | inr hs => exact hs
  . exact head_of_more

theorem head_eq_frame_iff {s : List UInt8} {n : Nat}
    : head s = .frame n
        ↔
      ∃ bs rest, s = bs ++ rest ∧ Terminated bs ∧ n = bs.length + value bs := by
  constructor
  . intro h
    cases exists_terminated_or_more s with
    | inl hs =>
      rcases hs with ⟨bs, rest, rfl, hbs⟩
      rw [head_of_terminated hbs] at h
      injection h with h
      exact ⟨bs, rest, rfl, hbs, h.symm⟩
    | inr hs =>
      rw [head_of_more hs] at h
      injection h
  . rintro ⟨bs, rest, rfl, hbs, rfl⟩
    exact head_of_terminated hbs rest

def framer : Framer UInt8 Empty where
  head := head
  frame_pos := by
    intro s n h
    obtain ⟨bs, rest, _, hbs, hn⟩ := head_eq_frame_iff.mp h
    have := hbs.length_pos
    omega
  append_of_ne_more := by
    intro s h t
    cases exists_terminated_or_more s with
    | inl hs =>
      rcases hs with ⟨bs, rest, rfl, hbs⟩
      rw [List.append_assoc, head_of_terminated hbs, head_of_terminated hbs]
    | inr hs => exact absurd (head_of_more hs) h
  take_of_frame := by
    intro s n h
    obtain ⟨bs, rest, hs, hbs, hn⟩ := head_eq_frame_iff.mp h
    have hle : bs.length ≤ n := by omega
    rw [hs, List.take_append, List.take_of_length_le hle, head_of_terminated hbs, hn]
  head_nil := rfl

theorem isFrame_encode_append (body : List UInt8)
    : framer.IsFrame (encode body.length ++ body) := by
  show head (encode body.length ++ body) = .frame (encode body.length ++ body).length
  rw [head_of_terminated (terminated_encode _), value_encode, List.length_append]

end Leb128
