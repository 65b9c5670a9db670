import Mathlib.Data.List.Nodup

/-!
This module contains a codec that goes by samples of what another one does.
-/

/--
Some bytes, and what they are encoded as.
-/
structure CodecSample where
  plain : List UInt8
  wire : List UInt8

namespace CodecSample

/--
What there is no sample of gets a zero in front.
-/
def encode (samples : List CodecSample) (data : List UInt8) : List UInt8 :=
  match samples.find? (fun s => s.plain = data) with
  | some s => s.wire
  | none => 0 :: data

def decode (samples : List CodecSample) (data : List UInt8) : List UInt8 :=
  match samples.find? (fun s => s.wire = data) with
  | some s => s.plain
  | none => data.tail

/--
Nothing that is encoded stands for two things.
-/
structure Sound (samples : List CodecSample) : Prop where
  head : ∀ s ∈ samples, s.wire.head? ≠ some 0
  plain : ∀ s ∈ samples, ∀ s' ∈ samples, s.wire = s'.wire → s.plain = s'.plain

variable {samples all : List CodecSample}

theorem Sound.of_wires (hhead : ∀ w ∈ samples.map wire, w.head? ≠ some 0)
    (hnodup : (samples.map wire).Nodup) : Sound samples where
  head := fun s hs => hhead s.wire (List.mem_map_of_mem hs)
  plain := fun _ hs _ hs' heq => congrArg CodecSample.plain (List.inj_on_of_nodup_map hnodup hs hs' heq)

theorem encode_cases (samples : List CodecSample) (data : List UInt8)
    : encode samples data = 0 :: data
        ∨ ∃ s ∈ samples, s.plain = data ∧ encode samples data = s.wire := by
  unfold encode
  cases hfind : samples.find? (fun s => s.plain = data) with
  | none => exact Or.inl rfl
  | some s =>
    have hplain : s.plain = data := by simpa using List.find?_some hfind
    exact Or.inr ⟨s, List.mem_of_find?_eq_some hfind, hplain, rfl⟩

theorem decode_zero_cons (h : Sound samples) (data : List UInt8)
    : decode samples (0 :: data) = data := by
  unfold decode
  cases hfind : samples.find? (fun s => s.wire = 0 :: data) with
  | none => rfl
  | some s =>
    have hwire : s.wire = 0 :: data := by simpa using List.find?_some hfind
    exact absurd (congrArg List.head? hwire) (h.head s (List.mem_of_find?_eq_some hfind))

theorem decode_wire (h : Sound samples) {s : CodecSample} (hs : s ∈ samples)
    : decode samples s.wire = s.plain := by
  unfold decode
  cases hfind : samples.find? (fun s' => s'.wire = s.wire) with
  | none =>
    have hno := List.find?_eq_none.mp hfind s hs
    simp at hno
  | some s' =>
    have hwire : s'.wire = s.wire := by simpa using List.find?_some hfind
    exact h.plain s' (List.mem_of_find?_eq_some hfind) s hs hwire

/--
The decoder may know more samples than the encoder.
-/
theorem decode_encode (h : Sound all) (hsub : samples ⊆ all) (data : List UInt8)
    : decode all (encode samples data) = data := by
  cases encode_cases samples data with
  | inl hzero =>
    rw [hzero]
    exact decode_zero_cons h data
  | inr hsample =>
    obtain ⟨s, hs, hplain, hwire⟩ := hsample
    rw [hwire, decode_wire h (hsub hs), hplain]

end CodecSample
