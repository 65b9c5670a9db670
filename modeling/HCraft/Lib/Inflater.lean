import Mathlib.Data.List.Basic

/-!
This module contains streaming decompressors, as far as the documentation of zlib describes them: what
calls of `inflate` may do to a stream whose whole input has been handed over.
-/

inductive InflateResult where
  | streamEnd
  | ok
  | bufError
  /-- any other code -/
  | error
  deriving DecidableEq, Repr

/--
`inflate` is given the room there is for output, and gives what it has written.
-/
structure Inflater where
  State : Type
  init : List UInt8 → Option State
  totalIn : State → Nat
  totalOut : State → Nat
  inflate : State → Nat → InflateResult × List UInt8 × State

namespace Inflater

inductive Ending where
  | complete
  | truncated
  | corrupt
  deriving DecidableEq, Repr

/--
All that can be decompressed, and what comes after it.
-/
structure Decoded where
  out : List UInt8
  ending : Ending

/--
One call, with `room` bytes left for output: each one makes progress, unless there is no more input
or no room for output.
-/
structure Call (z : Inflater) (d : Decoded) (s : z.State) (room : Nat)
    (r : InflateResult × List UInt8 × z.State) : Prop where
  length_le : r.snd.fst.length ≤ room
  written : d.out.take (z.totalOut s) ++ r.snd.fst = d.out.take (z.totalOut r.snd.snd)
  totalOut : z.totalOut r.snd.snd = z.totalOut s + r.snd.fst.length
  totalIn : z.totalIn s ≤ z.totalIn r.snd.snd
  streamEnd : r.fst = .streamEnd →
    d.ending = .complete ∧ z.totalOut r.snd.snd = d.out.length
  error : r.fst = .error → d.ending = .corrupt ∧ z.totalOut r.snd.snd = d.out.length
  ok : r.fst = .ok → z.totalIn s < z.totalIn r.snd.snd ∨ z.totalOut s < z.totalOut r.snd.snd
  bufError : r.fst = .bufError → r.snd.fst = []
    ∧ ((room = 0 ∧ z.totalOut s < d.out.length)
      ∨ (d.ending = .truncated ∧ z.totalOut s = d.out.length))

/--
The states that belong to an input are `Of` it.
-/
structure Documented (z : Inflater) (decode : List UInt8 → Decoded)
    (Of : List UInt8 → z.State → Prop) : Prop where
  init : ∀ data s, z.init data = some s → Of data s ∧ z.totalOut s = 0
  totalIn_le : ∀ data s, Of data s → z.totalIn s ≤ data.length
  totalOut_le : ∀ data s, Of data s → z.totalOut s ≤ (decode data).out.length
  call : ∀ data s room, Of data s → Call z (decode data) s room (z.inflate s room)
  of_call : ∀ data s room, Of data s → Of data (z.inflate s room).snd.snd

/--
How much of the input has not been read yet, and how much of the output not been written.
-/
def left (z : Inflater) (data : List UInt8) (d : Decoded) (s : z.State) : Nat :=
  (data.length - z.totalIn s) + (d.out.length - z.totalOut s)

section Progress

variable {z : Inflater} {decode : List UInt8 → Decoded} {Of : List UInt8 → z.State → Prop}
variable {data : List UInt8} {s : z.State} {room : Nat}

theorem left_le (hz : z.Documented decode Of) (hs : Of data s) (room : Nat)
    : z.left data (decode data) (z.inflate s room).snd.snd ≤ z.left data (decode data) s := by
  have hcall := hz.call data s room hs
  have hin := hcall.totalIn
  have hout := hcall.totalOut
  unfold left
  omega

theorem left_lt_of_ok (hz : z.Documented decode Of) (hs : Of data s)
    (hok : (z.inflate s room).fst = .ok)
    : z.left data (decode data) (z.inflate s room).snd.snd < z.left data (decode data) s := by
  have hcall := hz.call data s room hs
  have hin := hcall.totalIn
  have hout := hcall.totalOut
  have hinLe := hz.totalIn_le data _ (hz.of_call data s room hs)
  have houtLe := hz.totalOut_le data _ (hz.of_call data s room hs)
  have hprogress := hcall.ok hok
  unfold left
  omega

end Progress

/--
A stream of the reference decompressor.
-/
structure Stream where
  data : List UInt8
  totalIn : Nat
  totalOut : Nat

/--
The reference decompressor reads all of its input at once, as soon as there is room for what comes
before the end.
-/
def ofDecode (decode : List UInt8 → Decoded) : Inflater where
  State := Stream
  init data := some { data, totalIn := 0, totalOut := 0 }
  totalIn s := s.totalIn
  totalOut s := s.totalOut
  inflate s room :=
    let d := decode s.data
    let w := (d.out.drop s.totalOut).take room
    let totalOut := s.totalOut + w.length
    if totalOut < d.out.length then
      (if w = [] then .bufError else .ok, w, { s with totalOut })
    else
      let result :=
        match d.ending with
        | .complete => .streamEnd
        | .corrupt => .error
        | .truncated => if w = [] ∧ s.totalIn = s.data.length then .bufError else .ok
      (result, w, { s with totalIn := s.data.length, totalOut })

def Stream.Of (decode : List UInt8 → Decoded) (data : List UInt8) (s : Stream) : Prop :=
  s.data = data ∧ s.totalIn ≤ data.length ∧ s.totalOut ≤ (decode data).out.length

section Reference

variable {decode : List UInt8 → Decoded} {data : List UInt8} {s : Stream} {room : Nat}

theorem take_append_take_drop (out : List UInt8) (n room : Nat)
    : out.take n ++ (out.drop n).take room
        = out.take (n + ((out.drop n).take room).length) := by
  rw [List.take_add]
  congr 1
  apply List.take_eq_take_iff.mpr
  simp

theorem inflate_ofDecode_full (hs : s.Of decode data)
    (hfull : s.totalOut + (((decode data).out.drop s.totalOut).take room).length
      < (decode data).out.length)
    : (ofDecode decode).inflate s room
        = (if ((decode data).out.drop s.totalOut).take room = [] then .bufError else .ok,
            ((decode data).out.drop s.totalOut).take room,
            { s with
              totalOut := s.totalOut + (((decode data).out.drop s.totalOut).take room).length }) := by
  have hdata := hs.left
  unfold ofDecode
  dsimp only
  rw [hdata, if_pos hfull]

theorem inflate_ofDecode_end (hs : s.Of decode data)
    (hfull : ¬ s.totalOut + (((decode data).out.drop s.totalOut).take room).length
      < (decode data).out.length)
    : (ofDecode decode).inflate s room
        = (match (decode data).ending with
            | .complete => .streamEnd
            | .corrupt => .error
            | .truncated =>
              if ((decode data).out.drop s.totalOut).take room = [] ∧ s.totalIn = data.length then
                .bufError
              else
                .ok,
            ((decode data).out.drop s.totalOut).take room,
            { s with
              totalIn := data.length
              totalOut := s.totalOut + (((decode data).out.drop s.totalOut).take room).length }) := by
  have hdata := hs.left
  unfold ofDecode
  dsimp only
  rw [hdata, if_neg hfull]

theorem call_ofDecode (hs : s.Of decode data)
    : Call (ofDecode decode) (decode data) s room ((ofDecode decode).inflate s room) := by
  have ⟨hdata, hin, hout⟩ := hs
  have hlength : (((decode data).out.drop s.totalOut).take room).length
      = min room ((decode data).out.length - s.totalOut) := by
    rw [List.length_take, List.length_drop]
  have hwritten := take_append_take_drop (decode data).out s.totalOut room
  by_cases hfull : s.totalOut + (((decode data).out.drop s.totalOut).take room).length
      < (decode data).out.length
  . rw [inflate_ofDecode_full hs hfull]
    generalize hw : ((decode data).out.drop s.totalOut).take room = w at *
    constructor
    . dsimp only
      omega
    . exact hwritten
    . rfl
    . exact Nat.le_refl _
    . intro h
      dsimp only at h
      split at h <;> cases h
    . intro h
      dsimp only at h
      split at h <;> cases h
    . intro h
      dsimp only at h
      split at h
      . cases h
      . next hne =>
        right
        have hpos := List.length_pos_iff.mpr hne
        dsimp only [ofDecode]
        omega
    . intro h
      dsimp only at h
      split at h
      . next hnil =>
        refine ⟨hnil, .inl ⟨?_, ?_⟩⟩
        . rw [hnil, List.length_nil] at hlength hfull
          omega
        . dsimp only [ofDecode]
          omega
      . cases h
  . rw [inflate_ofDecode_end hs hfull]
    generalize hw : ((decode data).out.drop s.totalOut).take room = w at *
    have hend : s.totalOut + w.length = (decode data).out.length := by omega
    constructor
    . dsimp only
      omega
    . exact hwritten
    . rfl
    . exact hin
    . intro h
      cases hending : (decode data).ending with
      | complete => exact ⟨rfl, hend⟩
      | truncated =>
        simp only [hending] at h
        split at h <;> cases h
      | corrupt => simp [hending] at h
    . intro h
      cases hending : (decode data).ending with
      | complete => simp [hending] at h
      | truncated =>
        simp only [hending] at h
        split at h <;> cases h
      | corrupt => exact ⟨rfl, hend⟩
    . intro h
      cases hending : (decode data).ending with
      | complete => simp [hending] at h
      | truncated =>
        simp only [hending] at h
        split at h
        . cases h
        . next hmore =>
          dsimp only [ofDecode]
          by_cases hnil : w = []
          . left
            have hne : s.totalIn ≠ data.length := fun heq => hmore ⟨hnil, heq⟩
            omega
          . right
            have hpos := List.length_pos_iff.mpr hnil
            omega
      | corrupt => simp [hending] at h
    . intro h
      cases hending : (decode data).ending with
      | complete => simp [hending] at h
      | truncated =>
        simp only [hending] at h
        split at h
        . next hdone =>
          refine ⟨hdone.left, .inr ⟨rfl, ?_⟩⟩
          rw [hdone.left] at hend
          exact hend
        . cases h
      | corrupt => simp [hending] at h

theorem documented_ofDecode (decode : List UInt8 → Decoded)
    : (ofDecode decode).Documented decode (Stream.Of decode) where
  init data s hs := by
    injection hs with hs
    rw [← hs]
    exact ⟨⟨rfl, Nat.zero_le _, Nat.zero_le _⟩, rfl⟩
  totalIn_le data s hs := hs.right.left
  totalOut_le data s hs := hs.right.right
  call data s room hs := call_ofDecode hs
  of_call data s room hs := by
    have ⟨hdata, hin, hout⟩ := hs
    have hlength : (((decode data).out.drop s.totalOut).take room).length
        ≤ (decode data).out.length - s.totalOut := by
      rw [List.length_take, List.length_drop]
      exact Nat.min_le_right ..
    by_cases hfull : s.totalOut + (((decode data).out.drop s.totalOut).take room).length
        < (decode data).out.length
    . rw [inflate_ofDecode_full hs hfull]
      exact ⟨hdata, hin, Nat.le_of_lt hfull⟩
    . rw [inflate_ofDecode_end hs hfull]
      refine ⟨hdata, Nat.le_refl _, ?_⟩
      dsimp only
      omega

end Reference

end Inflater
