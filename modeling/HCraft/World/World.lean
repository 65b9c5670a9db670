import Mathlib.Data.Int.Notation
import Mathlib.Logic.Function.Basic

/-!
This module contains the chunks of a world and how they are looked up and loaded.
-/

namespace HCraft

/--
The chunks that are in memory. `edgeCh` stands for all chunks out of bounds.
-/
structure World (κ : Type) where
  width : Int
  depth : Int
  edgeCh : κ
  chunks : Int → Int → Option κ

namespace World

variable {κ : Type} (w : World κ)

def getChunk (x z : Int) : Option κ :=
  if w.width > -1 ∧ (x < 0 ∨ x ≥ w.width >>> (4 : Nat)) then
    some w.edgeCh
  else if w.depth > -1 ∧ (z < 0 ∨ z ≥ w.depth >>> (4 : Nat)) then
    some w.edgeCh
  else
    w.chunks x z

/--
Where all chunks are the edge chunk.
-/
def OutOfBounds (x z : Int) : Prop :=
  (w.width > -1 ∧ (x < 0 ∨ x ≥ w.width >>> (4 : Nat)))
    ∨ (w.depth > -1 ∧ (z < 0 ∨ z ≥ w.depth >>> (4 : Nat)))

instance (x z : Int) : Decidable (w.OutOfBounds x z) :=
  inferInstanceAs (Decidable (_ ∨ _))

def insert (x z : Int) (ch : κ) : World κ :=
  { w with chunks := Function.update w.chunks x (Function.update (w.chunks x) z (some ch)) }

/--
`prov` is what the provider has for the chunk, `gen` what the generator makes of it.
-/
def loadChunk (x z : Int) (prov : Option κ) (gen : κ) : κ × World κ :=
  if w.width > -1 ∧ (x < 0 ∨ x ≥ w.width >>> (4 : Nat)) then
    (w.edgeCh, w)
  else if w.depth > -1 ∧ (z < 0 ∨ z ≥ w.depth >>> (4 : Nat)) then
    (w.edgeCh, w)
  else
    match w.chunks x z with
    | some ch => (ch, w)
    | none =>
      match prov with
      | some ch => (ch, w.insert x z ch)
      | none => (gen, w.insert x z gen)

variable {w}

theorem getChunk_eq (x z : Int)
    : w.getChunk x z = if w.OutOfBounds x z then some w.edgeCh else w.chunks x z := by
  unfold getChunk OutOfBounds
  split
  . next h => simp [h]
  . next hx =>
    split
    . next h => simp [h]
    . next hz => simp [hx, hz]

theorem getChunk_insert (x z : Int) (ch : κ) (x' z' : Int)
    : (w.insert x z ch).getChunk x' z' = w.getChunk x' z'
        ∨ (x' = x ∧ z' = z ∧ (w.insert x z ch).getChunk x' z' = some ch) := by
  by_cases hx : x' = x
  . by_cases hz : z' = z
    . subst hx hz
      unfold getChunk
      split
      . next h => exact .inl (if_pos h).symm
      . next hx =>
        split
        . next h => exact .inl ((if_neg hx).trans (if_pos h)).symm
        . right
          simp [insert]
    . left
      subst hx
      simp [getChunk, insert, hz]
  . left
    simp [getChunk, insert, hx]

theorem getChunk_loadChunk (x z : Int) (prov : Option κ) (gen : κ)
    : (w.loadChunk x z prov gen).2.getChunk x z = some (w.loadChunk x z prov gen).1 := by
  unfold loadChunk
  split
  . next h => rw [getChunk, if_pos h]
  . next hx =>
    split
    . next h => rw [getChunk, if_neg hx, if_pos h]
    . next hz =>
      split
      . next ch h =>
        rw [getChunk, if_neg hx, if_neg hz]
        exact h
      . cases prov with
        | some ch =>
          rw [getChunk, if_neg (by exact hx), if_neg (by exact hz)]
          simp [insert]
        | none =>
          rw [getChunk, if_neg (by exact hx), if_neg (by exact hz)]
          simp [insert]

theorem getChunk_loadChunk_of_some {x' z' : Int} {ch : κ} (h : w.getChunk x' z' = some ch)
    (x z : Int) (prov : Option κ) (gen : κ)
    : (w.loadChunk x z prov gen).2.getChunk x' z' = some ch := by
  have hinsert (hmissing : w.getChunk x z = none) (ch' : κ)
      : (w.insert x z ch').getChunk x' z' = some ch := by
    cases w.getChunk_insert x z ch' x' z' with
    | inl hsame => rw [hsame, h]
    | inr hhere =>
      rw [hhere.1, hhere.2.1, hmissing] at h
      injection h
  unfold loadChunk
  split
  . exact h
  . next hx =>
    split
    . exact h
    . next hz =>
      split
      . exact h
      . next hnone =>
        have hmissing : w.getChunk x z = none := by rw [getChunk, if_neg hx, if_neg hz, hnone]
        cases prov with
        | some ch' => exact hinsert hmissing ch'
        | none => exact hinsert hmissing gen

end World

end HCraft
