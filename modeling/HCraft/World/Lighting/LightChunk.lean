import HCraft.World.Chunk.Impl

/-!
This module contains `light_chunk`, which lights a chunk without looking at its neighbours.
-/

namespace HCraft

namespace Chunk

/--
The loop over the blocks above the height `h` of a column, from `y - 1` downwards.
-/
def lightAbove (ch : Chunk) (x z : Fin 16) (h : Int) : (y : Nat) → y ≤ 256 → Nat → Chunk
  | 0, _, _ => ch
  | y + 1, hy, sl =>
    if (y : Int) ≥ h then
      let sl :=
        match BlockInfo.fromId (ch.getId x ⟨y, hy⟩ z) with
        | some binf => sl - binf.opacity
        | none => sl
      lightAbove (ch.setSkyLight x ⟨y, hy⟩ z (UInt8.ofNat sl)) x z h y (le_height_of_succ_le hy) sl
    else
      ch

/--
The loop over the blocks below.
-/
def lightBelow (ch : Chunk) (x z : Fin 16) : (y : Nat) → y ≤ 256 → Chunk
  | 0, _ => ch
  | y + 1, hy => lightBelow (ch.setSkyLight x ⟨y, hy⟩ z 0) x z y (le_height_of_succ_le hy)

/--
Heights lie between 0 and 256.
-/
def lightColumn (ch : Chunk) (x z : Fin 16) : Chunk :=
  let ch := ch.setSkyLight x 255 z 15
  let h := ch.getHeight x z
  let ch := ch.lightAbove x z h 255 (by omega) 15
  ch.lightBelow x z (min h.toNat 256) (Nat.min_le_right _ _)

def lightChunk (ch : Chunk) : Chunk :=
  (List.finRange 16).foldl
    (fun ch x => (List.finRange 16).foldl (fun ch z => ch.lightColumn x z) ch) ch

end Chunk

end HCraft
