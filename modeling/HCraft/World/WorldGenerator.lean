import HCraft.World.Chunk.Lemmas.Height
import HCraft.World.Memory.Impl
import HCraft.World.Providers.Anvil.ChunkNbt

/-!
This module contains the generators of the server, of which there is one, and what they make of the edge
of a world.
-/

namespace HCraft

namespace Chunk

/--
The blocks at the height `y`.
-/
def fillLayer (ch : Chunk) (y : Fin 256) (id : UInt16) : Chunk :=
  (List.finRange 16).foldl
    (fun ch x => (List.finRange 16).foldl (fun ch z => ch.setId x y z id) ch) ch

/--
The loop over the heights from `lo` on, of which there are `n`.
-/
def fillLayers (ch : Chunk) (lo n : Nat) (h : lo + n ≤ 256) (id : UInt16) : Chunk :=
  (List.finRange n).foldl (fun ch y => ch.fillLayer ⟨lo + y.val, by omega⟩ id) ch

theorem pos_foldl {α : Type} {f : Chunk → α → Chunk} (hf : ∀ ch a, (f ch a).pos = ch.pos) (as : List α)
    (ch : Chunk) : (as.foldl f ch).pos = ch.pos := by
  induction as generalizing ch with
  | nil => rfl
  | cons a as ih => rw [List.foldl_cons, ih, hf]

@[simp]
theorem pos_fillLayer (ch : Chunk) (y : Fin 256) (id : UInt16) : (ch.fillLayer y id).pos = ch.pos := by
  unfold fillLayer
  apply pos_foldl
  intro ch x
  apply pos_foldl
  intro ch z
  exact pos_setId

@[simp]
theorem pos_fillLayers (ch : Chunk) (lo n : Nat) (h : lo + n ≤ 256) (id : UInt16)
    : (ch.fillLayers lo n h id).pos = ch.pos := by
  unfold fillLayers
  apply pos_foldl
  intro ch y
  exact pos_fillLayer ch _ id

end Chunk

namespace WorldGenerator

def generateFlatgrass (ch : Chunk) : Chunk :=
  let ch := ch.fillLayers 0 58 (by decide) 1 -- BT_STONE
  let ch := ch.fillLayers 58 6 (by decide) 3 -- BT_DIRT
  ch.fillLayer 64 2 -- BT_GRASS

theorem pos_generateFlatgrass (ch : Chunk) : (generateFlatgrass ch).pos = ch.pos :=
  -- every step is given, or else the layers would be filled to compare the positions
  calc (generateFlatgrass ch).pos
    _ = (((ch.fillLayers 0 58 (by decide) 1).fillLayers 58 6 (by decide) 3).fillLayer 64 2).pos :=
        congrArg Chunk.pos rfl
    _ = ((ch.fillLayers 0 58 (by decide) 1).fillLayers 58 6 (by decide) 3).pos :=
        Chunk.pos_fillLayer _ _ _
    _ = (ch.fillLayers 0 58 (by decide) 1).pos := Chunk.pos_fillLayers _ _ _ _ _
    _ = ch.pos := Chunk.pos_fillLayers _ _ _ _ _

def flatgrass : WorldGenerator :=
  { generate := generateFlatgrass, pos_generate := pos_generateFlatgrass }

/--
The generator with the given name, if there is one.
-/
def create (name : Bytes) : Option WorldGenerator :=
  if cstr name = ascii "flatgrass" then some flatgrass else none

def generateEdge (ch : Chunk) : Chunk :=
  let ch := ch.fillLayers 0 64 (by decide) 7 -- BT_BEDROCK
  ch.fillLayer 64 9 -- BT_STILL_WATER

end WorldGenerator

end HCraft
