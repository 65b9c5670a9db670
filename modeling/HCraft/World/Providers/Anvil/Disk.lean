import HCraft.World.Providers.Anvil.Load

/-!
This module contains the whole of `save_chunk`, from the chunk to the region file.
-/

namespace HCraft

namespace AnvilWorldProvider

/--
`save_chunk`. `compress` is `nbt_writer::write` with `NBT_ZLIB`.
-/
def saveToDisk (compress : Bytes → Bytes) (prov : AnvilWorldProvider) (ch : Chunk)
    : Except Fault AnvilWorldProvider := do
  let data ← ChunkNbt.makeChunkData compress ch
  prov.saveChunk ch.pos.x ch.pos.z data

/--
One after another.
-/
def saveAllToDisk (compress : Bytes → Bytes) (prov : AnvilWorldProvider) (chs : List Chunk)
    : Except Fault AnvilWorldProvider :=
  chs.foldlM (saveToDisk compress) prov

/--
The last of the chunks at each position.
-/
def lastChunk (chs : List Chunk) : Int × Int → Option Chunk :=
  chs.foldl (fun chunks ch => Function.update chunks (ch.pos.x, ch.pos.z) (some ch)) (fun _ => none)

end AnvilWorldProvider

end HCraft
