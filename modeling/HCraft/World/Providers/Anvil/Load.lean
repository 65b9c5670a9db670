import HCraft.Util.Nbt.Compressed
import HCraft.World.Providers.Anvil.ChunkNbt

/-!
This module contains the whole of `load_chunk`, from the region file to the chunk.
-/

namespace HCraft

namespace AnvilWorldProvider

/--
What becomes of the result of the NBT reader.
-/
def finishLoad (r : Except NbtError (Bytes × List (Bytes × NbtTag Unit)))
    : Except LoadError (Option Chunk) :=
  match r with
  | .error (.readError what) => .error (.worldLoadError ("corrupt NBT (" ++ what ++ ")"))
  | .error (.fault fault) => .error (.fault fault)
  | .ok (_, root) => (ChunkNbt.loadChunkFromNbt root).map some

/--
`load_chunk`. There is no result if decompressing takes more than `fuel` calls of `inflate`.
-/
def loadFromDisk (zl : Inflater) (fuel : Nat) (prov : AnvilWorldProvider) (x z : Int)
    : Option (Except LoadError (Option Chunk)) :=
  match prov.loadChunk x z with
  | .error err => some (.error err)
  | .ok none => some (.ok none)
  | .ok (some (st, data)) => (NbtReader.read zl fuel data st).map finishLoad

/--
The `try` block of `world::load_chunk`.
-/
def catchLoadError (r : Except LoadError (Option Chunk)) : Except LoadError (Option Chunk) :=
  match r with
  | .error (.worldLoadError _) => .ok none
  | r => r

end AnvilWorldProvider

end HCraft
