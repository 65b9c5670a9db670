import HCraft.World.Lighting.Impl

/-!
This module contains the functions of a world that read and write single blocks, and `save_all`.
-/

namespace HCraft

/--
The chunks that a provider has on disk.
-/
structure ChunkStore where
  chunks : ChunkPos → Option Chunk

/--
`reload` is what a chunk is when it comes back from disk.
-/
def ChunkStore.saveChunk (store : ChunkStore) (reload : Chunk → Chunk) (ch : Chunk) : ChunkStore :=
  { chunks := Function.update store.chunks ch.pos (some (reload ch)) }

namespace WorldMemory

variable (m : WorldMemory)

def getId (p : BlockPos) : Except Fault UInt16 :=
  match m.getChunk p.chunkPos.x p.chunkPos.z with
  | none => .ok 0
  | some ch => do
    let obj ← m.get ch
    return obj.chunk.getId p.bx p.y p.bz

/--
`chs` are the chunks that are still to be saved.
-/
def saveChunks (reload : Chunk → Chunk) : List Nat → ChunkStore → Except Fault ChunkStore
  | [], store => .ok store
  | ch :: chs, store => do
    let obj ← m.get ch
    saveChunks reload chs (store.saveChunk reload obj.chunk)

/--
The loop of `save_all`, in whatever order the map has its entries.
-/
def saveAll (reload : Chunk → Chunk) (store : ChunkStore) : Except Fault ChunkStore :=
  m.saveChunks reload (m.chunks.entries.map (·.2)) store

/--
`set_id` and `set_id_and_meta` up to the lighting update. `f` is what they do to the chunk, nothing is
returned where they write nothing.
-/
def write (prov : Option Chunk) (gen : WorldGenerator) (p : BlockPos) (id : UInt16)
    (f : Chunk → Chunk) : Except Fault (Option WorldMemory) :=
  match m.getChunk p.chunkPos.x p.chunkPos.z with
  | some ch => do
    let m ← m.editChunk ch f
    return some m
  | none =>
    if id = 0 then
      .ok none
    else do
      let (ch, m) ← m.loadChunk prov gen p.chunkPos.x p.chunkPos.z
      let m ← m.editChunk ch f
      return some m

end WorldMemory

namespace Lighting

variable (s : Lighting)

/--
Queues an update. That starts with a call, which is left to be made.
-/
def enqueue (p : BlockPos) : Lighting :=
  { s with calls := p :: s.calls }

def update (prov : Option Chunk) (gen : WorldGenerator) (p : BlockPos) (id : UInt16)
    (f : Chunk → Chunk) : Except Fault Lighting := do
  match ← s.mem.write prov gen p id f with
  | none => return s
  | some mem => return { s with mem }.enqueue p

def setId (prov : Option Chunk) (gen : WorldGenerator) (p : BlockPos) (id : UInt16)
    : Except Fault Lighting :=
  s.update prov gen p id (·.setId p.bx p.y p.bz id)

def setIdAndMeta (prov : Option Chunk) (gen : WorldGenerator) (p : BlockPos) (id : UInt16)
    (val : UInt8) : Except Fault Lighting :=
  s.update prov gen p id (·.setIdAndMeta p.bx p.y p.bz id val)

end Lighting

end HCraft
