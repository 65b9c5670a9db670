import HCraft.Lib.Heap
import HCraft.Util.Binary
import HCraft.Util.Fault
import HCraft.World.Lighting.LightChunk
import HCraft.World.World
import Mathlib.Data.List.AList

/-!
This module contains the chunks of a world as objects in memory: the map from packed coordinates to
chunks, the edge chunk, and the pointers between neighbours.
-/

namespace HCraft

/--
The horizontal directions.
-/
inductive Direction where
  | north
  | west
  | south
  | east
  deriving DecidableEq, Repr

namespace Direction

def opposite : Direction → Direction
  | north => south
  | west => east
  | south => north
  | east => west

@[simp]
theorem opposite_opposite (d : Direction) : d.opposite.opposite = d := by
  cases d <;> rfl

end Direction

/--
The position next to a chunk, in `int` arithmetic.
-/
def ChunkPos.shift (pos : ChunkPos) : Direction → ChunkPos
  | .north => ⟨pos.x, Bin.wrap32 (pos.z - 1)⟩
  | .west => ⟨Bin.wrap32 (pos.x - 1), pos.z⟩
  | .south => ⟨pos.x, Bin.wrap32 (pos.z + 1)⟩
  | .east => ⟨Bin.wrap32 (pos.x + 1), pos.z⟩

structure ChunkObject where
  chunk : Chunk
  neighbours : Direction → Option Nat

def ChunkObject.new (ch : Chunk) : ChunkObject :=
  { chunk := ch, neighbours := fun _ => none }

def ChunkObject.setNeighbour (obj : ChunkObject) (d : Direction) (ch : Option Nat) : ChunkObject :=
  { obj with neighbours := Function.update obj.neighbours d ch }

/--
A generator fills the chunk that it is given.
-/
structure WorldGenerator where
  generate : Chunk → Chunk
  pos_generate : ∀ ch, (generate ch).pos = ch.pos

/--
The generator of empty chunks.
-/
def WorldGenerator.empty : WorldGenerator :=
  { generate := fun ch => ch, pos_generate := fun _ => rfl }

structure WorldMemory where
  width : Int
  depth : Int
  edgeCh : Nat
  chunks : AList (fun _ : Nat => Nat)
  heap : Heap ChunkObject

namespace WorldMemory

/--
The key of a chunk, with `x` in the lower half and `z` in the upper one.
-/
def index (x z : Int) : Nat :=
  Bin.unsigned32 x ||| Bin.unsigned32 z <<< 32

/--
The world before its first chunk is loaded. `edge` is what `prepare_oob_chunk` makes.
-/
def new (width depth : Int) (edge : Chunk) : WorldMemory where
  width := width
  depth := depth
  edgeCh := (Heap.empty : Heap ChunkObject).next
  chunks := ∅
  heap := Heap.empty.alloc (.new edge)

def prepareOobChunk (gen : Chunk → Chunk) : Chunk :=
  (gen (.new 0 0)).lightChunk

variable (m : WorldMemory)

/--
The chunks by their coordinates.
-/
def world : World Nat where
  width := m.width
  depth := m.depth
  edgeCh := m.edgeCh
  chunks := fun x z => m.chunks.lookup (index x z)

def getChunk (x z : Int) : Option Nat :=
  m.world.getChunk x z

def get (ch : Nat) : Except Fault ChunkObject :=
  match m.heap.get ch with
  | none => .error .useAfterFree
  | some obj => .ok obj

/--
Changing a chunk in place.
-/
def edit (ch : Nat) (f : Chunk → Chunk) : WorldMemory :=
  { m with heap := m.heap.modify ch (fun obj => { obj with chunk := f obj.chunk }) }

def editChunk (ch : Nat) (f : Chunk → Chunk) : Except Fault WorldMemory := do
  let _ ← m.get ch
  return m.edit ch f

def setNeighbour (ch : Nat) (d : Direction) (nch : Option Nat) : Except Fault WorldMemory := do
  let _ ← m.get ch
  return { m with heap := m.heap.modify ch (·.setNeighbour d nch) }

def delete (ch : Nat) : Except Fault WorldMemory := do
  let _ ← m.get ch
  return { m with heap := m.heap.free ch }

/--
A chunk and the one next to it get to know each other.
-/
def link (ch : Nat) (d : Direction) (pos : ChunkPos) : Except Fault WorldMemory := do
  let nch := m.getChunk pos.x pos.z
  let m ← m.setNeighbour ch d nch
  match nch with
  | none => return m
  | some nch => m.setNeighbour nch d.opposite (some ch)

def setChunkNeighbours (ch : Nat) : Except Fault WorldMemory := do
  let obj ← m.get ch
  let pos := obj.chunk.pos
  let m ← m.link ch .east (pos.shift .east)
  let m ← m.link ch .west (pos.shift .west)
  let m ← m.link ch .south (pos.shift .south)
  m.link ch .north (pos.shift .north)

/--
`new chunk`
-/
def alloc (ch : Chunk) : Nat × WorldMemory :=
  (m.heap.next, { m with heap := m.heap.alloc (.new ch) })

def insert (k ch : Nat) : WorldMemory :=
  { m with chunks := m.chunks.insert k ch }

def putChunk (ch : Nat) : Except Fault WorldMemory := do
  let obj ← m.get ch
  let k := index obj.chunk.pos.x obj.chunk.pos.z
  let m ← match m.chunks.lookup k with
    | some old => m.delete old
    | none => pure m
  (m.insert k ch).setChunkNeighbours ch

/--
A chunk nobody knew of so far takes its place.
-/
def addChunk (x z : Int) (ch : Chunk) : Except Fault (Nat × WorldMemory) := do
  let (ch, m) := m.alloc ch
  let m ← (m.insert (index x z) ch).setChunkNeighbours ch
  return (ch, m)

/--
`prov` is what the provider returns, nothing if it has no such chunk, fails or does not exist.
-/
def loadChunk (prov : Option Chunk) (gen : WorldGenerator) (x z : Int)
    : Except Fault (Nat × WorldMemory) :=
  if m.world.OutOfBounds x z then
    .ok (m.edgeCh, m)
  else
    match m.chunks.lookup (index x z) with
    | some ch => .ok (ch, m)
    | none =>
      match prov with
      | some ch => m.addChunk x z ch
      | none => do
        let (ch, m) ← m.addChunk x z (gen.generate (.new x z))
        let m ← m.editChunk ch Chunk.lightChunk
        return (ch, m)

end WorldMemory

end HCraft
