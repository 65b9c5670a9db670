import HCraft.World.Memory.Impl

/-!
This module contains the lighting manager: its queue of updates and the propagation of sky light.
-/

namespace HCraft

/--
A position whose horizontal coordinates are values of an `int`.
-/
structure BlockPos where
  x : Int
  y : Fin 256
  z : Int
  hx : -2 ^ 31 ≤ x ∧ x < 2 ^ 31
  hz : -2 ^ 31 ≤ z ∧ z < 2 ^ 31
  deriving DecidableEq

namespace BlockPos

variable (p : BlockPos)

/--
The position of the chunk that has the block.
-/
def chunkPos : ChunkPos :=
  ⟨p.x >>> (4 : Nat), p.z >>> (4 : Nat)⟩

/--
`x & 15`
-/
def bx : Fin 16 :=
  ⟨(p.x % 16).toNat, by omega⟩

def bz : Fin 16 :=
  ⟨(p.z % 16).toNat, by omega⟩

def moveX (x : Int) : BlockPos :=
  { p with x := Bin.wrap32 x, hx := ⟨Bin.le_wrap32 x, Bin.wrap32_lt x⟩ }

def moveZ (z : Int) : BlockPos :=
  { p with z := Bin.wrap32 z, hz := ⟨Bin.le_wrap32 z, Bin.wrap32_lt z⟩ }

/--
The positions that `enqueue_sl_neighbours` looks at, in its order.
-/
def neighbours : List BlockPos :=
  [p.moveX (p.x - 1), p.moveX (p.x + 1), p.moveZ (p.z - 1), p.moveZ (p.z + 1)]
    ++ (if p.y > 0 then [{ p with y := p.y - 1 }] else [])
    ++ (if p.y < 255 then [{ p with y := p.y + 1 }] else [])

end BlockPos

/--
What `calc_sl` takes for the light of a neighbouring block: a constant or that of a block.
-/
inductive Neighbour where
  | light (sl : Nat)
  | block (ch : Nat) (x : Fin 16) (y : Fin 256) (z : Fin 16)
  deriving DecidableEq, Repr

/--
A block on the other side of a border.
-/
def Neighbour.across (nch : Option Nat) (x : Fin 16) (y : Fin 256) (z : Fin 16) : Neighbour :=
  match nch with
  | none => .light 0
  | some nch => .block nch x y z

/--
The six neighbours of a block of the chunk `ch`.
-/
def Neighbour.around (neighbours : Direction → Option Nat) (ch : Nat) (x : Fin 16) (y : Fin 256)
    (z : Fin 16) : List Neighbour :=
  [
    if x = 15 then .across (neighbours .east) 0 y z else .block ch (x + 1) y z,
    if x = 0 then .across (neighbours .west) 15 y z else .block ch (x - 1) y z,
    if z = 15 then .across (neighbours .south) x y 0 else .block ch x y (z + 1),
    if z = 0 then .across (neighbours .north) x y 15 else .block ch x y (z - 1),
    if y = 255 then .light 15 else .block ch x (y + 1) z,
    if y = 0 then .light 0 else .block ch x (y - 1) z
  ]

namespace WorldMemory

variable (m : WorldMemory)

/--
Reading the light of a block instantiates its sub-chunk.
-/
def readSkyLight (ch : Nat) (x : Fin 16) (y : Fin 256) (z : Fin 16)
    : Except Fault (Nat × WorldMemory) := do
  let obj ← m.get ch
  let (sl, chunk) := obj.chunk.getSkyLight x y z
  return (sl.toNat, m.edit ch (fun _ => chunk))

def readNeighbour : Neighbour → Except Fault (Nat × WorldMemory)
  | .light sl => .ok (sl, m)
  | .block ch x y z => m.readSkyLight ch x y z

def maxLight (m : WorldMemory) : List Neighbour → Except Fault (Nat × WorldMemory)
  | [] => .ok (0, m)
  | n :: ns => do
    let (sl, m) ← m.readNeighbour n
    let (max', m) ← maxLight m ns
    return (max sl max', m)

/--
The light a block should have.
-/
def rightSkyLight (ch : Nat) (obj : ChunkObject) (x : Fin 16) (y : Fin 256) (z : Fin 16)
    : Except Fault (Nat × WorldMemory) :=
  if (y : Int) ≥ obj.chunk.getHeight x z then
    .ok (15, m)
  else do
    let (max, m) ← m.maxLight (Neighbour.around obj.neighbours ch x y z)
    return (max - 1, m)

end WorldMemory

/--
`updates` is the queue. `calls` are the calls of `enqueue_sl_no_lock` that are still to be made before
the lock is released, the next one first: each of them may make six more, which come before the others.
-/
structure Lighting where
  mem : WorldMemory
  updates : List BlockPos
  calls : List BlockPos

namespace Lighting

variable (s : Lighting) (p : BlockPos)

def enqueueSlNeighbours : Lighting :=
  { s with calls := p.neighbours ++ s.calls }

/--
Sets the light of a block to `sl` if it is not, and has its neighbours looked at then.
-/
def changeSl (ch : Nat) (sl : Nat) : Except Fault Lighting := do
  let (old, mem) ← s.mem.readSkyLight ch p.bx p.y p.bz
  if sl ≠ old then
    let mem ← mem.editChunk ch (·.setSkyLight p.bx p.y p.bz (UInt8.ofNat sl))
    return { s with mem }.enqueueSlNeighbours p
  else
    return { s with mem }

def calcSl : Except Fault Lighting :=
  match s.mem.getChunk p.chunkPos.x p.chunkPos.z with
  | none => .ok s
  | some ch => do
    let obj ← s.mem.get ch
    let (sl, mem) ← s.mem.rightSkyLight ch obj p.bx p.y p.bz
    { s with mem }.changeSl p ch sl

/--
The chunk is used without a check, and so is the block if it is unknown.
-/
def enqueueSlNoLock : Except Fault Lighting :=
  match s.mem.getChunk p.chunkPos.x p.chunkPos.z with
  | none => .error .nullPointer
  | some ch => do
    let obj ← s.mem.get ch
    match BlockInfo.fromId (obj.chunk.getId p.bx p.y p.bz) with
    | none => .error .nullPointer
    | some binf =>
      if binf.isOpaque then
        s.changeSl p ch (15 - binf.opacity)
      else
        return { s with updates := s.updates ++ [p] }

/--
`work` takes an item off the queue, whichever it is, `call` makes the next call.
-/
inductive Action where
  | work (i : Nat)
  | call
  deriving DecidableEq, Repr

def act : Action → Option (Except Fault Lighting)
  | .work i =>
    match s.calls, s.updates[i]? with
    | [], some p => some ({ s with updates := s.updates.eraseIdx i }.calcSl p)
    | _, _ => none
  | .call =>
    match s.calls with
    | [] => none
    | p :: calls => some ({ s with calls }.enqueueSlNoLock p)

/--
Nothing happens after a fault.
-/
def step : Except Fault Lighting → Action → Option (Except Fault Lighting)
  | .error _, _ => none
  | .ok s, a => s.act a

end Lighting

end HCraft
