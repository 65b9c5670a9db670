import HCraft.Util.Binary
import HCraft.Util.Fault
import HCraft.World.Chunk.Impl
import HCraft.World.World
import Mathlib.Data.Rat.Defs

/-!
This module contains the entities of the server: where they are, and the lists of entities that the
chunks keep.
-/

namespace HCraft

/--
The values of a `double`. `none` is an infinity, or not a number.
-/
abbrev Coord := Option ℚ

/--
What the processor makes of a value that does not fit an `int` is the least `int`.
-/
def Coord.toInt : Coord → Int
  | none => -2 ^ 31
  | some x =>
    let n := x.num.tdiv x.den
    if -2 ^ 31 ≤ n ∧ n < 2 ^ 31 then n else -2 ^ 31

structure EntityPos where
  x : Coord
  y : Coord
  z : Coord
  yaw : Coord
  pitch : Coord
  onGround : Bool
  deriving DecidableEq

def EntityPos.chunkPos (pos : EntityPos) : ChunkPos :=
  ⟨Coord.toInt pos.x >>> (4 : Nat), Coord.toInt pos.z >>> (4 : Nat)⟩

/--
A pointer. The constructor of an entity leaves its own ones `unset`.
-/
inductive Pointer (α : Type) where
  | unset
  | null
  | to (a : α)
  deriving DecidableEq, Repr

def Pointer.ofOption {α : Type} : Option α → Pointer α
  | none => .null
  | some a => .to a

structure Entity (ω κ : Type) where
  pos : EntityPos
  w : Pointer ω
  currCh : Pointer κ

def Entity.new {ω κ : Type} : Entity ω κ :=
  { pos := ⟨some 0, some 0, some 0, some 0, some 0, false⟩, w := .unset, currCh := .unset }

/--
Entities `ε`, and the lists `ents` of the chunks `κ` of the worlds `ω`.
-/
structure Entities (ω κ ε : Type) where
  entity : ε → Entity ω κ
  ents : κ → List ε

namespace Entities

variable {ω κ ε : Type} [DecidableEq κ] [DecidableEq ε]

def new : Entities ω κ ε :=
  { entity := fun _ => .new, ents := fun _ => [] }

variable (s : Entities ω κ ε)

def set (e : ε) (ent : Entity ω κ) : Entities ω κ ε :=
  { s with entity := Function.update s.entity e ent }

def registerEntity (ch : κ) (e : ε) : Entities ω κ ε :=
  { s with ents := Function.update s.ents ch (s.ents ch ++ [e]) }

def deregisterEntity (ch : κ) (e : ε) : Entities ω κ ε :=
  { s with ents := Function.update s.ents ch ((s.ents ch).filter (· ≠ e)) }

variable (worlds : ω → World κ)

def spawn (e : ε) (w : ω) (pos : EntityPos) : Entities ω κ ε :=
  let cpos := pos.chunkPos
  match (worlds w).getChunk cpos.x cpos.z with
  | none => s
  | some ch => (s.set e { pos := pos, w := .to w, currCh := .to ch }).registerEntity ch e

def despawn (e : ε) : Except Fault (Entities ω κ ε) :=
  let ent := s.entity e
  match ent.currCh with
  | .unset => .error .uninitialised
  | .null => .ok s
  | .to ch => .ok ((s.deregisterEntity ch e).set e { ent with w := .null, currCh := .null })

def move (e : ε) (pos : EntityPos) : Except Fault (Entities ω κ ε) :=
  let ent := s.entity e
  match ent.w with
  | .unset => .error .uninitialised
  | .null => .ok s
  | .to w =>
    let pcp := ent.pos.chunkPos
    let ncp := pos.chunkPos
    if pcp ≠ ncp then
      let currCh := Pointer.ofOption ((worlds w).getChunk ncp.x ncp.z)
      .ok (s.set e { ent with pos := pos, currCh := currCh })
    else
      .ok (s.set e { ent with pos := pos })

end Entities

/--
What has been done with an entity.
-/
inductive Phase where
  | fresh
  | spawned
  | despawned
  deriving DecidableEq, Repr

/--
The entities together with what has been done with each of them.
-/
structure Scene (ω κ ε : Type) where
  mem : Entities ω κ ε
  phase : ε → Phase

inductive EntityCall (ω ε : Type) where
  | spawn (e : ε) (w : ω) (pos : EntityPos)
  | move (e : ε) (pos : EntityPos)
  | despawn (e : ε)

namespace Scene

variable {ω κ ε : Type} [DecidableEq κ] [DecidableEq ε] (worlds : ω → World κ)

def new : Scene ω κ ε :=
  { mem := .new, phase := fun _ => .fresh }

/--
An entity counts as spawned once it has been spawned in a loaded chunk, and as despawned once
`despawn` has been called for it after that.
-/
def call (s : Scene ω κ ε) : EntityCall ω ε → Except Fault (Scene ω κ ε)
  | .spawn e w pos =>
    let mem := s.mem.spawn worlds e w pos
    match (worlds w).getChunk pos.chunkPos.x pos.chunkPos.z with
    | none => .ok { s with mem := mem }
    | some _ => .ok { mem := mem, phase := Function.update s.phase e .spawned }
  | .move e pos => do
    let mem ← s.mem.move worlds e pos
    return { s with mem := mem }
  | .despawn e => do
    let mem ← s.mem.despawn e
    match s.phase e with
    | .spawned => return { mem := mem, phase := Function.update s.phase e .despawned }
    | _ => return { s with mem := mem }

/--
A run goes on until a call has undefined behaviour.
-/
def step (s : Except Fault (Scene ω κ ε)) (c : EntityCall ω ε)
    : Option (Except Fault (Scene ω κ ε)) :=
  match s with
  | .error _ => none
  | .ok s => some (s.call worlds c)

end Scene

end HCraft
