import HCraft.Inv.Window.Impl
import HCraft.World.Chunk.Lemmas.Height

/-!
This module contains what a client does to place a block, and what becomes of a chunk.
-/

namespace HCraft

/--
The packets that a client sends, with their fields, and what else is done with the chunk.
-/
inductive PlaceAction where
  | creative (slot : Int) (item : SlotItem)
  | held (slot : Int)
  | place (inRange : Int → Int → Int → Bool) (x y z : Int) (face : UInt8)
  | call (op : { op : Chunk.Op // op.Valid })

/--
What comes of an attempt to place a block.
-/
inductive Placement where
  | ignored
  | disconnect
  | set (x : Int) (y : Fin 256) (z : Int) (id : UInt16) (val : UInt8)

/--
`curSlot` is the slot of the hotbar that is held. `ch` is one of the chunks in memory, and `found`
says where `get_chunk` finds it.
-/
structure Placing where
  inv : Window
  curSlot : Int
  found : Int → Int → Bool
  ch : Chunk

namespace Placing

/--
A player who has just joined, and a chunk that has just been made.
-/
def new (found : Int → Int → Bool) (cx cz : Int) : Placing :=
  { inv := .inventory, curSlot := 0, found, ch := .new cx cz }

/--
The block next to another one. There is no such face from 6 on.
-/
def adjacent (face : UInt8) (x y z : Int) : Option (Int × Int × Int) :=
  match face.toNat with
  | 0 => some (x, y - 1, z)
  | 1 => some (x, y + 1, z)
  | 2 => some (x, y, z - 1)
  | 3 => some (x, y, z + 1)
  | 4 => some (x - 1, y, z)
  | 5 => some (x + 1, y, z)
  | _ => none

/--
`player::on_place`. The player can reach the blocks that are `inRange`.
-/
def onPlace (s : Placing) (inRange : Int → Int → Int → Bool) (x y z : Int) (face : UInt8)
    : Except Fault Placement :=
  if x = -1 ∧ y = 4095 ∧ z = -1 then
    return .ignored
  else
    match adjacent face x y z with
    | none => return .disconnect
    | some (nx, ny, nz) =>
      if h : ny < 0 ∨ ny > 255 then
        return .disconnect
      else if !inRange nx ny nz then
        return .ignored
      else do
        match ← s.inv.get (36 + s.curSlot) with
        | none => return .ignored
        | some heldItem =>
          return .set nx ⟨ny.toNat, by omega⟩ nz heldItem.id heldItem.damage.toUInt8

/--
`x & 15`
-/
def low (x : Int) : Fin 16 :=
  ⟨(x % 16).toNat, by omega⟩

/--
The part of `world::set_id_and_meta` that is about `ch`.
-/
def setIdAndMeta (found : Int → Int → Bool) (ch : Chunk) (x : Int) (y : Fin 256) (z : Int)
    (id : UInt16) (val : UInt8) : Chunk :=
  if found (x >>> (4 : Nat)) (z >>> (4 : Nat)) then
    ch.setIdAndMeta (low x) y (low z) id val
  else
    ch

/--
`handle_p10`. An id of -1 clears the slot.
-/
def handleP10 (s : Placing) (slot : Int) (item : SlotItem) : Except Fault Placing :=
  if slot < 1 ∨ slot > 44 then
    return s -- disconnect
  else do
    let inv ← s.inv.set slot (if item.id = 0xFFFF then none else some item)
    return { s with inv }

def handleP09 (s : Placing) (slot : Int) : Placing :=
  if slot < 0 ∨ slot > 8 then
    s -- disconnect
  else
    { s with curSlot := slot }

/--
The placement that an action asks for.
-/
def placement (s : Placing) : PlaceAction → Except Fault Placement
  | .place inRange x y z face => s.onPlace inRange x y z face
  | _ => .ok .ignored

def act (s : Placing) : PlaceAction → Except Fault Placing
  | .creative slot item => s.handleP10 slot item
  | .held slot => .ok (s.handleP09 slot)
  | .place inRange x y z face => do
    match ← s.onPlace inRange x y z face with
    | .ignored | .disconnect => return s
    | .set x y z id val => return { s with ch := setIdAndMeta s.found s.ch x y z id val }
  | .call op => .ok { s with ch := s.ch.call op.val }

/--
Nothing happens after a fault.
-/
def step : Except Fault Placing → PlaceAction → Option (Except Fault Placing)
  | .error _, _ => none
  | .ok s, a => some (s.act a)

end Placing

end HCraft
