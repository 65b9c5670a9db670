import HCraft.World.Blocks
import Mathlib.Data.List.FinRange
import Mathlib.Logic.Function.Basic

/-!
This module contains `chunk` and `sub_chunk`. The neighbours of a chunk are kept by its world.
-/

namespace HCraft

instance neZeroWidth : @NeZero Nat Zero.ofOfNat0 16 := ⟨by decide⟩

instance neZeroHeight : @NeZero Nat Zero.ofOfNat0 256 := ⟨by decide⟩

structure SubChunk where
  types : Fin 4096 → UInt16 -- block ids + meta
  sl : Fin 2048 → UInt8 -- sky light
  bl : Fin 2048 → UInt8 -- block light

def SubChunk.new : SubChunk :=
  { types := fun _ => 0, sl := fun _ => 0, bl := fun _ => 0 }

structure ChunkPos where
  x : Int
  z : Int
  deriving DecidableEq, Repr

structure Chunk where
  pos : ChunkPos
  subs : Fin 16 → Option SubChunk
  biomes : Fin 256 → UInt8
  hmap : Fin 256 → Int

namespace Chunk

def new (x z : Int) : Chunk :=
  { pos := ⟨x, z⟩, subs := fun _ => none, biomes := fun _ => 1, hmap := fun _ => 0 }

def subIndex (y : Fin 256) : Fin 16 :=
  ⟨y.val >>> 4, by
    rw [Nat.shiftRight_eq_div_pow]
    omega⟩

theorem or_sixteen (a : Nat) (b : Fin 16) : a <<< 4 ||| b.val = a * 16 + b.val := by
  rw [Nat.shiftLeft_eq, Nat.mul_comm, ← Nat.two_pow_add_eq_or_of_lt b.isLt]

theorem index_eq (x : Fin 16) (y : Fin 256) (z : Fin 16)
    : (y.val &&& 0xF) <<< 8 ||| z.val <<< 4 ||| x.val
        =
      y.val % 16 * 256 + z.val * 16 + x.val := by
  have hand : y.val &&& 0xF = y.val % 16 := Nat.and_two_pow_sub_one_eq_mod _ 4
  have hz := z.isLt
  rw [Nat.or_assoc, or_sixteen, hand, Nat.shiftLeft_eq, Nat.mul_comm,
    ← Nat.two_pow_add_eq_or_of_lt (by omega)]
  omega

/--
The place of a block in its sub-chunk.
-/
def index (x : Fin 16) (y : Fin 256) (z : Fin 16) : Fin 4096 :=
  ⟨(y.val &&& 0xF) <<< 8 ||| z.val <<< 4 ||| x.val, by
    rw [index_eq]
    omega⟩

/--
The place of a column in the heightmap.
-/
def hind (x z : Fin 16) : Fin 256 :=
  ⟨z.val <<< 4 ||| x.val, by
    rw [or_sixteen]
    omega⟩

def getHeight (ch : Chunk) (x z : Fin 16) : Int :=
  ch.hmap (hind x z)

def getSub (ch : Chunk) (sy : Fin 16) : SubChunk :=
  (ch.subs sy).getD .new

def setSub (ch : Chunk) (sy : Fin 16) (sub : SubChunk) : Chunk :=
  { ch with subs := Function.update ch.subs sy (some sub) }

def setHeight (ch : Chunk) (x z : Fin 16) (h : Int) : Chunk :=
  { ch with hmap := Function.update ch.hmap (hind x z) h }

def getId (ch : Chunk) (x : Fin 16) (y : Fin 256) (z : Fin 16) : UInt16 :=
  match ch.subs (subIndex y) with
  | none => 0
  | some sub => sub.types (index x y z) >>> 4

theorem le_height_of_succ_le {y : Nat} (h : y + 1 ≤ 256) : y ≤ 256 :=
  Nat.le_of_succ_le h

/--
The loop of `recalc_height_at` from `h - 1` downwards.
-/
def findHeight (ch : Chunk) (x z : Fin 16) : (h : Nat) → h ≤ 256 → Nat
  | 0, _ => 0
  | h + 1, hle =>
    if BlockInfo.blocksSky (ch.getId x ⟨h, hle⟩ z) then
      h + 1
    else
      findHeight ch x z h (le_height_of_succ_le hle)

def recalcHeightAt (ch : Chunk) (x z : Fin 16) (top : Nat) (htop : top ≤ 256) : Chunk :=
  ch.setHeight x z (ch.findHeight x z top htop)

def updateHeight (ch : Chunk) (x : Fin 16) (y : Fin 256) (z : Fin 16) (id : UInt16) : Chunk :=
  if BlockInfo.blocksSky id then
    if ch.getHeight x z ≤ y.val then ch.setHeight x z (y.val + 1) else ch
  else if ch.getHeight x z = y.val + 1 then
    ch.recalcHeightAt x z y.val (Nat.le_of_lt y.isLt) -- from `y - 1`
  else
    ch

def setType (ch : Chunk) (x : Fin 16) (y : Fin 256) (z : Fin 16) (f : UInt16 → UInt16) : Chunk :=
  let sub := ch.getSub (subIndex y)
  let types := Function.update sub.types (index x y z) (f (sub.types (index x y z)))
  ch.setSub (subIndex y) { sub with types }

def setId (ch : Chunk) (x : Fin 16) (y : Fin 256) (z : Fin 16) (id : UInt16) : Chunk :=
  (ch.setType x y z (fun t => (t &&& (0x000F : UInt16)) ||| id <<< 4)).updateHeight x y z id

def setMeta (ch : Chunk) (x : Fin 16) (y : Fin 256) (z : Fin 16) (val : UInt8) : Chunk :=
  ch.setType x y z (fun t => (t &&& 0xFFF0) ||| val.toUInt16)

def setIdAndMeta (ch : Chunk) (x : Fin 16) (y : Fin 256) (z : Fin 16) (id : UInt16) (val : UInt8)
    : Chunk :=
  (ch.setType x y z (fun _ => id <<< 4 ||| val.toUInt16)).updateHeight x y z id

/--
All getters but `get_id` instantiate the sub-chunk.
-/
def touchSub (ch : Chunk) (y : Fin 256) : Chunk :=
  ch.setSub (subIndex y) (ch.getSub (subIndex y))

def getMeta (ch : Chunk) (x : Fin 16) (y : Fin 256) (z : Fin 16) : UInt8 × Chunk :=
  (((ch.getSub (subIndex y)).types (index x y z) &&& 0xF).toUInt8, ch.touchSub y)

def half (i : Fin 4096) : Fin 2048 :=
  ⟨i.val >>> 1, by
    rw [Nat.shiftRight_eq_div_pow]
    omega⟩

def getNibble (light : Fin 2048 → UInt8) (i : Fin 4096) : UInt8 :=
  if i.val &&& 1 ≠ 0 then light (half i) >>> 4 else light (half i) &&& 0x0F

def setNibble (light : Fin 2048 → UInt8) (i : Fin 4096) (val : UInt8) : Fin 2048 → UInt8 :=
  if i.val &&& 1 ≠ 0 then
    Function.update light (half i) ((light (half i) &&& (0x0F : UInt8)) ||| val <<< 4)
  else
    Function.update light (half i) ((light (half i) &&& 0xF0) ||| val)

def setSkyLight (ch : Chunk) (x : Fin 16) (y : Fin 256) (z : Fin 16) (sl : UInt8) : Chunk :=
  let sub := ch.getSub (subIndex y)
  ch.setSub (subIndex y) { sub with sl := setNibble sub.sl (index x y z) sl }

def getSkyLight (ch : Chunk) (x : Fin 16) (y : Fin 256) (z : Fin 16) : UInt8 × Chunk :=
  (getNibble (ch.getSub (subIndex y)).sl (index x y z), ch.touchSub y)

def setBlockLight (ch : Chunk) (x : Fin 16) (y : Fin 256) (z : Fin 16) (bl : UInt8) : Chunk :=
  let sub := ch.getSub (subIndex y)
  ch.setSub (subIndex y) { sub with bl := setNibble sub.bl (index x y z) bl }

def getBlockLight (ch : Chunk) (x : Fin 16) (y : Fin 256) (z : Fin 16) : UInt8 × Chunk :=
  (getNibble (ch.getSub (subIndex y)).bl (index x y z), ch.touchSub y)

end Chunk

end HCraft
