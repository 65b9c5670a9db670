import HCraft.World.Chunk.Lemmas.Height
import HCraft.World.Chunk.Lemmas.Light

/-!
This module contains that a chunk is an array of cells that are independent of each other, and so are
the attributes of a cell.
-/

namespace HCraft

namespace Chunk

/--
What a chunk keeps of a block.
-/
structure Cell where
  type : UInt16
  sl : UInt8
  bl : UInt8

def cell (ch : Chunk) (x : Fin 16) (y : Fin 256) (z : Fin 16) : Cell :=
  let sub := ch.getSub (subIndex y)
  { type := sub.types (index x y z)
    sl := getNibble sub.sl (index x y z)
    bl := getNibble sub.bl (index x y z) }

/--
What the getters are for.
-/
inductive Attribute where
  | id
  | metadata
  | skyLight
  | blockLight
  deriving DecidableEq, Repr

def read (ch : Chunk) (x : Fin 16) (y : Fin 256) (z : Fin 16) : Attribute → Nat
  | .id => (ch.getId x y z).toNat
  | .metadata => (ch.getMeta x y z).fst.toNat
  | .skyLight => (ch.getSkyLight x y z).fst.toNat
  | .blockLight => (ch.getBlockLight x y z).fst.toNat

def Cell.read (c : Cell) : Attribute → Nat
  | .id => (c.type >>> 4).toNat
  | .metadata => (c.type &&& 0xF).toUInt8.toNat
  | .skyLight => c.sl.toNat
  | .blockLight => c.bl.toNat

/--
The block a call is about.
-/
def Op.block : Op → Fin 16 × Fin 256 × Fin 16
  | .setId x y z _ => (x, y, z)
  | .setIdAndMeta x y z _ _ => (x, y, z)
  | .setMeta x y z _ => (x, y, z)
  | .setSkyLight x y z _ => (x, y, z)
  | .setBlockLight x y z _ => (x, y, z)
  | .getId x y z => (x, y, z)
  | .getMeta x y z => (x, y, z)
  | .getSkyLight x y z => (x, y, z)
  | .getBlockLight x y z => (x, y, z)

/--
The value a call writes to an attribute of its block.
-/
def Op.written : Op → Attribute → Option Nat
  | .setId _ _ _ id, .id => some id.toNat
  | .setIdAndMeta _ _ _ id _, .id => some id.toNat
  | .setIdAndMeta _ _ _ _ val, .metadata => some val.toNat
  | .setMeta _ _ _ val, .metadata => some val.toNat
  | .setSkyLight _ _ _ sl, .skyLight => some sl.toNat
  | .setBlockLight _ _ _ bl, .blockLight => some bl.toNat
  | _, _ => none

section Cells

variable {ch : Chunk} {x x' z z' : Fin 16} {y y' : Fin 256}

theorem read_eq (a : Attribute) : ch.read x y z a = (ch.cell x y z).read a := by
  cases a with
  | id => exact congrArg UInt16.toNat getId_eq
  | metadata => rfl
  | skyLight => rfl
  | blockLight => rfl

theorem cell_congr {ch' : Chunk} (h : ∀ sy, ch'.getSub sy = ch.getSub sy)
    : ch'.cell x y z = ch.cell x y z := by
  unfold cell
  rw [h]

theorem cell_touchSub : (ch.touchSub y').cell x y z = ch.cell x y z :=
  cell_congr getSub_touchSub

theorem cell_updateHeight {id : UInt16}
    : (ch.updateHeight x' y' z' id).cell x y z = ch.cell x y z := by
  apply cell_congr
  intro sy
  unfold updateHeight recalcHeightAt
  split
  . split
    . rw [getSub_setHeight]
    . rfl
  . split
    . rw [getSub_setHeight]
    . rfl

theorem cell_setSub {sub : SubChunk} {f : Cell → Cell}
    (hself : ⟨sub.types (index x y z), getNibble sub.sl (index x y z),
      getNibble sub.bl (index x y z)⟩ = f (ch.cell x y z))
    (hother : ∀ i, i ≠ index x y z
      → sub.types i = (ch.getSub (subIndex y)).types i
        ∧ getNibble sub.sl i = getNibble (ch.getSub (subIndex y)).sl i
        ∧ getNibble sub.bl i = getNibble (ch.getSub (subIndex y)).bl i)
    : (ch.setSub (subIndex y) sub).cell x' y' z'
        =
      if (x', y', z') = (x, y, z) then f (ch.cell x' y' z') else ch.cell x' y' z' := by
  split
  . next h =>
    cases h
    rw [← hself]
    unfold cell
    rw [getSub_setSub_self]
  . next h =>
    unfold cell
    dsimp only
    by_cases hsy : subIndex y' = subIndex y
    . have hindex : index x' y' z' ≠ index x y z := by
        rw [ne_eq, index_inj hsy]
        rintro ⟨rfl, rfl, rfl⟩
        exact h rfl
      obtain ⟨htypes, hsl, hbl⟩ := hother _ hindex
      rw [hsy, getSub_setSub_self, htypes, hsl, hbl]
    . rw [getSub_setSub_of_ne hsy]

theorem cell_setType (f : UInt16 → UInt16)
    : (ch.setType x y z f).cell x' y' z'
        =
      if (x', y', z') = (x, y, z) then
        { ch.cell x' y' z' with type := f (ch.cell x' y' z').type }
      else
        ch.cell x' y' z' := by
  unfold setType
  apply cell_setSub (f := fun c => { c with type := f c.type })
  . dsimp only
    rw [Function.update_self]
    rfl
  . intro i hi
    dsimp only
    rw [Function.update_of_ne hi]
    exact ⟨rfl, rfl, rfl⟩

theorem cell_setSkyLight {sl : UInt8} (hsl : sl.toNat < 16)
    : (ch.setSkyLight x y z sl).cell x' y' z'
        =
      if (x', y', z') = (x, y, z) then
        { ch.cell x' y' z' with sl := sl }
      else
        ch.cell x' y' z' := by
  unfold setSkyLight
  apply cell_setSub (f := fun c => { c with sl := sl })
  . dsimp only
    rw [getNibble_setNibble_self hsl]
    rfl
  . intro i hi
    dsimp only
    rw [getNibble_setNibble_of_ne hsl hi]
    exact ⟨rfl, rfl, rfl⟩

theorem cell_setBlockLight {bl : UInt8} (hbl : bl.toNat < 16)
    : (ch.setBlockLight x y z bl).cell x' y' z'
        =
      if (x', y', z') = (x, y, z) then
        { ch.cell x' y' z' with bl := bl }
      else
        ch.cell x' y' z' := by
  unfold setBlockLight
  apply cell_setSub (f := fun c => { c with bl := bl })
  . dsimp only
    rw [getNibble_setNibble_self hbl]
    rfl
  . intro i hi
    dsimp only
    rw [getNibble_setNibble_of_ne hbl hi]
    exact ⟨rfl, rfl, rfl⟩

end Cells

/--
What a call makes of the cell of its block.
-/
def Op.update : Op → Cell → Cell
  | .setId _ _ _ id, c => { c with type := (c.type &&& (0x000F : UInt16)) ||| id <<< 4 }
  | .setIdAndMeta _ _ _ id val, c => { c with type := id <<< 4 ||| val.toUInt16 }
  | .setMeta _ _ _ val, c => { c with type := (c.type &&& 0xFFF0) ||| val.toUInt16 }
  | .setSkyLight _ _ _ sl, c => { c with sl := sl }
  | .setBlockLight _ _ _ bl, c => { c with bl := bl }
  | _, c => c

section Values

variable {t id : UInt16} {val : UInt8} {sl bl : UInt8}

theorem read_meta : (Cell.mk t sl bl).read .metadata = t.toNat % 16 := by
  unfold Cell.read
  dsimp only
  have hlt := toNat_and_meta_lt t
  rw [UInt16.toNat_toUInt8, show (0xF : UInt16) = 0x000F from rfl, Nat.mod_eq_of_lt (by omega)]
  exact toNat_and_meta t

theorem setId_mod (h : id.toNat < 4096)
    : ((t &&& (0x000F : UInt16)) ||| id <<< 4).toNat % 16 = t.toNat % 16 := by
  rw [UInt16.or_comm, toNat_pack h (toNat_and_meta_lt t), toNat_and_meta]
  omega

theorem setMeta_mod (h : val.toNat < 16)
    : ((t &&& (0xFFF0 : UInt16)) ||| val.toUInt16).toNat % 16 = val.toNat := by
  rw [and_id, toNat_pack (shiftRight_lt t) (by rw [UInt8.toNat_toUInt16]; exact h),
    UInt8.toNat_toUInt16]
  omega

theorem pack_mod (hid : id.toNat < 4096) (hval : val.toNat < 16)
    : (id <<< 4 ||| val.toUInt16).toNat % 16 = val.toNat := by
  rw [toNat_pack hid (by rw [UInt8.toNat_toUInt16]; exact hval), UInt8.toNat_toUInt16]
  omega

end Values

theorem Op.read_update {op : Op} (hop : op.Valid) (c : Cell) (a : Attribute)
    : (op.update c).read a = (op.written a).getD (c.read a) := by
  cases op with
  | setId x y z id =>
    cases a with
    | id => exact congrArg UInt16.toNat (setId_shiftRight hop)
    | metadata =>
      unfold Op.update
      rw [read_meta, setId_mod hop]
      exact read_meta.symm
    | skyLight => rfl
    | blockLight => rfl
  | setIdAndMeta x y z id val =>
    cases a with
    | id =>
      apply congrArg UInt16.toNat
      apply pack_shiftRight hop.left
      rw [UInt8.toNat_toUInt16]
      exact hop.right
    | metadata =>
      unfold Op.update
      rw [read_meta, pack_mod hop.left hop.right]
      rfl
    | skyLight => rfl
    | blockLight => rfl
  | setMeta x y z val =>
    cases a with
    | id =>
      apply congrArg UInt16.toNat
      apply setMeta_shiftRight
      rw [UInt8.toNat_toUInt16]
      exact hop
    | metadata =>
      unfold Op.update
      rw [read_meta, setMeta_mod hop]
      rfl
    | skyLight => rfl
    | blockLight => rfl
  | _ => cases a <;> rfl

theorem cell_call {ch : Chunk} {op : Op} (hop : op.Valid) {x z : Fin 16} {y : Fin 256}
    : (ch.call op).cell x y z
        =
      if (x, y, z) = op.block then op.update (ch.cell x y z) else ch.cell x y z := by
  cases op with
  | setId x' y' z' id =>
    unfold call setId
    rw [cell_updateHeight]
    exact cell_setType _
  | setIdAndMeta x' y' z' id val =>
    unfold call setIdAndMeta
    rw [cell_updateHeight]
    exact cell_setType _
  | setMeta x' y' z' val => exact cell_setType (fun t => (t &&& 0xFFF0) ||| val.toUInt16)
  | setSkyLight x' y' z' sl => exact cell_setSkyLight hop
  | setBlockLight x' y' z' bl => exact cell_setBlockLight hop
  | getId x' y' z' => exact (ite_self _).symm
  | getMeta x' y' z' | getSkyLight x' y' z' | getBlockLight x' y' z' =>
    exact cell_touchSub.trans (ite_self _).symm

/--
After a call, its block has what was written, and all else is as it was.
-/
theorem read_call (ch : Chunk) {op : Op} (hop : op.Valid) (x : Fin 16) (y : Fin 256) (z : Fin 16)
    (a : Attribute)
    : (ch.call op).read x y z a
        =
      if (x, y, z) = op.block then (op.written a).getD (ch.read x y z a) else ch.read x y z a := by
  rw [read_eq, cell_call hop, read_eq]
  split
  . exact Op.read_update hop _ _
  . rfl

theorem read_call_torch
    : ((new 0 0).call (.setBlockLight 0 64 0 14)).read 0 64 0 .blockLight
        =
      if ((0, 64, 0) : Fin 16 × Fin 256 × Fin 16) = (0, 64, 0) then
        (Op.written (.setBlockLight 0 64 0 14) .blockLight).getD ((new 0 0).read 0 64 0 .blockLight)
      else
        (new 0 0).read 0 64 0 .blockLight :=
  @read_call (new 0 0) (.setBlockLight 0 64 0 14) (by simp [Op.Valid]) 0 64 0 .blockLight

end Chunk

end HCraft
