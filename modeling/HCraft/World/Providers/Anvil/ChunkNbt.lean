import HCraft.Util.Nbt.Impl
import HCraft.World.Chunk.Impl
import HCraft.World.Providers.Anvil.Impl

/-!
This module contains the NBT tree that a chunk is saved as.
-/

namespace HCraft

def ascii (s : String) : Bytes :=
  s.toList.map (fun c => UInt8.ofNat c.toNat)

namespace NbtTag

/--
`get` of a compound. What is not there is a null pointer.
-/
def get (tags : List (Bytes × NbtTag Unit)) (name : String) : Option (NbtTag Unit) :=
  (tags.find? (fun tag => tag.fst = ascii name)).map Prod.snd

section Casts

variable (tag : Option (NbtTag Unit))

def asByte : Except LoadError UInt8 :=
  match tag with
  | none => .error (.fault .nullPointer)
  | some (.byte val) => .ok val
  | some _ => .error (.fault .typeConfusion)

def asInt : Except LoadError UInt32 :=
  match tag with
  | none => .error (.fault .nullPointer)
  | some (.int val) => .ok val
  | some _ => .error (.fault .typeConfusion)

def asByteArray : Except LoadError (Option Bytes) :=
  match tag with
  | none => .ok none
  | some (.byteArray data) => .ok (some data)
  | some _ => .error (.fault .typeConfusion)

def asIntArray : Except LoadError (Option (List UInt32)) :=
  match tag with
  | none => .ok none
  | some (.intArray data) => .ok (some data)
  | some _ => .error (.fault .typeConfusion)

def asList : Except LoadError (Option (List (NbtTag Unit))) :=
  match tag with
  | none => .ok none
  | some (.list _ vals) => .ok (some vals)
  | some _ => .error (.fault .typeConfusion)

def asCompound : Except LoadError (Option (List (Bytes × NbtTag Unit))) :=
  match tag with
  | none => .ok none
  | some (.compound tags) => .ok (some tags)
  | some _ => .error (.fault .typeConfusion)

end Casts

end NbtTag

namespace ChunkNbt

open NbtTag

def deref {α : Type} (p : Option α) : Except LoadError α :=
  match p with
  | none => .error (.fault .nullPointer)
  | some a => .ok a

/--
`memcpy` of all of `data` to an array of `n` elements.
-/
def copyTo {α β : Type} {n : Nat} (arr : Fin n → β) (f : α → β) (data : List α)
    : Except LoadError (Fin n → β) :=
  if data.length > n then
    .error (.fault .writeOutside)
  else
    .ok (fun i => (data[i.val]?.map f).getD (arr i))

/--
The first `n` bytes of an array tag.
-/
def firstBytes (n : Nat) (data : Option Bytes) : Except LoadError (Fin n → UInt8) := do
  let data ← deref data
  if h : n ≤ data.length then
    .ok (fun i => data[i.val])
  else
    .error (.fault .readOutside)

def even (i : Fin 2048) : Fin 4096 :=
  ⟨2 * i.val, by omega⟩

def odd (i : Fin 2048) : Fin 4096 :=
  ⟨2 * i.val + 1, by omega⟩

def loadBlocks (types : Fin 4096 → UInt16) (bytes : Fin 4096 → UInt8) : Fin 4096 → UInt16 :=
  (List.finRange 4096).foldl
    (fun types i => Function.update types i ((bytes i).toUInt16 <<< 4)) types

/--
One byte of nibbles goes into two types: `mask` keeps the other bits, which `place` moves the nibble
between.
-/
def loadNibbles (mask : UInt16) (place : UInt16 → UInt16) (types : Fin 4096 → UInt16)
    (bytes : Fin 2048 → UInt8) : Fin 4096 → UInt16 :=
  (List.finRange 2048).foldl
    (fun types i =>
      let types := Function.update types (even i)
        ((types (even i) &&& mask) ||| place ((bytes i).toUInt16 &&& (15 : UInt16)))
      Function.update types (odd i)
        ((types (odd i) &&& mask) ||| place ((bytes i).toUInt16 >>> 4)))
    types

def loadAdd (types : Fin 4096 → UInt16) (bytes : Fin 2048 → UInt8) : Fin 4096 → UInt16 :=
  loadNibbles 0x0FFF (· <<< 12) types bytes

def loadData (types : Fin 4096 → UInt16) (bytes : Fin 2048 → UInt8) : Fin 4096 → UInt16 :=
  loadNibbles 0xFFF0 (·) types bytes

def loadSection (ch : Chunk) (tag : NbtTag Unit) : Except LoadError Chunk := do
  let sect ← deref (← asCompound (some tag))
  let y ← asByte (get sect "Y")
  if h : y.toNat < 16 then
    let sy : Fin 16 := ⟨y.toNat, h⟩
    let ch := ch.setId 0 ⟨y.toNat * 16, by omega⟩ 0 1 -- instantiates the sub-chunk
    let sub := ch.getSub sy
    let blocks ← firstBytes 4096 (← asByteArray (get sect "Blocks"))
    let types := loadBlocks sub.types blocks
    let add ← asByteArray (get sect "Add")
    let types ←
      if add.isSome then do
        let add ← firstBytes 2048 add
        .ok (loadAdd types add)
      else
        .ok types
    let data ← firstBytes 2048 (← asByteArray (get sect "Data"))
    let types := loadData types data
    let bl ← firstBytes 2048 (← asByteArray (get sect "BlockLight"))
    let sl ← firstBytes 2048 (← asByteArray (get sect "SkyLight"))
    .ok (ch.setSub sy { types, sl, bl })
  else
    .error (.fault .readOutside) -- `subs[sy]`

def loadChunkFromNbt (root : List (Bytes × NbtTag Unit)) : Except LoadError Chunk := do
  match ← asCompound (get root "Level") with
  | none => .error (.worldLoadError "invalid chunk NBT structure")
  | some level =>
    let cx ← asInt (get level "xPos")
    let cz ← asInt (get level "zPos")
    let ch := Chunk.new (Bin.int32 cx.toNat) (Bin.int32 cz.toNat)
    let biomes ← deref (← asByteArray (get level "Biomes"))
    let biomes ← copyTo ch.biomes (·) biomes
    let hmap ← deref (← asIntArray (get level "HeightMap"))
    let hmap ← copyTo ch.hmap (fun h => Bin.int32 h.toNat) hmap
    let sects ← deref (← asList (get level "Sections"))
    sects.foldlM loadSection { ch with biomes, hmap }

/--
The end of `load_chunk`, behind the compression type.
-/
def loadChunkData (decompress : Bytes → Bytes) (data : Bytes) : Except LoadError Chunk :=
  match NbtReader.readRaw (decompress data) with
  | .error (.readError what) => .error (.worldLoadError ("corrupt NBT (" ++ what ++ ")"))
  | .error (.fault fault) => .error (.fault fault)
  | .ok (_, root) => loadChunkFromNbt root

def makeBlocks (types : Fin 4096 → UInt16) : Bytes :=
  List.ofFn (fun i => ((types i >>> 4) &&& (0xFF : UInt16)).toUInt8)

def makeNibbles (f : UInt16 → UInt16) (types : Fin 4096 → UInt16) : Bytes :=
  List.ofFn (fun i => (f (types (even i))).toUInt8 ||| (f (types (odd i)) <<< 4).toUInt8)

def makeAdd (types : Fin 4096 → UInt16) : Bytes :=
  makeNibbles (fun t => (t >>> 12) &&& (15 : UInt16)) types

def makeData (types : Fin 4096 → UInt16) : Bytes :=
  makeNibbles (fun t => t &&& (15 : UInt16)) types

def makeSection (i : Fin 16) (sub : SubChunk) : NbtTag UInt8 :=
  .compound [
    (ascii "Y", .byte (UInt8.ofNat i.val)),
    (ascii "Blocks", .byteArray (makeBlocks sub.types)),
    (ascii "Add", .byteArray (makeAdd sub.types)),
    (ascii "Data", .byteArray (makeData sub.types)),
    (ascii "BlockLight", .byteArray (List.ofFn sub.bl)),
    (ascii "SkyLight", .byteArray (List.ofFn sub.sl))
  ]

def makeSections (ch : Chunk) : List (NbtTag UInt8) :=
  (List.finRange 16).filterMap (fun i => (ch.subs i).map (makeSection i))

def makeLevel (ch : Chunk) : NbtTag UInt8 :=
  .compound [
    (ascii "xPos", .int (UInt32.ofNat (Bin.unsigned32 ch.pos.x))),
    (ascii "zPos", .int (UInt32.ofNat (Bin.unsigned32 ch.pos.z))),
    (ascii "Biomes", .byteArray (List.ofFn ch.biomes)),
    (ascii "HeightMap",
      .intArray (List.ofFn (fun i => UInt32.ofNat (Bin.unsigned32 (ch.hmap i))))),
    (ascii "Sections", .list 10 (makeSections ch))
  ]

/--
The calls to the writer are those that write the tree.
-/
def makeChunkData (compress : Bytes → Bytes) (ch : Chunk) : Except Fault Bytes := do
  let nbt ← (NbtTag.compound [(ascii "Level", makeLevel ch)]).write (some (ascii "")) .new
  .ok (compress nbt.buf.data)

end ChunkNbt

end HCraft
