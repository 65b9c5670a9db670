import HCraft.Util.Position
import HCraft.World.Providers.Anvil.ChunkNbt

/-!
This module contains the data of a world, and the NBT tree that a level.dat is of it.
-/

namespace HCraft

/--
`seed` are the bits of a `long long`. `width` and `depth` are -1 if the world is infinite.
-/
structure WorldData where
  name : Bytes
  seed : UInt64
  genName : Bytes
  spawnPos : EntityPos
  width : Int
  depth : Int
  deriving DecidableEq

def EntityPos.ofBlockPos (pos : BlockCoords) : EntityPos :=
  ⟨some pos.x, some pos.y, some pos.z, some 0, some 0, false⟩

namespace NbtTag

variable (tag : Option (NbtTag Unit))

def asLong : Except LoadError UInt64 :=
  match tag with
  | none => .error (.fault .nullPointer)
  | some (.long val) => .ok val
  | some _ => .error (.fault .typeConfusion)

def asString : Except LoadError Bytes :=
  match tag with
  | none => .error (.fault .nullPointer)
  | some (.string val) => .ok val
  | some _ => .error (.fault .typeConfusion)

end NbtTag

namespace WorldData

open NbtTag ChunkNbt

def getInt (tags : List (Bytes × NbtTag Unit)) (name : String) : Except LoadError Int := do
  let n ← asInt (get tags name)
  .ok (Bin.int32 n.toNat)

/--
The width and the depth, which a world of another server has not got.
-/
def loadBounds (data : List (Bytes × NbtTag Unit)) : Except LoadError (Int × Int) :=
  match get data "hCraft" with
  | some hcs => do
    let hcc ← deref (← asCompound (some hcs))
    let width ← getInt hcc "Width"
    let depth ← getInt hcc "Depth"
    .ok (width, depth)
  | none => .ok (-1, -1)

def loadFromNbt (root : List (Bytes × NbtTag Unit)) : Except LoadError WorldData := do
  let data ← deref (← asCompound (get root "Data"))
  let name ← asString (get data "LevelName")
  let genName ← asString (get data "generatorName")
  let seed ← asLong (get data "RandomSeed")
  let x ← getInt data "SpawnX"
  let y ← getInt data "SpawnY"
  let z ← getInt data "SpawnZ"
  let (width, depth) ← loadBounds data
  .ok { name, seed, genName, spawnPos := .ofBlockPos ⟨x, y, z⟩, width, depth }

/--
`load_world_data` of the contents of level.dat, if there is one.
-/
def load (decompress : Bytes → Bytes) (levelDat : Option Bytes) : Except LoadError WorldData :=
  match levelDat with
  | none => .error (.worldLoadError "level.dat not found")
  | some data =>
    match NbtReader.readRaw (decompress data) with
    | .error (.readError _) => .error (.worldLoadError "corrupt level.dat")
    | .error (.fault fault) => .error (.fault fault)
    | .ok (_, root) => loadFromNbt root

def putInt (n : Int) : NbtTag UInt8 :=
  .int (UInt32.ofNat (Bin.unsigned32 n))

def makeBounds (wd : WorldData) : NbtTag UInt8 :=
  .compound [
    (ascii "Width", putInt wd.width),
    (ascii "Depth", putInt wd.depth)
  ]

def makeData (wd : WorldData) : NbtTag UInt8 :=
  .compound [
    (ascii "version", putInt 19133), -- NBT version
    (ascii "initialized", .byte 1),
    (ascii "LevelName", .string wd.name),
    (ascii "generatorName", .string wd.genName),
    (ascii "generatorVersion", putInt 0),
    (ascii "RandomSeed", .long wd.seed),
    (ascii "MapFeatures", .byte 0),
    (ascii "SpawnX", putInt (Coord.toInt wd.spawnPos.x)),
    (ascii "SpawnY", putInt (Coord.toInt wd.spawnPos.y)),
    (ascii "SpawnZ", putInt (Coord.toInt wd.spawnPos.z)),
    (ascii "hCraft", makeBounds wd)
  ]

/--
The contents that `save_world_data` gives level.dat.
-/
def save (compress : Bytes → Bytes) (wd : WorldData) : Except Fault Bytes := do
  let writer ← (NbtTag.compound [(ascii "Data", wd.makeData)]).write (some (ascii "")) .new
  .ok (compress writer.buf.data)

end WorldData

end HCraft
