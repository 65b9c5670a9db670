import HCraft.World.Memory.Lemmas.Neighbours
import HCraft.World.Providers.Anvil.LevelDat
import HCraft.World.Providers.Anvil.Load
import HCraft.World.WorldGenerator

/-!
This module contains `world::load_from`, and what the world it returns does with the files of its
provider.
-/

namespace HCraft

/--
How the operating system sees paths: the directory that a path names, be it there or not, and the
directories that can be created.
-/
structure FileSystem (δ : Type) where
  resolve : Bytes → δ
  canCreate : δ → Bool

/--
The formats of zlib. `inflate` finds out which one its input has. What it makes of other input is open.
-/
structure ZlibFormats where
  gzip : Bytes → Bytes
  zlib : Bytes → Bytes
  inflate : Bytes → Bytes
  inflate_gzip : ∀ data, inflate (gzip data) = data
  inflate_zlib : ∀ data, inflate (zlib data) = data

/--
The directory of a world. `chunks` is the compressed data that is found in its region files.
-/
structure WorldDir where
  levelDat : Option Bytes
  hasRegion : Bool
  chunks : Int × Int → Option Bytes

namespace WorldDir

def new : WorldDir :=
  { levelDat := none, hasRegion := false, chunks := fun _ => none }

def setChunk (dir : WorldDir) (pos : ChunkPos) (data : Bytes) : WorldDir :=
  { dir with chunks := Function.update dir.chunks (pos.x, pos.z) (some data) }

def setLevelDat (dir : WorldDir) (data : Bytes) : WorldDir :=
  { dir with levelDat := some data }

end WorldDir

structure Disk (δ : Type) where
  dirs : δ → Option WorldDir

namespace Disk

variable {δ : Type} [DecidableEq δ] (fs : FileSystem δ) (disk : Disk δ)

/--
The directory at `path`.
-/
def dirAt (path : Bytes) : Option WorldDir :=
  disk.dirs (fs.resolve path)

def set (path : Bytes) (dir : Option WorldDir) : Disk δ :=
  { dirs := Function.update disk.dirs (fs.resolve path) dir }

def modify (path : Bytes) (f : WorldDir → WorldDir) : Disk δ :=
  disk.set fs path ((disk.dirAt fs path).map f)

/--
`create_dir` of the directory of a world.
-/
def createDir (path : Bytes) : Disk δ :=
  if (disk.dirAt fs path).isNone ∧ fs.canCreate (fs.resolve path) then
    disk.set fs path (some .new)
  else
    disk

/--
`create_dir` of the directory of its region files.
-/
def createRegionDir (path : Bytes) : Disk δ :=
  disk.modify fs path (fun dir => { dir with hasRegion := true })

/--
`claims`, which is all there is to `determine`.
-/
def claims (path : Bytes) : Bool :=
  match disk.dirAt fs path with
  | none => false
  | some dir => dir.hasRegion && dir.levelDat.isSome

end Disk

def pathFromName (name : Bytes) : Bytes :=
  ascii "worlds/" ++ name

/--
The fields of an `anvil_world_provider`.
-/
structure ProviderState where
  isOpen : Bool
  wpath : Bytes

namespace ProviderState

def new : ProviderState :=
  { isOpen := false, wpath := [] }

def close (prov : ProviderState) : ProviderState :=
  if ¬ prov.isOpen then prov else { prov with isOpen := false }

variable {δ : Type} [DecidableEq δ] (fs : FileSystem δ)

/--
`open`
-/
def openPath (prov : ProviderState) (disk : Disk δ) (path : Bytes) : ProviderState × Disk δ :=
  let prov := if prov.isOpen then prov.close else prov
  let prov := { prov with wpath := path }
  let disk := disk.createDir fs path
  let disk := disk.createRegionDir fs path
  ({ prov with isOpen := true }, disk)

def loadChunk (inflate : Bytes → Bytes) (prov : ProviderState) (disk : Disk δ) (pos : ChunkPos)
    : Except LoadError (Option Chunk) :=
  match (disk.dirAt fs prov.wpath).bind (·.chunks (pos.x, pos.z)) with
  | none => .ok none
  | some data => (ChunkNbt.loadChunkData inflate data).map some

def loadWorldData (inflate : Bytes → Bytes) (prov : ProviderState) (disk : Disk δ)
    : Except LoadError WorldData :=
  WorldData.load inflate ((disk.dirAt fs prov.wpath).bind (·.levelDat))

def saveChunk (zlib : Bytes → Bytes) (prov : ProviderState) (disk : Disk δ) (ch : Chunk)
    : Except Fault (Disk δ) := do
  let data ← ChunkNbt.makeChunkData zlib ch
  return disk.modify fs prov.wpath (·.setChunk ch.pos data)

def saveWorldData (gzip : Bytes → Bytes) (prov : ProviderState) (disk : Disk δ) (wd : WorldData)
    : Except Fault (Disk δ) := do
  let data ← WorldData.save gzip wd
  return disk.modify fs prov.wpath (·.setLevelDat data)

end ProviderState

inductive WorldFile where
  | levelDat
  | region (rx rz : Int)
  deriving DecidableEq, Repr

/--
A file below `wpath` that has been opened.
-/
structure OpenedFile where
  wpath : Bytes
  file : WorldFile
  deriving DecidableEq, Repr

/--
A world and the disk it is on. `opened` are the files that it has opened since it was loaded.
-/
structure WorldSession (δ : Type) where
  disk : Disk δ
  inf : WorldData
  gen : WorldGenerator
  prov : ProviderState
  mem : WorldMemory
  opened : List OpenedFile

namespace WorldSession

variable {δ : Type} [DecidableEq δ] (fs : FileSystem δ) (zl : ZlibFormats)

/--
The constructor that `load_from` uses.
-/
def new (wd : WorldData) (gen : WorldGenerator) (prov : ProviderState) (disk : Disk δ)
    : WorldSession δ :=
  let (prov, disk) := prov.openPath fs disk (pathFromName wd.name)
  let edge := WorldMemory.prepareOobChunk WorldGenerator.generateEdge
  { disk, inf := wd, gen, prov, mem := .new wd.width wd.depth edge, opened := [] }

def generatorOf (name : Bytes) : WorldGenerator :=
  match WorldGenerator.create name with
  | some gen => gen
  | none => .flatgrass

/--
There is no world if the path is not one of a world, or its level.dat is corrupt.
-/
def loadFrom (disk : Disk δ) (path : Bytes) : Except LoadError (Option (WorldSession δ)) :=
  if ¬ disk.claims fs path then
    .ok none
  else
    let (prov, disk) := ProviderState.new.openPath fs disk path
    match prov.loadWorldData fs zl.inflate disk with
    | .error (.worldLoadError _) => .ok none
    | .error err => .error err
    | .ok wd => .ok (some (new fs wd (generatorOf wd.genName) prov.close disk))

variable (s : WorldSession δ)

def opening (file : WorldFile) : List OpenedFile :=
  ⟨s.prov.wpath, file⟩ :: s.opened

def regionOf (pos : ChunkPos) : WorldFile :=
  .region (pos.x >>> (5 : Nat)) (pos.z >>> (5 : Nat))

/--
The provider is asked for what is not in memory.
-/
def loadChunk (pos : ChunkPos) : Except LoadError (Nat × WorldSession δ) :=
  match s.mem.getChunk pos.x pos.z with
  | some ch => .ok (ch, s)
  | none => do
    let prov ← AnvilWorldProvider.catchLoadError (s.prov.loadChunk fs zl.inflate s.disk pos)
    match s.mem.loadChunk prov s.gen pos.x pos.z with
    | .error fault => .error (.fault fault)
    | .ok (ch, mem) => .ok (ch, { s with mem, opened := s.opening (regionOf pos) })

def saveChunk (ch : Chunk) : Except Fault (WorldSession δ) := do
  let disk ← s.prov.saveChunk fs zl.zlib s.disk ch
  return { s with disk, opened := s.opening (regionOf ch.pos) }

/--
`chs` are the chunks that are still to be saved.
-/
def saveChunks : List Nat → WorldSession δ → Except Fault (WorldSession δ)
  | [], s => .ok s
  | ch :: chs, s => do
    let obj ← s.mem.get ch
    let s ← s.saveChunk fs zl obj.chunk
    saveChunks chs s

def saveWorldData : Except Fault (WorldSession δ) := do
  let disk ← s.prov.saveWorldData fs zl.gzip s.disk s.inf
  return { s with disk, opened := s.opening .levelDat }

def saveAll : Except Fault (WorldSession δ) := do
  let s ← saveChunks fs zl (s.mem.chunks.entries.map (·.2)) s
  s.saveWorldData fs zl

/--
A change of a chunk that leaves it where it is.
-/
structure Edit where
  apply : Chunk → Chunk
  pos_apply : ∀ ch, (apply ch).pos = ch.pos

/--
What the server does with a world.
-/
inductive Action where
  | loadChunk (pos : ChunkPos) (isInt : pos.IsInt)
  | edit (ch : Nat) (f : Edit)
  | saveAll

/--
A step of the server, unless it crashes.
-/
def step (s : WorldSession δ) : Action → Option (WorldSession δ)
  | .loadChunk pos _ => (s.loadChunk fs zl pos).toOption.map (·.2)
  | .edit ch f => (s.mem.editChunk ch f.apply).toOption.map (fun mem => { s with mem })
  | .saveAll => (s.saveAll fs zl).toOption

end WorldSession

end HCraft
