import HCraft.Util.FStream
import HCraft.Util.Fault
import HCraft.Util.Nbt.Impl
import Mathlib.Data.List.FinRange
import Mathlib.Logic.Function.Basic

/-!
This module contains the region files of `anvil_world_provider`. A chunk that is to be saved is the
compressed data `_make_chunk_data` makes of it, and loading one ends where its data is handed to the
NBT reader.
-/

namespace HCraft

open Bin Slice

/--
`wpath` is fixed, so a region file is known by its coordinates.
-/
structure AnvilWorldProvider where
  regions : Int × Int → Option Bytes

inductive LoadError where
  | fault (fault : Fault)
  | badArrayNewLength
  | worldLoadError (what : String)
  deriving DecidableEq, Repr

namespace AnvilWorldProvider

/--
The place of a chunk in the header of its region file. `% 32` is `& 31` of a negative number as well.
-/
def cindex (x z : Int) : Nat :=
  (z % 32).toNat <<< 5 ||| (x % 32).toNat

/--
The number in the first three bytes of a header entry, read into `b[4] = { 0 }` behind a zero byte,
so that it is not negative.
-/
def readLocation (b : Bytes) : Nat :=
  ((readIntBe (0 :: b.rightpad 3 0)).getD 0).toNat

def createEmptyRegion : Bytes :=
  List.replicate 4096 0 -- locations
    ++ List.replicate 4096 0 -- timestamps

def pad (dataLen : Nat) : Nat :=
  if dataLen &&& 4095 ≠ 0 then 4096 - (dataLen &&& 4095) else 0

def appendChunk (fs : FStream) (cx cz : Int) (data : Bytes) : FStream :=
  let dataLen := data.length + 5
  let finalLen := pad dataLen + dataLen
  let fs := fs.seekEnd
  let fpos := wrap32 fs.tell
  let fs := fs.write (writeIntBe (data.length + 1))
  let fs := fs.put 2 -- compression type: zlib
  let fs := fs.write data
  let fs := fs.write (List.replicate (pad dataLen) 0)
  -- update header
  let fs := fs.seek (4 * cindex cx cz : Nat)
  let fs := fs.write ((writeIntBe (unsigned32 (fpos >>> (12 : Nat)))).drop 1)
  fs.put (UInt8.ofNat (finalLen >>> 12))

structure MoveData where
  x : Nat
  z : Nat
  data : Bytes
  pos : Nat

def overwriteChunk.readSectors (fs : FStream) (loc size : Nat) : Bytes × FStream :=
  let ppos := wrap32 fs.tell
  let fs := fs.seek (int32 (loc <<< 12))
  let (data, fs) := fs.read (size <<< 12)
  (data, fs.seek ppos)

/--
The chunks that are in the way, which is to say in the sectors from `sStart` to `sEnd`.
-/
def overwriteChunk.toMove (hdr : Bytes) (sStart sEnd : Int)
    : List (Fin 1024) → FStream → Except Fault (List MoveData × FStream)
  | [], fs => .ok ([], fs)
  | i :: is, fs =>
    let loc := readLocation (slice hdr (i * 4) 3)
    if (loc : Int) = sStart then
      toMove hdr sStart sEnd is fs
    else
      let size := (hdr.getD (i * 4 + 3) 0).toNat
      if (loc : Int) ≥ sStart ∧ (loc : Int) < sEnd then
        let (data, fs) := readSectors fs loc size
        if data.length < size <<< 12 then
          .error .uninitialised
        else do
          let (ms, fs) ← toMove hdr sStart sEnd is fs
          .ok (⟨i.val % 32, i.val >>> 5, data, 0⟩ :: ms, fs) -- `pos` is set by `move`
      else
        toMove hdr sStart sEnd is fs

def overwriteChunk.move : List MoveData → FStream → List MoveData × FStream
  | [], fs => ([], fs)
  | m :: ms, fs =>
    let m := { m with pos := unsigned32 fs.tell }
    let fs := fs.write m.data
    let (ms, fs) := move ms fs
    (m :: ms, fs)

def overwriteChunk.updateHeader (hdr : Bytes) : List MoveData → Bytes
  | [] => hdr
  | m :: ms =>
    updateHeader (patch 0 hdr (4 * (m.z <<< 5 ||| m.x)) ((writeIntBe (m.pos >>> 12)).drop 1)) ms

def overwriteChunk.rewrite (fs : FStream) (cx cz : Int) (data : Bytes) (location : Int)
    (hdr : Bytes) (ms : List MoveData) : FStream :=
  let dataLen := data.length + 5
  let finalLen := pad dataLen + dataLen
  let fs := fs.seek location
  let fs := fs.write (writeIntBe (data.length + 1))
  let fs := fs.put 2 -- compression type: zlib
  let fs := fs.write data
  let fs := fs.write (List.replicate (pad dataLen) 0)
  -- copy overwritten chunks to end
  let fs := fs.seekEnd
  let (ms, fs) := move ms fs
  -- update header
  let hdr := patch 0 hdr (cindex cx cz * 4 + 3) [UInt8.ofNat (finalLen >>> 12)]
  let hdr := updateHeader hdr ms
  let fs := fs.seek 0
  let fs := fs.write hdr
  fs.seekEnd

def overwriteChunk (fs : FStream) (cx cz : Int) (data : Bytes) (location prevSize : Int)
    : Except Fault FStream :=
  let dataLen := data.length + 5
  let finalLen := pad dataLen + dataLen
  let sStart := location >>> (12 : Nat)
  let sEnd := sStart + (finalLen >>> 12 : Nat)
  -- read header
  let fs := fs.seek 0
  let (hdr, fs) := fs.read 4096
  if hdr.length < 4096 then
    .error .uninitialised
  else if ((finalLen >>> 12 : Nat) : Int) > prevSize then do
    -- check header for chunks that are in the way
    let (ms, fs) ← overwriteChunk.toMove hdr sStart sEnd (List.finRange 1024) fs
    .ok (overwriteChunk.rewrite fs cx cz data location hdr ms)
  else
    .ok (overwriteChunk.rewrite fs cx cz data location hdr [])

/--
`save_chunk` after it has opened the region file.
-/
def saveInRegion (fs : FStream) (cx cz : Int) (data : Bytes) : Except Fault FStream :=
  -- read location
  let fs := fs.seek (4 * cindex cx cz : Nat)
  let (buf, fs) := fs.read 3
  let loc := unsigned32 (int32 (readLocation buf <<< 12))
  let (size, fs) := fs.get
  if loc = 0 then
    -- chunk does not exist, append it to the end of the region file
    .ok (appendChunk fs cx cz data)
  else
    -- chunk exists
    overwriteChunk fs cx cz data (int32 loc) size

def saveChunk (prov : AnvilWorldProvider) (cx cz : Int) (data : Bytes)
    : Except Fault AnvilWorldProvider := do
  let r := (cx >>> (5 : Nat), cz >>> (5 : Nat))
  let file := (prov.regions r).getD createEmptyRegion
  let fs ← saveInRegion (.ofFile file) cx cz data
  .ok { regions := Function.update prov.regions r (some fs.data) }

def compressionStrategy (compressionType : UInt8) : Option NbtCompressionStrategy :=
  if compressionType = 1 then
    some .gzip
  else if compressionType = 2 then
    some .zlib
  else
    none

/--
What `load_chunk` hands to the NBT reader of the sectors of a chunk. A block of `len` bytes has been
allocated for them, the front of which is `data`.
-/
def chunkData (data : Bytes) (len : Nat) : Except LoadError (NbtCompressionStrategy × Bytes) :=
  if len < 5 then
    .error (.fault .readOutside)
  else
    match readIntBe data, data[4]? with
    | some n, some compressionType =>
      let compressedLen := wrap32 (n - 1)
      match compressionStrategy compressionType with
      | none => .error (.worldLoadError "invalid compression type")
      | some st =>
        if compressedLen < 0 ∨ 5 + compressedLen > len then
          .error (.fault .readOutside)
        else if 5 + compressedLen > data.length then
          .error (.fault .uninitialised)
        else
          .ok (st, slice data 5 compressedLen.toNat)
    | _, _ => .error (.fault .uninitialised)

/--
`load_chunk` after it has opened the region file.
-/
def loadFromRegion (fs : FStream) (x z : Int)
    : Except LoadError (Option (NbtCompressionStrategy × Bytes)) :=
  let fs := fs.seek (cindex x z * 4 : Nat)
  let (b, fs) := fs.read 3
  let loc := readLocation b
  let (size, fs) := fs.get
  if loc = 0 then
    .ok none -- chunk not in region file
  else if size < 0 then
    .error .badArrayNewLength
  else
    let fs := fs.seek (int32 (loc <<< 12))
    let (data, _) := fs.read (size.toNat <<< 12)
    (chunkData data (size.toNat <<< 12)).map some

/--
What `load_chunk` hands to the NBT reader, if it finds the chunk.
-/
def loadChunk (prov : AnvilWorldProvider) (x z : Int)
    : Except LoadError (Option (NbtCompressionStrategy × Bytes)) :=
  match prov.regions (x >>> (5 : Nat), z >>> (5 : Nat)) with
  | none => .ok none
  | some file => loadFromRegion (.ofFile file) x z

end AnvilWorldProvider

end HCraft
