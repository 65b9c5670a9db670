import HCraft.Network.Packet
import HCraft.World.Chunk.Impl

/-!
This module contains the packets that carry chunks and the position where players start.
-/

namespace HCraft

/--
The mask that `on_chunk_loaded` computes.
-/
def Chunk.mask (ch : Chunk) : UInt16 :=
  (List.finRange 16).foldl
    (fun mask i => if (ch.subs i).isSome then mask ||| 1 <<< UInt16.ofNat i else mask) 0

/--
The array `types` on a little-endian host.
-/
def SubChunk.typesBytes (sub : SubChunk) : Bytes :=
  (List.finRange 4096).flatMap (fun i => [(sub.types i).toUInt8, (sub.types i >>> 8).toUInt8])

namespace Mc18PacketBuilder

/--
`mask & (1 << i)`
-/
def selects (mask : UInt16) (i : Fin 16) : Bool :=
  mask &&& 1 <<< UInt16.ofNat i != 0

def dataSize (cont : Bool) (mask : UInt16) : Int :=
  (List.finRange 16).foldl (fun size i => if selects mask i then size + 12288 else size)
    (if cont then 256 else 0)

/--
The loop that puts one array of every selected sub-chunk.
-/
def putSubs (pack : Packet) (mask : UInt16) (ch : Chunk) (array : SubChunk → Bytes)
    : Except Fault Packet :=
  (List.finRange 16).foldlM (fun pack i =>
    if selects mask i then
      match ch.subs i with
      | none => .error .nullPointer
      | some sub => pack.putBytes (array sub)
    else
      .ok pack) pack

def makeChunkData (cx cz : Int) (cont : Bool) (mask : UInt16) (ch : Chunk)
    : Except Fault Packet := do
  let pack ← (Packet.new 16 5).putVarint 0x21 -- opcode
  let pack ← pack.putInt (UInt32.ofNat (Bin.unsigned32 cx))
  let pack ← pack.putInt (UInt32.ofNat (Bin.unsigned32 cz))
  let pack ← pack.putBool cont
  let pack ← pack.putShort mask
  let pack ← pack.putVarint (dataSize cont mask)
  let pack ← putSubs pack mask ch SubChunk.typesBytes
  let pack ← putSubs pack mask ch (fun sub => List.ofFn sub.bl)
  let pack ← putSubs pack mask ch (fun sub => List.ofFn sub.sl)
  let pack ← if cont then pack.putBytes (List.ofFn ch.biomes) else .ok pack
  pack.putLen

/--
26 bits for `x`, 12 for `y` and 26 for `z`
-/
def packPos (x y z : Int) : UInt64 :=
  UInt64.ofNat (Bin.unsigned32 x &&& 0x3FFFFFF) <<< 38
    ||| UInt64.ofNat (Bin.unsigned32 y &&& 0xFFF) <<< 26
    ||| UInt64.ofNat (Bin.unsigned32 z &&& 0x3FFFFFF)

def makeSpawnPosition (x y z : Int) : Except Fault Packet := do
  let pack ← (Packet.new 16 5).putVarint 0x05 -- opcode
  let pack ← pack.putLong (packPos x y z)
  pack.putLen

end Mc18PacketBuilder

end HCraft
