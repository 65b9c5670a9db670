import HCraft.Lib.Slice
import HCraft.Util.Binary
import HCraft.Util.Fault

/-!
This module contains the cursor packet handlers read from, and the packets that builders write to.
-/

namespace HCraft

/--
`arr` is the memory from the first byte of the packet on, the packet itself and what lies behind
it; nothing keeps the cursor inside the packet. `pos` is `none` once it has been moved by a variable
that was never set.
-/
structure PacketReader where
  arr : Bytes
  len : Nat
  pos : Option Nat

namespace PacketReader

/--
A copy of the `len` bytes of a packet, with `beyond` behind it on the heap.
-/
def ofPacket (packet beyond : Bytes) : PacketReader :=
  { arr := packet ++ beyond, len := packet.length, pos := some 0 }

def readVarint (reader : PacketReader) : Option (Int × PacketReader) := do
  let pos ← reader.pos
  let (v, vl) ← Bin.readVarint (reader.arr.drop pos)
  return (v, { reader with pos := vl.map (pos + ·) })

/--
A field of `n` bytes.
-/
def readFixed {α : Type} (n : Nat) (read : Bytes → Option α) (reader : PacketReader)
    : Option (α × PacketReader) := do
  let pos ← reader.pos
  let v ← read (reader.arr.drop pos)
  return (v, { reader with pos := some (pos + n) })

def readByte (reader : PacketReader) : Option (UInt8 × PacketReader) :=
  reader.readFixed 1 List.head?

def readBool (reader : PacketReader) : Option (Bool × PacketReader) :=
  (reader.readFixed 1 List.head?).map (fun (v, reader) => (v != 0, reader))

def readShort (reader : PacketReader) : Option (UInt16 × PacketReader) :=
  (reader.readFixed 2 Bin.readShortBe).map (fun (v, reader) => (UInt16.ofNat v, reader))

def readInt (reader : PacketReader) : Option (UInt32 × PacketReader) :=
  (reader.readFixed 4 Bin.readIntBe).map
    (fun (v, reader) => (UInt32.ofNat (Bin.unsigned32 v), reader))

def readLong (reader : PacketReader) : Option (UInt64 × PacketReader) :=
  (reader.readFixed 8 Bin.readLongBe).map (fun (v, reader) => (UInt64.ofNat v, reader))

def readFloat (reader : PacketReader) : Option (UInt32 × PacketReader) :=
  reader.readInt

def readDouble (reader : PacketReader) : Option (UInt64 × PacketReader) :=
  reader.readLong

def readVarlong (reader : PacketReader) : Option (UInt64 × PacketReader) := do
  let pos ← reader.pos
  let (v, vl) ← Bin.readVarlong (reader.arr.drop pos)
  return (UInt64.ofNat v, { reader with pos := vl.map (pos + ·) })

/--
The string with its terminator, as far as a `char *` goes; `none` if the function returns `false`.
-/
def readString (reader : PacketReader) (len : Nat) : Option (Option Bytes × PacketReader) := do
  let pos ← reader.pos
  let (out, vl) ← Bin.readMcString (reader.arr.drop pos) len
  match out with
  | none => return (none, reader)
  | some out =>
    return (some (out.takeWhile (· ≠ 0)), { reader with pos := some (Bin.unsigned32 (pos + vl)) })

def readBytes (reader : PacketReader) (len : Nat) : Option (Bytes × PacketReader) :=
  reader.readFixed len (fun arr => if len ≤ arr.length then some (arr.take len) else none)

end PacketReader

/--
`data` are the `len` bytes from `arr` on, where a byte that was never written counts as zero. The
block that `arr` points into has `size` bytes, `rbeg` of them in front of `arr`.
-/
structure Packet where
  data : Bytes
  pos : Nat
  cap : Nat
  rbeg : Nat
  size : Nat

namespace Packet

def new (initCap reserveBeg : Nat) : Packet :=
  { data := [], pos := 0, cap := initCap, rbeg := reserveBeg, size := (reserveBeg + initCap) % 2 ^ 32 }

def expand (pack : Packet) (newCap : Nat) : Except Fault Packet :=
  if pack.cap ≥ newCap then
    .ok pack
  else
    let size := (pack.rbeg + newCap) % 2 ^ 32
    if pack.rbeg + pack.data.length > pack.size then
      .error .readOutside
    else if pack.rbeg + pack.data.length > size then
      .error .writeOutside
    else
      .ok { pack with cap := newCap, size }

def useReserved (pack : Packet) (count : Nat) : Except Fault Packet :=
  if count ≤ pack.rbeg then
    .ok { pack with
      data := List.replicate count 0 ++ pack.data
      pos := 0
      rbeg := pack.rbeg - count }
  else
    .error .writeOutside -- `arr` leaves the block

/--
A packet that has to grow for `bound` more bytes grows by `tenths`.
-/
def ensure (pack : Packet) (tenths bound : Nat) : Except Fault Packet :=
  if (pack.pos + bound) % 2 ^ 32 > pack.cap then
    pack.expand ((pack.cap * tenths % 2 ^ 32 / 10 + bound) % 2 ^ 32)
  else
    .ok pack

def store (pack : Packet) (arr : Bytes) : Except Fault Packet :=
  if pack.rbeg + pack.pos + arr.length ≤ pack.size then
    .ok { pack with
      data := Slice.patch 0 pack.data pack.pos arr
      pos := pack.pos + arr.length }
  else
    .error .writeOutside

/--
What all `put_*` do.
-/
def put (pack : Packet) (tenths bound : Nat) (arr : Bytes) : Except Fault Packet := do
  let pack ← pack.ensure tenths bound
  pack.store arr

def putBool (pack : Packet) (val : Bool) : Except Fault Packet :=
  pack.put 16 1 [if val then 1 else 0]

def putByte (pack : Packet) (val : UInt8) : Except Fault Packet :=
  pack.put 16 1 [val]

def putShort (pack : Packet) (val : UInt16) : Except Fault Packet :=
  pack.put 16 2 (Bin.writeShortBe val.toNat)

def putInt (pack : Packet) (val : UInt32) : Except Fault Packet :=
  pack.put 16 4 (Bin.writeIntBe val.toNat)

def putLong (pack : Packet) (val : UInt64) : Except Fault Packet :=
  pack.put 16 8 (Bin.writeLongBe val.toNat)

def putFloat (pack : Packet) (val : UInt32) : Except Fault Packet :=
  pack.put 16 4 (Bin.writeIntBe val.toNat)

def putDouble (pack : Packet) (val : UInt64) : Except Fault Packet :=
  pack.put 16 8 (Bin.writeLongBe val.toNat)

def putVarint (pack : Packet) (val : Int) : Except Fault Packet :=
  pack.put 16 5 (Bin.writeVarint (Bin.unsigned32 val))

def putVarlong (pack : Packet) (val : UInt64) : Except Fault Packet :=
  pack.put 16 10 (Bin.writeVarlong val.toNat)

/--
`write_mc_string` of `str.c_str ()`
-/
def mcString (str : Bytes) : Bytes :=
  let str := str.takeWhile (· ≠ 0)
  Bin.writeVarint (str.length % 2 ^ 32) ++ str

def strlenUpperBound (str : Bytes) : Nat :=
  5 + str.length

def putString (pack : Packet) (str : Bytes) : Except Fault Packet :=
  pack.put 14 (strlenUpperBound str) (mcString str)

def putBytes (pack : Packet) (arr : Bytes) : Except Fault Packet :=
  pack.put 11 arr.length arr

/--
`_put_len` of the builders
-/
def putLen (pack : Packet) : Except Fault Packet := do
  let a := Bin.writeVarint pack.data.length
  let pack ← pack.useReserved a.length
  pack.putBytes a

end Packet

end HCraft
