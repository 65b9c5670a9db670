import HCraft.Inv.Window.Impl
import HCraft.Network.Packet

/-!
This module contains the metadata of entities, how it is put to a packet, and how a client reads it.
-/

namespace HCraft

def EMPTY_SLOT_VALUE : UInt16 := 0xFFFF

/--
Numbers with a fraction are their bits, and so are those with a sign.
-/
inductive MetadataValue where
  | byte (u8 : UInt8)
  | short (u16 : UInt16)
  | int (u32 : UInt32)
  | float (f32 : UInt32)
  | string (str : Bytes)
  | slot (slot : SlotItem)
  | pos (x y z : UInt32)
  | rot (pitch yaw roll : UInt32)
  deriving DecidableEq

/--
`entity_metadata_type`
-/
def MetadataValue.type : MetadataValue → UInt8
  | .byte _ => 0
  | .short _ => 1
  | .int _ => 2
  | .float _ => 3
  | .string _ => 4
  | .slot _ => 5
  | .pos _ _ _ => 6
  | .rot _ _ _ => 7

/--
The entries in the order in which an iteration finds them.
-/
structure EntityMetadata where
  data : List (Int × MetadataValue)
  nodup : (data.map Prod.fst).Nodup

namespace EntityMetadata

def new : EntityMetadata :=
  { data := [], nodup := List.nodup_nil }

/--
`data[index] = val`. An iteration may come to a new entry at any time, here it is the first one.
-/
def put (metadata : EntityMetadata) (index : Int) (val : MetadataValue) : EntityMetadata where
  data := (index, val) :: metadata.data.filter (fun entry => entry.1 ≠ index)
  nodup := by
    rw [List.map_cons, List.nodup_cons]
    constructor
    . intro hmem
      obtain ⟨entry, hentry, heq⟩ := List.mem_map.mp hmem
      simpa [heq] using List.of_mem_filter hentry
    . exact metadata.nodup.sublist (List.filter_sublist.map _)

def putByte (metadata : EntityMetadata) (index : Int) (val : UInt8) : EntityMetadata :=
  metadata.put index (.byte val)

def putShort (metadata : EntityMetadata) (index : Int) (val : UInt16) : EntityMetadata :=
  metadata.put index (.short val)

def putInt (metadata : EntityMetadata) (index : Int) (val : UInt32) : EntityMetadata :=
  metadata.put index (.int val)

def putFloat (metadata : EntityMetadata) (index : Int) (val : UInt32) : EntityMetadata :=
  metadata.put index (.float val)

def putString (metadata : EntityMetadata) (index : Int) (str : Bytes) : EntityMetadata :=
  metadata.put index (.string str)

def putSlot (metadata : EntityMetadata) (index : Int) (slot : SlotItem) : EntityMetadata :=
  metadata.put index (.slot slot)

def putPos (metadata : EntityMetadata) (index : Int) (x y z : UInt32) : EntityMetadata :=
  metadata.put index (.pos x y z)

def putRot (metadata : EntityMetadata) (index : Int) (pitch yaw roll : UInt32) : EntityMetadata :=
  metadata.put index (.rot pitch yaw roll)

def header (type : UInt8) (index : Int) : UInt8 :=
  type <<< 5 ||| UInt8.ofNat (index % 256).toNat

def amountByte (amount : Int) : UInt8 :=
  UInt8.ofNat ((if amount > 255 then 255 else amount) % 256).toNat

def encodeValue (pack : Packet) : MetadataValue → Except Fault Packet
  | .byte u8 => pack.putByte u8
  | .short u16 => pack.putShort u16
  | .int u32 => pack.putInt u32
  | .float f32 => pack.putFloat f32
  | .string str => do
    let len := str.length % 2 ^ 32
    let pack ← pack.putVarint (Bin.int32 len)
    pack.putBytes (str.take len)
  | .slot slot => do
    let pack ← pack.putShort slot.id
    if slot.id ≠ EMPTY_SLOT_VALUE then
      let pack ← pack.putByte (amountByte slot.amount)
      let pack ← pack.putShort slot.damage
      pack.putByte 0 -- NBT
    else
      return pack
  | .pos x y z => do
    let pack ← pack.putInt x
    let pack ← pack.putInt y
    pack.putInt z
  | .rot pitch yaw roll => do
    let pack ← pack.putFloat pitch
    let pack ← pack.putFloat yaw
    pack.putFloat roll

def encodeEntry (pack : Packet) (entry : Int × MetadataValue) : Except Fault Packet := do
  let pack ← pack.putByte (header entry.2.type entry.1)
  encodeValue pack entry.2

def encode (metadata : EntityMetadata) (pack : Packet) : Except Fault Packet := do
  let pack ← metadata.data.foldlM encodeEntry pack
  pack.putByte 127

end EntityMetadata

namespace PacketReader

/--
The length of a string is a 32-bit number.
-/
def readMetadataValue (reader : PacketReader) (type : UInt8) : Option (MetadataValue × PacketReader) :=
  if type = 0 then do
    let (u8, reader) ← reader.readByte
    return (.byte u8, reader)
  else if type = 1 then do
    let (u16, reader) ← reader.readShort
    return (.short u16, reader)
  else if type = 2 then do
    let (u32, reader) ← reader.readInt
    return (.int u32, reader)
  else if type = 3 then do
    let (f32, reader) ← reader.readFloat
    return (.float f32, reader)
  else if type = 4 then do
    let (len, reader) ← reader.readVarint
    let (str, reader) ← reader.readBytes (Bin.unsigned32 len)
    return (.string str, reader)
  else if type = 5 then do
    let (id, reader) ← reader.readShort
    if id ≠ EMPTY_SLOT_VALUE then
      let (amount, reader) ← reader.readByte
      let (damage, reader) ← reader.readShort
      let (_, reader) ← reader.readByte
      return (.slot ⟨id, damage, amount.toNat⟩, reader)
    else
      return (.slot ⟨id, 0, 0⟩, reader)
  else if type = 6 then do
    let (x, reader) ← reader.readInt
    let (y, reader) ← reader.readInt
    let (z, reader) ← reader.readInt
    return (.pos x y z, reader)
  else do
    let (pitch, reader) ← reader.readFloat
    let (yaw, reader) ← reader.readFloat
    let (roll, reader) ← reader.readFloat
    return (.rot pitch yaw roll, reader)

/--
At most `fuel` entries, and the byte 127.
-/
def readEntries (fuel : Nat) (reader : PacketReader)
    : Option (List (Int × MetadataValue) × PacketReader) :=
  match fuel with
  | 0 => none
  | fuel + 1 => do
    let (head, reader) ← reader.readByte
    if head = 127 then
      return ([], reader)
    else
      let (val, reader) ← reader.readMetadataValue (head >>> 5)
      let (entries, reader) ← readEntries fuel reader
      return ((((head &&& 31).toNat : Int), val) :: entries, reader)

/--
What the format means to a client. Every entry takes a byte at least.
-/
def readMetadata (reader : PacketReader) : Option (List (Int × MetadataValue) × PacketReader) :=
  reader.readEntries (reader.arr.length + 1)

end PacketReader

end HCraft
