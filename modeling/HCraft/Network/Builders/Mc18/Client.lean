import HCraft.Network.Builders.Mc18.Lemmas.ChunkData
import HCraft.Network.Builders.Mc18.Packets
import HCraft.Network.Handlers.Mc18

/-!
This module contains what a client of protocol 1.8 makes of the packets it receives.
-/

namespace HCraft

/--
Numbers with a fraction are their bits.
-/
inductive ClientPacket where
  | statusResponse (str : Bytes)
  | statusPing (time : UInt64)
  | loginDisconnect (js : Bytes)
  | encryptionRequest (sid pkey vtoken : Bytes)
  | loginSuccess (uuid username : Bytes)
  | keepAlive (id : Int)
  | joinGame (eid : UInt32) (gm dim diff maxp : UInt8) (levelType : Bytes) (reducedDebug : Bool)
  | chatMessage (js : Bytes) (pos : UInt8)
  | spawnPosition (pos : UInt64)
  | playerPositionAndLook (x y z : UInt64) (yaw pitch : UInt32) (flags : UInt8)
  | spawnPlayer (eid : Int) (uuid : Bytes) (x y z : UInt32) (yaw pitch : UInt8) (currItem : UInt16)
      (metadata : List (Int × MetadataValue))
  | chunkData (cx cz : UInt32) (mask : UInt16) (subs : Fin 16 → Option SubChunk)
      (biomes : Option (Fin 256 → UInt8))
  | unloadChunk (cx cz : UInt32)
  | playerListAdd (uuid name : Bytes) (gm ping : Int)
  | playerListRemove (uuid : Bytes)
  | disconnect (js : Bytes)
  | setCompression (threshold : Int)

namespace ClientPacket

/--
The state a client is in after a packet.
-/
def next (state : ProtocolState) : ClientPacket → ProtocolState
  | .loginSuccess _ _ => .play
  | _ => state

/--
A whole chunk without sub-chunks is one to be unloaded.
-/
def readChunk (reader : PacketReader) : Option (ClientPacket × PacketReader) := do
  let ([.int cx, .int cz, .bool cont, .short mask, .varint size], reader) ←
    readFields [.int, .int, .bool, .short, .varint] reader | none
  let (payload, reader) ← reader.readBytes size.toNat
  if cont ∧ mask = 0 then
    return (.unloadChunk cx cz, reader)
  else
    return (.chunkData cx cz mask (Mc18PacketBuilder.sliceSubs mask payload)
      (Mc18PacketBuilder.sliceBiomes cont mask payload), reader)

/--
A list item with one element.
-/
def readListItem (reader : PacketReader) : Option (ClientPacket × PacketReader) := do
  let ([.varint action, .varint 1, .bytes uuid], reader) ←
    readFields [.varint, .varint, .bytes 16] reader | none
  if action = 0 then do
    let ([.string name, .varint 0, .varint gm, .varint ping, .bool false], reader) ←
      readFields [.string, .varint, .varint, .varint, .bool] reader | none
    return (.playerListAdd uuid name gm ping, reader)
  else if action = 4 then
    return (.playerListRemove uuid, reader)
  else
    none

def readEncryptionRequest (reader : PacketReader) : Option (ClientPacket × PacketReader) := do
  let ([.string sid, .varint keylen], reader) ← readFields [.string, .varint] reader | none
  let ([.bytes pkey, .varint len], reader) ←
    readFields [.bytes keylen.toNat, .varint] reader | none
  let (vtoken, reader) ← reader.readBytes len.toNat
  return (.encryptionRequest sid pkey vtoken, reader)

def readSpawnPlayer (reader : PacketReader) : Option (ClientPacket × PacketReader) := do
  let ([.varint eid, .bytes uuid, .int x, .int y, .int z, .byte yaw, .byte pitch, .short currItem],
    reader) ← readFields [.varint, .bytes 16, .int, .int, .int, .byte, .byte, .short] reader | none
  let (metadata, reader) ← reader.readMetadata
  return (.spawnPlayer eid uuid x y z yaw pitch currItem metadata, reader)

/--
A packet behind its opcode.
-/
def readPayload (state : ProtocolState) (opcode : Int) (reader : PacketReader)
    : Option (ClientPacket × PacketReader) :=
  match state with
  | .handshake => none
  | .status =>
    if opcode = 0x00 then do
      let ([.string str], reader) ← readFields [.string] reader | none
      return (.statusResponse str, reader)
    else if opcode = 0x01 then do
      let ([.long time], reader) ← readFields [.long] reader | none
      return (.statusPing time, reader)
    else
      none
  | .login =>
    if opcode = 0x00 then do
      let ([.string js], reader) ← readFields [.string] reader | none
      return (.loginDisconnect js, reader)
    else if opcode = 0x01 then
      readEncryptionRequest reader
    else if opcode = 0x02 then do
      let ([.string uuid, .string username], reader) ← readFields [.string, .string] reader | none
      return (.loginSuccess uuid username, reader)
    else
      none
  | .play =>
    if opcode = 0x00 then do
      let ([.varint id], reader) ← readFields [.varint] reader | none
      return (.keepAlive id, reader)
    else if opcode = 0x01 then do
      let ([.int eid, .byte gm, .byte dim, .byte diff, .byte maxp, .string levelType,
        .bool reducedDebug], reader) ←
          readFields [.int, .byte, .byte, .byte, .byte, .string, .bool] reader | none
      return (.joinGame eid gm dim diff maxp levelType reducedDebug, reader)
    else if opcode = 0x02 then do
      let ([.string js, .byte pos], reader) ← readFields [.string, .byte] reader | none
      return (.chatMessage js pos, reader)
    else if opcode = 0x05 then do
      let ([.long pos], reader) ← readFields [.long] reader | none
      return (.spawnPosition pos, reader)
    else if opcode = 0x08 then do
      let ([.double x, .double y, .double z, .float yaw, .float pitch, .byte flags], reader) ←
        readFields [.double, .double, .double, .float, .float, .byte] reader | none
      return (.playerPositionAndLook x y z yaw pitch flags, reader)
    else if opcode = 0x0C then
      readSpawnPlayer reader
    else if opcode = 0x21 then
      readChunk reader
    else if opcode = 0x38 then
      readListItem reader
    else if opcode = 0x40 then do
      let ([.string js], reader) ← readFields [.string] reader | none
      return (.disconnect js, reader)
    else if opcode = 0x46 then do
      let ([.varint threshold], reader) ← readFields [.varint] reader | none
      return (.setCompression threshold, reader)
    else
      none

/--
A packet is refused unless it is as long as it says.
-/
def read (state : ProtocolState) (reader : PacketReader) : Option (ClientPacket × PacketReader) := do
  let (len, reader) ← reader.readVarint
  let (opcode, reader') ← reader.readVarint
  let (packet, reader') ← readPayload state opcode reader'
  if reader'.pos = reader.pos.map (· + len.toNat) then
    return (packet, reader')
  else
    none

/--
All packets up to the end of the stream. A packet takes a byte at least.
-/
def readAll (fuel : Nat) (state : ProtocolState) (reader : PacketReader) : Option (List ClientPacket) :=
  match fuel with
  | 0 => none
  | fuel + 1 =>
    if reader.pos = some reader.arr.length then
      some []
    else do
      let (packet, reader) ← read state reader
      let packets ← readAll fuel (packet.next state) reader
      return packet :: packets

def readStream (state : ProtocolState) (stream : Bytes) : Option (List ClientPacket) :=
  readAll (stream.length + 1) state (.ofPacket stream [])

end ClientPacket

namespace Mc18PacketBuilder

/--
The calls of the functions of the builder.
-/
inductive Call where
  | statusResponse (str : Bytes)
  | statusPing (time : UInt64)
  | encryptionRequest (sid q : Bytes) (vtoken : Fin 4 → UInt8)
  | loginSuccess (uuid username : Bytes)
  | loginDisconnect (msg : Bytes)
  | keepAlive (id : Int)
  | joinGame (eid : Int) (gm dim diff maxp : UInt8) (levelType : Bytes) (reducedDebug : Bool)
  | chatMessage (js : Bytes) (pos : Int)
  | chatText (msg : Bytes)
  | spawnPosition (x y z : Int)
  | playerPositionAndLook (x y z : UInt64) (yaw pitch : UInt32) (flags : UInt8)
  | chunkData (cx cz : Int) (cont : Bool) (mask : UInt16) (ch : Chunk)
  | unloadChunk (cx cz : Int)
  | disconnect (msg : Bytes)
  | setCompression (threshold : Int)
  | playerListAdd (uuid : Uuid) (name : Bytes) (gm : GameMode) (ping : Int)
  | playerListRemove (uuid : Uuid)
  | spawnPlayer (eid : Int) (uuid : Uuid) (x y z yaw pitch : Coord) (currItem : UInt16)
      (metadata : EntityMetadata)

variable {ν : Type} [Double ν] (order : MemberOrder ν)

def Call.make : Call → Except Fault Packet
  | .statusResponse str => makeStatusResponse str
  | .statusPing time => makeStatusPing time
  | .encryptionRequest sid q vtoken => makeEncryptionRequest sid q vtoken
  | .loginSuccess uuid username => makeLoginSuccess uuid username
  | .loginDisconnect msg => makeLoginDisconnect order msg
  | .keepAlive id => makeKeepAlive id
  | .joinGame eid gm dim diff maxp levelType reducedDebug =>
    makeJoinGame eid gm dim diff maxp levelType reducedDebug
  | .chatMessage js pos => makeChatMessage js pos
  | .chatText msg => makeChatText order msg
  | .spawnPosition x y z => makeSpawnPosition x y z
  | .playerPositionAndLook x y z yaw pitch flags => makePlayerPositionAndLook x y z yaw pitch flags
  | .chunkData cx cz cont mask ch => makeChunkData cx cz cont mask ch
  | .unloadChunk cx cz => makeUnloadChunk cx cz
  | .disconnect msg => makeDisconnect order msg
  | .setCompression threshold => makeSetCompression threshold
  | .playerListAdd uuid name gm ping => makePlayerListAdd uuid name gm ping
  | .playerListRemove uuid => makePlayerListRemove uuid
  | .spawnPlayer eid uuid x y z yaw pitch currItem metadata =>
    makeSpawnPlayer eid uuid x y z yaw pitch currItem metadata

end Mc18PacketBuilder

end HCraft
