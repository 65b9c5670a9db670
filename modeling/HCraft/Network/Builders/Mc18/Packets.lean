import HCraft.Entity.Impl
import HCraft.Entity.Metadata
import HCraft.Network.Builders.Mc18.Impl
import HCraft.Util.Json.Impl
import HCraft.Util.Uuid.Impl
import Mathlib.Algebra.Field.Rat

/-!
This module contains the packets of the 1.8 protocol that have nothing to do with chunks.
-/

namespace HCraft

inductive GameMode where
  | survival
  | creative
  deriving DecidableEq, Repr

/--
The order in which an iteration comes to the members of an object.
-/
structure MemberOrder (ν : Type) where
  visit : List (Bytes × JValue ν) → List (Bytes × JValue ν)
  perm : ∀ vals, (visit vals).Perm vals

namespace Mc18PacketBuilder

/--
`str.c_str ()`
-/
def cStr (str : Bytes) : Bytes :=
  str.takeWhile (· ≠ 0)

/--
`_to_angle`. That `float`s of less than 360 are rounded when they are divided by 360 does not matter, as
this is too little to get to the next of the 256 angles.
-/
def toAngle (v : Coord) : UInt8 :=
  let turned : Coord := v.map (fun v => (v - 360 * ((v / 360).num.tdiv (v / 360).den : Int)) / 360 * 256)
  UInt8.ofNat (Coord.toInt turned % 256).toNat

/--
`(int)(x * 32.0)`
-/
def toFixed (x : Coord) : UInt32 :=
  UInt32.ofNat (Bin.unsigned32 (Coord.toInt (x.map (· * 32))))

/--
`"text"`
-/
def textKey : Bytes :=
  [116, 101, 120, 116]

/--
`"color"`
-/
def colorKey : Bytes :=
  [99, 111, 108, 111, 114]

/--
`"red"`
-/
def red : Bytes :=
  [114, 101, 100]

/--
The loop that puts the parts of a UUID.
-/
def putUuid (pack : Packet) (uuid : Uuid) : Except Fault Packet :=
  (List.finRange 16).foldlM (fun pack i => pack.putByte (uuid.parts i)) pack

section Status

def makeStatusResponse (str : Bytes) : Except Fault Packet := do
  let pack ← (Packet.new 16 5).putVarint 0x00 -- opcode
  let pack ← pack.putString (cStr str)
  pack.putLen

def makeStatusPing (time : UInt64) : Except Fault Packet := do
  let pack ← (Packet.new 16 5).putVarint 0x01 -- opcode
  let pack ← pack.putLong time
  pack.putLen

end Status

section Login

/--
`q` is what `pkey.Save` puts in the queue.
-/
def makeEncryptionRequest (sid q : Bytes) (vtoken : Fin 4 → UInt8) : Except Fault Packet := do
  let buf := q.take 384
  let pack ← (Packet.new 16 5).putVarint 0x01 -- opcode
  let pack ← pack.putString (cStr sid)
  let pack ← pack.putVarint buf.length
  let pack ← pack.putBytes buf
  let pack ← pack.putVarint 4
  let pack ← pack.putBytes (List.ofFn vtoken)
  pack.putLen

def makeLoginSuccess (uuid username : Bytes) : Except Fault Packet := do
  let pack ← (Packet.new 16 5).putVarint 0x02 -- opcode
  let pack ← pack.putString (cStr uuid)
  let pack ← pack.putString (cStr username)
  pack.putLen

variable {ν : Type} [Double ν] (order : MemberOrder ν)

/--
What both packets that tell why a client is disconnected have in common.
-/
def makeDisconnectWith (opcode : Int) (msg : Bytes) : Except Fault Packet := do
  let pack ← (Packet.new 16 5).putVarint opcode
  let members := JsonReader.setMember textKey (.string msg) []
  let members := JsonReader.setMember colorKey (.string red) members
  let ss ← JsonWriter.write .packed 0 (.object (order.visit members))
  let pack ← pack.putString (cStr ss)
  pack.putLen

def makeLoginDisconnect (msg : Bytes) : Except Fault Packet :=
  makeDisconnectWith order 0x00 msg

end Login

section Play

def makeKeepAlive (id : Int) : Except Fault Packet := do
  let pack ← (Packet.new 16 5).putVarint 0x00 -- opcode
  let pack ← pack.putVarint id
  pack.putLen

def makeJoinGame (eid : Int) (gm dim diff maxp : UInt8) (levelType : Bytes) (reducedDebug : Bool)
    : Except Fault Packet := do
  let pack ← (Packet.new 16 5).putVarint 0x01 -- opcode
  let pack ← pack.putInt (UInt32.ofNat (Bin.unsigned32 eid))
  let pack ← pack.putByte gm
  let pack ← pack.putByte dim
  let pack ← pack.putByte diff
  let pack ← pack.putByte maxp
  let pack ← pack.putString (cStr levelType)
  let pack ← pack.putByte (if reducedDebug then 1 else 0)
  pack.putLen

/--
`make_chat_message (js, pos)`
-/
def makeChatMessage (js : Bytes) (pos : Int) : Except Fault Packet := do
  let pack ← (Packet.new 16 5).putVarint 0x02 -- opcode
  let pack ← pack.putString (cStr js)
  let pack ← pack.putByte (UInt8.ofNat (pos % 256).toNat)
  pack.putLen

def makePlayerPositionAndLook (x y z : UInt64) (yaw pitch : UInt32) (flags : UInt8)
    : Except Fault Packet := do
  let pack ← (Packet.new 16 5).putVarint 0x08 -- opcode
  let pack ← pack.putDouble x
  let pack ← pack.putDouble y
  let pack ← pack.putDouble z
  let pack ← pack.putFloat yaw
  let pack ← pack.putFloat pitch
  let pack ← pack.putByte flags
  pack.putLen

def makeUnloadChunk (cx cz : Int) : Except Fault Packet := do
  let pack ← (Packet.new 16 5).putVarint 0x21 -- opcode
  let pack ← pack.putInt (UInt32.ofNat (Bin.unsigned32 cx))
  let pack ← pack.putInt (UInt32.ofNat (Bin.unsigned32 cz))
  let pack ← pack.putBool true -- ground-up continuous
  let pack ← pack.putShort 0   -- primary bitmask
  let pack ← pack.putVarint 0  -- data size
  pack.putLen

def makeSetCompression (threshold : Int) : Except Fault Packet := do
  let pack ← (Packet.new 16 5).putVarint 0x46 -- opcode
  let pack ← pack.putVarint threshold
  pack.putLen

def makePlayerListAdd (uuid : Uuid) (name : Bytes) (gm : GameMode) (ping : Int)
    : Except Fault Packet := do
  let pack ← (Packet.new 16 5).putVarint 0x38 -- opcode
  let pack ← pack.putVarint 0 -- action (add player)
  let pack ← pack.putVarint 1 -- number of elements
  let pack ← putUuid pack uuid
  let pack ← pack.putString (cStr name)
  let pack ← pack.putVarint 0 -- number of properties
  let pack ← pack.putVarint (if gm = .creative then 1 else 0)
  let pack ← pack.putVarint ping
  let pack ← pack.putBool false -- has display name
  pack.putLen

def makePlayerListRemove (uuid : Uuid) : Except Fault Packet := do
  let pack ← (Packet.new 16 5).putVarint 0x38 -- opcode
  let pack ← pack.putVarint 4 -- action (remove player)
  let pack ← pack.putVarint 1 -- number of elements
  let pack ← putUuid pack uuid
  pack.putLen

def makeSpawnPlayer (eid : Int) (uuid : Uuid) (x y z yaw pitch : Coord) (currItem : UInt16)
    (metadata : EntityMetadata) : Except Fault Packet := do
  let pack ← (Packet.new 16 5).putVarint 0x0C -- opcode
  let pack ← pack.putVarint eid
  let pack ← putUuid pack uuid
  let pack ← pack.putInt (toFixed x)
  let pack ← pack.putInt (toFixed y)
  let pack ← pack.putInt (toFixed z)
  let pack ← pack.putByte (toAngle yaw)
  let pack ← pack.putByte (toAngle pitch)
  let pack ← pack.putShort currItem
  let pack ← metadata.encode pack
  pack.putLen

variable {ν : Type} [Double ν] (order : MemberOrder ν)

/--
`make_chat_message (msg)`
-/
def makeChatText (msg : Bytes) : Except Fault Packet := do
  let members := JsonReader.setMember textKey (.string msg) []
  let ss ← JsonWriter.write .packed 0 (.object (order.visit members))
  makeChatMessage ss 0

def makeDisconnect (msg : Bytes) : Except Fault Packet :=
  makeDisconnectWith order 0x40 msg

end Play

end Mc18PacketBuilder

end HCraft
