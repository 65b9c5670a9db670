import HCraft.Inv.Window.Impl
import HCraft.Network.Handlers.Mc18.Fields
import HCraft.Network.Handlers.Mc18.Login

/-!
This module contains the handlers of the play state of the 1.8 protocol, and the sessions of a
handler in all of its states.
-/

namespace HCraft

open Mc18PacketHandler

namespace Mc18PacketHandler

/--
Where a packet goes, with what is left for a function to read.
-/
inductive Route where
  | ignored
  | disconnect
  | call (f : Handler) (rest : PacketReader)

def route (handler : Mc18PacketHandler) (reader : PacketReader) : Except Fault Route :=
  match handler.handle reader with
  | none => .error .readOutside
  | some .ignored => .ok .ignored
  | some .disconnect => .ok .disconnect
  | some (.call table opc) =>
    if opc < 0 then
      .error .readOutside -- what lies in front of the table is called
    else do
      let f ← Mc18Session.orOutside table[opc.toNat]?
      let (_, reader) ← Mc18Session.orOutside reader.readVarint
      let (_, reader) ← Mc18Session.orOutside reader.readVarint
      return .call f reader

end Mc18PacketHandler

/--
What a packet replaces of a player's position; floating point numbers are left as their bits.
-/
structure Move where
  coords : Option (UInt64 × UInt64 × UInt64)
  look : Option (UInt32 × UInt32)
  onGround : Bool
  deriving DecidableEq, Repr

/--
The calls of functions of a player that do more than the handler itself.
-/
inductive PlayerCall where
  | onChat (msg : Bytes)
  | onMove (pos : Move)
  | onDig (x y z : Int) (state face : UInt8)
  | onPlace (x y z : Int) (face : UInt8)
  deriving DecidableEq, Repr

/--
The fields of a player that the handlers use. `openw` is `none` for a null pointer.
-/
structure Playing where
  kaExpecting : Bool
  kaId : Int
  openw : Option Window
  inv : Window
  curSlot : Int

namespace Playing

/--
`kaId` is not initialised.
-/
def new (kaId : Int) : Playing :=
  { kaExpecting := false, kaId, openw := none, inv := .inventory, curSlot := 0 }

def handleKeepAlive (pl : Playing) (id : Int) : Playing :=
  if pl.kaExpecting ∧ id = pl.kaId then { pl with kaExpecting := false } else pl

/--
Nothing calls this yet.
-/
def openWindow (pl : Playing) (w : Window) : Playing :=
  { pl with openw := some w }

def closeWindow (pl : Playing) : Playing :=
  { pl with openw := none }

/--
`none` if the player has not answered the last one.
-/
def sendKeepAlive (pl : Playing) (id : Int) : Option Playing :=
  if pl.kaExpecting then none else some { pl with kaExpecting := true, kaId := id }

end Playing

/--
A session, with the fields of its player if there is one. `calls` is history.
-/
structure PlaySession (υ : Type) where
  session : Mc18Session υ
  playing : Playing
  calls : List PlayerCall

/--
`_read_slot`
-/
def readSlot (reader : PacketReader) : Except Fault (SlotItem × PacketReader) := do
  let (id, reader) ← Mc18Session.orOutside reader.readShort
  if id = 0xFFFF then
    return ({ id, damage := 0, amount := 1 }, reader)
  else do
    let (count, reader) ← Mc18Session.orOutside reader.readByte
    let (damage, reader) ← Mc18Session.orOutside reader.readShort
    let (more, reader) ← Mc18Session.orOutside reader.readByte
    if more = 0 then
      return ({ id, damage, amount := count.toNat }, reader)
    else
      .error .uncaught

namespace PlaySession

open Mc18Session

variable {υ : Type}

def start (cfg : ServerConfig) (vtoken : Fin 4 → UInt8) (uman : UuidManager υ) : PlaySession υ :=
  { session := .start cfg vtoken uman, playing := .new 0, calls := [] }

section Functions

variable (s : PlaySession υ)

/--
`this->pl`, for use.
-/
def pl : Except Fault Playing :=
  match s.session.pl with
  | none => .error .nullPointer
  | some _ => .ok s.playing

def disconnectConn : PlaySession υ :=
  { s with session := s.session.disconnectConn }

def setPlaying (playing : Playing) : PlaySession υ :=
  { s with playing }

/--
A function of the player that disconnects or does not.
-/
def callPlayer (oracle : Oracle υ) (call : PlayerCall) : PlaySession υ :=
  let s := { s with calls := s.calls ++ [call] }
  if oracle.kicks then s.disconnectConn else s

/--
A player that has just been registered has the fields of a new one.
-/
def update (session : Mc18Session υ) : PlaySession υ :=
  if session.registered.length = s.session.registered.length then
    { s with session }
  else
    { s with session, playing := .new s.playing.kaId }

end Functions

section Handlers

variable (s : PlaySession υ) (oracle : Oracle υ) (reader : PacketReader)

def handleP00 : Except Fault (PlaySession υ) := do
  let (id, _) ← orOutside reader.readVarint
  let pl ← s.pl
  return s.setPlaying (pl.handleKeepAlive id)

def handleP01 : Except Fault (PlaySession υ) := do
  let (str, _) ← orOutside (reader.readString 119)
  match str with
  | none => return s.disconnectConn
  | some str =>
    let _ ← s.pl
    return s.callPlayer oracle (.onChat str)

def handleP03 : Except Fault (PlaySession υ) := do
  let _ ← s.pl
  let (onGround, _) ← orOutside reader.readBool
  return s.callPlayer oracle (.onMove { coords := none, look := none, onGround })

def handleP04 : Except Fault (PlaySession υ) := do
  let _ ← s.pl
  let (x, reader) ← orOutside reader.readDouble
  let (y, reader) ← orOutside reader.readDouble
  let (z, reader) ← orOutside reader.readDouble
  let (onGround, _) ← orOutside reader.readBool
  return s.callPlayer oracle (.onMove { coords := some (x, y, z), look := none, onGround })

def handleP05 : Except Fault (PlaySession υ) := do
  let _ ← s.pl
  let (yaw, reader) ← orOutside reader.readFloat
  let (pitch, reader) ← orOutside reader.readFloat
  let (onGround, _) ← orOutside reader.readBool
  return s.callPlayer oracle (.onMove { coords := none, look := some (yaw, pitch), onGround })

def handleP06 : Except Fault (PlaySession υ) := do
  let _ ← s.pl
  let (x, reader) ← orOutside reader.readDouble
  let (y, reader) ← orOutside reader.readDouble
  let (z, reader) ← orOutside reader.readDouble
  let (yaw, reader) ← orOutside reader.readFloat
  let (pitch, reader) ← orOutside reader.readFloat
  let (onGround, _) ← orOutside reader.readBool
  return s.callPlayer oracle
    (.onMove { coords := some (x, y, z), look := some (yaw, pitch), onGround })

def handleP07 : Except Fault (PlaySession υ) := do
  let (status, reader) ← orOutside reader.readByte
  let ((x, y, z), reader) ← orOutside reader.readPos
  let (face, _) ← orOutside reader.readByte
  let _ ← s.pl
  return s.callPlayer oracle (.onDig x y z status face)

def handleP08 : Except Fault (PlaySession υ) := do
  let ((x, y, z), reader) ← orOutside reader.readPos
  let (face, reader) ← orOutside reader.readByte
  let (_, reader) ← readSlot reader
  let (_, reader) ← orOutside reader.readByte
  let (_, reader) ← orOutside reader.readByte
  let (_, _) ← orOutside reader.readByte
  let _ ← s.pl
  return s.callPlayer oracle (.onPlace x y z face)

def handleP09 : Except Fault (PlaySession υ) := do
  let (slot, _) ← orOutside reader.readShort
  let slot := slot.toInt16.toInt
  if slot < 0 ∨ slot > 8 then
    return s.disconnectConn
  else do
    let pl ← s.pl
    return s.setPlaying { pl with curSlot := slot }

/--
Whether a window is open is not asked.
-/
def handleP0d : Except Fault (PlaySession υ) := do
  let (wid, _) ← orOutside reader.readByte
  if wid = 0 then
    return s
  else do
    let pl ← s.pl
    match pl.openw with
    | none => .error .nullPointer
    | some w => return if w.wid ≠ wid then s.disconnectConn else s.setPlaying pl.closeWindow

def handleP0e : Except Fault (PlaySession υ) := do
  let (wid, reader) ← orOutside reader.readByte
  let (_, reader) ← orOutside reader.readShort
  let (_, reader) ← orOutside reader.readByte
  let (_, reader) ← orOutside reader.readShort
  let (_, reader) ← orOutside reader.readByte
  let (_, _) ← readSlot reader
  let pl ← s.pl
  match pl.openw with
  | none => return if wid ≠ 0 then s.disconnectConn else s
  | some win => return if win.wid ≠ wid then s.disconnectConn else s

def handleP10 : Except Fault (PlaySession υ) := do
  let (slot, reader) ← orOutside reader.readShort
  let (item, _) ← readSlot reader
  let slot := slot.toInt16.toInt
  if slot < 1 ∨ slot > 44 then
    return s.disconnectConn
  else do
    let pl ← s.pl
    let inv ← pl.inv.set slot (if item.id = 0xFFFF then none else some item)
    return s.setPlaying { pl with inv }

def call : Handler → Except Fault (PlaySession υ)
  | .h00 => return s.update (← s.session.handleH00 reader)
  | .s00 => return s
  | .s01 => return s.update (← s.session.handleS01 reader)
  | .l00 => return s.update (← s.session.handleL00 oracle reader)
  | .l01 => return s.update (← s.session.handleL01 oracle reader)
  | .p00 => s.handleP00 reader
  | .p01 => s.handleP01 oracle reader
  | .p03 => s.handleP03 oracle reader
  | .p04 => s.handleP04 oracle reader
  | .p05 => s.handleP05 oracle reader
  | .p06 => s.handleP06 oracle reader
  | .p07 => s.handleP07 oracle reader
  | .p08 => s.handleP08 oracle reader
  | .p09 => s.handleP09 reader
  | .p0d => s.handleP0d reader
  | .p0e => s.handleP0e reader
  | .p10 => s.handleP10 reader
  | .xx => return s

def handle : Except Fault (PlaySession υ) := do
  match ← s.session.handler.route reader with
  | .ignored => return s
  | .disconnect => return s.disconnectConn
  | .call f rest => s.call oracle rest f

end Handlers

inductive Label (υ : Type) where
  /-- a packet, or something else that happens to the session -/
  | session (l : Mc18Session.Label υ)
  /-- the server shows a window to the player -/
  | openWindow (w : Window)
  | sendKeepAlive (id : Int)

/--
One step; `none` if it is not next.
-/
def step : Except Fault (PlaySession υ) → Label υ → Option (Except Fault (PlaySession υ))
  | .error _, _ => none
  | .ok s, .session (.handle packet beyond oracle) =>
    some (s.handle oracle (.ofPacket packet beyond))
  | .ok s, .session l => (Mc18Session.step (.ok s.session) l).map (·.map s.update)
  | .ok s, .openWindow w =>
    match s.session.pl with
    | none => none
    | some _ => some (.ok (s.setPlaying (s.playing.openWindow w)))
  | .ok s, .sendKeepAlive id =>
    match s.session.pl with
    | none => none
    | some _ =>
      match s.playing.sendKeepAlive id with
      | none => some (.ok s.disconnectConn)
      | some playing => some (.ok (s.setPlaying playing))

end PlaySession

end HCraft
