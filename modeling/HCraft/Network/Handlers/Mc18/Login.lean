import HCraft.Lib.Transition
import HCraft.Network.Handlers.Mc18
import HCraft.System.Authenticator

/-!
This module contains the handlers of the 1.8 protocol that bring a connection from the handshake to
the play state. Of the other handlers only that they leave all of this alone.
-/

namespace HCraft

structure ServerConfig where
  encryption : Bool
  online : Bool
  deriving DecidableEq, Repr

structure Player (υ : Type) where
  uuid : υ
  name : Bytes
  deriving DecidableEq, Repr

/--
`ssec` is the secret of the last call of `setup`.
-/
structure AesTransformer where
  on : Bool
  ssec : Option Bytes
  deriving DecidableEq, Repr

namespace Mc18PacketHandler

/--
An encryption response that got as far as `authenticate`.
-/
structure Response where
  name : Bytes
  ssec : Bytes
  /-- the decrypted token -/
  message : Bytes
  vtoken : Fin 4 → UInt8
  succ : Bool

/--
All that is not up to the handler while it works on a packet.
-/
structure Oracle (υ : Type) where
  rnd : Fin 4 → UInt8
  /-- the message, or `none` for an exception -/
  decrypt : Bytes → Option Bytes
  answer : Answer υ
  v3 : υ
  /-- whether `register_player` throws -/
  full : Bool
  /-- whether a handler of the play state disconnects -/
  kicks : Bool

end Mc18PacketHandler

open Mc18PacketHandler

/--
A handler with its connection and what it uses of the server. `lookups` are the names whose UUID the
pool looks up. `registered` and `responses` are history.
-/
structure Mc18Session (υ : Type) where
  cfg : ServerConfig
  handler : Mc18PacketHandler
  name : Bytes
  vtoken : Fin 4 → UInt8
  pl : Option (Player υ)
  deregistered : Bool
  aes : AesTransformer
  compressing : Bool
  disconnectReq : Bool
  uman : UuidManager υ
  lookups : List Bytes
  registered : List (Player υ)
  responses : List Response

namespace Mc18Session

variable {υ : Type}

/--
`vtoken` is not initialised.
-/
def start (cfg : ServerConfig) (vtoken : Fin 4 → UInt8) (uman : UuidManager υ) : Mc18Session υ :=
  { cfg, handler := ⟨true, .handshake⟩, name := [], vtoken, pl := none, deregistered := false,
    aes := ⟨false, none⟩, compressing := false, disconnectReq := false, uman, lookups := [],
    registered := [], responses := [] }

section Functions

variable (s : Mc18Session υ)

/--
`this->conn->disconnect ()`
-/
def disconnectConn : Mc18Session υ :=
  { s with disconnectReq := true }

/--
`this->disconnect ()`
-/
def disconnect : Mc18Session υ :=
  { s with deregistered := s.deregistered || s.pl.isSome }

def setState (state : ProtocolState) : Mc18Session υ :=
  { s with handler := { s.handler with state := state } }

/--
A server that is full lets nobody in.
-/
def uuidGetSuccess (name : Bytes) (uuid : υ) (full : Bool) : Mc18Session υ :=
  if full then
    s
  else
    let pl : Player υ := ⟨uuid, name⟩
    { s.setState .play with
      pl := some pl
      registered := s.registered ++ [pl]
      compressing := true }

def uuidGetFail : Mc18Session υ :=
  s.disconnect

def login (oracle : Oracle υ) : Mc18Session υ :=
  match s.uman.fromUsername s.name oracle.v3 with
  | .success uuid => s.uuidGetSuccess s.name uuid oracle.full
  | .enqueued => { s with lookups := s.lookups ++ [s.name] }

def authCb (oracle : Oracle υ) (succ : Bool) : Mc18Session υ :=
  if succ then s.login oracle else s.disconnectConn

end Functions

/--
A read outside of the packet and what lies behind it.
-/
def orOutside {α : Type} : Option α → Except Fault α
  | some a => .ok a
  | none => .error .readOutside

def decryptOrThrow (oracle : Oracle υ) (ct : Bytes) : Except Fault Bytes :=
  match oracle.decrypt ct with
  | some message => .ok message
  | none => .error .uncaught

section Handlers

variable (s : Mc18Session υ)

def handleH00 (reader : PacketReader) : Except Fault (Mc18Session υ) := do
  let (proto, reader) ← orOutside reader.readVarint
  if proto ≠ 47 then
    return s.disconnectConn
  -- whether the address is a string does not matter
  let (_, reader) ← orOutside (reader.readString 256)
  let (_, reader) ← orOutside reader.readShort
  let (st, _) ← orOutside reader.readVarint
  if st = 1 then
    return s.setState .status
  else if st = 2 then
    return s.setState .login
  else
    return s.disconnectConn

def handleS01 (reader : PacketReader) : Except Fault (Mc18Session υ) := do
  let _ ← orOutside reader.readLong
  return s

def handleL00 (oracle : Oracle υ) (reader : PacketReader) : Except Fault (Mc18Session υ) := do
  let (name, _) ← orOutside (reader.readString 256)
  match name with
  | none => return s.disconnectConn
  | some name =>
    let s := { s with name := name }
    if !s.cfg.encryption then
      return s.login oracle
    else
      return { s with vtoken := oracle.rnd }

/--
A byte array of at most 128 bytes behind its length; `some none` if the length is out of range.
-/
def readArray (reader : PacketReader) : Except Fault (Option (Bytes × PacketReader)) := do
  let (len, reader) ← orOutside reader.readVarint
  if len < 0 ∨ len > 128 then
    return none
  let res ← orOutside (reader.readBytes len.toNat)
  return some res

/--
The part of `handle_l01` behind the checks.
-/
def beginEncryption (oracle : Oracle υ) (message ssec : Bytes) : Mc18Session υ :=
  let s := { s with aes := ⟨true, some ssec⟩ }
  if !s.cfg.online then
    s.login oracle
  else
    let (uman, succ) := Authenticator.authenticate s.uman s.name oracle.answer
    let response : Response := ⟨s.name, ssec, message, s.vtoken, succ⟩
    let s := { s with uman, responses := s.responses ++ [response] }
    s.authCb oracle succ

/--
The warnings name the player, whom there is none of yet.
-/
def disconnectPlayer : Except Fault (Mc18Session υ) :=
  match s.pl with
  | none => .error .nullPointer
  | some _ => .ok s.disconnectConn

def checkResponse (oracle : Oracle υ) (ssEnc vtokenEnc : Bytes) : Except Fault (Mc18Session υ) := do
  let message ← decryptOrThrow oracle vtokenEnc
  if message.length ≠ 4 then
    s.disconnectPlayer
  else if List.ofFn s.vtoken ≠ message then
    s.disconnectPlayer
  else do
    let ssec ← decryptOrThrow oracle ssEnc
    if ssec.length ≠ 16 then
      s.disconnectPlayer
    else
      return s.beginEncryption oracle message ssec

def handleL01 (oracle : Oracle υ) (reader : PacketReader) : Except Fault (Mc18Session υ) := do
  match ← readArray reader with
  | none => return s.disconnect
  | some (ssEnc, reader) =>
    match ← readArray reader with
    | none => return s.disconnect
    | some (vtokenEnc, _) => s.checkResponse oracle ssEnc vtokenEnc

def call (oracle : Oracle υ) (reader : PacketReader) : Handler → Except Fault (Mc18Session υ)
  | .h00 => s.handleH00 reader
  | .s00 => .ok s
  | .s01 => s.handleS01 reader
  | .l00 => s.handleL00 oracle reader
  | .l01 => s.handleL01 oracle reader
  | _ => .ok (if oracle.kicks then s.disconnectConn else s)

def handle (oracle : Oracle υ) (reader : PacketReader) : Except Fault (Mc18Session υ) :=
  match s.handler.handle reader with
  | none => .error .readOutside
  | some .ignored => .ok s
  | some .disconnect => .ok s.disconnectConn
  | some (.call table opc) =>
    if opc < 0 then
      .error .readOutside -- what lies in front of the table is called
    else do
      let handler ← orOutside table[opc.toNat]?
      let (_, reader) ← orOutside reader.readVarint
      let (_, reader) ← orOutside reader.readVarint
      s.call oracle reader handler

end Handlers

inductive Label (υ : Type) where
  | handle (packet beyond : Bytes) (oracle : Oracle υ)
  /-- a worker of the pool has the answer for the first of the names -/
  | lookedUp (answer : Answer υ) (full : Bool)
  /-- some other connection finds out about a UUID -/
  | insert (name : Bytes) (uuid : υ)
  /-- the connection is closed -/
  | disconnect

/--
One step; `none` if it is not next.
-/
def step : Except Fault (Mc18Session υ) → Label υ → Option (Except Fault (Mc18Session υ))
  | .error _, _ => none
  | .ok s, .handle packet beyond oracle => some (s.handle oracle (.ofPacket packet beyond))
  | .ok s, .lookedUp answer full =>
    match s.lookups with
    | [] => none
    | name :: lookups =>
      let (uman, uuid) := s.uman.worker name answer
      let s := { s with lookups, uman }
      match uuid with
      | some uuid => some (.ok (s.uuidGetSuccess name uuid full))
      | none => some (.ok s.uuidGetFail)
  | .ok s, .insert name uuid => some (.ok { s with uman := s.uman.insert name uuid })
  | .ok s, .disconnect => some (.ok s.disconnect)

end Mc18Session

end HCraft
