import HCraft.Lib.Transition
import HCraft.Network.PacketTransformer

/-!
This module contains the outbound side of `network/connection.cpp`: the packets that wait in `outq`,
and the calls and callbacks that bring them to the bufferevent.
-/

namespace HCraft

open PacketTransformer

def CONN_SEND_DISCONNECT : UInt32 := 0x1

structure PacketContainer where
  id : Int
  pack : Bytes
  flags : UInt32

/--
The fields of `connection` that writing touches. The address of a container is its number among the
allocations. `output` is the output buffer of the bufferevent. `accepted`, `written` and `freed` are
history, no function reads them.
-/
structure OutConnection (τ : Type) where
  trs : List τ
  disconnected : Bool
  disconnectReq : Bool
  canSend : Bool
  outq : List Nat
  initPack : Option Nat
  nextPacketId : Int
  containers : Nat → Option PacketContainer
  allocated : Nat
  output : Bytes
  /-- the arguments of the calls of `send` that were not turned away -/
  accepted : List (Bytes × UInt32)
  /-- all that was passed to `bufferevent_write` -/
  written : Bytes
  /-- the containers that were deleted, with their packets -/
  freed : List Nat

namespace OutConnection

variable {τ : Type}

/--
A connection after `set_protocol` and `start_io`.
-/
def start (trs : List τ) : OutConnection τ :=
  { trs, disconnected := false, disconnectReq := false, canSend := true, outq := [],
    initPack := none, nextPacketId := 1, containers := fun _ => none, allocated := 0, output := [],
    accepted := [], written := [], freed := [] }

/--
`bufferevent_write`
-/
def write (conn : OutConnection τ) (data : Bytes) : OutConnection τ :=
  { conn with output := conn.output ++ data, written := conn.written ++ data }

/--
The container at an address.
-/
def deref (conn : OutConnection τ) (cont : Nat) : Except Fault PacketContainer :=
  match conn.containers cont with
  | none => .error .useAfterFree
  | some c => .ok c

/--
`delete` of a container and of its packet.
-/
def delete (conn : OutConnection τ) (cont : Nat) : OutConnection τ :=
  { conn with
    containers := Function.update conn.containers cont none
    freed := conn.freed ++ [cont] }

variable [TransformOut τ]

/--
The packet after the transformers. One that fails leaves the packet as it was.
-/
def applyOutTransformations (trs : List τ) (pack : Bytes) : Except Fault (List τ × Bytes) :=
  go (trs.countP isOn) 0 trs pack
where
  go : Nat → Nat → List τ → Bytes → Except Fault (List τ × Bytes)
    | 0, _, trs, last => .ok (trs, last)
    | count + 1, ti, trs, last =>
      let ti := ti + (trs.drop ti).findIdx isOn
      match trs[ti]? with
      | none => .error .readOutside -- not reached: `count` of the others are on
      | some tr =>
        match TransformOut.transformOut tr last with
        | .error fault => .error fault
        | .ok (tr, none) => .ok (trs.set ti tr, pack)
        | .ok (tr, some out) => go count (ti + 1) (trs.set ti tr) out

def send (conn : OutConnection τ) (pack : Bytes) (flags : UInt32) : Except Fault (OutConnection τ) :=
  if !conn.canSend || conn.disconnected || conn.disconnectReq then
    .ok conn
  else do
    let (trs, data) ← applyOutTransformations conn.trs pack
    let cont := conn.allocated
    let outq := conn.outq ++ [cont]
    return { conn with
      trs
      canSend := if flags &&& CONN_SEND_DISCONNECT ≠ 0 then false else conn.canSend
      outq
      initPack := if outq.length = 1 then some cont else conn.initPack
      nextPacketId := Bin.wrap32 (conn.nextPacketId + 1)
      containers :=
        Function.update conn.containers cont (some ⟨conn.nextPacketId, data, flags⟩)
      allocated := conn.allocated + 1
      accepted := conn.accepted ++ [(pack, flags)] }

def onWrite (conn : OutConnection τ) : Except Fault (OutConnection τ) :=
  match conn.outq with
  | [] => .ok conn
  | cont :: outq =>
    if some cont = conn.initPack then
      .ok conn -- it has not been sent yet
    else do
      let c ← conn.deref cont
      let conn := { conn.delete cont with outq := outq }
      if c.flags &&& CONN_SEND_DISCONNECT ≠ 0 then
        return { conn with disconnectReq := true }
      else
        match outq with
        | [] => return conn
        | next :: _ => do
          let c ← conn.deref next
          return conn.write c.pack

/--
`disconnect_` deletes what `outq` points to, and leaves `outq` as it is.
-/
def disconnectNow (conn : OutConnection τ) : OutConnection τ :=
  if conn.disconnected then
    conn
  else
    { conn.outq.foldl delete conn with disconnected := true }

def onTime (conn : OutConnection τ) : Except Fault (OutConnection τ) :=
  if conn.disconnectReq then
    .ok conn.disconnectNow
  else
    match conn.initPack with
    | none => .ok conn
    | some cont => do
      let c ← conn.deref cont
      return { conn.write c.pack with initPack := none }

inductive Label where
  | send (pack : Bytes) (flags : UInt32)
  | onTime
  | onWrite
  /-- the bufferevent gets rid of `n` bytes -/
  | drain (n : Nat)
  | disconnect
  deriving DecidableEq, Repr

/--
One step; `none` if it does not happen. The write callback may come at any time, as long as the
output buffer is empty.
-/
def step : Except Fault (OutConnection τ) → Label → Option (Except Fault (OutConnection τ))
  | .error _, _ => none
  | .ok conn, .send pack flags => some (conn.send pack flags)
  | .ok conn, .onTime => some conn.onTime
  | .ok conn, .onWrite => if conn.output = [] then some conn.onWrite else none
  | .ok conn, .drain n => some (.ok { conn with output := conn.output.drop n })
  | .ok conn, .disconnect => some (.ok { conn with disconnectReq := true })

end OutConnection

end HCraft
