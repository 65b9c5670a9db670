import HCraft.Network.Packet
import HCraft.Network.PacketDelimiter

/-!
This module contains the opcode dispatch of the 1.8 packet handler.
-/

namespace HCraft

inductive ProtocolState where
  | handshake
  | status
  | login
  | play
  deriving DecidableEq, Repr

namespace Mc18PacketHandler

/--
The functions the tables refer to.
-/
inductive Handler where
  | h00
  | s00
  | s01
  | l00
  | l01
  | p00
  | p01
  | p03
  | p04
  | p05
  | p06
  | p07
  | p08
  | p09
  | p0d
  | p0e
  | p10
  | xx
  deriving DecidableEq, Repr

def handshakeTable : List Handler :=
  [.h00]

def statusTable : List Handler :=
  [.s00, .s01]

def loginTable : List Handler :=
  [.l00, .l01]

def playTable : List Handler :=
  [.p00, .p01, .xx, .p03, .p04, .p05, .p06, .p07, .p08, .p09, .xx, .xx, .xx, .p0d, .p0e, .xx, .p10,
    .xx, .xx, .xx, .xx, .xx, .xx, .xx, .xx, .xx]

/--
What `handle` does with a packet.
-/
inductive Dispatch where
  /-- there is no connection -/
  | ignored
  | disconnect
  /-- entry `opc` of `table` is called -/
  | call (table : List Handler) (opc : Int)
  deriving DecidableEq, Repr

end Mc18PacketHandler

open Mc18PacketHandler in
/--
The fields of `mc18_packet_handler` that the dispatch looks at; `conn` tells whether there is one.
-/
structure Mc18PacketHandler where
  conn : Bool
  state : ProtocolState

namespace Mc18PacketHandler

def handle (handler : Mc18PacketHandler) (reader : PacketReader) : Option Dispatch :=
  if !handler.conn then
    some .ignored
  else do
    let (_, reader) ← reader.readVarint
    let (opc, _) ← reader.readVarint
    match handler.state with
    | .handshake => return if opc > 0x00 then .disconnect else .call handshakeTable opc
    | .status => return if opc > 0x01 then .disconnect else .call statusTable opc
    | .login => return if opc > 0x01 then .disconnect else .call loginTable opc
    | .play => return if opc > 0x19 then .disconnect else .call playTable opc

/--
The table that belongs to a protocol state.
-/
def table : ProtocolState → List Handler
  | .handshake => handshakeTable
  | .status => statusTable
  | .login => loginTable
  | .play => playTable

/--
A packet is refused, or goes to an entry of the table of the current state.
-/
def Dispatch.InBounds (handler : Mc18PacketHandler) : Dispatch → Prop
  | .ignored => handler.conn = false
  | .disconnect => True
  | .call tbl opc => tbl = table handler.state ∧ 0 ≤ opc ∧ opc < tbl.length

theorem check_eq {tbl : List Handler} {last : Int} (h : (tbl.length : Int) = last + 1) (opc : Int)
    : (if opc > last then Dispatch.disconnect else .call tbl opc)
        =
      if opc < tbl.length then .call tbl opc else .disconnect := by
  split
  . rw [if_neg (by omega)]
  . rw [if_pos (by omega)]

/--
The dispatch looks at the opcode only, and keeps it below the size of the table.
-/
theorem handle_eq {handler : Mc18PacketHandler} {reader reader' reader'' : PacketReader}
    {len opc : Int} (hconn : handler.conn = true) (hlen : reader.readVarint = some (len, reader'))
    (hopc : reader'.readVarint = some (opc, reader''))
    : handler.handle reader
        =
      some (if opc < (table handler.state).length then .call (table handler.state) opc
        else .disconnect) := by
  unfold handle
  simp only [hconn, Bool.not_true, Bool.false_eq_true, ↓reduceIte, hlen, Option.bind_eq_bind,
    Option.bind_some, hopc]
  cases handler.state with
  | handshake => exact congrArg some (check_eq rfl opc)
  | status => exact congrArg some (check_eq rfl opc)
  | login => exact congrArg some (check_eq rfl opc)
  | play => exact congrArg some (check_eq rfl opc)

theorem exists_body {packet : Bytes} (h : Mc17PacketDelimiter.framer.IsFrame packet)
    : ∃ pre body, packet = pre ++ body ∧ Leb128.Terminated pre ∧ pre.length ≤ 5 := by
  have hhead : Mc17PacketDelimiter.head packet = .frame packet.length := h
  cases Leb128.exists_terminated_or_more packet with
  | inl hs =>
    rcases hs with ⟨pre, body, rfl, hpre⟩
    rw [Mc17PacketDelimiter.head_of_terminated hpre] at hhead
    exact ⟨pre, body, rfl, hpre, (Mc17PacketDelimiter.announce_eq_frame hhead).1⟩
  | inr hs =>
    rw [Mc17PacketDelimiter.head_of_more hs] at hhead
    split at hhead <;> injection hhead

/--
A dispatched packet is refused or goes to the table of the current state unless its opcode is
negative, which the upper bounds let through.
-/
theorem handle_inBounds_iff (handler : Mc18PacketHandler) {packet : Bytes}
    (hpacket : Mc17PacketDelimiter.framer.IsFrame packet)
    : ∃ pre body, packet = pre ++ body ∧ Leb128.Terminated pre
        ∧ ∀ beyond, 5 ≤ (body ++ beyond).length →
          ∃ d, handler.handle (.ofPacket packet beyond) = some d
            ∧ (d.InBounds handler
                ↔ (handler.conn = true → ¬ Bin.NegativeVarint (body ++ beyond))) := by
  obtain ⟨pre, body, heq, hpre, hfive⟩ := exists_body hpacket
  refine ⟨pre, body, heq, hpre, fun beyond hbeyond => ?_⟩
  cases hconn : handler.conn with
  | false =>
    refine ⟨.ignored, by simp [handle, hconn], ?_⟩
    simp [Dispatch.InBounds, hconn]
  | true =>
    have hlen : (PacketReader.ofPacket packet beyond).readVarint
        = some (Bin.int32 (Leb128.value pre),
            ⟨packet ++ beyond, packet.length, some pre.length⟩) := by
      simp [PacketReader.readVarint, PacketReader.ofPacket, heq,
        Bin.readVarint_of_terminated hpre _ hfive]
    obtain ⟨opc, vl, hread, hneg⟩ := Bin.readVarint_neg_iff hbeyond
    have hopc : PacketReader.readVarint ⟨packet ++ beyond, packet.length, some pre.length⟩
        = some (opc, ⟨packet ++ beyond, packet.length, vl.map (pre.length + ·)⟩) := by
      simp [PacketReader.readVarint, heq, hread]
    refine ⟨_, handle_eq hconn hlen hopc, ?_⟩
    rw [← hneg]
    split
    . next hlt =>
      simp only [Dispatch.InBounds, true_and, hlt, and_true, forall_const]
      omega
    . next hge =>
      simp only [Dispatch.InBounds, true_iff, forall_const]
      omega

theorem handle_inBounds_iff_keepAlive
    : ∃ pre body, [2, 0, 7] = pre ++ body ∧ Leb128.Terminated pre
        ∧ ∀ beyond, 5 ≤ (body ++ beyond).length →
          ∃ d, handle ⟨true, .play⟩ (.ofPacket [2, 0, 7] beyond) = some d
            ∧ (d.InBounds ⟨true, .play⟩
                ↔ (true = true → ¬ Bin.NegativeVarint (body ++ beyond))) :=
  handle_inBounds_iff ⟨true, .play⟩ (by unfold Framer.IsFrame; decide +kernel)

/--
`ff ff ff ff 0f` is -1.
-/
theorem handle_minusOne_outside
    : Mc17PacketDelimiter.framer.IsFrame [5, 0xff, 0xff, 0xff, 0xff, 0x0f]
        ∧ handle ⟨true, .handshake⟩ (.ofPacket [5, 0xff, 0xff, 0xff, 0xff, 0x0f] [])
          = some (.call handshakeTable (-1))
        ∧ ¬ (Dispatch.call handshakeTable (-1)).InBounds ⟨true, .handshake⟩ := by
  refine ⟨by unfold Framer.IsFrame; decide +kernel, by decide, ?_⟩
  simp [Dispatch.InBounds]

end Mc18PacketHandler

end HCraft
