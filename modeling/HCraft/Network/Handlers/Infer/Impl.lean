import HCraft.Network.Connection.Lemmas.OnRead
import HCraft.Network.Packet
import HCraft.Network.Protocol

/-!
This module contains the packet handler that a connection begins with. It finds out which protocol the
client speaks, and leaves the connection to it.
-/

namespace HCraft

namespace Protocol

/--
`protocol::create`, as far as the transformers go.
-/
def create (zlib : Zlib) (cfb : Bytes → Feedback Bytes UInt8) (version : String)
    : Option (List Mc18Transformer) :=
  if version ∈ ["1.8.3", "1.8.2", "1.8.1", "1.8"] then
    some (createMc18 zlib cfb)
  else
    none

end Protocol

namespace InferPacketHandler

/--
The version whose protocol is to take over, if `success` is called. The result is `none` if the packet
ends before it has been found out, and so does the memory behind it.
-/
def handle (reader : PacketReader) : Option (Option String) := do
  -- assume next field is packet length
  let (len, reader) ← reader.readByte
  if len > 127 then
    return none
  -- opcode
  let (opc, reader) ← reader.readByte
  if opc ≠ 0x00 then
    return none
  -- protocol version
  let (pv, _) ← reader.readByte
  match pv with
  | 47 => return some "1.8"
  | _ => return none

end InferPacketHandler

namespace Connection

/--
`set_protocol`, as far as reading is concerned. The buffers of the old protocol are freed.
-/
def setProtocol {τ : Type} (conn : Connection τ) (trs : List τ) : Connection τ :=
  { conn with trs, tbs := trs.map (fun _ => []) }

end Connection

/--
A connection up to `disconnect_`. `queue` are the packets whose jobs are still to run, one after the
other. The rest is history: what has arrived, the packets that the jobs have found, each with the
memory behind it, and the ones that came to the handler of protocol 1.8.
-/
structure Inferring where
  conn : Connection Mc18Transformer
  inferring : Bool
  queue : List Bytes
  arrived : List InLabel
  jobs : List (Bytes × Bytes)
  handled : List Bytes

namespace Inferring

/--
After `infer_protocol` and `start_io`.
-/
def init : Inferring :=
  { conn := .start [], inferring := true, queue := [], arrived := [], jobs := [], handled := [] }

inductive Label where
  /-- the read callback, or what the handler of protocol 1.8 does to the transformers -/
  | net (l : InLabel)
  /-- the job of the next packet, with the memory behind the packet -/
  | job (beyond : Bytes)
  deriving DecidableEq, Repr

/--
One step; `none` if it is not next. The packet that decides is handled again by the new protocol.
-/
def act (zlib : Zlib) (cfb : Bytes → Feedback Bytes UInt8) (st : Inferring)
    : Label → Option (Except Fault Inferring)
  | .net l =>
    if st.inferring && !l.isRead then
      none
    else
      let res := st.conn.after l
      some (.ok { st with
        conn := res.1
        queue := st.queue ++ ReadEvent.dispatched res.2
        arrived := st.arrived ++ [l] })
  | .job beyond =>
    match st.queue with
    | [] => none
    | packet :: queue =>
      let st := { st with queue, jobs := st.jobs ++ [(packet, beyond)] }
      if st.inferring then
        match InferPacketHandler.handle (.ofPacket packet beyond) with
        | none => some (.error .readOutside)
        | some none => some (.ok { st with conn := st.conn.disconnect })
        | some (some version) =>
          match Protocol.create zlib cfb version with
          | none => some (.error .nullPointer)
          | some trs =>
            some (.ok { st with
              conn := st.conn.setProtocol trs, inferring := false, handled := st.handled ++ [packet] })
      else
        some (.ok { st with handled := st.handled ++ [packet] })

def step (zlib : Zlib) (cfb : Bytes → Feedback Bytes UInt8)
    : Except Fault Inferring → Label → Option (Except Fault Inferring)
  | .error _, _ => none
  | .ok st, l => st.act zlib cfb l

end Inferring

end HCraft
