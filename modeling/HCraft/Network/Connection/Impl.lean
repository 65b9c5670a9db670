import HCraft.Network.PacketDelimiter
import HCraft.Network.PacketTransformer

/-!
This module contains the inbound side of `network/connection.cpp`: the pipeline of transformers
and the loop that cuts the result into packets.
-/

namespace HCraft

open PacketTransformer

/--
The fields of `connection` that reading touches. An evbuffer is the list of the bytes it holds,
and `rbuf` is `rbuf[0 .. rbuf_len)`.
-/
structure Connection (τ : Type) where
  disconnectReq : Bool
  input : Bytes
  rbuf : Bytes
  tbs : List Bytes
  ftb : Bytes
  trs : List τ
  /-- the first fault a transformer ran into -/
  fault : Option Fault

/--
What one round of the loop in `on_read` does with the bytes in `rbuf`.
-/
inductive ReadEvent where
  /-- "Received invalid packet", disconnect -/
  | invalid (rbuf : Bytes)
  /-- "Packet received ... too big", disconnect -/
  | tooBig (rbuf : Bytes)
  /-- `rbuf` goes to the packet handler through `enqueue_seq` -/
  | dispatch (rbuf : Bytes)
  /-- `evbuffer_remove` writes `n` bytes behind `rbuf` -/
  | remove (rbuf : Bytes) (n : Nat)
  deriving DecidableEq, Repr

namespace Connection

variable {τ : Type}

/--
A connection after `set_protocol` and `start_io`.
-/
def start (trs : List τ) : Connection τ :=
  { disconnectReq := false, input := [], rbuf := [], tbs := trs.map (fun _ => []), ftb := [],
    trs := trs, fault := none }

def disconnect (conn : Connection τ) : Connection τ :=
  { conn with disconnectReq := true }

/--
From here on the behaviour is undefined; the model only keeps the reason.
-/
def undefinedBy (conn : Connection τ) (fault : Fault) : Connection τ :=
  { conn with fault := some (conn.fault.getD fault) }

/--
`evbuffer_add` on `tbs[i]`.
-/
def addTb (conn : Connection τ) (i : Nat) (data : Bytes) : Connection τ :=
  { conn with tbs := conn.tbs.modify i (· ++ data) }

/--
`evbuffer_add_buffer` from `input` or from another `tbs[j]` to `tbs[i]`.
-/
def addBufferTb (conn : Connection τ) (i : Nat) (lastbuf : Option Nat) : Connection τ :=
  match lastbuf with
  | none => { conn.addTb i conn.input with input := [] }
  | some j =>
    let conn' := conn.addTb i (conn.tbs.getD j [])
    { conn' with tbs := conn'.tbs.set j [] }

@[simp]
theorem addTb_rbuf (conn : Connection τ) (i : Nat) (data : Bytes)
    : (conn.addTb i data).rbuf = conn.rbuf := rfl

@[simp]
theorem addTb_ftb (conn : Connection τ) (i : Nat) (data : Bytes)
    : (conn.addTb i data).ftb = conn.ftb := rfl

@[simp]
theorem addBufferTb_rbuf (conn : Connection τ) (i : Nat) (lastbuf : Option Nat)
    : (conn.addBufferTb i lastbuf).rbuf = conn.rbuf := by
  cases lastbuf <;> rfl

@[simp]
theorem addBufferTb_ftb (conn : Connection τ) (i : Nat) (lastbuf : Option Nat)
    : (conn.addBufferTb i lastbuf).ftb = conn.ftb := by
  cases lastbuf <;> rfl

@[simp]
theorem disconnect_rbuf (conn : Connection τ) : conn.disconnect.rbuf = conn.rbuf := rfl

@[simp]
theorem disconnect_ftb (conn : Connection τ) : conn.disconnect.ftb = conn.ftb := rfl

@[simp]
theorem undefinedBy_rbuf (conn : Connection τ) (fault : Fault)
    : (conn.undefinedBy fault).rbuf = conn.rbuf := rfl

@[simp]
theorem undefinedBy_ftb (conn : Connection τ) (fault : Fault)
    : (conn.undefinedBy fault).ftb = conn.ftb := rfl

variable [PacketTransformer τ]

/--
The buffer that receives what transformer `i` puts out; `none` is `ftb`.
-/
def nextbuf (trs : List τ) (i : Nat) : Option Nat :=
  -- the loop over `j` does not stop at the first hit, so the lowest one wins
  (trs.take i).findIdx? isOn

def applyInTransformations (conn : Connection τ) : Connection τ :=
  if conn.trs.any isOn then
    go conn.trs.length none conn
  else
    { conn with input := [], ftb := conn.ftb ++ conn.input }
where
  go : Nat → Option Nat → Connection τ → Connection τ
    | 0, _, conn => conn
    | i + 1, lastbuf, conn =>
      match conn.trs[i]? with
      | none => conn
      | some tr =>
        if !isOn tr then
          go i lastbuf conn
        else
          let conn := conn.addBufferTb i lastbuf
          let data := conn.tbs.getD i []
          let conn := { conn with tbs := conn.tbs.set i [] }
          match inEnough tr data with
          | .error fault => conn.undefinedBy fault
          | .ok res =>
            if res = -1 then
              conn.disconnect
            else if res ≠ 1 then
              conn.addTb i data
            else
              match transformIn tr data with
              | .error fault => conn.undefinedBy fault
              | .ok (tr, res) =>
                -- the return value is not looked at
                let conn := { conn with trs := conn.trs.set i tr }
                let conn :=
                  match nextbuf conn.trs i with
                  | some j => conn.addTb j res.out
                  | none => { conn with ftb := conn.ftb ++ res.out }
                let conn := conn.addTb i (data.drop res.consumed)
                go i (some i) conn

/--
The `do`/`while` loop of `on_read`.
-/
def readLoop (conn : Connection τ) : Connection τ × List ReadEvent :=
  let len := conn.ftb.length
  let rem := Mc17PacketDelimiter.remaining conn.rbuf
  if rem < 0 then
    (conn.disconnect, [.invalid conn.rbuf])
  else if _hrem : rem = 0 then
    let conn' := { conn with rbuf := [] }
    if len > 0 then
      let res := readLoop conn'
      (res.1, .dispatch conn.rbuf :: res.2)
    else
      (conn', [.dispatch conn.rbuf])
  else if Bin.wrap32 (conn.rbuf.length + rem) > READ_BUFFER_SIZE then
    (conn.disconnect, [.tooBig conn.rbuf])
  else
    let n := min rem.toNat len
    let conn' := { conn with rbuf := conn.rbuf ++ conn.ftb.take n, ftb := conn.ftb.drop n }
    if len > 0 then
      let res := readLoop conn'
      (res.1, .remove conn.rbuf n :: res.2)
    else
      (conn', [.remove conn.rbuf n])
termination_by 2 * conn.ftb.length + if conn.rbuf = [] then 0 else 1
decreasing_by
  . have hne : conn.rbuf ≠ [] := by
      intro hnil
      have hzero : Mc17PacketDelimiter.remaining conn.rbuf = 0 := _hrem
      rw [hnil] at hzero
      exact absurd hzero (by decide)
    simp [hne]
  . simp only [List.length_drop]
    split <;> split <;> omega

/--
The read callback: `data` has arrived in the input buffer.
-/
def onRead (conn : Connection τ) (data : Bytes) : Connection τ × List ReadEvent :=
  let conn := { conn with input := conn.input ++ data }
  if conn.input.length = 0 then
    (conn.disconnect, [])
  else
    conn.applyInTransformations.readLoop

/--
One callback after another.
-/
def onReads (conn : Connection τ) : List Bytes → Connection τ × List ReadEvent
  | [] => (conn, [])
  | data :: reads =>
    let res := conn.onRead data
    let rest := onReads res.1 reads
    (rest.1, res.2 ++ rest.2)

end Connection

end HCraft
