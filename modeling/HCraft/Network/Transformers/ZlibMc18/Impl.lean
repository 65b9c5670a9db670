import HCraft.Network.PacketTransformer

/-!
This module contains the compression of `network/transformers/zlib_mc18.cpp` over an arbitrary
zlib. The size of the block that `transform_in` allocates for its output is an `int`.
-/

namespace HCraft

/--
What `inflate` makes of the input it is given, called until it stops returning `Z_OK`.
-/
inductive Inflate where
  /-- the stream ends inside the input, and decompresses to `out` -/
  | streamEnd (out : Bytes)
  /-- the input ends inside the stream, behind what makes `out` -/
  | needInput (out : Bytes)
  /-- the stream is not valid behind what makes `out` -/
  | dataError (out : Bytes)
  deriving DecidableEq, Repr

/--
The functions of zlib on whole streams.
-/
structure Zlib where
  deflate : Bytes → Bytes
  deflateBound : Nat → Nat
  inflate : Bytes → Inflate

structure ZlibMc18Transformer where
  zlib : Zlib
  on : Bool
  threshold : Int

namespace ZlibMc18Transformer

/--
`out[0 .. outl)` of a block of `outc` bytes.
-/
structure OutBuffer where
  outc : Nat
  out : Bytes

namespace OutBuffer

/--
The block for `len` bytes of input. `len` is unsigned, and as an `int` four times of it are negative
from 2 GiB on.
-/
def alloc (len : Nat) : Except Fault OutBuffer :=
  if len * 4 % 2 ^ 32 < 2 ^ 31 then
    .ok { outc := len * 4 % 2 ^ 32, out := [] }
  else
    .error .wrappedSize

def double (buf : OutBuffer) : Except Fault OutBuffer :=
  if buf.outc < 2 ^ 30 then .ok { buf with outc := buf.outc * 2 } else .error .wrappedSize

/--
The block is doubled once, if at all.
-/
def reserve (buf : OutBuffer) (size : Int) : Except Fault OutBuffer :=
  if 2 ^ 31 ≤ buf.out.length + size then
    .error .wrappedSize -- more than an `int` holds
  else if buf.out.length + size ≥ buf.outc then
    buf.double
  else
    .ok buf

def write (buf : OutBuffer) (data : Bytes) : Except Fault OutBuffer :=
  if buf.out.length + data.length ≤ buf.outc then
    .ok { buf with out := buf.out ++ data }
  else
    .error .writeOutside

/--
The loop around `inflate` doubles the block whenever it is full.
-/
def inflateInto (buf : OutBuffer) (data : Bytes) : Except Fault OutBuffer := do
  let outc ← grow buf.outc (buf.out.length + data.length)
  return { outc, out := buf.out ++ data }
where
  grow (outc total : Nat) : Except Fault Nat :=
    if h : total ≤ outc ∨ outc = 0 then
      .ok outc
    else if outc < 2 ^ 30 then
      grow (outc * 2) total
    else
      .error .wrappedSize
  termination_by total - outc

end OutBuffer

def readLength (ptr : Bytes) : Except Fault (Int × Nat) :=
  match Bin.readVarint ptr with
  | none => .error .readOutside
  | some (_, none) => .error .uninitialised
  | some (len, some olen) => .ok (len, olen)

/--
One round of the loop in `transform_in`: the bytes it takes and the new output, or `none` if the
function returns `false`.
-/
def packetIn (tr : ZlibMc18Transformer) (ptr : Bytes) (buf : OutBuffer)
    : Except Fault (Option (Int × OutBuffer)) := do
  let (plen, plenLen) ← readLength ptr
  let (dlen, dlenLen) ← readLength (ptr.drop plenLen)
  let body := ptr.drop (plenLen + dlenLen)
  let size := Bin.wrap32 (plen - dlenLen)
  if dlen = 0 then
    let buf ← buf.reserve (size + 5)
    let buf ← buf.write (Bin.writeVarint (Bin.unsigned32 size))
    -- `memcpy` takes a negative size for a huge one
    if size < 0 ∨ body.length < size then
      throw .readOutside
    let buf ← buf.write (body.take size.toNat)
    return some (Bin.wrap32 (plen + plenLen), buf)
  else
    let availIn := Bin.unsigned32 size
    let buf ← buf.reserve 5
    let buf ← buf.write (Bin.writeVarint (Bin.unsigned32 dlen))
    match tr.zlib.inflate (body.take availIn) with
    | .streamEnd out =>
      let buf ← buf.inflateInto out
      return some (Bin.wrap32 (plen + plenLen), buf)
    | .needInput out =>
      if body.length < availIn then
        throw .readOutside
      let _ ← buf.inflateInto out
      return none
    | .dataError out =>
      let _ ← buf.inflateInto out
      return none

def transformIn (tr : ZlibMc18Transformer) (data : Bytes) : Except Fault TransformIn := do
  let buf ← OutBuffer.alloc data.length
  go data.length 0 buf
where
  go : Nat → Nat → OutBuffer → Except Fault TransformIn
    | 0, _, _ => .error .noProgress -- not reached: every round takes a byte
    | fuel + 1, consumed, buf => do
      match ← tr.packetIn (data.drop consumed) buf with
      | none => return { ok := false, out := [], consumed := consumed }
      | some (n, buf) =>
        if n ≤ 0 then
          throw .noProgress
        let consumed := consumed + n.toNat
        match Bin.gotVarint (data.drop consumed) with
        | -1 => throw .useAfterFree -- `out` is deleted and the loop goes on
        | 0 => return { ok := true, out := buf.out, consumed := consumed }
        | _ => go fuel consumed buf

def inEnough (data : Bytes) : Except Fault Int :=
  match Bin.gotVarint data with
  | 0 => .ok 0
  | 1 => do
    let (plen, plenLen) ← readLength data
    return if data.length ≥ Bin.wrap32 (plen + plenLen) then 1 else 0
  | _ => .ok (-1)

/--
`none` is a return value of `false`.
-/
def transformOut (tr : ZlibMc18Transformer) (data : Bytes) : Except Fault (Option Bytes) := do
  let (dlen, dlenLen) ← readLength data
  if dlen < tr.threshold then
    -- no compression needed
    let plen := data.length - dlenLen + 1
    match Bin.varintSize plen with
    | none => throw .noProgress
    | some plenLen =>
      if dlen < 0 ∨ data.length - dlenLen < dlen then
        throw .readOutside
      if dlen < data.length - dlenLen then
        throw .uninitialised
      return some ((Bin.writeVarint plen).take plenLen ++ Bin.writeVarint 0 ++ data.drop dlenLen)
  else
    let compressed := tr.zlib.deflate (data.drop dlenLen)
    if tr.zlib.deflateBound data.length < compressed.length then
      return none
    let plen := compressed.length + dlenLen
    match Bin.varintSize plen with
    | none => throw .noProgress
    | some plenLen =>
      let head := Bin.writeVarint (Bin.unsigned32 dlen)
      if head.length < dlenLen then
        throw .uninitialised
      return some ((Bin.writeVarint plen).take plenLen ++ head.take dlenLen ++ compressed)

instance : PacketTransformer ZlibMc18Transformer where
  isOn tr := tr.on
  inEnough _ data := inEnough data
  transformIn tr data := (tr.transformIn data).map (fun res => (tr, res))

theorem transformIn_inl {α : Type} [PacketTransformer α] (tr : ZlibMc18Transformer) (data : Bytes)
    : PacketTransformer.transformIn (Sum.inl tr : ZlibMc18Transformer ⊕ α) data
        =
      (tr.transformIn data).map (fun res => (Sum.inl tr, res)) := by
  have heq : PacketTransformer.transformIn (Sum.inl tr : ZlibMc18Transformer ⊕ α) data
      = ((tr.transformIn data).map (fun res => (tr, res))).map (fun res => (.inl res.1, res.2)) := rfl
  rw [heq]
  generalize tr.transformIn data = res
  cases res with
  | error fault => rfl
  | ok res => rfl

instance : TransformOut ZlibMc18Transformer where
  transformOut tr data := (tr.transformOut data).map (fun res => (tr, res))

end ZlibMc18Transformer

end HCraft
