import HCraft.Util.ByteBuffer

/-!
This module contains `byte_buffer` with its block of memory, which `ByteBuffer` leaves out.
-/

namespace HCraft

open Slice

namespace ByteBuffer

/--
A byte of the block that was never written is `none`.
-/
structure Memory where
  data : List (Option UInt8)
  len : Nat
  cap : Nat
  pos : Nat

/--
The arguments of the `put_*`. Numbers with a fraction are their bits.
-/
inductive Value where
  | bytes (arr : Bytes)
  | byte (val : UInt8)
  | shortLe (val : UInt16)
  | shortBe (val : UInt16)
  | intLe (val : UInt32)
  | intBe (val : UInt32)
  | longLe (val : UInt64)
  | longBe (val : UInt64)
  | floatLe (val : UInt32)
  | floatBe (val : UInt32)
  | doubleLe (val : UInt64)
  | doubleBe (val : UInt64)

inductive Call where
  | put (val : Value)
  | seek (npos : Nat)
  | seekToEnd
  | seekToBeg
  | reset
  | extend (newCap : UInt32)

def shortLe (val : UInt16) : Bytes :=
  [(val &&& 0xFF).toUInt8, (val >>> 8).toUInt8]

def intLe (val : UInt32) : Bytes :=
  [(val &&& 0xFF).toUInt8, ((val >>> 8) &&& 0xFF).toUInt8, ((val >>> 16) &&& 0xFF).toUInt8,
    (val >>> 24).toUInt8]

def longLe (val : UInt64) : Bytes :=
  [(val &&& 0xFF).toUInt8, ((val >>> 8) &&& 0xFF).toUInt8, ((val >>> 16) &&& 0xFF).toUInt8,
    ((val >>> 24) &&& 0xFF).toUInt8, ((val >>> 32) &&& 0xFF).toUInt8,
    ((val >>> 40) &&& 0xFF).toUInt8, ((val >>> 48) &&& 0xFF).toUInt8, (val >>> 56).toUInt8]

def Value.encode : Value → Bytes
  | .bytes arr => arr
  | .byte val => [val]
  | .shortLe val => ByteBuffer.shortLe val
  | .shortBe val => Bin.writeShortBe val.toNat
  | .intLe val => ByteBuffer.intLe val
  | .intBe val => Bin.writeIntBe val.toNat
  | .longLe val => ByteBuffer.longLe val
  | .longBe val => Bin.writeLongBe val.toNat
  | .floatLe val => ByteBuffer.intLe val
  | .floatBe val => Bin.writeIntBe val.toNat
  | .doubleLe val => ByteBuffer.longLe val
  | .doubleBe val => Bin.writeLongBe val.toNat

namespace Memory

def new (initCap : UInt32) : Memory :=
  { data := List.replicate initCap.toNat none, len := 0, cap := initCap.toNat, pos := 0 }

variable (buf : Memory)

/--
The bytes from `get_data ()` on, `get_length ()` of them.
-/
def contents : List (Option UInt8) :=
  buf.data.take buf.len

def seek (npos : Nat) : Memory :=
  { buf with pos := npos }

def seekToEnd : Memory :=
  buf.seek buf.len

def seekToBeg : Memory :=
  buf.seek 0

def reset : Memory :=
  { buf with len := 0, pos := 0 }

def extend (newCap : Nat) : Memory :=
  if buf.cap ≥ newCap then
    buf
  else
    { buf with data := patch none (List.replicate newCap none) 0 (buf.data.take buf.cap), cap := newCap }

/--
`ENSURE_CAP`
-/
def ensureCap (n : Nat) : Memory :=
  if (buf.len + n) % 2 ^ 32 > buf.cap then
    buf.extend ((buf.cap * 15 % 2 ^ 32 / 10 + n) % 2 ^ 32)
  else
    buf

def store (arr : Bytes) : Except Fault Memory :=
  if buf.pos + arr.length ≤ buf.data.length then
    let pos := (buf.pos + arr.length) % 2 ^ 32
    .ok { buf with
      data := patch none buf.data buf.pos (arr.map some)
      pos := pos
      len := if pos > buf.len then pos else buf.len }
  else
    .error .writeOutside

/--
What all `put_*` do.
-/
def put (arr : Bytes) : Except Fault Memory :=
  (buf.ensureCap arr.length).store arr

def putBytes (arr : Bytes) : Except Fault Memory :=
  buf.put arr

def putByte (val : UInt8) : Except Fault Memory :=
  buf.put [val]

def putShortLe (val : UInt16) : Except Fault Memory :=
  buf.put (shortLe val)

def putShortBe (val : UInt16) : Except Fault Memory :=
  buf.put (Bin.writeShortBe val.toNat)

def putIntLe (val : UInt32) : Except Fault Memory :=
  buf.put (intLe val)

def putIntBe (val : UInt32) : Except Fault Memory :=
  buf.put (Bin.writeIntBe val.toNat)

def putLongLe (val : UInt64) : Except Fault Memory :=
  buf.put (longLe val)

def putLongBe (val : UInt64) : Except Fault Memory :=
  buf.put (Bin.writeLongBe val.toNat)

def putFloatLe (val : UInt32) : Except Fault Memory :=
  buf.putIntLe val

def putFloatBe (val : UInt32) : Except Fault Memory :=
  buf.putIntBe val

def putDoubleLe (val : UInt64) : Except Fault Memory :=
  buf.putLongLe val

def putDoubleBe (val : UInt64) : Except Fault Memory :=
  buf.putLongBe val

def putValue : Value → Except Fault Memory
  | .bytes arr => buf.putBytes arr
  | .byte val => buf.putByte val
  | .shortLe val => buf.putShortLe val
  | .shortBe val => buf.putShortBe val
  | .intLe val => buf.putIntLe val
  | .intBe val => buf.putIntBe val
  | .longLe val => buf.putLongLe val
  | .longBe val => buf.putLongBe val
  | .floatLe val => buf.putFloatLe val
  | .floatBe val => buf.putFloatBe val
  | .doubleLe val => buf.putDoubleLe val
  | .doubleBe val => buf.putDoubleBe val

def call : Call → Except Fault Memory
  | .put val => buf.putValue val
  | .seek npos => .ok (buf.seek npos)
  | .seekToEnd => .ok buf.seekToEnd
  | .seekToBeg => .ok buf.seekToBeg
  | .reset => .ok buf.reset
  | .extend newCap => .ok (buf.extend newCap.toNat)

/--
The calls in question: the cursor stays inside the contents, and these stay below `2 ^ 32` bytes.
-/
def Allowed : Call → Prop
  | .put val => max buf.len (buf.pos + val.encode.length) < 2 ^ 32
  | .seek npos => npos ≤ buf.len
  | _ => True

instance (c : Call) : Decidable (buf.Allowed c) := by
  cases c <;> unfold Allowed <;> infer_instance

end Memory

/--
An idealised buffer, which grows as it has to.
-/
structure Ideal where
  data : Bytes
  pos : Nat

namespace Ideal

def new : Ideal :=
  { data := [], pos := 0 }

def call (buf : Ideal) : Call → Ideal
  | .put val =>
    { data := patch 0 buf.data buf.pos val.encode, pos := buf.pos + val.encode.length }
  | .seek npos => { buf with pos := npos }
  | .seekToEnd => { buf with pos := buf.data.length }
  | .seekToBeg => { buf with pos := 0 }
  | .reset => new
  | .extend _ => buf

end Ideal

/--
The calls are made to both. A run goes on until there is a store outside of the block.
-/
def step (s : Except Fault Memory × Ideal) (c : Call) : Option (Except Fault Memory × Ideal) :=
  match s.1 with
  | .error _ => none
  | .ok buf => if buf.Allowed c then some (buf.call c, s.2.call c) else none

end ByteBuffer

end HCraft
