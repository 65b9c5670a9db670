import HCraft.Network.Packet.Lemmas.Frame

/-!
This module contains `packet` with its block of memory, which `Packet` leaves out.
-/

namespace HCraft

open Slice

namespace Packet

/--
`arr` points to byte number `rbeg` of the block. A byte that was never written is `none`.
-/
structure Memory where
  block : List (Option UInt8)
  pos : Nat
  len : Nat
  cap : Nat
  rbeg : Nat

namespace Memory

def new (initCap reserveBeg : Nat) : Memory :=
  { block := List.replicate ((reserveBeg + initCap) % 2 ^ 32) none, pos := 0, len := 0,
    cap := initCap, rbeg := reserveBeg }

variable (pack : Memory)

/--
The bytes from `get_data ()` on, `get_length ()` of them.
-/
def contents : List (Option UInt8) :=
  slice pack.block pack.rbeg pack.len

def rewind : Memory :=
  { pack with pos := 0 }

def reset : Memory :=
  { pack with pos := 0, len := 0 }

def expand (newCap : Nat) : Except Fault Memory :=
  if pack.cap ≥ newCap then
    .ok pack
  else
    let narr : List (Option UInt8) := List.replicate ((pack.rbeg + newCap) % 2 ^ 32) none
    if pack.rbeg + pack.len > pack.block.length then
      .error .readOutside
    else if pack.rbeg + pack.len > narr.length then
      .error .writeOutside
    else
      .ok { pack with block := patch none narr pack.rbeg pack.contents, cap := newCap }

def useReserved (count : Nat) : Except Fault Memory :=
  if count ≤ pack.rbeg then
    .ok { pack with pos := 0, len := pack.len + count, rbeg := pack.rbeg - count }
  else
    .error .writeOutside -- `arr` leaves the block

/--
A packet that has to grow for `bound` more bytes grows by `tenths`.
-/
def ensure (tenths bound : Nat) : Except Fault Memory :=
  if (pack.pos + bound) % 2 ^ 32 > pack.cap then
    pack.expand ((pack.cap * tenths % 2 ^ 32 / 10 + bound) % 2 ^ 32)
  else
    .ok pack

def store (arr : Bytes) : Except Fault Memory :=
  if pack.rbeg + pack.pos + arr.length ≤ pack.block.length then
    let pos := pack.pos + arr.length
    .ok { pack with
      block := patch none pack.block (pack.rbeg + pack.pos) (arr.map some)
      pos := pos
      len := if pos > pack.len then pos else pack.len }
  else
    .error .writeOutside

/--
What all `put_*` do.
-/
def put (tenths bound : Nat) (arr : Bytes) : Except Fault Memory := do
  let pack ← pack.ensure tenths bound
  pack.store arr

def putBool (val : Bool) : Except Fault Memory :=
  pack.put 16 1 [if val then 1 else 0]

def putByte (val : UInt8) : Except Fault Memory :=
  pack.put 16 1 [val]

def putShort (val : UInt16) : Except Fault Memory :=
  pack.put 16 2 (Bin.writeShortBe val.toNat)

def putInt (val : UInt32) : Except Fault Memory :=
  pack.put 16 4 (Bin.writeIntBe val.toNat)

def putLong (val : UInt64) : Except Fault Memory :=
  pack.put 16 8 (Bin.writeLongBe val.toNat)

def putFloat (val : UInt32) : Except Fault Memory :=
  pack.put 16 4 (Bin.writeIntBe val.toNat)

def putDouble (val : UInt64) : Except Fault Memory :=
  pack.put 16 8 (Bin.writeLongBe val.toNat)

def putVarint (val : Int) : Except Fault Memory :=
  pack.put 16 5 (Bin.writeVarint (Bin.unsigned32 val))

def putVarlong (val : UInt64) : Except Fault Memory :=
  pack.put 16 10 (Bin.writeVarlong val.toNat)

def putString (str : Bytes) : Except Fault Memory :=
  pack.put 14 (strlenUpperBound str) (mcString str)

def putBytes (arr : Bytes) : Except Fault Memory :=
  pack.put 11 arr.length arr

def putField : Field → Except Fault Memory
  | .bool val => pack.putBool val
  | .byte val => pack.putByte val
  | .short val => pack.putShort val
  | .int val => pack.putInt val
  | .long val => pack.putLong val
  | .float val => pack.putFloat val
  | .double val => pack.putDouble val
  | .varint val => pack.putVarint val
  | .varlong val => pack.putVarlong val
  | .string str => pack.putString str
  | .bytes arr => pack.putBytes arr

end Memory

inductive Call where
  | put (field : Field)
  | rewind
  | reset
  | expand (newCap : Nat)
  | useReserved (count : Nat)

def Memory.call (pack : Memory) : Call → Except Fault Memory
  | .put field => pack.putField field
  | .rewind => .ok pack.rewind
  | .reset => .ok pack.reset
  | .expand newCap => pack.expand newCap
  | .useReserved count => pack.useReserved count

end Packet

namespace Field

def written : Field → Bytes
  | .string str => Packet.mcString str
  | field => field.encode

/--
The number of bytes that are made room for.
-/
def bound : Field → Nat
  | .varint _ => 5
  | .varlong _ => 10
  | .string str => Packet.strlenUpperBound str
  | field => field.encode.length

def tenths : Field → Nat
  | .string _ => 14
  | .bytes _ => 11
  | _ => 16

end Field

namespace Packet

/--
The calls in question: no more bytes are used than are reserved, and the packet stays below `2 ^ 28`
bytes.
-/
def Memory.Allowed (pack : Memory) : Call → Prop
  | .put field => pack.rbeg + max pack.len (pack.pos + field.bound) < 2 ^ 28
  | .expand newCap => pack.rbeg + newCap < 2 ^ 28
  | .useReserved count => count ≤ pack.rbeg
  | _ => True

instance (pack : Memory) (c : Call) : Decidable (pack.Allowed c) := by
  cases c <;> unfold Memory.Allowed <;> infer_instance

/--
An idealised packet, which has as many bytes as it needs. Nothing is known of a reserved byte that has
not been written yet.
-/
structure Ideal where
  data : List (Option UInt8)
  pos : Nat

namespace Ideal

def new : Ideal :=
  { data := [], pos := 0 }

def call (pack : Ideal) : Call → Ideal
  | .put field =>
    { data := patch none pack.data pack.pos (field.written.map some)
      pos := pack.pos + field.written.length }
  | .rewind => { pack with pos := 0 }
  | .reset => new
  | .expand _ => pack
  | .useReserved count => { data := List.replicate count none ++ pack.data, pos := 0 }

end Ideal

/--
The calls are made to both. A run goes on until memory outside of a block is used.
-/
def step (s : Except Fault Memory × Ideal) (c : Call) : Option (Except Fault Memory × Ideal) :=
  match s.1 with
  | .error _ => none
  | .ok pack => if pack.Allowed c then some (pack.call c, s.2.call c) else none

end Packet

end HCraft
