import HCraft.Network.Packet

/-!
This module contains the fields of more than one part that handlers read.
-/

namespace HCraft

open Bin

/--
If bit `w - 1` of `num` is set, so are all bits of `out` from `w` on.
-/
def orSign (w num out : UInt32) : UInt32 :=
  if num &&& 1 <<< (w - 1) ≠ 0 then out ||| 0xFFFFFFFF <<< w else out

def unpackPos (pos : UInt64) : Int × Int × Int :=
  let x := (pos >>> 38).toUInt32
  let y := ((pos >>> 26) &&& 0xFFF).toUInt32
  let z := (pos &&& 0x3FFFFFF).toUInt32
  let x := orSign 26 x x
  let x := orSign 12 y x -- the sign of `y` goes to `x`
  let z := orSign 26 z z
  (int32 x.toNat, int32 y.toNat, int32 z.toNat)

/--
`_read_pos`
-/
def PacketReader.readPos (reader : PacketReader) : Option ((Int × Int × Int) × PacketReader) := do
  let (pos, reader) ← reader.readLong
  return (unpackPos pos, reader)

end HCraft
