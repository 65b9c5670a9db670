import HCraft.Lib.Inflater
import HCraft.Util.ByteBuffer
import HCraft.Util.Nbt.Impl

/-!
This module contains the reader of compressed NBT. It calls `inflate` for as long as that takes, so it
is given fuel and has no result once that is used up.
-/

namespace HCraft

namespace NbtReader

variable (z : Inflater)

/--
The `for` loop. What `inflate` writes goes behind what it has written before.
-/
def inflateAll : Nat → ByteBuffer → z.State → Option (Except NbtError Bytes)
  | 0, _, _ => none
  | fuel + 1, buf, zs =>
    let availOut := (buf.cap - z.totalOut zs) % 2 ^ 32
    let (ret, written, zs) := z.inflate zs availOut
    let buf := { buf with data := buf.data ++ written }
    match ret with
    | .streamEnd => some (.ok buf.data)
    | .ok => inflateAll fuel buf zs
    | .bufError => inflateAll fuel (buf.extend (buf.cap * 2 % 2 ^ 32)) zs
    | .error => some (.error (.readError "zlib decompresion failed (inflate)"))

/--
What is done once the whole stream has been decompressed.
-/
def readInflated (out : Bytes) : Except NbtError (Bytes × List (Bytes × NbtTag Unit)) :=
  let olen := Bin.int32 out.length
  if olen < 0 then
    .error (.fault .wrappedSize) -- the reader counts down from it
  else
    readRaw out

def readCompressed (fuel : Nat) (data : Bytes)
    : Option (Except NbtError (Bytes × List (Bytes × NbtTag Unit))) :=
  match z.init data with
  | none => some (.error (.readError "zlib decompresion failed (inflateInit)"))
  | some zs => (inflateAll z fuel .new zs).map (·.bind readInflated)

def read (fuel : Nat) (data : Bytes)
    : NbtCompressionStrategy → Option (Except NbtError (Bytes × List (Bytes × NbtTag Unit)))
  | .raw => some (readRaw data)
  | .gzip => readCompressed z fuel data
  | .zlib => readCompressed z fuel data

end NbtReader

end HCraft
