import HCraft.Util.Binary
import HCraft.Util.Fault

/-!
This module contains the UUIDs of players and how they are written.
-/

namespace HCraft

/--
`uuid_t`
-/
structure Uuid where
  parts : Fin 16 → UInt8

namespace Uuid

/--
`"0123456789abcdef"`
-/
def hex : Bytes :=
  [48, 49, 50, 51, 52, 53, 54, 55, 56, 57, 97, 98, 99, 100, 101, 102]

def str (uuid : Uuid) : Bytes :=
  (List.finRange 16).flatMap (fun i =>
    let p := uuid.parts i
    let dash : Bytes := if i = 4 ∨ i = 6 ∨ i = 8 ∨ i = 10 then [45] else []
    dash ++ [hex.getD (p >>> 4).toNat 0, hex.getD (p &&& 15).toNat 0])

/--
`_hex_to_dec`
-/
def hexToDec (c : UInt8) : UInt8 :=
  if c ≥ 97 ∧ c ≤ 122 then
    10 + c - 97
  else if c ≥ 65 ∧ c ≤ 90 then
    10 + c - 65
  else
    c - 48

/--
The terminator of a string can be read, what is behind it can not.
-/
def parseHex (str : Bytes) : Except Fault Uuid :=
  if str.length < 31 then
    .error .readOutside
  else
    .ok ⟨fun i => hexToDec (str.getD (i * 2 + 0) 0) <<< 4 ||| hexToDec (str.getD (i * 2 + 1) 0)⟩

/--
Makes `parts` look like a UUID of some version.
-/
def looksLike (version : UInt8) (parts : Fin 16 → UInt8) : Uuid where
  parts i :=
    if i = 6 then version <<< 4 ||| (parts i &&& 15)
    else if i = 8 then 0xB0 ||| (parts i &&& 15)
    else parts i

/--
`rnd` are the numbers that `_dis (_rnd)` returns one after another.
-/
def generateV4 (rnd : Fin 16 → UInt8) : Uuid :=
  looksLike 4 rnd

/--
`md5` is `CalculateDigest`.
-/
def generateV3 (md5 : Bytes → Fin 16 → UInt8) (str : Bytes) : Uuid :=
  looksLike 3 (md5 str)

end Uuid

end HCraft
