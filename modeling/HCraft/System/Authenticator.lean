import HCraft.Player.UuidManager

/-!
This module contains how players are authenticated.
-/

namespace HCraft

/--
A SHA-1 digest
-/
structure Digest where
  bytes : Bytes
  length_eq : bytes.length = 20

namespace Authenticator

/--
The loop from the last byte to the first one, with its carry.
-/
def negate : Bytes → Bytes × Bool
  | [] => ([], true)
  | b :: bs =>
    let (bs, c) := negate bs
    let b := ~~~b
    if c then ((b + 1) :: bs, b == 0xFF) else (b :: bs, c)

def hex : List Char :=
  ['0', '1', '2', '3', '4', '5', '6', '7', '8', '9', 'a', 'b', 'c', 'd', 'e', 'f']

def hexByte (b : UInt8) : List Char :=
  [hex.getD (b >>> 4).toNat '0', hex.getD (b &&& 15).toNat '0']

def digestStr (digest : Digest) : List Char :=
  let neg := digest.bytes.headD 0 &&& 0x80 != 0
  let bytes := if neg then (negate digest.bytes).1 else digest.bytes
  let str := (if neg then ['-'] else []) ++ bytes.flatMap hexByte
  str.dropWhile (· == '0')

variable {υ : Type}

/--
What the callback is called with, given what the session server says of the name and the digest.
-/
def authenticate (uman : UuidManager υ) (name : Bytes) : Answer υ → UuidManager υ × Bool
  | .id uuid => (uman.insert name uuid, true)
  | .httpError | .empty | .invalid | .noId => (uman, false)

theorem fromUsername_of_authenticate {uman uman' : UuidManager υ} {name : Bytes}
    {answer : Answer υ} (h : authenticate uman name answer = (uman', true)) (v3 : υ)
    : ∃ uuid, uman'.fromUsername name v3 = .success uuid := by
  cases answer with
  | id uuid =>
    injection h with h _
    exact ⟨uuid, h ▸ uman.fromUsername_insert name uuid v3⟩
  | httpError => cases h
  | empty => cases h
  | invalid => cases h
  | noId => cases h

end Authenticator

end HCraft
