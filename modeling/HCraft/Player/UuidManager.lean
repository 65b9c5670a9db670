import HCraft.Util.Binary
import Mathlib.Logic.Function.Basic

/-!
This module contains how the UUIDs of players are found.
-/

namespace HCraft

/--
What comes back from one of Mojang's servers.
-/
inductive Answer (υ : Type) where
  | httpError
  | empty
  /-- the text is no JSON object -/
  | invalid
  /-- the object has no "id", or one that is no string -/
  | noId
  | id (uuid : υ)
  deriving DecidableEq, Repr

structure UuidManager (υ : Type) where
  online : Bool
  cache : Bytes → Option υ

namespace UuidManager

variable {υ : Type}

/--
How `from_username` goes on.
-/
inductive Lookup (υ : Type) where
  /-- the callback is called at once -/
  | success (uuid : υ)
  /-- `worker` is handed to the thread pool -/
  | enqueued

/--
`v3` is `uuid_t::generate_v3 (name)`.
-/
def fromUsername (uman : UuidManager υ) (name : Bytes) (v3 : υ) : Lookup υ :=
  match uman.cache name with
  | some uuid => .success uuid
  | none => if uman.online then .enqueued else .success v3

def insert (uman : UuidManager υ) (name : Bytes) (uuid : υ) : UuidManager υ :=
  { uman with cache := Function.update uman.cache name (some uuid) }

/--
The UUID that the callback is called with, or `none` for the callback of a failure.
-/
def worker (uman : UuidManager υ) (name : Bytes) : Answer υ → UuidManager υ × Option υ
  | .id uuid => (uman.insert name uuid, some uuid)
  | _ => (uman, none)

theorem fromUsername_insert (uman : UuidManager υ) (name : Bytes) (uuid v3 : υ)
    : (uman.insert name uuid).fromUsername name v3 = .success uuid := by
  simp [fromUsername, insert]

end UuidManager

end HCraft
