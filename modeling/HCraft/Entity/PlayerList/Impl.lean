import Mathlib.Logic.Function.Basic
import HCraft.Util.Fault

/-!
This module contains the players of a world and the player lists of their clients: `join_world`,
`player_entity::spawn`, `~player` and `player_entity::despawn`. Its steps are the critical sections of
`pl_mtx`.
-/

namespace HCraft

namespace PlayerList

/--
What the packets of the player list are about.
-/
inductive Packet (κ : Type) where
  | add (pl : κ)
  | remove (pl : κ)
  deriving DecidableEq, Repr

/--
How far a player has come. The constructor of its entity leaves the world of the entity unset, which
only `spawn` sets.
-/
inductive Stage where
  | new
  | joined
  | spawned
  /-- `despawn` has returned to `~player`, which has still to call `remove_player` -/
  | despawned
  | removed
  deriving DecidableEq, Repr

end PlayerList

open PlayerList in
/--
`sent` are the packets about player lists that the connection of a player has taken, and `closed` the
connections that take none any more.
-/
structure PlayerList (κ : Type) where
  pls : List κ
  stage : κ → Stage
  closed : κ → Bool
  sent : κ → List (Packet κ)

namespace PlayerList

variable {κ : Type} [DecidableEq κ]

omit [DecidableEq κ] in
def init : PlayerList κ :=
  { pls := [], stage := fun _ => .new, closed := fun _ => false, sent := fun _ => [] }

inductive Label (κ : Type) where
  /-- `add_player` -/
  | join (pl : κ)
  /-- the packets of `player_entity::spawn` -/
  | spawn (pl : κ)
  /-- `player_entity::despawn`, called by `~player` -/
  | despawn (pl : κ)
  /-- `remove_player` -/
  | remove (pl : κ)
  /-- the connection is to be disconnected, or is disconnected -/
  | close (pl : κ)
  deriving DecidableEq, Repr

/--
`connection::send`
-/
def send (st : PlayerList κ) (pl : κ) (packet : Packet κ) : PlayerList κ :=
  if st.closed pl then
    st
  else
    { st with sent := Function.update st.sent pl (st.sent pl ++ [packet]) }

/--
The callback of `spawn`, for one player after another.
-/
def announce (me : κ) : List κ → PlayerList κ → PlayerList κ
  | [], st => st
  | pl :: pls, st => announce me pls ((st.send pl (.add me)).send me (.add pl))

/--
The callback of `despawn`, for one player after another.
-/
def withdraw (me : κ) : List κ → PlayerList κ → PlayerList κ
  | [], st => st
  | pl :: pls, st => withdraw me pls (st.send pl (.remove me))

def setStage (st : PlayerList κ) (pl : κ) (stage : Stage) : PlayerList κ :=
  { st with stage := Function.update st.stage pl stage }

/--
One step; `none` if it is not next.
-/
def act (st : PlayerList κ) : Label κ → Option (Except Fault (PlayerList κ))
  | .join pl =>
    match st.stage pl with
    | .new => some (.ok ({ st with pls := st.pls ++ [pl] }.setStage pl .joined))
    | _ => none
  | .spawn pl =>
    match st.stage pl with
    | .joined => some (.ok ((announce pl st.pls st).setStage pl .spawned))
    | _ => none
  | .despawn pl =>
    match st.stage pl with
    | .joined => some (.error .uninitialised) -- the world of the entity
    | .spawned => some (.ok ((withdraw pl st.pls st).setStage pl .despawned))
    | _ => none
  | .remove pl =>
    match st.stage pl with
    | .despawned => some (.ok ({ st with pls := st.pls.filter (· ≠ pl) }.setStage pl .removed))
    | _ => none
  | .close pl => some (.ok { st with closed := Function.update st.closed pl true })

def step : Except Fault (PlayerList κ) → Label κ → Option (Except Fault (PlayerList κ))
  | .error _, _ => none
  | .ok st, l => st.act l

end PlayerList

end HCraft
