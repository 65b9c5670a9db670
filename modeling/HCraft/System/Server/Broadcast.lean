import Mathlib.Logic.Function.Basic
import HCraft.Util.Binary

/-!
This module contains what all players are sent: the chat of `player::on_chat` and the rounds of
`server::keep_alive` go through the list of players under `conn_mtx`, while `uuid_get_success`
greets the players it has put into that list without it.
-/

namespace HCraft

namespace Broadcast

inductive Packet where
  | loginSuccess
  | joinGame
  | setCompression
  | chat (msg : Bytes)
  | keepAlive (id : Int)
  /-- what the world of a player and its own packet handler send later -/
  | other
  deriving DecidableEq, Repr

/--
How far `uuid_get_success` has come.
-/
inductive Stage where
  | new
  | registered
  | greeted
  | inGame
  /-- the packet that announces the compression is sent, the transformer is still off -/
  | told
  | compressing
  deriving DecidableEq, Repr

/--
What is done for one player after another.
-/
inductive Round where
  | chat (msg : Bytes)
  | keepAlive
  deriving DecidableEq, Repr

end Broadcast

open Broadcast in
/--
`sending` is the loop of the thread that has `conn_mtx`, with the players that are still to come.
`kaId` is the identifier that a player has still to answer. The packets of `sent` come with whether
the transformer that compresses them was on.
-/
structure Broadcast (κ : Type) where
  players : List κ
  stage : κ → Stage
  spawned : κ → Bool
  closed : κ → Bool
  kaId : κ → Option Int
  sending : Option (Round × List κ)
  sent : κ → List (Bool × Packet)

namespace Broadcast

variable {κ : Type} [DecidableEq κ]

omit [DecidableEq κ] in
def init : Broadcast κ :=
  { players := [], stage := fun _ => .new, spawned := fun _ => false, closed := fun _ => false
    kaId := fun _ => none, sending := none, sent := fun _ => [] }

inductive Label (κ : Type) where
  /-- `register_player`, if there is a place -/
  | register (pl : κ)
  /-- what `uuid_get_success` does next -/
  | login (pl : κ)
  | spawn (pl : κ)
  | other (pl : κ)
  /-- `on_chat` up to the loop -/
  | chat (me : κ) (msg : Bytes)
  /-- `keep_alive` up to the loop -/
  | keepAlive
  /-- the next player of the loop, or its end -/
  | visit (rnd : Int)
  /-- `handle_keep_alive` -/
  | answer (pl : κ) (id : Int)
  | close (pl : κ)
  | deregister (pl : κ)
  deriving DecidableEq, Repr

/--
The text that a chat message becomes. A command is for the sender alone.
-/
def chatText (username : Bytes) : Bytes → Option Bytes
  | [] => none
  | 47 :: _ => none
  | msg => some ([0xC2, 0xA7, 101, 0xC2, 0xA7, 101] ++ username ++ [0xC2, 0xA7, 102, 58, 32] ++ msg)

/--
What `on_chat` has all players sent. That the sender is connected is checked before the mutex is
taken, so that it need not be true any more.
-/
def onChat (username : κ → Bytes) (st : Broadcast κ) (me : κ) (msg : Bytes) : Option Bytes :=
  if st.spawned me then chatText (username me) msg else none

/--
`connection::send`. The transformers are applied when the packet is queued.
-/
def send (st : Broadcast κ) (pl : κ) (packet : Packet) : Broadcast κ :=
  if st.closed pl then
    st
  else
    let compressed := decide (st.stage pl = .compressing)
    { st with sent := Function.update st.sent pl (st.sent pl ++ [(compressed, packet)]) }

def setStage (st : Broadcast κ) (pl : κ) (stage : Stage) : Broadcast κ :=
  { st with stage := Function.update st.stage pl stage }

def close (st : Broadcast κ) (pl : κ) : Broadcast κ :=
  { st with closed := Function.update st.closed pl true }

/--
`player::send_keep_alive`
-/
def sendKeepAlive (st : Broadcast κ) (pl : κ) (rnd : Int) : Broadcast κ :=
  match st.kaId pl with
  | some _ => st.close pl
  | none => { st.send pl (.keepAlive rnd) with kaId := Function.update st.kaId pl (some rnd) }

def deliver (st : Broadcast κ) (pl : κ) (rnd : Int) : Round → Broadcast κ
  | .chat msg => st.send pl (.chat msg)
  | .keepAlive => st.sendKeepAlive pl rnd

/--
One step; `none` if it is not next, or waits for `conn_mtx`.
-/
def step (username : κ → Bytes) (st : Broadcast κ) : Label κ → Option (Broadcast κ)
  | .register pl =>
    if st.sending = none ∧ st.stage pl = .new then
      some ({ st with players := st.players ++ [pl] }.setStage pl .registered)
    else
      none
  | .login pl =>
    match st.stage pl with
    | .registered => some ((st.send pl .loginSuccess).setStage pl .greeted)
    | .greeted => some ((st.send pl .joinGame).setStage pl .inGame)
    | .inGame => some ((st.send pl .setCompression).setStage pl .told)
    | .told => some (st.setStage pl .compressing)
    | _ => none
  | .spawn pl =>
    if st.stage pl = .compressing then
      some { st with spawned := Function.update st.spawned pl true }
    else
      none
  | .other pl => if st.stage pl = .compressing then some (st.send pl .other) else none
  | .chat me msg =>
    match onChat username st me msg with
    | none => some st
    | some text =>
      if st.sending = none then
        some { st with sending := some (.chat text, st.players) }
      else
        none
  | .keepAlive =>
    if st.sending = none then some { st with sending := some (.keepAlive, st.players) } else none
  | .visit rnd =>
    match st.sending with
    | none => none
    | some (_, []) => some { st with sending := none }
    | some (round, pl :: pls) => some { st.deliver pl rnd round with sending := some (round, pls) }
  | .answer pl id =>
    some (if st.kaId pl = some id then { st with kaId := Function.update st.kaId pl none } else st)
  | .close pl => some (st.close pl)
  | .deregister pl =>
    if st.sending = none then
      some { st with players := st.players.filter (· ≠ pl) }
    else
      none

end Broadcast

end HCraft
