import HCraft.Lib.Heap
import HCraft.Util.ThreadPool.Impl

/-!
This module contains the life of connections and their players, step by step: a login in a job of
the thread pool, `disconnect_` in the event loop of the connection, `clean_gray` in the scheduler.
-/

namespace HCraft

/--
The functions that connections have the pool call.
-/
inductive PoolFn (κ : Type) where
  /-- the handling of a packet, in the sequence class of its connection -/
  | packet
  /-- `uuid_manager::worker` -/
  | uuid (conn : κ)
  | other
  deriving DecidableEq, Repr

/--
The connection whose packet handler a job makes use of.
-/
def PoolJob.conn {κ ρ : Type} : PoolJob κ (PoolFn κ) ρ → Option κ
  | ⟨.seqWrapper _ conn, _⟩ => some conn
  | ⟨.plain (.uuid conn), _⟩ => some conn
  | ⟨.plain .packet, _⟩ => none
  | ⟨.plain .other, _⟩ => none

namespace Server

/--
How far `uuid_get_success` has come.
-/
inductive Login where
  | idle
  | created (pl : Nat)
  | registered (pl : Nat)
  /-- `set_player` has returned -/
  | playerSet (pl : Nat)
  deriving DecidableEq, Repr

/--
How far `disconnect_` has come.
-/
inductive Disconnect where
  | notCalled
  | seqDisabled
  | handlerDisconnected
  /-- the connection is gray, `dc_mtx` is still held -/
  | gray
  | returned
  deriving DecidableEq, Repr

/--
`handlerPl` is the player of the packet handler.
-/
structure Conn where
  pl : Option Nat
  handlerPl : Option Nat
  dc : Disconnect
  deleted : Bool
  deriving DecidableEq, Repr

def Conn.new : Conn :=
  { pl := none, handlerPl := none, dc := .notCalled, deleted := false }

/--
How far `clean_gray` has come. It holds `conn_mtx` until it returns.
-/
inductive Cleaner (κ : Type) where
  | idle
  | looking (conns nconns : List κ)
  | deleting (conn : κ) (conns nconns : List κ)
  /-- the protocol is deleted, the sequence class is next -/
  | releasing (conn : κ) (conns nconns : List κ)
  deriving DecidableEq, Repr

end Server

/--
`heap` has the players, each with its connection, and `logins` what the workers are doing.
-/
structure Server (n : Nat) (κ : Type) where
  pool : ThreadPool n κ (PoolFn κ) Nat
  conns : κ → Server.Conn
  heap : Heap κ
  players : List Nat
  grayConns : List κ
  cleaner : Server.Cleaner κ
  logins : Fin n → Server.Login

namespace Server

variable {n : Nat} {κ : Type}

def init : Server n κ :=
  { pool := .init, conns := fun _ => .new, heap := .empty, players := [], grayConns := [],
    cleaner := .idle, logins := fun _ => .idle }

inductive Label (n : Nat) (κ : Type) where
  /-- a step of the pool itself -/
  | pool (l : ThreadPool.Label n κ (PoolFn κ) Nat)
  /-- `on_read` has a packet -/
  | onRead (conn : κ)
  /-- a job that is nobody's packet, such as the generation of a chunk for a player -/
  | enqueue (refc : Option Nat)
  /-- the next step of `uuid_get_success`, or its call -/
  | uuidGetSuccess (w : Fin n)
  | uuidGetFail (w : Fin n)
  /-- `from_username` leaves the request to a job of its own -/
  | fromUsername (w : Fin n)
  /-- the next step of `disconnect_` -/
  | disconnect (conn : κ)
  /-- the next step of `clean_gray` -/
  | cleanGray

section Functions

variable (s : Server n κ)

/--
`server_full_error` is thrown if there is no place for the player.
-/
def registerPlayer (maxPlayers : Int) (pl : Nat) : Option (Server n κ) :=
  if s.players.length = maxPlayers then
    none
  else
    some { s with players := s.players ++ [pl] }

def deregisterPlayer (pl : Nat) : Server n κ :=
  { s with players := s.players.filter (· ≠ pl) }

def deletePlayer (pl : Nat) : Server n κ :=
  { s with heap := s.heap.free pl }

def setLogin (w : Fin n) (login : Login) : Server n κ :=
  { s with logins := Function.update s.logins w login }

/--
The connection whose packet handler a worker is in.
-/
def handling (w : Fin n) : Option κ :=
  match s.pool.workers w with
  | .running j => j.conn
  | _ => none

/--
`mc18_packet_handler::disconnect`; `none` while `clean_gray` has the mutex that it needs.
-/
def disconnectHandler (conn : κ) : Option (Server n κ) :=
  match (s.conns conn).handlerPl, s.cleaner with
  | none, _ => some s
  | some pl, .idle => some (s.deregisterPlayer pl)
  | some _, _ => none

variable [DecidableEq κ]

def setConn (conn : κ) (c : Conn) : Server n κ :=
  { s with conns := Function.update s.conns conn c }

def uuidGetSuccess (maxPlayers : Int) (w : Fin n) (conn : κ) : Option (Server n κ) :=
  match s.logins w, s.cleaner with
  | .idle, _ =>
    let s' := { s with heap := s.heap.alloc conn }
    some (s'.setLogin w (.created s.heap.next))
  | .created pl, .idle =>
    match s.registerPlayer maxPlayers pl with
    | none => some ((s.deletePlayer pl).setLogin w .idle)
    | some s' => some (s'.setLogin w (.registered pl))
  | .created _, _ => none
  | .registered pl, _ =>
    some ((s.setConn conn { s.conns conn with pl := some pl }).setLogin w (.playerSet pl))
  | .playerSet pl, _ =>
    some ((s.setConn conn { s.conns conn with handlerPl := some pl }).setLogin w .idle)

/--
`disable_seq`, or `none` while somebody has the mutex of the class.
-/
def disableSeq (conn : κ) : Option (Server n κ) :=
  (s.pool.step (.disableSeq conn)).map ({ s with pool := · })

def disconnect (conn : κ) : Option (Server n κ) :=
  let c := s.conns conn
  match c.dc with
  | .notCalled => (s.disableSeq conn).map (·.setConn conn { c with dc := .seqDisabled })
  | .seqDisabled =>
    (s.disconnectHandler conn).map (·.setConn conn { c with dc := .handlerDisconnected })
  | .handlerDisconnected =>
    match s.cleaner with
    | .idle =>
      let s' := { s with grayConns := s.grayConns ++ [conn] }
      some (s'.setConn conn { c with dc := .gray })
    | _ => none
  | .gray => some (s.setConn conn { c with dc := .returned })
  | .returned => none

/--
The player of the handler is deleted with the protocol.
-/
def deleteProto (conn : κ) : Server n κ :=
  let c := s.conns conn
  let s' := s.setConn conn { c with deleted := true }
  match c.handlerPl with
  | none => s'
  | some pl => s'.deletePlayer pl

def cleanGray : Option (Server n κ) :=
  match s.cleaner with
  | .idle =>
    if s.grayConns.isEmpty then
      none
    else
      some { s with cleaner := .looking s.grayConns [] }
  | .looking [] nconns => some { s with grayConns := nconns, cleaner := .idle }
  | .looking (conn :: conns) nconns =>
    match (s.conns conn).dc with
    | .returned =>
      match (s.conns conn).pl with
      | none => some { s with cleaner := .deleting conn conns nconns }
      | some pl =>
        if s.pool.refs pl = 0 then
          some { s with cleaner := .deleting conn conns nconns }
        else
          some { s with cleaner := .looking conns (nconns ++ [conn]) }
    | _ => none
  | .deleting conn conns nconns =>
    some { s.deleteProto conn with cleaner := .releasing conn conns nconns }
  | .releasing conn conns nconns =>
    (s.disableSeq conn).map ({ · with cleaner := .looking conns nconns })

/--
What the packet handler of a connection does in a job. It must not be there any more once the
connection is deleted.
-/
def handle (w : Fin n) (f : κ → Option (Server n κ)) : Option (Server n κ) :=
  match s.handling w with
  | none => none
  | some conn => if (s.conns conn).deleted then none else f conn

def poolStep (l : ThreadPool.Label n κ (PoolFn κ) Nat) : Option (Server n κ) :=
  (s.pool.step l).map ({ s with pool := · })

end Functions

/--
One step; `none` if it is blocked, or not next, or has undefined behaviour.
-/
def step [DecidableEq κ] (maxPlayers : Int) (s : Server n κ) : Label n κ → Option (Server n κ)
  | .pool (.enqueue ..) => none
  | .pool (.enqueueSeq ..) => none
  | .pool (.stopJobs ..) => none
  | .pool (.disableSeq ..) => none
  | .pool (.return w) =>
    match s.logins w with
    | .idle => s.poolStep (.return w)
    | _ => none
  | .pool l => s.poolStep l
  | .onRead conn =>
    if (s.conns conn).deleted then none else s.poolStep (.enqueueSeq conn .packet none)
  | .enqueue refc => s.poolStep (.enqueue .other refc)
  | .uuidGetSuccess w => s.handle w (s.uuidGetSuccess maxPlayers w)
  | .uuidGetFail w => s.handle w s.disconnectHandler
  | .fromUsername w => s.handle w (fun conn => s.poolStep (.enqueue (.uuid conn) none))
  | .disconnect conn => s.disconnect conn
  | .cleanGray => s.cleanGray

end Server

end HCraft
