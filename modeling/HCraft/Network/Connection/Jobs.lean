import HCraft.Network.Connection.Lemmas.OnRead
import HCraft.Network.Protocol
import HCraft.Util.ThreadPool.Impl

/-!
This module contains the way of the packets of many connections from the read callbacks through the
thread pool to their handlers.
-/

namespace HCraft

/--
The connections `κ` of a server with a pool of `n` workers. `arrived` is history, no function reads
it.
-/
structure PacketJobs (n : Nat) (κ σ φ ρ : Type) where
  conns : κ → Connection Mc18Transformer
  /-- the packets that a read callback has still to hand to `enqueue_seq` -/
  handing : κ → List Bytes
  pool : ThreadPool n σ φ ρ
  arrived : κ → List InLabel

namespace PacketJobs

variable {n : Nat} {κ σ φ ρ : Type}

/--
All connections fresh from `set_protocol`.
-/
def init (trs : List Mc18Transformer) : PacketJobs n κ σ φ ρ :=
  { conns := fun _ => .start trs, handing := fun _ => [], pool := .init, arrived := fun _ => [] }

inductive Label (n : Nat) (κ σ φ ρ : Type) where
  /-- the read callback of a connection, or a handler that begins encryption or compression -/
  | net (i : κ) (l : InLabel)
  /-- the next call of `enqueue_seq` in the read callback -/
  | hand (i : κ)
  | pool (l : ThreadPool.Label n σ φ ρ)

/--
One step; `none` if it is blocked or not next. `pseq` is the sequence class of a connection, and
`job` the function that has its handler handle a packet.
-/
def step [DecidableEq κ] [DecidableEq σ] [DecidableEq ρ] (pseq : κ → σ) (job : κ → Bytes → φ)
    (st : PacketJobs n κ σ φ ρ) : Label n κ σ φ ρ → Option (PacketJobs n κ σ φ ρ)
  | .net i l =>
    -- the callback keeps `dc_mtx` until it has handed everything over
    if l.isRead && !(st.handing i).isEmpty then
      none
    else
      let res := (st.conns i).after l
      some { st with
        conns := Function.update st.conns i res.1
        handing := Function.update st.handing i (st.handing i ++ ReadEvent.dispatched res.2)
        arrived := Function.update st.arrived i (st.arrived i ++ [l]) }
  | .hand i =>
    match st.handing i with
    | [] => none
    | packet :: packets =>
      (st.pool.step (.enqueueSeq (pseq i) (job i packet) none)).map (fun pool =>
        { st with handing := Function.update st.handing i packets, pool })
  | .pool l => (st.pool.step l).map (fun pool => { st with pool })

/--
The steps of the pool that no other part of the program takes on the class of a connection that is
not disconnected.
-/
def Label.Leaves (seq : σ) : Label n κ σ φ ρ → Prop
  | .pool (.enqueueSeq s _ _) => s ≠ seq
  | .pool (.stopJobs s _) => s ≠ seq
  | .pool (.disableSeq s) => s ≠ seq
  | .pool .join => False
  | _ => True

end PacketJobs

end HCraft
