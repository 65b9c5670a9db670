import HCraft.Util.Fault
import HCraft.Util.ThreadPool.Impl

/-!
This module contains `release_seq` next to the steps of the pool. It disables the class in one critical
section and deletes it afterwards.
-/

namespace HCraft

/--
How far the call of `release_seq` has got.
-/
inductive ReleasePhase where
  | live
  | disabled
  | deleted
  deriving DecidableEq, Repr

/--
A pool with a class that is released. `handed` are the jobs whose contexts the callback has got.
-/
structure Releasing (n : Nat) (σ φ ρ : Type) where
  pool : ThreadPool n σ φ ρ
  phase : ReleasePhase
  handed : List (Job φ ρ)

namespace Releasing

open ThreadPool

variable {n : Nat} {σ φ ρ : Type}

def init : Releasing n σ φ ρ :=
  { pool := ThreadPool.init, phase := .live, handed := [] }

inductive Action (n : Nat) (σ φ ρ : Type) where
  | pool (l : Label n σ φ ρ)
  | disableSeq
  | delete

variable [DecidableEq σ]

/--
Whether the step looks at the class or at its mutex.
-/
def touches (seq : σ) (pool : ThreadPool n σ φ ρ) : Label n σ φ ρ → Bool
  | .enqueueSeqPush s => s = seq ∧ (pool.seqs s).mtx.isSome
  | .stopJobs s _ => s = seq
  | .disableSeq s => s = seq
  | .lockSeq w =>
    match pool.workers w with
    | .returned ⟨.seqWrapper _ s, _⟩ => s = seq
    | _ => false
  | .requeue w => -- unlocks the mutex
    match pool.workers w with
    | .requeueing ⟨.seqWrapper _ s, _⟩ _ => s = seq
    | _ => false
  | _ => false

variable [DecidableEq ρ]

/--
No call of `enqueue_seq` on the class begins once it is released.
-/
def act (seq : σ) (st : Releasing n σ φ ρ)
    : Action n σ φ ρ → Option (Except Fault (Releasing n σ φ ρ))
  | .pool (.enqueueSeq s fn refc) =>
    if s = seq ∧ st.phase ≠ .live then
      none
    else
      (st.pool.step (.enqueueSeq s fn refc)).map (fun pool => .ok { st with pool })
  | .pool l =>
    if st.phase = .deleted ∧ touches seq st.pool l then
      some (.error .useAfterFree)
    else
      (st.pool.step l).map (fun pool => .ok { st with pool })
  | .disableSeq =>
    match st.phase with
    | .live =>
      (st.pool.step (.disableSeq seq)).map (fun pool =>
        .ok { pool, phase := .disabled, handed := st.handed ++ (st.pool.seqs seq).jobs })
    | _ => none
  | .delete =>
    match st.phase with
    | .disabled => some (.ok { st with phase := .deleted })
    | _ => none

def step (seq : σ)
    : Except Fault (Releasing n σ φ ρ) → Action n σ φ ρ → Option (Except Fault (Releasing n σ φ ρ))
  | .error _, _ => none
  | .ok st, a => st.act seq a

end Releasing

end HCraft
