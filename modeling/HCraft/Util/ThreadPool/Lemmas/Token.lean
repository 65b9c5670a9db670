import Mathlib.Data.Fintype.Card
import Mathlib.Data.List.FinRange
import HCraft.Util.ThreadPool.Impl

/-!
This module contains what a sequence class sees of the pool, and the token that its wrapper is: while
the class is not free there is exactly one, in the queue, with a worker or on its way to the queue.
-/

namespace HCraft

variable {n : Nat} {σ φ ρ : Type}

/--
The job of class `seq` that a pool job wraps.
-/
def PoolJob.seqJob [DecidableEq σ] (j : PoolJob σ φ ρ) (seq : σ) : Option (Job φ ρ) :=
  match j.task with
  | .plain _ => none
  | .seqWrapper fn s => if s = seq then some ⟨fn, j.refc⟩ else none

/--
How far a worker has got with a wrapper.
-/
inductive Hold (φ ρ : Type) where
  | popped (job : Job φ ρ)
  | running
  | returned
  | requeueing (next : Job φ ρ)

/--
The wrapper of class `seq` a worker has in hand.
-/
def Worker.hold [DecidableEq σ] (s : Worker σ φ ρ) (seq : σ) : Option (Hold φ ρ) :=
  match s with
  | .waiting => none
  | .popped j => (j.seqJob seq).map .popped
  | .running j => (j.seqJob seq).map (fun _ => .running)
  | .returned j => (j.seqJob seq).map (fun _ => .returned)
  | .requeueing j next => (j.seqJob seq).map (fun _ => .requeueing next)
  | .leaving _ => none

/--
The accepted job that a wrapper in hand has not called yet.
-/
def Hold.unstarted : Hold φ ρ → Option (Job φ ρ)
  | .popped job => some job
  | .running => none
  | .returned => none
  | .requeueing next => some next

/--
What one class sees of the pool: itself, its wrappers in the queue and those the workers have in hand.
-/
structure View (n : Nat) (φ ρ : Type) where
  cls : SeqClass n φ ρ
  queued : List (Job φ ρ)
  held : Fin n → Option (Hold φ ρ)

def ThreadPool.view [DecidableEq σ] (pool : ThreadPool n σ φ ρ) (seq : σ) : View n φ ρ :=
  { cls := pool.seqs seq
    queued := pool.jobs.filterMap (·.seqJob seq)
    held := fun w => (pool.workers w).hold seq }

namespace View

/--
The number of wrappers of the class: in the queue, with a worker, or about to be handed to the queue.
-/
def wrappers (v : View n φ ρ) : Nat :=
  v.queued.length + (Finset.univ.filter (fun w => (v.held w).isSome)).card
    + match v.cls.mtx with
      | some (.enqueueSeq _) => 1
      | _ => 0

/--
The accepted jobs that have left `jobs` and have not been called yet.
-/
def pending (v : View n φ ρ) : List (Job φ ρ) :=
  v.queued ++ (List.finRange n).filterMap (fun w => (v.held w).bind Hold.unstarted)

/--
What the class promises: one job at a time, `free` tells whether there is one, and the jobs are
called in the order in which they were accepted.
-/
structure Sequential (v : View n φ ρ) : Prop where
  exclusive : v.wrappers ≤ 1
  free : v.cls.free = false ↔ v.wrappers = 1
  order : v.cls.accepted = v.cls.started ++ v.pending ++ v.cls.jobs
  drained : v.wrappers = 0 → v.cls.jobs = []

/--
Where the one wrapper of a class is.
-/
inductive Token (n : Nat) (φ ρ : Type) where
  | free
  | pushing (job : Job φ ρ)
  | queued (job : Job φ ρ)
  | held (w : Fin n) (h : Hold φ ρ)

namespace Token

def isFree : Token n φ ρ → Bool
  | .free => true
  | _ => false

def mtx : Token n φ ρ → Option (Holder n φ ρ)
  | .pushing job => some (.enqueueSeq job)
  | .held w (.requeueing _) => some (.seqWrapper w)
  | _ => none

def inQueue : Token n φ ρ → List (Job φ ρ)
  | .queued job => [job]
  | _ => []

def inHand : Token n φ ρ → Fin n → Option (Hold φ ρ)
  | .held w h => Function.update (fun _ => none) w (some h)
  | _ => fun _ => none

def unstarted : Token n φ ρ → List (Job φ ρ)
  | .queued job => [job]
  | .held _ h => h.unstarted.toList
  | _ => []

/--
No job waits for this wrapper to come back.
-/
def isFirst : Token n φ ρ → Prop
  | .free => True
  | .pushing _ => True
  | _ => False

end Token

/--
The view of a class whose only wrapper is `t`.
-/
structure Matches (v : View n φ ρ) (t : Token n φ ρ) : Prop where
  free : v.cls.free = t.isFree
  mtx : v.cls.mtx = t.mtx
  queued : v.queued = t.inQueue
  held : v.held = t.inHand
  accepted : v.cls.accepted = v.cls.started ++ t.unstarted ++ v.cls.jobs
  first : t.isFirst → v.cls.jobs = []

theorem filterMap_finRange_update {α : Type} (w : Fin n) (a : Option α)
    : (List.finRange n).filterMap (Function.update (fun _ => none) w a) = a.toList := by
  have hgen : ∀ ws : List (Fin n), ws.Nodup → ws.filterMap (Function.update (fun _ => none) w a)
      = if w ∈ ws then a.toList else [] := by
    intro ws hws
    induction ws with
    | nil => rfl
    | cons w' ws ih =>
      obtain ⟨hnew, hws⟩ := List.nodup_cons.mp hws
      by_cases h : w' = w
      . subst h
        cases a <;> simp [ih hws, hnew]
      . simp [Function.update_of_ne h, ih hws, Ne.symm h]
  rw [hgen _ (List.nodup_finRange n), if_pos (List.mem_finRange w)]

theorem Matches.wrappers {v : View n φ ρ} {t : Token n φ ρ} (h : v.Matches t)
    : v.wrappers = if t.isFree then 0 else 1 := by
  have hcard : ∀ (w : Fin n) (x : Hold φ ρ), (Finset.univ.filter (fun w' =>
      ((Function.update (fun _ => none) w (some x) : Fin n → Option (Hold φ ρ)) w').isSome)).card
        = 1 := by
    intro w x
    rw [Finset.card_eq_one]
    refine ⟨w, ?_⟩
    ext w'
    by_cases hw : w' = w
    . simp [hw]
    . simp [hw]
  unfold View.wrappers
  rw [h.queued, h.held, h.mtx]
  cases t with
  | free => simp [Token.inQueue, Token.inHand, Token.mtx, Token.isFree]
  | pushing job => simp [Token.inQueue, Token.inHand, Token.mtx, Token.isFree]
  | queued job => simp [Token.inQueue, Token.inHand, Token.mtx, Token.isFree]
  | held w x =>
    have hnone : (match (Token.held w x : Token n φ ρ).mtx with
        | some (.enqueueSeq _) => 1
        | _ => 0) = 0 := by
      cases x <;> rfl
    rw [hnone]
    simp only [Token.inQueue, Token.inHand, Token.isFree, List.length_nil, Nat.zero_add,
      Nat.add_zero, Bool.false_eq_true, ↓reduceIte]
    exact hcard w x

theorem Matches.pending {v : View n φ ρ} {t : Token n φ ρ} (h : v.Matches t)
    : v.pending = t.unstarted := by
  unfold View.pending
  rw [h.queued, h.held]
  cases t with
  | free => simp [Token.inQueue, Token.inHand, Token.unstarted]
  | pushing job => simp [Token.inQueue, Token.inHand, Token.unstarted]
  | queued job => simp [Token.inQueue, Token.inHand, Token.unstarted]
  | held w x =>
    have hbind : (fun w' => ((Function.update (fun _ => none) w (some x)
          : Fin n → Option (Hold φ ρ)) w').bind Hold.unstarted)
        = Function.update (fun _ => none) w x.unstarted := by
      funext w'
      by_cases hw : w' = w
      . simp [hw]
      . simp [Function.update_of_ne hw]
    simp only [Token.inQueue, Token.inHand, Token.unstarted, List.nil_append]
    rw [hbind, filterMap_finRange_update]

theorem Matches.sequential {v : View n φ ρ} {t : Token n φ ρ} (h : v.Matches t) : v.Sequential where
  exclusive := by
    rw [h.wrappers]
    split <;> omega
  free := by
    rw [h.wrappers, h.free]
    cases t.isFree <;> simp
  order := by
    rw [h.pending]
    exact h.accepted
  drained := by
    intro hzero
    rw [h.wrappers] at hzero
    cases t with
    | free => exact h.first trivial
    | _ => simp [Token.isFree] at hzero

end View

end HCraft
