import HCraft.Lib.Transition
import HCraft.Util.Binary
import HCraft.Util.Fault
import HCraft.World.World

/-!
This module contains the generation of chunks in tasks of their own. A request goes through
`generate`, which takes the mutex only to look up its token, and then, once the pool runs its task,
through `gen_func`; between two steps of a request all other calls and tasks may take theirs.
-/

namespace HCraft

namespace AsyncGenerator

structure Token where
  id : Int
  enabled : Bool

/--
`gen_ctx_t`
-/
structure GenCtx (β : Type) where
  token : Int
  x : Int
  z : Int
  cb : β

/--
How far a request has come. The address of a token is its number among the allocations.
-/
inductive Stage (κ : Type) where
  /-- `generate` has found the token -/
  | found
  /-- the token is enabled, the chunk is looked up next -/
  | enabled
  /-- there is no such chunk, the task is handed to the pool next -/
  | missing
  /-- the task waits in the pool -/
  | queued
  /-- `gen_func` has looked up the token -/
  | indexed (tok : Option Nat)
  /-- the token is enabled, the chunk is loaded next -/
  | loading
  /-- the callback is called next -/
  | loaded (ch : κ)
  | finished

/--
`tok` is the token that `generate` found.
-/
structure Request (κ β : Type) where
  tok : Nat
  ctx : GenCtx β
  stage : Stage κ

inductive Event (κ β : Type) where
  /-- `free_token` has deleted the token -/
  | deleted (tok : Nat)
  /-- `generate` has returned a chunk -/
  | returned (r : Nat) (ch : κ)
  /-- `gen_func` has called the callback; `tok` is the token that `generate` found -/
  | called (r tok : Nat) (cb : β) (ch : κ)

/--
Undefined behaviour, and the function that has it.
-/
inductive Crash where
  | freeToken (fault : Fault)
  | generate (fault : Fault)
  | genFunc (fault : Fault)
  deriving DecidableEq, Repr

end AsyncGenerator

/--
`accepting` is that of the thread pool, which runs the tasks it has accepted once each. No function
reads `history`.
-/
structure AsyncGenerator (κ β : Type) where
  w : World κ
  nextTok : Int
  toks : Int → Option (Option Nat)
  tokens : Nat → Option AsyncGenerator.Token
  allocated : Nat
  accepting : Bool
  requests : Nat → Option (AsyncGenerator.Request κ β)
  history : List (AsyncGenerator.Event κ β)

namespace AsyncGenerator

variable {κ β : Type}

def init (w : World κ) : AsyncGenerator κ β :=
  { w, nextTok := 1, toks := fun _ => none, tokens := fun _ => none, allocated := 0,
    accepting := true, requests := fun _ => none, history := [] }

section Functions

variable (agen : AsyncGenerator κ β)

def makeToken : AsyncGenerator κ β :=
  { agen with
    nextTok := Bin.wrap32 (agen.nextTok + 1)
    toks := Function.update agen.toks agen.nextTok (some (some agen.allocated))
    tokens := Function.update agen.tokens agen.allocated (some ⟨agen.nextTok, true⟩)
    allocated := agen.allocated + 1 }

def freeToken (tid : Int) : Except Crash (AsyncGenerator κ β) :=
  match agen.toks tid with
  | none => .ok agen
  | some none => .ok { agen with toks := Function.update agen.toks tid none }
  | some (some tok) =>
    match agen.tokens tok with
    | none => .error (.freeToken .useAfterFree)
    | some _ =>
      .ok { agen with
        toks := Function.update agen.toks tid none
        tokens := Function.update agen.tokens tok none
        history := agen.history ++ [.deleted tok] }

def setRequest (r : Nat) (req : Request κ β) : AsyncGenerator κ β :=
  { agen with requests := Function.update agen.requests r (some req) }

/--
The part of `generate` that holds the mutex. Without a token there is no request.
-/
def generate (r : Nat) (ctx : GenCtx β) : Except Crash (AsyncGenerator κ β) :=
  match agen.toks ctx.token with
  | none => .ok agen
  | some none => .error (.generate .nullPointer) -- `tok->enabled` comes right after
  | some (some tok) => .ok (agen.setRequest r ⟨tok, ctx, .found⟩)

/--
The rest of `generate` and then `gen_func`, up to the next access to what is shared. `prov` and
`gen` are what the provider and the generator of the world have to give.
-/
def proceed (r : Nat) (req : Request κ β) (prov : Option κ) (gen : κ)
    : Option (Except Crash (AsyncGenerator κ β)) :=
  let goto (stage : Stage κ) := agen.setRequest r { req with stage := stage }
  match req.stage with
  | .found =>
    match agen.tokens req.tok with
    | none => some (.error (.generate .useAfterFree))
    | some tok => some (.ok (if tok.enabled then goto .enabled else goto .finished))
  | .enabled =>
    match agen.w.getChunk req.ctx.x req.ctx.z with
    | some ch =>
      some (.ok { goto .finished with history := agen.history ++ [.returned r ch] })
    | none => some (.ok (goto .missing))
  | .missing => some (.ok (if agen.accepting then goto .queued else goto .finished))
  | .queued =>
    match agen.toks req.ctx.token with
    | some tok => some (.ok (goto (.indexed tok)))
    | none =>
      -- `operator[]` leaves a null pointer in the map
      some (.ok { goto (.indexed none) with
        toks := Function.update agen.toks req.ctx.token (some none) })
  | .indexed none => some (.error (.genFunc .nullPointer))
  | .indexed (some tok) =>
    match agen.tokens tok with
    | none => some (.error (.genFunc .useAfterFree))
    | some tok => some (.ok (if tok.enabled then goto .loading else goto .finished))
  | .loading =>
    let (ch, w) := agen.w.loadChunk req.ctx.x req.ctx.z prov gen
    some (.ok { goto (.loaded ch) with w })
  | .loaded ch =>
    some (.ok { goto .finished with history := agen.history ++ [.called r req.tok req.ctx.cb ch] })
  | .finished => none

/--
A call of `generate` from beginning to end, with nothing in between.
-/
def generateWhole (r : Nat) (ctx : GenCtx β) : Except Crash (Option κ × AsyncGenerator κ β) :=
  match agen.toks ctx.token with
  | none => .ok (none, agen)
  | some none => .error (.generate .nullPointer)
  | some (some tok) =>
    match agen.tokens tok with
    | none => .error (.generate .useAfterFree)
    | some t =>
      if t.enabled then
        match agen.w.getChunk ctx.x ctx.z with
        | some ch =>
          .ok (some ch, { agen.setRequest r ⟨tok, ctx, .finished⟩ with
            history := agen.history ++ [.returned r ch] })
        | none =>
          let stage := if agen.accepting then .queued else .finished
          .ok (none, agen.setRequest r ⟨tok, ctx, stage⟩)
      else
        .ok (none, agen.setRequest r ⟨tok, ctx, .finished⟩)

end Functions

inductive Label (κ β : Type) where
  | makeToken
  | freeToken (tid : Int)
  /-- a new call of `generate`, which becomes the request `r` -/
  | generate (r : Nat) (ctx : GenCtx β)
  | proceed (r : Nat) (prov : Option κ) (gen : κ)
  /-- somebody else has a chunk loaded -/
  | loadChunk (x z : Int) (prov : Option κ) (gen : κ)
  /-- the pool stops accepting -/
  | join

/--
One step; `none` if it is not next.
-/
def step : Except Crash (AsyncGenerator κ β) → Label κ β
    → Option (Except Crash (AsyncGenerator κ β))
  | .error _, _ => none
  | .ok agen, .makeToken => some (.ok agen.makeToken)
  | .ok agen, .freeToken tid => some (agen.freeToken tid)
  | .ok agen, .generate r ctx =>
    match agen.requests r with
    | none => some (agen.generate r ctx)
    | some _ => none
  | .ok agen, .proceed r prov gen =>
    match agen.requests r with
    | none => none
    | some req => agen.proceed r req prov gen
  | .ok agen, .loadChunk x z prov gen =>
    some (.ok { agen with w := (agen.w.loadChunk x z prov gen).2 })
  | .ok agen, .join => some (.ok { agen with accepting := false })

end AsyncGenerator

end HCraft
