import HCraft.Lib.Pipeline
import HCraft.Network.PacketTransformer

/-!
This module contains what the inbound side of a connection is for: the active transformers one after
the other, the last one first.
-/

namespace HCraft

open PacketTransformer Pipeline

/--
Why a transformer has nothing to hand on.
-/
inductive InStop where
  | needMore
  | invalid
  | fault (f : Fault)

structure InPipeline (τ : Type) where
  /-- every transformer with the bytes it has not consumed, the last one first -/
  stages : List (τ × Bytes)
  ftb : Bytes
  disconnectReq : Bool
  fault : Option Fault

namespace InPipeline

variable {τ : Type}

def finish (p : InPipeline τ) (stages : List (τ × Bytes)) : Except InStop Bytes → InPipeline τ
  | .ok out => { p with stages, ftb := p.ftb ++ out }
  | .error .needMore => { p with stages }
  | .error .invalid => { p with stages, disconnectReq := true }
  | .error (.fault f) => { p with stages, fault := some (p.fault.getD f) }

variable [PacketTransformer τ]

def runStage (s : τ × Bytes) (data : Bytes) : Handed (τ × Bytes) Bytes InStop :=
  if isOn s.1 = false then
    .on s data
  else
    match inEnough s.1 (s.2 ++ data) with
    | .error f => .stop (s.1, []) (.fault f)
    | .ok res =>
      if res = -1 then
        .stop (s.1, []) .invalid
      else if res ≠ 1 then
        .stop (s.1, s.2 ++ data) .needMore
      else
        match transformIn s.1 (s.2 ++ data) with
        | .error f => .stop (s.1, []) (.fault f)
        | .ok (tr, res) => .on (tr, (s.2 ++ data).drop res.consumed) res.out

/--
The raw data goes to the last active transformer, its output to the one before it, and so on.
-/
def arrive (p : InPipeline τ) (data : Bytes) : InPipeline τ :=
  p.finish (feed runStage p.stages data).1 (feed runStage p.stages data).2

def arriveAll (p : InPipeline τ) (reads : List Bytes) : InPipeline τ :=
  reads.foldl arrive p

/--
Whichever transformer gets to transform its data, and is not the first active one, consumes all of it;
and puts out nothing unless it is the second one.
-/
def Straight : List (τ × Bytes) → Bytes → Prop
  | [], _ => True
  | s :: rest, data =>
    match runStage s data with
    | .on s' out =>
      (isOn s.1 = true → rest.any (fun s => isOn s.1) = true →
        s'.2 = [] ∧ (2 ≤ rest.countP (fun s => isOn s.1) → out = []))
        ∧ Straight rest out
    | .stop _ _ => True

end InPipeline

end HCraft
