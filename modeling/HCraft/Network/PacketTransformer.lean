import HCraft.Util.Binary
import HCraft.Util.Fault

/-!
This module contains the interface of `packet_transformer`.
-/

namespace HCraft

/--
The result of `transform_in`, `out` being `(*outp)[0 .. *out_len)`.
-/
structure TransformIn where
  ok : Bool
  out : Bytes
  consumed : Nat
  deriving DecidableEq, Repr

/--
The virtual functions of `packet_transformer` that incoming data goes through, for the objects
`τ`.
-/
class PacketTransformer (τ : Type) where
  isOn : τ → Bool
  inEnough : τ → Bytes → Except Fault Int
  transformIn : τ → Bytes → Except Fault (τ × TransformIn)

/--
A protocol without transformers.
-/
instance : PacketTransformer Empty where
  isOn := nofun
  inEnough := nofun
  transformIn := nofun

/--
A protocol mixes transformers of different classes.
-/
instance {α β : Type} [PacketTransformer α] [PacketTransformer β] : PacketTransformer (α ⊕ β) where
  isOn
    | .inl tr => PacketTransformer.isOn tr
    | .inr tr => PacketTransformer.isOn tr
  inEnough
    | .inl tr => PacketTransformer.inEnough tr
    | .inr tr => PacketTransformer.inEnough tr
  transformIn
    | .inl tr => fun data =>
      (PacketTransformer.transformIn tr data).map (fun res => (.inl res.1, res.2))
    | .inr tr => fun data =>
      (PacketTransformer.transformIn tr data).map (fun res => (.inr res.1, res.2))

/--
The virtual function that outgoing packets go through, in addition. `none` is a return value of
`false`.
-/
class TransformOut (τ : Type) extends PacketTransformer τ where
  transformOut : τ → Bytes → Except Fault (τ × Option Bytes)

instance : TransformOut Empty where
  transformOut := nofun

instance {α β : Type} [TransformOut α] [TransformOut β] : TransformOut (α ⊕ β) where
  transformOut
    | .inl tr => fun data =>
      (TransformOut.transformOut tr data).map (fun res => (.inl res.1, res.2))
    | .inr tr => fun data =>
      (TransformOut.transformOut tr data).map (fun res => (.inr res.1, res.2))

end HCraft
