import HCraft.Lib.Feedback
import HCraft.Network.PacketTransformer

/-!
This module contains the encryption of `network/transformers/aes.cpp` over the mode of the library
that does the work.
-/

namespace HCraft

namespace Aes

/--
An object of `CFB_Mode<AES>`.
-/
structure CfbMode where
  key : Bytes
  register : Bytes
  deriving DecidableEq, Repr

/--
The pointers of `aes_transformer`; `cfb` is `CFB_Mode<AES>` with a feedback of one byte, by the key.
-/
structure Transformer where
  cfb : Bytes → Feedback Bytes UInt8
  on : Bool
  encryptor : Option CfbMode
  decryptor : Option CfbMode

namespace Transformer

def new (cfb : Bytes → Feedback Bytes UInt8) : Transformer :=
  { cfb, on := false, encryptor := none, decryptor := none }

/--
The secret is the initialization vector as well.
-/
def setup (tr : Transformer) (ssec : Bytes) : Transformer :=
  { tr with encryptor := some ⟨ssec, ssec⟩, decryptor := some ⟨ssec, ssec⟩ }

def start (tr : Transformer) : Transformer :=
  { tr with on := true }

def stop (tr : Transformer) : Transformer :=
  { tr with on := false }

def transformIn (tr : Transformer) (data : Bytes) : Except Fault (Transformer × TransformIn) :=
  match tr.decryptor with
  | none => .error .nullPointer
  | some mode =>
    let res := (tr.cfb mode.key).decrypt mode.register data
    .ok ({ tr with decryptor := some { mode with register := res.1 } },
      { ok := true, out := res.2, consumed := data.length })

def transformOut (tr : Transformer) (data : Bytes) : Except Fault (Transformer × Option Bytes) :=
  match tr.encryptor with
  | none => .error .nullPointer
  | some mode =>
    let res := (tr.cfb mode.key).encrypt mode.register data
    .ok ({ tr with encryptor := some { mode with register := res.1 } }, some res.2)

instance : PacketTransformer Transformer where
  isOn tr := tr.on
  inEnough _ _ := .ok 1
  transformIn := transformIn

instance : TransformOut Transformer where
  transformOut := transformOut

end Transformer

end Aes

end HCraft
