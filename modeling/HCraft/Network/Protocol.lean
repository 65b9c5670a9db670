import HCraft.Network.Connection.Impl
import HCraft.Network.Connection.Send
import HCraft.Network.Transformers.Aes.Impl
import HCraft.Network.Transformers.ZlibMc18.Impl

/-!
This module contains the transformers of protocol 1.8, and what becomes of a connection that begins
encryption and compression while data is coming in.
-/

namespace HCraft

abbrev Mc18Transformer := ZlibMc18Transformer ⊕ Aes.Transformer

namespace Protocol

/--
The transformers of `_create_mc18`.
-/
def createMc18 (zlib : Zlib) (cfb : Bytes → Feedback Bytes UInt8) : List Mc18Transformer :=
  [.inl { zlib, on := false, threshold := 256 }, .inr (.new cfb)]

/--
The loop of `handle_l01`
-/
def beginEncryption (ssec : Bytes) : List Mc18Transformer → List Mc18Transformer
  | [] => []
  | .inr tr :: trs => .inr (tr.setup ssec).start :: trs
  | .inl tr :: trs => .inl tr :: beginEncryption ssec trs

/--
The loop of `uuid_get_success`
-/
def beginCompression (threshold : Int) : List Mc18Transformer → List Mc18Transformer
  | [] => []
  | .inl tr :: trs => .inl { tr with threshold, on := true } :: trs
  | .inr tr :: trs => .inr tr :: beginCompression threshold trs

end Protocol

/--
What happens to the inbound side of a connection.
-/
inductive InLabel where
  | read (data : Bytes)
  | beginEncryption (ssec : Bytes)
  | beginCompression (threshold : Int)
  deriving DecidableEq, Repr

namespace Connection

def after (conn : Connection Mc18Transformer) : InLabel → Connection Mc18Transformer × List ReadEvent
  | .read data => conn.onRead data
  | .beginEncryption ssec => ({ conn with trs := Protocol.beginEncryption ssec conn.trs }, [])
  | .beginCompression threshold =>
    ({ conn with trs := Protocol.beginCompression threshold conn.trs }, [])

/--
One after another.
-/
def afterAll (conn : Connection Mc18Transformer)
    : List InLabel → Connection Mc18Transformer × List ReadEvent
  | [] => (conn, [])
  | l :: ls =>
    let res := conn.after l
    let rest := afterAll res.1 ls
    (rest.1, res.2 ++ rest.2)

end Connection

namespace InLabel

/--
What a client sends: from the secret of an encryption response on, everything is encrypted with it.
`mode` is the client's cipher.
-/
def encipher (cfb : Bytes → Feedback Bytes UInt8) : Option Aes.CfbMode → List InLabel → List InLabel
  | _, [] => []
  | none, .read data :: ls => .read data :: encipher cfb none ls
  | some mode, .read data :: ls =>
    let res := (cfb mode.key).encrypt mode.register data
    .read res.2 :: encipher cfb (some { mode with register := res.1 }) ls
  | _, .beginEncryption ssec :: ls =>
    .beginEncryption ssec :: encipher cfb (some ⟨ssec, ssec⟩) ls
  | mode, .beginCompression threshold :: ls =>
    .beginCompression threshold :: encipher cfb mode ls

def isRead : InLabel → Bool
  | .read _ => true
  | _ => false

def isBeginEncryption : InLabel → Bool
  | .beginEncryption _ => true
  | _ => false

def isBeginCompression : InLabel → Bool
  | .beginCompression _ => true
  | _ => false

/--
All that is read.
-/
def stream (ls : List InLabel) : Bytes :=
  (ls.map (fun l => match l with | .read data => data | _ => [])).flatten

end InLabel

/--
What happens to the outbound side of a connection.
-/
inductive OutLabel where
  | op (l : OutConnection.Label)
  | beginEncryption (ssec : Bytes)
  | beginCompression (threshold : Int)
  deriving DecidableEq, Repr

/--
What the transformers are used for.
-/
inductive OutEvent where
  | send (pack : Bytes)
  | beginEncryption (ssec : Bytes)
  | beginCompression (threshold : Int)
  deriving DecidableEq, Repr

namespace OutLabel

def step : Except Fault (OutConnection Mc18Transformer) → OutLabel
    → Option (Except Fault (OutConnection Mc18Transformer))
  | res, .op l => OutConnection.step res l
  | .ok conn, .beginEncryption ssec =>
    some (.ok { conn with trs := Protocol.beginEncryption ssec conn.trs })
  | .ok conn, .beginCompression threshold =>
    some (.ok { conn with trs := Protocol.beginCompression threshold conn.trs })
  | .error _, _ => none

/--
A call of `send` that is turned away leaves the transformers alone.
-/
def event : Except Fault (OutConnection Mc18Transformer) → OutLabel → Option OutEvent
  | .ok conn, .op (.send pack _) =>
    if !conn.canSend || conn.disconnected || conn.disconnectReq then none else some (.send pack)
  | .ok _, .beginEncryption ssec => some (.beginEncryption ssec)
  | .ok _, .beginCompression threshold => some (.beginCompression threshold)
  | _, _ => none

end OutLabel

end HCraft
