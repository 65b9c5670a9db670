import HCraft.Network.Transformers.ZlibMc18.Lemmas.Packet

/-!
This module contains the packets that `transform_out` puts on the wire.
-/

namespace HCraft

namespace ZlibMc18Transformer

/--
A packet on its way: the bytes on the wire, and the frame they stand for. Nothing can be made of
`none`.
-/
structure Item where
  wire : Bytes
  frame : Option Bytes

/--
The frame of a packet without a body.
-/
def emptyFrame : Bytes :=
  Bin.writeVarint 0

/--
What arrives is a frame that went through `transform_out`, or a packet with a compressed body that
`inflate` does not accept. The sizes stay within the range of `int`.
-/
inductive Item.Sent (tr : ZlibMc18Transformer) : Item → Prop where
  | frame (body wire : Bytes) (hbody : body.length < 2 ^ 30)
      (hdeflate : (tr.zlib.deflate body).length < 2 ^ 30)
      (hwire : tr.transformOut (Bin.writeVarint body.length ++ body) = .ok (some wire))
      : Sent tr ⟨wire, some (Bin.writeVarint body.length ++ body)⟩
  | corrupt (dlen : Nat) (content : Bytes) (hpos : 0 < dlen) (hdlen : dlen < 2 ^ 32)
      (hcontent : content.length < 2 ^ 30)
      (hcorrupt : ∀ out, tr.zlib.inflate content ≠ .streamEnd out)
      : Sent tr
          ⟨Bin.writeVarint ((Bin.writeVarint dlen).length + content.length)
            ++ (Bin.writeVarint dlen ++ content), none⟩

/--
The packet that carries a frame.
-/
def packetOf (tr : ZlibMc18Transformer) (body : Bytes) : ZlibPacket :=
  if (body.length : Int) < tr.threshold then
    ⟨0, body⟩
  else
    ⟨body.length, tr.zlib.deflate body⟩

/--
What the output block of `transform_in` goes through for a frame that went through `transform_out`.
-/
def putFrame (tr : ZlibMc18Transformer) (buf : OutBuffer) (frame : Bytes) : Except Fault OutBuffer := do
  let (dlen, dlenLen) ← readLength frame
  if dlen < tr.threshold then
    let buf ← buf.reserve (dlen + 5)
    buf.write frame
  else
    let buf ← buf.reserve 5
    let buf ← buf.write (frame.take dlenLen)
    buf.inflateInto (frame.drop dlenLen)

variable {tr : ZlibMc18Transformer}

theorem transformOut_eq {body : Bytes} (hbody : body.length < 2 ^ 30)
    (hdeflate : (tr.zlib.deflate body).length < 2 ^ 30)
    : tr.transformOut (Leb128.encode body.length ++ body)
        =
      if (body.length : Int) < tr.threshold
          ∨ (tr.zlib.deflate body).length
            ≤ tr.zlib.deflateBound (Leb128.encode body.length ++ body).length then
        .ok (some (packetOf tr body).wire)
      else
        .ok none := by
  have hfive : (Leb128.encode body.length).length ≤ 5 :=
    Leb128.length_encode_le (by omega) (by omega)
  have hrest : (Leb128.encode body.length ++ body).length - (Leb128.encode body.length).length
      = body.length := by
    rw [List.length_append, Nat.add_sub_cancel_left]
  have hzero : Leb128.encode 0 = [0] := by
    unfold Leb128.encode
    rfl
  unfold transformOut
  rw [readLength_encode (by omega), Bin.int32_eq_self (by omega)]
  simp only [bind, Except.bind, hrest, List.drop_left]
  unfold packetOf
  split
  . next hplain =>
    have hsize := Bin.varintSize_eq_encode (n := body.length + 1) (by omega)
    have hfit : ¬ ((body.length : Int) < 0 ∨ (body.length : Int) < body.length) := by omega
    have hall : ¬ (body.length : Int) < body.length := by omega
    have hrest' : ((Leb128.encode body.length ++ body).length : Int)
        - (Leb128.encode body.length).length = body.length := by
      rw [List.length_append]
      omega
    simp only [hsize, hrest', if_neg hfit, if_neg hall]
    rw [if_pos (Or.inl hplain), Bin.writeVarint_eq_encode, Bin.writeVarint_eq_encode,
      List.take_length, ZlibPacket.wire, ZlibPacket.inner, hzero, List.length_append, Nat.add_comm,
      List.append_assoc]
    rfl
  . next hcompressed =>
    split
    . next hover =>
      rw [if_neg (by omega)]
      rfl
    . next hfits =>
      have hsize := Bin.varintSize_eq_encode
        (n := (tr.zlib.deflate body).length + (Leb128.encode body.length).length) (by omega)
      have hunsigned : Bin.unsigned32 (body.length : Int) = body.length :=
        Bin.unsigned32_natCast (by omega)
      simp only [hsize, hunsigned, Bin.writeVarint_eq_encode, Nat.lt_irrefl, ↓reduceIte]
      rw [if_pos (by omega), List.take_length, List.take_length, ZlibPacket.wire, ZlibPacket.inner,
        List.length_append, Nat.add_comm, List.append_assoc]
      rfl

theorem transformOut_encode {body wire : Bytes} (hbody : body.length < 2 ^ 30)
    (hdeflate : (tr.zlib.deflate body).length < 2 ^ 30)
    (hwire : tr.transformOut (Leb128.encode body.length ++ body) = .ok (some wire))
    : wire = (packetOf tr body).wire := by
  rw [transformOut_eq hbody hdeflate] at hwire
  split at hwire
  . injection hwire with hwire
    injection hwire with hwire
    exact hwire.symm
  . injection hwire with hwire
    injection hwire

/--
`packetOf` carries its frame, except for an empty body that is compressed: its zero length makes the
receiver take the content as it is.
-/
theorem received_packetOf (hz : tr.zlib.Correct) (body : Bytes)
    : (packetOf tr body).received tr.zlib
        =
      if body = [] ∧ tr.threshold ≤ 0 then
        some (Leb128.encode (tr.zlib.deflate []).length ++ tr.zlib.deflate [])
      else
        some (Leb128.encode body.length ++ body) := by
  unfold packetOf
  split
  . next hplain =>
    rw [if_neg (by rintro ⟨rfl, hthreshold⟩; simp at hplain; omega)]
    simp [ZlibPacket.received]
  . next hcompressed =>
    by_cases hnil : body = []
    . subst hnil
      have hthreshold : tr.threshold ≤ 0 := by
        simp at hcompressed
        omega
      simp [ZlibPacket.received, hthreshold]
    . have hpos : body.length ≠ 0 := by simpa using hnil
      simp [ZlibPacket.received, hnil, hz.inflate_deflate]

theorem put_packetOf (hz : tr.zlib.Correct) {body : Bytes} (hbody : body.length < 2 ^ 30)
    (hempty : ¬ (body = [] ∧ tr.threshold ≤ 0)) (buf : OutBuffer)
    : (packetOf tr body).put tr.zlib buf
        =
      tr.putFrame buf (Leb128.encode body.length ++ body) := by
  unfold putFrame packetOf
  rw [readLength_encode (by omega), Bin.int32_eq_self (by omega)]
  simp only [bind, Except.bind, List.take_left, List.drop_left]
  split
  . exact ZlibPacket.put_of_plain rfl
  . next hcompressed =>
    have hpos : body.length ≠ 0 := by
      intro hzero
      apply hempty
      refine ⟨List.length_eq_zero_iff.mp hzero, ?_⟩
      rw [hzero] at hcompressed
      omega
    rw [ZlibPacket.put_of_compressed hpos (hz.inflate_deflate body), bind_assoc]
    rfl

theorem valid_packetOf {body : Bytes} (hbody : body.length < 2 ^ 30)
    (hdeflate : (tr.zlib.deflate body).length < 2 ^ 30) : (packetOf tr body).Valid tr.zlib := by
  have hfive : ∀ n < 2 ^ 31, (Leb128.encode n).length ≤ 5 :=
    fun n hn => Leb128.length_encode_le (by omega) (by omega)
  have hsize : ∀ dlen content, dlen < 2 ^ 30 → content.length < 2 ^ 30 →
      (ZlibPacket.mk dlen content).wire.length < 2 ^ 31 := by
    intro dlen content hdlen hcontent
    have h := hfive dlen (by omega)
    have hinner : (ZlibPacket.mk dlen content).inner.length
        = (Leb128.encode dlen).length + content.length := by
      rw [ZlibPacket.inner, List.length_append]
    have := hfive (ZlibPacket.mk dlen content).inner.length (by omega)
    rw [ZlibPacket.length_wire]
    dsimp only
    omega
  unfold packetOf
  split
  . exact ⟨by dsimp only; omega, hsize 0 body (by omega) hbody, Or.inl rfl⟩
  . exact ⟨by dsimp only; omega, hsize _ _ hbody hdeflate, Or.inr (Or.inl ⟨body, rfl⟩)⟩

/--
`p` is the packet on the wire for `it`.
-/
structure Item.Carries (tr : ZlibMc18Transformer) (it : Item) (p : ZlibPacket) : Prop where
  valid : p.Valid tr.zlib
  wire : p.wire = it.wire
  corrupt : it.frame = none → p.received tr.zlib = none
  received : ∀ f, it.frame = some f → ∃ g, p.received tr.zlib = some g
    ∧ (f = emptyFrame ∧ tr.threshold ≤ 0 → f.length < g.length)
    ∧ (¬ (f = emptyFrame ∧ tr.threshold ≤ 0) → g = f)
  put : ∀ f, it.frame = some f → ¬ (f = emptyFrame ∧ tr.threshold ≤ 0) →
    ∀ buf, p.put tr.zlib buf = tr.putFrame buf f

/--
Every packet on its way is one the receiver can take apart.
-/
theorem Item.Sent.exists_packet (hz : tr.zlib.Correct) {it : Item} (h : it.Sent tr)
    : ∃ p, it.Carries tr p := by
  cases h with
  | frame body wire hbody hdeflate hwire =>
    rw [Bin.writeVarint_eq_encode] at hwire
    have hempty : Bin.writeVarint body.length ++ body = emptyFrame ↔ body = [] := by
      rw [emptyFrame, Bin.writeVarint_eq_encode, Bin.writeVarint_eq_encode]
      constructor
      . intro heq
        have hlen := congrArg List.length heq
        have := Leb128.length_encode_pos body.length
        rw [List.length_append, show (Leb128.encode 0).length = 1 by simp [Leb128.encode]] at hlen
        exact List.length_eq_zero_iff.mp (by omega)
      . rintro rfl
        simp
    refine ⟨packetOf tr body, valid_packetOf hbody hdeflate,
      (transformOut_encode hbody hdeflate hwire).symm, by simp, ?_, ?_⟩
    rotate_left
    . intro f hf hgood buf
      injection hf with hf
      subst hf
      rw [hempty] at hgood
      rw [put_packetOf hz hbody hgood, Bin.writeVarint_eq_encode]
    intro f hf
    injection hf with hf
    subst hf
    rw [received_packetOf hz, hempty]
    split
    . next hbad =>
      rcases hbad with ⟨rfl, hthreshold⟩
      refine ⟨_, rfl, ?_, fun hgood => absurd ⟨rfl, hthreshold⟩ hgood⟩
      intro _
      have := List.length_pos_iff.mpr (hz.deflate_ne_nil [])
      have := Leb128.length_encode_pos (tr.zlib.deflate []).length
      rw [Bin.writeVarint_eq_encode, List.length_nil, List.append_nil, List.length_append,
        show (Leb128.encode 0).length = 1 by simp [Leb128.encode]]
      omega
    . next hgood =>
      refine ⟨_, rfl, fun hbad => absurd hbad hgood, fun _ => ?_⟩
      rw [Bin.writeVarint_eq_encode]
  | corrupt dlen content hpos hdlen hcontent hcorrupt =>
    have hreceived : (ZlibPacket.mk dlen content).received tr.zlib = none := by
      rw [ZlibPacket.received, if_neg (by dsimp only; omega)]
      dsimp only
      split
      . next out hout => exact absurd hout (hcorrupt out)
      . rfl
    have hfive : (Leb128.encode dlen).length ≤ 5 :=
      Leb128.length_encode_le (by omega) (by omega)
    have hinner : (ZlibPacket.mk dlen content).inner.length
        = (Leb128.encode dlen).length + content.length := by
      rw [ZlibPacket.inner, List.length_append]
    have hprefix : (Leb128.encode (ZlibPacket.mk dlen content).inner.length).length ≤ 5 :=
      Leb128.length_encode_le (by omega) (by omega)
    refine ⟨⟨dlen, content⟩, ⟨hdlen, ?_, Or.inr (Or.inr hreceived)⟩, ?_, fun _ => hreceived, by simp, by simp⟩
    . rw [ZlibPacket.length_wire]
      dsimp only
      omega
    . simp [ZlibPacket.wire, ZlibPacket.inner, Bin.writeVarint_eq_encode]

end ZlibMc18Transformer

end HCraft
