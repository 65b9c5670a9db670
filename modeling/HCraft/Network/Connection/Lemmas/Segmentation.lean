import HCraft.Network.Connection.Lemmas.OnRead

/-!
This module contains what the read callback guarantees for a whole stream, however it is cut into
reads.
-/

namespace HCraft

open Mc17PacketDelimiter PacketTransformer

/--
A packet as clients put it on the wire.
-/
def IsPacket (p : Bytes) : Prop :=
  ∃ body, p = Bin.writeVarint body.length ++ body ∧ p.length ≤ READ_BUFFER_SIZE

theorem IsPacket.isFrame {p : Bytes} (h : IsPacket p) : framer.IsFrame p := by
  obtain ⟨body, hp, hlen⟩ := h
  unfold READ_BUFFER_SIZE at hlen
  rw [Bin.writeVarint_eq_encode] at hp
  have hterm := Leb128.terminated_encode body.length
  have hbody : body.length < 512 := by
    have := Leb128.length_encode_pos body.length
    rw [hp, List.length_append] at hlen
    omega
  have hprefix : (Leb128.encode body.length).length ≤ 2 :=
    Leb128.length_encode_le (by omega) (by omega)
  have hnat : Bin.int32 body.length = body.length := Bin.int32_eq_self (by omega)
  show head p = .frame p.length
  rw [hp, List.length_append] at hlen ⊢
  rw [head_of_terminated hterm, Leb128.value_encode, announce]
  simp only [hnat]
  rw [if_neg (by omega), if_neg (by omega), if_neg (by omega)]
  rw [if_neg (by unfold READ_BUFFER_SIZE; omega)]
  have htotal : ((body.length : Int) + ((Leb128.encode body.length).length : Nat)).toNat
      = (Leb128.encode body.length).length + body.length := by
    omega
  rw [htotal]

namespace Connection

variable {τ : Type}

theorem readLoop_frame (conn : Connection τ)
    : conn.readLoop.1.trs = conn.trs ∧ conn.readLoop.1.input = conn.input := by
  fun_induction readLoop conn with
  | case1 | case3 | case4 | case6 => exact ⟨rfl, rfl⟩
  | case2 conn len rem hnonneg hzero conn' hlen res ih => exact ih
  | case5 conn len rem hnonneg hnz hfit n conn' hlen res ih => exact ih

theorem readLoop_remove (conn : Connection τ) {rbuf ftb : Bytes} (hpos : 0 < remaining rbuf)
    (hfit : Bin.wrap32 (rbuf.length + remaining rbuf) ≤ READ_BUFFER_SIZE) (hmore : 0 < ftb.length)
    {n : Nat} (hn : n = min (remaining rbuf).toNat ftb.length)
    : ({ conn with rbuf := rbuf, ftb := ftb }).readLoop.2
        =
      .remove rbuf n
        :: ({ conn with rbuf := rbuf ++ ftb.take n, ftb := ftb.drop n }).readLoop.2 := by
  rw [readLoop]
  simp only [show ¬ remaining rbuf < 0 by omega, show ¬ remaining rbuf = 0 by omega,
    show ¬ Bin.wrap32 (rbuf.length + remaining rbuf) > READ_BUFFER_SIZE by omega,
    gt_iff_lt, hmore, ↓reduceIte, ↓reduceDIte, hn]

/--
`ff ff ff ff 07` is `INT_MAX`: the sum with the five bytes read so far is negative, and whatever
follows is copied behind them.
-/
theorem remove_of_intMax (conn : Connection τ) {body : Bytes} (hpos : 0 < body.length)
    (hlen : body.length < 2 ^ 31)
    : ReadEvent.remove [0xff, 0xff, 0xff, 0xff, 0x07] body.length
        ∈
      ({ conn with rbuf := [], ftb := 0xff :: 0xff :: 0xff :: 0xff :: 0x07 :: body }).readLoop.2 := by
  have hfive : remaining [0xff, 0xff, 0xff, 0xff, 0x07] = 2 ^ 31 - 1 := by decide
  have hone : ∀ {b : UInt8} {ftb : Bytes}, 1 = min (1 : Int).toNat (b :: ftb).length := by
    intro b ftb
    simp
  -- one round for each byte of the prefix
  rw [readLoop_remove conn (by decide) (by decide) (by simp) hone]
  right
  rw [List.take_succ_cons, List.take_zero, List.drop_succ_cons, List.drop_zero]
  rw [readLoop_remove conn (by decide) (by decide) (by simp) hone]
  right
  rw [List.take_succ_cons, List.take_zero, List.drop_succ_cons, List.drop_zero]
  rw [readLoop_remove conn (by decide) (by decide) (by simp) hone]
  right
  rw [List.take_succ_cons, List.take_zero, List.drop_succ_cons, List.drop_zero]
  rw [readLoop_remove conn (by decide) (by decide) (by simp) hone]
  right
  rw [List.take_succ_cons, List.take_zero, List.drop_succ_cons, List.drop_zero]
  rw [readLoop_remove conn (by decide) (by decide) (by simp) hone]
  right
  rw [List.take_succ_cons, List.take_zero, List.drop_succ_cons, List.drop_zero]
  rw [readLoop_remove conn (by decide) (by decide) hpos (n := body.length)]
  . exact List.mem_cons_self
  . show body.length = min (remaining [0xff, 0xff, 0xff, 0xff, 0x07]).toNat body.length
    rw [hfive]
    omega

variable [PacketTransformer τ]

theorem applyInTransformations_of_off {conn : Connection τ} (hoff : conn.trs.any isOn = false)
    : conn.applyInTransformations = { conn with input := [], ftb := conn.ftb ++ conn.input } := by
  unfold applyInTransformations
  rw [hoff]
  simp

theorem delivered_of_off (reads : List Bytes) {conn : Connection τ}
    (hoff : conn.trs.any isOn = false) (hinput : conn.input = [])
    : conn.delivered reads = reads.flatten := by
  induction reads generalizing conn with
  | nil => rfl
  | cons data reads ih =>
    have happly : ({ conn with input := conn.input ++ data }).applyInTransformations
        = { conn with input := [], ftb := conn.ftb ++ data } := by
      rw [applyInTransformations_of_off (by exact hoff)]
      simp [hinput]
    have hmoved : conn.moved data = data := by
      unfold moved
      dsimp only
      split
      . next h =>
        rw [hinput, List.nil_append, List.length_eq_zero_iff] at h
        exact h.symm
      . simp [happly]
    have hnext : (conn.onRead data).1.trs = conn.trs ∧ (conn.onRead data).1.input = [] := by
      unfold onRead
      dsimp only
      split
      . next h => exact ⟨rfl, List.length_eq_zero_iff.mp h⟩
      . rw [happly]
        exact readLoop_frame _
    rw [delivered, hmoved, ih (by rw [hnext.1]; exact hoff) hnext.2, List.flatten_cons]

/--
The connection after some reads of a stream that never stops: all that is left of them is the
packet not finished yet.
-/
theorem onReads_of_off (reads : List Bytes) {conn : Connection τ} {s : Bytes} (h : Tracks conn s)
    (hoff : conn.trs.any isOn = false) (hinput : conn.input = []) (hreads : ∀ r ∈ reads, r ≠ [])
    (hstop : (framer.split (s ++ reads.flatten)).stop = none)
    : (conn.onReads reads).1
        =
      { conn with rbuf := (framer.split (s ++ reads.flatten)).rest, ftb := [] } := by
  induction reads generalizing conn s with
  | nil =>
    rw [List.flatten_nil, List.append_nil] at hstop ⊢
    have hftb := h.drained hstop
    have hrbuf := h.rest
    rw [hftb, List.append_nil] at hrbuf
    rw [← hrbuf, onReads, ← hftb]
  | cons data reads ih =>
    rw [List.flatten_cons, ← List.append_assoc] at hstop ⊢
    have hmid : (framer.split (s ++ data)).stop = none := by
      cases hreason : (framer.split (s ++ data)).stop with
      | none => rfl
      | some reason =>
        rw [framer.split_stop_append hreason] at hstop
        injection hstop
    have hmoved : conn.moved data = data := by
      have := delivered_of_off [data] hoff hinput
      simpa [delivered] using this
    have hnext : (conn.onRead data).1
        = { conn with rbuf := (framer.split (s ++ data)).rest, ftb := [] } := by
      have hne : ¬ data.length = 0 := by
        intro hnil
        exact hreads data (by simp) (List.length_eq_zero_iff.mp hnil)
      have hcut : framer.split (s ++ data)
          = ⟨(framer.split s).frames ++ (framer.split (conn.rbuf ++ (conn.ftb ++ data))).frames,
              (framer.split (conn.rbuf ++ (conn.ftb ++ data))).rest,
              (framer.split (conn.rbuf ++ (conn.ftb ++ data))).stop⟩ := by
        rw [framer.split_append, ← h.rest, List.append_assoc]
      rw [hcut] at hmid
      unfold onRead
      simp only [hinput, List.nil_append, if_neg hne]
      rw [applyInTransformations_of_off (by exact hoff)]
      have hspec := readLoop_spec { conn with input := [], ftb := conn.ftb ++ data } h.building
      rw [hspec.finished hmid, hcut, ← hinput]
    have htracks : Tracks (conn.onRead data).1 (s ++ data) := by
      have hgood := (onRead_tracks h data).1
      rw [hmoved, AnnouncesHuge, hmid] at hgood
      exact (hgood (by simp)).1
    rw [onReads]
    dsimp only
    rw [ih htracks (by rw [hnext]; exact hoff) (by rw [hnext]; exact hinput)
      (fun r hr => hreads r (by simp [hr])) hstop]
    rw [hnext]

theorem onReads_of_prefix {trs : List τ} (hoff : trs.any isOn = false) {frames reads : List Bytes}
    (hframes : ∀ f ∈ frames, framer.IsFrame f) (hreads : ∀ r ∈ reads, r ≠ [])
    (hpre : reads.flatten <+: frames.flatten)
    : ∃ before after rest,
        frames = before ++ after
          ∧ reads.flatten = before.flatten ++ rest
          ∧ rest <+: after.flatten
          ∧ (∀ f ∈ after.head?, rest.length < f.length)
          ∧ ((start trs).onReads reads).1 = { start trs with rbuf := rest }
          ∧ ReadEvent.dispatched ((start trs).onReads reads).2 = before
          ∧ ∀ e ∈ ((start trs).onReads reads).2, e.Safe := by
  obtain ⟨before, after, rest, heq, hsplit, hflat, hrest, hlast⟩ :=
    framer.split_of_prefix hframes hpre
  have hstop : (framer.split ([] ++ reads.flatten)).stop = none := by
    rw [List.nil_append, hsplit]
  have hconn := onReads_of_off reads (tracks_start trs) hoff rfl hreads hstop
  have hgood := (onReads_tracks reads (tracks_start trs)).1
  rw [delivered_of_off reads hoff rfl, AnnouncesHuge, hstop] at hgood
  obtain ⟨_, hsafe, hdispatched⟩ := hgood (by simp)
  rw [List.nil_append, hsplit, framer.split_of_partial framer.partial_nil,
    List.nil_append] at hdispatched
  refine ⟨before, after, rest, heq, hflat, hrest, hlast, ?_, hdispatched.symm, hsafe⟩
  rw [hconn, List.nil_append, hsplit]
  rfl

/--
However clients' packets are cut into reads, they reach the handler one by one and unchanged, and
`rbuf` holds what has arrived of the next one.
-/
theorem onReads_packets {trs : List τ} (hoff : trs.any isOn = false) {packets reads : List Bytes}
    (hpackets : ∀ p ∈ packets, IsPacket p) (hreads : ∀ r ∈ reads, r ≠ [])
    (hcut : reads.flatten = packets.flatten)
    : ReadEvent.dispatched ((start trs).onReads reads).2 = packets
        ∧ ∀ k, ∃ before after,
            packets = before ++ after
              ∧ ReadEvent.dispatched ((start trs).onReads (reads.take k)).2 = before
              ∧ (reads.take k).flatten
                  = before.flatten ++ ((start trs).onReads (reads.take k)).1.rbuf
              ∧ (∀ p ∈ after.head?, ((start trs).onReads (reads.take k)).1.rbuf <+: p
                  ∧ ((start trs).onReads (reads.take k)).1.rbuf ≠ p)
              ∧ (after = [] → ((start trs).onReads (reads.take k)).1.rbuf = [])
              ∧ ((start trs).onReads (reads.take k)).1.rbuf.length ≤ READ_BUFFER_SIZE
              ∧ ((start trs).onReads (reads.take k)).1.disconnectReq = false
              ∧ ∀ e ∈ ((start trs).onReads (reads.take k)).2, e.Safe := by
  have hframes : ∀ p ∈ packets, framer.IsFrame p := fun p hp => (hpackets p hp).isFrame
  constructor
  . obtain ⟨before, after, rest, heq, hflat, hrest, hlast, _, hdispatched, _⟩ :=
      onReads_of_prefix hoff hframes hreads (hcut ▸ List.prefix_rfl)
    cases after with
    | nil =>
      rw [hdispatched, heq, List.append_nil]
    | cons p after =>
      -- the whole stream is longer than what has been cut off it
      have hlen := congrArg List.length (hflat.symm.trans hcut)
      rw [heq] at hlen
      simp only [List.flatten_append, List.flatten_cons, List.length_append] at hlen
      have := hlast p (by simp)
      omega
  . intro k
    have hpre : (reads.take k).flatten <+: packets.flatten := by
      rw [← hcut]
      exact Framing.flatten_take_prefix reads k
    obtain ⟨before, after, rest, heq, hflat, hrest, hlast, hconn, hdispatched, hsafe⟩ :=
      onReads_of_prefix hoff hframes (fun r hr => hreads r (List.mem_of_mem_take hr)) hpre
    refine ⟨before, after, heq, hdispatched, ?_, ?_, ?_, ?_, ?_, hsafe⟩
    . rw [hconn]
      exact hflat
    . intro p hp
      rw [hconn]
      show rest <+: p ∧ rest ≠ p
      have hlen := hlast p hp
      cases after with
      | nil => simp at hp
      | cons p' after =>
        have hp' : p' = p := by simpa using hp
        subst hp'
        constructor
        . exact List.prefix_of_prefix_length_le hrest (List.prefix_append _ _) (by omega)
        . intro h
          rw [h] at hlen
          omega
    . intro hnil
      rw [hnil] at hrest
      rw [hconn]
      simpa using hrest
    . rw [hconn]
      dsimp only
      cases after with
      | nil =>
        have : rest = [] := by simpa using hrest
        simp [this]
      | cons p after =>
        have hp := hpackets p (by simp [heq])
        have := hlast p (by simp)
        rcases hp with ⟨_, _, hsize⟩
        omega
    . rw [hconn]
      rfl

theorem onReads_packets_split_prefix
    : ReadEvent.dispatched ((start ([] : List Empty)).onReads [[1], [7, 2, 8], [9]]).2
        =
      [[1, 7], [2, 8, 9]] := by
  have hone : Bin.writeVarint 1 = [1] := by simp [Bin.writeVarint_eq_encode, Leb128.encode]
  have htwo : Bin.writeVarint 2 = [2] := by simp [Bin.writeVarint_eq_encode, Leb128.encode]
  have hpackets : ∀ p ∈ [[1, 7], [2, 8, 9]], IsPacket p := by
    intro p hp
    simp only [List.mem_cons, List.not_mem_nil, or_false] at hp
    cases hp with
    | inl h => exact ⟨[7], by simp [h, hone], by simp [h, READ_BUFFER_SIZE]⟩
    | inr h => exact ⟨[8, 9], by simp [h, htwo], by simp [h, READ_BUFFER_SIZE]⟩
  have hoff : ([] : List Empty).any isOn = false := rfl
  have hreads : ∀ r ∈ ([[1], [7, 2, 8], [9]] : List Bytes), r ≠ [] := by simp
  exact (onReads_packets hoff hpackets hreads (by simp)).1

section Bounds

theorem onReads_intMax_unsafe
    : ¬ ((∀ e ∈ ((start ([] : List Empty)).onReads
          [[0xff, 0xff, 0xff, 0xff, 0x07] ++ List.replicate 600 0]).2, e.Safe)
        ∧ ∀ total, announced ((start ([] : List Empty)).onReads
            [[0xff, 0xff, 0xff, 0xff, 0x07] ++ List.replicate 600 0]).1.rbuf = some total →
          READ_BUFFER_SIZE < total → ((start ([] : List Empty)).onReads
            [[0xff, 0xff, 0xff, 0xff, 0x07] ++ List.replicate 600 0]).1.disconnectReq = true) := by
  generalize hbody : List.replicate 600 (0 : UInt8) = body
  have hlen : body.length = 600 := by rw [← hbody, List.length_replicate]
  intro ⟨hsafe, _⟩
  have hmem : ReadEvent.remove [0xff, 0xff, 0xff, 0xff, 0x07] body.length
      ∈ ((start ([] : List Empty)).onReads [[0xff, 0xff, 0xff, 0xff, 0x07] ++ body]).2 := by
    refine List.mem_append_left _ ?_
    have hpos : 0 < body.length := by omega
    have hloop := remove_of_intMax (start ([] : List Empty)) hpos (by omega)
    unfold onRead
    rw [if_neg (by simp), applyInTransformations_of_off rfl]
    exact hloop
  obtain ⟨hwithin, _⟩ := hsafe _ hmem
  rw [hlen] at hwithin
  unfold READ_BUFFER_SIZE at hwithin
  simp at hwithin

/--
The callbacks keep to the read buffer, and refuse what does not fit it, as long as no length prefix
takes the size check out of the range of `int`. Without active transformers the stream in question
is the one the client sends.
-/
theorem onReads_safe_iff (trs : List τ) (reads : List Bytes)
    : ((∀ e ∈ ((start trs).onReads reads).2, e.Safe)
          ∧ (∀ total, announced ((start trs).onReads reads).1.rbuf = some total →
            READ_BUFFER_SIZE < total → ((start trs).onReads reads).1.disconnectReq = true)
        ↔ ¬ AnnouncesHuge ((start trs).delivered reads))
        ∧ (trs.any isOn = false → (start trs).delivered reads = reads.flatten) := by
  refine ⟨?_, fun hoff => delivered_of_off reads hoff rfl⟩
  obtain ⟨hgood, hbad⟩ := onReads_tracks reads (tracks_start trs)
  rw [List.nil_append] at hgood hbad
  constructor
  . intro ⟨hsafe, _⟩ hhuge
    have hnil : ¬ AnnouncesHuge [] := by
      rw [AnnouncesHuge, framer.split_of_partial framer.partial_nil]
      simp
    obtain ⟨e, hmem, hviol⟩ := hbad hnil hhuge
    exact hviol (hsafe e hmem)
  . intro hhuge
    obtain ⟨htracks, hsafe, _⟩ := hgood hhuge
    refine ⟨hsafe, fun total hann hbig => ?_⟩
    cases hreq : ((start trs).onReads reads).1.disconnectReq with
    | true => rfl
    | false =>
      have := announced_le_of_tracks htracks hreq hann
      omega

end Bounds

end Connection

end HCraft
