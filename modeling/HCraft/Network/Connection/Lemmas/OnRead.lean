import HCraft.Network.Connection.Impl

/-!
This module relates the read callback to the framer of the packet delimiter: however the stream
is cut into reads, the packets that reach the handler are the frames of the stream.
-/

namespace HCraft

open Mc17PacketDelimiter

/--
The size of the packet that starts with `rbuf`, as its length prefix has it.
-/
def announced (rbuf : Bytes) : Option Int :=
  match Bin.readVarint rbuf with
  | some (len, some k) => some (len + k)
  | _ => none

namespace Mc17PacketDelimiter

/--
What the loop has taken off the stream: not more than one packet, and nothing behind a prefix
that starts none.
-/
def Building (rbuf : Bytes) : Prop :=
  match head rbuf with
  | .more => True
  | .frame n => rbuf.length ≤ n
  | .stop _ => rbuf ≠ [] ∧ head rbuf.dropLast = .more

theorem building_nil : Building [] :=
  trivial

theorem building_of_partial {rbuf : Bytes} (h : framer.Partial rbuf) : Building rbuf := by
  have hhead : framer.head rbuf = head rbuf := rfl
  rw [Framer.Partial, hhead] at h
  cases hs : head rbuf with
  | more => simp [Building, hs]
  | frame n =>
    simp only [hs] at h
    simp only [Building, hs]
    omega
  | stop reason => simp [hs] at h

theorem remaining_of_head_more {rbuf : Bytes} (h : head rbuf = .more)
    : remaining rbuf = 1 ∧ rbuf.length < 5 ∧ announced rbuf = none := by
  obtain ⟨hmore, hlen⟩ := head_eq_more_iff.mp h
  refine ⟨?_, hlen, ?_⟩
  . rw [remaining_of_more hmore, if_neg (by omega)]
  . rw [announced, Bin.readVarint_of_more hmore hlen]

theorem remaining_of_head_frame {rbuf : Bytes} {n : Nat} (h : head rbuf = .frame n)
    (hlen : rbuf.length ≤ n)
    : remaining rbuf = n - rbuf.length ∧ n ≤ READ_BUFFER_SIZE ∧ announced rbuf = some (n : Int) := by
  cases Leb128.exists_terminated_or_more rbuf with
  | inl hs =>
    rcases hs with ⟨bs, rest, rfl, hbs⟩
    rw [head_of_terminated hbs] at h
    obtain ⟨hk, hnonneg, htotal, hfit⟩ := announce_eq_frame h
    simp only [List.length_append] at hlen ⊢
    refine ⟨?_, hfit, ?_⟩
    . rw [remaining_of_terminated hbs rest hk, Bin.wrap32_eq_self]
      . omega
      . unfold READ_BUFFER_SIZE at hfit
        omega
      . unfold READ_BUFFER_SIZE at hfit
        omega
    . rw [announced, Bin.readVarint_of_terminated hbs rest hk]
      simp only [Option.some.injEq]
      omega
  | inr hs =>
    rw [head_of_more hs] at h
    split at h <;> injection h

/--
A prefix that starts no packet is noticed before anything behind it is read.
-/
theorem terminated_of_head_stop {rbuf : Bytes} {reason : Stop} (h : head rbuf = .stop reason)
    (hlast : head rbuf.dropLast = .more)
    : (reason = .invalid ∧ rbuf.length = 5 ∧ ∀ b ∈ rbuf, Leb128.more b = true)
        ∨ (Leb128.Terminated rbuf ∧ rbuf.length ≤ 5) := by
  obtain ⟨hmore, hlen⟩ := head_eq_more_iff.mp hlast
  rw [List.length_dropLast] at hlen
  cases Leb128.exists_terminated_or_more rbuf with
  | inl hs =>
    rcases hs with ⟨bs, rest, rfl, hbs⟩
    have hrest : rest = [] := by
      by_contra hne
      rw [List.dropLast_append_of_ne_nil hne] at hmore
      exact hbs.not_all_more (fun b hb => hmore b (List.mem_append_left _ hb))
    subst hrest
    right
    rw [List.append_nil] at hlen ⊢
    exact ⟨hbs, by omega⟩
  | inr hs =>
    rw [head_of_more hs] at h
    split at h
    . next hge =>
      injection h with h
      exact Or.inl ⟨h.symm, by omega, hs⟩
    . injection h

theorem building_of_head_stop {rbuf : Bytes} {reason : Stop} (hb : Building rbuf)
    (h : head rbuf = .stop reason) : rbuf ≠ [] ∧ head rbuf.dropLast = .more := by
  simpa [Building, h] using hb

/--
What the loop makes of the four kinds of prefix that start no packet: the size check misses the
last kind because the sum has left the range of `int`.
-/
theorem remaining_of_head_stop {rbuf : Bytes} {reason : Stop} (h : head rbuf = .stop reason)
    (hlast : head rbuf.dropLast = .more)
    : match reason with
      | .invalid | .negative => remaining rbuf < 0
      | .tooBig => 0 < remaining rbuf
          ∧ READ_BUFFER_SIZE < Bin.wrap32 (rbuf.length + remaining rbuf)
      | .huge => 0 < remaining rbuf
          ∧ Bin.wrap32 (rbuf.length + remaining rbuf) ≤ READ_BUFFER_SIZE
          ∧ ∃ total, announced rbuf = some total ∧ READ_BUFFER_SIZE < total := by
  cases terminated_of_head_stop h hlast with
  | inl hs =>
    rcases hs with ⟨rfl, hlen, hmore⟩
    dsimp
    rw [remaining_of_more hmore, if_pos (by omega)]
    omega
  | inr hs =>
    rcases hs with ⟨hbs, hk⟩
    have hrem := remaining_of_terminated hbs [] hk
    have hann : announced rbuf = some (Bin.int32 (Leb128.value rbuf) + rbuf.length) := by
      have := Bin.readVarint_of_terminated hbs [] hk
      rw [List.append_nil] at this
      rw [announced, this]
    have hhead := head_of_terminated hbs []
    rw [List.append_nil] at hrem hhead
    have hlo := Bin.le_wrap32 (Leb128.value rbuf)
    have hhi := Bin.wrap32_lt (Leb128.value rbuf)
    rw [← Bin.int32] at hlo hhi
    rw [List.length_nil, Int.natCast_zero, Int.sub_zero, Bin.wrap32_eq_self hlo hhi] at hrem
    rw [hhead] at h
    unfold announce at h
    simp only [show ¬ 5 < rbuf.length by omega, ↓reduceIte] at h
    rw [hrem, hann]
    generalize Bin.int32 (Leb128.value rbuf) = len at *
    split at h
    . next hneg =>
      injection h with h
      subst h
      exact hneg
    . split at h
      . next hnonneg hhuge =>
        injection h with h
        subst h
        refine ⟨by omega, ?_, _, rfl, ?_⟩
        . unfold Bin.wrap32 READ_BUFFER_SIZE
          omega
        . unfold READ_BUFFER_SIZE
          omega
      . split at h
        . next hnonneg hsmall hbig =>
          injection h with h
          subst h
          unfold READ_BUFFER_SIZE at hbig
          refine ⟨by omega, ?_⟩
          rw [Bin.wrap32_eq_self (by omega) (by omega)]
          unfold READ_BUFFER_SIZE
          omega
        . injection h

theorem building_append_of_more {rbuf : Bytes} (h : head rbuf = .more) (b : UInt8)
    : Building (rbuf ++ [b]) := by
  obtain ⟨hmore, hlen⟩ := head_eq_more_iff.mp h
  unfold Building
  split
  . trivial
  . next n hframe =>
    cases Leb128.exists_terminated_or_more (rbuf ++ [b]) with
    | inl hs =>
      rcases hs with ⟨bs, rest, heq, hbs⟩
      rw [heq, head_of_terminated hbs] at hframe
      obtain ⟨_, hnonneg, htotal, _⟩ := announce_eq_frame hframe
      -- the number cannot end before `b`
      have hrest : rest = [] := by
        by_contra hne
        have hdrop := congrArg List.dropLast heq
        rw [List.dropLast_concat, List.dropLast_append_of_ne_nil hne] at hdrop
        rw [hdrop] at hmore
        exact hbs.not_all_more (fun b hb => hmore b (List.mem_append_left _ hb))
      rw [heq, hrest, List.append_nil]
      omega
    | inr hs =>
      rw [head_of_more hs] at hframe
      split at hframe <;> injection hframe
  . refine ⟨by simp, ?_⟩
    rw [List.dropLast_concat]
    exact h

end Mc17PacketDelimiter

namespace ReadEvent

/--
The write of the round stays inside `rbuf`, and a packet that announces more than fits is neither
read on nor handled.
-/
def Safe : ReadEvent → Prop
  | .remove rbuf n =>
    rbuf.length + n ≤ READ_BUFFER_SIZE
      ∧ ∀ total, announced rbuf = some total → total ≤ READ_BUFFER_SIZE
  | .dispatch rbuf => ∀ total, announced rbuf = some total → total ≤ READ_BUFFER_SIZE
  | .invalid _ | .tooBig _ => True

/--
The packets that reach the handler.
-/
def dispatched (evs : List ReadEvent) : List Bytes :=
  evs.filterMap fun
    | .dispatch rbuf => some rbuf
    | _ => none

@[simp]
theorem dispatched_dispatch (rbuf : Bytes) : dispatched [.dispatch rbuf] = [rbuf] := rfl

@[simp]
theorem dispatched_remove (rbuf : Bytes) (n : Nat) : dispatched [.remove rbuf n] = [] := rfl

theorem dispatched_append (evs evs' : List ReadEvent)
    : dispatched (evs ++ evs') = dispatched evs ++ dispatched evs' :=
  List.filterMap_append

end ReadEvent

namespace Connection

variable {τ : Type}

/--
What the loop makes of the bytes taken off the stream so far and of those in `ftb`.
-/
structure ReadSpec (conn : Connection τ) (res : Connection τ × List ReadEvent)
    (cut : Framing.Split UInt8 Stop) : Prop where
  overrun : cut.stop = some .huge → ∃ e ∈ res.2, ¬ e.Safe
  safe : cut.stop ≠ some .huge → ∀ e ∈ res.2, e.Safe
  frames : cut.stop ≠ some .huge → ReadEvent.dispatched res.2 = cut.frames
  finished : cut.stop = none → res.1 = { conn with rbuf := cut.rest, ftb := [] }
  stopped : ∀ reason, cut.stop = some reason → reason ≠ .huge →
    ∃ rbuf ftb, rbuf ++ ftb = cut.rest ∧ head rbuf = .stop reason ∧ Building rbuf
      ∧ res.1 = { conn with disconnectReq := true, rbuf := rbuf, ftb := ftb }

namespace ReadSpec

theorem cons {conn : Connection τ} {rbuf ftb : Bytes} {res : Connection τ × List ReadEvent}
    {cut : Framing.Split UInt8 Stop} (h : ReadSpec { conn with rbuf := rbuf, ftb := ftb } res cut)
    {e : ReadEvent} (he : e.Safe)
    : ReadSpec conn (res.1, e :: res.2)
        ⟨ReadEvent.dispatched [e] ++ cut.frames, cut.rest, cut.stop⟩ where
  overrun := by
    intro hhuge
    obtain ⟨e', hmem, hviol⟩ := h.overrun hhuge
    exact ⟨e', List.mem_cons_of_mem _ hmem, hviol⟩
  safe := by
    intro hhuge e' hmem
    cases List.mem_cons.mp hmem with
    | inl heq => rw [heq]; exact he
    | inr hmem => exact h.safe hhuge e' hmem
  frames := by
    intro hhuge
    rw [← h.frames hhuge]
    exact ReadEvent.dispatched_append [e] res.2
  finished := h.finished
  stopped := h.stopped

theorem of_partial (conn : Connection τ) {e : ReadEvent} (he : e.Safe) {rbuf : Bytes}
    (hpart : framer.Partial rbuf)
    : ReadSpec conn ({ conn with rbuf := rbuf, ftb := [] }, [e])
        ⟨ReadEvent.dispatched [e] ++ (framer.split rbuf).frames, (framer.split rbuf).rest,
          (framer.split rbuf).stop⟩ := by
  rw [framer.split_of_partial hpart]
  constructor
  . simp
  . simpa using he
  . simp
  . simp
  . simp

theorem of_stop {conn : Connection τ} {reason : Stop} (h : head conn.rbuf = .stop reason)
    (hreason : reason ≠ .huge) (hb : Building conn.rbuf) {e : ReadEvent} (he : e.Safe)
    (hdisp : ReadEvent.dispatched [e] = [])
    : ReadSpec conn (conn.disconnect, [e]) (framer.split (conn.rbuf ++ conn.ftb)) := by
  have hhead : framer.head (conn.rbuf ++ conn.ftb) = .stop reason := by
    rw [framer.append_of_ne_more]
    . exact h
    . show head conn.rbuf ≠ .more
      rw [h]
      simp
  rw [framer.split_of_stop hhead]
  constructor
  . simp [hreason]
  . intro _ e' hmem
    rw [List.mem_singleton.mp hmem]
    exact he
  . intro _
    exact hdisp
  . simp
  . intro reason' hreason' _
    injection hreason' with hreason'
    subst hreason'
    exact ⟨conn.rbuf, conn.ftb, rfl, h, hb, rfl⟩

theorem of_huge {conn : Connection τ} (h : head conn.rbuf = .stop .huge)
    {res : Connection τ × List ReadEvent} {e : ReadEvent} (he : e ∈ res.2) (hviol : ¬ e.Safe)
    : ReadSpec conn res (framer.split (conn.rbuf ++ conn.ftb)) := by
  have hhead : framer.head (conn.rbuf ++ conn.ftb) = .stop .huge := by
    rw [framer.append_of_ne_more]
    . exact h
    . show head conn.rbuf ≠ .more
      rw [h]
      simp
  rw [framer.split_of_stop hhead]
  constructor
  . intro _
    exact ⟨e, he, hviol⟩
  . simp
  . simp
  . simp
  . intro reason hreason hne
    injection hreason with hreason
    exact absurd hreason.symm hne

end ReadSpec

theorem isFrame_of_remaining {rbuf : Bytes} (h : Building rbuf) (hzero : remaining rbuf = 0)
    : framer.IsFrame rbuf ∧ (ReadEvent.dispatch rbuf).Safe := by
  cases hhead : head rbuf with
  | more =>
    have := remaining_of_head_more hhead
    omega
  | frame n =>
    have hle : rbuf.length ≤ n := by simpa [Building, hhead] using h
    obtain ⟨hrem, hfit, hann⟩ := remaining_of_head_frame hhead hle
    have hlen : n = rbuf.length := by omega
    refine ⟨?_, ?_⟩
    . show head rbuf = .frame rbuf.length
      rw [hhead, hlen]
    . intro total htotal
      rw [hann] at htotal
      injection htotal with htotal
      omega
  | stop reason =>
    have hb := building_of_head_stop h hhead
    have hrem := remaining_of_head_stop hhead hb.2
    cases reason <;> dsimp at hrem <;> omega

/--
A round that goes on reading: one byte of the prefix, or what is left of the packet.
-/
theorem building_remove {rbuf : Bytes} (ftb : Bytes) (h : Building rbuf) (hpos : 0 < remaining rbuf)
    (hstop : ∀ reason, head rbuf ≠ .stop reason)
    : Building (rbuf ++ ftb.take (min (remaining rbuf).toNat ftb.length))
        ∧ (ReadEvent.remove rbuf (min (remaining rbuf).toNat ftb.length)).Safe
        ∧ framer.Partial rbuf := by
  cases hhead : head rbuf with
  | more =>
    obtain ⟨hrem, hlen, hann⟩ := remaining_of_head_more hhead
    have hpart : framer.Partial rbuf := by
      have : framer.head rbuf = .more := hhead
      simp [Framer.Partial, this]
    refine ⟨?_, ?_, hpart⟩
    . cases ftb with
      | nil => simpa using h
      | cons b ftb =>
        have : min (remaining rbuf).toNat (b :: ftb).length = 1 := by
          rw [hrem]
          simp
        rw [this]
        exact building_append_of_more hhead b
    . rw [hrem]
      refine ⟨?_, by simp [hann]⟩
      unfold READ_BUFFER_SIZE
      omega
  | frame n =>
    have hle : rbuf.length ≤ n := by simpa [Building, hhead] using h
    obtain ⟨hrem, hfit, hann⟩ := remaining_of_head_frame hhead hle
    have hpart : framer.Partial rbuf := by
      have : framer.head rbuf = .frame n := hhead
      simp only [Framer.Partial, this]
      omega
    refine ⟨?_, ?_, hpart⟩
    . have happ : ∀ t, head (rbuf ++ t) = .frame n := by
        intro t
        rw [← hhead]
        apply framer.append_of_ne_more
        show head rbuf ≠ .more
        rw [hhead]
        simp
      simp only [Building, happ, List.length_append, List.length_take]
      omega
    . refine ⟨by omega, ?_⟩
      intro total htotal
      rw [hann] at htotal
      injection htotal with htotal
      omega
  | stop reason => exact absurd hhead (hstop reason)

theorem eq_huge_of_remaining {rbuf : Bytes} {reason : Stop} (h : Building rbuf)
    (hhead : head rbuf = .stop reason) (hnonneg : ¬ remaining rbuf < 0)
    (hfit : ¬ Bin.wrap32 (rbuf.length + remaining rbuf) > READ_BUFFER_SIZE) : reason = .huge := by
  have hrem := remaining_of_head_stop hhead (building_of_head_stop h hhead).2
  cases reason with
  | huge => rfl
  | tooBig => exact absurd hrem.2 hfit
  | _ => exact absurd hrem hnonneg

/--
A round that goes on reading behind a prefix it should have refused.
-/
theorem unsafe_of_huge {rbuf : Bytes} (h : head rbuf = .stop .huge) (hb : Building rbuf) (n : Nat)
    : ¬ (ReadEvent.remove rbuf n).Safe := by
  have hlast := building_of_head_stop hb h
  obtain ⟨_, _, total, hann, hbig⟩ := remaining_of_head_stop h hlast.2
  intro hsafe
  have := hsafe.2 total hann
  omega

/--
One callback's loop cuts the bytes at hand as the framer does.
-/
theorem readLoop_spec (conn : Connection τ) (h : Building conn.rbuf)
    : ReadSpec conn conn.readLoop (framer.split (conn.rbuf ++ conn.ftb)) := by
  fun_induction readLoop conn with
  | case1 conn rem hneg =>
    -- the delimiter refuses the prefix
    cases hhead : head conn.rbuf with
    | more =>
      have := remaining_of_head_more hhead
      omega
    | frame n =>
      have hle : conn.rbuf.length ≤ n := by simpa [Building, hhead] using h
      have := remaining_of_head_frame hhead hle
      omega
    | stop reason =>
      have hb := building_of_head_stop h hhead
      have hrem := remaining_of_head_stop hhead hb.2
      apply ReadSpec.of_stop hhead _ h (by trivial) rfl
      rintro rfl
      dsimp at hrem
      omega
  | case2 conn len rem hnonneg hzero conn' hlen res ih =>
    obtain ⟨hframe, hsafe⟩ := isFrame_of_remaining h hzero
    rw [framer.split_frame_append hframe]
    exact ReadSpec.cons (ih building_nil) hsafe
  | case3 conn len rem hnonneg hzero conn' hlen =>
    obtain ⟨hframe, hsafe⟩ := isFrame_of_remaining h hzero
    have hnil : conn.ftb = [] := List.length_eq_zero_iff.mp (by omega)
    rw [framer.split_frame_append hframe, hnil]
    have := ReadSpec.of_partial conn hsafe framer.partial_nil
    simpa [conn', hnil] using this
  | case4 conn rem hnonneg hnz hbig =>
    -- the size check refuses the prefix
    dsimp only [rem] at hnonneg hnz hbig
    cases hhead : head conn.rbuf with
    | more =>
      obtain ⟨hrem, hlen, _⟩ := remaining_of_head_more hhead
      rw [Bin.wrap32_eq_self (by omega) (by omega)] at hbig
      unfold READ_BUFFER_SIZE at hbig
      omega
    | frame n =>
      have hle : conn.rbuf.length ≤ n := by simpa [Building, hhead] using h
      obtain ⟨hrem, hfit, _⟩ := remaining_of_head_frame hhead hle
      unfold READ_BUFFER_SIZE at hfit hbig
      rw [Bin.wrap32_eq_self (by omega) (by omega)] at hbig
      omega
    | stop reason =>
      have hb := building_of_head_stop h hhead
      have hrem := remaining_of_head_stop hhead hb.2
      apply ReadSpec.of_stop hhead _ h (by trivial) rfl
      rintro rfl
      dsimp at hrem
      omega
  | case5 conn len rem hnonneg hnz hfit n conn' hlen res ih =>
    dsimp only [rem] at hnonneg hnz hfit
    cases hhead : head conn.rbuf with
    | stop reason =>
      obtain rfl := eq_huge_of_remaining h hhead hnonneg hfit
      exact ReadSpec.of_huge hhead List.mem_cons_self (unsafe_of_huge hhead h n)
    | _ =>
      obtain ⟨hbuild, hsafe, _⟩ := building_remove conn.ftb h (by omega) (by simp [hhead])
      have hcut : conn'.rbuf ++ conn'.ftb = conn.rbuf ++ conn.ftb := by simp [conn', n]
      have := ReadSpec.cons (ih hbuild) hsafe
      rw [hcut] at this
      exact this
  | case6 conn len rem hnonneg hnz hfit n conn' hlen =>
    dsimp only [rem] at hnonneg hnz hfit
    have hnil : conn.ftb = [] := List.length_eq_zero_iff.mp (by omega)
    cases hhead : head conn.rbuf with
    | stop reason =>
      obtain rfl := eq_huge_of_remaining h hhead hnonneg hfit
      exact ReadSpec.of_huge hhead List.mem_cons_self (unsafe_of_huge hhead h n)
    | _ =>
      obtain ⟨_, hsafe, hpart⟩ := building_remove conn.ftb h (by omega) (by simp [hhead])
      have := ReadSpec.of_partial conn hsafe hpart
      simpa [conn', n, len, hnil] using this

/--
`rbuf` and `ftb` hold what the framer has left of the stream `s` delivered so far.
-/
structure Tracks (conn : Connection τ) (s : Bytes) : Prop where
  building : Building conn.rbuf
  rest : conn.rbuf ++ conn.ftb = (framer.split s).rest
  drained : (framer.split s).stop = none → conn.ftb = []
  refused : ∀ reason, (framer.split s).stop = some reason → conn.disconnectReq = true

/--
The stream comes to a length prefix whose packet leaves the range of `int`.
-/
def AnnouncesHuge (s : Bytes) : Prop :=
  (framer.split s).stop = some .huge

/--
Behind complete packets, the stream comes to a length that exceeds `INT_MAX` together with the
bytes of its prefix.
-/
theorem announcesHuge_iff {s : Bytes}
    : AnnouncesHuge s
        ↔
      ∃ (packets : List Bytes) (bs rest : Bytes), s = packets.flatten ++ (bs ++ rest)
        ∧ (∀ p ∈ packets, framer.IsFrame p)
        ∧ Leb128.Terminated bs ∧ bs.length ≤ 5
        ∧ 2 ^ 31 ≤ Bin.int32 (Leb128.value bs) + bs.length := by
  constructor
  . intro h
    obtain ⟨heq, hframes, hrest⟩ := framer.split_spec s
    rw [AnnouncesHuge] at h
    rw [h] at hrest
    obtain ⟨bs, rest, hsplit, hbs, hk, hbig⟩ := head_eq_huge_iff.mp hrest
    exact ⟨_, bs, rest, by rw [← hsplit]; exact heq, hframes, hbs, hk, hbig⟩
  . rintro ⟨packets, bs, rest, rfl, hframes, hbs, hk, hbig⟩
    have hhead : framer.head (bs ++ rest) = .stop .huge :=
      head_eq_huge_iff.mpr ⟨bs, rest, rfl, hbs, hk, hbig⟩
    rw [AnnouncesHuge, framer.split_flatten_append hframes, framer.split_of_stop hhead]

theorem tracks_start (trs : List τ) : Tracks (start trs) [] where
  building := building_nil
  rest := by
    rw [framer.split_of_partial framer.partial_nil]
    rfl
  drained := by
    intro _
    rfl
  refused := by
    rw [framer.split_of_partial framer.partial_nil]
    simp

/--
A connection that goes on is in the middle of a packet that fits.
-/
theorem announced_le_of_tracks {conn : Connection τ} {s : Bytes} (h : Tracks conn s)
    (hgo : conn.disconnectReq = false) {total : Int} (hann : announced conn.rbuf = some total)
    : total ≤ READ_BUFFER_SIZE := by
  have hstop : (framer.split s).stop = none := by
    cases hreason : (framer.split s).stop with
    | none => rfl
    | some reason =>
      rw [h.refused reason hreason] at hgo
      contradiction
  have hrest := h.rest
  rw [h.drained hstop, List.append_nil] at hrest
  obtain ⟨_, _, hpart⟩ := framer.split_spec s
  rw [hstop, ← hrest] at hpart
  have hbuild := building_of_partial hpart
  cases hhead : head conn.rbuf with
  | more =>
    rw [(remaining_of_head_more hhead).2.2] at hann
    injection hann
  | frame n =>
    have hle : conn.rbuf.length ≤ n := by simpa [Building, hhead] using hbuild
    obtain ⟨_, hfit, hann'⟩ := remaining_of_head_frame hhead hle
    rw [hann'] at hann
    injection hann with hann
    omega
  | stop reason =>
    have hs : framer.head conn.rbuf = .stop reason := hhead
    simp [Framer.Partial, hs] at hpart

/--
The loop of one callback on a stream that has grown by `moved`.
-/
theorem readLoop_tracks {conn conn' : Connection τ} {s moved : Bytes} (h : Tracks conn s)
    (hrbuf : conn'.rbuf = conn.rbuf) (hftb : conn'.ftb = conn.ftb ++ moved)
    : (¬ AnnouncesHuge (s ++ moved) →
        Tracks conn'.readLoop.1 (s ++ moved)
          ∧ (∀ e ∈ conn'.readLoop.2, e.Safe)
          ∧ (framer.split (s ++ moved)).frames
              = (framer.split s).frames ++ ReadEvent.dispatched conn'.readLoop.2)
        ∧ (AnnouncesHuge (s ++ moved) → ∃ e ∈ conn'.readLoop.2, ¬ e.Safe) := by
  have hspec := readLoop_spec conn' (by rw [hrbuf]; exact h.building)
  have hcut : framer.split (s ++ moved)
      = ⟨(framer.split s).frames ++ (framer.split (conn'.rbuf ++ conn'.ftb)).frames,
          (framer.split (conn'.rbuf ++ conn'.ftb)).rest,
          (framer.split (conn'.rbuf ++ conn'.ftb)).stop⟩ := by
    rw [framer.split_append, ← h.rest, hrbuf, hftb, List.append_assoc]
  generalize framer.split (conn'.rbuf ++ conn'.ftb) = cut at hspec hcut
  have hstop : (framer.split (s ++ moved)).stop = cut.stop := by rw [hcut]
  have hrest : (framer.split (s ++ moved)).rest = cut.rest := by rw [hcut]
  constructor
  . intro hhuge
    rw [AnnouncesHuge, hstop] at hhuge
    refine ⟨?_, hspec.safe hhuge, ?_⟩
    . cases hreason : cut.stop with
      | none =>
        have hfin := hspec.finished hreason
        constructor
        . obtain ⟨_, _, hpart⟩ := framer.split_spec (s ++ moved)
          rw [hstop, hreason, hrest] at hpart
          rw [hfin]
          exact building_of_partial hpart
        . rw [hrest, hfin]
          simp
        . intro _
          rw [hfin]
        . intro reason hsome
          rw [hstop, hreason] at hsome
          injection hsome
      | some reason =>
        obtain ⟨rbuf, ftb, happ, _, hbuild, hres⟩ :=
          hspec.stopped reason hreason (by rintro rfl; exact hhuge hreason)
        constructor
        . rw [hres]
          exact hbuild
        . rw [hrest, hres]
          exact happ
        . intro hnone
          rw [hstop, hreason] at hnone
          injection hnone
        . intro _ _
          rw [hres]
    . rw [hcut, hspec.frames hhuge]
  . intro hhuge
    rw [AnnouncesHuge, hstop] at hhuge
    exact hspec.overrun hhuge

section Pipeline

variable [PacketTransformer τ]

theorem applyInTransformations.go_frame (i : Nat) (lastbuf : Option Nat) (conn : Connection τ)
    : (go i lastbuf conn).rbuf = conn.rbuf ∧ conn.ftb <+: (go i lastbuf conn).ftb := by
  induction i generalizing lastbuf conn with
  | zero => simp [go]
  | succ i ih =>
    rw [go]
    split
    . simp
    . split
      . exact ih lastbuf conn
      . dsimp only
        split
        . simp
        . split
          . simp
          . split
            . simp
            . split
              . simp
              . constructor
                . rw [(ih (some i) _).1]
                  split <;> simp
                . refine List.IsPrefix.trans ?_ (ih (some i) _).2
                  split <;> simp

theorem applyInTransformations_frame (conn : Connection τ)
    : conn.applyInTransformations.rbuf = conn.rbuf
        ∧ conn.ftb <+: conn.applyInTransformations.ftb := by
  unfold applyInTransformations
  split
  . exact applyInTransformations.go_frame _ _ conn
  . simp

/--
The bytes the pipeline hands over to `ftb` in one callback.
-/
def moved (conn : Connection τ) (data : Bytes) : Bytes :=
  let conn' := { conn with input := conn.input ++ data }
  if conn'.input.length = 0 then
    []
  else
    conn'.applyInTransformations.ftb.drop conn.ftb.length

/--
The bytes the pipeline hands over to `ftb` in the course of the callbacks.
-/
def delivered (conn : Connection τ) : List Bytes → Bytes
  | [] => []
  | data :: reads => conn.moved data ++ delivered (conn.onRead data).1 reads

theorem onRead_tracks {conn : Connection τ} {s : Bytes} (h : Tracks conn s) (data : Bytes)
    : (¬ AnnouncesHuge (s ++ conn.moved data) →
        Tracks (conn.onRead data).1 (s ++ conn.moved data)
          ∧ (∀ e ∈ (conn.onRead data).2, e.Safe)
          ∧ (framer.split (s ++ conn.moved data)).frames
              = (framer.split s).frames ++ ReadEvent.dispatched (conn.onRead data).2)
        ∧ (¬ AnnouncesHuge s → AnnouncesHuge (s ++ conn.moved data) →
          ∃ e ∈ (conn.onRead data).2, ¬ e.Safe) := by
  unfold onRead moved
  dsimp only
  split
  . simp only [List.append_nil, List.not_mem_nil, false_and, exists_false, false_imp_iff,
      implies_true, ReadEvent.dispatched, List.filterMap_nil, and_true]
    exact ⟨fun _ => ⟨h.building, h.rest, h.drained, fun _ _ => rfl⟩, fun hn hh => hn hh⟩
  . obtain ⟨hrbuf, hftb⟩ :=
      applyInTransformations_frame { conn with input := conn.input ++ data }
    have happ := List.prefix_iff_eq_append.mp hftb
    obtain ⟨hgood, hbad⟩ := readLoop_tracks h hrbuf happ.symm
    exact ⟨hgood, fun _ => hbad⟩

/--
The callbacks cut what the pipeline delivers as the framer does, until a prefix is huge.
-/
theorem onReads_tracks (reads : List Bytes) {conn : Connection τ} {s : Bytes} (h : Tracks conn s)
    : (¬ AnnouncesHuge (s ++ conn.delivered reads) →
        Tracks (conn.onReads reads).1 (s ++ conn.delivered reads)
          ∧ (∀ e ∈ (conn.onReads reads).2, e.Safe)
          ∧ (framer.split (s ++ conn.delivered reads)).frames
              = (framer.split s).frames ++ ReadEvent.dispatched (conn.onReads reads).2)
        ∧ (¬ AnnouncesHuge s → AnnouncesHuge (s ++ conn.delivered reads) →
          ∃ e ∈ (conn.onReads reads).2, ¬ e.Safe) := by
  induction reads generalizing conn s with
  | nil =>
    simp only [delivered, onReads, List.append_nil, List.not_mem_nil, false_and, exists_false,
      false_imp_iff, implies_true, ReadEvent.dispatched, List.filterMap_nil, and_true]
    exact ⟨fun _ => h, fun hn hh => hn hh⟩
  | cons data reads ih =>
    obtain ⟨hgood, hbad⟩ := onRead_tracks h data
    simp only [delivered, onReads, ← List.append_assoc]
    by_cases hmid : AnnouncesHuge (s ++ conn.moved data)
    . have hend : AnnouncesHuge (s ++ conn.moved data ++ (conn.onRead data).1.delivered reads) :=
        framer.split_stop_append hmid _
      refine ⟨fun hn => absurd hend hn, fun hs _ => ?_⟩
      obtain ⟨e, hmem, hviol⟩ := hbad hs hmid
      exact ⟨e, List.mem_append_left _ hmem, hviol⟩
    . obtain ⟨htracks, hsafe, hframes⟩ := hgood hmid
      obtain ⟨hgood', hbad'⟩ := ih htracks
      constructor
      . intro hn
        obtain ⟨htracks', hsafe', hframes'⟩ := hgood' hn
        refine ⟨htracks', ?_, ?_⟩
        . intro e hmem
          cases List.mem_append.mp hmem with
          | inl hmem => exact hsafe e hmem
          | inr hmem => exact hsafe' e hmem
        . rw [hframes', hframes, ReadEvent.dispatched_append, List.append_assoc]
      . intro _ hend
        obtain ⟨e, hmem, hviol⟩ := hbad' hmid hend
        exact ⟨e, List.mem_append_right _ hmem, hviol⟩

end Pipeline

end Connection

end HCraft
