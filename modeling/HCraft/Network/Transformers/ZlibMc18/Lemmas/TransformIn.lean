import HCraft.Network.Transformers.ZlibMc18.Lemmas.Packet

/-!
This module contains what `in_enough` and `transform_in` do with a buffer of packets, the last of
which may be cut off.
-/

namespace HCraft

namespace ZlibMc18Transformer

namespace ZlibPacket

def wires (ps : List ZlibPacket) : Bytes :=
  (ps.map wire).flatten

/--
What `transform_in` makes of a sequence of packets.
-/
def receivedAll (z : Zlib) (ps : List ZlibPacket) : Bytes :=
  (ps.map (fun p => (p.received z).getD [])).flatten

@[simp]
theorem wires_nil : wires [] = [] := rfl

@[simp]
theorem wires_cons (p : ZlibPacket) (ps : List ZlibPacket) : wires (p :: ps) = p.wire ++ wires ps := rfl

theorem wires_append (ps qs : List ZlibPacket) : wires (ps ++ qs) = wires ps ++ wires qs := by
  simp [wires]

@[simp]
theorem receivedAll_nil (z : Zlib) : receivedAll z [] = [] := rfl

theorem receivedAll_append (z : Zlib) (ps qs : List ZlibPacket)
    : receivedAll z (ps ++ qs) = receivedAll z ps ++ receivedAll z qs := by
  simp [receivedAll]

theorem receivedAll_cons {z : Zlib} {p : ZlibPacket} {data : Bytes} (h : p.received z = some data)
    (ps : List ZlibPacket) : receivedAll z (p :: ps) = data ++ receivedAll z ps := by
  simp [receivedAll, h]

theorem length_wire_pos (p : ZlibPacket) : 0 < p.wire.length := by
  have := Leb128.length_encode_pos p.dlen
  rw [p.length_wire]
  omega

theorem length_le_length_wires (ps : List ZlibPacket) : ps.length ≤ (wires ps).length := by
  induction ps with
  | nil => simp
  | cons p ps ih =>
    have := p.length_wire_pos
    simp only [List.length_cons, wires_cons, List.length_append]
    omega

theorem length_encode_inner_le {z : Zlib} {p : ZlibPacket} (hp : p.Valid z)
    : (Leb128.encode p.inner.length).length ≤ 5 := by
  have hwire := hp.wire_lt
  rw [wire, List.length_append] at hwire
  exact Leb128.length_encode_le (by omega) (by omega)

/--
`r` is the beginning of `p` on the wire, but not all of it.
-/
def Cut (p : ZlibPacket) (r : Bytes) : Prop :=
  r <+: p.wire ∧ r.length < p.wire.length

/--
`r` has the whole length of `p` and not all of the rest.
-/
def CutBehindLength (p : ZlibPacket) (r : Bytes) : Prop :=
  p.Cut r ∧ Leb128.encode p.inner.length <+: r

theorem Cut.more_or_behind {p : ZlibPacket} {r : Bytes} (h : p.Cut r)
    : (∀ b ∈ r, Leb128.more b = true) ∨ p.CutBehindLength r := by
  by_cases hlen : r.length < (Leb128.encode p.inner.length).length
  . left
    have hpre : r <+: Leb128.encode p.inner.length :=
      List.prefix_of_prefix_length_le h.1 (List.prefix_append _ _) (by omega)
    rcases hpre with ⟨t, ht⟩
    apply (Leb128.terminated_encode _).more_of_append ht.symm
    rintro rfl
    rw [List.append_nil] at ht
    rw [ht] at hlen
    omega
  . right
    exact ⟨h, List.prefix_of_prefix_length_le (List.prefix_append _ _) h.1 (by omega)⟩

theorem CutBehindLength.not_more {p : ZlibPacket} {r : Bytes} (h : p.CutBehindLength r)
    : ¬ ∀ b ∈ r, Leb128.more b = true := by
  intro hmore
  exact (Leb128.terminated_encode _).not_all_more (fun b hb => hmore b (h.2.subset hb))

theorem CutBehindLength.ne_wire {p : ZlibPacket} {r : Bytes} (h : p.CutBehindLength r)
    : r ≠ p.wire := by
  intro heq
  have hlen := h.1.2
  rw [heq] at hlen
  omega

end ZlibPacket

theorem gotVarint_wire {z : Zlib} {p : ZlibPacket} (hp : p.Valid z) (t : Bytes)
    : Bin.gotVarint (p.wire ++ t) = 1 := by
  have := ZlibPacket.length_encode_inner_le hp
  rw [ZlibPacket.wire, List.append_assoc,
    Bin.gotVarint_of_terminated (Leb128.terminated_encode _), if_neg (by omega)]

theorem gotVarint_wires {z : Zlib} {p : ZlibPacket} (hp : p.Valid z) (ps : List ZlibPacket)
    (t : Bytes) : Bin.gotVarint (ZlibPacket.wires (p :: ps) ++ t) = 1 := by
  rw [ZlibPacket.wires_cons, List.append_assoc]
  exact gotVarint_wire hp _

theorem gotVarint_of_behind {z : Zlib} {p : ZlibPacket} {r : Bytes} (hp : p.Valid z)
    (h : p.CutBehindLength r) : Bin.gotVarint r = 1 := by
  have := ZlibPacket.length_encode_inner_le hp
  rcases h.2 with ⟨t, rfl⟩
  rw [Bin.gotVarint_of_terminated (Leb128.terminated_encode _), if_neg (by omega)]

namespace ZlibPacket

/--
What the output block goes through for a sequence of packets.
-/
def putAll (z : Zlib) (ps : List ZlibPacket) (buf : OutBuffer) : Except Fault OutBuffer :=
  ps.foldlM (fun buf p => p.put z buf) buf

variable {z : Zlib} {p : ZlibPacket} {ps : List ZlibPacket} {buf buf' : OutBuffer} {len : Nat}

@[simp]
theorem putAll_nil (z : Zlib) (buf : OutBuffer) : putAll z [] buf = .ok buf := rfl

theorem putAll_cons : putAll z (p :: ps) buf = p.put z buf >>= putAll z ps := rfl

theorem out_of_putAll (hgood : ∀ q ∈ ps, q.received z ≠ none) (h : putAll z ps buf = .ok buf')
    : buf'.out = buf.out ++ receivedAll z ps := by
  induction ps generalizing buf with
  | nil =>
    injection h with h
    simp [h]
  | cons p ps ih =>
    obtain ⟨data, hdata⟩ := Option.ne_none_iff_exists'.mp (hgood p (by simp))
    rw [putAll_cons] at h
    obtain ⟨b, hput, hrest⟩ := bind_eq_ok_iff.mp h
    rw [ih (fun q hq => hgood q (List.mem_cons_of_mem _ hq)) hrest, out_of_put hdata hput,
      receivedAll_cons hdata, List.append_assoc]

theorem putAll_of_room (hvalid : ∀ q ∈ ps, q.Valid z) (hgood : ∀ q ∈ ps, q.received z ≠ none)
    (hroom : buf.Room len) (hlen : (wires ps).length ≤ len)
    (hsmall : buf.out.length + (receivedAll z ps).length + 5 < 2 ^ 30)
    : ∃ buf', putAll z ps buf = .ok buf' := by
  induction ps generalizing buf with
  | nil => exact ⟨buf, rfl⟩
  | cons p ps ih =>
    obtain ⟨data, hdata⟩ := Option.ne_none_iff_exists'.mp (hgood p (by simp))
    rw [wires_cons, List.length_append] at hlen
    rw [receivedAll_cons hdata, List.length_append] at hsmall
    obtain ⟨b, hput, hb⟩ :=
      put_of_room (hvalid p (by simp)) hdata hroom (by omega) (by omega)
    rw [putAll_cons, hput]
    apply ih
    . exact fun q hq => hvalid q (List.mem_cons_of_mem _ hq)
    . exact fun q hq => hgood q (List.mem_cons_of_mem _ hq)
    . exact hb
    . omega
    . rw [out_of_put hdata hput, List.length_append]
      omega

end ZlibPacket

variable {tr : ZlibMc18Transformer} {p : ZlibPacket} {ps : List ZlibPacket} {buf : OutBuffer}
    {data r : Bytes}

theorem go_wire (buf : OutBuffer) (hp : p.Valid tr.zlib) {out : Bytes}
    (hout : p.received tr.zlib = some out) {consumed : Nat} {t : Bytes}
    (hdrop : data.drop consumed = p.wire ++ t)
    : data.drop (consumed + p.wire.length) = t
        ∧ ∀ fuel, transformIn.go tr data (fuel + 1) consumed buf
          = p.put tr.zlib buf >>= fun buf' =>
            match Bin.gotVarint t with
            | -1 => .error .useAfterFree
            | 0 => .ok { ok := true, out := buf'.out, consumed := consumed + p.wire.length }
            | _ => transformIn.go tr data fuel (consumed + p.wire.length) buf' := by
  have hround := @packetIn_wire tr p buf hp _ hout t
  have hpos := p.length_wire_pos
  have hnext : data.drop (consumed + p.wire.length) = t := by
    rw [← List.drop_drop, hdrop, List.drop_left]
  refine ⟨hnext, fun fuel => ?_⟩
  have hn : ¬ (p.wire.length : Int) ≤ 0 := by omega
  rw [transformIn.go, hdrop, hround]
  cases p.put tr.zlib buf with
  | error fault => rfl
  | ok buf' =>
    simp only [bind, Except.bind, Except.map, if_neg hn, Int.toNat_natCast, hnext]
    rfl

theorem go_corrupt (hp : p.Valid tr.zlib) (hcorrupt : p.received tr.zlib = none)
    {consumed : Nat} {t : Bytes} (hdrop : data.drop consumed = p.wire ++ t) {fuel : Nat}
    {res : TransformIn} (hgo : transformIn.go tr data (fuel + 1) consumed buf = .ok res)
    : res.consumed = consumed := by
  rw [transformIn.go, hdrop] at hgo
  rcases packetIn_corrupt buf hp hcorrupt t with hnone | ⟨fault, hfault⟩
  . rw [hnone] at hgo
    injection hgo with hgo
    rw [← hgo]
  . rw [hfault] at hgo
    contradiction

theorem go_wires (hvalid : ∀ q ∈ p :: ps, q.Valid tr.zlib)
    (hgood : ∀ q ∈ p :: ps, q.received tr.zlib ≠ none) (hr : ∀ b ∈ r, Leb128.more b = true)
    {consumed : Nat} (hdrop : data.drop consumed = ZlibPacket.wires (p :: ps) ++ r) {fuel : Nat}
    (hfuel : (p :: ps).length ≤ fuel)
    : transformIn.go tr data fuel consumed buf
        =
      (ZlibPacket.putAll tr.zlib (p :: ps) buf).map (fun buf' =>
        { ok := true
          out := buf'.out
          consumed := consumed + (ZlibPacket.wires (p :: ps)).length }) := by
  induction ps generalizing p buf consumed fuel with
  | nil =>
    obtain ⟨out, hout⟩ := Option.ne_none_iff_exists'.mp (hgood p (by simp))
    rw [ZlibPacket.wires_cons, ZlibPacket.wires_nil, List.append_nil] at hdrop
    obtain ⟨_, hgo⟩ := go_wire buf (hvalid p (by simp)) hout hdrop
    cases fuel with
    | zero => simp at hfuel
    | succ fuel =>
      rw [hgo, Bin.gotVarint_of_more hr, ZlibPacket.putAll_cons]
      cases p.put tr.zlib buf with
      | error fault => rfl
      | ok buf' => simp [bind, Except.bind, Except.map]
  | cons q ps ih =>
    obtain ⟨out, hout⟩ := Option.ne_none_iff_exists'.mp (hgood p (by simp))
    rw [ZlibPacket.wires_cons, List.append_assoc] at hdrop
    obtain ⟨hnext, hgo⟩ := go_wire buf (hvalid p (by simp)) hout hdrop
    cases fuel with
    | zero => simp at hfuel
    | succ fuel =>
      rw [hgo, gotVarint_wires (hvalid q (by simp)), ZlibPacket.putAll_cons]
      cases p.put tr.zlib buf with
      | error fault => rfl
      | ok buf' =>
        have hrest := @ih q buf' (fun x hx => hvalid x (List.mem_cons_of_mem _ hx))
          (fun x hx => hgood x (List.mem_cons_of_mem _ hx)) _ hnext fuel (by simpa using hfuel)
        simp only [bind, Except.bind] at hrest ⊢
        rw [hrest, ZlibPacket.wires_cons p, List.length_append]
        simp only [Nat.add_assoc]

/--
Complete packets, and the next one cut off behind its length: the loop goes on into it.
-/
theorem go_behind (hz : tr.zlib.Correct) (hvalid : ∀ q ∈ p :: ps, q.Valid tr.zlib)
    (hgood : ∀ q ∈ p :: ps, q.received tr.zlib ≠ none) {next : ZlibPacket}
    (hnvalid : next.Valid tr.zlib) (hngood : next.received tr.zlib ≠ none)
    (hcut : next.CutBehindLength r) {consumed : Nat}
    (hdrop : data.drop consumed = ZlibPacket.wires (p :: ps) ++ r) {fuel : Nat}
    (hfuel : (p :: ps).length < fuel)
    : ∃ fault, transformIn.go tr data fuel consumed buf = .error fault := by
  induction ps generalizing p buf consumed fuel with
  | nil =>
    obtain ⟨out, hout⟩ := Option.ne_none_iff_exists'.mp (hgood p (by simp))
    rw [ZlibPacket.wires_cons, ZlibPacket.wires_nil, List.append_nil] at hdrop
    obtain ⟨hnext, hgo⟩ := go_wire buf (hvalid p (by simp)) hout hdrop
    have hne := hcut.ne_wire
    have hgot := gotVarint_of_behind hnvalid hcut
    rcases hcut with ⟨⟨hpre, _⟩, ⟨r', rfl⟩⟩
    match fuel, hfuel with
    | fuel + 2, _ =>
      rw [hgo, hgot]
      cases p.put tr.zlib buf with
      | error fault => exact ⟨fault, rfl⟩
      | ok buf' =>
        show ∃ fault, transformIn.go tr data (fuel + 1) _ buf' = _
        rw [transformIn.go, hnext]
        cases @packetIn_cut _ _ buf' hz hnvalid _ hpre hne with
        | inl herror =>
          obtain ⟨fault, hfault⟩ := herror
          rw [hfault]
          exact ⟨fault, rfl⟩
        | inr hcorrupt => exact absurd hcorrupt.2 hngood
  | cons q ps ih =>
    obtain ⟨out, hout⟩ := Option.ne_none_iff_exists'.mp (hgood p (by simp))
    rw [ZlibPacket.wires_cons, List.append_assoc] at hdrop
    obtain ⟨hnext, hgo⟩ := go_wire buf (hvalid p (by simp)) hout hdrop
    cases fuel with
    | zero => simp at hfuel
    | succ fuel =>
      rw [hgo, gotVarint_wires (hvalid q (by simp))]
      cases p.put tr.zlib buf with
      | error fault => exact ⟨fault, rfl⟩
      | ok buf' =>
        exact ih (fun x hx => hvalid x (List.mem_cons_of_mem _ hx))
          (fun x hx => hgood x (List.mem_cons_of_mem _ hx)) hnext (by simpa using hfuel)

/--
Whatever the packets are like, what is taken from the buffer ends where one of them does.
-/
theorem go_consumed (hz : tr.zlib.Correct) (hvalid : ∀ q ∈ p :: ps, q.Valid tr.zlib)
    (hr : (∀ b ∈ r, Leb128.more b = true)
      ∨ ∃ next : ZlibPacket, next.Valid tr.zlib ∧ next.CutBehindLength r)
    {consumed : Nat} (hdrop : data.drop consumed = ZlibPacket.wires (p :: ps) ++ r) {fuel : Nat}
    {res : TransformIn} (hgo : transformIn.go tr data fuel consumed buf = .ok res)
    : ∃ done, done <+: p :: ps ∧ res.consumed = consumed + (ZlibPacket.wires done).length := by
  induction ps generalizing p buf consumed fuel with
  | nil =>
    rw [ZlibPacket.wires_cons, ZlibPacket.wires_nil, List.append_nil] at hdrop
    cases fuel with
    | zero => simp [transformIn.go] at hgo
    | succ fuel =>
      cases hout : p.received tr.zlib with
      | none =>
        have hsame := go_corrupt (hvalid p (by simp)) hout hdrop hgo
        exact ⟨[], List.nil_prefix, by simp [hsame]⟩
      | some out =>
        obtain ⟨hnext, hgo'⟩ := go_wire buf (hvalid p (by simp)) hout hdrop
        rw [hgo'] at hgo
        obtain ⟨buf', _, hround⟩ := bind_eq_ok_iff.mp hgo
        refine ⟨[p], List.prefix_rfl, ?_⟩
        rw [ZlibPacket.wires_cons, ZlibPacket.wires_nil, List.append_nil]
        cases hr with
        | inl hmore =>
          rw [Bin.gotVarint_of_more hmore] at hround
          injection hround with hround
          rw [← hround]
        | inr hbehind =>
          obtain ⟨next, hnvalid, hcut⟩ := hbehind
          rw [gotVarint_of_behind hnvalid hcut] at hround
          have hne := hcut.ne_wire
          obtain ⟨⟨hpre, _⟩, ⟨r', rfl⟩⟩ := hcut
          cases fuel with
          | zero => simp [transformIn.go] at hround
          | succ fuel =>
            rw [transformIn.go, hnext] at hround
            rcases @packetIn_cut _ _ buf' hz hnvalid _ hpre hne with ⟨fault, hfault⟩ | ⟨hnone, _⟩
            . rw [hfault] at hround
              contradiction
            . rw [hnone] at hround
              injection hround with hround
              rw [← hround]
  | cons q ps ih =>
    rw [ZlibPacket.wires_cons, List.append_assoc] at hdrop
    cases fuel with
    | zero => simp [transformIn.go] at hgo
    | succ fuel =>
      cases hout : p.received tr.zlib with
      | none =>
        have hsame := go_corrupt (hvalid p (by simp)) hout hdrop hgo
        exact ⟨[], List.nil_prefix, by simp [hsame]⟩
      | some out =>
        obtain ⟨hnext, hgo'⟩ := go_wire buf (hvalid p (by simp)) hout hdrop
        rw [hgo', gotVarint_wires (hvalid q (by simp))] at hgo
        obtain ⟨buf', _, hrest⟩ := bind_eq_ok_iff.mp hgo
        obtain ⟨done, hdone, hconsumed⟩ := ih (fun x hx => hvalid x (List.mem_cons_of_mem _ hx))
          hnext hrest
        refine ⟨p :: done, (List.cons_prefix_cons.mpr ⟨rfl, hdone⟩), ?_⟩
        rw [hconsumed, ZlibPacket.wires_cons, List.length_append]
        omega

/--
The output block behind the packets at the front of a buffer of `len` bytes.
-/
def outBlock (z : Zlib) (len : Nat) (ps : List ZlibPacket) : Except Fault OutBuffer :=
  OutBuffer.alloc len >>= ZlibPacket.putAll z ps

theorem out_of_outBlock {z : Zlib} {len : Nat} (hgood : ∀ q ∈ ps, q.received z ≠ none)
    (h : outBlock z len ps = .ok buf) : buf.out = ZlibPacket.receivedAll z ps := by
  obtain ⟨b, halloc, hput⟩ := bind_eq_ok_iff.mp h
  rw [ZlibPacket.out_of_putAll hgood hput, OutBuffer.out_of_alloc halloc, List.nil_append]

/--
Below 256 MiB the block is always large enough.
-/
theorem outBlock_of_small {z : Zlib} {len : Nat} (hvalid : ∀ q ∈ ps, q.Valid z)
    (hgood : ∀ q ∈ ps, q.received z ≠ none) (hwires : (ZlibPacket.wires ps).length ≤ len)
    (hlen : len < 2 ^ 28) (hsmall : (ZlibPacket.receivedAll z ps).length < 2 ^ 28)
    : ∃ buf, outBlock z len ps = .ok buf := by
  have halloc : OutBuffer.alloc len = .ok { outc := len * 4, out := [] } := by
    have hmod : len * 4 % 2 ^ 32 = len * 4 := Nat.mod_eq_of_lt (by omega)
    rw [OutBuffer.alloc, hmod, if_pos (by omega)]
  have hroom : OutBuffer.Room { outc := len * 4, out := [] } len := by
    refine ⟨Nat.zero_le _, ?_⟩
    dsimp only
    omega
  unfold outBlock
  rw [halloc]
  apply ZlibPacket.putAll_of_room hvalid hgood hroom hwires
  rw [List.length_nil]
  omega

theorem transformIn_wires (hvalid : ∀ q ∈ p :: ps, q.Valid tr.zlib)
    (hgood : ∀ q ∈ p :: ps, q.received tr.zlib ≠ none) (hr : ∀ b ∈ r, Leb128.more b = true)
    : tr.transformIn (ZlibPacket.wires (p :: ps) ++ r)
        =
      (outBlock tr.zlib (ZlibPacket.wires (p :: ps) ++ r).length (p :: ps)).map (fun buf =>
        { ok := true, out := buf.out, consumed := (ZlibPacket.wires (p :: ps)).length }) := by
  have hfuel : (p :: ps).length ≤ (ZlibPacket.wires (p :: ps) ++ r).length := by
    have := ZlibPacket.length_le_length_wires (p :: ps)
    rw [List.length_append]
    omega
  unfold transformIn outBlock
  cases OutBuffer.alloc (ZlibPacket.wires (p :: ps) ++ r).length with
  | error fault => rfl
  | ok buf =>
    have hgo := @go_wires tr p ps buf _ _ hvalid hgood hr 0 rfl _ hfuel
    rw [Nat.zero_add] at hgo
    exact hgo

theorem inEnough_wire (hp : p.Valid tr.zlib) (t : Bytes) : inEnough (p.wire ++ t) = .ok 1 := by
  have hwire := hp.wire_lt
  have hlength : p.wire.length = (Leb128.encode p.inner.length).length + p.inner.length := by
    rw [ZlibPacket.wire, List.length_append]
  have hread : readLength (p.wire ++ t)
      = .ok ((p.inner.length : Int), (Leb128.encode p.inner.length).length) := by
    rw [ZlibPacket.wire, List.append_assoc, readLength_encode (by omega), Bin.int32_eq_self (by omega)]
  unfold inEnough
  rw [gotVarint_wire hp]
  simp only [hread, bind, Except.bind]
  rw [Bin.wrap32_eq_self (by omega) (by omega), if_pos (by rw [List.length_append]; omega)]
  rfl

theorem inEnough_cut (hr : (∀ b ∈ r, Leb128.more b = true)
      ∨ ∃ next : ZlibPacket, next.Valid tr.zlib ∧ next.CutBehindLength r)
    : inEnough r = .ok 0 := by
  unfold inEnough
  cases hr with
  | inl hmore =>
    rw [Bin.gotVarint_of_more hmore]
    rfl
  | inr hbehind =>
    obtain ⟨next, hnvalid, ⟨hpre, hlen⟩, hlength⟩ := hbehind
    rw [gotVarint_of_behind hnvalid ⟨⟨hpre, hlen⟩, hlength⟩]
    have hwire := hnvalid.wire_lt
    have htotal : next.wire.length
        = (Leb128.encode next.inner.length).length + next.inner.length := by
      rw [ZlibPacket.wire, List.length_append]
    have hread : readLength r
        = .ok ((next.inner.length : Int), (Leb128.encode next.inner.length).length) := by
      rcases hlength with ⟨t, rfl⟩
      rw [readLength_encode (by omega), Bin.int32_eq_self (by omega)]
    simp only [hread, bind, Except.bind]
    rw [Bin.wrap32_eq_self (by omega) (by omega), if_neg (by omega)]
    rfl

end ZlibMc18Transformer

end HCraft
