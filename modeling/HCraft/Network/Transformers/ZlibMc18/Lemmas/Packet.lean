import HCraft.Lib.Prefixed
import HCraft.Lib.Returns
import HCraft.Network.Transformers.ZlibMc18.Impl

/-!
This module contains what one round of `transform_in` does with a packet on the wire, be it complete
or cut off.
-/

namespace HCraft

/--
What the transformer relies on zlib for.
-/
structure Zlib.Correct (z : Zlib) : Prop where
  /-- `inflate` undoes `deflate` -/
  inflate_deflate : ∀ x, z.inflate (z.deflate x) = .streamEnd x
  /-- a stream that is cut off needs more input -/
  inflate_of_prefix : ∀ {x p}, p <+: z.deflate x → p ≠ z.deflate x →
    ∃ out, z.inflate p = .needInput out
  /-- what follows the end of a stream does not matter -/
  inflate_append : ∀ {p out}, z.inflate p = .streamEnd out → ∀ t, z.inflate (p ++ t) = .streamEnd out
  /-- every stream has a header -/
  deflate_ne_nil : ∀ x, z.deflate x ≠ []

/--
A codec with these properties: every byte is preceded by a 1, and the end is marked by a 0.
-/
def Zlib.marked : Zlib where
  deflate x := x.flatMap (fun b => [1, b]) ++ [0]
  deflateBound n := 2 * n + 1
  inflate := go []
where
  go (out : Bytes) : Bytes → Inflate
    | [] => .needInput out
    | [m] => if m = 0 then .streamEnd out else if m = 1 then .needInput out else .dataError out
    | m :: b :: rest =>
      if m = 0 then .streamEnd out else if m = 1 then go (out ++ [b]) rest else .dataError out

namespace Zlib.marked

theorem go_deflate (x out : Bytes)
    : go out (x.flatMap (fun b => [1, b]) ++ [0]) = .streamEnd (out ++ x) := by
  induction x generalizing out with
  | nil => simp [go]
  | cons b x ih =>
    have := ih (out ++ [b])
    simp only [List.append_assoc, List.singleton_append] at this
    simpa [List.flatMap_cons, go] using this

theorem go_append {p out out' : Bytes} (h : go out p = .streamEnd out') (t : Bytes)
    : go out (p ++ t) = .streamEnd out' := by
  fun_induction go out p with
  | case1 => contradiction
  | case2 out =>
    cases t <;> simpa [go] using h
  | case3 => contradiction
  | case4 => contradiction
  | case5 out b rest => simpa [go] using h
  | case6 out b rest hm ih => simpa [go] using ih h
  | case7 => contradiction

theorem go_prefix {x p out : Bytes} (hpre : p <+: x.flatMap (fun b => [1, b]) ++ [0])
    (hne : p ≠ x.flatMap (fun b => [1, b]) ++ [0]) : ∃ out', go out p = .needInput out' := by
  induction x generalizing p out with
  | nil =>
    cases p with
    | nil => exact ⟨out, rfl⟩
    | cons m p =>
      have hpre : m = 0 ∧ p = [] := by simpa using hpre
      simp [hpre] at hne
  | cons b x ih =>
    match p with
    | [] => exact ⟨out, rfl⟩
    | [m] =>
      have hm : m = 1 := by simpa [List.flatMap_cons] using hpre
      exact ⟨out, by simp [go, hm]⟩
    | m :: c :: p =>
      simp only [List.flatMap_cons, List.cons_append, List.nil_append, List.cons_prefix_cons] at hpre
      rcases hpre with ⟨rfl, rfl, hpre⟩
      have hne : p ≠ x.flatMap (fun b => [1, b]) ++ [0] := by
        rintro rfl
        simp [List.flatMap_cons] at hne
      simpa [go] using ih hpre hne

theorem correct : Zlib.marked.Correct where
  inflate_deflate x := go_deflate x []
  inflate_of_prefix := go_prefix
  inflate_append := go_append
  deflate_ne_nil x := by simp [Zlib.marked]

end Zlib.marked

namespace ZlibMc18Transformer

/--
A packet on the wire: the field behind its length, zero if the content is not compressed.
-/
structure ZlibPacket where
  dlen : Nat
  content : Bytes

namespace ZlibPacket

/--
What the length prefix counts.
-/
def inner (p : ZlibPacket) : Bytes :=
  Leb128.encode p.dlen ++ p.content

def wire (p : ZlibPacket) : Bytes :=
  Leb128.encode p.inner.length ++ p.inner

/--
What `transform_in` makes of the packet; `none` if the compressed content is corrupt.
-/
def received (z : Zlib) (p : ZlibPacket) : Option Bytes :=
  if p.dlen = 0 then
    some (Leb128.encode p.content.length ++ p.content)
  else
    match z.inflate p.content with
    | .streamEnd out => some (Leb128.encode p.dlen ++ out)
    | _ => none

/--
The lengths fit an `int`, and the content is not compressed, compressed or corrupt.
-/
structure Valid (z : Zlib) (p : ZlibPacket) : Prop where
  dlen_lt : p.dlen < 2 ^ 32
  wire_lt : p.wire.length < 2 ^ 31
  content : p.dlen = 0 ∨ (∃ x, p.content = z.deflate x) ∨ p.received z = none

theorem isFrame_wire (p : ZlibPacket) : Leb128.framer.IsFrame p.wire :=
  Leb128.isFrame_encode_append p.inner

theorem wire_append (p : ZlibPacket) (t : Bytes)
    : p.wire ++ t
        =
      Leb128.encode p.inner.length ++ (Leb128.encode p.dlen ++ (p.content ++ t)) := by
  simp [wire, inner]

theorem length_wire (p : ZlibPacket)
    : p.wire.length
        =
      (Leb128.encode p.inner.length).length
        + ((Leb128.encode p.dlen).length + p.content.length) := by
  rw [wire, List.length_append, inner, List.length_append]

end ZlibPacket

namespace ZlibPacket

/--
What the output block goes through for a packet whose content can be decompressed.
-/
def put (z : Zlib) (p : ZlibPacket) (buf : OutBuffer) : Except Fault OutBuffer :=
  if p.dlen = 0 then do
    let buf ← buf.reserve (p.content.length + 5 : Nat)
    let buf ← buf.write (Leb128.encode p.content.length)
    buf.write p.content
  else do
    let buf ← buf.reserve 5
    let buf ← buf.write (Leb128.encode p.dlen)
    match z.inflate p.content with
    | .streamEnd out => buf.inflateInto out
    | _ => .ok buf

end ZlibPacket

namespace OutBuffer

/--
What is written so far fits the block, and the block is four times as large as the input.
-/
def Room (buf : OutBuffer) (len : Nat) : Prop :=
  buf.out.length ≤ buf.outc ∧ 4 * len ≤ buf.outc

theorem out_of_alloc {len : Nat} {buf : OutBuffer} (h : alloc len = .ok buf) : buf.out = [] := by
  unfold alloc at h
  split at h
  . injection h with h
    rw [← h]
  . contradiction

theorem out_of_double {buf buf' : OutBuffer} (h : buf.double = .ok buf') : buf'.out = buf.out := by
  unfold double at h
  split at h
  . injection h with h
    rw [← h]
  . contradiction

theorem out_of_reserve {buf buf' : OutBuffer} {size : Int} (h : buf.reserve size = .ok buf')
    : buf'.out = buf.out := by
  unfold reserve at h
  split at h
  . contradiction
  . split at h
    . exact out_of_double h
    . injection h with h
      rw [h]

theorem out_of_write {buf buf' : OutBuffer} {data : Bytes} (h : buf.write data = .ok buf')
    : buf'.out = buf.out ++ data := by
  unfold write at h
  split at h
  . injection h with h
    rw [← h]
  . contradiction

theorem out_of_inflateInto {buf buf' : OutBuffer} {data : Bytes}
    (h : buf.inflateInto data = .ok buf') : buf'.out = buf.out ++ data := by
  unfold inflateInto at h
  obtain ⟨outc, _, h⟩ := bind_eq_ok_iff.mp h
  injection h with h
  rw [← h]

theorem write_of_le {buf : OutBuffer} {data : Bytes} (h : buf.out.length + data.length ≤ buf.outc)
    : buf.write data = .ok { buf with out := buf.out ++ data } := by
  unfold write
  rw [if_pos h]

theorem write_append (buf : OutBuffer) (a b : Bytes)
    : buf.write (a ++ b) = buf.write a >>= (·.write b) := by
  unfold write
  simp only [List.length_append]
  by_cases ha : buf.out.length + a.length ≤ buf.outc
  . rw [if_pos ha]
    simp only [bind, Except.bind, List.length_append, Nat.add_assoc, List.append_assoc]
  . rw [if_neg ha, if_neg (by omega)]
    rfl

/--
Doubling once is enough for a packet of the input. The block is below 2 GiB as long as what is
written is below 1 GiB.
-/
theorem Room.reserve {buf : OutBuffer} {len : Nat} (h : buf.Room len) (hlen : 2 ≤ len) {size : Nat}
    (hsize : size ≤ len + 5) (hsmall : buf.out.length + size < 2 ^ 30)
    : ∃ buf', buf.reserve size = .ok buf' ∧ buf'.Room len ∧ buf'.out = buf.out
        ∧ buf.out.length + size ≤ buf'.outc := by
  unfold Room at h
  unfold OutBuffer.reserve double
  rw [if_neg (by omega)]
  split
  . rw [if_pos (by omega)]
    refine ⟨_, rfl, ⟨?_, ?_⟩, rfl, ?_⟩
    . dsimp only
      omega
    . dsimp only
      omega
    . dsimp only
      omega
  . exact ⟨buf, rfl, h, rfl, by omega⟩

theorem grow_of_small {outc total : Nat} (h : 0 < outc) (hsmall : total ≤ 2 ^ 30)
    : ∃ outc', inflateInto.grow outc total = .ok outc' ∧ total ≤ outc' ∧ outc ≤ outc' := by
  fun_induction inflateInto.grow outc total with
  | case1 outc hdone => exact ⟨outc, rfl, by omega, Nat.le_refl _⟩
  | case2 outc hmore hlt ih =>
    obtain ⟨outc', hgrow, htotal, hle⟩ := ih (by omega)
    exact ⟨outc', hgrow, htotal, by omega⟩
  | case3 outc hmore hlarge => omega

theorem Room.inflateInto {buf : OutBuffer} {len : Nat} (h : buf.Room len) (hlen : 0 < len)
    {data : Bytes} (hsmall : buf.out.length + data.length ≤ 2 ^ 30)
    : ∃ buf', buf.inflateInto data = .ok buf' ∧ buf'.Room len := by
  unfold Room at h
  obtain ⟨outc, hgrow, htotal, hle⟩ := @grow_of_small buf.outc _ (by omega) hsmall
  refine ⟨{ outc, out := buf.out ++ data }, ?_, ?_⟩
  . unfold OutBuffer.inflateInto
    rw [hgrow]
    rfl
  . refine ⟨?_, by dsimp only; omega⟩
    rw [List.length_append]
    exact htotal

end OutBuffer

theorem readLength_encode {n : Nat} (h : n < 2 ^ 32) (t : Bytes)
    : readLength (Leb128.encode n ++ t) = .ok (Bin.int32 n, (Leb128.encode n).length) := by
  have hlen : (Leb128.encode n).length ≤ 5 := Leb128.length_encode_le (by omega) (by omega)
  unfold readLength
  rw [Bin.readVarint_of_terminated (Leb128.terminated_encode n) t hlen, Leb128.value_encode]

theorem readLength_of_more {arr : Bytes} (h : ∀ b ∈ arr, Leb128.more b = true)
    (hlen : arr.length < 5) : readLength arr = .error .readOutside := by
  unfold readLength
  rw [Bin.readVarint_of_more h hlen]

theorem unsigned32_int32 {n : Nat} (h : n < 2 ^ 32) : Bin.unsigned32 (Bin.int32 n) = n := by
  unfold Bin.unsigned32 Bin.int32 Bin.wrap32
  omega

theorem int32_eq_zero_iff {n : Nat} (h : n < 2 ^ 32) : Bin.int32 n = 0 ↔ n = 0 := by
  unfold Bin.int32 Bin.wrap32
  omega

variable {tr : ZlibMc18Transformer} {p : ZlibPacket} {buf buf' : OutBuffer} {len : Nat}

namespace ZlibPacket

theorem put_of_plain {z : Zlib} (hzero : p.dlen = 0)
    : p.put z buf
        =
      buf.reserve (p.content.length + 5 : Nat) >>=
        (·.write (Leb128.encode p.content.length ++ p.content)) := by
  unfold put
  rw [if_pos hzero]
  simp only [OutBuffer.write_append]

theorem put_of_compressed {z : Zlib} (hzero : p.dlen ≠ 0) {out : Bytes}
    (hout : z.inflate p.content = .streamEnd out)
    : p.put z buf
        =
      buf.reserve 5 >>= (·.write (Leb128.encode p.dlen)) >>= (·.inflateInto out) := by
  unfold put
  rw [if_neg hzero, hout, bind_assoc]

theorem received_cases {z : Zlib} {data : Bytes} (h : p.received z = some data)
    : (p.dlen = 0 ∧ data = Leb128.encode p.content.length ++ p.content)
        ∨ (p.dlen ≠ 0 ∧ ∃ out, z.inflate p.content = .streamEnd out
          ∧ data = Leb128.encode p.dlen ++ out) := by
  unfold received at h
  split at h
  . next hzero =>
    injection h with h
    exact Or.inl ⟨hzero, h.symm⟩
  . next hzero =>
    split at h
    . next out hout =>
      injection h with h
      exact Or.inr ⟨hzero, out, hout, h.symm⟩
    . contradiction

theorem out_of_put {z : Zlib} {data : Bytes} (h : p.received z = some data)
    (hput : p.put z buf = .ok buf') : buf'.out = buf.out ++ data := by
  rcases received_cases h with ⟨hzero, rfl⟩ | ⟨hzero, out, hout, rfl⟩
  . rw [put_of_plain hzero] at hput
    obtain ⟨b, hreserve, hwrite⟩ := bind_eq_ok_iff.mp hput
    rw [OutBuffer.out_of_write hwrite, OutBuffer.out_of_reserve hreserve]
  . rw [put_of_compressed hzero hout] at hput
    obtain ⟨b, hput, hinflate⟩ := bind_eq_ok_iff.mp hput
    obtain ⟨c, hreserve, hwrite⟩ := bind_eq_ok_iff.mp hput
    rw [OutBuffer.out_of_inflateInto hinflate, OutBuffer.out_of_write hwrite,
      OutBuffer.out_of_reserve hreserve, List.append_assoc]

/--
The block holds every packet of the input, as long as what is written is below 1 GiB.
-/
theorem put_of_room {z : Zlib} (hp : p.Valid z) {data : Bytes} (h : p.received z = some data)
    (hroom : buf.Room len) (hlen : p.wire.length ≤ len)
    (hsmall : buf.out.length + data.length + 5 < 2 ^ 30)
    : ∃ buf', p.put z buf = .ok buf' ∧ buf'.Room len := by
  have hlength := p.length_wire
  have hwire := hp.wire_lt
  have hdlen := hp.dlen_lt
  have hpos := Leb128.length_encode_pos p.inner.length
  have hpos' := Leb128.length_encode_pos p.dlen
  rcases received_cases h with ⟨hzero, rfl⟩ | ⟨hzero, out, hout, rfl⟩
  . have hfive : (Leb128.encode p.content.length).length ≤ 5 :=
      Leb128.length_encode_le (by omega) (by omega)
    rw [List.length_append] at hsmall
    obtain ⟨b, hreserve, hb, hbout, hfit⟩ := @OutBuffer.Room.reserve _ _ hroom (by omega)
      (p.content.length + 5) (by omega) (by omega)
    have hwrite : b.out.length + (Leb128.encode p.content.length ++ p.content).length ≤ b.outc := by
      rw [hbout, List.length_append]
      omega
    rw [put_of_plain hzero, hreserve]
    refine ⟨_, OutBuffer.write_of_le hwrite, ?_, hb.2⟩
    rw [List.length_append]
    exact hwrite
  . have hfive : (Leb128.encode p.dlen).length ≤ 5 :=
      Leb128.length_encode_le (by omega) (by omega)
    rw [List.length_append] at hsmall
    obtain ⟨b, hreserve, hb, hbout, hfit⟩ := @OutBuffer.Room.reserve _ _ hroom (by omega) 5
      (by omega) (by omega)
    have hwrite : b.out.length + (Leb128.encode p.dlen).length ≤ b.outc := by
      rw [hbout]
      omega
    have hroom' : OutBuffer.Room { b with out := b.out ++ Leb128.encode p.dlen } len := by
      refine ⟨?_, hb.2⟩
      rw [List.length_append]
      exact hwrite
    have hsmall' : (b.out ++ Leb128.encode p.dlen).length + out.length ≤ 2 ^ 30 := by
      rw [List.length_append, hbout]
      omega
    obtain ⟨c, hinflate, hc⟩ := hroom'.inflateInto (by omega) hsmall'
    have hreserve : buf.reserve 5 = .ok b := hreserve
    rw [put_of_compressed hzero hout, hreserve]
    refine ⟨c, ?_, hc⟩
    show (b.write _) >>= _ = _
    rw [OutBuffer.write_of_le hwrite]
    exact hinflate

end ZlibPacket

theorem packetIn_encode (hp : p.Valid tr.zlib) {r : Bytes} {ptr : Bytes}
    (hptr : ptr = Leb128.encode p.inner.length ++ (Leb128.encode p.dlen ++ r))
    : tr.packetIn ptr buf
        =
      if p.dlen = 0 then do
        let buf ← buf.reserve (p.content.length + 5 : Nat)
        let buf ← buf.write (Leb128.encode p.content.length)
        if r.length < p.content.length then
          throw .readOutside
        let buf ← buf.write (r.take p.content.length)
        return some ((p.wire.length : Int), buf)
      else do
        let buf ← buf.reserve 5
        let buf ← buf.write (Leb128.encode p.dlen)
        match tr.zlib.inflate (r.take p.content.length) with
        | .streamEnd out =>
          let buf ← buf.inflateInto out
          return some ((p.wire.length : Int), buf)
        | .needInput out =>
          if r.length < p.content.length then
            throw .readOutside
          let _ ← buf.inflateInto out
          return none
        | .dataError out =>
          let _ ← buf.inflateInto out
          return none := by
  have hwire := hp.wire_lt
  have hlength := p.length_wire
  have hinner : p.inner.length = (Leb128.encode p.dlen).length + p.content.length := by
    rw [ZlibPacket.inner, List.length_append]
  have hpos := Leb128.length_encode_pos p.inner.length
  have hpos' := Leb128.length_encode_pos p.dlen
  have hplen : Bin.int32 p.inner.length = p.inner.length := Bin.int32_eq_self (by omega)
  have hsize : Bin.wrap32 ((p.inner.length : Int) - (Leb128.encode p.dlen).length)
      = p.content.length := by
    rw [Bin.wrap32_eq_self (by omega) (by omega)]
    omega
  have htotal : Bin.wrap32 (p.inner.length + (Leb128.encode p.inner.length).length)
      = p.wire.length := by
    rw [Bin.wrap32_eq_self (by omega) (by omega)]
    omega
  have hdrop : ptr.drop ((Leb128.encode p.inner.length).length + (Leb128.encode p.dlen).length)
      = r := by
    rw [hptr, ← List.append_assoc]
    exact List.drop_left' (by simp)
  unfold packetIn
  rw [hptr, readLength_encode (by omega), hplen, ← hptr]
  simp only [bind, Except.bind]
  rw [hptr, List.drop_left, readLength_encode hp.dlen_lt, ← hptr]
  dsimp only
  rw [hdrop, hsize, htotal, Bin.unsigned32_natCast (by omega),
    unsigned32_int32 hp.dlen_lt, Bin.writeVarint_eq_encode, Bin.writeVarint_eq_encode,
    Int.toNat_natCast]
  by_cases hzero : p.dlen = 0
  . rw [if_pos ((int32_eq_zero_iff hp.dlen_lt).mpr hzero), if_pos hzero]
    have hshort : ((p.content.length : Int) < 0 ∨ (r.length : Int) < p.content.length)
        ↔ r.length < p.content.length := by
      omega
    simp only [hshort]
    rfl
  . exact (if_neg (fun h => hzero ((int32_eq_zero_iff hp.dlen_lt).mp h))).trans (if_neg hzero).symm

theorem packetIn_wire (hp : p.Valid tr.zlib) {data : Bytes} (hdata : p.received tr.zlib = some data)
    (t : Bytes)
    : tr.packetIn (p.wire ++ t) buf
        =
      (p.put tr.zlib buf).map (fun buf => some ((p.wire.length : Int), buf)) := by
  have htake : (p.content ++ t).take p.content.length = p.content := List.take_left
  have hshort : ¬ (p.content ++ t).length < p.content.length := by
    rw [List.length_append]
    omega
  rw [packetIn_encode hp (p.wire_append t), htake]
  unfold ZlibPacket.put
  rcases ZlibPacket.received_cases hdata with ⟨hzero, _⟩ | ⟨hzero, out, hout, _⟩
  . rw [if_pos hzero, if_pos hzero]
    simp only [bind, Except.bind, if_neg hshort]
    split
    . rfl
    . split
      . rfl
      . next b _ => cases b.write p.content <;> rfl
  . rw [if_neg hzero, if_neg hzero, hout]
    simp only [bind, Except.bind]
    split
    . rfl
    . split
      . rfl
      . next b _ => cases b.inflateInto out <;> rfl

/--
The doubling of the block can fail before `inflate` finds what is wrong.
-/
theorem packetIn_corrupt (buf : OutBuffer) (hp : p.Valid tr.zlib)
    (hcorrupt : p.received tr.zlib = none) (t : Bytes)
    : tr.packetIn (p.wire ++ t) buf = .ok none
        ∨ ∃ fault, tr.packetIn (p.wire ++ t) buf = .error fault := by
  have htake : (p.content ++ t).take p.content.length = p.content := List.take_left
  have hshort : ¬ (p.content ++ t).length < p.content.length := by
    rw [List.length_append]
    omega
  rw [packetIn_encode hp (p.wire_append t), htake]
  unfold ZlibPacket.received at hcorrupt
  split at hcorrupt
  . contradiction
  . next hzero =>
    rw [if_neg hzero]
    simp only [bind, Except.bind, if_neg hshort]
    split
    . next fault _ => exact Or.inr ⟨fault, rfl⟩
    . split
      . next fault _ => exact Or.inr ⟨fault, rfl⟩
      . next b _ =>
        split at hcorrupt
        . contradiction
        . next hother =>
          cases hinf : tr.zlib.inflate p.content with
          | streamEnd out => exact absurd hinf (hother out)
          | needInput out =>
            cases hinto : b.inflateInto out with
            | error fault => exact Or.inr ⟨fault, by simp [hinto]⟩
            | ok _ => exact Or.inl (by simp [hinto]; rfl)
          | dataError out =>
            cases hinto : b.inflateInto out with
            | error fault => exact Or.inr ⟨fault, by simp [hinto]⟩
            | ok _ => exact Or.inl (by simp [hinto]; rfl)

theorem packetIn_cut_field (hp : p.Valid tr.zlib) {r : Bytes} (hpre : r <+: Leb128.encode p.dlen)
    (hlen : r.length < (Leb128.encode p.dlen).length)
    : tr.packetIn (Leb128.encode p.inner.length ++ r) buf = .error .readOutside := by
  have hfive : (Leb128.encode p.dlen).length ≤ 5 :=
    Leb128.length_encode_le (by omega) (by have := hp.dlen_lt; omega)
  rcases hpre with ⟨t, ht⟩
  have hmore := (Leb128.terminated_encode p.dlen).more_of_append ht.symm (by
    rintro rfl
    rw [List.append_nil] at ht
    rw [ht] at hlen
    omega)
  have hwire := hp.wire_lt
  have hlength := p.length_wire
  have hlt : p.inner.length < 2 ^ 32 := by
    rw [ZlibPacket.inner, List.length_append]
    omega
  have hfirst := readLength_encode hlt r
  have hsecond := readLength_of_more hmore (by omega)
  unfold packetIn
  generalize Bin.int32 p.inner.length = plen at hfirst
  rw [hfirst]
  simp only [bind, Except.bind, List.drop_left, hsecond]

/--
A packet that is cut off behind its length is read beyond its end. Only corrupt content can stop the
round before that.
-/
theorem packetIn_cut (hz : tr.zlib.Correct) (hp : p.Valid tr.zlib) {r : Bytes}
    (hcut : Leb128.encode p.inner.length ++ r <+: p.wire)
    (hne : Leb128.encode p.inner.length ++ r ≠ p.wire)
    : (∃ fault, tr.packetIn (Leb128.encode p.inner.length ++ r) buf = .error fault)
        ∨ (tr.packetIn (Leb128.encode p.inner.length ++ r) buf = .ok none
          ∧ p.received tr.zlib = none) := by
  have hinner : r <+: p.inner := (List.prefix_append_right_inj _).mp hcut
  have hr : r ≠ p.inner := by
    rintro rfl
    exact hne rfl
  by_cases hdlen : r.length < (Leb128.encode p.dlen).length
  . have hpre : r <+: Leb128.encode p.dlen :=
      List.prefix_of_prefix_length_le hinner (List.prefix_append _ _) (by omega)
    exact Or.inl ⟨_, packetIn_cut_field hp hpre hdlen⟩
  . have hpre : Leb128.encode p.dlen <+: r :=
      List.prefix_of_prefix_length_le (List.prefix_append _ _) hinner (by omega)
    rcases hpre with ⟨c, rfl⟩
    have hc : c <+: p.content := (List.prefix_append_right_inj _).mp hinner
    have hcne : c ≠ p.content := by
      rintro rfl
      exact hr rfl
    have hclen : c.length < p.content.length := by
      rcases hc with ⟨t, ht⟩
      rw [← ht, List.length_append]
      have : t ≠ [] := by
        rintro rfl
        rw [List.append_nil] at ht
        exact hcne ht
      have := List.length_pos_iff.mpr this
      omega
    have htake : c.take p.content.length = c := List.take_of_length_le (by omega)
    rw [packetIn_encode hp rfl, htake]
    simp only [bind, Except.bind, if_pos hclen]
    split
    . left
      split
      . exact ⟨_, rfl⟩
      . split
        . exact ⟨_, rfl⟩
        . exact ⟨_, rfl⟩
    . next hzero =>
      split
      . exact Or.inl ⟨_, rfl⟩
      . split
        . exact Or.inl ⟨_, rfl⟩
        . next b _ =>
          cases hinf : tr.zlib.inflate c with
          | needInput out => exact Or.inl ⟨_, rfl⟩
          | dataError out =>
            cases hinto : b.inflateInto out with
            | error fault => exact Or.inl ⟨fault, by simp [hinto]⟩
            | ok _ =>
              refine Or.inr ⟨by simp [hinto]; rfl, ?_⟩
              rcases hp.content with hdlen | ⟨x, hx⟩ | hcorrupt
              . exact absurd hdlen hzero
              . rw [hx] at hc hcne
                obtain ⟨out', hneed⟩ := hz.inflate_of_prefix hc hcne
                rw [hneed] at hinf
                contradiction
              . exact hcorrupt
          | streamEnd out =>
            exfalso
            rcases hp.content with hdlen | ⟨x, hx⟩ | hcorrupt
            . exact absurd hdlen hzero
            . rw [hx] at hc hcne
              obtain ⟨out', hneed⟩ := hz.inflate_of_prefix hc hcne
              rw [hneed] at hinf
              contradiction
            . rcases hc with ⟨t, ht⟩
              rw [ZlibPacket.received, if_neg hzero, ← ht, hz.inflate_append hinf] at hcorrupt
              contradiction

end ZlibMc18Transformer

end HCraft
