import HCraft.Util.Nbt.Compressed
import HCraft.Util.Nbt.Lemmas.Safe

/-!
This module contains when the reader of compressed NBT comes to an end.
-/

namespace HCraft

open Inflater

namespace NbtReader

/--
The input can be read: it is not cut off, what it decompresses to fits the buffer, whose size cannot
grow past `2 ^ 31`, and the reader of plain NBT is safe on it.
-/
def Readable (d : Decoded) : Prop :=
  match d.ending with
  | .complete => d.out.length < 2 ^ 31 ∧ ∀ f, Meets .tag d.out f → f.Ok
  | .truncated => False
  | .corrupt => d.out.length ≤ 2 ^ 31

/--
The loop reaches the end of the stream, or the place where it is corrupt.
-/
def Reaches (d : Decoded) : Prop :=
  d.ending ≠ .truncated ∧ d.out.length ≤ 2 ^ 31

theorem reaches_of_readable {d : Decoded} (h : Readable d) : Reaches d := by
  unfold Readable at h
  unfold Reaches
  cases hending : d.ending with
  | complete =>
    rw [hending] at h
    exact ⟨nofun, Nat.le_of_lt h.left⟩
  | truncated =>
    rw [hending] at h
    exact h.elim
  | corrupt =>
    rw [hending] at h
    exact ⟨nofun, h⟩

section Loop

variable {z : Inflater} {decode : Bytes → Decoded} {Of : Bytes → z.State → Prop} {data : Bytes}
variable {buf : ByteBuffer} {s : z.State}

/--
The buffer has all of the output so far, and its size is a power of two.
-/
structure Inflating (z : Inflater) (decode : Bytes → Decoded) (Of : Bytes → z.State → Prop)
    (data : Bytes) (buf : ByteBuffer) (s : z.State) : Prop where
  of : Of data s
  written : buf.data = (decode data).out.take (z.totalOut s)
  fits : z.totalOut s ≤ buf.cap
  cap : ∃ k, k ≤ 31 ∧ buf.cap = 2 ^ k

theorem Inflating.cap_le (h : Inflating z decode Of data buf s) : buf.cap ≤ 2 ^ 31 := by
  obtain ⟨k, hk, hcap⟩ := h.cap
  rw [hcap]
  exact Nat.pow_le_pow_right (by omega) hk

theorem Inflating.availOut (h : Inflating z decode Of data buf s)
    : (buf.cap - z.totalOut s) % 2 ^ 32 = buf.cap - z.totalOut s := by
  have hle := h.cap_le
  apply Nat.mod_eq_of_lt
  omega

theorem Inflating.call (hz : z.Documented decode Of) (h : Inflating z decode Of data buf s)
    : Inflating z decode Of data
        { buf with data := buf.data ++ (z.inflate s (buf.cap - z.totalOut s)).snd.fst }
        (z.inflate s (buf.cap - z.totalOut s)).snd.snd := by
  have hcall := hz.call data s (buf.cap - z.totalOut s) h.of
  constructor
  . exact hz.of_call _ _ _ h.of
  . dsimp only
    rw [h.written]
    exact hcall.written
  . have hlength := hcall.length_le
    have hout := hcall.totalOut
    have hfits := h.fits
    dsimp only
    omega
  . exact h.cap

theorem Inflating.extend (h : Inflating z decode Of data buf s)
    : Inflating z decode Of data (buf.extend (buf.cap * 2 % 2 ^ 32)) s
        ∧ (buf.cap < 2 ^ 31 → buf.cap < (buf.extend (buf.cap * 2 % 2 ^ 32)).cap) := by
  obtain ⟨k, hk, hcap⟩ := h.cap
  unfold ByteBuffer.extend
  by_cases hlast : k = 31
  . rw [hcap, hlast]
    constructor
    . exact h
    . intro hlt
      exact absurd hlt (Nat.lt_irrefl _)
  . have hdouble : buf.cap * 2 % 2 ^ 32 = 2 ^ (k + 1) := by
      rw [hcap, ← Nat.pow_succ]
      apply Nat.mod_eq_of_lt
      exact Nat.pow_lt_pow_right (by omega) (by omega)
    have hlt : 2 ^ k < 2 ^ (k + 1) := Nat.pow_lt_pow_right (by omega) (by omega)
    rw [hdouble, if_neg (by omega)]
    constructor
    . constructor
      . exact h.of
      . exact h.written
      . have hfits := h.fits
        dsimp only
        omega
      . exact ⟨k + 1, by omega, rfl⟩
    . intro _
      dsimp only
      omega

theorem inflating_new (hz : z.Documented decode Of) (hs : z.init data = some s)
    : Inflating z decode Of data .new s := by
  obtain ⟨hof, hout⟩ := hz.init data s hs
  constructor
  . exact hof
  . rw [hout]
    rfl
  . rw [hout]
    exact Nat.zero_le _
  . exact ⟨5, by omega, rfl⟩

theorem inflateAll_succ {availOut : Nat} (havail : (buf.cap - z.totalOut s) % 2 ^ 32 = availOut)
    (fuel : Nat)
    : inflateAll z (fuel + 1) buf s
        = let r := z.inflate s availOut
          let buf := { buf with data := buf.data ++ r.snd.fst }
          match r.fst with
          | .streamEnd => some (.ok buf.data)
          | .ok => inflateAll z fuel buf r.snd.snd
          | .bufError => inflateAll z fuel (buf.extend (buf.cap * 2 % 2 ^ 32)) r.snd.snd
          | .error => some (.error (.readError "zlib decompresion failed (inflate)")) := by
  subst havail
  rfl

/--
What is left of the input and the output gets less, or the buffer grows.
-/
theorem exists_inflateAll (hz : z.Documented decode Of) (hreaches : Reaches (decode data))
    (h : Inflating z decode Of data buf s)
    : ∃ fuel, inflateAll z fuel buf s
        = some (if (decode data).ending = .complete then
            .ok (decode data).out
          else
            .error (.readError "zlib decompresion failed (inflate)")) := by
  induction hm : (2 ^ 31 - buf.cap) + z.left data (decode data) s using Nat.strong_induction_on
    generalizing buf s with
  | h m ih =>
    have hcall := hz.call data s (buf.cap - z.totalOut s) h.of
    have hnext := h.call hz
    have hle := left_le hz h.of (buf.cap - z.totalOut s)
    cases hr : (z.inflate s (buf.cap - z.totalOut s)).fst with
    | streamEnd =>
      obtain ⟨hcomplete, hout⟩ := hcall.streamEnd hr
      refine ⟨1, ?_⟩
      rw [inflateAll_succ h.availOut]
      dsimp only
      rw [hr, if_pos hcomplete]
      dsimp only
      rw [h.written, hcall.written, hout, List.take_length]
    | error =>
      obtain ⟨hcorrupt, _⟩ := hcall.error hr
      refine ⟨1, ?_⟩
      rw [inflateAll_succ h.availOut]
      dsimp only
      rw [hr, if_neg (by simp [hcorrupt])]
    | ok =>
      have hlt := left_lt_of_ok hz h.of hr
      obtain ⟨fuel, hfuel⟩ := ih _ (by dsimp only; omega) hnext rfl
      refine ⟨fuel + 1, ?_⟩
      rw [inflateAll_succ h.availOut]
      dsimp only
      rw [hr]
      exact hfuel
    | bufError =>
      obtain ⟨hnil, hwhy⟩ := hcall.bufError hr
      have hfits := h.fits
      have hroom : buf.cap < 2 ^ 31 := by
        have houtLe := hreaches.right
        rcases hwhy with ⟨hroom, hmore⟩ | ⟨htruncated, _⟩
        . omega
        . exact absurd htruncated hreaches.left
      obtain ⟨hextended, hgrows⟩ := hnext.extend
      have hgrows := hgrows hroom
      have hcapLe := hextended.cap_le
      obtain ⟨fuel, hfuel⟩ := ih _ (by dsimp only at hgrows ⊢; omega) hextended rfl
      refine ⟨fuel + 1, ?_⟩
      rw [inflateAll_succ h.availOut]
      dsimp only
      rw [hr]
      exact hfuel

/--
At `2 ^ 31` bytes `extend` does nothing any more, and without input it is of no use.
-/
theorem inflateAll_eq_none (hz : z.Documented decode Of) (hreaches : ¬ Reaches (decode data))
    (h : Inflating z decode Of data buf s) (fuel : Nat) : inflateAll z fuel buf s = none := by
  induction fuel generalizing buf s with
  | zero => rfl
  | succ fuel ih =>
    have hcall := hz.call data s (buf.cap - z.totalOut s) h.of
    have hnext := h.call hz
    have hnextFits := hnext.fits
    have hnextCap := hnext.cap_le
    rw [inflateAll_succ h.availOut]
    dsimp only
    cases hr : (z.inflate s (buf.cap - z.totalOut s)).fst with
    | streamEnd =>
      obtain ⟨hcomplete, hout⟩ := hcall.streamEnd hr
      exfalso
      apply hreaches
      exact ⟨by simp [hcomplete], by dsimp only at hnextFits hnextCap; omega⟩
    | error =>
      obtain ⟨hcorrupt, hout⟩ := hcall.error hr
      exfalso
      apply hreaches
      exact ⟨by simp [hcorrupt], by dsimp only at hnextFits hnextCap; omega⟩
    | ok => exact ih hnext
    | bufError => exact ih hnext.extend.left

theorem inflateAll_mono {fuel : Nat} {r : Except NbtError Bytes}
    (h : inflateAll z fuel buf s = some r) (n : Nat) : inflateAll z (fuel + n) buf s = some r := by
  induction fuel generalizing buf s with
  | zero => cases h
  | succ fuel ih =>
    rw [Nat.add_right_comm]
    unfold inflateAll at h ⊢
    dsimp only at h ⊢
    cases hr : (z.inflate s ((buf.cap - z.totalOut s) % 2 ^ 32)).fst with
    | streamEnd =>
      rw [hr] at h
      exact h
    | error =>
      rw [hr] at h
      exact h
    | ok =>
      rw [hr] at h
      exact ih h
    | bufError =>
      rw [hr] at h
      exact ih h

theorem readCompressed_of_reaches (hz : z.Documented decode Of) (hs : z.init data = some s)
    (hreaches : Reaches (decode data))
    : ∃ fuel, readCompressed z fuel data
        = some (if (decode data).ending = .complete then
            readInflated (decode data).out
          else
            .error (.readError "zlib decompresion failed (inflate)")) := by
  obtain ⟨fuel, hfuel⟩ := exists_inflateAll hz hreaches (inflating_new hz hs)
  refine ⟨fuel, ?_⟩
  unfold readCompressed
  rw [hs]
  dsimp only
  rw [hfuel, Option.map_some]
  by_cases hcomplete : (decode data).ending = .complete
  . rw [if_pos hcomplete, if_pos hcomplete, Except.bind]
  . rw [if_neg hcomplete, if_neg hcomplete, Except.bind]

theorem readCompressed_eq_none (hz : z.Documented decode Of) (hs : z.init data = some s)
    (hreaches : ¬ Reaches (decode data)) (fuel : Nat) : readCompressed z fuel data = none := by
  unfold readCompressed
  rw [hs]
  dsimp only
  rw [inflateAll_eq_none hz hreaches (inflating_new hz hs)]
  rfl

theorem readCompressed_mono {fuel : Nat} {r : Except NbtError (Bytes × List (Bytes × NbtTag Unit))}
    (h : readCompressed z fuel data = some r) (n : Nat)
    : readCompressed z (fuel + n) data = some r := by
  unfold readCompressed at h ⊢
  cases hs : z.init data with
  | none =>
    rw [hs] at h
    exact h
  | some s =>
    rw [hs] at h
    obtain ⟨r', hr', heq⟩ := Option.map_eq_some_iff.mp h
    dsimp only
    rw [inflateAll_mono hr' n, ← heq]
    rfl

/--
The reader has one result, however much fuel it is given.
-/
theorem readCompressed_unique {fuel fuel' : Nat}
    {r r' : Except NbtError (Bytes × List (Bytes × NbtTag Unit))}
    (h : readCompressed z fuel data = some r) (h' : readCompressed z fuel' data = some r')
    : r = r' := by
  have hmono := readCompressed_mono h fuel'
  have hmono' := readCompressed_mono h' fuel
  rw [Nat.add_comm, hmono] at hmono'
  injection hmono'

end Loop

theorem int32_neg_iff {n : Nat} (h : n ≤ 2 ^ 31) : Bin.int32 n < 0 ↔ ¬ n < 2 ^ 31 := by
  unfold Bin.int32 Bin.wrap32
  omega

theorem readInflated_ne_fault_iff {out : Bytes} (h : out.length ≤ 2 ^ 31)
    : (∀ fault, readInflated out ≠ .error (.fault fault))
        ↔
      out.length < 2 ^ 31 ∧ ∀ f, Meets .tag out f → f.Ok := by
  unfold readInflated
  dsimp only
  by_cases hlt : out.length < 2 ^ 31
  . have hnonneg : ¬ Bin.int32 out.length < 0 := fun hneg => (int32_neg_iff h).mp hneg hlt
    rw [if_neg hnonneg]
    cases readRaw_settled hlt with
    | inl hbad =>
      obtain ⟨⟨fault, hfault⟩, f, hf, hnot⟩ := hbad
      exact ⟨fun hne => absurd hfault (hne fault), fun hok => absurd (hok.right f hf) hnot⟩
    | inr hgood => exact ⟨fun _ => ⟨hlt, hgood.right⟩, fun _ => hgood.left⟩
  . rw [if_pos ((int32_neg_iff h).mpr hlt)]
    constructor
    . exact fun hne => absurd rfl (hne _)
    . exact fun hok => absurd hok.left hlt

section Returns

variable {z : Inflater} {decode : Bytes → Decoded} {Of : Bytes → z.State → Prop}

/--
Reading returns, with the compound or with a `nbt_read_error`, just in case the input can be read.
-/
theorem readCompressed_returns_iff (hz : z.Documented decode Of) (data : Bytes)
    : (∃ fuel r, readCompressed z fuel data = some r ∧ ∀ fault, r ≠ .error (.fault fault))
        ↔
      z.init data = none ∨ Readable (decode data) := by
  cases hs : z.init data with
  | none =>
    simp only [true_or, iff_true]
    refine ⟨0, .error (.readError "zlib decompresion failed (inflateInit)"), ?_, ?_⟩
    . unfold readCompressed
      rw [hs]
    . nofun
  | some s =>
    simp only [reduceCtorEq, false_or]
    by_cases hreaches : Reaches (decode data)
    . obtain ⟨fuel, hfuel⟩ := readCompressed_of_reaches hz hs hreaches
      have hresult : (∃ fuel r, readCompressed z fuel data = some r
            ∧ ∀ fault, r ≠ .error (.fault fault))
          ↔ ∀ fault, (if (decode data).ending = .complete then
              readInflated (decode data).out
            else
              .error (.readError "zlib decompresion failed (inflate)")) ≠ .error (.fault fault) := by
        constructor
        . rintro ⟨fuel', r, hr, hne⟩
          rw [← readCompressed_unique hr hfuel]
          exact hne
        . exact fun hne => ⟨fuel, _, hfuel, hne⟩
      rw [hresult]
      unfold Readable
      cases hending : (decode data).ending with
      | complete =>
        simp only [if_true]
        exact readInflated_ne_fault_iff hreaches.right
      | truncated => exact absurd hending hreaches.left
      | corrupt =>
        simp only [reduceCtorEq, if_false]
        exact ⟨fun _ => hreaches.right, fun _ => nofun⟩
    . constructor
      . rintro ⟨fuel, r, hr, _⟩
        rw [readCompressed_eq_none hz hs hreaches] at hr
        cases hr
      . intro hreadable
        exact absurd (reaches_of_readable hreadable) hreaches

theorem read_returns_iff (hz : z.Documented decode Of) (data : Bytes)
    {st : NbtCompressionStrategy} (hst : st ≠ .raw)
    : (∃ fuel r, read z fuel data st = some r ∧ ∀ fault, r ≠ .error (.fault fault))
        ↔
      z.init data = none ∨ Readable (decode data) := by
  cases st with
  | raw => exact absurd rfl hst
  | gzip => exact readCompressed_returns_iff hz data
  | zlib => exact readCompressed_returns_iff hz data

end Returns

/--
An empty compound without a name, as zlib compresses it.
-/
def emptyCompound : Bytes :=
  [120, 156, 227, 98, 96, 96, 0, 0, 0, 44, 0, 11]

/--
What zlib makes of the compressed compound, and of its beginnings.
-/
def decodeEmptyCompound (data : Bytes) : Decoded :=
  if data = emptyCompound then
    ⟨[10, 0, 0, 0], .complete⟩
  else if data.isPrefixOf emptyCompound then
    ⟨[10, 0, 0, 0].take (data.length - 3), .truncated⟩
  else
    ⟨[], .corrupt⟩

theorem read_returns_iff_emptyCompound
    : (∃ fuel r, read (ofDecode decodeEmptyCompound) fuel emptyCompound .zlib = some r
        ∧ ∀ fault, r ≠ .error (.fault fault))
      ↔
    (ofDecode decodeEmptyCompound).init emptyCompound = none
      ∨ Readable (decodeEmptyCompound emptyCompound) :=
  read_returns_iff (documented_ofDecode _) emptyCompound nofun

/--
Reading the first two bytes of it never ends.
-/
theorem not_read_returns
    : ¬ ∀ (z : Inflater) (decode : Bytes → Decoded) (Of : Bytes → z.State → Prop),
        z.Documented decode Of →
          ∀ (data : Bytes) (st : NbtCompressionStrategy), st ≠ .raw →
            ∃ fuel r, read z fuel data st = some r ∧ ∀ fault, r ≠ .error (.fault fault) := by
  intro h
  obtain ⟨fuel, r, hr, _⟩ := h _ _ _ (documented_ofDecode decodeEmptyCompound) [120, 156] .zlib nofun
  have hreaches : ¬ Reaches (decodeEmptyCompound [120, 156]) := by
    intro hreaches
    exact hreaches.left (by decide)
  have hnone := readCompressed_eq_none (documented_ofDecode decodeEmptyCompound) rfl hreaches fuel
  rw [read, hnone] at hr
  cases hr

end NbtReader

end HCraft
