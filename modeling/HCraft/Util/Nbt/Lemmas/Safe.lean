import HCraft.Util.Nbt.Lemmas.Skip

/-!
This module contains the inputs on which the reader stays inside of its buffer.
-/

namespace HCraft

namespace NbtReader

open Bin

/--
The bytes of a part from its beginning to its end.
-/
inductive Whole : Part → Bytes → Prop where
  | fixed {id : UInt8} {n : Nat} {bs : Bytes} (hid : width id = some n) (hlen : bs.length = n)
    : Whole (.payload id) bs
  | byteArray {len bs : Bytes} (h : len.length = 4)
    (hlen : int32 (BigEndian.decode len) = bs.length)
    : Whole (.payload 7) (len ++ bs)
  | string {len bs : Bytes} (h : len.length = 2) (hlen : BigEndian.decode len = bs.length)
    : Whole (.payload 8) (len ++ bs)
  | list {id : UInt8} {count bs : Bytes} (h : count.length = 4)
    (hvals : Whole (.vals id (int32 (BigEndian.decode count)).toNat) bs)
    : Whole (.payload 9) (id :: (count ++ bs))
  | compound {bs : Bytes} (htags : Whole .tags bs) : Whole (.payload 10) bs
  | intArray {len bs : Bytes} (h : len.length = 4)
    (hlen : int32 (BigEndian.decode len) * 4 = bs.length)
    : Whole (.payload 11) (len ++ bs)
  | noVals {id : UInt8} : Whole (.vals id 0) []
  | vals {id : UInt8} {count : Nat} {val bs : Bytes} (hval : Whole (.payload id) val)
    (hvals : Whole (.vals id count) bs)
    : Whole (.vals id (count + 1)) (val ++ bs)
  | noTags : Whole .tags [0]
  | tags {tag bs : Bytes} (htag : Whole .tag tag) (htags : Whole .tags bs)
    : Whole .tags (tag ++ bs)
  | tag {id : UInt8} {len name bs : Bytes} (h : len.length = 2)
    (hlen : BigEndian.decode len = name.length) (hpos : name.length < 2 ^ 15)
    (hpayload : Whole (.payload id) bs)
    : Whole .tag (id :: (len ++ (name ++ bs)))

/--
A length that the reader comes to; for an array of ints, with the number of bytes behind it.
-/
inductive Field where
  | name (len : Nat)
  | byteArray (len : Int)
  | intArray (len : Int) (avail : Nat)

def Field.Ok : Field → Prop
  | name len => len < 2 ^ 15
  | byteArray len => 0 ≤ len
  | intArray len avail => 0 ≤ len ∧ len < 2 ^ 29 ∨ avail < wrap32 (len * 4)

/--
All that precedes `f` in the bytes is whole.
-/
inductive Meets : Part → Bytes → Field → Prop where
  | byteArray {id : UInt8} {len rest : Bytes} (hid : id = 7) (h : len.length = 4)
    : Meets (.payload id) (len ++ rest) (.byteArray (int32 (BigEndian.decode len)))
  | intArray {id : UInt8} {len rest : Bytes} (hid : id = 11) (h : len.length = 4)
    : Meets (.payload id) (len ++ rest) (.intArray (int32 (BigEndian.decode len)) rest.length)
  | list {id eid : UInt8} {count bs : Bytes} {f : Field} (hid : id = 9) (h : count.length = 4)
    (hvals : Meets (.vals eid (int32 (BigEndian.decode count)).toNat) bs f)
    : Meets (.payload id) (eid :: (count ++ bs)) f
  | compound {id : UInt8} {bs : Bytes} {f : Field} (hid : id = 10) (htags : Meets .tags bs f)
    : Meets (.payload id) bs f
  | val {id : UInt8} {count : Nat} {bs : Bytes} {f : Field} (hval : Meets (.payload id) bs f)
    : Meets (.vals id (count + 1)) bs f
  | vals {id : UInt8} {count : Nat} {val bs : Bytes} {f : Field}
    (hval : Whole (.payload id) val) (hvals : Meets (.vals id count) bs f)
    : Meets (.vals id (count + 1)) (val ++ bs) f
  | tag {b : UInt8} {bs : Bytes} {f : Field} (hb : b ≠ 0) (htag : Meets .tag (b :: bs) f)
    : Meets .tags (b :: bs) f
  | tags {tag bs : Bytes} {f : Field} (htag : Whole .tag tag) (htags : Meets .tags bs f)
    : Meets .tags (tag ++ bs) f
  | name {id : UInt8} {len rest : Bytes} (h : len.length = 2)
    : Meets .tag (id :: (len ++ rest)) (.name (BigEndian.decode len))
  | payload {id : UInt8} {len name bs : Bytes} {f : Field} (h : len.length = 2)
    (hlen : BigEndian.decode len = name.length) (hpos : name.length < 2 ^ 15)
    (hpayload : Meets (.payload id) bs f)
    : Meets .tag (id :: (len ++ (name ++ bs))) f

/--
The fuel for `n` bytes.
-/
def need : Part → Nat → Nat
  | .tag, n => 2 * n + 1
  | .tags, n => 2 * n + 2
  | .payload _, n => 2 * n + 3
  | .vals _ _, n => 2 * n + 4

section Whole

variable {id : UInt8} {fuel : Nat} {bs : Bytes}

theorem width_pos {n : Nat} (h : width id = some n) : 0 < n := by
  unfold width at h
  iterate 6
    split at h
    . have := Option.some.inj h
      omega
  nomatch h

theorem Whole.length_pos {p : Part} (h : Whole p bs) (hp : ∀ id count, p ≠ .vals id count)
    : 0 < bs.length := by
  induction h with
  | fixed hid hlen =>
    have := width_pos hid
    omega
  | byteArray h hlen | string h hlen | intArray h hlen =>
    rw [List.length_append]
    omega
  | list h hvals ih => simp
  | compound htags ih =>
    apply ih
    nofun
  | noVals | vals hval hvals ih ih' => exact absurd rfl (hp _ _)
  | noTags => simp
  | tags htag htags ih ih' =>
    have := ih' nofun
    rw [List.length_append]
    omega
  | tag h hlen hpos hpayload ih => simp

theorem Whole.ne_zero (h : Whole .tag bs) : ∃ b bs', bs = b :: bs' ∧ b ≠ 0 := by
  generalize hp : Part.tag = p at h
  cases h with
  | tag h hlen hpos hpayload =>
    refine ⟨_, _, rfl, ?_⟩
    intro hzero
    subst hzero
    generalize hp : Part.payload 0 = p at hpayload
    cases hpayload with
    | fixed hid hlen =>
      rw [← Part.payload.inj hp] at hid
      nomatch hid
    | byteArray h hlen | string h hlen | intArray h hlen | list h hvals | compound htags =>
      exact absurd (Part.payload.inj hp) (by decide)
    | noVals | vals hval hvals | noTags | tags htag htags | tag h hlen hpos hpayload =>
      nomatch hp
  | _ => nomatch hp

theorem Whole.skip {p : Part} (h : Whole p bs) (hfuel : need p bs.length ≤ fuel)
    (hlt : bs.length < 2 ^ 31) (rest : Bytes)
    : skip p fuel (bs ++ rest) = .ok (cur rest) := by
  induction h generalizing fuel rest with
  | @fixed id n bs hid hlen =>
    cases fuel with
    | zero => nomatch hfuel
    | succ fuel =>
      rw [skip_fixed hid, if_neg (by rw [List.length_append]; omega), List.drop_left' hlen]
  | @byteArray len bs h hlen =>
    cases fuel with
    | zero => nomatch hfuel
    | succ fuel =>
      rw [skip_byteArray, List.append_assoc, readPayloadByteArray_append h hlen]
      rfl
  | @string len bs h hlen =>
    cases fuel with
    | zero => nomatch hfuel
    | succ fuel =>
      rw [skip_string, List.append_assoc, readPayloadString_append h hlen]
      rfl
  | @list id count bs h hvals ih =>
    simp only [need, List.length_cons, List.length_append] at hfuel hlt
    cases fuel with
    | zero => omega
    | succ fuel =>
      rw [List.cons_append, List.append_assoc, skip_list h rfl]
      apply ih
      . dsimp only [need]
        omega
      . omega
  | @compound bs htags ih =>
    cases fuel with
    | zero => nomatch hfuel
    | succ fuel =>
      rw [skip_compound]
      apply ih
      . dsimp only [need] at hfuel ⊢
        omega
      . exact hlt
  | @intArray len bs h hlen =>
    cases fuel with
    | zero => nomatch hfuel
    | succ fuel =>
      rw [List.length_append] at hlt
      obtain ⟨ints, hints⟩ := @exists_readInts (int32 (BigEndian.decode len)).toNat bs (by omega) rest
      have hwrap : wrap32 (int32 (BigEndian.decode len) * 4) = bs.length := by
        rw [hlen]
        exact wrap32_eq_self (by omega) (by omega)
      rw [skip_intArray, List.append_assoc, readPayloadIntArray_append h rfl hwrap hlen hints]
      rfl
  | noVals =>
    cases fuel with
    | zero => nomatch hfuel
    | succ fuel => rfl
  | @vals id count val bs hval hvals ih ih' =>
    have hpos := hval.length_pos nofun
    simp only [need, List.length_append] at hfuel hlt
    cases fuel with
    | zero => omega
    | succ fuel =>
      have hskip := @ih fuel (by dsimp only [need]; omega) (by omega) (bs ++ rest)
      rw [List.append_assoc, skip_vals_of_ok hskip]
      apply ih'
      . dsimp only [need]
        omega
      . omega
  | noTags =>
    cases fuel with
    | zero => nomatch hfuel
    | succ fuel => apply skip_tags_end
  | @tags tag bs htag htags ih ih' =>
    obtain ⟨b, tag', htag', hb⟩ := htag.ne_zero
    simp only [need, List.length_append] at hfuel hlt
    have hpos := htag.length_pos nofun
    cases fuel with
    | zero => omega
    | succ fuel =>
      have hskip := @ih fuel (by dsimp only [need]; omega) (by omega) (bs ++ rest)
      rw [htag', List.cons_append] at hskip
      rw [List.append_assoc, htag', List.cons_append, skip_tags_of_ok hb hskip]
      apply ih'
      . dsimp only [need]
        omega
      . omega
  | @tag id len name bs h hlen hpos hpayload ih =>
    simp only [need, List.length_cons, List.length_append] at hfuel hlt
    cases fuel with
    | zero => omega
    | succ fuel =>
      have hname := readName_append h hlen hpos (bs ++ rest)
      rw [List.cons_append, List.append_assoc, List.append_assoc, skip_tag_of_ok hname]
      apply ih
      . dsimp only [need]
        omega
      . omega

end Whole

/--
What is known of a part behind the reader's result for the bytes from its beginning on.
-/
def Settled (p : Part) (bs : Bytes) : Except NbtError NbtCursor → Prop
  | .ok s =>
    (∃ whole rest, bs = whole ++ rest ∧ s = cur rest ∧ Whole p whole) ∧ ∀ f, Meets p bs f → f.Ok
  | .error (.readError _) => ∀ f, Meets p bs f → f.Ok
  | .error (.fault _) => ∃ f, Meets p bs f ∧ ¬ f.Ok

section Settled

variable {fuel : Nat} {id : UInt8} {bs rest : Bytes}

theorem Whole.append_inj {p : Part} {bs' rest' : Bytes} (h : Whole p bs) (h' : Whole p bs')
    (heq : bs ++ rest = bs' ++ rest') (hlt : (bs ++ rest).length < 2 ^ 31)
    : rest = rest' := by
  have hlen := congrArg List.length heq
  rw [List.length_append] at hlt hlen
  rw [List.length_append] at hlen
  have hskip := h.skip (Nat.le_max_left _ (need p bs'.length)) (by omega) rest
  have hskip' := h'.skip (Nat.le_max_right (need p bs.length) _) (by omega) rest'
  rw [heq, hskip'] at hskip
  have := Except.ok.inj hskip
  unfold cur at this
  injection this with hdata
  exact hdata.symm

/--
What is settled by the part that remains.
-/
theorem Settled.append {p p' : Part} {done : Bytes} {r : Except NbtError NbtCursor}
    (hwhole : ∀ b, Whole p b → Whole p' (done ++ b))
    (hmeets : ∀ f, Meets p rest f → Meets p' (done ++ rest) f)
    (hinv : ∀ f, Meets p' (done ++ rest) f → f.Ok ∨ Meets p rest f) (h : Settled p rest r)
    : Settled p' (done ++ rest) r := by
  have hok : (∀ f, Meets p rest f → f.Ok) → ∀ f, Meets p' (done ++ rest) f → f.Ok := by
    intro h f hf
    cases hinv f hf with
    | inl hok => exact hok
    | inr hrest => exact h f hrest
  match r, h with
  | .ok _, ⟨⟨whole, rest', hrest, hs, hw⟩, h⟩ =>
    refine ⟨⟨done ++ whole, rest', ?_, hs, hwhole _ hw⟩, hok h⟩
    rw [hrest, List.append_assoc]
  | .error (.readError _), h => exact hok h
  | .error (.fault _), ⟨f, hf, hbad⟩ => exact ⟨f, hmeets f hf, hbad⟩

theorem settled_fixed {n : Nat} (hid : width id = some n)
    : Settled (.payload id) bs (skip (.payload id) (fuel + 1) bs) := by
  have hmeets : ∀ f, Meets (.payload id) bs f → f.Ok := by
    intro f hf
    cases hf with
    | byteArray h | intArray h | list h | compound h =>
      subst h
      nomatch hid
  rw [skip_fixed hid]
  split
  . exact hmeets
  . refine ⟨⟨bs.take n, bs.drop n, (List.take_append_drop n bs).symm, rfl, .fixed hid ?_⟩, hmeets⟩
    rw [List.length_take]
    omega

theorem settled_invalid (hid : width id = none) (h7 : id ≠ 7) (h8 : id ≠ 8) (h9 : id ≠ 9)
    (h10 : id ≠ 10) (h11 : id ≠ 11)
    : Settled (.payload id) bs (skip (.payload id) (fuel + 1) bs) := by
  rw [skip_invalid hid h7 h8 h9 h10 h11]
  intro f hf
  cases hf with
  | byteArray h => exact absurd h h7
  | intArray h => exact absurd h h11
  | list h => exact absurd h h9
  | compound h => exact absurd h h10

theorem Meets.of_seven {f : Field} (h : Meets (.payload 7) bs f)
    : ∃ len rest, bs = len ++ rest ∧ len.length = 4
        ∧ f = .byteArray (int32 (BigEndian.decode len)) := by
  cases h with
  | byteArray hid h => exact ⟨_, _, rfl, h, rfl⟩
  | intArray hid | list hid | compound hid => exact absurd hid (by decide)

theorem settled_byteArray : Settled (.payload 7) bs (skip (.payload 7) (fuel + 1) bs) := by
  rw [skip_byteArray]
  by_cases hshort : bs.length < 4
  . unfold readPayloadByteArray
    rw [readFixed_of_lt hshort]
    intro f hf
    obtain ⟨len, rest, hbs, hlen, _⟩ := hf.of_seven
    rw [hbs, List.length_append] at hshort
    omega
  obtain ⟨len, data, hbs, hlen⟩ := @exists_append_of_le 4 bs (by omega)
  subst hbs
  have hmeets : Meets (.payload 7) (len ++ data) _ := .byteArray rfl hlen
  have hfield : ∀ f, Meets (.payload 7) (len ++ data) f
      → f = .byteArray (int32 (BigEndian.decode len)) := by
    intro f hf
    obtain ⟨len', rest, hbs, hlen', hf⟩ := hf.of_seven
    rw [hf, (List.append_inj hbs (by omega)).left]
  generalize hn : int32 (BigEndian.decode len) = n at hmeets hfield
  by_cases hneg : n < 0
  . rw [readPayloadByteArray_of_neg hlen hn data hneg]
    refine ⟨_, hmeets, ?_⟩
    dsimp only [Field.Ok]
    omega
  have hok : ∀ f, Meets (.payload 7) (len ++ data) f → f.Ok := by
    intro f hf
    rw [hfield f hf, Field.Ok]
    omega
  by_cases hlt : data.length < n
  . rw [readPayloadByteArray_of_lt hlen hn hlt]
    exact hok
  obtain ⟨arr, rest, hdata, harr⟩ := @exists_append_of_le n.toNat data (by omega)
  have hn' : int32 (BigEndian.decode len) = arr.length := by omega
  subst hdata
  rw [readPayloadByteArray_append hlen hn']
  refine ⟨⟨len ++ arr, rest, ?_, rfl, .byteArray hlen hn'⟩, hok⟩
  rw [List.append_assoc]

theorem Meets.of_eight {f : Field} (h : Meets (.payload 8) bs f) : False := by
  cases h with
  | byteArray hid | intArray hid | list hid | compound hid => exact absurd hid (by decide)

theorem settled_string : Settled (.payload 8) bs (skip (.payload 8) (fuel + 1) bs) := by
  have hok : ∀ f, Meets (.payload 8) bs f → f.Ok := fun f hf => hf.of_eight.elim
  rw [skip_string]
  by_cases hshort : bs.length < 2
  . unfold readPayloadString
    rw [readFixed_of_lt hshort]
    exact hok
  obtain ⟨len, data, hbs, hlen⟩ := @exists_append_of_le 2 bs (by omega)
  subst hbs
  by_cases hlt : data.length < BigEndian.decode len
  . rw [readPayloadString_of_lt hlen rfl hlt]
    exact hok
  obtain ⟨str, rest, hdata, hstr⟩ := @exists_append_of_le (BigEndian.decode len) data (by omega)
  subst hdata
  rw [readPayloadString_append hlen hstr.symm]
  refine ⟨⟨len ++ str, rest, ?_, rfl, .string hlen hstr.symm⟩, hok⟩
  rw [List.append_assoc]

theorem Meets.of_eleven {f : Field} (h : Meets (.payload 11) bs f)
    : ∃ len rest, bs = len ++ rest ∧ len.length = 4
        ∧ f = .intArray (int32 (BigEndian.decode len)) rest.length := by
  cases h with
  | intArray hid h => exact ⟨_, _, rfl, h, rfl⟩
  | byteArray hid | list hid | compound hid => exact absurd hid (by decide)

theorem settled_intArray (hbs : bs.length < 2 ^ 31)
    : Settled (.payload 11) bs (skip (.payload 11) (fuel + 1) bs) := by
  rw [skip_intArray]
  by_cases hshort : bs.length < 4
  . unfold readPayloadIntArray
    rw [readFixed_of_lt hshort]
    intro f hf
    obtain ⟨len, rest, hbs, hlen, _⟩ := hf.of_eleven
    rw [hbs, List.length_append] at hshort
    omega
  obtain ⟨len, data, hdata, hlen⟩ := @exists_append_of_le 4 bs (by omega)
  subst hdata
  rw [List.length_append] at hbs
  have hmeets : Meets (.payload 11) (len ++ data) _ := .intArray rfl hlen
  have hfield : ∀ f, Meets (.payload 11) (len ++ data) f
      → f = .intArray (int32 (BigEndian.decode len)) data.length := by
    intro f hf
    obtain ⟨len', rest, hbs, hlen', hf⟩ := hf.of_eleven
    obtain ⟨hlen, hrest⟩ := List.append_inj hbs (by omega)
    rw [hf, hlen, hrest]
  have hmax : int32 (BigEndian.decode len) < 2 ^ 31 := wrap32_lt _
  generalize hn : int32 (BigEndian.decode len) = n at hmeets hfield hmax
  by_cases hlt : data.length < wrap32 (n * 4)
  . rw [readPayloadIntArray_of_lt hlen hn hlt]
    intro f hf
    rw [hfield f hf]
    exact Or.inr hlt
  by_cases hneg : n < 0
  . rw [readPayloadIntArray_of_neg hlen hn (by omega) hneg]
    refine ⟨_, hmeets, ?_⟩
    dsimp only [Field.Ok]
    omega
  by_cases hlarge : 2 ^ 29 ≤ n
  . rw [readPayloadIntArray_of_wrapped hlen hn (by omega) (by omega) (by omega)]
    refine ⟨_, hmeets, ?_⟩
    dsimp only [Field.Ok]
    omega
  have hwrap : wrap32 (n * 4) = n * 4 := wrap32_eq_self (by omega) (by omega)
  obtain ⟨arr, rest, hdata, harr⟩ := @exists_append_of_le (4 * n.toNat) data (by omega)
  subst hdata
  obtain ⟨ints, hints⟩ := exists_readInts harr rest
  have hbytes : n * 4 = arr.length := by omega
  rw [readPayloadIntArray_append hlen hn (by omega) hbytes hints]
  refine ⟨⟨len ++ arr, rest, ?_, rfl, .intArray hlen ?_⟩, ?_⟩
  . rw [List.append_assoc]
  . rw [hn, hbytes]
  . intro f hf
    rw [hfield f hf]
    dsimp only [Field.Ok]
    omega

theorem Meets.of_nine {f : Field} (h : Meets (.payload 9) bs f)
    : ∃ eid count rest, bs = eid :: (count ++ rest) ∧ count.length = 4
        ∧ Meets (.vals eid (int32 (BigEndian.decode count)).toNat) rest f := by
  cases h with
  | list hid h hvals => exact ⟨_, _, _, rfl, h, hvals⟩
  | byteArray hid | intArray hid | compound hid => exact absurd hid (by decide)

theorem settled_list
    (ih : ∀ eid count rest, rest.length + 5 = bs.length
      → Settled (.vals eid count) rest (skip (.vals eid count) fuel rest))
    : Settled (.payload 9) bs (skip (.payload 9) (fuel + 1) bs) := by
  by_cases hshort : bs.length < 5
  . rw [skip_list_of_lt hshort]
    intro f hf
    obtain ⟨eid, count, rest, hbs, hcount, _⟩ := hf.of_nine
    rw [hbs, List.length_cons, List.length_append] at hshort
    omega
  cases bs with
  | nil => exact absurd (Nat.zero_lt_succ 4) hshort
  | cons eid bs =>
    rw [List.length_cons] at hshort
    obtain ⟨count, rest, hbs, hcount⟩ := @exists_append_of_le 4 bs (by omega)
    subst hbs
    have hrest := ih eid (int32 (BigEndian.decode count)).toNat rest
      (by rw [List.length_cons, List.length_append]; omega)
    rw [skip_list hcount rfl]
    apply @Settled.append _ _ _ (eid :: count) _ _ _ _ hrest
    . intro b hb
      exact .list hcount hb
    . intro f hf
      exact .list rfl hcount hf
    . intro f hf
      obtain ⟨eid', count', rest', heq, hcount', hf⟩ := Meets.of_nine hf
      injection heq with hid htail
      obtain ⟨hcount, hrest⟩ := List.append_inj htail (by omega)
      rw [hid, hcount, hrest]
      exact Or.inr hf

theorem settled_compound (ih : Settled .tags bs (skip .tags fuel bs))
    : Settled (.payload 10) bs (skip (.payload 10) (fuel + 1) bs) := by
  rw [skip_compound]
  apply @Settled.append _ _ _ [] _ _ _ _ ih
  . intro b hb
    exact .compound hb
  . intro f hf
    exact .compound rfl hf
  . intro f hf
    cases hf with
    | compound hid htags => exact Or.inr htags
    | byteArray hid | intArray hid | list hid => exact absurd hid (by decide)

theorem not_whole_of_error {p : Part} {e : NbtError} (h : skip p fuel bs = .error e)
    (hfuel : need p bs.length ≤ fuel) (hlt : bs.length < 2 ^ 31)
    : ∀ whole rest, bs = whole ++ rest → ¬ Whole p whole := by
  intro whole rest hbs hwhole
  have hlen : whole.length ≤ bs.length := by
    rw [hbs, List.length_append]
    omega
  have hneed : need p whole.length ≤ need p bs.length := by
    cases p with
    | payload | vals | tags | tag =>
      dsimp only [need]
      omega
  rw [hbs, hwhole.skip (by omega) (by omega)] at h
  nomatch h

theorem Meets.of_vals {count : Nat} {f : Field} (h : Meets (.vals id (count + 1)) bs f)
    : Meets (.payload id) bs f
        ∨ ∃ val rest, bs = val ++ rest ∧ Whole (.payload id) val ∧ Meets (.vals id count) rest f := by
  cases h with
  | val hval => exact Or.inl hval
  | vals hval hvals => exact Or.inr ⟨_, _, rfl, hval, hvals⟩

theorem settled_vals {count : Nat} (hfuel : need (.vals id (count + 1)) bs.length ≤ fuel + 1)
    (hlt : bs.length < 2 ^ 31) (ih : Settled (.payload id) bs (skip (.payload id) fuel bs))
    (ih' : ∀ rest, rest.length < bs.length
      → Settled (.vals id count) rest (skip (.vals id count) fuel rest))
    : Settled (.vals id (count + 1)) bs (skip (.vals id (count + 1)) (fuel + 1) bs) := by
  have hneed : need (.payload id) bs.length ≤ fuel := by
    dsimp only [need] at hfuel ⊢
    omega
  cases hskip : skip (.payload id) fuel bs with
  | error e =>
    have hwhole := not_whole_of_error hskip hneed hlt
    rw [hskip] at ih
    rw [skip_vals_of_error hskip]
    cases e with
    | readError what =>
      intro f hf
      cases hf.of_vals with
      | inl hval => exact ih f hval
      | inr hvals =>
        obtain ⟨val, rest, hbs, hval, _⟩ := hvals
        exact absurd hval (hwhole val rest hbs)
    | fault fault =>
      obtain ⟨f, hf, hbad⟩ := ih
      exact ⟨f, .val hf, hbad⟩
  | ok s =>
    rw [hskip] at ih
    obtain ⟨⟨val, rest, hbs, hs, hval⟩, hok⟩ := ih
    have hpos := hval.length_pos nofun
    rw [hs] at hskip
    rw [skip_vals_of_ok hskip]
    subst hbs
    apply Settled.append _ _ _ (ih' rest (by rw [List.length_append]; omega))
    . intro b hb
      exact .vals hval hb
    . intro f hf
      exact .vals hval hf
    . intro f hf
      cases hf.of_vals with
      | inl hval => exact Or.inl (hok f hval)
      | inr hvals =>
        obtain ⟨val', rest', hbs, hval', hf⟩ := hvals
        rw [hval.append_inj hval' hbs hlt]
        exact Or.inr hf

theorem Meets.of_tags {b : UInt8} {f : Field} (h : Meets .tags (b :: bs) f)
    : b ≠ 0 ∧ (Meets .tag (b :: bs) f
        ∨ ∃ tag rest, b :: bs = tag ++ rest ∧ Whole .tag tag ∧ Meets .tags rest f) := by
  generalize hbs : b :: bs = bytes at h
  cases h with
  | tag hb htag =>
    injection hbs with hhead
    subst hhead
    exact ⟨hb, Or.inl htag⟩
  | tags htag htags =>
    obtain ⟨b', tag', htag', hb⟩ := htag.ne_zero
    rw [htag', List.cons_append] at hbs
    injection hbs with hhead
    subst hhead
    exact ⟨hb, Or.inr ⟨_, _, rfl, htag, htags⟩⟩

theorem Meets.of_tags_nil {f : Field} (h : Meets .tags [] f) : False := by
  generalize hbs : ([] : Bytes) = bytes at h
  cases h with
  | tag hb htag => nomatch hbs
  | tags htag htags =>
    obtain ⟨b', tag', htag', hb⟩ := htag.ne_zero
    rw [htag'] at hbs
    nomatch hbs

theorem settled_tags (hfuel : need .tags bs.length ≤ fuel + 1) (hlt : bs.length < 2 ^ 31)
    (ih : Settled .tag bs (skip .tag fuel bs))
    (ih' : ∀ rest, rest.length < bs.length → Settled .tags rest (skip .tags fuel rest))
    : Settled .tags bs (skip .tags (fuel + 1) bs) := by
  have hneed : need .tag bs.length ≤ fuel := by
    dsimp only [need] at hfuel ⊢
    omega
  cases bs with
  | nil =>
    rw [skip_tags_nil]
    exact fun f hf => hf.of_tags_nil.elim
  | cons b bs =>
    by_cases hb : b = 0
    . subst hb
      rw [skip_tags_end]
      exact ⟨⟨[0], bs, rfl, rfl, .noTags⟩, fun f hf => absurd rfl hf.of_tags.left⟩
    cases hskip : skip .tag fuel (b :: bs) with
    | error e =>
      have hwhole := not_whole_of_error hskip hneed hlt
      rw [hskip] at ih
      rw [skip_tags_of_error hb hskip]
      cases e with
      | readError what =>
        intro f hf
        cases hf.of_tags.right with
        | inl htag => exact ih f htag
        | inr htags =>
          obtain ⟨tag, rest, hbs, htag, _⟩ := htags
          exact absurd htag (hwhole tag rest hbs)
      | fault fault =>
        obtain ⟨f, hf, hbad⟩ := ih
        exact ⟨f, .tag hb hf, hbad⟩
    | ok s =>
      rw [hskip] at ih
      obtain ⟨⟨tag, rest, hbs, hs, htag⟩, hok⟩ := ih
      have hpos := htag.length_pos nofun
      rw [hs] at hskip
      rw [skip_tags_of_ok hb hskip, hbs]
      rw [hbs] at hok hlt ih'
      apply Settled.append _ _ _ (ih' rest (by rw [List.length_append]; omega))
      . intro b hb
        exact .tags htag hb
      . intro f hf
        exact .tags htag hf
      . intro f hf
        rw [← hbs] at hf
        cases hf.of_tags.right with
        | inl hf => exact Or.inl (hok f (hbs ▸ hf))
        | inr htags =>
          obtain ⟨tag', rest', heq, htag', hf⟩ := htags
          rw [htag.append_inj htag' (hbs.symm.trans heq) hlt]
          exact Or.inr hf

theorem Meets.of_tag {f : Field} (h : Meets .tag (id :: bs) f)
    : (∃ len rest, bs = len ++ rest ∧ len.length = 2 ∧ f = .name (BigEndian.decode len))
        ∨ ∃ len name rest, bs = len ++ (name ++ rest) ∧ len.length = 2
          ∧ BigEndian.decode len = name.length ∧ name.length < 2 ^ 15
          ∧ Meets (.payload id) rest f := by
  generalize hbs : id :: bs = bytes at h
  cases h with
  | name h =>
    injection hbs with hid hbs
    exact Or.inl ⟨_, _, hbs, h, rfl⟩
  | payload h hlen hpos hpayload =>
    injection hbs with hid hbs
    subst hid
    exact Or.inr ⟨_, _, _, hbs, h, hlen, hpos, hpayload⟩

theorem settled_tag
    (ih : ∀ rest, rest.length + 3 ≤ bs.length
      → ∀ id, Settled (.payload id) rest (skip (.payload id) fuel rest))
    : Settled .tag bs (skip .tag (fuel + 1) bs) := by
  cases bs with
  | nil =>
    rw [skip_tag_nil]
    intro f hf
    nomatch hf
  | cons id bs =>
    by_cases hshort : bs.length < 2
    . have hname : readName (cur bs) = .error unexpectedEof := by
        unfold readName
        rw [readFixed_of_lt hshort]
        rfl
      rw [skip_tag_of_error hname]
      intro f hf
      cases hf.of_tag with
      | inl hname =>
        obtain ⟨len, rest, hbs, hlen, _⟩ := hname
        rw [hbs, List.length_append] at hshort
        omega
      | inr hpayload =>
        obtain ⟨len, name, rest, hbs, hlen, _⟩ := hpayload
        rw [hbs, List.length_append] at hshort
        omega
    obtain ⟨len, data, hbs, hlen⟩ := @exists_append_of_le 2 bs (by omega)
    subst hbs
    have hmax : BigEndian.decode len < 256 ^ 2 := hlen ▸ BigEndian.decode_lt len
    have hmeets : Meets .tag (id :: (len ++ data)) _ := .name hlen
    by_cases hneg : 2 ^ 15 ≤ BigEndian.decode len
    . rw [skip_tag_of_error (readName_of_neg hlen rfl data hneg (by omega))]
      refine ⟨_, hmeets, ?_⟩
      dsimp only [Field.Ok]
      omega
    have hfield : ∀ f, Meets .tag (id :: (len ++ data)) f → f.Ok
        ∨ ∃ name rest, data = name ++ rest ∧ BigEndian.decode len = name.length
          ∧ Meets (.payload id) rest f := by
      intro f hf
      cases hf.of_tag with
      | inl hname =>
        obtain ⟨len', rest, hbs, hlen', hf⟩ := hname
        rw [hf, ← (List.append_inj hbs (by omega)).left, Field.Ok]
        omega
      | inr hpayload =>
        obtain ⟨len', name, rest, hbs, hlen', hname, _, hf⟩ := hpayload
        obtain ⟨hlen, hdata⟩ := List.append_inj hbs (by omega)
        exact Or.inr ⟨name, rest, hdata, hlen ▸ hname, hf⟩
    by_cases hlt : data.length < BigEndian.decode len
    . rw [skip_tag_of_error (readName_of_lt hlen rfl (by omega) hlt)]
      intro f hf
      cases hfield f hf with
      | inl hok => exact hok
      | inr hpayload =>
        obtain ⟨name, rest, hdata, hname, _⟩ := hpayload
        rw [hdata, List.length_append] at hlt
        omega
    obtain ⟨name, rest, hdata, hname⟩ := @exists_append_of_le (BigEndian.decode len) data (by omega)
    subst hdata
    rw [skip_tag_of_ok (readName_append hlen hname.symm (by omega) rest)]
    have happend : id :: (len ++ (name ++ rest)) = (id :: (len ++ name)) ++ rest := by simp
    rw [happend] at hfield ⊢
    have hrest := ih rest (by simp only [List.length_cons, List.length_append]; omega) id
    apply Settled.append _ _ _ hrest
    . intro b hb
      rw [List.cons_append, List.append_assoc]
      exact .tag hlen hname.symm (by omega) hb
    . intro f hf
      rw [List.cons_append, List.append_assoc]
      exact .payload hlen hname.symm (by omega) hf
    . intro f hf
      cases hfield f hf with
      | inl hok => exact Or.inl hok
      | inr hpayload =>
        obtain ⟨name', rest', hdata, hname', hf⟩ := hpayload
        rw [(List.append_inj hdata (by omega)).right]
        exact Or.inr hf

theorem settled {p : Part} (hfuel : need p bs.length ≤ fuel) (hlt : bs.length < 2 ^ 31)
    : Settled p bs (skip p fuel bs) := by
  induction fuel generalizing p bs with
  | zero =>
    cases p with
    | payload | vals | tags | tag => nomatch hfuel
  | succ fuel ih =>
    cases p with
    | payload id =>
      dsimp only [need] at hfuel
      by_cases h7 : id = 7
      . subst h7
        apply settled_byteArray
      by_cases h8 : id = 8
      . subst h8
        apply settled_string
      by_cases h9 : id = 9
      . subst h9
        apply settled_list
        intro eid count rest hrest
        apply ih
        . dsimp only [need]
          omega
        . omega
      by_cases h10 : id = 10
      . subst h10
        apply settled_compound
        apply ih
        . dsimp only [need]
          omega
        . exact hlt
      by_cases h11 : id = 11
      . subst h11
        exact settled_intArray hlt
      cases hid : width id with
      | none => exact settled_invalid hid h7 h8 h9 h10 h11
      | some n => exact settled_fixed hid
    | vals id count =>
      cases count with
      | zero =>
        refine ⟨⟨[], bs, rfl, rfl, .noVals⟩, ?_⟩
        intro f hf
        nomatch hf
      | succ count =>
        apply settled_vals hfuel hlt
        . apply ih
          . dsimp only [need] at hfuel ⊢
            omega
          . exact hlt
        . intro rest hrest
          apply ih
          . dsimp only [need] at hfuel ⊢
            omega
          . omega
    | tags =>
      apply settled_tags hfuel hlt
      . apply ih
        . dsimp only [need] at hfuel ⊢
          omega
        . exact hlt
      . intro rest hrest
        apply ih
        . dsimp only [need] at hfuel ⊢
          omega
        . omega
    | tag =>
      apply settled_tag
      intro rest hrest id
      apply ih
      . dsimp only [need] at hfuel ⊢
        omega
      . omega

end Settled

/--
How the reader ends, by the fields it comes to.
-/
theorem readRaw_settled {data : Bytes} (h : data.length < 2 ^ 31)
    : ((∃ fault, readRaw data = .error (.fault fault)) ∧ ∃ f, Meets .tag data f ∧ ¬ f.Ok)
        ∨ ((∀ fault, readRaw data ≠ .error (.fault fault)) ∧ ∀ f, Meets .tag data f → f.Ok) := by
  have hsettled := @settled (2 * data.length + 1) data .tag (Nat.le_refl _) h
  rw [readRaw_eq]
  rw [skip] at hsettled
  generalize readTag (2 * data.length + 1) (cur data) = r at hsettled ⊢
  rcases r with (what | fault) | ⟨_ | ⟨name, t⟩, s⟩
  . exact .inr ⟨by simp, hsettled⟩
  . exact .inl ⟨⟨fault, rfl⟩, hsettled⟩
  . exact .inr ⟨by simp, hsettled⟩
  . refine .inr ⟨?_, hsettled.2⟩
    intro fault
    cases t <;> simp

/--
The reader is safe where no length that it comes to is negative, and no size wraps around.
-/
theorem readRaw_ne_fault_iff {data : Bytes} (h : data.length < 2 ^ 31)
    : (∀ fault, readRaw data ≠ .error (.fault fault))
        ↔
      ∀ f, Meets .tag data f → f.Ok := by
  cases readRaw_settled h with
  | inl hbad =>
    obtain ⟨⟨fault, hfault⟩, f, hf, hnot⟩ := hbad
    exact ⟨fun hne => absurd hfault (hne fault), fun hok => absurd (hok f hf) hnot⟩
  | inr hgood => exact ⟨fun _ => hgood.right, fun _ => hgood.left⟩

/--
A compound with two arrays, a list of two numbers and a string.
-/
def sampleData : Bytes :=
  [10, 0, 0]
    ++ ([7, 0, 1, 97, 0, 0, 0, 2, 5, 6] : Bytes)
    ++ ([11, 0, 1, 98, 0, 0, 0, 1, 0, 0, 0, 9] : Bytes)
    ++ ([9, 0, 1, 99, 3, 0, 0, 0, 2, 0, 0, 0, 1, 0, 0, 0, 2] : Bytes)
    ++ ([8, 0, 1, 100, 0, 2, 104, 105] : Bytes)
    ++ ([0] : Bytes)

theorem readRaw_ne_fault_iff_sample
    : (∀ fault, readRaw sampleData ≠ .error (.fault fault))
        ↔
      ∀ f, Meets .tag sampleData f → f.Ok :=
  readRaw_ne_fault_iff (by decide)

/--
A name of 65535 bytes, which the reader takes for one of -1.
-/
theorem readRaw_negative_name
    : ¬ ∀ data : Bytes, data.length < 2 ^ 31 → ∀ fault, readRaw data ≠ .error (.fault fault) := by
  intro h
  exact h [10, 0xFF, 0xFF] (by decide) .wrappedSize rfl

end NbtReader

end HCraft
