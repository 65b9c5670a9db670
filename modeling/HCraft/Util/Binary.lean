import HCraft.Lib.BigEndian
import HCraft.Lib.Leb128

/-!
This module contains the readers and writers of `util/binary.cpp`. A pointer is the list of the
bytes from it to the end of its block, so `none` stands for a read past that end.
-/

namespace HCraft

abbrev Bytes := List UInt8

namespace Bin

/--
The value an `int` holds after wrapping around to 32 bits.
-/
def wrap32 (n : Int) : Int :=
  (n + 2 ^ 31) % 2 ^ 32 - 2 ^ 31

/--
The `int` with the bits of `n`.
-/
def int32 (n : Nat) : Int :=
  wrap32 n

/--
The value of an `int` converted to `unsigned int`.
-/
def unsigned32 (n : Int) : Nat :=
  (n % 2 ^ 32).toNat

def gotVarint (arr : Bytes) : Int :=
  match arr.findIdx? (fun b => b &&& 0x80 = 0) with
  | some li => if li > 5 then -1 else 1
  | none => 0

/--
Returns the number and `olen`, which five continuation bytes leave unset.
-/
def readVarint (arr : Bytes) : Option (Int × Option Nat) :=
  go 5 arr 0 0
where
  go : Nat → Bytes → Nat → Nat → Option (Int × Option Nat)
    | 0, _, _, n => some (int32 n, none)
    | _ + 1, [], _, _ => none
    | fuel + 1, b :: arr, i, n =>
      let n : Nat := n ||| (b &&& 0x7F).toNat <<< (i * 7) % 2 ^ 32
      if b &&& 0x80 = 0 then
        some (int32 n, some (i + 1))
      else
        go fuel arr (i + 1) n

/--
The number is the bit pattern of a `long long`.
-/
def readVarlong (arr : Bytes) : Option (Nat × Option Nat) :=
  go 10 arr 0 0
where
  go : Nat → Bytes → Nat → Nat → Option (Nat × Option Nat)
    | 0, _, _, n => some (n, none)
    | _ + 1, [], _, _ => none
    | fuel + 1, b :: arr, i, n =>
      let n : Nat := n ||| (b &&& 0x7F).toNat <<< (i * 7) % 2 ^ 64
      if b &&& 0x80 = 0 then
        some (n, some (i + 1))
      else
        go fuel arr (i + 1) n

def writeVarint (val : Nat) : Bytes :=
  if val = 0 then [0] else go val
where
  go (val : Nat) : Bytes :=
    if h : val = 0 then
      []
    else
      let p := UInt8.ofNat (val &&& 0x7F)
      let val' := val >>> 7
      (if val' ≠ 0 then p ||| 0x80 else p) :: go val'
  termination_by val
  decreasing_by
    rw [Nat.shiftRight_eq_div_pow]
    omega

/--
The loop of `write_varint`, over more bits.
-/
def writeVarlong (val : Nat) : Bytes :=
  writeVarint val

/--
The loop over a negative number does not end: the shifts stop at -1.
-/
def varintSize (num : Int) : Option Nat :=
  if num = 0 then some 1 else go 5 num 0
where
  go : Nat → Int → Nat → Option Nat
    | fuel, num, s =>
      if num = 0 then
        some s
      else
        match fuel with
        | 0 => none -- five shifts leave 0 or -1 of an `int`
        | fuel + 1 => go fuel (num >>> (7 : Nat)) (s + 1)

def readShortBe : Bytes → Option Nat
  | b₀ :: b₁ :: _ => some (b₀.toNat <<< 8 ||| b₁.toNat)
  | _ => none

def readIntBe : Bytes → Option Int
  | b₀ :: b₁ :: b₂ :: b₃ :: _ =>
    some (int32 (b₀.toNat <<< 24 ||| b₁.toNat <<< 16 ||| b₂.toNat <<< 8 ||| b₃.toNat))
  | _ => none

def writeShortBe (val : Nat) : Bytes :=
  [UInt8.ofNat (val >>> 8), UInt8.ofNat (val &&& 0xFF)]

def writeIntBe (val : Nat) : Bytes :=
  [UInt8.ofNat (val >>> 24), UInt8.ofNat (val >>> 16 &&& 0xFF), UInt8.ofNat (val >>> 8 &&& 0xFF),
    UInt8.ofNat (val &&& 0xFF)]

def readLongBe : Bytes → Option Nat
  | b₀ :: b₁ :: b₂ :: b₃ :: b₄ :: b₅ :: b₆ :: b₇ :: _ =>
    some (b₀.toNat <<< 56 ||| b₁.toNat <<< 48 ||| b₂.toNat <<< 40 ||| b₃.toNat <<< 32
      ||| b₄.toNat <<< 24 ||| b₅.toNat <<< 16 ||| b₆.toNat <<< 8 ||| b₇.toNat)
  | _ => none

def writeLongBe (val : Nat) : Bytes :=
  [UInt8.ofNat (val >>> 56), UInt8.ofNat (val >>> 48 &&& 0xFF), UInt8.ofNat (val >>> 40 &&& 0xFF),
    UInt8.ofNat (val >>> 32 &&& 0xFF), UInt8.ofNat (val >>> 24 &&& 0xFF),
    UInt8.ofNat (val >>> 16 &&& 0xFF), UInt8.ofNat (val >>> 8 &&& 0xFF), UInt8.ofNat (val &&& 0xFF)]

/--
The number of leading ones; after eight shifts no bit of the byte is left.
-/
def leadingOnes (b : UInt8) : Nat :=
  go 8 b.toNat
where
  go : Nat → Nat → Nat
    | 0, _ => 0
    | fuel + 1, f => if f &&& 0x80 = 0 then 0 else 1 + go fuel (f <<< 1)

/--
The characters that end up in `out`, `some none` if the function returns `false`, and what goes to
`olen`. Of a character of several bytes only the first one is copied, and the others come next.
-/
def readMcString (arr : Bytes) (outLen : Nat) : Option (Option Bytes × Int) := do
  let (len, vl) ← readVarint arr
  let vl := vl.getD 0
  let out ← go (arr.drop vl) len.toNat (outLen - 1)
  return (out, wrap32 (len + vl))
where
  go : Bytes → Nat → Nat → Option (Option Bytes)
    | _, 0, _ => some (some [])
    | [], _ + 1, _ => none
    | f :: ptr, n + 1, room =>
      let bc := leadingOnes f
      if bc = 1 ∨ bc > 6 then
        some none
      else
        match room with
        | 0 => some none
        | room + 1 => (go ptr (n - (bc - 1)) room).map (·.map (f :: ·))

theorem wrap32_eq_self {n : Int} (hlo : -2 ^ 31 ≤ n) (hhi : n < 2 ^ 31) : wrap32 n = n := by
  unfold wrap32
  omega

theorem wrap32_lt (n : Int) : wrap32 n < 2 ^ 31 := by
  unfold wrap32
  omega

theorem le_wrap32 (n : Int) : -2 ^ 31 ≤ wrap32 n := by
  unfold wrap32
  omega

theorem int32_congr {a b : Nat} (h : a % 2 ^ 32 = b % 2 ^ 32) : int32 a = int32 b := by
  unfold int32 wrap32
  omega

theorem int32_eq_self {n : Nat} (h : n < 2 ^ 31) : int32 n = n := by
  unfold int32 wrap32
  omega

theorem int32_nonneg_iff {n : Nat} (h : n < 2 ^ 32) : 0 ≤ int32 n ↔ n < 2 ^ 31 := by
  unfold int32 wrap32
  omega

theorem unsigned32_natCast {n : Nat} (h : n < 2 ^ 32) : unsigned32 n = n := by
  unfold unsigned32
  omega

theorem unsigned32_int32 {n : Nat} (h : n < 2 ^ 32) : unsigned32 (int32 n) = n := by
  unfold unsigned32 int32 wrap32
  omega

theorem unsigned32_lt (n : Int) : unsigned32 n < 2 ^ 32 := by
  unfold unsigned32
  omega

theorem int32_unsigned32 {n : Int} (hlo : -2 ^ 31 ≤ n) (hhi : n < 2 ^ 31)
    : int32 (unsigned32 n) = n := by
  unfold unsigned32 int32 wrap32
  omega

theorem shiftLeft_or_eq_add {a b k : Nat} (h : b < 2 ^ k) : a <<< k ||| b = a * 2 ^ k + b := by
  rw [Nat.shiftLeft_eq, Nat.mul_comm, ← Nat.two_pow_add_eq_or_of_lt h]

section Varint

theorem gotVarint_of_terminated {bs : Bytes} (h : Leb128.Terminated bs) (rest : Bytes)
    : gotVarint (bs ++ rest) = if bs.length > 6 then -1 else 1 := by
  have hidx := h.findIdx? rest
  have := h.length_pos
  simp only [Leb128.more, ne_eq, decide_not, Bool.not_not] at hidx
  simp only [gotVarint, hidx]
  congr 1
  simp only [eq_iff_iff]
  omega

theorem gotVarint_of_more {arr : Bytes} (h : ∀ b ∈ arr, Leb128.more b = true)
    : gotVarint arr = 0 := by
  have hidx := Leb128.findIdx?_of_more h
  simp only [Leb128.more, ne_eq, decide_not, Bool.not_not] at hidx
  simp only [gotVarint, hidx]

theorem or_payload_eq_add_of_lt {n i w : Nat} (b : UInt8) (h : n < 128 ^ i) (hi : i * 7 < w)
    : n ||| (b &&& 0x7F).toNat <<< (i * 7) % 2 ^ w
        =
      n + (b.toNat % 128 * 128 ^ i) % 2 ^ w := by
  have hpow : 2 ^ (i * 7) = 128 ^ i := by
    rw [Nat.mul_comm, Nat.pow_mul]
  have hsplit : 2 ^ w = 2 ^ (i * 7) * 2 ^ (w - i * 7) := by
    rw [← Nat.pow_add]
    congr 1
    omega
  rw [Leb128.toNat_and_payload, Nat.shiftLeft_eq, ← hpow, hsplit, Nat.mul_comm (b.toNat % 128),
    Nat.mul_mod_mul_left]
  rw [Nat.or_comm, ← Nat.two_pow_add_eq_or_of_lt (by omega), Nat.add_comm]

theorem or_payload_eq_add {n i : Nat} (b : UInt8) (h : n < 128 ^ i) (hi : i < 5)
    : n ||| (b &&& 0x7F).toNat <<< (i * 7) % 2 ^ 32
        =
      n + (b.toNat % 128 * 128 ^ i) % 2 ^ 32 :=
  or_payload_eq_add_of_lt b h (by omega)

theorem readVarint.go_of_terminated {bs : Bytes} (h : Leb128.Terminated bs) (rest : Bytes)
    {fuel i n : Nat} (hn : n < 128 ^ i) (hfuel : fuel + i = 5) (hlen : bs.length ≤ fuel)
    : go fuel (bs ++ rest) i n
        =
      some (int32 (n + 128 ^ i * Leb128.value bs), some (i + bs.length)) := by
  induction bs generalizing fuel i n with
  | nil => exact h.elim
  | cons b bs ih =>
    cases fuel with
    | zero => simp at hlen
    | succ fuel =>
      rw [List.cons_append, go]
      simp only [or_payload_eq_add b hn (by omega)]
      cases hb : Leb128.more b with
      | false =>
        have hnil : bs = [] := by simpa [Leb128.Terminated, hb] using h
        have hzero : b &&& 0x80 = 0 := by simpa [Leb128.more] using hb
        subst hnil
        have : int32 (n + b.toNat % 128 * 128 ^ i % 2 ^ 32)
            = int32 (n + b.toNat % 128 * 128 ^ i) := by
          apply int32_congr
          omega
        rw [if_pos hzero, this, Leb128.value, Leb128.value, Nat.mul_zero, Nat.add_zero,
          Nat.mul_comm (128 ^ i)]
        simp
      | true =>
        have htail : Leb128.Terminated bs := by simpa [Leb128.Terminated, hb] using h
        have hnz : ¬ (b &&& 0x80 = 0) := by simpa [Leb128.more] using hb
        -- only the fifth group can leave the 32 bits, and that one ends the number
        have hi : i ≤ 3 := by
          have := htail.length_pos
          simp only [List.length_cons] at hlen
          omega
        have hpow : 128 ^ i ≤ 128 ^ 3 := Nat.pow_le_pow_right (by omega) hi
        have hfit : b.toNat % 128 * 128 ^ i ≤ 127 * 128 ^ i := Nat.mul_le_mul_right _ (by omega)
        rw [if_neg hnz, Nat.mod_eq_of_lt (by omega)]
        rw [ih htail (by rw [Nat.pow_succ]; omega) (by omega) (by simpa using hlen)]
        have hval : n + b.toNat % 128 * 128 ^ i + 128 ^ (i + 1) * Leb128.value bs
            = n + 128 ^ i * Leb128.value (b :: bs) := by
          rw [Leb128.value, Nat.pow_succ]
          ring
        have hlen : i + 1 + bs.length = i + (b :: bs).length := by
          rw [List.length_cons]
          omega
        rw [hval, hlen]

theorem readVarint_of_terminated {bs : Bytes} (h : Leb128.Terminated bs) (rest : Bytes)
    (hlen : bs.length ≤ 5)
    : readVarint (bs ++ rest) = some (int32 (Leb128.value bs), some bs.length) := by
  unfold readVarint
  rw [readVarint.go_of_terminated h rest (by simp) rfl hlen]
  simp

theorem readVarint.go_of_more {arr : Bytes} (h : ∀ b ∈ arr, Leb128.more b = true) {fuel i n : Nat}
    (hlen : arr.length < fuel) : go fuel arr i n = none := by
  induction arr generalizing fuel i n with
  | nil =>
    cases fuel with
    | zero => simp at hlen
    | succ fuel => rfl
  | cons b arr ih =>
    cases fuel with
    | zero => simp at hlen
    | succ fuel =>
      have hb : ¬ (b &&& 0x80 = 0) := by simpa [Leb128.more] using h b (by simp)
      rw [go]
      simp only [hb, ↓reduceIte]
      apply ih
      . intro x hx
        exact h x (by simp [hx])
      . simpa using hlen

theorem readVarint_of_more {arr : Bytes} (h : ∀ b ∈ arr, Leb128.more b = true)
    (hlen : arr.length < 5) : readVarint arr = none :=
  readVarint.go_of_more h hlen

theorem readVarint.go_of_more_append {bs : Bytes} (h : ∀ b ∈ bs, Leb128.more b = true)
    (rest : Bytes) {fuel i n : Nat} (hn : n < 128 ^ i) (hi : i + bs.length ≤ 4)
    : go (fuel + bs.length) (bs ++ rest) i n
        =
      go fuel rest (i + bs.length) (n + 128 ^ i * Leb128.value bs) := by
  induction bs generalizing i n with
  | nil => simp [Leb128.value]
  | cons b bs ih =>
    simp only [List.length_cons] at hi
    have hnz : ¬ (b &&& 0x80 = 0) := by simpa [Leb128.more] using h b (by simp)
    have hpow : 128 ^ i ≤ 128 ^ 3 := Nat.pow_le_pow_right (by omega) (by omega)
    have hfit : b.toNat % 128 * 128 ^ i ≤ 127 * 128 ^ i := Nat.mul_le_mul_right _ (by omega)
    rw [List.cons_append, List.length_cons, ← Nat.add_assoc, go]
    simp only [or_payload_eq_add b hn (by omega)]
    rw [if_neg hnz, Nat.mod_eq_of_lt (by omega)]
    rw [ih (fun x hx => h x (by simp [hx])) (by rw [Nat.pow_succ]; omega) (by omega)]
    have hval : n + b.toNat % 128 * 128 ^ i + 128 ^ (i + 1) * Leb128.value bs
        = n + 128 ^ i * Leb128.value (b :: bs) := by
      rw [Leb128.value, Nat.pow_succ]
      ring
    have hlen : i + 1 + bs.length = i + (bs.length + 1) := by omega
    rw [hval, hlen]

theorem readVarint_of_five {bs : Bytes} (h : ∀ b ∈ bs, Leb128.more b = true)
    (hlen : bs.length = 4) (b : UInt8) (rest : Bytes)
    : readVarint (bs ++ b :: rest)
        =
      some (int32 (Leb128.value bs + b.toNat % 16 * 2 ^ 28),
        if b &&& 0x80 = 0 then some 5 else none) := by
  have hgo := @readVarint.go_of_more_append _ h (b :: rest) 1 0 0 (by simp) (by omega)
  have hvalue : Leb128.value bs < 128 ^ 4 := hlen ▸ Leb128.value_lt bs
  rw [hlen] at hgo
  rw [readVarint, show 5 = 1 + 4 from rfl, hgo]
  have hbyte : b.toNat % 128 * 128 ^ 4 % 2 ^ 32 = b.toNat % 16 * 2 ^ 28 := by omega
  unfold readVarint.go
  simp only [Nat.zero_add, Nat.pow_zero, Nat.one_mul, or_payload_eq_add b hvalue (by omega), hbyte]
  split
  . rfl
  . rfl

/--
The encodings of negative numbers: four continuation bytes, then a byte with the sign bit.
-/
def NegativeVarint (arr : Bytes) : Prop :=
  ∃ bs b rest, arr = bs ++ b :: rest ∧ bs.length = 4 ∧ (∀ c ∈ bs, Leb128.more c = true)
    ∧ b &&& 0x08 ≠ 0

theorem and_sign_ne_zero_iff (b : UInt8) : b &&& 0x08 ≠ 0 ↔ 8 ≤ b.toNat % 16 := by
  have hand : ∀ i : Fin 256, i.val &&& 8 ≠ 0 ↔ 8 ≤ i.val % 16 := by decide +kernel
  have hzero : b &&& 0x08 = 0 ↔ (b &&& 0x08).toNat = 0 := by
    rw [← UInt8.toNat_inj]
    rfl
  rw [ne_eq, hzero, UInt8.toNat_and]
  exact hand ⟨b.toNat, b.toNat_lt⟩

theorem negativeVarint_of_five {bs : Bytes} (hlen : bs.length = 4) (b : UInt8) (rest : Bytes)
    : NegativeVarint (bs ++ b :: rest)
        ↔
      (∀ c ∈ bs, Leb128.more c = true) ∧ b &&& 0x08 ≠ 0 := by
  constructor
  . rintro ⟨bs', b', rest', heq, hlen', hmore, hsign⟩
    obtain ⟨hbs, htail⟩ := List.append_inj heq (by omega)
    injection htail with hb
    subst hbs hb
    exact ⟨hmore, hsign⟩
  . intro ⟨hmore, hsign⟩
    exact ⟨bs, b, rest, rfl, hlen, hmore, hsign⟩

theorem readVarint_neg_iff {arr : Bytes} (hlen : 5 ≤ arr.length)
    : ∃ v olen, readVarint arr = some (v, olen) ∧ (v < 0 ↔ NegativeVarint arr) := by
  have harr : arr = arr.take 4 ++ arr.drop 4 := (List.take_append_drop 4 arr).symm
  have hfour : (arr.take 4).length = 4 := by
    rw [List.length_take]
    omega
  generalize arr.take 4 = bs at harr hfour
  cases htail : arr.drop 4 with
  | nil =>
    rw [List.drop_eq_nil_iff] at htail
    omega
  | cons b rest =>
    rw [htail] at harr
    subst harr
    rw [negativeVarint_of_five hfour, and_sign_ne_zero_iff]
    cases Leb128.exists_terminated_or_more bs with
    | inl h =>
      rcases h with ⟨num, bs', rfl, hnum⟩
      rw [List.length_append] at hfour
      rw [List.append_assoc, readVarint_of_terminated hnum _ (by omega)]
      refine ⟨_, _, rfl, ?_⟩
      have hvalue : Leb128.value num < 128 ^ 4 :=
        Nat.lt_of_lt_of_le (Leb128.value_lt num) (Nat.pow_le_pow_right (by omega) (by omega))
      rw [int32_eq_self (by omega)]
      constructor
      . omega
      . intro ⟨hmore, _⟩
        exact absurd (fun c hc => hmore c (List.mem_append_left _ hc)) hnum.not_all_more
    | inr h =>
      rw [readVarint_of_five h hfour]
      refine ⟨_, _, rfl, ?_⟩
      have hvalue : Leb128.value bs < 128 ^ 4 := hfour ▸ Leb128.value_lt bs
      have := int32_nonneg_iff (n := Leb128.value bs + b.toNat % 16 * 2 ^ 28) (by omega)
      constructor
      . intro hneg
        exact ⟨h, by omega⟩
      . intro ⟨_, hsign⟩
        omega

theorem writeVarint.go_eq_encode {val : Nat} (h : val ≠ 0) : go val = Leb128.encode val := by
  induction val using Nat.strongRecOn with
  | ind val ih =>
    unfold go Leb128.encode
    have hand : val &&& 0x7F = val % 128 := Nat.and_two_pow_sub_one_eq_mod val 7
    have hshift : val >>> 7 = val / 128 := Nat.shiftRight_eq_div_pow val 7
    simp only [h, ↓reduceDIte, hand, hshift, ne_eq]
    split
    . next hmore =>
      have hlarge : ¬ val < 128 := by omega
      rw [if_neg hlarge, ih (val / 128) (by omega) hmore]
      congr 1
      apply UInt8.toNat_inj.mp
      rw [UInt8.toNat_or, UInt8.toNat_ofNat', UInt8.toNat_ofNat']
      have : (0x80 : UInt8).toNat = 2 ^ 7 * 1 := rfl
      rw [this, Nat.or_comm, ← Nat.two_pow_add_eq_or_of_lt (by omega)]
      omega
    . next hlast =>
      have hzero : val / 128 = 0 := by omega
      have hmod : val % 128 = val := by omega
      have hsmall : val < 128 := by omega
      rw [if_pos hsmall, hzero, hmod]
      unfold go
      simp

theorem writeVarint_eq_encode (val : Nat) : writeVarint val = Leb128.encode val := by
  unfold writeVarint
  split
  . next h =>
    subst h
    unfold Leb128.encode
    simp
  . next h => exact writeVarint.go_eq_encode h

theorem readVarlong.go_of_terminated {bs : Bytes} (h : Leb128.Terminated bs) (rest : Bytes)
    {fuel i n : Nat} (hn : n < 128 ^ i) (hfuel : fuel + i = 10) (hlen : bs.length ≤ fuel)
    (hlt : n + 128 ^ i * Leb128.value bs < 2 ^ 64)
    : go fuel (bs ++ rest) i n
        =
      some (n + 128 ^ i * Leb128.value bs, some (i + bs.length)) := by
  induction bs generalizing fuel i n with
  | nil => exact h.elim
  | cons b bs ih =>
    cases fuel with
    | zero => simp at hlen
    | succ fuel =>
      have hval : 128 ^ i * Leb128.value (b :: bs)
          = b.toNat % 128 * 128 ^ i + 128 ^ (i + 1) * Leb128.value bs := by
        rw [Leb128.value, Nat.pow_succ]
        ring
      rw [hval] at hlt ⊢
      rw [List.cons_append, go]
      simp only [or_payload_eq_add_of_lt b hn (by omega : i * 7 < 64)]
      rw [Nat.mod_eq_of_lt (by omega)]
      cases hb : Leb128.more b with
      | false =>
        have hnil : bs = [] := by simpa [Leb128.Terminated, hb] using h
        have hzero : b &&& 0x80 = 0 := by simpa [Leb128.more] using hb
        subst hnil
        rw [if_pos hzero, Leb128.value, Nat.mul_zero, Nat.add_zero]
        simp
      | true =>
        have htail : Leb128.Terminated bs := by simpa [Leb128.Terminated, hb] using h
        have hnz : ¬ (b &&& 0x80 = 0) := by simpa [Leb128.more] using hb
        have hfit : b.toNat % 128 * 128 ^ i ≤ 127 * 128 ^ i := Nat.mul_le_mul_right _ (by omega)
        simp only [List.length_cons] at hlen
        rw [if_neg hnz, ih htail (by rw [Nat.pow_succ]; omega) (by omega) (by omega) (by omega)]
        rw [Nat.add_assoc n, List.length_cons, Nat.add_assoc i, Nat.add_comm 1]

theorem readVarlong_encode {n : Nat} (h : n < 2 ^ 64) (rest : Bytes)
    : readVarlong (Leb128.encode n ++ rest) = some (n, some (Leb128.encode n).length) := by
  have hlen : (Leb128.encode n).length ≤ 10 := Leb128.length_encode_le (by omega) (by omega)
  unfold readVarlong
  rw [readVarlong.go_of_terminated (Leb128.terminated_encode n) rest (by simp) rfl hlen
    (by rw [Leb128.value_encode]; omega)]
  simp

theorem varintSize.go_eq_encode {n fuel : Nat} (h : n ≠ 0) (hfuel : n < 128 ^ fuel) (s : Nat)
    : go fuel n s = some (s + (Leb128.encode n).length) := by
  induction fuel generalizing n s with
  | zero => omega
  | succ fuel ih =>
    have hnz : ¬ (n : Int) = 0 := by omega
    have hshift : (n : Int) >>> (7 : Nat) = ((n / 128 : Nat) : Int) := by
      rw [Int.shiftRight_eq_div_pow]
      omega
    unfold go
    rw [if_neg hnz, hshift]
    unfold Leb128.encode
    by_cases hlast : n < 128
    . have hzero : n / 128 = 0 := by omega
      rw [if_pos hlast, hzero]
      unfold go
      simp
    . have hrest : n / 128 < 128 ^ fuel := by
        rw [Nat.pow_succ] at hfuel
        exact (Nat.div_lt_iff_lt_mul (by omega)).mpr hfuel
      dsimp only
      rw [if_neg hlast, ih (by omega) hrest, List.length_cons]
      congr 1
      omega

theorem varintSize_eq_encode {n : Nat} (h : n < 128 ^ 5)
    : varintSize n = some (Leb128.encode n).length := by
  unfold varintSize
  split
  . next hzero =>
    have hn : n = 0 := by omega
    subst hn
    simp [Leb128.encode]
  . next hnz =>
    rw [varintSize.go_eq_encode (by omega) h, Nat.zero_add]

end Varint

section BigEndian

theorem readIntBe_eq (b₀ b₁ b₂ b₃ : UInt8) (rest : Bytes)
    : readIntBe (b₀ :: b₁ :: b₂ :: b₃ :: rest)
        =
      some (int32 (b₀.toNat * 2 ^ 24 + b₁.toNat * 2 ^ 16 + b₂.toNat * 2 ^ 8 + b₃.toNat)) := by
  have := b₁.toNat_lt
  have := b₂.toNat_lt
  have := b₃.toNat_lt
  rw [readIntBe, Nat.or_assoc, Nat.or_assoc]
  rw [shiftLeft_or_eq_add (k := 8) (by omega), shiftLeft_or_eq_add (k := 16) (by omega),
    shiftLeft_or_eq_add (k := 24) (by omega)]
  rw [Nat.add_assoc, Nat.add_assoc]

@[simp]
theorem length_writeIntBe (val : Nat) : (writeIntBe val).length = 4 := rfl

@[simp]
theorem length_writeShortBe (val : Nat) : (writeShortBe val).length = 2 := rfl

theorem readIntBe_writeIntBe {val : Nat} (h : val < 2 ^ 32) (rest : Bytes)
    : readIntBe (writeIntBe val ++ rest) = some (int32 val) := by
  have hand : ∀ n, n &&& 0xFF = n % 256 := fun n => Nat.and_two_pow_sub_one_eq_mod n 8
  simp only [writeIntBe, List.cons_append, List.nil_append, hand, Nat.shiftRight_eq_div_pow]
  rw [readIntBe_eq]
  simp only [UInt8.toNat_ofNat']
  congr 2
  omega

theorem readShortBe_writeShortBe {val : Nat} (h : val < 2 ^ 16) (rest : Bytes)
    : readShortBe (writeShortBe val ++ rest) = some val := by
  simp only [writeShortBe, List.cons_append, List.nil_append, readShortBe, Option.some.injEq]
  rw [shiftLeft_or_eq_add (k := 8) (UInt8.toNat_lt _)]
  simp only [UInt8.toNat_ofNat', Nat.shiftRight_eq_div_pow]
  have hand : ∀ n, n &&& 0xFF = n % 256 := fun n => Nat.and_two_pow_sub_one_eq_mod n 8
  simp only [hand]
  omega

theorem readShortBe_append {bs : Bytes} (h : bs.length = 2) (rest : Bytes)
    : readShortBe (bs ++ rest) = some (BigEndian.decode bs) := by
  match bs, h with
  | [b₀, b₁], _ =>
    simp only [List.cons_append, List.nil_append, readShortBe, Option.some.injEq]
    rw [shiftLeft_or_eq_add (k := 8) (UInt8.toNat_lt _)]
    simp only [BigEndian.decode, List.foldl_cons, List.foldl_nil]
    omega

theorem readIntBe_append {bs : Bytes} (h : bs.length = 4) (rest : Bytes)
    : readIntBe (bs ++ rest) = some (int32 (BigEndian.decode bs)) := by
  match bs, h with
  | [b₀, b₁, b₂, b₃], _ =>
    have hdecode : b₀.toNat * 2 ^ 24 + b₁.toNat * 2 ^ 16 + b₂.toNat * 2 ^ 8 + b₃.toNat
        = BigEndian.decode [b₀, b₁, b₂, b₃] := by
      simp only [BigEndian.decode, List.foldl_cons, List.foldl_nil]
      omega
    rw [← hdecode]
    apply readIntBe_eq

theorem readLongBe_append {bs : Bytes} (h : bs.length = 8) (rest : Bytes)
    : readLongBe (bs ++ rest) = some (BigEndian.decode bs) := by
  match bs, h with
  | [b₀, b₁, b₂, b₃, b₄, b₅, b₆, b₇], _ =>
    have := b₁.toNat_lt
    have := b₂.toNat_lt
    have := b₃.toNat_lt
    have := b₄.toNat_lt
    have := b₅.toNat_lt
    have := b₆.toNat_lt
    have := b₇.toNat_lt
    simp only [List.cons_append, List.nil_append, readLongBe, Nat.or_assoc]
    rw [shiftLeft_or_eq_add (k := 8) (by omega), shiftLeft_or_eq_add (k := 16) (by omega),
      shiftLeft_or_eq_add (k := 24) (by omega), shiftLeft_or_eq_add (k := 32) (by omega),
      shiftLeft_or_eq_add (k := 40) (by omega), shiftLeft_or_eq_add (k := 48) (by omega),
      shiftLeft_or_eq_add (k := 56) (by omega)]
    simp only [BigEndian.decode, List.foldl_cons, List.foldl_nil]
    rw [Option.some.injEq]
    omega

theorem ofNat_and_byte (n : Nat) : UInt8.ofNat (n &&& 0xFF) = UInt8.ofNat n := by
  apply UInt8.toNat_inj.mp
  have hand : n &&& 0xFF = n % 256 := Nat.and_two_pow_sub_one_eq_mod n 8
  rw [hand, UInt8.toNat_ofNat', UInt8.toNat_ofNat', Nat.mod_mod]

theorem writeShortBe_eq (val : Nat) : writeShortBe val = BigEndian.encode 2 val := by
  simp only [writeShortBe, ofNat_and_byte, Nat.shiftRight_eq_div_pow, BigEndian.encode]
  norm_num

theorem writeIntBe_eq (val : Nat) : writeIntBe val = BigEndian.encode 4 val := by
  simp only [writeIntBe, ofNat_and_byte, Nat.shiftRight_eq_div_pow, BigEndian.encode]
  norm_num

theorem writeLongBe_eq (val : Nat) : writeLongBe val = BigEndian.encode 8 val := by
  simp only [writeLongBe, ofNat_and_byte, Nat.shiftRight_eq_div_pow, BigEndian.encode]
  norm_num

theorem decode_writeShortBe {val : Nat} (h : val < 2 ^ 16)
    : BigEndian.decode (writeShortBe val) = val := by
  rw [writeShortBe_eq, BigEndian.decode_encode_of_lt h]

theorem decode_writeIntBe {val : Nat} (h : val < 2 ^ 32)
    : BigEndian.decode (writeIntBe val) = val := by
  rw [writeIntBe_eq, BigEndian.decode_encode_of_lt h]

@[simp]
theorem length_writeLongBe (val : Nat) : (writeLongBe val).length = 8 := rfl

theorem readLongBe_writeLongBe {val : Nat} (h : val < 2 ^ 64) (rest : Bytes)
    : readLongBe (writeLongBe val ++ rest) = some val := by
  rw [readLongBe_append (length_writeLongBe val), writeLongBe_eq, BigEndian.decode_encode_of_lt h]

end BigEndian

end Bin

end HCraft
