import HCraft.Util.Json.Lemmas.Accepts
import HCraft.Util.Json.Lemmas.RoundTrip

/-!
This module contains which integers are read as what they have been written.
-/

namespace HCraft

open JsonWriter JsonReader

/--
The first six digits of a number of more digits, rounded to the nearest, and what they are to be
multiplied with. A tie goes to the even one.
-/
def roundToSix (n : Nat) : Nat × Nat :=
  let scale := 10 ^ ((digits n).length - 6)
  let q := n / scale
  let r := n % scale
  (if 2 * r < scale ∨ 2 * r = scale ∧ q % 2 = 0 then q else q + 1, scale)

/--
The first digit, and the others behind a point but for the zeros at their end.
-/
def mantissa (q : Nat) : Bytes :=
  let frac := ((digits q).tail.reverse.dropWhile (· = 48)).reverse
  (digits q).headD 48 :: (if frac = [] then [] else 46 :: frac)

def exponent (n : Nat) : Bytes :=
  let exponent := (digits n).length - 1
  101 :: 43 :: (if exponent < 10 then [48] else []) ++ digits exponent

/--
`operator<<` of a whole number, at the precision of six digits.
-/
def generalNat (n : Nat) : Bytes :=
  if n < 10 ^ 6 then
    digits n
  else
    let (q, scale) := roundToSix n
    mantissa q ++ exponent (q * scale)

def general (n : Int) : Bytes :=
  if n < 0 then 45 :: generalNat n.natAbs else generalNat n.natAbs

/--
`-1.23457e+06`
-/
example : general (-1234567) = [45, 49, 46, 50, 51, 52, 53, 55, 101, 43, 48, 54] := by
  rfl

/--
`double` holds every `int`.
-/
class IntDouble (ν : Type) [Double ν] where
  ofInt : Int → ν

class LawfulIntDouble (ν : Type) [Double ν] [IntDouble ν] : Prop where
  ofInt_natCast : ∀ n : Nat, n < 10 ^ 6 → IntDouble.ofInt (n : Int) = (Double.ofNat n : ν)
  write_ofInt : ∀ n : Int, n.natAbs < 2 ^ 31 → Double.write (IntDouble.ofInt n : ν) = general n

variable {ν : Type} [Double ν]

section General

theorem headD_digits (n : Nat) : isdigit ((digits n).headD 48) = true := by
  cases h : digits n with
  | nil => exact absurd h (digits_ne_nil n)
  | cons c t => exact @digits_isdigit n c (by rw [h]; exact List.mem_cons_self)

theorem isNumberChar_mantissa (q : Nat) : ∀ c ∈ mantissa q, isNumberChar c = true := by
  have hdigit : ∀ c ∈ ((digits q).tail.reverse.dropWhile (· = 48)).reverse, isdigit c = true := by
    intro c hc
    rw [List.mem_reverse] at hc
    have hmem := (List.dropWhile_sublist _).subset hc
    exact digits_isdigit c (List.mem_of_mem_tail (List.mem_reverse.mp hmem))
  intro c hc
  rcases List.mem_cons.mp hc with rfl | hc
  . exact isNumberChar_of_isdigit (headD_digits q)
  . split at hc
    . cases hc
    . rcases List.mem_cons.mp hc with rfl | hc
      . rfl
      . exact isNumberChar_of_isdigit (hdigit c hc)

/--
The reader takes the characters up to the exponent for the whole number.
-/
theorem generalNat_of_le {n : Nat} (h : 10 ^ 6 ≤ n)
    : ∃ c t s, generalNat n = c :: t ++ 101 :: s ∧ isdigit c = true
        ∧ ∀ d ∈ c :: t, isNumberChar d = true := by
  have heq : generalNat n
      = mantissa (roundToSix n).1 ++ exponent ((roundToSix n).1 * (roundToSix n).2) := by
    unfold generalNat
    rw [if_neg (by omega)]
  obtain ⟨c, t, hmantissa, hc⟩ : ∃ c t, mantissa (roundToSix n).1 = c :: t ∧ isdigit c = true :=
    ⟨_, _, rfl, headD_digits _⟩
  have hchars := isNumberChar_mantissa (roundToSix n).1
  rw [hmantissa] at heq hchars
  exact ⟨c, t, _, heq, hc, hchars⟩

end General

open JsonGrammar (Throws Stops throws_readElems throws_readMembers throws_read_minus)

/--
A text that the reader does not get through, whatever follows.
-/
structure Broken (ν : Type) [Double ν] (t : Bytes) : Prop where
  head : ∃ c t', t = c :: t' ∧ isspace c = false ∧ c ≠ 93
  stops : ∀ (fuel : Nat) (ls : LexerStream) (rest : Bytes), t.length ≤ fuel → ls.strm = t ++ rest →
    Stops (read (ν := ν) fuel ls)

/--
The same of the rest of an array.
-/
def BrokenElems (ν : Type) [Double ν] (body : Bytes) : Prop :=
  ∀ (fuel : Nat) (arr : List (JValue ν)) (ls : LexerStream) (rest : Bytes), body.length ≤ fuel →
    ls.strm = body ++ rest → Throws (readElems fuel arr ls)

def BrokenMembers (ν : Type) [Double ν] (body : Bytes) : Prop :=
  ∀ (fuel : Nat) (obj : List (Bytes × JValue ν)) (ls : LexerStream) (rest : Bytes),
    body.length ≤ fuel → ls.strm = body ++ rest → Throws (readMembers fuel obj ls)

section Values

theorem broken_minus (t : Bytes) : Broken ν (45 :: t) where
  head := ⟨45, t, rfl, rfl, by decide⟩
  stops := by
    intro fuel ls rest hfuel h
    cases fuel with
    | zero => cases hfuel
    | succ fuel => exact .inl (throws_read_minus fuel h)

theorem broken_exponent {c : UInt8} {t : Bytes} (hc : isdigit c = true)
    (ht : ∀ d ∈ c :: t, isNumberChar d = true) (s : Bytes) : Broken ν (c :: t ++ 101 :: s) where
  head := ⟨c, _, rfl, isspace_of_isdigit hc, ne_of_isdigit hc (by decide)⟩
  stops := by
    intro fuel ls rest hfuel h
    cases fuel with
    | zero => cases hfuel
    | succ fuel =>
      obtain ⟨ls₁, hs₁, h₁⟩ := read_digit (ν := ν) fuel h hc
      have hstrm : ls₁.strm = (c :: t) ++ (101 :: s ++ rest) := by
        rw [hs₁]
        simp
      have hends : EndsNumber (101 :: s ++ rest) := by
        intro d hd
        cases hd
        rfl
      obtain ⟨ls₂, h₂, hs₂⟩ := readNumber_chars (ν := ν) hstrm ht hends
      rw [h₂] at h₁
      exact .inr ⟨_, ls₂, 101, s ++ rest, h₁, hs₂, .inl rfl⟩

theorem broken_general {n : Int} (h : ¬ (0 ≤ n ∧ n < 10 ^ 6)) : Broken ν (general n) := by
  unfold general
  split
  . exact broken_minus _
  . obtain ⟨c, t, s, heq, hc, ht⟩ := @generalNat_of_le n.natAbs (by omega)
    rw [heq]
    exact broken_exponent hc ht s

theorem BrokenElems.array {body : Bytes} (h : BrokenElems ν body) : Broken ν (91 :: body) where
  head := ⟨91, body, rfl, rfl, by decide⟩
  stops := by
    intro fuel ls rest hfuel hs
    cases fuel with
    | zero => cases hfuel
    | succ fuel =>
      obtain ⟨ls₁, hs₁, h₁⟩ := read_bracket (ν := ν) fuel hs
      left
      rw [h₁]
      exact (h fuel [] ls₁ rest (Nat.le_of_succ_le_succ hfuel) hs₁).bind _

theorem BrokenMembers.object {body : Bytes} (h : BrokenMembers ν body) : Broken ν (123 :: body) where
  head := ⟨123, body, rfl, rfl, by decide⟩
  stops := by
    intro fuel ls rest hfuel hs
    cases fuel with
    | zero => cases hfuel
    | succ fuel =>
      obtain ⟨ls₁, hs₁, h₁⟩ := read_brace (ν := ν) fuel hs
      left
      rw [h₁]
      exact (h fuel [] ls₁ rest (Nat.le_of_succ_le_succ hfuel) hs₁).bind _

end Values

section Containers

variable {w w₁ w₂ t s key : Bytes}

theorem Broken.elems (h : Broken ν t) (hw : White w) (hs : s ≠ [])
    : BrokenElems ν (w ++ t ++ s) := by
  intro fuel arr ls rest hfuel hstrm
  have hpos := List.length_pos_iff.mpr hs
  simp only [List.length_append] at hfuel
  cases fuel with
  | zero => omega
  | succ fuel =>
    obtain ⟨c, t', hhead, hspace, hend⟩ := h.head
    have hskip : (skipWhite ls).strm = c :: (t' ++ s ++ rest) := by
      apply skipWhite_strm _ hw hspace
      rw [hstrm, hhead]
      simp
    apply throws_readElems (peek_cons hskip) hend
    apply h.stops fuel _ (s ++ rest) (by omega)
    rw [hskip, hhead]
    simp

theorem BrokenElems.cons [LawfulDouble ν] {val : JValue ν} (h : BrokenElems ν s) (hw : White w)
    (ht : Text val t) : BrokenElems ν (w ++ t ++ [44] ++ s) := by
  intro fuel arr ls rest hfuel hstrm
  simp only [List.length_append, List.length_singleton] at hfuel
  cases fuel with
  | zero => omega
  | succ fuel =>
    obtain ⟨ls₁, h₁, hs₁⟩ := @readElems_comma ν _ ls w [] t (s ++ rest) val fuel arr hw ht white_nil
      (fun ls hs hrest => read_text ht hs hrest (by omega)) (by rw [hstrm]; simp)
    rw [h₁]
    exact h fuel _ ls₁ rest (by omega) hs₁

theorem Broken.members (h : Broken ν t) (key s : Bytes) (hw : White w) (hw₁ : White w₁) (hw₂ : White w₂)
    : BrokenMembers ν (w ++ encodeStr key ++ w₁ ++ [58] ++ w₂ ++ t ++ s) := by
  intro fuel obj ls rest hfuel hstrm
  simp only [List.length_append, List.length_singleton] at hfuel
  cases fuel with
  | zero => omega
  | succ fuel =>
    obtain ⟨c, t', hhead, hspace, _⟩ := h.head
    obtain ⟨hpeek, ls₁, ls₂, h₁, h₂, hs₂⟩ := @readKey_encodeStr ls w w₁ w₂ t key (s ++ rest) hw hw₁
      hw₂ ⟨c, t', hhead, hspace⟩ (by rw [hstrm]; simp)
    exact throws_readMembers hpeek h₁ h₂ (h.stops fuel _ (s ++ rest) (by omega) hs₂)

theorem BrokenMembers.cons [LawfulDouble ν] {val : JValue ν} (h : BrokenMembers ν s) (key : Bytes)
    (hw : White w) (hw₁ : White w₁) (hw₂ : White w₂) (ht : Text val t)
    : BrokenMembers ν (w ++ encodeStr key ++ w₁ ++ [58] ++ w₂ ++ t ++ [44] ++ s) := by
  intro fuel obj ls rest hfuel hstrm
  simp only [List.length_append, List.length_singleton] at hfuel
  cases fuel with
  | zero => omega
  | succ fuel =>
    obtain ⟨ls₁, h₁, hs₁⟩ := @readMembers_comma ν _ ls w w₁ w₂ [] t (s ++ rest) key val fuel obj hw
      hw₁ hw₂ ht white_nil (fun ls hs hrest => read_text ht hs hrest (by omega))
      (by rw [hstrm]; simp)
    rw [h₁]
    exact h fuel _ ls₁ rest (by omega) hs₁

end Containers

mutual

/--
A tree of `int`s.
-/
def JValue.Integral [IntDouble ν] : JValue ν → Prop
  | .object vals => (vals.map Prod.fst).Nodup ∧ JValue.IntegralMembers vals
  | .array vals => JValue.IntegralElems vals
  | .number val => ∃ n : Int, n.natAbs < 2 ^ 31 ∧ val = IntDouble.ofInt n
  | .string _ => True
  | .bool _ => True
  | .null => True

def JValue.IntegralMembers [IntDouble ν] : List (Bytes × JValue ν) → Prop
  | [] => True
  | (_, val) :: vals => val.Integral ∧ JValue.IntegralMembers vals

def JValue.IntegralElems [IntDouble ν] : List (JValue ν) → Prop
  | [] => True
  | val :: vals => val.Integral ∧ JValue.IntegralElems vals

end

section Trees

variable [IntDouble ν] {fmt : JsonFormat}

theorem broken_write_number [LawfulIntDouble ν] {val : ν} (hint : (JValue.number val).Integral)
    (hplain : ¬ (JValue.number val).Plain) : Broken ν (Double.write val) := by
  rw [JValue.Integral] at hint
  rw [JValue.Plain] at hplain
  obtain ⟨n, hlt, rfl⟩ := hint
  rw [LawfulIntDouble.write_ofInt n hlt]
  apply broken_general
  rintro ⟨hlo, hhi⟩
  apply hplain
  refine ⟨n.toNat, by omega, ?_⟩
  rw [← LawfulIntDouble.ofInt_natCast n.toNat (by omega), Int.toNat_of_nonneg hlo]

omit [IntDouble ν] in
theorem broken_write_object {depth : Nat} {vals : List (Bytes × JValue ν)}
    (hbody : Returns (writeMembers fmt depth vals.length 0 vals)
      (fun out => ∀ w spaces, White w → White spaces →
        BrokenMembers ν (w ++ out ++ spaces ++ [125])))
    : Returns (write fmt depth (.object vals))
        (fun out => ∃ w body, White w ∧ BrokenMembers ν body ∧ out = w ++ 123 :: body) := by
  refine (returns_write_object hbody).mono ?_
  rintro _ ⟨hw, hbody, hspaces⟩
  refine ⟨_, _, hw.white, hbody _ _ (@blank_newline fmt).white hspaces.white, ?_⟩
  simp

mutual

/--
One number that is not read as what it was is enough.
-/
theorem broken_write [LawfulDouble ν] [LawfulIntDouble ν] (depth : Nat) (val : JValue ν)
    (hint : val.Integral) (hplain : ¬ val.Plain)
    : Returns (write fmt depth val) (fun out => ∃ w t, White w ∧ Broken ν t ∧ out = w ++ t) := by
  cases val with
  | object vals =>
    rw [JValue.Integral] at hint
    rw [JValue.Plain, not_and] at hplain
    have hbody := broken_writeMembers depth _ 0 vals hint.2 (hplain hint.1) (Nat.zero_add _)
    refine (broken_write_object hbody).mono ?_
    rintro _ ⟨w, body, hw, hbody, rfl⟩
    exact ⟨w, _, hw, hbody.object, rfl⟩
  | array vals =>
    rw [JValue.Integral] at hint
    rw [JValue.Plain] at hplain
    have hbody := broken_writeElems depth _ 0 vals hint hplain (Nat.zero_add _)
    refine (returns_write_array hbody).mono ?_
    rintro _ ⟨hw, hbody, hspaces⟩
    refine ⟨_, _, hw.white, (hbody _ _ (@blank_newline fmt).white hspaces.white).array, ?_⟩
    simp
  | string val =>
    rw [JValue.Plain] at hplain
    exact absurd trivial hplain
  | number val =>
    rw [write]
    exact returns_ok ⟨[], _, white_nil, broken_write_number hint hplain, rfl⟩
  | bool val =>
    rw [JValue.Plain] at hplain
    exact absurd trivial hplain
  | null =>
    rw [JValue.Plain] at hplain
    exact absurd trivial hplain

theorem broken_writeMembers [LawfulDouble ν] [LawfulIntDouble ν] (depth count i : Nat)
    (vals : List (Bytes × JValue ν)) (hint : JValue.IntegralMembers vals)
    (hplain : ¬ JValue.PlainMembers vals)
    (hcount : i + vals.length = count)
    : Returns (writeMembers fmt depth count i vals)
        (fun out => ∀ w spaces, White w → White spaces →
          BrokenMembers ν (w ++ out ++ spaces ++ [125])) := by
  match vals with
  | [] =>
    rw [JValue.PlainMembers] at hplain
    exact absurd trivial hplain
  | (key, val) :: vals =>
    rw [JValue.IntegralMembers] at hint
    rw [JValue.PlainMembers] at hplain
    by_cases hval : val.Plain
    . have hvals : ¬ JValue.PlainMembers vals := fun hvals => hplain ⟨hval, hvals⟩
      have hrest := broken_writeMembers depth count (i + 1) vals hint.2 hvals
        (by rw [List.length_cons] at hcount; omega)
      refine (returns_writeMembers_cons hcount (returns_write (depth + 1) val hval) hrest).mono ?_
      rintro _ ⟨hindent, hbefore, hafter, ⟨w, t, hw, ht, rfl⟩, hsep, hrest⟩ w₀ spaces hw₀ hspaces
      rcases hsep with ⟨hnil, _⟩ | ⟨_, w', hw', rfl⟩
      . rw [hnil, JValue.PlainMembers] at hvals
        exact absurd trivial hvals
      . have := (hrest (w' ++ newline fmt) spaces (blank_append hw' blank_newline).white
          hspaces).cons key (white_append hw₀ hindent.white) hbefore.white
          (white_append hafter.white hw) ht
        simpa only [List.append_assoc, List.cons_append, List.nil_append] using this
    . have hbroken := broken_write (depth + 1) val hint.1 hval
      refine (returns_writeMembers_cons hcount hbroken (returns_trivial _)).mono ?_
      rintro _ @⟨_, _, _, _, sep, rest, hindent, hbefore, hafter, ⟨w, t, hw, ht, rfl⟩, _, _⟩
      intro w₀ spaces hw₀ _
      have := ht.members key (sep ++ newline fmt ++ rest ++ spaces ++ [125])
        (white_append hw₀ hindent.white) hbefore.white (white_append hafter.white hw)
      simpa only [List.append_assoc] using this

theorem broken_writeElems [LawfulDouble ν] [LawfulIntDouble ν] (depth count i : Nat)
    (vals : List (JValue ν)) (hint : JValue.IntegralElems vals) (hplain : ¬ JValue.PlainElems vals)
    (hcount : i + vals.length = count)
    : Returns (writeElems fmt depth count i vals)
        (fun out => ∀ w spaces, White w → White spaces →
          BrokenElems ν (w ++ out ++ spaces ++ [93])) := by
  match vals with
  | [] =>
    rw [JValue.PlainElems] at hplain
    exact absurd trivial hplain
  | val :: vals =>
    rw [JValue.IntegralElems] at hint
    rw [JValue.PlainElems] at hplain
    by_cases hval : val.Plain
    . have hvals : ¬ JValue.PlainElems vals := fun hvals => hplain ⟨hval, hvals⟩
      have hrest := broken_writeElems depth count (i + 1) vals hint.2 hvals
        (by rw [List.length_cons] at hcount; omega)
      refine (returns_writeElems_cons hcount (returns_write (depth + 1) val hval) hrest).mono ?_
      rintro _ ⟨hindent, ⟨w, t, hw, ht, rfl⟩, hsep, hending, hrest⟩ w₀ spaces hw₀ hspaces
      rcases hsep with ⟨hnil, _⟩ | ⟨_, w', hw', rfl⟩
      . rw [hnil, JValue.PlainElems] at hvals
        exact absurd trivial hvals
      . have := (hrest (w' ++ _) spaces (blank_append hw' hending).white hspaces).cons
          (white_append (white_append hw₀ hindent.white) hw) ht
        simpa only [List.append_assoc, List.cons_append, List.nil_append] using this
    . have hbroken := broken_write (depth + 1) val hint.1 hval
      refine (returns_writeElems_cons hcount hbroken (returns_trivial _)).mono ?_
      rintro _ @⟨_, _, sep, ending, rest, hindent, ⟨w, t, hw, ht, rfl⟩, _, _, _⟩
      intro w₀ spaces hw₀ _
      have := ht.elems (s := sep ++ ending ++ rest ++ spaces ++ [93])
        (white_append (white_append hw₀ hindent.white) hw) (by simp)
      simpa only [List.append_assoc] using this

end

omit [IntDouble ν] in
theorem throws_readObject {w body : Bytes} (hw : White w) (h : BrokenMembers ν body)
    : Throws (readObject (ν := ν) (.new (w ++ 123 :: body))) := by
  have hskip := @skipWhite_strm (.new (w ++ 123 :: body)) _ _ _ rfl hw rfl
  obtain ⟨ls₁, h₁, hs₁⟩ := expect_cons hskip "expected '\x7b' at start of JSON object"
  rw [readObject, beginObject, h₁]
  apply h _ [] ls₁ [] _ (by rw [hs₁, List.append_nil])
  rw [hs₁]
  omega

/--
The object is written, and comes back.
-/
def Survives (fmt : JsonFormat) (vals : List (Bytes × JValue ν)) : Prop :=
  ∃ out ls, write fmt 0 (.object vals) = .ok out ∧ readObject (.new out) = .ok (vals, ls)

/--
An object of `int`s comes back if all of them, wherever they stand, have no sign and at most six
digits.
-/
theorem survives_iff_plain [LawfulDouble ν] [LawfulIntDouble ν] (hfmt : fmt.NonNegative)
    {vals : List (Bytes × JValue ν)}
    (hint : (JValue.object vals).Integral)
    (hindent : fmt.indent * (JValue.object vals).height < 2 ^ 31)
    : Survives fmt vals ↔ (JValue.object vals).Plain := by
  constructor
  . rintro ⟨out, ls, hwrite, hread⟩
    by_contra hplain
    rw [JValue.Integral] at hint
    rw [JValue.Plain, not_and] at hplain
    have hbody := @broken_writeMembers ν _ _ fmt _ _ 0 _ 0 vals hint.2 (hplain hint.1) (Nat.zero_add _)
    obtain ⟨w, body, hw, hbody, rfl⟩ := broken_write_object hbody out hwrite
    obtain ⟨what, ln, col, hthrow⟩ := throws_readObject hw hbody
    rw [hthrow] at hread
    cases hread
  . intro hplain
    obtain ⟨out, ls, hwrite, hread, _⟩ := (readObject_write_iff hfmt hplain).mpr hindent
    exact ⟨out, ls, hwrite, hread⟩

end Trees

/--
Doubles that are integers.
-/
instance : Double Int where
  ofNat n := n
  write := general
  read s := (Double.read s : Nat)

instance : LawfulDouble Int where
  write_ofNat n hn := by
    change general (n : Int) = digits n
    unfold general generalNat
    rw [if_neg (by omega), Int.natAbs_natCast, if_pos hn]
  read_digits n hn := by
    change ((Double.read (digits n) : Nat) : Int) = n
    rw [LawfulDouble.read_digits n hn]
    rfl

instance : IntDouble Int where
  ofInt n := n

instance : LawfulIntDouble Int where
  ofInt_natCast _ _ := rfl
  write_ofInt _ _ := rfl

/--
`{"a":[999999,{"b":-1}]}`
-/
def signedMembers : List (Bytes × JValue Int) :=
  [([97], .array [.number 999999, .object [([98], .number (-1))]])]

theorem survives_iff_plain_signed
    : Survives .nice signedMembers ↔ (JValue.object signedMembers).Plain := by
  apply survives_iff_plain
  . constructor <;> decide
  . simp only [signedMembers, JValue.Integral, JValue.IntegralMembers, JValue.IntegralElems, and_true]
    refine ⟨by decide, ⟨999999, by decide, rfl⟩, by decide, -1, by decide, rfl⟩
  . simp [signedMembers, JValue.height, JValue.heightMembers, JValue.heightElems, JsonFormat.nice]

/--
`{"a":-1}` and `{"a":1e+06}` are not read.
-/
theorem not_survives_signed
    : ¬ Survives .packed [([97], .number (-1 : Int))]
        ∧ ¬ Survives .packed [([97], .number (1000000 : Int))] := by
  constructor
  . rintro ⟨out, ls, hwrite, hread⟩
    have hout : write .packed 0 (.object [([97], .number (-1 : Int))])
        = .ok [123, 34, 97, 34, 58, 45, 49, 125] := by
      rfl
    rw [hout] at hwrite
    injection hwrite with hwrite
    have hthrow : readObject (ν := Int) (.new [123, 34, 97, 34, 58, 45, 49, 125])
        = .error (.error "invalid JSON value" 1 6) := by
      rfl
    rw [← hwrite, hthrow] at hread
    cases hread
  . rintro ⟨out, ls, hwrite, hread⟩
    have hout : write .packed 0 (.object [([97], .number (1000000 : Int))])
        = .ok [123, 34, 97, 34, 58, 49, 101, 43, 48, 54, 125] := by
      rfl
    rw [hout] at hwrite
    injection hwrite with hwrite
    have hthrow : readObject (ν := Int) (.new [123, 34, 97, 34, 58, 49, 101, 43, 48, 54, 125])
        = .error (.error "expected ',' or '\x7d' after name/value pair" 1 7) := by
      rfl
    rw [← hwrite, hthrow] at hread
    cases hread

end HCraft
