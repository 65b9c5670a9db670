import HCraft.Util.Json.Impl
import Mathlib.Data.Nat.Digits.Lemmas

/-!
This module contains the texts that stand for a JSON value, however they are spaced, and that the
reader understands all of them.
-/

namespace HCraft

open JsonWriter JsonReader

/--
The decimal representation of a number.
-/
def digits (n : Nat) : Bytes :=
  if n = 0 then [48] else (Nat.digits 10 n).reverse.map (fun d => UInt8.ofNat (48 + d))

/--
Integers of at most six digits are written without an exponent, and read back.
-/
class LawfulDouble (ν : Type) [Double ν] : Prop where
  write_ofNat : ∀ n, n < 10 ^ 6 → Double.write (Double.ofNat n : ν) = digits n
  read_digits : ∀ n, n < 10 ^ 6 → Double.read (digits n) = (Double.ofNat n : ν)

def White (w : Bytes) : Prop :=
  ∀ c ∈ w, isspace c = true

variable {ν : Type} [Double ν]

mutual

inductive Text : JValue ν → Bytes → Prop where
  | null : Text .null [110, 117, 108, 108]
  | bool (val : Bool)
    : Text (.bool val) (if val then [116, 114, 117, 101] else [102, 97, 108, 115, 101])
  | number {n : Nat} (hn : n < 10 ^ 6) : Text (.number (Double.ofNat n)) (digits n)
  | string (val : Bytes) : Text (.string val) (encodeStr val)
  | array {vals : List (JValue ν)} {body : Bytes} (hbody : ElemsText vals body)
    : Text (.array vals) (91 :: body)
  | object {vals : List (Bytes × JValue ν)} {body : Bytes} (hkeys : (vals.map Prod.fst).Nodup)
    (hbody : MembersText vals body) : Text (.object vals) (123 :: body)

/--
The rest of an array, to its end.
-/
inductive ElemsText : List (JValue ν) → Bytes → Prop where
  | nil {w : Bytes} (hw : White w) : ElemsText [] (w ++ [93])
  | cons {w w' t sep body : Bytes} {val : JValue ν} {vals : List (JValue ν)} (hw : White w)
    (ht : Text val t) (hw' : White w') (hsep : sep = [44] ∨ sep = [] ∧ vals = [])
    (hbody : ElemsText vals body) : ElemsText (val :: vals) (w ++ t ++ w' ++ sep ++ body)

/--
The rest of an object, to its end.
-/
inductive MembersText : List (Bytes × JValue ν) → Bytes → Prop where
  | nil {w : Bytes} (hw : White w) : MembersText [] (w ++ [125])
  | cons {w w₁ w₂ w' t sep body key : Bytes} {val : JValue ν} {vals : List (Bytes × JValue ν)}
    (hw : White w) (hw₁ : White w₁) (hw₂ : White w₂) (ht : Text val t) (hw' : White w')
    (hsep : sep = [44] ∨ sep = [] ∧ vals = []) (hbody : MembersText vals body)
    : MembersText ((key, val) :: vals)
        (w ++ encodeStr key ++ w₁ ++ [58] ++ w₂ ++ t ++ w' ++ sep ++ body)

end

theorem white_append {w w' : Bytes} (hw : White w) (hw' : White w') : White (w ++ w') := by
  intro c hc
  rw [List.mem_append] at hc
  cases hc with
  | inl hc => exact hw c hc
  | inr hc => exact hw' c hc

theorem white_nil : White [] := by
  intro c hc
  cases hc

theorem isspace_of_isdigit {c : UInt8} (h : isdigit c = true) : isspace c = false := by
  simp only [isdigit, isspace, Bool.and_eq_true, decide_eq_true_eq, UInt8.le_iff_toNat_le,
    Bool.or_eq_false_iff, decide_eq_false_iff_not, Bool.and_eq_false_iff, ← UInt8.toNat_inj] at h ⊢
  simp only [UInt8.reduceToNat] at h ⊢
  omega

theorem ne_of_isdigit {c d : UInt8} (h : isdigit c = true) (hd : isdigit d = false) : c ≠ d := by
  intro heq
  rw [heq, hd] at h
  cases h

theorem digits_isdigit {n : Nat} : ∀ c ∈ digits n, isdigit c = true := by
  intro c hc
  unfold digits at hc
  split at hc
  . rw [List.mem_singleton] at hc
    subst hc
    rfl
  . rw [List.mem_map] at hc
    rcases hc with ⟨d, hd, rfl⟩
    have hlt : d < 10 := Nat.digits_lt_base (by omega) (List.mem_reverse.mp hd)
    interval_cases d <;> rfl

theorem digits_ne_nil (n : Nat) : digits n ≠ [] := by
  unfold digits
  split
  . exact List.cons_ne_nil _ _
  . next h =>
    rw [ne_eq, List.map_eq_nil_iff, List.reverse_eq_nil_iff, Nat.digits_eq_nil_iff_eq_zero]
    exact h

section Stream

variable {ls : LexerStream} {s : Bytes} {c : UInt8}

theorem LexerStream.get_cons (h : ls.strm = c :: s)
    : ∃ ls', ls.get = (some c, ls') ∧ ls'.strm = s := by
  unfold LexerStream.get
  rw [h]
  dsimp only
  split
  . exact ⟨_, rfl, rfl⟩
  . exact ⟨_, rfl, rfl⟩

theorem LexerStream.getWhile_strm (p : UInt8 → Bool) (ls : LexerStream)
    : (ls.getWhile p).strm = ls.strm.dropWhile p := by
  unfold LexerStream.getWhile
  cases ls with
  | mk strm ln col =>
    dsimp only
    induction strm generalizing ln col with
    | nil => rfl
    | cons c strm ih =>
      cases hc : p c with
      | false =>
        rw [List.takeWhile_cons_of_neg (by simp [hc]), List.dropWhile_cons_of_neg (by simp [hc])]
        rfl
      | true =>
        rw [List.takeWhile_cons_of_pos hc, List.dropWhile_cons_of_pos hc, List.foldl_cons]
        unfold LexerStream.get
        dsimp only
        split
        . exact ih _ _
        . exact ih _ _

theorem skipWhite_strm {w : Bytes} (h : ls.strm = w ++ c :: s) (hw : White w)
    (hc : isspace c = false) : (skipWhite ls).strm = c :: s := by
  unfold skipWhite
  rw [LexerStream.getWhile_strm, h, List.dropWhile_append_of_pos hw, List.dropWhile_cons_of_neg]
  simp [hc]

theorem expect_cons (h : ls.strm = c :: s) (what : String)
    : ∃ ls', expect c what ls = .ok ls' ∧ ls'.strm = s := by
  obtain ⟨ls', hget, hs⟩ := LexerStream.get_cons h
  refine ⟨ls', ?_, hs⟩
  unfold expect
  rw [hget]
  exact if_pos rfl

theorem expectAll_append {word : Bytes} (h : ls.strm = word ++ s) (what : String)
    : ∃ ls', expectAll word what ls = .ok ls' ∧ ls'.strm = s := by
  induction word generalizing ls with
  | nil => exact ⟨ls, rfl, h⟩
  | cons c word ih =>
    obtain ⟨ls₁, h₁, hs₁⟩ := expect_cons h what
    obtain ⟨ls₂, h₂, hs₂⟩ := ih hs₁
    refine ⟨ls₂, ?_, hs₂⟩
    rw [expectAll, h₁]
    exact h₂

end Stream

section Strings

/--
A character is escaped, or stands for itself.
-/
theorem escape_cases (c : UInt8)
    : (∃ d, escape c = [92, d] ∧ unescape d = [c]) ∨ escape c = [c] ∧ c ≠ 34 ∧ c ≠ 92 := by
  unfold escape
  split
  . next h => exact .inl ⟨34, rfl, by rw [h]; rfl⟩
  . next hquote =>
    split
    . next h => exact .inl ⟨92, rfl, by rw [h]; rfl⟩
    . next hbackslash =>
      split
      . next h => exact .inl ⟨98, rfl, by rw [h]; rfl⟩
      . split
        . next h => exact .inl ⟨102, rfl, by rw [h]; rfl⟩
        . split
          . next h => exact .inl ⟨110, rfl, by rw [h]; rfl⟩
          . split
            . next h => exact .inl ⟨114, rfl, by rw [h]; rfl⟩
            . split
              . next h => exact .inl ⟨116, rfl, by rw [h]; rfl⟩
              . exact .inr ⟨rfl, hquote, hbackslash⟩

theorem readStrLoop_backslash {ls : LexerStream} {s : Bytes} {d : UInt8}
    (h : ls.strm = 92 :: d :: s)
    : ∃ ls', ls'.strm = s ∧ ∀ fuel out,
        readStrLoop (fuel + 1) out ls = readStrLoop fuel (out ++ unescape d) ls' := by
  obtain ⟨ls₁, hget₁, hs₁⟩ := LexerStream.get_cons h
  obtain ⟨ls₂, hget₂, hs₂⟩ := LexerStream.get_cons hs₁
  refine ⟨ls₂, hs₂, ?_⟩
  intro fuel out
  rw [readStrLoop, hget₁]
  simp [hget₂]

theorem readStrLoop_char {ls : LexerStream} {s : Bytes} {c : UInt8} (h : ls.strm = c :: s)
    (hquote : c ≠ 34) (hbackslash : c ≠ 92)
    : ∃ ls', ls'.strm = s ∧ ∀ fuel out,
        readStrLoop (fuel + 1) out ls = readStrLoop fuel (out ++ [c]) ls' := by
  obtain ⟨ls₁, hget₁, hs₁⟩ := LexerStream.get_cons h
  refine ⟨ls₁, hs₁, ?_⟩
  intro fuel out
  rw [readStrLoop, hget₁]
  split
  . next heq => cases heq
  . next heq =>
    injection heq with heq
    injection heq with heq
    exact absurd heq hquote
  . next heq =>
    injection heq with heq
    injection heq with heq
    exact absurd heq hbackslash
  . next heq =>
    injection heq with heq hls
    injection heq with heq
    rw [heq, hls]

theorem readStrLoop_escape {ls : LexerStream} {s : Bytes} {c : UInt8}
    (h : ls.strm = escape c ++ s)
    : ∃ ls', ls'.strm = s ∧ ∀ fuel out,
        readStrLoop (fuel + 1) out ls = readStrLoop fuel (out ++ [c]) ls' := by
  cases escape_cases c with
  | inl hescaped =>
    rcases hescaped with ⟨d, hescape, hunescape⟩
    rw [hescape] at h
    rw [← hunescape]
    exact readStrLoop_backslash h
  | inr hplain =>
    rcases hplain with ⟨hescape, hquote, hbackslash⟩
    rw [hescape] at h
    exact readStrLoop_char h hquote hbackslash

theorem readStrLoop_quote {ls : LexerStream} {s : Bytes} (h : ls.strm = 34 :: s) (fuel : Nat)
    (out : Bytes) : ∃ ls', readStrLoop (fuel + 1) out ls = .ok (out, ls') ∧ ls'.strm = s := by
  obtain ⟨ls₁, hget₁, hs₁⟩ := LexerStream.get_cons h
  refine ⟨ls₁, ?_, hs₁⟩
  rw [readStrLoop, hget₁]
  rfl

theorem readStrLoop_append {str rest out : Bytes} {ls : LexerStream}
    (h : ls.strm = str.flatMap escape ++ 34 :: rest) {fuel : Nat} (hfuel : str.length < fuel)
    : ∃ ls', readStrLoop fuel out ls = .ok (out ++ str, ls') ∧ ls'.strm = rest := by
  induction str generalizing ls fuel out with
  | nil =>
    cases fuel with
    | zero => cases hfuel
    | succ fuel =>
      rw [List.append_nil]
      exact readStrLoop_quote h fuel out
  | cons c str ih =>
    cases fuel with
    | zero => cases hfuel
    | succ fuel =>
      rw [List.flatMap_cons, List.append_assoc] at h
      obtain ⟨ls₁, hs₁, hloop⟩ := readStrLoop_escape h
      obtain ⟨ls₂, hrest, hs₂⟩ := @ih (out ++ [c]) ls₁ hs₁ fuel (Nat.lt_of_succ_lt_succ hfuel)
      refine ⟨ls₂, ?_, hs₂⟩
      rw [hloop, hrest, List.append_assoc, List.singleton_append]

theorem length_le_flatMap_escape (str : Bytes) : str.length ≤ (str.flatMap escape).length := by
  induction str with
  | nil => exact le_refl 0
  | cons c str ih =>
    have hpos : 0 < (escape c).length := by
      cases escape_cases c with
      | inl h =>
        rcases h with ⟨d, h, _⟩
        rw [h]
        exact Nat.zero_lt_succ _
      | inr h =>
        rw [h.1]
        exact Nat.zero_lt_succ _
    rw [List.flatMap_cons, List.length_append, List.length_cons]
    omega

theorem readStr_encodeStr {w str rest : Bytes} {ls : LexerStream} (hw : White w)
    (h : ls.strm = w ++ encodeStr str ++ rest)
    : ∃ ls', readStr ls = .ok (str, ls') ∧ ls'.strm = rest := by
  have hstrm : ls.strm = w ++ 34 :: (str.flatMap escape ++ 34 :: rest) := by
    rw [h, encodeStr]
    simp
  obtain ⟨ls₁, h₁, hs₁⟩ := expect_cons (skipWhite_strm hstrm hw rfl)
    "expected '\"' at start of JSON string"
  have hfuel : str.length < ls₁.strm.length + 1 := by
    have := length_le_flatMap_escape str
    rw [hs₁, List.length_append]
    omega
  obtain ⟨ls₂, h₂, hs₂⟩ := @readStrLoop_append str rest [] ls₁ hs₁ _ hfuel
  refine ⟨ls₂, ?_, hs₂⟩
  rw [readStr, h₁]
  exact h₂

end Strings

section Values

variable {ls : LexerStream} {rest : Bytes}

/--
A number ends where `rest` begins.
-/
def EndsNumber (rest : Bytes) : Prop :=
  ∀ c ∈ rest.head?, isNumberChar c = false

theorem isNumberChar_of_isdigit {c : UInt8} (h : isdigit c = true) : isNumberChar c = true := by
  rw [isNumberChar, h]
  rfl

theorem readNumber_chars {str : Bytes} (h : ls.strm = str ++ rest)
    (hstr : ∀ c ∈ str, isNumberChar c = true) (hrest : EndsNumber rest)
    : ∃ ls', readNumber ls = ((Double.read str : ν), ls') ∧ ls'.strm = rest := by
  have htake : rest.takeWhile isNumberChar = [] ∧ rest.dropWhile isNumberChar = rest := by
    cases rest with
    | nil => exact ⟨rfl, rfl⟩
    | cons c rest =>
      have hc : ¬ isNumberChar c = true := by simp [hrest c rfl]
      exact ⟨List.takeWhile_cons_of_neg hc, List.dropWhile_cons_of_neg hc⟩
  refine ⟨ls.getWhile isNumberChar, ?_, ?_⟩
  . rw [readNumber, h, List.takeWhile_append_of_pos hstr, htake.1, List.append_nil]
  . rw [LexerStream.getWhile_strm, h, List.dropWhile_append_of_pos hstr, htake.2]

theorem readNumber_digits [LawfulDouble ν] {n : Nat} (hn : n < 10 ^ 6) (h : ls.strm = digits n ++ rest)
    (hrest : EndsNumber rest)
    : ∃ ls', readNumber ls = ((Double.ofNat n : ν), ls') ∧ ls'.strm = rest := by
  rw [← LawfulDouble.read_digits n hn]
  apply readNumber_chars h _ hrest
  exact fun c hc => isNumberChar_of_isdigit (digits_isdigit c hc)

theorem readBool_cons (val : Bool)
    (h : ls.strm = (if val then [116, 114, 117, 101] else [102, 97, 108, 115, 101]) ++ rest)
    : ∃ ls', readBool ls = .ok (val, ls') ∧ ls'.strm = rest := by
  cases val with
  | true =>
    have hskip := @skipWhite_strm ls _ _ [] h white_nil rfl
    obtain ⟨ls₁, hget, hs₁⟩ := LexerStream.get_cons hskip
    obtain ⟨ls₂, hall, hs₂⟩ := @expectAll_append ls₁ rest [114, 117, 101] hs₁
      "expected 'true' or 'false'"
    refine ⟨ls₂, ?_, hs₂⟩
    have hget' : readBool ls = (do
        let ls ← expectAll [114, 117, 101] "expected 'true' or 'false'" ls₁
        return (true, ls)) := by
      rw [readBool, hget]
      rfl
    rw [hget', hall]
    rfl
  | false =>
    have hskip := @skipWhite_strm ls _ _ [] h white_nil rfl
    obtain ⟨ls₁, hget, hs₁⟩ := LexerStream.get_cons hskip
    obtain ⟨ls₂, hall, hs₂⟩ := @expectAll_append ls₁ rest [97, 108, 115, 101] hs₁
      "expected 'true' or 'false'"
    refine ⟨ls₂, ?_, hs₂⟩
    have hget' : readBool ls = (do
        let ls ← expectAll [97, 108, 115, 101] "expected 'true' or 'false'" ls₁
        return (false, ls)) := by
      rw [readBool, hget]
      rfl
    rw [hget', hall]
    rfl

omit [Double ν] in
theorem setMember_of_not_mem {key : Bytes} {val : JValue ν} {vals : List (Bytes × JValue ν)}
    (h : key ∉ vals.map Prod.fst) : setMember key val vals = vals ++ [(key, val)] := by
  induction vals with
  | nil => rfl
  | cons member vals ih =>
    rw [List.map_cons, List.mem_cons, not_or] at h
    rw [setMember, if_neg (Ne.symm h.1), ih h.2]
    rfl

/--
The first character of a value, which is neither space nor the end of an array.
-/
theorem Text.head {val : JValue ν} {t : Bytes} (h : Text val t)
    : ∃ c t', t = c :: t' ∧ isspace c = false ∧ c ≠ 93 := by
  cases h with
  | null => exact ⟨_, _, rfl, rfl, by decide⟩
  | bool val => cases val <;> exact ⟨_, _, rfl, rfl, by decide⟩
  | @number n hn =>
    cases hdigits : digits n with
    | nil => exact absurd hdigits (digits_ne_nil n)
    | cons c t' =>
      have hc := @digits_isdigit n c (by rw [hdigits]; exact List.mem_cons_self)
      exact ⟨c, t', rfl, isspace_of_isdigit hc, ne_of_isdigit hc (by decide)⟩
  | string val => exact ⟨_, _, rfl, rfl, by decide⟩
  | array hbody => exact ⟨_, _, rfl, rfl, by decide⟩
  | object hkeys hbody => exact ⟨_, _, rfl, rfl, by decide⟩

end Values

end HCraft
