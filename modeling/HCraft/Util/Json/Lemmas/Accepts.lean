import HCraft.Lib.Utf8
import HCraft.Util.Json.Lemmas.Got
import HCraft.Util.Json.Lemmas.Read

/-!
This module contains which texts of the grammar the reader reads as what they denote.
-/

namespace HCraft

open JsonReader

namespace JsonGrammar

section Strings

theorem utf8EncodeChar_ne {c : Char} (h : 0x20 ≤ c.val ∧ c.val ≠ 34 ∧ c.val ≠ 92)
    : ∀ b ∈ String.utf8EncodeChar c, b ≠ 34 ∧ b ≠ 92 := by
  intro b hb
  have hne : c.val.toNat ≠ 34 ∧ c.val.toNat ≠ 92 := by
    simpa [← UInt32.toNat_inj] using h.2
  simp only [ne_eq, ← UInt8.toNat_inj, UInt8.reduceToNat]
  rcases Utf8.encodeChar_cases c with ⟨heq, hascii⟩ | ⟨_, _, hlarge⟩
  . rw [heq, List.mem_singleton] at hb
    rw [hb, UInt8.toNat_ofNat']
    omega
  . have := hlarge b hb
    omega

theorem HexDigit.byte_ne (d : HexDigit) : d.byte ≠ 34 ∧ d.byte ≠ 92 := by
  rcases d with ⟨val, upper⟩
  revert val upper
  decide

theorem CodeUnit.text_ne (u : CodeUnit) : ∀ b ∈ u.text, b ≠ 34 ∧ b ≠ 92 := by
  simp [CodeUnit.text, HexDigit.byte_ne]

theorem Escape.unescape_letter (e : Escape) : unescape e.letter = [e.byte] := by
  cases e <;> rfl

variable {ls : LexerStream} {rest : Bytes}

theorem readStrLoop_chars {str : Bytes} (h : ls.strm = str ++ rest)
    (hstr : ∀ b ∈ str, b ≠ 34 ∧ b ≠ 92)
    : ∃ ls', ls'.strm = rest ∧ ∀ fuel out,
        readStrLoop (fuel + str.length) out ls = readStrLoop fuel (out ++ str) ls' := by
  induction str generalizing ls with
  | nil => exact ⟨ls, h, fun fuel out => by simp⟩
  | cons b str ih =>
    have hb := hstr b (by simp)
    obtain ⟨ls₁, hs₁, h₁⟩ := readStrLoop_char h hb.1 hb.2
    obtain ⟨ls₂, hs₂, h₂⟩ := ih hs₁ (fun b hb => hstr b (by simp [hb]))
    refine ⟨ls₂, hs₂, ?_⟩
    intro fuel out
    rw [List.length_cons, ← Nat.add_assoc, h₁, h₂, List.append_assoc, List.singleton_append]

theorem StrItem.readStrLoop_text (item : StrItem) (h : ls.strm = item.text ++ rest)
    : ∃ ls' n, n ≤ item.text.length ∧ ls'.strm = rest ∧ ∀ fuel out,
        readStrLoop (fuel + n) out ls = readStrLoop fuel (out ++ item.got) ls' := by
  cases item with
  | unescaped c hc =>
    obtain ⟨ls₁, hs₁, h₁⟩ := readStrLoop_chars h (utf8EncodeChar_ne hc)
    exact ⟨ls₁, _, le_refl _, hs₁, h₁⟩
  | escaped e =>
    obtain ⟨ls₁, hs₁, h₁⟩ := readStrLoop_backslash h
    rw [e.unescape_letter] at h₁
    exact ⟨ls₁, 1, by simp [text], hs₁, h₁⟩
  | unicode u =>
    -- `u` is no escape the reader knows, and the digits are read as they are
    obtain ⟨ls₁, hs₁, h₁⟩ := readStrLoop_backslash h
    obtain ⟨ls₂, hs₂, h₂⟩ := readStrLoop_chars hs₁ u.text_ne
    refine ⟨ls₂, u.text.length + 1, by simp [text], hs₂, ?_⟩
    intro fuel out
    rw [← Nat.add_assoc, h₁, h₂]
    simp [unescape, got]

theorem readStrLoop_items {items : List StrItem} (h : ls.strm = items.flatMap StrItem.text ++ rest)
    : ∃ ls' n, n ≤ (items.flatMap StrItem.text).length ∧ ls'.strm = rest ∧ ∀ fuel out,
        readStrLoop (fuel + n) out ls
          = readStrLoop fuel (out ++ items.flatMap StrItem.got) ls' := by
  induction items generalizing ls with
  | nil => exact ⟨ls, 0, le_refl 0, h, fun fuel out => by simp⟩
  | cons item items ih =>
    rw [List.flatMap_cons, List.append_assoc] at h
    obtain ⟨ls₁, n₁, hn₁, hs₁, h₁⟩ := item.readStrLoop_text h
    obtain ⟨ls₂, n₂, hn₂, hs₂, h₂⟩ := ih hs₁
    refine ⟨ls₂, n₂ + n₁, ?_, hs₂, ?_⟩
    . rw [List.flatMap_cons, List.length_append]
      omega
    . intro fuel out
      rw [← Nat.add_assoc, h₁, h₂, List.flatMap_cons, List.append_assoc]

theorem Str.readStr_text (s : Str) {w : Bytes} (hw : White w) (h : ls.strm = w ++ s.text ++ rest)
    : ∃ ls', readStr ls = .ok (s.got, ls') ∧ ls'.strm = rest := by
  have hstrm : ls.strm = w ++ 34 :: (s.flatMap StrItem.text ++ 34 :: rest) := by
    rw [h, text]
    simp
  obtain ⟨ls₁, h₁, hs₁⟩ := expect_cons (skipWhite_strm hstrm hw rfl)
    "expected '\"' at start of JSON string"
  obtain ⟨ls₂, n, hn, hs₂, h₂⟩ := readStrLoop_items hs₁
  have hfuel : ls₁.strm.length + 1 = (ls₁.strm.length - n) + 1 + n := by
    rw [hs₁, List.length_append]
    omega
  obtain ⟨ls₃, h₃, hs₃⟩ := readStrLoop_quote hs₂ (ls₁.strm.length - n) s.got
  refine ⟨ls₃, ?_, hs₃⟩
  rw [readStr, h₁]
  dsimp only [bind, Except.bind]
  rw [hfuel, h₂, List.nil_append]
  exact h₃

end Strings

section Numbers

def Num.mantissa (n : Num) : Bytes :=
  n.int.text ++ n.fracText

theorem Digits.isdigit_text (ds : Digits) : ∀ c ∈ ds.text, isdigit c = true := by
  intro c hc
  obtain ⟨d, _, hd⟩ := List.mem_map.mp hc
  have hdigit : ∀ d : Fin 10, isdigit (UInt8.ofNat (48 + d.val)) = true := by decide
  rw [← hd]
  exact hdigit d

theorem Digits.text_eq_cons (ds : Digits) : ∃ c t, ds.text = c :: t ∧ isdigit c = true := by
  cases htext : ds.text with
  | nil => exact absurd (List.map_eq_nil_iff.mp htext) ds.ne_nil
  | cons c t => exact ⟨c, t, rfl, ds.isdigit_text c (by rw [htext]; exact List.mem_cons_self)⟩

theorem Num.isNumberChar_mantissa (n : Num) : ∀ c ∈ n.mantissa, isNumberChar c = true := by
  intro c hc
  unfold mantissa fracText at hc
  rcases List.mem_append.mp hc with hc | hc
  . exact isNumberChar_of_isdigit (n.int.isdigit_text c hc)
  . split at hc
    . cases hc
    . next ds _ =>
      rcases List.mem_cons.mp hc with rfl | hc
      . rfl
      . exact isNumberChar_of_isdigit (ds.isdigit_text c hc)

theorem Num.text_of_not_minus {n : Num} (h : n.minus = false) : n.text = n.mantissa ++ n.expText := by
  simp [text, mantissa, h]

theorem Num.text_of_plain {n : Num} (h : n.Plain) : n.text = n.mantissa := by
  rw [text_of_not_minus h.1, expText, h.2]
  exact List.append_nil _

end Numbers

section Reading

variable {ν : Type} [Double ν] {ls : LexerStream} {rest : Bytes}

theorem Ws.white (w : Ws) : White w.text := by
  intro c hc
  obtain ⟨ws, _, heq⟩ := List.mem_map.mp hc
  rw [← heq]
  cases ws <;> rfl

theorem Num.head (n : Num) : ∃ c t, n.text = c :: t ∧ (c = 45 ∨ isdigit c = true) := by
  unfold text
  cases n.minus with
  | true => exact ⟨45, _, rfl, .inl rfl⟩
  | false =>
    obtain ⟨c, t, htext, hc⟩ := n.int.text_eq_cons
    exact ⟨c, _, by simp [htext]; rfl, .inr hc⟩

theorem Value.head (v : Value) : ∃ c t, v.text = c :: t ∧ isspace c = false ∧ c ≠ 93 := by
  cases v with
  | null => exact ⟨_, _, rfl, rfl, by decide⟩
  | bool val => cases val <;> exact ⟨_, _, rfl, rfl, by decide⟩
  | number n =>
    obtain ⟨c, t, htext, hc⟩ := n.head
    rcases hc with rfl | hc
    . exact ⟨_, _, htext, rfl, by decide⟩
    . exact ⟨_, _, htext, isspace_of_isdigit hc, ne_of_isdigit hc (by decide)⟩
  | string s => exact ⟨_, _, rfl, rfl, by decide⟩
  | emptyArray w => exact ⟨_, _, rfl, rfl, by decide⟩
  | array elems => exact ⟨_, _, rfl, rfl, by decide⟩
  | object obj => cases obj <;> exact ⟨_, _, rfl, rfl, by decide⟩

theorem Value.length_text_pos (v : Value) : 0 < v.text.length := by
  obtain ⟨c, t, htext, _⟩ := v.head
  rw [htext]
  exact Nat.zero_lt_succ _

def Throws {α : Type} (r : Except JsonParseError α) : Prop :=
  ∃ what ln col, r = .error (.error what ln col)

theorem throws_throwAt {α : Type} (what : String) (ls : LexerStream)
    : Throws (throwAt what ls : Except JsonParseError α) :=
  ⟨what, ls.ln, ls.col, rfl⟩

theorem Throws.bind {α β : Type} {r : Except JsonParseError α} (h : Throws r)
    (f : α → Except JsonParseError β) : Throws (r >>= f) := by
  obtain ⟨what, ln, col, hr⟩ := h
  exact ⟨what, ln, col, by rw [hr]; rfl⟩

/--
It throws, or it leaves the reader at an exponent.
-/
def Stops (r : Except JsonParseError (JValue ν × LexerStream)) : Prop :=
  Throws r ∨ ∃ val ls c s, r = .ok (val, ls) ∧ ls.strm = c :: s ∧ (c = 101 ∨ c = 69)

theorem throws_readSeparator {c : UInt8} {s : Bytes} (h : ls.strm = c :: s)
    (hc : c = 101 ∨ c = 69) {close : UInt8} (hclose : close = 93 ∨ close = 125) (what : String)
    : Throws (readSeparator close what ls) := by
  have hspace : isspace c = false ∧ c ≠ 44 ∧ c ≠ close := by
    rcases hc with rfl | rfl <;> rcases hclose with rfl | rfl <;> decide
  have hskip := skipWhite_self h hspace.1
  unfold readSeparator
  dsimp only
  rw [peek_cons hskip, if_neg (by simpa using hspace.2.1), if_neg (by simpa using hspace.2.2)]
  exact throws_throwAt what _

theorem throws_readElems {c : UInt8} (hpeek : (skipWhite ls).peek = some c) (hc : c ≠ 93)
    {fuel : Nat} {arr : List (JValue ν)} (h : Stops (read (ν := ν) fuel (skipWhite ls)))
    : Throws (readElems (fuel + 1) arr ls) := by
  rw [readElems]
  dsimp only
  rw [if_neg (by rw [hpeek]; simpa using hc)]
  rcases h with h | ⟨val, ls₁, c, s, hr, hs, hc⟩
  . exact h.bind _
  . rw [hr]
    exact (throws_readSeparator hs hc (.inl rfl) _).bind _

theorem throws_readMembers {ls₁ ls₂ : LexerStream} {key : Bytes}
    (hpeek : (skipWhite ls).peek = some 34) (hkey : readStr (skipWhite ls) = .ok (key, ls₁))
    (hcolon : expect 58 "expected ':' between name/value pair" (skipWhite ls₁) = .ok ls₂)
    {fuel : Nat} {obj : List (Bytes × JValue ν)}
    (h : Stops (read (ν := ν) fuel (skipWhite ls₂))) : Throws (readMembers (fuel + 1) obj ls) := by
  rw [readMembers]
  dsimp only
  rw [if_neg (by rw [hpeek]; decide), hkey]
  dsimp only [bind, Except.bind]
  rw [hcolon]
  dsimp only
  rcases h with h | ⟨val, ls₃, c, s, hr, hs, hc⟩
  . exact h.bind _
  . rw [hr]
    exact (throws_readSeparator hs hc (.inr rfl) _).bind _

/--
Reading returns what is to be got and leaves the rest; if there is nothing to be got, it throws.
-/
def Yields {α : Type} (rest : Bytes) (r : Except JsonParseError (α × LexerStream))
    : Option α → Prop
  | some val => ∃ ls, r = .ok (val, ls) ∧ ls.strm = rest
  | none => Throws r

/--
The same of a single value.
-/
def YieldsValue (rest : Bytes) (r : Except JsonParseError (JValue ν × LexerStream))
    : Option (JValue ν) → Prop
  | some val => ∃ ls, r = .ok (val, ls) ∧ ls.strm = rest
  | none => Stops r

theorem throws_read_minus {s : Bytes} (fuel : Nat) (h : ls.strm = 45 :: s)
    : Throws (read (ν := ν) (fuel + 1) ls) := by
  have hskip := skipWhite_self h rfl
  rw [JsonReader.read]
  dsimp only
  rw [peek_cons hskip]
  dsimp only
  rw [if_neg (by decide), if_neg (by decide), if_neg (by decide), if_neg (by decide),
    if_neg (by decide), if_neg (by decide)]
  exact throws_throwAt _ _

theorem Num.read_mantissa (n : Num) (fuel : Nat) (h : ls.strm = n.mantissa ++ rest)
    (hrest : EndsNumber rest)
    : ∃ ls', read fuel.succ ls = .ok ((.number (Double.read n.mantissa) : JValue ν), ls')
        ∧ ls'.strm = rest := by
  obtain ⟨c, t, htext, hc⟩ := n.int.text_eq_cons
  have hcons : ls.strm = c :: (t ++ n.fracText ++ rest) := by
    rw [h, mantissa, htext]
    simp
  obtain ⟨ls₁, hs₁, h₁⟩ := read_digit (ν := ν) fuel hcons hc
  have hstrm : ls₁.strm = n.mantissa ++ rest := by rw [hs₁, ← hcons, h]
  obtain ⟨ls₂, h₂, hs₂⟩ := readNumber_chars (ν := ν) hstrm n.isNumberChar_mantissa hrest
  refine ⟨ls₂, ?_, hs₂⟩
  rw [h₁, h₂]

theorem Num.read_text (n : Num) (fuel : Nat) (h : ls.strm = n.text ++ rest) (hrest : EndsNumber rest)
    : YieldsValue rest (read (ν := ν) (fuel + 1) ls) (n.got.map .number) := by
  rw [got]
  cases hminus : n.minus with
  | true =>
    rw [if_neg (by simp [Plain, hminus])]
    left
    apply throws_read_minus
    rw [h, text, hminus]
    rfl
  | false =>
    cases hexp : n.exp with
    | none =>
      have hplain : n.Plain := ⟨hminus, hexp⟩
      rw [if_pos hplain]
      rw [text_of_plain hplain] at h ⊢
      exact n.read_mantissa fuel h hrest
    | some e =>
      rw [if_neg (by simp [Plain, hexp])]
      right
      have hstrm : ls.strm = n.mantissa ++ (n.expText ++ rest) := by
        rw [h, text_of_not_minus hminus, List.append_assoc]
      have hhead : ∃ c s, n.expText ++ rest = c :: s ∧ (c = 101 ∨ c = 69) := by
        refine ⟨if e.upper then 69 else 101, _, by rw [expText, hexp]; rfl, ?_⟩
        cases e.upper <;> simp
      obtain ⟨c, s, hcons, hc⟩ := hhead
      have hends : EndsNumber (n.expText ++ rest) := by
        rw [hcons]
        intro d hd
        cases hd
        rcases hc with rfl | rfl <;> rfl
      obtain ⟨ls₁, h₁, hs₁⟩ := n.read_mantissa (ν := ν) fuel hstrm hends
      exact ⟨_, ls₁, c, s, h₁, by rw [hs₁, hcons], hc⟩

theorem Value.skipWhite_text (v : Value) (w : Ws) (h : ls.strm = w.text ++ v.text ++ rest)
    : (skipWhite ls).strm = v.text ++ rest ∧ ∃ c, (skipWhite ls).peek = some c ∧ c ≠ 93 := by
  obtain ⟨c, t, hhead, hspace, hend⟩ := v.head
  have hskip : (skipWhite ls).strm = c :: (t ++ rest) := by
    apply skipWhite_strm _ w.white hspace
    rw [h, hhead, List.append_assoc, List.cons_append]
  refine ⟨?_, c, peek_cons hskip, hend⟩
  rw [hskip, hhead, List.cons_append]

theorem Str.readKey_text (key : Str) (w w₁ w₂ : Ws) (v : Value)
    (h : ls.strm = w.text ++ key.text ++ w₁.text ++ 58 :: (w₂.text ++ v.text ++ rest))
    : (skipWhite ls).peek = some 34 ∧ ∃ ls₁ ls₂, readStr (skipWhite ls) = .ok (key.got, ls₁)
        ∧ expect 58 "expected ':' between name/value pair" (skipWhite ls₁) = .ok ls₂
        ∧ (skipWhite ls₂).strm = v.text ++ rest := by
  have hcons : ls.strm = w.text ++ 34 :: (key.flatMap StrItem.text ++ 34
      :: (w₁.text ++ 58 :: (w₂.text ++ v.text ++ rest))) := by
    rw [h, text]
    simp
  have hskip := skipWhite_strm hcons w.white rfl
  have hkey : (skipWhite ls).strm
      = [] ++ key.text ++ (w₁.text ++ 58 :: (w₂.text ++ v.text ++ rest)) := by
    rw [hskip, text]
    simp
  obtain ⟨ls₁, h₁, hs₁⟩ := key.readStr_text white_nil hkey
  obtain ⟨ls₂, h₂, hs₂⟩ := expect_cons (skipWhite_strm hs₁ w₁.white rfl)
    "expected ':' between name/value pair"
  exact ⟨peek_cons hskip, ls₁, ls₂, h₁, h₂, (v.skipWhite_text w₂ hs₂).1⟩

mutual

theorem Value.read_text (v : Value) {fuel : Nat} {ls : LexerStream} {rest : Bytes}
    (h : ls.strm = v.text ++ rest) (hrest : EndsNumber rest) (hfuel : v.text.length ≤ fuel)
    : YieldsValue rest (read (ν := ν) fuel ls) v.got := by
  have hpos := v.length_text_pos
  cases fuel with
  | zero => omega
  | succ fuel =>
    cases v with
    | null => exact read_null fuel h
    | bool val => exact read_bool fuel val h
    | number n => exact n.read_text fuel h hrest
    | string s =>
      obtain ⟨ls₁, hs₁, h₁⟩ := read_quote (ν := ν) fuel h
      obtain ⟨ls₂, h₂, hs₂⟩ := s.readStr_text white_nil hs₁
      refine ⟨ls₂, ?_, hs₂⟩
      rw [h₁, h₂]
      rfl
    | emptyArray w =>
      have hcons : ls.strm = 91 :: (w.text ++ 93 :: rest) := by
        rw [h, Value.text]
        simp
      obtain ⟨ls₁, hs₁, h₁⟩ := read_bracket (ν := ν) fuel hcons
      cases fuel with
      | zero => simp [Value.text] at hfuel
      | succ fuel =>
        obtain ⟨ls₂, h₂, hs₂⟩ := readElems_close (ν := ν) hs₁ w.white fuel []
        refine ⟨ls₂, ?_, hs₂⟩
        rw [h₁, h₂]
        rfl
    | array elems =>
      have hcons : ls.strm = 91 :: (elems.text ++ 93 :: rest) := by
        rw [h, Value.text]
        simp
      obtain ⟨ls₁, hs₁, h₁⟩ := read_bracket (ν := ν) fuel hcons
      have hshort : elems.text.length + 1 ≤ fuel := by
        simp only [Value.text, List.length_append, List.length_cons, List.length_nil] at hfuel
        omega
      have hbody := elems.readElems_text [] hs₁ hshort
      rw [Value.got, h₁]
      cases hgot : elems.got (ν := ν) with
      | none =>
        rw [hgot] at hbody
        exact .inl (Throws.bind hbody _)
      | some vals =>
        rw [hgot] at hbody
        obtain ⟨ls₂, h₂, hs₂⟩ := hbody
        refine ⟨ls₂, ?_, hs₂⟩
        rw [h₂]
        rfl
    | object obj =>
      cases obj with
      | empty w =>
        have hcons : ls.strm = 123 :: (w.text ++ 125 :: rest) := by
          rw [h, Value.text, Obj.text]
          simp
        obtain ⟨ls₁, hs₁, h₁⟩ := read_brace (ν := ν) fuel hcons
        cases fuel with
        | zero => simp [Value.text, Obj.text] at hfuel
        | succ fuel =>
          obtain ⟨ls₂, h₂, hs₂⟩ := readMembers_close (ν := ν) hs₁ w.white fuel []
          refine ⟨ls₂, ?_, hs₂⟩
          rw [h₁, h₂]
          rfl
      | members ms =>
        have hcons : ls.strm = 123 :: (ms.text ++ 125 :: rest) := by
          rw [h, Value.text, Obj.text]
          simp
        obtain ⟨ls₁, hs₁, h₁⟩ := read_brace (ν := ν) fuel hcons
        have hshort : ms.text.length + 1 ≤ fuel := by
          simp only [Value.text, Obj.text, List.length_append, List.length_cons, List.length_nil]
            at hfuel
          omega
        have hbody := ms.readMembers_text [] hs₁ hshort
        rw [Value.got, Obj.got, h₁]
        cases hgot : ms.got (ν := ν) with
        | none =>
          rw [hgot] at hbody
          exact .inl (Throws.bind hbody _)
        | some vals =>
          rw [hgot] at hbody
          obtain ⟨ls₂, h₂, hs₂⟩ := hbody
          refine ⟨ls₂, ?_, hs₂⟩
          rw [h₂]
          rfl

theorem Elems.readElems_text (elems : Elems) {fuel : Nat} (arr : List (JValue ν)) {ls : LexerStream}
    {rest : Bytes} (h : ls.strm = elems.text ++ 93 :: rest) (hfuel : elems.text.length + 1 ≤ fuel)
    : Yields rest (readElems fuel arr ls) (elems.got.map (arr ++ ·)) := by
  cases fuel with
  | zero => cases hfuel
  | succ fuel =>
    cases elems with
    | last w val w' =>
      have hstrm : ls.strm = w.text ++ val.text ++ (w'.text ++ 93 :: rest) := by
        rw [h, Elems.text, List.append_assoc]
      obtain ⟨hskip, c, hpeek, hend⟩ := val.skipWhite_text w hstrm
      have hpos := val.length_text_pos
      simp only [Elems.text, List.length_append] at hfuel
      have hval := val.read_text hskip (endsNumber_white_append w'.white rfl)
        (by omega : val.text.length ≤ fuel)
      rw [Elems.got]
      cases hgot : val.got (ν := ν) with
      | none =>
        rw [hgot] at hval
        exact throws_readElems hpeek hend hval
      | some v =>
        rw [hgot] at hval
        obtain ⟨ls₁, h₁, hs₁⟩ := hval
        obtain ⟨ls₂, h₂, hs₂⟩ := readSeparator_close hs₁ w'.white rfl (by decide)
          "expected ',' or ']' after array element"
        cases fuel with
        | zero => omega
        | succ fuel =>
          obtain ⟨ls₃, h₃, hs₃⟩ := @readElems_close ν _ _ [] _ hs₂ white_nil fuel (arr ++ [v])
          refine ⟨ls₃, ?_, hs₃⟩
          rw [readElems_of_read hpeek hend h₁ h₂, h₃]
    | cons w val w' more =>
      have hstrm : ls.strm
          = w.text ++ val.text ++ (w'.text ++ 44 :: (more.text ++ 93 :: rest)) := by
        rw [h, Elems.text]
        simp
      obtain ⟨hskip, c, hpeek, hend⟩ := val.skipWhite_text w hstrm
      simp only [Elems.text, List.length_append, List.length_cons] at hfuel
      have hval := val.read_text hskip (endsNumber_white_append w'.white rfl)
        (by omega : val.text.length ≤ fuel)
      rw [Elems.got]
      cases hgot : val.got (ν := ν) with
      | none =>
        rw [hgot] at hval
        exact throws_readElems hpeek hend hval
      | some v =>
        rw [hgot] at hval
        obtain ⟨ls₁, h₁, hs₁⟩ := hval
        obtain ⟨ls₂, h₂, hs₂⟩ := readSeparator_comma hs₁ w'.white 93
          "expected ',' or ']' after array element"
        have hmore := more.readElems_text (arr ++ [v]) hs₂ (by omega : _ ≤ fuel)
        rw [readElems_of_read hpeek hend h₁ h₂]
        simpa [Option.map_map, Function.comp_def] using hmore

theorem Members.readMembers_text (ms : Members) {fuel : Nat} (obj : List (Bytes × JValue ν))
    {ls : LexerStream} {rest : Bytes} (h : ls.strm = ms.text ++ 125 :: rest)
    (hfuel : ms.text.length + 1 ≤ fuel)
    : Yields rest (readMembers fuel obj ls) (ms.got.map (setAll obj)) := by
  cases fuel with
  | zero => cases hfuel
  | succ fuel =>
    cases ms with
    | last w key w₁ w₂ val w' =>
      have hstrm : ls.strm = w.text ++ key.text ++ w₁.text
          ++ 58 :: (w₂.text ++ val.text ++ (w'.text ++ 125 :: rest)) := by
        rw [h, Members.text]
        simp
      obtain ⟨hpeek, ls₁, ls₂, h₁, h₂, hs₂⟩ := key.readKey_text w w₁ w₂ val hstrm
      have hpos := val.length_text_pos
      simp only [Members.text, List.length_append, List.length_cons] at hfuel
      have hval := val.read_text hs₂ (endsNumber_white_append w'.white rfl)
        (by omega : val.text.length ≤ fuel)
      rw [Members.got]
      cases hgot : val.got (ν := ν) with
      | none =>
        rw [hgot] at hval
        exact throws_readMembers hpeek h₁ h₂ hval
      | some v =>
        rw [hgot] at hval
        obtain ⟨ls₃, h₃, hs₃⟩ := hval
        obtain ⟨ls₄, h₄, hs₄⟩ := readSeparator_close hs₃ w'.white rfl (by decide)
          "expected ',' or '\x7d' after name/value pair"
        cases fuel with
        | zero => omega
        | succ fuel =>
          obtain ⟨ls₅, h₅, hs₅⟩ := @readMembers_close ν _ _ [] _ hs₄ white_nil fuel
            (setMember key.got v obj)
          refine ⟨ls₅, ?_, hs₅⟩
          rw [readMembers_of_read hpeek h₁ h₂ h₃ h₄, h₅]
          rfl
    | cons w key w₁ w₂ val w' more =>
      have hstrm : ls.strm = w.text ++ key.text ++ w₁.text
          ++ 58 :: (w₂.text ++ val.text ++ (w'.text ++ 44 :: (more.text ++ 125 :: rest))) := by
        rw [h, Members.text]
        simp
      obtain ⟨hpeek, ls₁, ls₂, h₁, h₂, hs₂⟩ := key.readKey_text w w₁ w₂ val hstrm
      simp only [Members.text, List.length_append, List.length_cons] at hfuel
      have hval := val.read_text hs₂ (endsNumber_white_append w'.white rfl)
        (by omega : val.text.length ≤ fuel)
      rw [Members.got]
      cases hgot : val.got (ν := ν) with
      | none =>
        rw [hgot] at hval
        exact throws_readMembers hpeek h₁ h₂ hval
      | some v =>
        rw [hgot] at hval
        obtain ⟨ls₃, h₃, hs₃⟩ := hval
        obtain ⟨ls₄, h₄, hs₄⟩ := readSeparator_comma hs₃ w'.white 125
          "expected ',' or '\x7d' after name/value pair"
        have hmore := more.readMembers_text (setMember key.got v obj) hs₄ (by omega : _ ≤ fuel)
        rw [readMembers_of_read hpeek h₁ h₂ h₃ h₄]
        rw [Option.bind_some, Option.map_map]
        exact hmore

end

theorem Obj.readObject_text (obj : Obj) (lead trail : Ws)
    : Yields trail.text (readObject (ν := ν) (.new (lead.text ++ obj.text ++ trail.text))) obj.got := by
  cases obj with
  | empty w =>
    have hstrm : (LexerStream.new (lead.text ++ (Obj.empty w).text ++ trail.text)).strm
        = lead.text ++ 123 :: (w.text ++ 125 :: trail.text) := by
      simp [LexerStream.new, Obj.text]
    obtain ⟨ls₁, h₁, hs₁⟩ := expect_cons (skipWhite_strm hstrm lead.white rfl)
      "expected '\x7b' at start of JSON object"
    obtain ⟨ls₂, h₂, hs₂⟩ := readMembers_close (ν := ν) hs₁ w.white (2 * ls₁.strm.length) []
    refine ⟨ls₂, ?_, hs₂⟩
    rw [readObject, beginObject, h₁]
    exact h₂
  | members ms =>
    have hstrm : (LexerStream.new (lead.text ++ (Obj.members ms).text ++ trail.text)).strm
        = lead.text ++ 123 :: (ms.text ++ 125 :: trail.text) := by
      simp [LexerStream.new, Obj.text]
    obtain ⟨ls₁, h₁, hs₁⟩ := expect_cons (skipWhite_strm hstrm lead.white rfl)
      "expected '\x7b' at start of JSON object"
    have hfuel : ms.text.length + 1 ≤ 2 * ls₁.strm.length + 1 := by
      rw [hs₁, List.length_append]
      omega
    have hbody := ms.readMembers_text (ν := ν) [] hs₁ hfuel
    rw [readObject, beginObject, h₁]
    exact hbody

end Reading

section Objects

variable {ν : Type} [Double ν]

/--
`round` takes a number to the nearest `double`. `operator>>` does so with digits that may have a point
between them.
-/
theorem readObject_eq_tree_iff (round : ℚ → ν)
    (hread : ∀ n : Num, n.Plain → Double.read n.text = round n.value) (lead trail : Ws) {obj : Obj}
    (hkeys : obj.Distinct)
    : (∃ ls, readObject (.new (lead.text ++ obj.text ++ trail.text)) = .ok (obj.tree round, ls))
        ↔
      obj.Plain := by
  rw [← obj.got_eq_tree_iff round hread hkeys]
  have hyields := obj.readObject_text (ν := ν) lead trail
  cases hgot : obj.got (ν := ν) with
  | none =>
    rw [hgot] at hyields
    obtain ⟨what, ln, col, hthrow⟩ := hyields
    rw [hthrow]
    simp
  | some members =>
    rw [hgot] at hyields
    obtain ⟨ls, hok, _⟩ := hyields
    rw [hok]
    simp

end Objects

section Decimals

def decimalNat (s : Bytes) : Nat :=
  s.foldl (fun n c => 10 * n + (c.toNat - 48)) 0

/--
Doubles that never have to be rounded.
-/
instance : Double ℚ where
  ofNat n := n
  write q := digits q.num.toNat ++ 47 :: digits q.den
  read s :=
    let frac := (s.dropWhile isdigit).drop 1
    decimalNat (s.takeWhile isdigit) + decimalNat frac / 10 ^ frac.length

theorem Digits.decimalNat_text (ds : Digits) : decimalNat ds.text = ds.toNat := by
  have hdigit : ∀ d : Fin 10, (UInt8.ofNat (48 + d.val)).toNat - 48 = d.val := by decide
  unfold decimalNat text toNat
  rw [List.foldl_map]
  simp only [hdigit]

theorem Num.read_of_plain (n : Num) (h : n.Plain) : Double.read n.text = id n.value := by
  have hvalue : n.value = n.int.toNat + n.fracVal := by
    simp [value, h.1, h.2]
  have hread : Double.read n.text
      = (decimalNat (n.text.takeWhile isdigit) : ℚ)
        + decimalNat ((n.text.dropWhile isdigit).drop 1)
          / 10 ^ ((n.text.dropWhile isdigit).drop 1).length := rfl
  rw [hread, id, hvalue, text_of_plain h, mantissa, List.takeWhile_append_of_pos n.int.isdigit_text,
    List.dropWhile_append_of_pos n.int.isdigit_text, ← n.int.decimalNat_text, fracVal, fracText]
  cases n.frac with
  | none => simp [decimalNat]
  | some ds =>
    have hpoint : ¬ isdigit 46 = true := by decide
    have hlength : ds.text.length = ds.val.length := List.length_map _
    rw [List.takeWhile_cons_of_neg hpoint, List.dropWhile_cons_of_neg hpoint, List.append_nil,
      List.drop_one, List.tail_cons, ds.decimalNat_text, hlength]

/--
`{"a": [1.5, true], "\"": {}}`
-/
def plainObj : Obj :=
  .members
    (.cons [] [.unescaped 'a' (by decide)] [] [.space]
      (.array
        (.cons [] (.number ⟨false, ⟨[1], by decide⟩, by decide, some ⟨[5], by decide⟩, none⟩) []
          (.last [.space] (.bool true) [])))
      []
      (.last [.space] [.escaped .quote] [] [.space] (.object (.empty [])) []))

theorem readObject_eq_tree_plainObj
    : ∃ ls, readObject (.new (Ws.text [] ++ plainObj.text ++ Ws.text [.lineFeed]))
        = .ok (plainObj.tree id, ls) := by
  apply (readObject_eq_tree_iff id Num.read_of_plain [] [.lineFeed] _).mpr
  . simp only [plainObj, Obj.Plain, Members.Plain, Elems.Plain, Value.Plain, and_true]
    refine ⟨⟨?_, by decide⟩, ?_⟩
    . simp [Str.Plain, StrItem.IsUnicode]
    . simp [Str.Plain, StrItem.IsUnicode]
  . simp only [plainObj, Obj.Distinct, Members.Distinct, Elems.Distinct, Value.Distinct, and_true]
    decide

/--
`{"a":-1}`
-/
def minusObj : Obj :=
  .members
    (.last [] [.unescaped 'a' (by decide)] [] []
      (.number ⟨true, ⟨[1], by decide⟩, by decide, none, none⟩) [])

theorem not_readObject_eq_tree_minusObj
    : ¬ ∀ (lead trail : Ws) (obj : Obj), obj.Distinct
        → ∃ ls, readObject (.new (lead.text ++ obj.text ++ trail.text))
            = .ok (obj.tree (id : ℚ → ℚ), ls) := by
  intro h
  have hkeys : minusObj.Distinct := by
    simp [minusObj, Obj.Distinct, Members.Distinct, Value.Distinct, Members.keys]
  obtain ⟨ls, hok⟩ := h [] [] minusObj hkeys
  have hthrow : readObject (ν := ℚ) (.new (Ws.text [] ++ minusObj.text ++ Ws.text []))
      = .error (.error "invalid JSON value" 1 6) := rfl
  rw [hthrow] at hok
  cases hok

end Decimals

end JsonGrammar

end HCraft
