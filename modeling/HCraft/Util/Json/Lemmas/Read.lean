import HCraft.Util.Json.Lemmas.Text

/-!
This module contains that the reader returns the value that a text stands for.
-/

namespace HCraft

open JsonWriter JsonReader

variable {ν : Type} [Double ν]

section Separators

variable {ls : LexerStream} {w s : Bytes}

theorem skipWhite_self {c : UInt8} (h : ls.strm = c :: s) (hc : isspace c = false)
    : (skipWhite ls).strm = c :: s :=
  @skipWhite_strm ls s c [] h white_nil hc

theorem peek_cons {c : UInt8} (h : ls.strm = c :: s) : ls.peek = some c := by
  rw [LexerStream.peek, h]
  rfl

theorem readSeparator_comma (h : ls.strm = w ++ 44 :: s) (hw : White w) (close : UInt8)
    (what : String)
    : ∃ ls', readSeparator close what ls = .ok ls' ∧ ls'.strm = s := by
  have hskip := skipWhite_strm h hw rfl
  obtain ⟨ls', hget, hs⟩ := LexerStream.get_cons hskip
  refine ⟨ls', ?_, hs⟩
  unfold readSeparator
  dsimp only
  rw [if_pos (peek_cons hskip), hget]

theorem readSeparator_close {close : UInt8} (h : ls.strm = w ++ close :: s) (hw : White w)
    (hclose : isspace close = false) (hcomma : close ≠ 44) (what : String)
    : ∃ ls', readSeparator close what ls = .ok ls' ∧ ls'.strm = close :: s := by
  have hskip := skipWhite_strm h hw hclose
  refine ⟨skipWhite ls, ?_, hskip⟩
  unfold readSeparator
  dsimp only
  rw [if_neg (by rw [peek_cons hskip]; simpa using hcomma), if_pos (peek_cons hskip)]

theorem readElems_close (h : ls.strm = w ++ 93 :: s) (hw : White w) (fuel : Nat)
    (arr : List (JValue ν))
    : ∃ ls', readElems (fuel + 1) arr ls = .ok (arr, ls') ∧ ls'.strm = s := by
  have hskip := skipWhite_strm h hw rfl
  obtain ⟨ls', hget, hs⟩ := LexerStream.get_cons hskip
  refine ⟨ls', ?_, hs⟩
  rw [readElems]
  dsimp only
  rw [if_pos (peek_cons hskip), hget]

theorem readMembers_close (h : ls.strm = w ++ 125 :: s) (hw : White w) (fuel : Nat)
    (obj : List (Bytes × JValue ν))
    : ∃ ls', readMembers (fuel + 1) obj ls = .ok (obj, ls') ∧ ls'.strm = s := by
  have hskip := skipWhite_strm h hw rfl
  obtain ⟨ls', hget, hs⟩ := LexerStream.get_cons hskip
  refine ⟨ls', ?_, hs⟩
  rw [readMembers]
  dsimp only
  rw [if_pos (peek_cons hskip), hget]

theorem endsNumber_white_append {c : UInt8} (hw : White w) (hc : isNumberChar c = false)
    : EndsNumber (w ++ c :: s) := by
  intro d hd
  cases w with
  | nil =>
    injection hd with hd
    rw [← hd]
    exact hc
  | cons e w =>
    injection hd with hd
    have hspace := hw e List.mem_cons_self
    rw [← hd]
    simp only [isspace, isNumberChar, isdigit, Bool.or_eq_true, Bool.and_eq_true,
      decide_eq_true_eq, UInt8.le_iff_toNat_le, Bool.or_eq_false_iff, decide_eq_false_iff_not,
      Bool.and_eq_false_iff, ← UInt8.toNat_inj] at hspace ⊢
    simp only [UInt8.reduceToNat] at hspace ⊢
    omega

end Separators

theorem Text.length_pos {val : JValue ν} {t : Bytes} (h : Text val t) : 0 < t.length := by
  obtain ⟨c, t', heq, _⟩ := h.head
  rw [heq]
  exact Nat.zero_lt_succ _

theorem readElems_of_read {ls₀ ls₁ ls₂ : LexerStream} {c : UInt8} {fuel : Nat}
    {arr : List (JValue ν)} {val : JValue ν} (hpeek : (skipWhite ls₀).peek = some c) (hc : c ≠ 93)
    (hval : read fuel (skipWhite ls₀) = .ok (val, ls₁))
    (hsep : readSeparator 93 "expected ',' or ']' after array element" ls₁ = .ok ls₂)
    : readElems (fuel + 1) arr ls₀ = readElems fuel (arr ++ [val]) ls₂ := by
  rw [readElems]
  dsimp only
  rw [if_neg (by rw [hpeek]; simpa using hc), hval]
  dsimp only [bind, Except.bind]
  rw [hsep]

theorem readMembers_of_read {ls₀ ls₁ ls₂ ls₃ ls₄ : LexerStream} {fuel : Nat}
    {obj : List (Bytes × JValue ν)} {key : Bytes} {val : JValue ν}
    (hpeek : (skipWhite ls₀).peek = some 34) (hkey : readStr (skipWhite ls₀) = .ok (key, ls₁))
    (hcolon : expect 58 "expected ':' between name/value pair" (skipWhite ls₁) = .ok ls₂)
    (hval : read fuel (skipWhite ls₂) = .ok (val, ls₃))
    (hsep : readSeparator 125 "expected ',' or '\x7d' after name/value pair" ls₃ = .ok ls₄)
    : readMembers (fuel + 1) obj ls₀ = readMembers fuel (setMember key val obj) ls₄ := by
  rw [readMembers]
  dsimp only
  rw [if_neg (by rw [hpeek]; decide), hkey]
  dsimp only [bind, Except.bind]
  rw [hcolon]
  dsimp only
  rw [hval]
  dsimp only
  rw [hsep]

theorem ElemsText.length_pos {vals : List (JValue ν)} {body : Bytes} (h : ElemsText vals body)
    : 0 < body.length := by
  cases h with
  | nil hw => simp
  | cons hw ht hw' hsep hbody =>
    have := ht.length_pos
    simp only [List.length_append]
    omega

theorem ElemsText.nil_eq {body : Bytes} (h : ElemsText ([] : List (JValue ν)) body)
    : ∃ w, White w ∧ body = w ++ [93] := by
  cases h with
  | nil hw => exact ⟨_, hw, rfl⟩

theorem MembersText.length_pos {vals : List (Bytes × JValue ν)} {body : Bytes}
    (h : MembersText vals body) : 0 < body.length := by
  cases h with
  | nil hw => simp
  | cons hw hw₁ hw₂ ht hw' hsep hbody =>
    have := ht.length_pos
    simp only [List.length_append]
    omega

theorem MembersText.nil_eq {body : Bytes} (h : MembersText ([] : List (Bytes × JValue ν)) body)
    : ∃ w, White w ∧ body = w ++ [125] := by
  cases h with
  | nil hw => exact ⟨_, hw, rfl⟩

section Dispatch

variable {ls : LexerStream} {s rest : Bytes} (fuel : Nat)

theorem read_null (h : ls.strm = [110, 117, 108, 108] ++ rest)
    : ∃ ls', read (fuel + 1) ls = .ok ((.null : JValue ν), ls') ∧ ls'.strm = rest := by
  have hskip := skipWhite_self h rfl
  obtain ⟨ls₁, h₁, hs₁⟩ := @expectAll_append (skipWhite (skipWhite ls)) rest [110, 117, 108, 108]
    (skipWhite_self hskip rfl) "expected 'null'"
  refine ⟨ls₁, ?_, hs₁⟩
  rw [JsonReader.read]
  dsimp only
  rw [peek_cons hskip]
  dsimp only
  rw [if_neg (by decide), if_neg (by decide), if_neg (by decide), if_neg (by decide), if_pos rfl,
    readNull, h₁]
  rfl

theorem read_bool (val : Bool)
    (h : ls.strm = (if val then [116, 114, 117, 101] else [102, 97, 108, 115, 101]) ++ rest)
    : ∃ ls', read (fuel + 1) ls = .ok ((.bool val : JValue ν), ls') ∧ ls'.strm = rest := by
  obtain ⟨c, t', hhead, hspace, hc⟩ : ∃ c t',
      (if val then [116, 114, 117, 101] else [102, 97, 108, 115, 101] : Bytes) = c :: t'
        ∧ isspace c = false ∧ (c = 116 ∨ c = 102) := by
    cases val with
    | true => exact ⟨116, _, rfl, rfl, .inl rfl⟩
    | false => exact ⟨102, _, rfl, rfl, .inr rfl⟩
  rw [hhead] at h
  have hskip := skipWhite_self h hspace
  obtain ⟨ls₁, h₁, hs₁⟩ := @readBool_cons (skipWhite ls) rest val (by rw [hhead]; exact hskip)
  refine ⟨ls₁, ?_, hs₁⟩
  rw [JsonReader.read]
  dsimp only
  rw [peek_cons hskip]
  dsimp only
  have hne : c ≠ 123 ∧ c ≠ 91 ∧ c ≠ 34 := by
    cases hc with
    | inl hc => rw [hc]; decide
    | inr hc => rw [hc]; decide
  rw [if_neg hne.1, if_neg hne.2.1, if_neg hne.2.2, if_pos hc, h₁]
  rfl

theorem read_digit {c : UInt8} (h : ls.strm = c :: s) (hc : isdigit c = true)
    : ∃ ls', ls'.strm = c :: s
        ∧ read (fuel + 1) ls = .ok ((.number (readNumber ls').1 : JValue ν), (readNumber (ν := ν) ls').2)
    := by
  have hskip := skipWhite_self h (isspace_of_isdigit hc)
  refine ⟨_, hskip, ?_⟩
  rw [JsonReader.read]
  dsimp only
  rw [peek_cons hskip]
  dsimp only
  rw [if_neg (ne_of_isdigit hc (by decide)), if_neg (ne_of_isdigit hc (by decide)),
    if_neg (ne_of_isdigit hc (by decide)),
    if_neg (not_or.mpr ⟨ne_of_isdigit hc (by decide), ne_of_isdigit hc (by decide)⟩),
    if_neg (ne_of_isdigit hc (by decide)), if_pos hc]

theorem read_quote (h : ls.strm = 34 :: s)
    : ∃ ls', ls'.strm = 34 :: s
        ∧ read (fuel + 1) ls = (do
          let (val, ls) ← readStr ls'
          return ((.string val : JValue ν), ls)) := by
  have hskip := skipWhite_self h rfl
  refine ⟨_, hskip, ?_⟩
  rw [JsonReader.read]
  dsimp only
  rw [peek_cons hskip]
  dsimp only
  rw [if_neg (by decide), if_neg (by decide), if_pos rfl]

theorem read_bracket (h : ls.strm = 91 :: s)
    : ∃ ls', ls'.strm = s
        ∧ read (fuel + 1) ls = (do
          let (vals, ls) ← readElems fuel [] ls'
          return ((.array vals : JValue ν), ls)) := by
  have hskip := skipWhite_self h rfl
  obtain ⟨ls₁, h₁, hs₁⟩ := expect_cons (skipWhite_self hskip rfl)
    "expected '[' at start of JSON array"
  refine ⟨ls₁, hs₁, ?_⟩
  rw [JsonReader.read]
  dsimp only
  rw [peek_cons hskip]
  dsimp only
  rw [if_neg (by decide), if_pos rfl, beginArray, h₁]
  rfl

theorem read_brace (h : ls.strm = 123 :: s)
    : ∃ ls', ls'.strm = s
        ∧ read (fuel + 1) ls = (do
          let (vals, ls) ← readMembers fuel [] ls'
          return ((.object vals : JValue ν), ls)) := by
  have hskip := skipWhite_self h rfl
  obtain ⟨ls₁, h₁, hs₁⟩ := expect_cons (skipWhite_self hskip rfl)
    "expected '\x7b' at start of JSON object"
  refine ⟨ls₁, hs₁, ?_⟩
  rw [JsonReader.read]
  dsimp only
  rw [peek_cons hskip]
  dsimp only
  rw [if_pos rfl, beginObject, h₁]
  rfl

end Dispatch

/--
An element that a comma follows is taken.
-/
theorem readElems_comma {ls : LexerStream} {w w' t s : Bytes} {val : JValue ν} {fuel : Nat}
    (arr : List (JValue ν)) (hw : White w) (ht : Text val t) (hw' : White w')
    (hread : ∀ ls : LexerStream, ls.strm = t ++ (w' ++ 44 :: s) → EndsNumber (w' ++ 44 :: s) →
      ∃ ls', read fuel ls = .ok (val, ls') ∧ ls'.strm = w' ++ 44 :: s)
    (h : ls.strm = w ++ t ++ w' ++ [44] ++ s)
    : ∃ ls', readElems (fuel + 1) arr ls = readElems fuel (arr ++ [val]) ls' ∧ ls'.strm = s := by
  obtain ⟨c, t', hhead, hspace, hend⟩ := ht.head
  have hstrm : ls.strm = w ++ c :: (t' ++ (w' ++ 44 :: s)) := by
    rw [h, hhead]
    simp
  have hskip := skipWhite_strm hstrm hw hspace
  have hskip' : (skipWhite ls).strm = t ++ (w' ++ 44 :: s) := by
    rw [hskip, hhead, List.cons_append]
  obtain ⟨ls₁, h₁, hs₁⟩ := hread (skipWhite ls) hskip' (endsNumber_white_append hw' rfl)
  obtain ⟨ls₂, h₂, hs₂⟩ := readSeparator_comma hs₁ hw' 93
    "expected ',' or ']' after array element"
  exact ⟨ls₂, readElems_of_read (peek_cons hskip) hend h₁ h₂, hs₂⟩

theorem readKey_encodeStr {ls : LexerStream} {w w₁ w₂ t key rest : Bytes} (hw : White w)
    (hw₁ : White w₁) (hw₂ : White w₂) (ht : ∃ c t', t = c :: t' ∧ isspace c = false)
    (h : ls.strm = w ++ encodeStr key ++ w₁ ++ [58] ++ w₂ ++ t ++ rest)
    : (skipWhite ls).peek = some 34 ∧ ∃ ls₁ ls₂, readStr (skipWhite ls) = .ok (key, ls₁)
        ∧ expect 58 "expected ':' between name/value pair" (skipWhite ls₁) = .ok ls₂
        ∧ (skipWhite ls₂).strm = t ++ rest := by
  have hstrm : ls.strm
      = w ++ 34 :: (key.flatMap escape ++ [34] ++ w₁ ++ [58] ++ w₂ ++ t ++ rest) := by
    rw [h, encodeStr]
    simp
  have hskip := skipWhite_strm hstrm hw rfl
  obtain ⟨ls₁, h₁, hs₁⟩ := @readStr_encodeStr [] key (w₁ ++ 58 :: (w₂ ++ t ++ rest)) (skipWhite ls)
    white_nil (by rw [hskip, encodeStr]; simp)
  obtain ⟨ls₂, h₂, hs₂⟩ := expect_cons (skipWhite_strm hs₁ hw₁ rfl)
    "expected ':' between name/value pair"
  refine ⟨peek_cons hskip, ls₁, ls₂, h₁, h₂, ?_⟩
  obtain ⟨c, t', hhead, hspace⟩ := ht
  rw [hhead, List.cons_append]
  apply skipWhite_strm _ hw₂ hspace
  rw [hs₂, hhead]
  simp

theorem readMembers_comma {ls : LexerStream} {w w₁ w₂ w' t s key : Bytes} {val : JValue ν}
    {fuel : Nat} (obj : List (Bytes × JValue ν)) (hw : White w) (hw₁ : White w₁) (hw₂ : White w₂)
    (ht : Text val t) (hw' : White w')
    (hread : ∀ ls : LexerStream, ls.strm = t ++ (w' ++ 44 :: s) → EndsNumber (w' ++ 44 :: s) →
      ∃ ls', read fuel ls = .ok (val, ls') ∧ ls'.strm = w' ++ 44 :: s)
    (h : ls.strm = w ++ encodeStr key ++ w₁ ++ [58] ++ w₂ ++ t ++ w' ++ [44] ++ s)
    : ∃ ls', readMembers (fuel + 1) obj ls = readMembers fuel (setMember key val obj) ls'
        ∧ ls'.strm = s := by
  obtain ⟨c, t', hhead, hspace, _⟩ := ht.head
  obtain ⟨hpeek, ls₁, ls₂, h₁, h₂, hs₂⟩ := @readKey_encodeStr ls w w₁ w₂ t key (w' ++ 44 :: s)
    hw hw₁ hw₂ ⟨c, t', hhead, hspace⟩ (by rw [h]; simp)
  obtain ⟨ls₃, h₃, hs₃⟩ := hread (skipWhite ls₂) hs₂ (endsNumber_white_append hw' rfl)
  obtain ⟨ls₄, h₄, hs₄⟩ := readSeparator_comma hs₃ hw' 125
    "expected ',' or '\x7d' after name/value pair"
  exact ⟨ls₄, readMembers_of_read hpeek h₁ h₂ h₃ h₄, hs₄⟩

mutual

theorem read_text [LawfulDouble ν] {val : JValue ν} {t : Bytes} (ht : Text val t) {fuel : Nat}
    {ls : LexerStream} {rest : Bytes} (h : ls.strm = t ++ rest) (hrest : EndsNumber rest)
    (hfuel : t.length ≤ fuel)
    : ∃ ls', read fuel ls = .ok (val, ls') ∧ ls'.strm = rest := by
  have hpos := ht.length_pos
  cases fuel with
  | zero => omega
  | succ fuel =>
    cases ht with
    | null => exact read_null fuel h
    | bool val => exact read_bool fuel val h
    | @number n hn =>
      cases hdigits : digits n with
      | nil => exact absurd hdigits (digits_ne_nil n)
      | cons c t' =>
        have hc := @digits_isdigit n c (by rw [hdigits]; exact List.mem_cons_self)
        have hcons : ls.strm = c :: (t' ++ rest) := by rw [h, hdigits, List.cons_append]
        obtain ⟨ls₁, hs₁, h₁⟩ := read_digit (ν := ν) fuel hcons hc
        have hdigits' : ls₁.strm = digits n ++ rest := by rw [hs₁, hdigits, List.cons_append]
        obtain ⟨ls₂, h₂, hs₂⟩ := @readNumber_digits ν _ _ _ _ n hn hdigits' hrest
        refine ⟨ls₂, ?_, hs₂⟩
        rw [h₁, h₂]
    | string val =>
      obtain ⟨ls₁, hs₁, h₁⟩ := read_quote (ν := ν) fuel h
      obtain ⟨ls₂, h₂, hs₂⟩ := @readStr_encodeStr [] val rest _ white_nil hs₁
      refine ⟨ls₂, ?_, hs₂⟩
      rw [h₁, h₂]
      rfl
    | array hbody =>
      obtain ⟨ls₁, hs₁, h₁⟩ := read_bracket (ν := ν) fuel h
      obtain ⟨ls₂, h₂, hs₂⟩ := readElems_text hbody [] hs₁ (Nat.le_of_succ_le_succ hfuel)
      refine ⟨ls₂, ?_, hs₂⟩
      rw [h₁, h₂]
      rfl
    | object hkeys hbody =>
      obtain ⟨ls₁, hs₁, h₁⟩ := read_brace (ν := ν) fuel h
      obtain ⟨ls₂, h₂, hs₂⟩ := readMembers_text hbody [] hs₁ (Nat.le_of_succ_le_succ hfuel) hkeys
      refine ⟨ls₂, ?_, hs₂⟩
      rw [h₁, h₂]
      rfl

theorem readElems_text [LawfulDouble ν] {vals : List (JValue ν)} {body : Bytes}
    (hbody : ElemsText vals body) {fuel : Nat} (arr : List (JValue ν)) {ls : LexerStream}
    {rest : Bytes} (h : ls.strm = body ++ rest) (hfuel : body.length ≤ fuel)
    : ∃ ls', readElems fuel arr ls = .ok (arr ++ vals, ls') ∧ ls'.strm = rest := by
  have hpos := hbody.length_pos
  cases fuel with
  | zero => omega
  | succ fuel =>
    cases hbody with
    | nil hw =>
      rw [List.append_assoc] at h
      rw [List.append_nil]
      exact readElems_close h hw fuel arr
    | @cons w w' t sep body val vals hw ht hw' hsep hbody =>
      have hposBody := hbody.length_pos
      have hposVal := ht.length_pos
      simp only [List.length_append] at hfuel
      have hvalFuel : t.length ≤ fuel := by omega
      have hbodyFuel : body.length ≤ fuel := by omega
      cases hsep with
      | inl hcomma =>
        subst hcomma
        obtain ⟨ls₁, h₁, hs₁⟩ := readElems_comma arr hw ht hw'
          (fun ls hstrm hrest => read_text ht hstrm hrest hvalFuel)
          (h.trans (List.append_assoc _ body rest))
        obtain ⟨ls₂, h₂, hs₂⟩ := readElems_text hbody (arr ++ [val]) hs₁ hbodyFuel
        refine ⟨ls₂, ?_, hs₂⟩
        rw [h₁, h₂, List.append_assoc]
        rfl
      | inr hlast =>
        rcases hlast with ⟨rfl, rfl⟩
        obtain ⟨c, t', hhead, hspace, hend⟩ := ht.head
        obtain ⟨w'', hw'', hbody''⟩ := hbody.nil_eq
        have hstrm : ls.strm = w ++ c :: (t' ++ ((w' ++ w'') ++ 93 :: rest)) := by
          rw [h, hhead, hbody'']
          simp
        have hskip := skipWhite_strm hstrm hw hspace
        have hskip' : (skipWhite ls).strm = t ++ ((w' ++ w'') ++ 93 :: rest) := by
          rw [hskip, hhead, List.cons_append]
        have hwhite := white_append hw' hw''
        obtain ⟨ls₁, h₁, hs₁⟩ := read_text ht hskip' (endsNumber_white_append hwhite rfl) hvalFuel
        obtain ⟨ls₂, h₂, hs₂⟩ := readSeparator_close hs₁ hwhite rfl (by decide)
          "expected ',' or ']' after array element"
        have hend₂ : ls₂.strm = [] ++ 93 :: rest := hs₂
        cases fuel with
        | zero => omega
        | succ fuel =>
          obtain ⟨ls₃, h₃, hs₃⟩ := readElems_close hend₂ white_nil fuel (arr ++ [val])
          refine ⟨ls₃, ?_, hs₃⟩
          rw [readElems_of_read (peek_cons hskip) hend h₁ h₂, h₃]

theorem readMembers_text [LawfulDouble ν] {vals : List (Bytes × JValue ν)} {body : Bytes}
    (hbody : MembersText vals body) {fuel : Nat} (obj : List (Bytes × JValue ν)) {ls : LexerStream}
    {rest : Bytes} (h : ls.strm = body ++ rest) (hfuel : body.length ≤ fuel)
    (hkeys : ((obj ++ vals).map Prod.fst).Nodup)
    : ∃ ls', readMembers fuel obj ls = .ok (obj ++ vals, ls') ∧ ls'.strm = rest := by
  have hpos := hbody.length_pos
  cases fuel with
  | zero => omega
  | succ fuel =>
    cases hbody with
    | nil hw =>
      rw [List.append_assoc] at h
      rw [List.append_nil]
      exact readMembers_close h hw fuel obj
    | @cons w w₁ w₂ w' t sep body key val vals hw hw₁ hw₂ ht hw' hsep hbody =>
      rw [List.append_cons, List.map_append] at hkeys
      have hkey : key ∉ obj.map Prod.fst := by
        intro hmem
        rw [List.map_append, List.append_assoc, List.nodup_append] at hkeys
        exact hkeys.2.2 key hmem key List.mem_cons_self rfl
      rw [← List.map_append] at hkeys
      have hposBody := hbody.length_pos
      have hposVal := ht.length_pos
      simp only [List.length_append] at hfuel
      have hvalFuel : t.length ≤ fuel := by omega
      have hbodyFuel : body.length ≤ fuel := by omega
      cases hsep with
      | inl hcomma =>
        subst hcomma
        obtain ⟨ls₁, h₁, hs₁⟩ := readMembers_comma obj hw hw₁ hw₂ ht hw'
          (fun ls hstrm hrest => read_text ht hstrm hrest hvalFuel)
          (h.trans (List.append_assoc _ body rest))
        obtain ⟨ls₂, h₂, hs₂⟩ := readMembers_text hbody (obj ++ [(key, val)]) hs₁ hbodyFuel hkeys
        refine ⟨ls₂, ?_, hs₂⟩
        rw [h₁, setMember_of_not_mem hkey, h₂, List.append_assoc]
        rfl
      | inr hlast =>
        rcases hlast with ⟨rfl, rfl⟩
        obtain ⟨c, t', hhead, hspace, _⟩ := ht.head
        obtain ⟨w'', hw'', hbody''⟩ := hbody.nil_eq
        obtain ⟨hpeek, ls₁, ls₂, h₁, h₂, hs₂⟩ := @readKey_encodeStr ls w w₁ w₂ t key
          ((w' ++ w'') ++ 125 :: rest) hw hw₁ hw₂ ⟨c, t', hhead, hspace⟩
          (by rw [h, hbody'']; simp)
        have hwhite := white_append hw' hw''
        obtain ⟨ls₃, h₃, hs₃⟩ := read_text ht hs₂ (endsNumber_white_append hwhite rfl) hvalFuel
        obtain ⟨ls₄, h₄, hs₄⟩ := readSeparator_close hs₃ hwhite rfl (by decide)
          "expected ',' or '\x7d' after name/value pair"
        have hend₄ : ls₄.strm = [] ++ 125 :: rest := hs₄
        cases fuel with
        | zero => omega
        | succ fuel =>
          obtain ⟨ls₅, h₅, hs₅⟩ := readMembers_close hend₄ white_nil fuel (obj ++ [(key, val)])
          refine ⟨ls₅, ?_, hs₅⟩
          rw [readMembers_of_read hpeek h₁ h₂ h₃ h₄, setMember_of_not_mem hkey, h₅]

end

end HCraft
