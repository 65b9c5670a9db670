import HCraft.Lib.Scan
import HCraft.Util.Json.Lemmas.Accepts
import HCraft.Util.Json.Lemmas.Write

/-!
This module contains when the writer writes a text of the grammar.
-/

namespace HCraft

open JsonWriter JsonGrammar Scan

/--
`std::isfinite`
-/
class FiniteDouble (ν : Type) where
  isFinite : ν → Bool

/--
`operator<<` writes `inf` and `nan` for numbers that are not finite, and a number of the grammar for
the others.
-/
class LawfulFiniteDouble (ν : Type) [Double ν] [FiniteDouble ν] : Prop where
  write_finite : ∀ val : ν, FiniteDouble.isFinite val = true →
    ∃ n : JsonGrammar.Num, Double.write val = n.text
  write_not_finite : ∀ val : ν, FiniteDouble.isFinite val = false →
    Double.write val ∈ [[105, 110, 102], [45, 105, 110, 102], [110, 97, 110], [45, 110, 97, 110]]

/--
A control character that has no escape.
-/
def IsBare (c : UInt8) : Prop :=
  c < 32 ∧ c ∉ [8, 9, 10, 12, 13]

instance (c : UInt8) : Decidable (IsBare c) :=
  inferInstanceAs (Decidable (_ ∧ _))

def IsUtf8 (str : Bytes) : Prop :=
  ∃ cs : List Char, str = cs.flatMap String.utf8EncodeChar

section Trees

variable {ν : Type}

mutual

/--
A tree whose strings, keys included, and numbers all satisfy a property.
-/
def JValue.All (str : Bytes → Prop) (number : ν → Prop) : JValue ν → Prop
  | .object vals => JValue.AllMembers str number vals
  | .array vals => JValue.AllElems str number vals
  | .number val => number val
  | .string val => str val
  | .bool _ => True
  | .null => True

def JValue.AllMembers (str : Bytes → Prop) (number : ν → Prop) : List (Bytes × JValue ν) → Prop
  | [] => True
  | (key, val) :: vals => str key ∧ val.All str number ∧ JValue.AllMembers str number vals

def JValue.AllElems (str : Bytes → Prop) (number : ν → Prop) : List (JValue ν) → Prop
  | [] => True
  | val :: vals => val.All str number ∧ JValue.AllElems str number vals

end

def JValue.Utf8 (val : JValue ν) : Prop :=
  val.All IsUtf8 (fun _ => True)

/--
No string has a control character without an escape, and every number is finite.
-/
def JValue.Clean [FiniteDouble ν] (val : JValue ν) : Prop :=
  val.All (fun str => ∀ c ∈ str, ¬ IsBare c) (fun val => FiniteDouble.isFinite val = true)

end Trees

/--
What a reader has to remember to tell the inside of a string, and the `n` of `null` from that of `nan`.
-/
inductive Lex where
  | value
  | afterN
  | string
  | escape
  deriving DecidableEq

def Lex.step : Lex → UInt8 → Option Lex
  | .value, c =>
    if c = 34 then
      some .string
    else if c = 105 then
      none -- i
    else if c = 110 then
      some .afterN -- n
    else
      some .value
  | .afterN, c => if c = 117 then some .value else none -- u
  | .string, c =>
    if c = 34 then
      some .value
    else if c = 92 then
      some .escape
    else if c < 32 then
      none
    else
      some .string
  | .escape, _ => some .string

section Grammar

theorem step_value {c : UInt8} (h : c ≠ 34 ∧ c ≠ 105 ∧ c ≠ 110) : Lex.step .value c = some .value := by
  rw [Lex.step, if_neg h.1, if_neg h.2.1, if_neg h.2.2]

theorem step_string {c : UInt8} (h : c ≠ 34 ∧ c ≠ 92 ∧ ¬ c < 32)
    : Lex.step .string c = some .string := by
  rw [Lex.step, if_neg h.1, if_neg h.2.1, if_neg h.2.2]

theorem not_lt_of_mem_utf8EncodeChar {c : Char} (h : 0x20 ≤ c.val)
    : ∀ b ∈ String.utf8EncodeChar c, ¬ b < 32 := by
  intro b hb
  have hle : 32 ≤ c.val.toNat := by simpa [UInt32.le_iff_toNat_le] using h
  rw [UInt8.lt_iff_toNat_lt]
  show ¬ b.toNat < 32
  rcases Utf8.encodeChar_cases c with ⟨heq, hascii⟩ | ⟨_, _, hlarge⟩
  . rw [heq, List.mem_singleton] at hb
    rw [hb, UInt8.toNat_ofNat']
    omega
  . have := hlarge b hb
    omega

theorem scan_codeUnit (u : CodeUnit) : scan Lex.step .string u.text = some .string := by
  have hdigit : ∀ d : HexDigit, Lex.step .string d.byte = some .string := by
    intro d
    rcases d with ⟨val, upper⟩
    revert val upper
    decide
  apply scan_of_forall
  simp [CodeUnit.text, hdigit]

theorem scan_strItem (item : StrItem) : scan Lex.step .string item.text = some .string := by
  cases item with
  | unescaped c h =>
    apply scan_of_forall
    intro b hb
    have hne := utf8EncodeChar_ne h b hb
    exact step_string ⟨hne.1, hne.2, not_lt_of_mem_utf8EncodeChar h.1 b hb⟩
  | escaped e => cases e <;> rfl
  | unicode u => exact scan_codeUnit u

theorem scan_str (s : Str) : scan Lex.step .value s.text = some .value := by
  have hitems : scan Lex.step .string (s.flatMap StrItem.text) = some .string :=
    scan_flatMap (fun item _ => scan_strItem item)
  rw [Str.text, scan_append, scan_cons]
  show (scan Lex.step .string (s.flatMap StrItem.text) >>= _) = _
  rw [hitems]
  rfl

theorem scan_ws (w : Ws) : scan Lex.step .value w.text = some .value := by
  apply scan_of_forall
  intro c hc
  obtain ⟨ws, _, rfl⟩ := List.mem_map.mp hc
  cases ws <;> rfl

theorem scan_digits (ds : Digits) : scan Lex.step .value ds.text = some .value := by
  apply scan_of_forall
  intro c hc
  have hdigit := ds.isdigit_text c hc
  exact step_value ⟨ne_of_isdigit hdigit (by decide), ne_of_isdigit hdigit (by decide),
    ne_of_isdigit hdigit (by decide)⟩

theorem scan_exponent (e : Exponent) : scan Lex.step .value e.text = some .value := by
  rcases e with ⟨upper, sign, ds⟩
  rw [Exponent.text, scan_append]
  cases upper <;> rcases sign with _ | _ | _ <;> exact scan_digits ds

theorem scan_num (n : JsonGrammar.Num) : scan Lex.step .value n.text = some .value := by
  have hfrac : scan Lex.step .value n.fracText = some .value := by
    unfold JsonGrammar.Num.fracText
    split
    . rfl
    . next ds _ =>
      rw [scan_cons]
      exact scan_digits ds
  have hexp : scan Lex.step .value n.expText = some .value := by
    unfold JsonGrammar.Num.expText
    split
    . rfl
    . next e _ => exact scan_exponent e
  have hminus : scan Lex.step .value (if n.minus then [45] else []) = some .value := by
    cases n.minus <;> rfl
  simp only [JsonGrammar.Num.text, scan_append, hminus, scan_digits, hfrac, hexp, Option.bind_eq_bind,
    Option.bind_some]

theorem scan_one {c : UInt8} {text : Bytes} (h : c ≠ 34 ∧ c ≠ 105 ∧ c ≠ 110)
    : scan Lex.step .value (c :: text) = scan Lex.step .value text := by
  rw [scan_cons, step_value h]
  rfl

mutual

theorem scan_value (v : Value) : scan Lex.step .value v.text = some .value := by
  cases v with
  | null => rfl
  | bool val => cases val <;> rfl
  | number n => exact scan_num n
  | string s => exact scan_str s
  | emptyArray w =>
    rw [Value.text, List.cons_append, scan_one (by decide), scan_append, scan_ws]
    rfl
  | array elems =>
    rw [Value.text, List.cons_append, scan_one (by decide), scan_append, scan_elems]
    rfl
  | object obj =>
    rw [Value.text]
    exact scan_obj obj

theorem scan_elems (elems : Elems) : scan Lex.step .value elems.text = some .value := by
  cases elems with
  | last w val w' =>
    simp only [Elems.text, scan_append, scan_ws, scan_value val, Option.bind_eq_bind,
      Option.bind_some]
  | cons w val w' rest =>
    have hone := @scan_one 44 rest.text (by decide)
    simp only [Elems.text, scan_append, scan_ws, scan_value val, hone, scan_elems rest,
      Option.bind_eq_bind, Option.bind_some]

theorem scan_obj (obj : Obj) : scan Lex.step .value obj.text = some .value := by
  cases obj with
  | empty w =>
    rw [Obj.text, List.cons_append, scan_one (by decide), scan_append, scan_ws]
    rfl
  | members ms =>
    rw [Obj.text, List.cons_append, scan_one (by decide), scan_append, scan_members]
    rfl

theorem scan_members (ms : Members) : scan Lex.step .value ms.text = some .value := by
  cases ms with
  | last w key w₁ w₂ val w' =>
    have hone := @scan_one 58 (w₂.text ++ val.text ++ w'.text) (by decide)
    simp only [Members.text, scan_append, scan_ws, scan_str, scan_value val, hone,
      Option.bind_eq_bind, Option.bind_some]
  | cons w key w₁ w₂ val w' rest =>
    have hcolon := @scan_one 58 (w₂.text ++ val.text ++ w'.text ++ 44 :: rest.text) (by decide)
    have hcomma := @scan_one 44 rest.text (by decide)
    simp only [Members.text, scan_append, scan_ws, scan_str, scan_value val, hcolon, hcomma,
      scan_members rest, Option.bind_eq_bind, Option.bind_some]

end

end Grammar

section Rejected

variable {ν : Type} [Double ν] [FiniteDouble ν] {fmt : JsonFormat}

theorem decides_escape (c : UInt8) : Decides Lex.step .string (escape c) (¬ IsBare c) := by
  have hall : ∀ n : Fin 256, scan Lex.step .string (escape (UInt8.ofNat n))
      = if IsBare (UInt8.ofNat n) then none else some .string := by
    decide +kernel
  have hc := hall ⟨c.toNat, c.toNat_lt⟩
  rw [UInt8.ofNat_toNat] at hc
  constructor
  . intro h
    rw [hc, if_neg h]
  . intro h
    rw [hc, if_pos (not_not.mp h)]

theorem decides_encodeStr (str : Bytes)
    : Decides Lex.step .value (encodeStr str) (∀ c ∈ str, ¬ IsBare c) := by
  have hscan : scan Lex.step .value (encodeStr str)
      = scan Lex.step .string (str.flatMap escape) >>= fun s => scan Lex.step s [34] := by
    rw [encodeStr, scan_append]
    rfl
  obtain ⟨hok, hnot⟩ := decides_flatMap decides_escape str
  constructor
  . intro h
    rw [hscan, hok h]
    rfl
  . intro h
    rw [hscan, hnot h]
    rfl

theorem decides_write_number [LawfulFiniteDouble ν] (val : ν)
    : Decides Lex.step .value (Double.write val) (FiniteDouble.isFinite val = true) := by
  constructor
  . intro h
    obtain ⟨n, hn⟩ := LawfulFiniteDouble.write_finite val h
    rw [hn]
    exact scan_num n
  . intro h
    have hmem := LawfulFiniteDouble.write_not_finite val (Bool.eq_false_iff.mpr h)
    simp only [List.mem_cons, List.not_mem_nil, or_false] at hmem
    rcases hmem with h | h | h | h
    . rw [h]; rfl
    . rw [h]; rfl
    . rw [h]; rfl
    . rw [h]; rfl

theorem Blank.decides {w : Bytes} (h : Blank w) : Decides Lex.step .value w True := by
  apply decides_true
  apply scan_of_forall
  intro c hc
  rcases h c hc with rfl | rfl
  . rfl
  . rfl

theorem decides_char (c : UInt8) (h : Lex.step .value c = some .value)
    : Decides Lex.step .value [c] True := by
  apply decides_true
  rw [scan_cons, h]
  rfl

theorem decides_separator {α : Type} {vals : List α} {sep : Bytes} (h : Separates vals sep)
    : Decides Lex.step .value sep True := by
  rcases h with ⟨_, rfl⟩ | ⟨_, w, hw, rfl⟩
  . exact decides_true rfl
  . exact ((decides_char 44 rfl).append hw.decides).iff (and_self_iff)

mutual

theorem decides_write [LawfulFiniteDouble ν] (depth : Nat) (val : JValue ν)
    : Returns (write fmt depth val) (fun out => Decides Lex.step .value out val.Clean) := by
  unfold JValue.Clean
  cases val with
  | object vals =>
    rw [JValue.All]
    have hbody := decides_writeMembers depth _ 0 vals (Nat.zero_add _)
    refine (returns_write_object hbody).mono ?_
    rintro _ ⟨hw, hbody, hspaces⟩
    have hopen := hw.decides.append (decides_char 123 rfl)
    have hinner := (hopen.append (@blank_newline fmt).decides).append hbody
    have := (hinner.append hspaces.decides).append (decides_char 125 rfl)
    exact this.iff (by simp)
  | array vals =>
    rw [JValue.All]
    have hbody := decides_writeElems depth _ 0 vals (Nat.zero_add _)
    refine (returns_write_array hbody).mono ?_
    rintro _ ⟨hw, hbody, hspaces⟩
    have hopen := hw.decides.append (decides_char 91 rfl)
    have hinner := (hopen.append (@blank_newline fmt).decides).append hbody
    have := (hinner.append hspaces.decides).append (decides_char 93 rfl)
    exact this.iff (by simp)
  | string val =>
    rw [write, JValue.All]
    exact returns_ok (decides_encodeStr val)
  | number val =>
    rw [write, JValue.All]
    exact returns_ok (decides_write_number val)
  | bool val =>
    rw [write, JValue.All]
    apply returns_ok
    apply decides_true
    cases val <;> rfl
  | null =>
    rw [write, JValue.All]
    exact returns_ok (decides_true rfl)

theorem decides_writeMembers [LawfulFiniteDouble ν] (depth count i : Nat)
    (vals : List (Bytes × JValue ν)) (hcount : i + vals.length = count)
    : Returns (writeMembers fmt depth count i vals)
        (fun out => Decides Lex.step .value out
          (JValue.AllMembers (fun str => ∀ c ∈ str, ¬ IsBare c)
            (fun val => FiniteDouble.isFinite val = true) vals)) := by
  match vals with
  | [] =>
    rw [writeMembers, JValue.AllMembers]
    exact returns_ok (decides_true rfl)
  | (key, val) :: vals =>
    rw [JValue.AllMembers]
    have hval := decides_write (depth + 1) val
    have hvals := decides_writeMembers depth count (i + 1) vals
      (by rw [List.length_cons] at hcount; omega)
    refine (returns_writeMembers_cons hcount hval hvals).mono ?_
    rintro _ ⟨hindent, hbefore, hafter, hout, hsep, hrest⟩
    have hkey := (hindent.decides.append (decides_encodeStr key)).append hbefore.decides
    have hcolon := (hkey.append (decides_char 58 rfl)).append hafter.decides
    have hval := ((hcolon.append hout).append (decides_separator hsep)).append
      (@blank_newline fmt).decides
    refine (hval.append hrest).iff ?_
    unfold JValue.Clean
    simp [and_assoc]

theorem decides_writeElems [LawfulFiniteDouble ν] (depth count i : Nat) (vals : List (JValue ν))
    (hcount : i + vals.length = count)
    : Returns (writeElems fmt depth count i vals)
        (fun out => Decides Lex.step .value out
          (JValue.AllElems (fun str => ∀ c ∈ str, ¬ IsBare c)
            (fun val => FiniteDouble.isFinite val = true) vals)) := by
  match vals with
  | [] =>
    rw [writeElems, JValue.AllElems]
    exact returns_ok (decides_true rfl)
  | val :: vals =>
    rw [JValue.AllElems]
    have hval := decides_write (depth + 1) val
    have hvals := decides_writeElems depth count (i + 1) vals
      (by rw [List.length_cons] at hcount; omega)
    refine (returns_writeElems_cons hcount hval hvals).mono ?_
    rintro _ ⟨hindent, hout, hsep, hending, hrest⟩
    have hval := ((hindent.decides.append hout).append (decides_separator hsep)).append
      hending.decides
    refine (hval.append hrest).iff ?_
    unfold JValue.Clean
    simp

end

end Rejected

section Written

variable {ν : Type} [Double ν] [FiniteDouble ν] {fmt : JsonFormat}

theorem escape_grammar (c : UInt8)
    : (∃ e : Escape, escape c = [92, e.letter])
        ∨ escape c = [c] ∧ c ≠ 34 ∧ c ≠ 92 ∧ c ∉ [8, 9, 10, 12, 13] := by
  unfold escape
  split
  . exact .inl ⟨.quote, rfl⟩
  . next hquote =>
    split
    . exact .inl ⟨.backslash, rfl⟩
    . next hbackslash =>
      split
      . exact .inl ⟨.b, rfl⟩
      . next hb =>
        split
        . exact .inl ⟨.f, rfl⟩
        . next hf =>
          split
          . exact .inl ⟨.n, rfl⟩
          . next hn =>
            split
            . exact .inl ⟨.r, rfl⟩
            . next hr =>
              split
              . exact .inl ⟨.t, rfl⟩
              . next ht => exact .inr ⟨rfl, hquote, hbackslash, by simp [hb, hf, hn, hr, ht]⟩

theorem flatMap_escape_of_large {str : Bytes} (h : ∀ b ∈ str, 128 ≤ b.toNat)
    : str.flatMap escape = str := by
  induction str with
  | nil => rfl
  | cons b str ih =>
    have hb := h b List.mem_cons_self
    have hescape : escape b = [b] := by
      unfold escape
      simp only [← UInt8.toNat_inj, UInt8.reduceToNat]
      repeat rw [if_neg (by omega)]
    rw [List.flatMap_cons, hescape, ih (fun b hb => h b (List.mem_cons_of_mem _ hb))]
    rfl

theorem exists_strItem {c : Char} (h : ∀ b ∈ String.utf8EncodeChar c, ¬ IsBare b)
    : ∃ item : StrItem, item.text = (String.utf8EncodeChar c).flatMap escape := by
  rcases Utf8.encodeChar_cases c with ⟨heq, hascii⟩ | ⟨_, hgt, hlarge⟩
  . rw [heq, List.flatMap_singleton]
    rcases escape_grammar (UInt8.ofNat c.val.toNat) with ⟨e, he⟩ | ⟨hescape, hquote, hbackslash, hmem⟩
    . exact ⟨.escaped e, he.symm⟩
    . have hbare := h (UInt8.ofNat c.val.toNat) (by rw [heq]; exact List.mem_singleton_self _)
      have hlow : ¬ UInt8.ofNat c.val.toNat < 32 := fun hlt => hbare ⟨hlt, hmem⟩
      rw [← UInt8.toNat_inj.ne, UInt8.toNat_ofNat'] at hquote hbackslash
      rw [UInt8.lt_iff_toNat_lt, UInt8.toNat_ofNat'] at hlow
      simp only [UInt8.reduceToNat] at hquote hbackslash hlow
      have hunescaped : 0x20 ≤ c.val ∧ c.val ≠ 34 ∧ c.val ≠ 92 := by
        simp only [UInt32.le_iff_toNat_le, ne_eq, ← UInt32.toNat_inj, UInt32.reduceToNat]
        omega
      refine ⟨.unescaped c hunescaped, ?_⟩
      rw [StrItem.text, heq, hescape]
  . have hunescaped : 0x20 ≤ c.val ∧ c.val ≠ 34 ∧ c.val ≠ 92 := by
      simp only [UInt32.le_iff_toNat_le, ne_eq, ← UInt32.toNat_inj, UInt32.reduceToNat]
      omega
    exact ⟨.unescaped c hunescaped, (flatMap_escape_of_large hlarge).symm⟩

theorem exists_str {str : Bytes} (hutf8 : IsUtf8 str) (h : ∀ c ∈ str, ¬ IsBare c)
    : ∃ s : Str, s.text = encodeStr str := by
  obtain ⟨cs, rfl⟩ := hutf8
  have hitems : ∃ items : Str,
      items.flatMap StrItem.text = (cs.flatMap String.utf8EncodeChar).flatMap escape := by
    induction cs with
    | nil => exact ⟨[], rfl⟩
    | cons c cs ih =>
      rw [List.flatMap_cons, List.forall_mem_append] at h
      obtain ⟨item, hitem⟩ := exists_strItem h.1
      obtain ⟨items, hitems⟩ := ih h.2
      refine ⟨item :: items, ?_⟩
      rw [List.flatMap_cons, List.flatMap_cons, List.flatMap_append, hitem, hitems]
  obtain ⟨items, hitems⟩ := hitems
  exact ⟨items, by rw [Str.text, encodeStr, hitems]⟩

theorem Blank.exists_ws {w : Bytes} (h : Blank w) : ∃ ws : Ws, ws.text = w := by
  induction w with
  | nil => exact ⟨[], rfl⟩
  | cons c w ih =>
    obtain ⟨ws, hws⟩ := ih (fun d hd => h d (List.mem_cons_of_mem _ hd))
    rcases h c List.mem_cons_self with rfl | rfl
    . exact ⟨.space :: ws, congrArg (32 :: ·) hws⟩
    . exact ⟨.lineFeed :: ws, congrArg (10 :: ·) hws⟩

theorem Ws.text_append (w w' : Ws) : Ws.text (w ++ w') = w.text ++ w'.text :=
  List.map_append

/--
The inside of an array.
-/
def IsElems (vals : List (JValue ν)) (body : Bytes) : Prop :=
  vals = [] ∧ body = [] ∨ vals ≠ [] ∧ ∀ w spaces : Ws, ∃ elems : Elems,
    elems.text = w.text ++ body ++ spaces.text

def IsMembers (vals : List (Bytes × JValue ν)) (body : Bytes) : Prop :=
  vals = [] ∧ body = [] ∨ vals ≠ [] ∧ ∀ w spaces : Ws, ∃ ms : Members,
    ms.text = w.text ++ body ++ spaces.text

omit [Double ν] [FiniteDouble ν] in
theorem IsElems.array {vals : List (JValue ν)} {body w spaces : Bytes} (h : IsElems vals body)
    (hw : Blank w) (hspaces : Blank spaces)
    : ∃ v : Value, v.text = 91 :: (w ++ body ++ spaces) ++ [93] := by
  obtain ⟨w, rfl⟩ := hw.exists_ws
  obtain ⟨spaces, rfl⟩ := hspaces.exists_ws
  rcases h with ⟨_, rfl⟩ | ⟨_, h⟩
  . exact ⟨.emptyArray (w ++ spaces), by rw [Value.text, Ws.text_append, List.append_nil]⟩
  . obtain ⟨elems, helems⟩ := h w spaces
    exact ⟨.array elems, by rw [Value.text, helems]⟩

omit [Double ν] [FiniteDouble ν] in
theorem IsMembers.object {vals : List (Bytes × JValue ν)} {body w spaces : Bytes}
    (h : IsMembers vals body) (hw : Blank w) (hspaces : Blank spaces)
    : ∃ obj : Obj, obj.text = 123 :: (w ++ body ++ spaces) ++ [125] := by
  obtain ⟨w, rfl⟩ := hw.exists_ws
  obtain ⟨spaces, rfl⟩ := hspaces.exists_ws
  rcases h with ⟨_, rfl⟩ | ⟨_, h⟩
  . exact ⟨.empty (w ++ spaces), by rw [Obj.text, Ws.text_append, List.append_nil]⟩
  . obtain ⟨ms, hms⟩ := h w spaces
    exact ⟨.members ms, by rw [Obj.text, hms]⟩

omit [Double ν] [FiniteDouble ν] in
theorem IsElems.cons {vals : List (JValue ν)} {val : JValue ν} {indent sep ending rest : Bytes}
    {w : Ws} {v : Value} (hindent : Blank indent)
    (hsep : Separates vals sep) (hending : Blank ending)
    (h : IsElems vals rest)
    : IsElems (val :: vals) (indent ++ (w.text ++ v.text) ++ sep ++ ending ++ rest) := by
  refine .inr ⟨List.cons_ne_nil val vals, ?_⟩
  intro w₀ spaces
  obtain ⟨indent, rfl⟩ := hindent.exists_ws
  obtain ⟨ending, rfl⟩ := hending.exists_ws
  rcases hsep with ⟨hnil, rfl⟩ | ⟨hne, w', hw', rfl⟩
  . rcases h with ⟨_, rfl⟩ | ⟨hne, _⟩
    . refine ⟨.last (w₀ ++ indent ++ w) v (ending ++ spaces), ?_⟩
      simp only [Elems.text, Ws.text_append, List.append_assoc, List.append_nil]
    . exact absurd hnil hne
  . rcases h with ⟨hnil, _⟩ | ⟨_, h⟩
    . exact absurd hnil hne
    . obtain ⟨w', rfl⟩ := hw'.exists_ws
      obtain ⟨elems, helems⟩ := h (w' ++ ending) spaces
      refine ⟨.cons (w₀ ++ indent ++ w) v [] elems, ?_⟩
      simp only [Elems.text, helems, Ws.text_append, List.append_assoc, List.cons_append]
      rfl

omit [Double ν] [FiniteDouble ν] in
theorem IsMembers.cons {vals : List (Bytes × JValue ν)} {val : JValue ν} {key : Bytes}
    {indent before after sep newline rest : Bytes} {s : Str} {w : Ws} {v : Value}
    (hindent : Blank indent) (hbefore : Blank before) (hafter : Blank after)
    (hsep : Separates vals sep)
    (hnewline : Blank newline) (h : IsMembers vals rest)
    : IsMembers ((key, val) :: vals)
        (indent ++ s.text ++ before ++ [58] ++ after ++ (w.text ++ v.text) ++ sep ++ newline
          ++ rest) := by
  refine .inr ⟨List.cons_ne_nil (key, val) vals, ?_⟩
  intro w₀ spaces
  obtain ⟨indent, rfl⟩ := hindent.exists_ws
  obtain ⟨before, rfl⟩ := hbefore.exists_ws
  obtain ⟨after, rfl⟩ := hafter.exists_ws
  obtain ⟨newline, rfl⟩ := hnewline.exists_ws
  rcases hsep with ⟨hnil, rfl⟩ | ⟨hne, w', hw', rfl⟩
  . rcases h with ⟨_, rfl⟩ | ⟨hne, _⟩
    . refine ⟨.last (w₀ ++ indent) s before (after ++ w) v (newline ++ spaces), ?_⟩
      simp only [Members.text, Ws.text_append, List.append_assoc, List.append_nil, List.nil_append,
        List.cons_append]
    . exact absurd hnil hne
  . rcases h with ⟨hnil, _⟩ | ⟨_, h⟩
    . exact absurd hnil hne
    . obtain ⟨w', rfl⟩ := hw'.exists_ws
      obtain ⟨ms, hms⟩ := h (w' ++ newline) spaces
      refine ⟨.cons (w₀ ++ indent) s before (after ++ w) v [] ms, ?_⟩
      simp only [Members.text, hms, Ws.text_append, List.append_assoc, List.nil_append,
        List.cons_append]
      rfl

omit [FiniteDouble ν] in
theorem writes_object {depth : Nat} {vals : List (Bytes × JValue ν)}
    (hbody : Returns (writeMembers fmt depth vals.length 0 vals) (IsMembers vals))
    : Returns (write fmt depth (.object vals))
        (fun out => ∃ (w : Ws) (obj : Obj), out = w.text ++ obj.text) := by
  refine (returns_write_object hbody).mono ?_
  rintro _ ⟨hw, hbody, hspaces⟩
  obtain ⟨w, rfl⟩ := hw.exists_ws
  obtain ⟨obj, hobj⟩ := hbody.object (@blank_newline fmt) hspaces
  refine ⟨w, obj, ?_⟩
  rw [hobj]
  simp

mutual

theorem writes_value [LawfulFiniteDouble ν] (depth : Nat) (val : JValue ν) (hutf8 : val.Utf8)
    (hclean : val.Clean)
    : Returns (write fmt depth val) (fun out => ∃ (w : Ws) (v : Value), out = w.text ++ v.text) := by
  unfold JValue.Utf8 at hutf8
  unfold JValue.Clean at hclean
  cases val with
  | object vals =>
    rw [JValue.All] at hutf8 hclean
    refine (writes_object (writes_members depth _ 0 vals hutf8 hclean (Nat.zero_add _))).mono ?_
    rintro _ ⟨w, obj, rfl⟩
    exact ⟨w, .object obj, by rw [Value.text]⟩
  | array vals =>
    rw [JValue.All] at hutf8 hclean
    have hbody := writes_elems depth _ 0 vals hutf8 hclean (Nat.zero_add _)
    refine (returns_write_array hbody).mono ?_
    rintro _ ⟨hw, hbody, hspaces⟩
    obtain ⟨w, rfl⟩ := hw.exists_ws
    obtain ⟨v, hv⟩ := hbody.array (@blank_newline fmt) hspaces
    refine ⟨w, v, ?_⟩
    rw [hv]
    simp
  | string val =>
    rw [JValue.All] at hutf8 hclean
    obtain ⟨s, hs⟩ := exists_str hutf8 hclean
    rw [write]
    exact returns_ok ⟨[], .string s, by rw [Value.text, hs]; rfl⟩
  | number val =>
    rw [JValue.All] at hclean
    obtain ⟨n, hn⟩ := LawfulFiniteDouble.write_finite val hclean
    rw [write]
    exact returns_ok ⟨[], .number n, by rw [Value.text, hn]; rfl⟩
  | bool val =>
    rw [write]
    exact returns_ok ⟨[], .bool val, by rw [Value.text]; rfl⟩
  | null =>
    rw [write]
    exact returns_ok ⟨[], .null, by rw [Value.text]; rfl⟩

theorem writes_members [LawfulFiniteDouble ν] (depth count i : Nat) (vals : List (Bytes × JValue ν))
    (hutf8 : JValue.AllMembers IsUtf8 (fun _ => True) vals)
    (hclean : JValue.AllMembers (fun str => ∀ c ∈ str, ¬ IsBare c)
      (fun val => FiniteDouble.isFinite val = true) vals)
    (hcount : i + vals.length = count)
    : Returns (writeMembers fmt depth count i vals) (IsMembers vals) := by
  match vals with
  | [] =>
    rw [writeMembers]
    exact returns_ok (.inl ⟨rfl, rfl⟩)
  | (key, val) :: vals =>
    rw [JValue.AllMembers] at hutf8 hclean
    have hval := writes_value (depth + 1) val hutf8.2.1 hclean.2.1
    have hvals := writes_members depth count (i + 1) vals hutf8.2.2 hclean.2.2
      (by rw [List.length_cons] at hcount; omega)
    refine (returns_writeMembers_cons hcount hval hvals).mono ?_
    rintro _ ⟨hindent, hbefore, hafter, ⟨w, v, rfl⟩, hsep, hrest⟩
    obtain ⟨s, hs⟩ := exists_str hutf8.1 hclean.1
    rw [← hs]
    exact hrest.cons hindent hbefore hafter hsep blank_newline

theorem writes_elems [LawfulFiniteDouble ν] (depth count i : Nat) (vals : List (JValue ν))
    (hutf8 : JValue.AllElems IsUtf8 (fun _ => True) vals)
    (hclean : JValue.AllElems (fun str => ∀ c ∈ str, ¬ IsBare c)
      (fun val => FiniteDouble.isFinite val = true) vals)
    (hcount : i + vals.length = count)
    : Returns (writeElems fmt depth count i vals) (IsElems vals) := by
  match vals with
  | [] =>
    rw [writeElems]
    exact returns_ok (.inl ⟨rfl, rfl⟩)
  | val :: vals =>
    rw [JValue.AllElems] at hutf8 hclean
    have hval := writes_value (depth + 1) val hutf8.1 hclean.1
    have hvals := writes_elems depth count (i + 1) vals hutf8.2 hclean.2
      (by rw [List.length_cons] at hcount; omega)
    refine (returns_writeElems_cons hcount hval hvals).mono ?_
    rintro _ ⟨hindent, ⟨w, v, rfl⟩, hsep, hending, hrest⟩
    exact hrest.cons hindent hsep hending

end

/--
`out` is an object by the grammar, behind white space.
-/
def IsObjectText (out : Bytes) : Prop :=
  ∃ (w : Ws) (obj : Obj) (w' : Ws), out = w.text ++ obj.text ++ w'.text

theorem IsObjectText.scan {out : Bytes} (h : IsObjectText out)
    : scan Lex.step .value out = some .value := by
  obtain ⟨w, obj, w', rfl⟩ := h
  simp only [scan_append, scan_ws, scan_obj, Option.bind_eq_bind, Option.bind_some]

/--
An object is written as one if no string has a control character without an escape, every number is
finite, and the widest indentation is an `int`.
-/
theorem isObjectText_write_iff [LawfulFiniteDouble ν] (hfmt : fmt.NonNegative)
    {vals : List (Bytes × JValue ν)} (hutf8 : (JValue.object vals).Utf8)
    : (∃ out, write fmt 0 (.object vals) = .ok out ∧ IsObjectText out)
        ↔
      (JValue.object vals).Clean ∧ fmt.indent * (JValue.object vals).height < 2 ^ 31 := by
  have hzero : fmt.indent * (0 : Nat) < 2 ^ 31 := by
    rw [Nat.cast_zero, Int.mul_zero]
    decide
  have hsucceeds := succeeds_write_iff hfmt 0 (.object vals) hzero
  rw [Nat.zero_add] at hsucceeds
  rw [← hsucceeds]
  constructor
  . rintro ⟨out, hwrite, htext⟩
    refine ⟨?_, out, hwrite⟩
    by_contra hclean
    have hscan := htext.scan
    rw [(decides_write 0 _ out hwrite).2 hclean] at hscan
    cases hscan
  . rintro ⟨hclean, out, hwrite⟩
    unfold JValue.Utf8 at hutf8
    unfold JValue.Clean at hclean
    rw [JValue.All] at hutf8 hclean
    have hbody := @writes_members ν _ _ fmt _ 0 _ 0 vals hutf8 hclean (Nat.zero_add _)
    obtain ⟨w, obj, hout⟩ := writes_object hbody out hwrite
    exact ⟨out, hwrite, w, obj, [], by rw [hout]; exact (List.append_nil _).symm⟩

end Written

section Chat

/--
The object that `make_chat_message` writes.
-/
def chatMessage {ν : Type} (msg : Bytes) : List (Bytes × JValue ν) :=
  [([116, 101, 120, 116], .string msg)]

theorem exists_num_digits (n : Nat) : ∃ num : JsonGrammar.Num, digits n = num.text := by
  unfold digits
  split
  . exact ⟨⟨false, ⟨[0], by decide⟩, by decide, none, none⟩, rfl⟩
  . next h =>
    have hdigit : ∀ d ∈ Nat.digits 10 n, d < 10 := fun d hd => Nat.digits_lt_base (by omega) hd
    have hnil : Nat.digits 10 n ≠ [] := Nat.digits_ne_nil_iff_ne_zero.mpr h
    have hne : (Nat.digits 10 n).reverse.map (Fin.ofNat 10) ≠ [] := by
      simpa using hnil
    have hhead : ((Nat.digits 10 n).reverse.map (Fin.ofNat 10)).head? ≠ some 0 := by
      have hlast := hdigit _ (List.getLast_mem hnil)
      rw [List.head?_map, List.head?_reverse, List.getLast?_eq_some_getLast hnil, Option.map_some]
      intro hzero
      injection hzero with hzero
      have hmod := congrArg Fin.val hzero
      rw [Fin.val_ofNat, Nat.mod_eq_of_lt hlast] at hmod
      exact Nat.getLast_digit_ne_zero 10 h hmod
    refine ⟨⟨false, ⟨_, hne⟩, fun h => absurd h hhead, none, none⟩, ?_⟩
    have hmap : (Nat.digits 10 n).reverse.map (fun d => UInt8.ofNat (48 + d))
        = ((Nat.digits 10 n).reverse.map (Fin.ofNat 10)).map (fun d => UInt8.ofNat (48 + d.val)) := by
      rw [List.map_map]
      apply List.map_congr_left
      intro d hd
      rw [Function.comp_apply, Fin.val_ofNat, Nat.mod_eq_of_lt (hdigit d (List.mem_reverse.mp hd))]
    rw [hmap]
    simp [JsonGrammar.Num.text, JsonGrammar.Num.fracText, JsonGrammar.Num.expText, Digits.text]

/--
Doubles that are natural numbers or infinite.
-/
instance : Double (Option Nat) where
  ofNat n := some n
  write val := val.elim [105, 110, 102] digits
  read s := some (decimalNat s)

instance : FiniteDouble (Option Nat) where
  isFinite val := val.isSome

instance : LawfulFiniteDouble (Option Nat) where
  write_finite val h := by
    obtain ⟨n, rfl⟩ := Option.isSome_iff_exists.mp h
    exact exists_num_digits n
  write_not_finite val h := by
    cases val with
    | none => exact List.mem_cons_self
    | some n => cases h

/--
`{"text": "é"}`, and `{"n": inf}`
-/
theorem isObjectText_write_iff_sample
    : ((∃ out, write .nice 0 (.object (chatMessage (ν := Option Nat) [195, 169])) = .ok out
          ∧ IsObjectText out)
        ↔
      (JValue.object (chatMessage (ν := Option Nat) [195, 169])).Clean
        ∧ JsonFormat.nice.indent
            * (JValue.object (chatMessage (ν := Option Nat) [195, 169])).height < 2 ^ 31)
      ∧ ((∃ out, write .packed 0 (.object [([110], .number (none : Option Nat))]) = .ok out
          ∧ IsObjectText out)
        ↔
      (JValue.object [([110], .number (none : Option Nat))]).Clean
        ∧ JsonFormat.packed.indent
            * (JValue.object [([110], .number (none : Option Nat))]).height < 2 ^ 31) := by
  constructor
  . apply isObjectText_write_iff
    . constructor <;> decide
    . simp only [chatMessage, JValue.Utf8, JValue.All, JValue.AllMembers, and_true]
      exact ⟨⟨['t', 'e', 'x', 't'], by decide⟩, ⟨['é'], by decide⟩⟩
  . apply isObjectText_write_iff
    . constructor <;> decide
    . simp only [JValue.Utf8, JValue.All, JValue.AllMembers, and_true]
      exact ⟨['n'], by decide⟩

/--
A chat message with a control character.
-/
theorem not_isObjectText_chatMessage
    : ¬ ∃ out, write .packed 0 (.object (chatMessage (ν := Option Nat) [1])) = .ok out
        ∧ IsObjectText out := by
  rintro ⟨out, hwrite, htext⟩
  have hout : write .packed 0 (.object (chatMessage (ν := Option Nat) [1]))
      = .ok [123, 34, 116, 101, 120, 116, 34, 58, 34, 1, 34, 125] := by
    rfl
  rw [hout] at hwrite
  injection hwrite with hwrite
  have hscan := htext.scan
  rw [← hwrite] at hscan
  revert hscan
  decide

end Chat

end HCraft
