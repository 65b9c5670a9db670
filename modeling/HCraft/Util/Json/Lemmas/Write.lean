import HCraft.Lib.Returns
import HCraft.Util.Json.Lemmas.Text

/-!
This module contains that the writer writes texts, and when it does so.
-/

namespace HCraft

open JsonWriter JsonReader

variable {ν : Type} [Double ν]

mutual

/--
Values that are written and read without a loss.
-/
def JValue.Plain : JValue ν → Prop
  | .object vals => (vals.map Prod.fst).Nodup ∧ JValue.PlainMembers vals
  | .array vals => JValue.PlainElems vals
  | .number val => ∃ n, n < 10 ^ 6 ∧ val = Double.ofNat n
  | .string _ => True
  | .bool _ => True
  | .null => True

def JValue.PlainMembers : List (Bytes × JValue ν) → Prop
  | [] => True
  | (_, val) :: vals => val.Plain ∧ JValue.PlainMembers vals

def JValue.PlainElems : List (JValue ν) → Prop
  | [] => True
  | val :: vals => val.Plain ∧ JValue.PlainElems vals

end

section Texts

variable {fmt : JsonFormat}

/--
The white space that the writer writes.
-/
def Blank (w : Bytes) : Prop :=
  ∀ c ∈ w, c = 32 ∨ c = 10

theorem Blank.white {w : Bytes} (h : Blank w) : White w := by
  intro c hc
  rcases h c hc with rfl | rfl
  . rfl
  . rfl

theorem blank_nil : Blank [] := by
  intro c hc
  cases hc

theorem blank_append {w w' : Bytes} (hw : Blank w) (hw' : Blank w') : Blank (w ++ w') := by
  intro c hc
  rw [List.mem_append] at hc
  cases hc with
  | inl hc => exact hw c hc
  | inr hc => exact hw' c hc

theorem blank_replicate {c : UInt8} (hc : c = 32 ∨ c = 10) (n : Nat)
    : Blank (List.replicate n c) := by
  intro d hd
  rw [List.eq_of_mem_replicate hd]
  exact hc

theorem returns_fill (n : Int) {c : UInt8} (hc : c = 32 ∨ c = 10) : Returns (fill n c) Blank := by
  unfold fill
  split
  . exact returns_error _
  . exact returns_ok (blank_replicate hc _)

theorem returns_indentation (depth : Nat) : Returns (indentation fmt depth) Blank :=
  returns_fill _ (.inl rfl)

theorem returns_opening (inLine : Bool) (depth : Nat) (brace : UInt8)
    : Returns (opening fmt inLine depth brace) (fun out => ∃ w, Blank w ∧ out = w ++ [brace]) := by
  unfold opening
  split
  . have hspaces := @returns_indentation fmt depth
    cases h : indentation fmt depth with
    | error e => exact returns_error e
    | ok spaces =>
      apply returns_ok
      exact ⟨10 :: spaces, List.forall_mem_cons.mpr ⟨.inr rfl, hspaces spaces h⟩, rfl⟩
  . exact returns_ok ⟨[], blank_nil, rfl⟩

theorem blank_newline : Blank (newline fmt) := by
  unfold newline
  split
  . exact blank_replicate (.inr rfl) 1
  . exact blank_nil

theorem returns_separator (last : Bool)
    : Returns (separator fmt last)
        (fun out => last = true ∧ out = [] ∨ last = false ∧ ∃ w, Blank w ∧ out = 44 :: w) := by
  unfold separator
  split
  . next h => exact returns_ok (.inl ⟨h, rfl⟩)
  . next h =>
    refine Returns.bind (@returns_fill _ 32 (.inl rfl)) ?_
    intro spaces hspaces
    refine Returns.bind (@returns_fill _ 10 (.inr rfl)) ?_
    intro lines hlines
    refine returns_ok (.inr ⟨?_, spaces ++ lines, blank_append hspaces hlines, rfl⟩)
    simpa using h

theorem returns_memberIndent (depth : Nat) : Returns (memberIndent fmt depth) Blank := by
  unfold memberIndent
  split
  . exact returns_ok blank_nil
  . exact returns_indentation _

theorem returns_elemIndent (depth i : Nat) : Returns (elemIndent fmt depth i) Blank := by
  unfold elemIndent
  split
  . exact returns_ok blank_nil
  . refine returns_bind ?_
    intro starts
    split
    . exact returns_indentation _
    . exact returns_ok blank_nil

theorem returns_elemEnd (i count : Nat) : Returns (elemEnd fmt i count) Blank := by
  unfold elemEnd
  split
  . exact returns_ok blank_nil
  . split
    . exact returns_ok (blank_replicate (.inr rfl) 1)
    . refine returns_bind ?_
      intro starts
      apply returns_ok
      split
      . exact blank_replicate (.inr rfl) 1
      . exact blank_nil

/--
What stands behind a value with `vals` after it.
-/
def Separates {α : Type} (vals : List α) (sep : Bytes) : Prop :=
  vals = [] ∧ sep = [] ∨ vals ≠ [] ∧ ∃ w, Blank w ∧ sep = 44 :: w

theorem returns_separator_of_length {α : Type} {i count : Nat} {vals : List α}
    (hcount : i + (vals.length + 1) = count)
    : Returns (separator fmt (i + 1 = count)) (Separates vals) := by
  have hlast : decide (i + 1 = count) = true ↔ vals = [] := by
    rw [decide_eq_true_eq, ← List.length_eq_zero_iff]
    omega
  refine (returns_separator _).mono ?_
  rintro out (⟨h, hout⟩ | ⟨h, hout⟩)
  . exact .inl ⟨hlast.mp h, hout⟩
  . refine .inr ⟨fun hnil => ?_, hout⟩
    rw [hlast.mpr hnil] at h
    cases h

section Layout

variable {P Q : Bytes → Prop} {depth count i : Nat} {key : Bytes} {val : JValue ν}

/--
The layout of a container with a body of which `P` holds.
-/
inductive ContainerLayout (fmt : JsonFormat) (open' close : UInt8) (P : Bytes → Prop) : Bytes → Prop where
  | intro {w body spaces : Bytes} (hw : Blank w) (hbody : P body) (hspaces : Blank spaces)
    : ContainerLayout fmt open' close P (w ++ [open'] ++ newline fmt ++ body ++ spaces ++ [close])

/--
The layout of a member whose value satisfies `P`, and of those behind it.
-/
inductive MembersLayout (fmt : JsonFormat) (P Q : Bytes → Prop) (key : Bytes)
    (vals : List (Bytes × JValue ν)) : Bytes → Prop where
  | cons {indent before after out sep rest : Bytes} (hindent : Blank indent)
    (hbefore : Blank before) (hafter : Blank after) (hout : P out) (hsep : Separates vals sep)
    (hrest : Q rest)
    : MembersLayout fmt P Q key vals
        (indent ++ encodeStr key ++ before ++ [58] ++ after ++ out ++ sep ++ newline fmt ++ rest)

/--
The layout of an element and of those behind it.
-/
inductive ElemsLayout (P Q : Bytes → Prop) (vals : List (JValue ν)) : Bytes → Prop where
  | cons {indent out sep ending rest : Bytes} (hindent : Blank indent) (hout : P out)
    (hsep : Separates vals sep) (hending : Blank ending) (hrest : Q rest)
    : ElemsLayout P Q vals (indent ++ out ++ sep ++ ending ++ rest)

theorem returns_write_object {vals : List (Bytes × JValue ν)}
    (hbody : Returns (writeMembers fmt depth vals.length 0 vals) P)
    : Returns (write fmt depth (.object vals)) (ContainerLayout fmt 123 125 P) := by
  rw [write]
  refine Returns.bind (returns_opening _ _ _) ?_
  rintro _ ⟨w, hw, rfl⟩
  refine Returns.bind hbody ?_
  intro body hbody
  refine Returns.bind (returns_indentation depth) ?_
  intro spaces hspaces
  exact returns_ok ⟨hw, hbody, hspaces⟩

theorem returns_write_array {vals : List (JValue ν)}
    (hbody : Returns (writeElems fmt depth vals.length 0 vals) P)
    : Returns (write fmt depth (.array vals)) (ContainerLayout fmt 91 93 P) := by
  rw [write]
  refine Returns.bind (returns_opening _ _ _) ?_
  rintro _ ⟨w, hw, rfl⟩
  refine Returns.bind hbody ?_
  intro body hbody
  refine Returns.bind (returns_indentation depth) ?_
  intro spaces hspaces
  exact returns_ok ⟨hw, hbody, hspaces⟩

theorem returns_writeMembers_cons {vals : List (Bytes × JValue ν)}
    (hcount : i + (vals.length + 1) = count) (hval : Returns (write fmt (depth + 1) val) P)
    (hvals : Returns (writeMembers fmt depth count (i + 1) vals) Q)
    : Returns (writeMembers fmt depth count i ((key, val) :: vals)) (MembersLayout fmt P Q key vals) := by
  rw [writeMembers]
  refine Returns.bind (returns_memberIndent depth) ?_
  intro indent hindent
  refine Returns.bind (@returns_fill _ 32 (.inl rfl)) ?_
  intro before hbefore
  refine Returns.bind (@returns_fill _ 32 (.inl rfl)) ?_
  intro after hafter
  refine Returns.bind hval ?_
  intro out hout
  refine Returns.bind (returns_separator_of_length hcount) ?_
  intro sep hsep
  refine Returns.bind hvals ?_
  intro rest hrest
  exact returns_ok ⟨hindent, hbefore, hafter, hout, hsep, hrest⟩

theorem returns_writeElems_cons {vals : List (JValue ν)}
    (hcount : i + (vals.length + 1) = count) (hval : Returns (write fmt (depth + 1) val) P)
    (hvals : Returns (writeElems fmt depth count (i + 1) vals) Q)
    : Returns (writeElems fmt depth count i (val :: vals)) (ElemsLayout P Q vals) := by
  rw [writeElems]
  refine Returns.bind (returns_elemIndent depth i) ?_
  intro indent hindent
  refine Returns.bind hval ?_
  intro out hout
  refine Returns.bind (returns_separator_of_length hcount) ?_
  intro sep hsep
  refine Returns.bind (returns_elemEnd i count) ?_
  intro ending hending
  refine Returns.bind hvals ?_
  intro rest hrest
  exact returns_ok ⟨hindent, hout, hsep, hending, hrest⟩

end Layout

theorem ElemsText.white_append {vals : List (JValue ν)} {w body : Bytes} (hw : White w)
    (h : ElemsText vals body) : ElemsText vals (w ++ body) := by
  cases h with
  | nil hw' =>
    rw [← List.append_assoc]
    exact .nil (HCraft.white_append hw hw')
  | cons hw' ht hw'' hsep hbody =>
    simp only [← List.append_assoc]
    exact .cons (HCraft.white_append hw hw') ht hw'' hsep hbody

theorem MembersText.white_append {vals : List (Bytes × JValue ν)} {w body : Bytes} (hw : White w)
    (h : MembersText vals body) : MembersText vals (w ++ body) := by
  cases h with
  | nil hw' =>
    rw [← List.append_assoc]
    exact .nil (HCraft.white_append hw hw')
  | cons hw' hw₁ hw₂ ht hw'' hsep hbody =>
    simp only [← List.append_assoc]
    exact .cons (HCraft.white_append hw hw') hw₁ hw₂ ht hw'' hsep hbody

/--
A value is written after white space, and a separator before more of it.
-/
theorem elemsText_cons {vals : List (JValue ν)} {val : JValue ν} {w t sep body : Bytes}
    (hw : White w) (ht : Text val t)
    (hsep : Separates vals sep)
    (hbody : ElemsText vals body) : ElemsText (val :: vals) (w ++ t ++ sep ++ body) := by
  cases hsep with
  | inl hlast =>
    have := ElemsText.cons hw ht white_nil (.inr ⟨hlast.2, hlast.1⟩) hbody
    rwa [List.append_nil] at this
  | inr hcomma =>
    rcases hcomma with ⟨_, w', hw', rfl⟩
    have := ElemsText.cons hw ht white_nil (.inl rfl) (hbody.white_append hw'.white)
    rwa [List.append_nil, List.append_assoc _ [44], List.singleton_append, ← List.cons_append,
      ← List.append_assoc] at this

theorem membersText_cons {vals : List (Bytes × JValue ν)} {val : JValue ν}
    {w key w₁ w₂ t sep body : Bytes} (hw : White w) (hw₁ : White w₁) (hw₂ : White w₂)
    (ht : Text val t) (hsep : Separates vals sep)
    (hbody : MembersText vals body)
    : MembersText ((key, val) :: vals)
        (w ++ encodeStr key ++ w₁ ++ [58] ++ w₂ ++ t ++ sep ++ body) := by
  cases hsep with
  | inl hlast =>
    have := @MembersText.cons ν _ _ _ _ _ _ _ _ key _ _ hw hw₁ hw₂ ht white_nil
      (.inr ⟨hlast.2, hlast.1⟩) hbody
    rwa [List.append_nil] at this
  | inr hcomma =>
    rcases hcomma with ⟨_, w', hw', rfl⟩
    have := @MembersText.cons ν _ _ _ _ _ _ _ _ key _ _ hw hw₁ hw₂ ht white_nil
      (.inl rfl) (hbody.white_append hw'.white)
    rwa [List.append_nil, List.append_assoc _ [44], List.singleton_append, ← List.cons_append,
      ← List.append_assoc] at this

mutual

theorem returns_write [LawfulDouble ν] (depth : Nat) (val : JValue ν) (hplain : val.Plain)
    : Returns (write fmt depth val) (fun out => ∃ w t, White w ∧ Text val t ∧ out = w ++ t) := by
  cases val with
  | object vals =>
    rw [JValue.Plain] at hplain
    have hbody := returns_writeMembers depth _ 0 vals hplain.2 (Nat.zero_add _)
    refine (returns_write_object hbody).mono ?_
    rintro _ ⟨hw, hbody, hspaces⟩
    refine ⟨_, _, hw.white,
      .object hplain.1 ((hbody _ hspaces.white).white_append (@blank_newline fmt).white), ?_⟩
    simp
  | array vals =>
    rw [JValue.Plain] at hplain
    have hbody := returns_writeElems depth _ 0 vals hplain (Nat.zero_add _)
    refine (returns_write_array hbody).mono ?_
    rintro _ ⟨hw, hbody, hspaces⟩
    refine ⟨_, _, hw.white,
      .array ((hbody _ hspaces.white).white_append (@blank_newline fmt).white), ?_⟩
    simp
  | string val =>
    rw [write]
    exact returns_ok ⟨[], _, white_nil, .string val, rfl⟩
  | number val =>
    rw [JValue.Plain] at hplain
    rcases hplain with ⟨n, hn, rfl⟩
    rw [write, LawfulDouble.write_ofNat n hn]
    exact returns_ok ⟨[], _, white_nil, .number hn, rfl⟩
  | bool val =>
    rw [write]
    exact returns_ok ⟨[], _, white_nil, .bool val, rfl⟩
  | null =>
    rw [write]
    exact returns_ok ⟨[], _, white_nil, .null, rfl⟩

theorem returns_writeMembers [LawfulDouble ν] (depth count i : Nat) (vals : List (Bytes × JValue ν))
    (hplain : JValue.PlainMembers vals) (hcount : i + vals.length = count)
    : Returns (writeMembers fmt depth count i vals)
        (fun out => ∀ spaces, White spaces → MembersText vals (out ++ spaces ++ [125])) := by
  match vals with
  | [] =>
    rw [writeMembers]
    exact returns_ok (fun spaces hspaces => .nil hspaces)
  | (key, val) :: vals =>
    rw [JValue.PlainMembers] at hplain
    have hval := returns_write (depth + 1) val hplain.1
    have hvals := returns_writeMembers depth count (i + 1) vals hplain.2
      (by rw [List.length_cons] at hcount; omega)
    refine (returns_writeMembers_cons hcount hval hvals).mono ?_
    rintro _ ⟨hindent, hbefore, hafter, ⟨w, t, hw, ht, rfl⟩, hsep, hrest⟩ spaces hspaces
    have := @membersText_cons ν _ vals val _ key _ _ _ _ _ hindent.white
      hbefore.white (white_append hafter.white hw) ht hsep
      ((hrest spaces hspaces).white_append (@blank_newline fmt).white)
    simpa only [List.append_assoc] using this

theorem returns_writeElems [LawfulDouble ν] (depth count i : Nat) (vals : List (JValue ν))
    (hplain : JValue.PlainElems vals) (hcount : i + vals.length = count)
    : Returns (writeElems fmt depth count i vals)
        (fun out => ∀ spaces, White spaces → ElemsText vals (out ++ spaces ++ [93])) := by
  match vals with
  | [] =>
    rw [writeElems]
    exact returns_ok (fun spaces hspaces => .nil hspaces)
  | val :: vals =>
    rw [JValue.PlainElems] at hplain
    have hval := returns_write (depth + 1) val hplain.1
    have hvals := returns_writeElems depth count (i + 1) vals hplain.2
      (by rw [List.length_cons] at hcount; omega)
    refine (returns_writeElems_cons hcount hval hvals).mono ?_
    rintro _ ⟨hindent, ⟨w, t, hw, ht, rfl⟩, hsep, hending, hrest⟩ spaces hspaces
    have := elemsText_cons (white_append hindent.white hw) ht hsep
      ((hrest spaces hspaces).white_append hending.white)
    simpa only [List.append_assoc] using this

end

end Texts

/--
The numeric fields of a format, which are `int`s.
-/
structure JsonFormat.NonNegative (fmt : JsonFormat) : Prop where
  indent : 0 ≤ fmt.indent
  indent_lt : fmt.indent < 2 ^ 31
  elemDist : 0 ≤ fmt.elemDist
  commaSpaces : 0 ≤ fmt.commaSpaces
  colSpaceBefore : 0 ≤ fmt.colSpaceBefore
  colSpaceAfter : 0 ≤ fmt.colSpaceAfter
  elemsPerLine : 1 ≤ fmt.elemsPerLine

mutual

/--
The levels that the inside of a value is indented by.
-/
def JValue.height : JValue ν → Nat
  | .object vals => JValue.heightMembers vals
  | .array vals => JValue.heightElems vals
  | .number _ => 0
  | .string _ => 0
  | .bool _ => 0
  | .null => 0

def JValue.heightMembers : List (Bytes × JValue ν) → Nat
  | [] => 0
  | (_, val) :: vals => max (val.height + 1) (JValue.heightMembers vals)

def JValue.heightElems : List (JValue ν) → Nat
  | [] => 0
  | val :: vals => max (val.height + 1) (JValue.heightElems vals)

end

section Success

variable {fmt : JsonFormat} {depth : Nat}

theorem succeeds_fill {n : Int} (h : 0 ≤ n) (c : UInt8) : Succeeds (fill n c) := by
  unfold fill
  rw [if_neg (by omega)]
  exact succeeds_ok _

/--
The product is negative once it is too large for an `int`, as long as there is one level to go.
-/
theorem succeeds_indentation_iff (hfmt : fmt.NonNegative) (h : fmt.indent * depth < 2 ^ 32)
    : Succeeds (indentation fmt depth) ↔ fmt.indent * depth < 2 ^ 31 := by
  have hnonneg : 0 ≤ fmt.indent * depth := Int.mul_nonneg hfmt.indent (Int.natCast_nonneg depth)
  unfold indentation fill Bin.wrap32
  generalize fmt.indent * depth = n at h hnonneg ⊢
  split
  . next hneg =>
    constructor
    . intro hsucceeds
      exact absurd hsucceeds (not_succeeds_error _)
    . intro hlt
      omega
  . next hneg =>
    constructor
    . intro _
      omega
    . intro _
      exact succeeds_ok _

theorem succeeds_indentation (hfmt : fmt.NonNegative) (h : fmt.indent * depth < 2 ^ 31)
    : Succeeds (indentation fmt depth) :=
  (succeeds_indentation_iff hfmt (by omega)).mpr h

theorem indent_mul_succ : fmt.indent * (depth + 1 : Nat) = fmt.indent * depth + fmt.indent := by
  rw [Nat.cast_add_one, Int.mul_add, Int.mul_one]

theorem succeeds_indentation_succ (hfmt : fmt.NonNegative) (h : fmt.indent * depth < 2 ^ 31)
    : Succeeds (indentation fmt (depth + 1)) ↔ fmt.indent * (depth + 1 : Nat) < 2 ^ 31 := by
  apply succeeds_indentation_iff hfmt
  have := hfmt.indent_lt
  rw [indent_mul_succ]
  omega

theorem succeeds_opening (hfmt : fmt.NonNegative) (h : fmt.indent * depth < 2 ^ 31) (inLine : Bool)
    (brace : UInt8) : Succeeds (opening fmt inLine depth brace) := by
  unfold opening
  split
  . obtain ⟨spaces, hspaces⟩ := succeeds_indentation hfmt h
    rw [hspaces]
    exact succeeds_ok _
  . exact succeeds_ok _

theorem succeeds_separator (hfmt : fmt.NonNegative) (last : Bool)
    : Succeeds (separator fmt last) := by
  unfold separator
  split
  . exact succeeds_ok _
  . apply Succeeds.bind (succeeds_fill hfmt.commaSpaces 32)
    intro spaces
    apply Succeeds.bind (succeeds_fill hfmt.elemDist 10)
    intro lines
    exact succeeds_ok _

theorem startsLine_eq (hfmt : fmt.NonNegative) (i : Nat)
    : startsLine fmt i = .ok (decide (Int.tmod i fmt.elemsPerLine = 0)) := by
  have := hfmt.elemsPerLine
  unfold startsLine
  rw [if_neg (by omega)]

theorem succeeds_elemEnd (hfmt : fmt.NonNegative) (i count : Nat)
    : Succeeds (elemEnd fmt i count) := by
  unfold elemEnd
  split
  . exact succeeds_ok _
  . split
    . exact succeeds_ok _
    . rw [startsLine_eq hfmt]
      exact succeeds_ok _

theorem succeeds_memberIndent (hfmt : fmt.NonNegative) (h : fmt.indent * depth < 2 ^ 31)
    : Succeeds (memberIndent fmt depth) ↔ fmt.indent * (depth + 1 : Nat) < 2 ^ 31 := by
  unfold memberIndent
  split
  . next hindent =>
    rw [hindent, Int.zero_mul]
    exact iff_of_true (succeeds_ok _) (by decide)
  . exact succeeds_indentation_succ hfmt h

theorem succeeds_elemIndent_zero (hfmt : fmt.NonNegative) (h : fmt.indent * depth < 2 ^ 31)
    : Succeeds (elemIndent fmt depth 0) ↔ fmt.indent * (depth + 1 : Nat) < 2 ^ 31 := by
  unfold elemIndent
  split
  . next hindent =>
    rw [hindent, Int.zero_mul]
    exact iff_of_true (succeeds_ok _) (by decide)
  . rw [startsLine_eq hfmt, Nat.cast_zero, Int.zero_tmod]
    exact succeeds_indentation_succ hfmt h

theorem succeeds_elemIndent (hfmt : fmt.NonNegative) (h : fmt.indent * (depth + 1 : Nat) < 2 ^ 31)
    (i : Nat) : Succeeds (elemIndent fmt depth i) := by
  unfold elemIndent
  split
  . exact succeeds_ok _
  . rw [startsLine_eq hfmt]
    dsimp only [bind, Except.bind]
    split
    . exact succeeds_indentation hfmt h
    . exact succeeds_ok _

theorem indent_mul_add_max (hfmt : fmt.NonNegative) (m n : Nat) (b : Int)
    : fmt.indent * (depth + max m n : Nat) < b
        ↔
      fmt.indent * (depth + m : Nat) < b ∧ fmt.indent * (depth + n : Nat) < b := by
  have hindent := hfmt.indent
  rcases le_total m n with hle | hle
  . have hmul : fmt.indent * (depth + m : Nat) ≤ fmt.indent * (depth + n : Nat) :=
      Int.mul_le_mul_of_nonneg_left (by omega) hindent
    rw [max_eq_right hle]
    omega
  . have hmul : fmt.indent * (depth + n : Nat) ≤ fmt.indent * (depth + m : Nat) :=
      Int.mul_le_mul_of_nonneg_left (by omega) hindent
    rw [max_eq_left hle]
    omega

theorem succeeds_writeMembers_cons (hfmt : fmt.NonNegative) (h : fmt.indent * depth < 2 ^ 31)
    {count i : Nat} {key : Bytes} {val : JValue ν} {vals : List (Bytes × JValue ν)} {p q : Prop}
    (hval : fmt.indent * (depth + 1 : Nat) < 2 ^ 31 → (Succeeds (write fmt (depth + 1) val) ↔ p))
    (hvals : Succeeds (writeMembers fmt depth count (i + 1) vals) ↔ q)
    : Succeeds (writeMembers fmt depth count i ((key, val) :: vals))
        ↔
      fmt.indent * (depth + 1 : Nat) < 2 ^ 31 ∧ p ∧ q := by
  rw [writeMembers]
  rw [← succeeds_memberIndent hfmt h]
  apply succeeds_bind_iff
  intro indent hindent
  have hdepth := (succeeds_memberIndent hfmt h).mp ⟨indent, hindent⟩
  apply succeeds_bind (succeeds_fill hfmt.colSpaceBefore 32)
  intro before _
  apply succeeds_bind (succeeds_fill hfmt.colSpaceAfter 32)
  intro after _
  rw [← hval hdepth]
  apply succeeds_bind_iff
  intro out _
  apply succeeds_bind (succeeds_separator hfmt _)
  intro sep _
  rw [← hvals]
  rw [succeeds_bind_iff (p := True)]
  . exact iff_of_eq (and_true _)
  . intro rest _
    exact iff_true_intro (succeeds_ok _)

theorem succeeds_writeElems_cons (hfmt : fmt.NonNegative) {count i : Nat} {val : JValue ν}
    {vals : List (JValue ν)} {p q : Prop}
    (hindent : Succeeds (elemIndent fmt depth i) ↔ fmt.indent * (depth + 1 : Nat) < 2 ^ 31)
    (hval : fmt.indent * (depth + 1 : Nat) < 2 ^ 31 → (Succeeds (write fmt (depth + 1) val) ↔ p))
    (hvals : fmt.indent * (depth + 1 : Nat) < 2 ^ 31
      → (Succeeds (writeElems fmt depth count (i + 1) vals) ↔ q))
    : Succeeds (writeElems fmt depth count i (val :: vals))
        ↔
      fmt.indent * (depth + 1 : Nat) < 2 ^ 31 ∧ p ∧ q := by
  rw [writeElems]
  rw [← hindent]
  apply succeeds_bind_iff
  intro indent heq
  have hdepth := hindent.mp ⟨indent, heq⟩
  rw [← hval hdepth]
  apply succeeds_bind_iff
  intro out _
  apply succeeds_bind (succeeds_separator hfmt _)
  intro sep _
  apply succeeds_bind (succeeds_elemEnd hfmt _ _)
  intro ending _
  rw [← hvals hdepth]
  rw [succeeds_bind_iff (p := True)]
  . exact iff_of_eq (and_true _)
  . intro rest _
    exact iff_true_intro (succeeds_ok _)

/--
Indented as deep as its elements, a container is indented by one level at least.
-/
theorem indent_cons_iff (hfmt : fmt.NonNegative) (m n : Nat)
    : fmt.indent * (depth + 1 : Nat) < 2 ^ 31 ∧ fmt.indent * (depth + 1 + m : Nat) < 2 ^ 31
        ∧ fmt.indent * (depth + n : Nat) < 2 ^ 31
        ↔
      fmt.indent * (depth + max (m + 1) n : Nat) < 2 ^ 31 := by
  have hle : fmt.indent * (depth + 1 : Nat) ≤ fmt.indent * (depth + 1 + m : Nat) :=
    Int.mul_le_mul_of_nonneg_left (by omega) hfmt.indent
  rw [indent_mul_add_max hfmt, Nat.add_comm m 1, ← Nat.add_assoc]
  omega

theorem succeeds_container {open' body spaces : Except Fault Bytes} {f : Bytes → Bytes → Bytes → Bytes}
    {p : Prop} (hopen : Succeeds open') (hbody : Succeeds body ↔ p) (hspaces : Succeeds spaces)
    : Succeeds (do
        let open' ← open'
        let body ← body
        let spaces ← spaces
        return f open' body spaces) ↔ p := by
  apply succeeds_bind hopen
  intro out _
  rw [← hbody, succeeds_bind_iff (p := True)]
  . exact iff_of_eq (and_true _)
  . intro out _
    apply succeeds_bind hspaces
    intro out _
    exact iff_true_intro (succeeds_ok _)

mutual

theorem succeeds_write_iff (hfmt : fmt.NonNegative) (depth : Nat) (val : JValue ν)
    (h : fmt.indent * depth < 2 ^ 31)
    : Succeeds (write fmt depth val) ↔ fmt.indent * (depth + val.height : Nat) < 2 ^ 31 := by
  cases val with
  | object vals =>
    rw [write, JValue.height]
    exact succeeds_container (succeeds_opening hfmt h _ _)
      (succeeds_writeMembers_iff hfmt depth _ 0 vals h) (succeeds_indentation hfmt h)
  | array vals =>
    rw [write, JValue.height]
    exact succeeds_container (succeeds_opening hfmt h _ _)
      (succeeds_writeElems_iff hfmt depth _ 0 vals h (.inl rfl)) (succeeds_indentation hfmt h)
  | string val =>
    rw [write, JValue.height]
    exact iff_of_true (succeeds_ok _) h
  | number val =>
    rw [write, JValue.height]
    exact iff_of_true (succeeds_ok _) h
  | bool val =>
    rw [write, JValue.height]
    exact iff_of_true (succeeds_ok _) h
  | null =>
    rw [write, JValue.height]
    exact iff_of_true (succeeds_ok _) h

theorem succeeds_writeMembers_iff (hfmt : fmt.NonNegative) (depth count i : Nat)
    (vals : List (Bytes × JValue ν)) (h : fmt.indent * depth < 2 ^ 31)
    : Succeeds (writeMembers fmt depth count i vals)
        ↔
      fmt.indent * (depth + JValue.heightMembers vals : Nat) < 2 ^ 31 := by
  match vals with
  | [] =>
    rw [writeMembers, JValue.heightMembers]
    exact iff_of_true (succeeds_ok _) h
  | (key, val) :: vals =>
    rw [JValue.heightMembers, ← indent_cons_iff hfmt]
    exact succeeds_writeMembers_cons hfmt h (succeeds_write_iff hfmt (depth + 1) val)
      (succeeds_writeMembers_iff hfmt depth count (i + 1) vals h)

theorem succeeds_writeElems_iff (hfmt : fmt.NonNegative) (depth count i : Nat)
    (vals : List (JValue ν)) (h : fmt.indent * depth < 2 ^ 31)
    (hi : i = 0 ∨ fmt.indent * (depth + 1 : Nat) < 2 ^ 31)
    : Succeeds (writeElems fmt depth count i vals)
        ↔
      fmt.indent * (depth + JValue.heightElems vals : Nat) < 2 ^ 31 := by
  match vals with
  | [] =>
    rw [writeElems, JValue.heightElems]
    exact iff_of_true (succeeds_ok _) h
  | val :: vals =>
    have hindent : Succeeds (elemIndent fmt depth i)
        ↔ fmt.indent * (depth + 1 : Nat) < 2 ^ 31 := by
      cases hi with
      | inl hi =>
        rw [hi]
        exact succeeds_elemIndent_zero hfmt h
      | inr hi => exact iff_of_true (succeeds_elemIndent hfmt hi i) hi
    rw [JValue.heightElems, ← indent_cons_iff hfmt]
    exact succeeds_writeElems_cons hfmt hindent (succeeds_write_iff hfmt (depth + 1) val)
      (fun hdepth => succeeds_writeElems_iff hfmt depth count (i + 1) vals h (.inr hdepth))

end

end Success

end HCraft
