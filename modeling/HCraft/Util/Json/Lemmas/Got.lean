import HCraft.Util.Json.Grammar
import HCraft.Util.Json.Lemmas.Text

/-!
This module contains what the reader makes of a text of the grammar, and when that is what the text
denotes.
-/

namespace HCraft

open JsonReader

namespace JsonGrammar

section Strings

/--
What the reader makes of it.
-/
def StrItem.got : StrItem → Bytes
  | .unescaped c _ => String.utf8EncodeChar c
  | .escaped e => [e.byte]
  | .unicode u => u.text

def Str.got (s : Str) : Bytes :=
  s.flatMap StrItem.got

theorem length_utf8EncodeChar_le_four (c : Char) : (String.utf8EncodeChar c).length ≤ 4 := by
  rw [String.length_utf8EncodeChar]
  exact c.utf8Size_le_four

theorem length_utf8EncodeChar_le_three {c : Char} (h : c.toNat ≤ 0xFFFF)
    : (String.utf8EncodeChar c).length ≤ 3 := by
  have hv : c.val.toNat ≤ 0xFFFF := h
  unfold String.utf8EncodeChar
  dsimp only
  split
  . simp
  . split
    . simp
    . simp

theorem CodeUnit.val_le (u : CodeUnit) : u.val ≤ 0xFFFF := by
  unfold CodeUnit.val
  omega

theorem CodeUnit.toNat_char_le (u : CodeUnit) : u.char.toNat ≤ 0xFFFF := by
  unfold CodeUnit.char
  split
  . next h =>
    rw [Char.ofNat, dif_pos h]
    exact u.val_le
  . decide

def StrItem.IsUnicode : StrItem → Prop
  | .unicode _ => True
  | _ => False

/--
No escape gives a code unit in hexadecimal.
-/
def Str.Plain (s : Str) : Prop :=
  ∀ item ∈ s, ¬ item.IsUnicode

section Got

variable (s : Str)

@[simp]
theorem Str.got_unescaped (c : Char) (h) : got (.unescaped c h :: s) = String.utf8EncodeChar c ++ got s :=
  List.flatMap_cons

@[simp]
theorem Str.got_escaped (e : Escape) : got (.escaped e :: s) = e.byte :: got s :=
  List.flatMap_cons

@[simp]
theorem Str.got_unicode (u : CodeUnit) : got (.unicode u :: s) = u.text ++ got s :=
  List.flatMap_cons

theorem CodeUnit.length_text (u : CodeUnit) : u.text.length = 4 := rfl

/--
The digits are longer than the character they stand for.
-/
theorem Str.length_bytes_le : s.bytes.length ≤ s.got.length := by
  fun_induction Str.bytes s with
  | case1 => exact le_refl 0
  | case2 c h s ih =>
    rw [got_unescaped, List.length_append, List.length_append]
    omega
  | case3 e s ih =>
    rw [got_escaped, List.length_cons, List.length_cons]
    omega
  | case4 u u' s hpair ih =>
    have := length_utf8EncodeChar_le_four (CodeUnit.pair u u')
    rw [got_unicode, got_unicode, List.length_append, List.length_append, List.length_append,
      u.length_text, u'.length_text]
    omega
  | case5 u u' s hpair ih =>
    have := length_utf8EncodeChar_le_three u.toNat_char_le
    rw [got_unicode, List.length_append, List.length_append, u.length_text]
    omega
  | case6 u s hlast ih =>
    have := length_utf8EncodeChar_le_three u.toNat_char_le
    rw [got_unicode, List.length_append, List.length_append, u.length_text]
    omega

theorem Str.bytes_unicode (u : CodeUnit)
    : bytes (.unicode u :: s) = String.utf8EncodeChar u.char ++ bytes s
        ∨ ∃ u' s', s = .unicode u' :: s'
            ∧ bytes (.unicode u :: s) = String.utf8EncodeChar (CodeUnit.pair u u') ++ bytes s' := by
  cases s with
  | nil => exact .inl rfl
  | cons item s =>
    cases item with
    | unescaped c h => exact .inl rfl
    | escaped e => exact .inl rfl
    | unicode u' =>
      by_cases hpair : u.IsHigh ∧ u'.IsLow
      . exact .inr ⟨u', s, rfl, by rw [bytes, if_pos hpair]⟩
      . exact .inl (by rw [bytes, if_neg hpair])

theorem Str.length_bytes_unicode (u : CodeUnit)
    : (bytes (.unicode u :: s)).length < (got (.unicode u :: s)).length := by
  rw [got_unicode, List.length_append, u.length_text]
  rcases bytes_unicode s u with hone | ⟨u', s', rfl, hpair⟩
  . have := length_utf8EncodeChar_le_three u.toNat_char_le
    have := length_bytes_le s
    rw [hone, List.length_append]
    omega
  . have := length_utf8EncodeChar_le_four (CodeUnit.pair u u')
    have := length_bytes_le s'
    rw [hpair, got_unicode, List.length_append, List.length_append, u'.length_text]
    omega

theorem Str.got_eq_bytes_iff : s.got = s.bytes ↔ s.Plain := by
  induction s with
  | nil => simp [got, bytes, Plain]
  | cons item s ih =>
    have hcons : Plain (item :: s) ↔ ¬ item.IsUnicode ∧ Plain s := List.forall_mem_cons
    rw [hcons]
    cases item with
    | unescaped c h =>
      rw [got_unescaped, bytes, List.append_cancel_left_eq, ih]
      simp [StrItem.IsUnicode]
    | escaped e =>
      rw [got_escaped, bytes, List.cons_inj_right, ih]
      simp [StrItem.IsUnicode]
    | unicode u =>
      have hlonger := length_bytes_unicode s u
      simp only [StrItem.IsUnicode, not_true_eq_false, false_and, iff_false]
      intro heq
      rw [heq] at hlonger
      exact absurd hlonger (Nat.lt_irrefl _)

end Got

end Strings

section Numbers

variable {ν : Type} [Double ν]

/--
Neither a minus sign nor an exponent.
-/
def Num.Plain (n : Num) : Prop :=
  n.minus = false ∧ n.exp = none

instance (n : Num) : Decidable n.Plain :=
  inferInstanceAs (Decidable (_ ∧ _))

/--
What the reader makes of it. After a minus sign or before an exponent it does not go on.
-/
def Num.got (n : Num) : Option ν :=
  if n.Plain then some (Double.read n.text) else none

end Numbers

section Values

variable {ν : Type} [Double ν]

def setAll (obj members : List (Bytes × JValue ν)) : List (Bytes × JValue ν) :=
  members.foldl (fun obj member => setMember member.1 member.2 obj) obj

mutual

/--
What the reader makes of it, if it gets to the end.
-/
def Value.got : Value → Option (JValue ν)
  | .null => some .null
  | .bool val => some (.bool val)
  | .number n => n.got.map .number
  | .string s => some (.string s.got)
  | .emptyArray _ => some (.array [])
  | .array elems => elems.got.map .array
  | .object obj => obj.got.map .object

def Elems.got : Elems → Option (List (JValue ν))
  | .last _ val _ => val.got.map ([·])
  | .cons _ val _ rest => val.got.bind (fun val => rest.got.map (val :: ·))

def Obj.got : Obj → Option (List (Bytes × JValue ν))
  | .empty _ => some []
  | .members ms => ms.got.map (setAll [])

def Members.got : Members → Option (List (Bytes × JValue ν))
  | .last _ key _ _ val _ => val.got.map (fun val => [(key.got, val)])
  | .cons _ key _ _ val _ rest => val.got.bind (fun val => rest.got.map ((key.got, val) :: ·))

end

mutual

/--
No string has an escape in hexadecimal, and no number a minus sign or an exponent.
-/
def Value.Plain : Value → Prop
  | .number n => n.Plain
  | .string s => s.Plain
  | .array elems => elems.Plain
  | .object obj => obj.Plain
  | _ => True

def Elems.Plain : Elems → Prop
  | .last _ val _ => val.Plain
  | .cons _ val _ rest => val.Plain ∧ rest.Plain

def Obj.Plain : Obj → Prop
  | .empty _ => True
  | .members ms => ms.Plain

def Members.Plain : Members → Prop
  | .last _ key _ _ val _ => key.Plain ∧ val.Plain
  | .cons _ key _ _ val _ rest => (key.Plain ∧ val.Plain) ∧ rest.Plain

end

omit [Double ν]

theorem length_setMember (key : Bytes) (val : JValue ν) (obj : List (Bytes × JValue ν))
    : (setMember key val obj).length ≤ obj.length + 1
        ∧ (key ∈ obj.map Prod.fst → (setMember key val obj).length = obj.length) := by
  induction obj with
  | nil => simp [setMember]
  | cons member obj ih =>
    unfold setMember
    split
    . next heq => simp
    . next hne =>
      simp only [List.length_cons, List.map_cons, List.mem_cons]
      refine ⟨by omega, ?_⟩
      rintro (heq | hmem)
      . exact absurd heq.symm hne
      . rw [ih.2 hmem]

theorem length_setAll_le (obj members : List (Bytes × JValue ν))
    : (setAll obj members).length ≤ obj.length + members.length := by
  induction members generalizing obj with
  | nil => exact le_refl _
  | cons member members ih =>
    have := ih (setMember member.1 member.2 obj)
    have := (length_setMember member.1 member.2 obj).1
    rw [setAll, List.foldl_cons, ← setAll, List.length_cons]
    omega

theorem setAll_eq_of_length {obj members : List (Bytes × JValue ν)}
    (h : (setAll obj members).length = obj.length + members.length)
    : setAll obj members = obj ++ members := by
  induction members generalizing obj with
  | nil => exact (List.append_nil obj).symm
  | cons member members ih =>
    rw [setAll, List.foldl_cons, ← setAll] at h ⊢
    have hle := length_setAll_le (setMember member.1 member.2 obj) members
    have hnew : member.1 ∉ obj.map Prod.fst := by
      intro hmem
      rw [(length_setMember member.1 member.2 obj).2 hmem] at hle
      rw [List.length_cons] at h
      omega
    rw [setMember_of_not_mem hnew] at h ⊢
    rw [ih, List.append_assoc]
    . rfl
    . rw [h, List.length_append, List.length_cons, List.length_singleton]
      omega

theorem setAll_of_nodup {obj members : List (Bytes × JValue ν)}
    (h : ((obj ++ members).map Prod.fst).Nodup) : setAll obj members = obj ++ members := by
  induction members generalizing obj with
  | nil => exact (List.append_nil obj).symm
  | cons member members ih =>
    have hnew : member.1 ∉ obj.map Prod.fst := by
      intro hmem
      rw [List.map_append, List.nodup_append] at h
      exact h.2.2 _ hmem member.1 (by simp) rfl
    rw [setAll, List.foldl_cons, ← setAll, setMember_of_not_mem hnew, ih, List.append_assoc]
    . rfl
    . rw [List.append_assoc]
      exact h

variable (round : ℚ → ν)

theorem Members.map_fst_trees (ms : Members) : (ms.trees round).map Prod.fst = ms.keys := by
  cases ms with
  | last => rfl
  | cons _ key _ _ val _ rest =>
    rw [trees, keys, List.map_cons, rest.map_fst_trees]

theorem Members.length_trees (ms : Members) : (ms.trees round).length = ms.keys.length := by
  rw [← ms.map_fst_trees round, List.length_map]

variable [Double ν]

theorem Members.length_got {ms : Members} {members : List (Bytes × JValue ν)}
    (h : ms.got = some members) : members.length = ms.keys.length := by
  cases ms with
  | last _ key _ _ val _ =>
    rw [got, Option.map_eq_some_iff] at h
    obtain ⟨_, _, heq⟩ := h
    rw [← heq]
    rfl
  | cons _ key _ _ val _ rest =>
    simp only [got, Option.bind_eq_some_iff, Option.map_eq_some_iff] at h
    obtain ⟨_, _, members', hrest, heq⟩ := h
    rw [← heq, keys, List.length_cons, List.length_cons, length_got hrest]

mutual

theorem Value.got_eq_tree_iff (hread : ∀ n : Num, n.Plain → Double.read n.text = round n.value)
    (v : Value) (hkeys : v.Distinct) : v.got = some (v.tree round) ↔ v.Plain := by
  cases v with
  | null => simp [Value.got, Value.tree, Value.Plain]
  | bool val => simp [Value.got, Value.tree, Value.Plain]
  | number n =>
    rw [Value.got, Value.tree, Value.Plain, Num.got]
    split
    . next hplain => simp [hplain, hread n hplain]
    . next hplain => simp [hplain]
  | string s => simp [Value.got, Value.tree, Value.Plain, s.got_eq_bytes_iff]
  | emptyArray w => simp [Value.got, Value.tree, Value.Plain]
  | array elems =>
    rw [Value.Plain, ← elems.got_eq_trees_iff hread hkeys, Value.got, Value.tree]
    simp [Option.map_eq_some_iff]
  | object obj =>
    rw [Value.Plain, ← obj.got_eq_tree_iff hread hkeys, Value.got, Value.tree]
    simp [Option.map_eq_some_iff]

theorem Elems.got_eq_trees_iff (hread : ∀ n : Num, n.Plain → Double.read n.text = round n.value)
    (elems : Elems) (hkeys : elems.Distinct)
    : elems.got = some (elems.trees round) ↔ elems.Plain := by
  cases elems with
  | last w val w' =>
    rw [Elems.Plain, ← val.got_eq_tree_iff hread hkeys, Elems.got, Elems.trees]
    simp [Option.map_eq_some_iff]
  | cons w val w' rest =>
    rw [Elems.Plain, ← val.got_eq_tree_iff hread hkeys.1, ← rest.got_eq_trees_iff hread hkeys.2,
      Elems.got, Elems.trees]
    simp [Option.bind_eq_some_iff, Option.map_eq_some_iff]

theorem Obj.got_eq_tree_iff (hread : ∀ n : Num, n.Plain → Double.read n.text = round n.value)
    (obj : Obj) (hkeys : obj.Distinct) : obj.got = some (obj.tree round) ↔ obj.Plain := by
  cases obj with
  | empty w => simp [Obj.got, Obj.tree, Obj.Plain]
  | members ms =>
    rw [Obj.Plain, ← ms.got_eq_trees_iff hread hkeys.2, Obj.got, Obj.tree, Option.map_eq_some_iff]
    constructor
    . rintro ⟨members, hgot, hset⟩
      have hlength : (setAll [] members).length = ([] : List (Bytes × JValue ν)).length
          + members.length := by
        rw [hset, ms.length_trees, Members.length_got hgot, List.length_nil, Nat.zero_add]
      rw [setAll_eq_of_length hlength, List.nil_append] at hset
      rw [hgot, hset]
    . intro hgot
      refine ⟨_, hgot, ?_⟩
      apply setAll_of_nodup
      rw [List.nil_append, ms.map_fst_trees]
      exact hkeys.1

theorem Members.got_eq_trees_iff
    (hread : ∀ n : Num, n.Plain → Double.read n.text = round n.value)
    (ms : Members) (hkeys : ms.Distinct) : ms.got = some (ms.trees round) ↔ ms.Plain := by
  cases ms with
  | last _ key _ _ val _ =>
    rw [Members.Plain, ← key.got_eq_bytes_iff, ← val.got_eq_tree_iff hread hkeys, Members.got,
      Members.trees]
    simp [Option.map_eq_some_iff, and_comm]
  | cons _ key _ _ val _ rest =>
    rw [Members.Plain, ← key.got_eq_bytes_iff, ← val.got_eq_tree_iff hread hkeys.1,
      ← rest.got_eq_trees_iff hread hkeys.2, Members.got, Members.trees]
    simp [Option.bind_eq_some_iff, Option.map_eq_some_iff, and_comm, and_assoc]

end

end Values

end JsonGrammar

end HCraft
