import HCraft.Util.Json.Lemmas.Read
import HCraft.Util.Json.Lemmas.Write

/-!
This module contains that the reader undoes the writer.
-/

namespace HCraft

open JsonWriter JsonReader

variable {ν : Type} [Double ν]

theorem succeeds_writeObject_iff {fmt : JsonFormat} (hfmt : fmt.NonNegative) (val : JValue ν)
    : Succeeds (write fmt 0 val) ↔ fmt.indent * val.height < 2 ^ 31 := by
  have hzero : fmt.indent * (0 : Nat) < 2 ^ 31 := by
    rw [Nat.cast_zero, Int.mul_zero]
    decide
  rw [succeeds_write_iff hfmt 0 val hzero, Nat.zero_add]

theorem readObject_text [LawfulDouble ν] {vals : List (Bytes × JValue ν)} {w t : Bytes}
    (hw : White w) (ht : Text (.object vals) t)
    : ∃ ls, readObject (.new (w ++ t)) = .ok (vals, ls) ∧ ls.strm = [] := by
  cases ht with
  | @object _ body hkeys hbody =>
    have hskip := @skipWhite_strm (.new (w ++ 123 :: body)) _ _ _ rfl hw rfl
    obtain ⟨ls₁, h₁, hs₁⟩ := expect_cons hskip "expected '\x7b' at start of JSON object"
    have hstrm : ls₁.strm = body ++ [] := by rw [hs₁, List.append_nil]
    have hfuel : body.length ≤ 2 * ls₁.strm.length + 1 := by
      rw [hs₁]
      omega
    obtain ⟨ls₂, h₂, hs₂⟩ := readMembers_text hbody [] hstrm hfuel hkeys
    refine ⟨ls₂, ?_, hs₂⟩
    rw [readObject, beginObject, h₁]
    exact h₂

/--
The widest indentation has to be an `int`.
-/
theorem JsonReader.readObject_write_iff [LawfulDouble ν] {fmt : JsonFormat}
    (hfmt : fmt.NonNegative) {vals : List (Bytes × JValue ν)}
    (hplain : (JValue.object vals).Plain)
    : (∃ out ls, write fmt 0 (.object vals) = .ok out ∧ readObject (.new out) = .ok (vals, ls)
        ∧ ls.strm = [])
        ↔
      fmt.indent * (JValue.object vals).height < 2 ^ 31 := by
  rw [← succeeds_writeObject_iff hfmt]
  constructor
  . rintro ⟨out, ls, hwrite, _⟩
    exact ⟨out, hwrite⟩
  . rintro ⟨out, hwrite⟩
    obtain ⟨w, t, hw, ht, hout⟩ := returns_write 0 _ hplain out hwrite
    obtain ⟨ls, hread, hs⟩ := readObject_text hw ht
    rw [← hout] at hread
    exact ⟨out, ls, hwrite, hread, hs⟩

/--
Doubles that are natural numbers.
-/
instance : Double Nat where
  ofNat n := n
  write n := digits n
  read s := Nat.ofDigits 10 (s.reverse.map (fun c => c.toNat - 48))

instance : LawfulDouble Nat where
  write_ofNat _ _ := rfl
  read_digits n _ := by
    change Nat.ofDigits 10 ((digits n).reverse.map (fun c => c.toNat - 48)) = n
    unfold digits
    split
    . next h =>
      rw [h]
      rfl
    . -- subtracting 48 from a digit undoes adding it
      have hdigits : (Nat.digits 10 n).map
          ((fun c : UInt8 => c.toNat - 48) ∘ fun d => UInt8.ofNat (48 + d)) = Nat.digits 10 n := by
        nth_rewrite 2 [← List.map_id (Nat.digits 10 n)]
        apply List.map_congr_left
        intro d hd
        have hlt : d < 10 := Nat.digits_lt_base (by omega) hd
        rw [Function.comp_apply, UInt8.toNat_ofNat', id]
        omega
      rw [← List.map_reverse, List.reverse_reverse, List.map_map, hdigits, Nat.ofDigits_digits]

/--
`{"a": [true, 10], "b": {}}`
-/
def sampleMembers : List (Bytes × JValue Nat) :=
  [([97], .array [.bool true, .number 10]), ([98], .object [])]

theorem JsonReader.readObject_write_sample
    : ∃ out ls, write .nice 0 (.object sampleMembers) = .ok out
        ∧ readObject (.new out) = .ok (sampleMembers, ls) ∧ ls.strm = [] := by
  apply (readObject_write_iff _ _).mpr
  . simp [sampleMembers, JValue.height, JValue.heightMembers, JValue.heightElems, JsonFormat.nice]
  . constructor <;> decide
  . simp only [sampleMembers, JValue.Plain, JValue.PlainMembers, JValue.PlainElems, and_true,
      true_and]
    exact ⟨by decide, ⟨10, by decide, rfl⟩, by decide⟩

def JsonFormat.wide : JsonFormat :=
  { JsonFormat.nice with indent := 2 ^ 30 }

/--
`{"a": {"b": null}}`
-/
def nestedMembers : List (Bytes × JValue Nat) :=
  [([97], .object [([98], .null)])]

theorem JsonReader.not_readObject_write_wide
    : ¬ ∀ (fmt : JsonFormat) (vals : List (Bytes × JValue Nat)), fmt.NonNegative
        → (JValue.object vals).Plain
        → ∃ out ls, write fmt 0 (.object vals) = .ok out ∧ readObject (.new out) = .ok (vals, ls)
            ∧ ls.strm = [] := by
  intro h
  have hfmt : JsonFormat.wide.NonNegative := by
    constructor <;> decide
  have hplain : (JValue.object nestedMembers).Plain := by
    simp only [nestedMembers, JValue.Plain, JValue.PlainMembers, and_true]
    decide
  obtain ⟨out, ls, hwrite, _⟩ := h JsonFormat.wide nestedMembers hfmt hplain
  have hfits := (succeeds_writeObject_iff hfmt _).mp ⟨out, hwrite⟩
  simp [nestedMembers, JValue.height, JValue.heightMembers, JsonFormat.wide] at hfits

end HCraft
