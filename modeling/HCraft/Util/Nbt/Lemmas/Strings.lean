import HCraft.Lib.Returns
import HCraft.Util.Nbt.Lemmas.Write

/-!
This module shows that a string that the reader returns can be written again.
-/

namespace HCraft

theorem zero_notMem_cstr (s : Bytes) : 0 ∉ cstr s := by
  unfold cstr
  intro h
  have hne := List.all_eq_true.mp List.all_takeWhile 0 h
  exact absurd rfl (of_decide_eq_true hne)

theorem length_cstr_le (s : Bytes) : (cstr s).length ≤ s.length := by
  unfold cstr
  exact (List.takeWhile_prefix _).length_le

namespace NbtReader

variable {fuel : Nat} {id : UInt8} {s s' : NbtCursor} {tags tags' : List (Bytes × NbtTag Unit)}

theorem readShortBe_lt {data : Bytes} {n : Nat} (h : Bin.readShortBe data = some n) : n < 2 ^ 16 := by
  match data with
  | b₀ :: b₁ :: _ =>
    injection h with h
    rw [← h]
    apply Nat.or_lt_two_pow
    . have hb := b₀.toNat_lt
      rw [Nat.shiftLeft_eq]
      omega
    . have hb := b₁.toNat_lt
      omega
  | [] | [_] => cases h

theorem returns_readFixed {α : Type} (n : Nat) (read : Bytes → Option α) (s : NbtCursor)
    : Returns (readFixed n read s) (fun r => read s.data = some r.1) := by
  unfold readFixed
  split
  . exact returns_error _
  . split
    . exact returns_error _
    . next v hv =>
      apply returns_bind
      intro s'
      exact returns_ok hv

theorem returns_readPayloadString (s : NbtCursor)
    : Returns (readPayloadString s) (fun r => r.1.length ≤ 65535 ∧ 0 ∉ r.1) := by
  unfold readPayloadString
  refine (returns_readFixed 2 Bin.readShortBe s).bind ?_
  rintro ⟨len, s'⟩ hlen
  have hlt := readShortBe_lt hlen
  dsimp only
  split
  . exact returns_error _
  . split
    . exact returns_error _
    . apply returns_bind
      intro s''
      apply returns_ok
      have hle := length_cstr_le (s'.data.take len)
      rw [List.length_take] at hle
      exact ⟨by dsimp only; omega, zero_notMem_cstr _⟩

/--
The reader has returned this tag.
-/
def Read (t : NbtTag Unit) : Prop :=
  ∃ fuel id s s', readPayload fuel id s = .ok (t, s')

theorem returns_readTag (fuel : Nat) (s : NbtCursor)
    : Returns (readTag fuel s) (fun r => ∀ tag ∈ r.1, Read tag.2) := by
  unfold readTag
  cases fuel with
  | zero => exact returns_error _
  | succ fuel =>
    dsimp only
    split
    . apply returns_ok
      intro tag htag
      cases htag
    . apply returns_bind
      rintro ⟨id, s₁⟩
      apply returns_bind
      rintro ⟨name, s₂⟩
      rw [returns_bind_iff]
      rintro ⟨t, s₃⟩ ht
      apply returns_ok
      intro tag htag
      injection htag with htag
      exact htag ▸ ⟨fuel, id, s₂, s₃, ht⟩

theorem mem_setTag {name : Bytes} {t : NbtTag Unit} {tag : Bytes × NbtTag Unit}
    (h : tag ∈ setTag name t tags) : tag ∈ tags ∨ tag.2 = t := by
  induction tags with
  | nil =>
    rw [setTag, List.mem_singleton] at h
    exact .inr (h ▸ rfl)
  | cons head tags ih =>
    unfold setTag at h
    split at h
    . rw [List.mem_cons] at h
      cases h with
      | inl h => exact .inr (h ▸ rfl)
      | inr h => exact .inl (List.mem_cons_of_mem _ h)
    . rw [List.mem_cons] at h
      cases h with
      | inl h => exact .inl (h ▸ List.mem_cons_self)
      | inr h => exact (ih h).imp_left (List.mem_cons_of_mem _)

theorem returns_readTags (fuel : Nat) (h : ∀ tag ∈ tags, Read tag.2) (s : NbtCursor)
    : Returns (readTags fuel tags s) (fun r => ∀ tag ∈ r.1, Read tag.2) := by
  induction fuel generalizing tags s with
  | zero => exact returns_error _
  | succ fuel ih =>
    unfold readTags
    split
    . exact returns_error _
    . split
      . exact returns_error _
      . split
        . apply returns_bind
          intro s'
          exact returns_ok h
        . refine (returns_readTag fuel s).bind ?_
          rintro ⟨tag, s'⟩ htag
          cases tag with
          | none => exact returns_error _
          | some tag =>
            apply ih
            intro tag' htag'
            cases mem_setTag htag' with
            | inl hmem => exact h tag' hmem
            | inr heq => exact heq ▸ htag tag rfl

/--
What the reader says of its own results.
-/
def Returned : NbtTag Unit → Prop
  | .string val => val.length ≤ 65535 ∧ 0 ∉ val
  | .compound tags => ∀ tag ∈ tags, Read tag.2
  | _ => True

theorem returns_readPayload (fuel : Nat) (id : UInt8) (s : NbtCursor)
    : Returns (readPayload fuel id s) (fun r => Returned r.1) := by
  unfold readPayload
  cases fuel with
  | zero => exact returns_error _
  | succ fuel =>
    dsimp only
    -- no string and no compound
    iterate 7
      apply returns_ite
      . apply returns_map
        intro r hr
        trivial
    apply returns_ite
    . apply returns_map
      exact returns_readPayloadString s
    . apply returns_ite
      . unfold readPayloadList
        apply returns_ite
        . exact returns_error _
        . apply returns_bind
          intro r
          apply returns_bind
          intro r'
          apply returns_bind
          intro r''
          exact returns_ok trivial
      . apply returns_ite
        . refine (returns_readTags fuel (by simp) s).bind ?_
          intro r hr
          exact returns_ok hr
        . apply returns_ite
          . apply returns_map
            intro r hr
            trivial
          . exact returns_error _

theorem Read.returned {t : NbtTag Unit} (h : Read t) : Returned t := by
  obtain ⟨fuel, id, s, s', hread⟩ := h
  exact returns_readPayload fuel id s _ hread

theorem read_of_readRaw {data name : Bytes} (h : readRaw data = .ok (name, tags))
    : ∀ tag ∈ tags, Read tag.2 := by
  have hreturns : Returns (readRaw data) (fun r => ∀ tag ∈ r.2, Read tag.2) := by
    unfold readRaw
    refine (returns_readTag _ _).bind ?_
    rintro ⟨tag, s⟩ htag
    split
    . next heq =>
      injection heq with heq _
      exact returns_ok (htag _ heq).returned
    . exact returns_error _
  exact hreturns _ h

end NbtReader

end HCraft
