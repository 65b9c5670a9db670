import HCraft.Network.Transformers.ZlibMc18.Lemmas.TransformIn
import HCraft.Network.Transformers.ZlibMc18.Lemmas.TransformOut

/-!
This module contains the proof that `transform_in` undoes `transform_out`.
-/

namespace HCraft

/--
What the documentation of zlib promises of `deflateBound`.
-/
def Zlib.Bounded (z : Zlib) : Prop :=
  ∀ {x : Bytes} {n : Nat}, x.length ≤ n → (z.deflate x).length ≤ z.deflateBound n

/--
A codec that has what zlib makes of `x`, a stream with the header byte 120, and writes the rest like
`Zlib.marked`.
-/
def Zlib.knowing (x w : Bytes) : Zlib where
  deflate y := if y = x then w else Zlib.marked.deflate y
  deflateBound n := if n ≤ 12 then n + 13 else 2 * n + 1
  inflate p :=
    if p.head? = some 120 then
      if w <+: p then .streamEnd x else if p <+: w then .needInput [] else .dataError []
    else
      Zlib.marked.inflate p

namespace Zlib.knowing

variable {x w : Bytes}

theorem head_deflate (y : Bytes) : (Zlib.marked.deflate y).head? ≠ some 120 := by
  cases y <;> simp [Zlib.marked]

theorem correct (hw : w.head? = some 120) : (Zlib.knowing x w).Correct where
  inflate_deflate y := by
    unfold knowing
    dsimp only
    split
    . next h =>
      rw [h]
      simp only [↓reduceIte, List.prefix_rfl]
    . rw [if_neg (head_deflate y)]
      exact Zlib.marked.correct.inflate_deflate y
  inflate_of_prefix := by
    intro y p hpre hne
    unfold knowing at hpre hne ⊢
    dsimp only at hpre hne ⊢
    cases p with
    | nil => exact ⟨[], by simp [Zlib.marked, Zlib.marked.go]⟩
    | cons b p =>
      obtain ⟨t, ht⟩ := id hpre
      by_cases hy : y = x
      . rw [if_pos hy] at hpre hne ht
        have hhead : (b :: p).head? = some 120 := by
          rw [← ht] at hw
          exact hw
        have hshort : ¬ w <+: b :: p := fun h => hne (hpre.eq_of_length_le h.length_le)
        rw [if_pos hhead, if_neg hshort, if_pos hpre]
        exact ⟨[], rfl⟩
      . rw [if_neg hy] at hpre hne ht
        have hhead : (b :: p).head? ≠ some 120 := by
          have hfirst := head_deflate y
          rw [← ht] at hfirst
          exact hfirst
        rw [if_neg hhead]
        exact Zlib.marked.correct.inflate_of_prefix hpre hne
  inflate_append := by
    intro p out h t
    unfold knowing at h ⊢
    dsimp only at h ⊢
    cases p with
    | nil =>
      rw [if_neg (by simp)] at h
      cases h
    | cons b p =>
      have hhead : (b :: p ++ t).head? = (b :: p).head? := rfl
      rw [hhead]
      split at h
      . next h120 =>
        split at h
        . next hpre => rw [if_pos h120, if_pos (hpre.trans (List.prefix_append _ _)), h]
        . split at h <;> cases h
      . next h120 =>
        rw [if_neg h120]
        exact Zlib.marked.correct.inflate_append h t
  deflate_ne_nil y := by
    unfold knowing
    dsimp only
    split
    . rintro rfl
      cases hw
    . exact Zlib.marked.correct.deflate_ne_nil y

theorem bounded (hw : w.length ≤ x.length + 13) : (Zlib.knowing x w).Bounded := by
  intro y n h
  have hlen : (Zlib.marked.deflate y).length = 2 * y.length + 1 := by
    simp [Zlib.marked, Nat.mul_comm]
  unfold knowing
  dsimp only
  split
  . next heq =>
    rw [heq] at h
    split <;> omega
  . rw [hlen]
    split <;> omega

end Zlib.knowing

namespace ZlibMc18Transformer

variable {tr : ZlibMc18Transformer}

/--
A frame: the length of the body, and the body.
-/
def frameOf (body : Bytes) : Bytes :=
  Bin.writeVarint body.length ++ body

theorem transformOut_frameOf (hbound : tr.zlib.Bounded) {body : Bytes} (hbody : body.length < 2 ^ 28)
    (hdeflate : (tr.zlib.deflate body).length < 2 ^ 28)
    : tr.transformOut (frameOf body) = .ok (some (packetOf tr body).wire) := by
  rw [frameOf, Bin.writeVarint_eq_encode, transformOut_eq (by omega) (by omega), if_pos]
  right
  apply hbound
  rw [List.length_append]
  omega

theorem received_packetOf_of_ne_nil (hz : tr.zlib.Correct) {body : Bytes} (hne : body ≠ [])
    : (packetOf tr body).received tr.zlib = some (frameOf body) := by
  rw [received_packetOf hz, if_neg (fun h => hne h.1), frameOf, Bin.writeVarint_eq_encode]

theorem receivedAll_packetOf (hz : tr.zlib.Correct) {bodies : List Bytes}
    (hne : ∀ b ∈ bodies, b ≠ [])
    : ZlibPacket.receivedAll tr.zlib (bodies.map (packetOf tr)) = (bodies.map frameOf).flatten := by
  induction bodies with
  | nil => rfl
  | cons b bodies ih =>
    have hrest := ih (fun c hc => hne c (List.mem_cons_of_mem b hc))
    rw [List.map_cons, List.map_cons, List.flatten_cons, ← hrest]
    apply ZlibPacket.receivedAll_cons
    apply received_packetOf_of_ne_nil hz
    apply hne b
    apply List.mem_cons_self

/--
Whatever the threshold, `transform_out` succeeds on every frame, and `transform_in` makes of the
packets exactly the frames.
-/
theorem transformIn_transformOut (hz : tr.zlib.Correct) (hbound : tr.zlib.Bounded)
    {bodies : List Bytes} (hbodies : bodies ≠ []) (hne : ∀ b ∈ bodies, b ≠ [])
    (hsize : ∀ b ∈ bodies, b.length < 2 ^ 28 ∧ (tr.zlib.deflate b).length < 2 ^ 28)
    (hall : (bodies.map frameOf).flatten.length < 2 ^ 28)
    : ∃ wires : List Bytes, wires.map (fun wire => .ok (some wire))
          = bodies.map (fun b => tr.transformOut (frameOf b))
        ∧ (wires.flatten.length < 2 ^ 28 →
          tr.transformIn wires.flatten
            = .ok
              { ok := true
                out := (bodies.map frameOf).flatten
                consumed := wires.flatten.length }) := by
  refine ⟨(bodies.map (packetOf tr)).map ZlibPacket.wire, ?_, ?_⟩
  . rw [List.map_map, List.map_map]
    apply List.map_congr_left
    intro b hb
    obtain ⟨hbody, hdeflate⟩ := hsize b hb
    rw [transformOut_frameOf hbound hbody hdeflate]
    rfl
  . intro hlen
    have hvalid : ∀ q ∈ bodies.map (packetOf tr), q.Valid tr.zlib := by
      intro q hq
      obtain ⟨b, hb, hbq⟩ := List.mem_map.mp hq
      obtain ⟨hbody, hdeflate⟩ := hsize b hb
      rw [← hbq]
      apply valid_packetOf
      . omega
      . omega
    have hgood : ∀ q ∈ bodies.map (packetOf tr), q.received tr.zlib ≠ none := by
      intro q hq
      obtain ⟨b, hb, hbq⟩ := List.mem_map.mp hq
      rw [← hbq, received_packetOf_of_ne_nil hz (hne b hb)]
      simp
    rw [← receivedAll_packetOf hz hne] at hall ⊢
    obtain ⟨buf, hbuf⟩ := outBlock_of_small hvalid hgood (Nat.le_refl _) hlen hall
    cases bodies with
    | nil => contradiction
    | cons b bodies =>
      have hwires := transformIn_wires hvalid hgood (r := []) (by simp)
      rw [List.append_nil] at hwires
      rw [← out_of_outBlock hgood hbuf]
      refine hwires.trans ?_
      exact congrArg (Except.map _) hbuf

/--
zlib with what it makes of nine sevens.
-/
def threshold2 : ZlibMc18Transformer where
  zlib := .knowing (List.replicate 9 7) [120, 156, 99, 103, 135, 2, 0, 1, 68, 0, 64]
  on := true
  threshold := 2

theorem transformIn_transformOut_two
    : ∃ wires : List Bytes, wires.map (fun wire => .ok (some wire))
          = [[7], List.replicate 9 7].map (fun b => threshold2.transformOut (frameOf b))
        ∧ threshold2.transformIn wires.flatten
          = .ok
            { ok := true
              out := ([[7], List.replicate 9 7].map frameOf).flatten
              consumed := wires.flatten.length } := by
  have hbound : threshold2.zlib.Bounded := Zlib.knowing.bounded (by decide)
  obtain ⟨wires, hwires, htransform⟩ := @transformIn_transformOut threshold2
    (Zlib.knowing.correct rfl) hbound [[7], List.replicate 9 7] (by simp) (by simp)
    (by simp [threshold2, Zlib.knowing, Zlib.marked])
    (by simp [frameOf, Bin.writeVarint_eq_encode, Leb128.encode])
  refine ⟨wires, hwires, htransform ?_⟩
  rw [List.map_cons, List.map_singleton, transformOut_frameOf hbound (by simp) (by decide),
    transformOut_frameOf hbound (by simp) (by decide)] at hwires
  have hlen : wires = [(packetOf threshold2 [7]).wire, (packetOf threshold2 (.replicate 9 7)).wire] := by
    apply List.map_injective_iff.mpr _ hwires
    intro a b h
    simpa using h
  rw [hlen]
  simp [packetOf, threshold2, Zlib.knowing, ZlibPacket.wire, ZlibPacket.inner, Leb128.encode]

end ZlibMc18Transformer

end HCraft
