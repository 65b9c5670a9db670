import HCraft.Network.Connection.Lemmas.Stage
import HCraft.Network.Connection.Pipeline

/-!
This module contains when the inbound side of a connection is the composition of its transformers.
-/

namespace HCraft

open PacketTransformer Pipeline

namespace InPipeline

variable {τ : Type} [PacketTransformer τ] {s s' : τ × Bytes} {rest : List (τ × Bytes)} {data out : Bytes}

theorem runStage_of_off (h : isOn s.1 = false) (data : Bytes) : runStage s data = .on s data := by
  rw [runStage, if_pos h]

theorem runStage_of_on (h : isOn s.1 = true) (data : Bytes)
    : runStage s data = runStage (s.1, s.2 ++ data) [] := by
  simp only [runStage, h, List.append_nil, Bool.true_eq_false, ↓reduceIte]

theorem runStage_cases (h : isOn s.1 = true) (data : Bytes)
    : (∃ f, inEnough s.1 (s.2 ++ data) = .error f
          ∧ runStage s data = .stop (s.1, []) (.fault f))
        ∨ (inEnough s.1 (s.2 ++ data) = .ok (-1) ∧ runStage s data = .stop (s.1, []) .invalid)
        ∨ (∃ res, inEnough s.1 (s.2 ++ data) = .ok res ∧ res ≠ -1 ∧ res ≠ 1
          ∧ runStage s data = .stop (s.1, s.2 ++ data) .needMore)
        ∨ (inEnough s.1 (s.2 ++ data) = .ok 1
          ∧ ∃ f, transformIn s.1 (s.2 ++ data) = .error f
            ∧ runStage s data = .stop (s.1, []) (.fault f))
        ∨ (inEnough s.1 (s.2 ++ data) = .ok 1
          ∧ ∃ tr res, transformIn s.1 (s.2 ++ data) = .ok (tr, res)
            ∧ runStage s data = .on (tr, (s.2 ++ data).drop res.consumed) res.out) := by
  unfold runStage
  rw [if_neg (by rw [h]; exact Bool.true_eq_false.mp)]
  cases hin : inEnough s.1 (s.2 ++ data) with
  | error f => exact .inl ⟨f, rfl, rfl⟩
  | ok res =>
    dsimp only
    split
    . next hinvalid => exact .inr (.inl ⟨by rw [hinvalid], rfl⟩)
    . next hvalid =>
      split
      . next hmore => exact .inr (.inr (.inl ⟨res, rfl, hvalid, hmore, rfl⟩))
      . next henough =>
        have hone : res = 1 := not_not.mp henough
        cases htransform : transformIn s.1 (s.2 ++ data) with
        | error f => exact .inr (.inr (.inr (.inl ⟨by rw [hone], f, rfl, rfl⟩)))
        | ok res' => exact .inr (.inr (.inr (.inr ⟨by rw [hone], res'.1, res'.2, rfl, rfl⟩)))

theorem straight_of_on (h : runStage s data = .on s' out) (hstraight : Straight (s :: rest) data)
    : (isOn s.1 = true → rest.any (fun s => isOn s.1) = true →
        s'.2 = [] ∧ (2 ≤ rest.countP (fun s => isOn s.1) → out = []))
      ∧ Straight rest out := by
  rw [Straight, h] at hstraight
  exact hstraight

/--
`data` joins what the first active transformer of the list has left.
-/
def give (data : Bytes) : List (τ × Bytes) → List (τ × Bytes)
  | [] => []
  | s :: rest => if isOn s.1 = true then (s.1, s.2 ++ data) :: rest else s :: give data rest

theorem feed_give (hany : rest.any (fun s => isOn s.1) = true) (data : Bytes)
    : feed runStage (give data rest) [] = feed runStage rest data := by
  induction rest with
  | nil => cases hany
  | cons s rest ih =>
    rw [give]
    split
    . next hon => exact feed_congr (runStage_of_on hon data).symm
    . next hoff =>
      rw [Bool.not_eq_true] at hoff
      rw [List.any_cons, hoff, Bool.false_or] at hany
      rw [feed_of_on (runStage_of_off hoff []), feed_of_on (runStage_of_off hoff data), ih hany]

theorem straight_give (hany : rest.any (fun s => isOn s.1) = true) (data : Bytes)
    : Straight (give data rest) [] ↔ Straight rest data := by
  induction rest with
  | nil => cases hany
  | cons s rest ih =>
    rw [give]
    split
    . next hon => rw [Straight, Straight, runStage_of_on hon data]
    . next hoff =>
      rw [Bool.not_eq_true] at hoff
      rw [List.any_cons, hoff, Bool.false_or] at hany
      rw [Straight, Straight, runStage_of_off hoff, runStage_of_off hoff]
      simp only [hoff, Bool.false_eq_true, false_implies, true_and]
      exact ih hany

theorem give_nil (rest : List (τ × Bytes)) : give [] rest = rest := by
  induction rest with
  | nil => rfl
  | cons s rest ih =>
    rw [give, List.append_nil, ih]
    exact ite_self _

theorem length_give (data : Bytes) (rest : List (τ × Bytes)) : (give data rest).length = rest.length := by
  induction rest with
  | nil => rfl
  | cons s rest ih =>
    rw [give]
    split
    . rfl
    . rw [List.length_cons, List.length_cons, ih]

/--
The first transformer is the one to be given the output, for there is no other active one, or no
output.
-/
theorem exists_give (hany : rest.any (fun s => isOn s.1) = true)
    (hout : 2 ≤ rest.countP (fun s => isOn s.1) → out = [])
    : ∃ pre t post, rest = pre ++ t :: post ∧ isOn t.1 = true
        ∧ post.any (fun s => isOn s.1) = false
        ∧ give out rest = pre ++ (t.1, t.2 ++ out) :: post := by
  induction rest with
  | nil => cases hany
  | cons s rest ih =>
    cases hrest : rest.any (fun s => isOn s.1) with
    | false =>
      rw [List.any_cons, hrest, Bool.or_false] at hany
      exact ⟨[], s, rest, rfl, hany, hrest, by rw [give, if_pos hany]; rfl⟩
    | true =>
      rw [List.countP_cons] at hout
      obtain ⟨pre, t, post, hsplit, hon, hpost, hgive⟩ := ih hrest (fun h => hout (by omega))
      refine ⟨s :: pre, t, post, by rw [hsplit]; rfl, hon, hpost, ?_⟩
      cases hs : isOn s.1 with
      | false =>
        rw [give, if_neg (by rw [hs]; exact Bool.false_ne_true), hgive]
        rfl
      | true =>
        -- there are two of them, so that nothing is given to either
        have hpos : 0 < rest.countP (fun s => isOn s.1) := by
          rw [List.countP_pos_iff]
          exact List.any_eq_true.mp hrest
        have hnil : out = [] := hout (by rw [if_pos hs]; omega)
        rw [hnil, give_nil, List.append_nil, hsplit]
        rfl

end InPipeline

open InPipeline

namespace Connection

variable {τ : Type}

/--
The abstract pipeline that a connection stands for.
-/
def inPipeline (conn : Connection τ) : InPipeline τ where
  stages := (conn.trs.zip conn.tbs).reverse
  ftb := conn.ftb
  disconnectReq := conn.disconnectReq
  fault := conn.fault

/--
The connection is in the state `p` of the abstract pipeline, and `input` is still to be read.
-/
structure Represents (conn : Connection τ) (input : Bytes) (p : InPipeline τ) : Prop where
  trs : conn.trs = p.stages.reverse.map Prod.fst
  tbs : conn.tbs = p.stages.reverse.map Prod.snd
  ftb : conn.ftb = p.ftb
  disconnectReq : conn.disconnectReq = p.disconnectReq
  fault : conn.fault = p.fault
  input : conn.input = input

theorem modify_length {α : Type} (pre post : List α) (a : α) (f : α → α)
    : (pre ++ a :: post).modify pre.length f = pre ++ f a :: post := by
  rw [List.modify_eq_take_cons_drop (by simp)]
  simp

namespace Represents

variable {conn : Connection τ} {input : Bytes} {p : InPipeline τ} {s : τ × Bytes}
variable {upper rest : List (τ × Bytes)}

theorem getElem?_trs (h : conn.Represents input { p with stages := upper ++ s :: rest })
    : conn.trs[rest.length]? = some s.1 := by
  rw [h.trs]
  simp

theorem getElem?_tbs (h : conn.Represents input { p with stages := upper ++ s :: rest })
    : conn.tbs[rest.length]? = some s.2 := by
  rw [h.tbs]
  simp

theorem setTb (h : conn.Represents input { p with stages := upper ++ s :: rest }) (data : Bytes)
    : Represents { conn with tbs := conn.tbs.set rest.length data } input
        { p with stages := upper ++ (s.1, data) :: rest } where
  trs := by
    rw [h.trs]
    simp
  tbs := by
    rw [h.tbs]
    simp
  ftb := h.ftb
  disconnectReq := h.disconnectReq
  fault := h.fault
  input := h.input

theorem setTr (h : conn.Represents input { p with stages := upper ++ s :: rest }) (tr : τ)
    : Represents { conn with trs := conn.trs.set rest.length tr } input
        { p with stages := upper ++ (tr, s.2) :: rest } where
  trs := by
    rw [h.trs]
    simp
  tbs := by
    rw [h.tbs]
    simp
  ftb := h.ftb
  disconnectReq := h.disconnectReq
  fault := h.fault
  input := h.input

theorem addTb (h : conn.Represents input { p with stages := upper ++ s :: rest }) (data : Bytes)
    : Represents (conn.addTb rest.length data) input
        { p with stages := upper ++ (s.1, s.2 ++ data) :: rest } where
  trs := by
    rw [Connection.addTb, h.trs]
    simp
  tbs := by
    have hmodify := modify_length (rest.reverse.map Prod.snd) (upper.reverse.map Prod.snd) s.2
      (· ++ data)
    rw [List.length_map, List.length_reverse] at hmodify
    rw [Connection.addTb, h.tbs]
    simpa using hmodify
  ftb := h.ftb
  disconnectReq := h.disconnectReq
  fault := h.fault
  input := h.input

theorem addFtb (h : conn.Represents input p) (data : Bytes)
    : Represents { conn with ftb := conn.ftb ++ data } input { p with ftb := p.ftb ++ data } where
  trs := h.trs
  tbs := h.tbs
  ftb := congrArg (· ++ data) h.ftb
  disconnectReq := h.disconnectReq
  fault := h.fault
  input := h.input

theorem disconnect (h : conn.Represents input p)
    : Represents conn.disconnect input { p with disconnectReq := true } where
  trs := h.trs
  tbs := h.tbs
  ftb := h.ftb
  disconnectReq := rfl
  fault := h.fault
  input := h.input

theorem undefinedBy (h : conn.Represents input p) (f : Fault)
    : Represents (conn.undefinedBy f) input { p with fault := some (p.fault.getD f) } where
  trs := h.trs
  tbs := h.tbs
  ftb := h.ftb
  disconnectReq := h.disconnectReq
  fault := by
    rw [← h.fault]
    rfl
  input := h.input

theorem addInput (h : conn.Represents input { p with stages := upper ++ s :: rest })
    : Represents (conn.addBufferTb rest.length none) []
        { p with stages := upper ++ (s.1, s.2 ++ input) :: rest } := by
  have := h.addTb input
  rw [← h.input] at this ⊢
  exact ⟨this.trs, this.tbs, this.ftb, this.disconnectReq, this.fault, rfl⟩

theorem addBufferTb_eq {i j : Nat} (h : conn.tbs[j]? = some []) : conn.addBufferTb i (some j) = conn := by
  have hlt : j < conn.tbs.length := (List.getElem?_eq_some_iff.mp h).1
  have hget : conn.tbs.getD j [] = [] := by
    rw [List.getD_eq_getElem?_getD, h]
    rfl
  have hmodify : conn.tbs.modify i (· ++ []) = conn.tbs := by
    apply List.ext_getElem?
    intro k
    rw [List.getElem?_modify]
    simp
  have hadd : conn.addTb i [] = conn := by
    rw [Connection.addTb, hmodify]
  have hset : conn.tbs.set j [] = conn.tbs := by
    have := (List.getElem?_eq_some_iff.mp h).2
    rw [← this, List.set_getElem_self]
  unfold addBufferTb
  dsimp only
  rw [hget, hadd, hset]

end Represents

section Loop

variable [PacketTransformer τ] {conn conn₁ : Connection τ} {p : InPipeline τ} {s : τ × Bytes}
variable {upper rest : List (τ × Bytes)} {lastbuf : Option Nat} {data out : Bytes}

theorem go_off (htr : conn.trs[rest.length]? = some s.1) (hoff : isOn s.1 = false)
    : applyInTransformations.go (rest.length + 1) lastbuf conn
        =
      applyInTransformations.go rest.length lastbuf conn := by
  rw [applyInTransformations.go, htr]
  simp only [hoff, Bool.not_false, ↓reduceIte]

theorem nextbuf_of_off (h : conn.Represents [] { p with stages := upper ++ s :: rest })
    (hrest : rest.any (fun s => isOn s.1) = false) : nextbuf conn.trs rest.length = none := by
  rw [nextbuf, h.trs, List.findIdx?_eq_none_iff]
  rw [List.any_eq_false] at hrest
  simpa using hrest

/--
The others put it to the one that is active first, whether or not it is the next one.
-/
theorem nextbuf_of_on {pre post : List (τ × Bytes)} {t : τ × Bytes}
    (h : conn.Represents [] { p with stages := upper ++ s :: rest }) (hrest : rest = pre ++ t :: post)
    (hon : isOn t.1 = true) (hpost : post.any (fun s => isOn s.1) = false)
    : nextbuf conn.trs rest.length = some post.length := by
  have hnone : (post.reverse.map Prod.fst).findIdx? isOn = none := by
    rw [List.findIdx?_eq_none_iff]
    rw [List.any_eq_false] at hpost
    simpa using hpost
  have htrs : conn.trs = (post.reverse.map Prod.fst ++ t.1 :: pre.reverse.map Prod.fst)
      ++ s.1 :: upper.reverse.map Prod.fst := by
    rw [h.trs, hrest]
    simp
  have hlength : (post.reverse.map Prod.fst ++ t.1 :: pre.reverse.map Prod.fst).length = rest.length := by
    rw [hrest]
    simp
    omega
  rw [nextbuf, htrs, List.take_left' hlength, List.findIdx?_append, hnone, List.findIdx?_cons, if_pos hon]
  simp

/--
What the loop does to the transformers below, all of which have been given their data, and none of
whose buffers holds any of another one.
-/
def GoesOn (τ : Type) [PacketTransformer τ] (n : Nat) : Prop :=
  ∀ (rest upper : List (τ × Bytes)) (p : InPipeline τ) (conn : Connection τ) (j : Nat),
    rest.length = n → conn.Represents [] { p with stages := upper ++ rest } →
    conn.tbs[j]? = some [] → Straight rest [] →
    Represents (applyInTransformations.go n (some j) conn) []
      (p.finish (upper ++ (feed runStage rest []).1) (feed runStage rest []).2)

/--
The loop goes on below once the output `out` of a transformer has been put where it goes.
-/
theorem go_handed {tr : τ} {left : Bytes} (hbelow : GoesOn τ rest.length)
    (h : conn.Represents [] { p with stages := upper ++ (tr, []) :: rest })
    (hleft : rest.any (fun s => isOn s.1) = true →
      left = [] ∧ (2 ≤ rest.countP (fun s => isOn s.1) → out = []))
    (hstraight : Straight rest out)
    : Represents
        (applyInTransformations.go rest.length (some rest.length)
          ((match nextbuf conn.trs rest.length with
            | some j => conn.addTb j out
            | none => { conn with ftb := conn.ftb ++ out }).addTb rest.length left))
        [] (p.finish (upper ++ (tr, left) :: (feed runStage rest out).1) (feed runStage rest out).2) := by
  cases hany : rest.any (fun s => isOn s.1) with
  | false =>
    rw [nextbuf_of_off h hany]
    have hoff : ∀ s ∈ rest, ∀ data, runStage s data = .on s data := by
      intro s hs data
      rw [List.any_eq_false] at hany
      exact runStage_of_off (by simpa using hany s hs) data
    have hfinal := Represents.addTb (p := { p with ftb := p.ftb ++ out }) (h.addFtb out) left
    have hgo := @go_of_off τ _ _ (rest.reverse.map Prod.fst) (tr :: upper.reverse.map Prod.fst)
      (by rw [hfinal.trs]; simp) (by simpa [List.any_map] using hany) rest.length (by simp)
      (some rest.length)
    rw [hgo, feed_of_forall hoff]
    exact hfinal
  | true =>
    obtain ⟨hnil, hout⟩ := hleft hany
    obtain ⟨pre, t, post, hsplit, hon, hpost, hgive⟩ := exists_give hany hout
    rw [nextbuf_of_on h hsplit hon hpost, hnil]
    have hgiven : Represents (conn.addTb post.length out) []
        { p with stages := upper ++ (tr, []) :: give out rest } := by
      rw [hsplit, ← List.cons_append, ← List.append_assoc] at h
      have := h.addTb out
      rw [List.append_assoc, List.cons_append, ← hgive] at this
      exact this
    have hfinal := hgiven.addTb []
    rw [length_give] at hfinal
    have hempty := hfinal.getElem?_tbs
    rw [length_give] at hempty
    have hstages : upper ++ (tr, []) :: give out rest = (upper ++ [(tr, [])]) ++ give out rest := by
      rw [List.append_assoc]
      rfl
    have := hbelow (give out rest) (upper ++ [(tr, [])]) p _ rest.length (length_give out rest)
      (by rw [← hstages]; exact hfinal) hempty ((straight_give hany out).mpr hstraight)
    rw [feed_give hany, List.append_assoc] at this
    exact this

theorem go_on (hbelow : GoesOn τ rest.length) (htr : conn.trs[rest.length]? = some s.1)
    (hon : isOn s.1 = true) (hbuf : conn.addBufferTb rest.length lastbuf = conn₁)
    (h : conn₁.Represents [] { p with stages := upper ++ (s.1, s.2 ++ data) :: rest })
    (hstraight : Straight (s :: rest) data)
    : Represents (applyInTransformations.go (rest.length + 1) lastbuf conn) []
        (p.finish (upper ++ (feed runStage (s :: rest) data).1) (feed runStage (s :: rest) data).2) := by
  have hget : conn₁.tbs.getD rest.length [] = s.2 ++ data := by
    rw [List.getD_eq_getElem?_getD, h.getElem?_tbs]
    rfl
  have hempty := h.setTb []
  rw [applyInTransformations.go, htr]
  simp only [hon, Bool.not_true, Bool.false_eq_true, ↓reduceIte]
  rw [hbuf, hget]
  rcases runStage_cases hon data with ⟨f, hin, hrun⟩ | ⟨hin, hrun⟩ | ⟨res, hin, hvalid, hmore, hrun⟩
    | ⟨hin, f, htransform, hrun⟩ | ⟨hin, tr, res, htransform, hrun⟩
  . rw [feed_of_stop hrun]
    simp only [hin]
    exact hempty.undefinedBy f
  . rw [feed_of_stop hrun]
    simp only [hin, ↓reduceIte]
    exact hempty.disconnect
  . rw [feed_of_stop hrun]
    simp only [hin, hvalid, hmore, ↓reduceIte, ne_eq, not_false_eq_true]
    exact hempty.addTb (s.2 ++ data)
  . rw [feed_of_stop hrun]
    simp only [hin, htransform]
    exact hempty.undefinedBy f
  . obtain ⟨hconsumed, hrest⟩ := straight_of_on hrun hstraight
    rw [feed_of_on hrun]
    simp only [hin, htransform]
    exact go_handed hbelow (hempty.setTr tr) (hconsumed hon) hrest

theorem goesOn (n : Nat) : GoesOn τ n := by
  induction n with
  | zero =>
    intro rest upper p conn j hlen h _ _
    rw [List.length_eq_zero_iff] at hlen
    subst hlen
    rw [applyInTransformations.go]
    have := h.addFtb []
    rw [List.append_nil] at this
    exact this
  | succ n ih =>
    intro rest upper p conn j hlen h hempty hstraight
    cases rest with
    | nil => cases hlen
    | cons s rest =>
      rw [List.length_cons, Nat.add_right_cancel_iff] at hlen
      subst hlen
      cases hs : isOn s.1 with
      | false =>
        have hrun := runStage_of_off hs []
        rw [go_off h.getElem?_trs hs, feed_of_on hrun]
        have hstages : upper ++ s :: rest = (upper ++ [s]) ++ rest := by
          rw [List.append_assoc]
          rfl
        rw [hstages] at h
        have := ih rest (upper ++ [s]) p conn j rfl h hempty (straight_of_on hrun hstraight).2
        rw [List.append_assoc] at this
        exact this
      | true =>
        apply go_on ih h.getElem?_trs hs (Represents.addBufferTb_eq hempty) _ hstraight
        rw [List.append_nil]
        exact h

theorem go_input {input : Bytes} (upper : List (τ × Bytes))
    (h : conn.Represents input { p with stages := upper ++ rest })
    (hany : rest.any (fun s => isOn s.1) = true) (hstraight : Straight rest input)
    : Represents (applyInTransformations.go rest.length none conn) []
        (p.finish (upper ++ (feed runStage rest input).1) (feed runStage rest input).2) := by
  induction rest generalizing upper with
  | nil => cases hany
  | cons s rest ih =>
    cases hs : isOn s.1 with
    | false =>
      have hrun := runStage_of_off hs input
      rw [List.any_cons, hs, Bool.false_or] at hany
      rw [List.length_cons, go_off h.getElem?_trs hs, feed_of_on hrun]
      have hstages : upper ++ s :: rest = (upper ++ [s]) ++ rest := by
        rw [List.append_assoc]
        rfl
      rw [hstages] at h
      have := ih _ h hany (straight_of_on hrun hstraight).2
      rw [List.append_assoc] at this
      exact this
    | true => exact go_on (goesOn rest.length) h.getElem?_trs hs rfl h.addInput hstraight

theorem Represents.arrive (h : conn.Represents [] p) (hstraight : Straight p.stages data)
    : (conn.arrive data).Represents [] (p.arrive data) := by
  have hinput : Represents { conn with input := conn.input ++ data } data p :=
    ⟨h.trs, h.tbs, h.ftb, h.disconnectReq, h.fault, by rw [h.input]; rfl⟩
  have hany : conn.trs.any isOn = p.stages.any (fun s => isOn s.1) := by
    rw [h.trs]
    simp [List.any_map, Function.comp_def]
  have hlen : conn.trs.length = p.stages.length := by
    rw [h.trs]
    simp
  unfold Connection.arrive applyInTransformations InPipeline.arrive
  dsimp only
  rw [hany, hlen]
  cases hon : p.stages.any (fun s => isOn s.1) with
  | true =>
    rw [if_pos rfl]
    exact go_input [] hinput hon hstraight
  | false =>
    have hoff : ∀ s ∈ p.stages, ∀ data, runStage s data = .on s data := by
      intro s hs data
      rw [List.any_eq_false] at hon
      exact runStage_of_off (by simpa using hon s hs) data
    rw [if_neg Bool.false_ne_true, feed_of_forall hoff]
    have hfinal := hinput.addFtb data
    rw [h.input]
    exact ⟨hfinal.trs, hfinal.tbs, by rw [h.ftb]; rfl, hfinal.disconnectReq, hfinal.fault, rfl⟩

omit [PacketTransformer τ] in
theorem Represents.inPipeline_eq {input : Bytes} (h : conn.Represents input p)
    : conn.inPipeline = p := by
  rw [inPipeline, h.trs, h.tbs, List.zip_map', List.map_id'', List.reverse_reverse, h.ftb,
    h.disconnectReq, h.fault]
  . intro s
    rfl

omit [PacketTransformer τ] in
theorem represents_start (trs : List τ) : (start trs).Represents [] (start trs).inPipeline where
  trs := by
    simp only [start, inPipeline, List.reverse_reverse]
    exact (List.map_fst_zip (by simp)).symm
  tbs := by
    simp only [start, inPipeline, List.reverse_reverse]
    exact (List.map_snd_zip (by simp)).symm
  ftb := rfl
  disconnectReq := rfl
  fault := rfl
  input := rfl

theorem Represents.arriveAll (h : conn.Represents [] p) (reads : List Bytes)
    (hstraight : ∀ k (hk : k < reads.length),
      Straight (conn.arriveAll (reads.take k)).inPipeline.stages reads[k])
    {k : Nat} (hk : k ≤ reads.length)
    : (conn.arriveAll (reads.take k)).Represents [] (p.arriveAll (reads.take k)) := by
  induction k with
  | zero => exact h
  | succ k ih =>
    have hrep := ih (by omega)
    have hgood := hstraight k (by omega)
    rw [hrep.inPipeline_eq] at hgood
    rw [List.take_succ_eq_append_getElem (by omega), Connection.arriveAll, InPipeline.arriveAll,
      List.foldl_append, List.foldl_append]
    exact hrep.arrive hgood

end Loop

/--
Reads that all find the pipeline straight go through it as through the composition of its
transformers, whichever of them are active.
-/
theorem represents_arriveAll [PacketTransformer τ] (trs : List τ) (reads : List Bytes)
    (hstraight : ∀ k (hk : k < reads.length),
      Straight ((start trs).arriveAll (reads.take k)).inPipeline.stages reads[k])
    (k : Nat) (hk : k ≤ reads.length)
    : ((start trs).arriveAll (reads.take k)).Represents []
        ((start trs).inPipeline.arriveAll (reads.take k)) :=
  (represents_start trs).arriveAll reads hstraight hk

/--
A transformer that takes two bytes at a time, as they are.
-/
structure PairTransformer where
  on : Bool
  deriving DecidableEq

instance : PacketTransformer PairTransformer where
  isOn tr := tr.on
  inEnough _ data := .ok (if 2 ≤ data.length then 1 else 0)
  transformIn tr data := .ok (tr, ⟨true, data.take 2, 2⟩)

theorem represents_arriveAll_pairs
    : ((start [⟨true⟩, ⟨false⟩, (⟨true⟩ : PairTransformer)]).arriveAll
          ([[1], [2]].take 2)).Represents []
        ((start [⟨true⟩, ⟨false⟩, (⟨true⟩ : PairTransformer)]).inPipeline.arriveAll
          ([[1], [2]].take 2)) := by
  apply represents_arriveAll
  . intro k hk
    cases k with
    | zero => trivial
    | succ k =>
      have hzero : k = 0 := by
        rw [List.length_cons, List.length_singleton] at hk
        omega
      subst hzero
      refine ⟨fun _ _ => ⟨rfl, fun h => absurd h (by decide)⟩, fun h => absurd h (by decide), ?_⟩
      exact ⟨fun _ h => absurd h (by decide), trivial⟩
  . decide

/--
The third byte goes to the wrong transformer.
-/
theorem not_represents_arriveAll_pairs
    : ¬ ((start [⟨true⟩, (⟨true⟩ : PairTransformer)]).arriveAll [[1, 2, 3], [4]]).Represents []
        ((start [⟨true⟩, (⟨true⟩ : PairTransformer)]).inPipeline.arriveAll [[1, 2, 3], [4]]) := by
  intro h
  have hftb := h.ftb
  revert hftb
  decide

end Connection

end HCraft
