import HCraft.Network.Connection.Impl
import HCraft.Network.Transformers.ZlibMc18.Impl

/-!
This module contains the inbound pipeline with one active transformer, which makes it one step of that
transformer per read.
-/

namespace HCraft

open PacketTransformer ZlibMc18Transformer

/--
What the one active transformer of a connection works on: its buffer, and the output.
-/
structure Stage where
  buf : Bytes
  ftb : Bytes
  disconnectReq : Bool
  fault : Option Fault

namespace Stage

/--
`apply_in_transformations` seen from the one active transformer.
-/
def feed (tr : ZlibMc18Transformer) (s : Stage) (data : Bytes) : Stage :=
  let data := s.buf ++ data
  match inEnough data with
  | .error fault => { s with buf := [], fault := some (s.fault.getD fault) }
  | .ok res =>
    if res = -1 then
      { s with buf := [], disconnectReq := true }
    else if res ≠ 1 then
      { s with buf := data }
    else
      match tr.transformIn data with
      | .error fault => { s with buf := [], fault := some (s.fault.getD fault) }
      | .ok res => { s with buf := data.drop res.consumed, ftb := s.ftb ++ res.out }

/--
One read after another.
-/
def feedAll (tr : ZlibMc18Transformer) (s : Stage) (reads : List Bytes) : Stage :=
  reads.foldl (feed tr) s

end Stage

namespace Connection

section Run

variable {τ : Type} [PacketTransformer τ]

/--
`data` arrives, and `apply_in_transformations` is called.
-/
def arrive (conn : Connection τ) (data : Bytes) : Connection τ :=
  ({ conn with input := conn.input ++ data }).applyInTransformations

/--
One read after another.
-/
def arriveAll (conn : Connection τ) (reads : List Bytes) : Connection τ :=
  reads.foldl arrive conn

theorem go_of_off {conn : Connection τ} {pre post : List τ}
    (htrs : conn.trs = pre ++ post) (hpre : pre.any isOn = false) {i : Nat} (hi : i ≤ pre.length)
    (lastbuf : Option Nat) : applyInTransformations.go i lastbuf conn = conn := by
  induction i with
  | zero => rfl
  | succ i ih =>
    have hget : conn.trs[i]? = some pre[i] := by
      rw [htrs, List.getElem?_append_left (by omega), List.getElem?_eq_getElem (by omega)]
    have hoff : isOn pre[i] = false := by
      rw [List.any_eq_false] at hpre
      simpa using hpre pre[i] (List.getElem_mem _)
    rw [applyInTransformations.go, hget]
    simp only [hoff, Bool.not_false, ↓reduceIte]
    exact ih (by omega)

theorem go_skip {conn : Connection τ} {pre post : List τ}
    (htrs : conn.trs = pre ++ post) (hpost : post.any isOn = false) {k : Nat}
    (hk : k ≤ post.length) (lastbuf : Option Nat)
    : applyInTransformations.go (pre.length + k) lastbuf conn
        =
      applyInTransformations.go pre.length lastbuf conn := by
  induction k with
  | zero => rfl
  | succ k ih =>
    have hget : conn.trs[pre.length + k]? = some post[k] := by
      rw [htrs, List.getElem?_append_right (by omega), Nat.add_sub_cancel_left,
        List.getElem?_eq_getElem (by omega)]
    have hoff : isOn post[k] = false := by
      rw [List.any_eq_false] at hpost
      simpa using hpost post[k] (List.getElem_mem _)
    rw [← Nat.add_assoc, applyInTransformations.go, hget]
    simp only [hoff, Bool.not_false, ↓reduceIte]
    exact ih (by omega)

end Run

variable {α : Type}

/--
`s` is what `tr`, the only active transformer of the connection, works on.
-/
structure At (conn : Connection (ZlibMc18Transformer ⊕ α)) (pre post : List (ZlibMc18Transformer ⊕ α))
    (tr : ZlibMc18Transformer) (s : Stage) : Prop where
  trs : conn.trs = pre ++ .inl tr :: post
  input : conn.input = []
  buf : conn.tbs[pre.length]? = some s.buf
  ftb : conn.ftb = s.ftb
  disconnectReq : conn.disconnectReq = s.disconnectReq
  fault : conn.fault = s.fault

variable {conn : Connection (ZlibMc18Transformer ⊕ α)} {pre post : List (ZlibMc18Transformer ⊕ α)}
variable {tr : ZlibMc18Transformer}

namespace At

variable {s : Stage}

theorem setTb (h : At conn pre post tr s) (data : Bytes)
    : At { conn with tbs := conn.tbs.set pre.length data } pre post tr { s with buf := data } where
  trs := h.trs
  input := h.input
  buf := by
    have hlt : pre.length < conn.tbs.length := (List.getElem?_eq_some_iff.mp h.buf).1
    exact List.getElem?_set_self hlt
  ftb := h.ftb
  disconnectReq := h.disconnectReq
  fault := h.fault

theorem addTb (h : At conn pre post tr s) (data : Bytes)
    : At (conn.addTb pre.length data) pre post tr { s with buf := s.buf ++ data } where
  trs := h.trs
  input := h.input
  buf := by
    simp [Connection.addTb, h.buf]
  ftb := h.ftb
  disconnectReq := h.disconnectReq
  fault := h.fault

theorem undefinedBy (h : At conn pre post tr s) (fault : Fault)
    : At (conn.undefinedBy fault) pre post tr { s with fault := some (s.fault.getD fault) } where
  trs := h.trs
  input := h.input
  buf := h.buf
  ftb := h.ftb
  disconnectReq := h.disconnectReq
  fault := by
    simp [Connection.undefinedBy, h.fault]

theorem disconnect (h : At conn pre post tr s)
    : At conn.disconnect pre post tr { s with disconnectReq := true } where
  trs := h.trs
  input := h.input
  buf := h.buf
  ftb := h.ftb
  disconnectReq := rfl
  fault := h.fault

theorem addFtb (h : At conn pre post tr s) (data : Bytes)
    : At { conn with ftb := conn.ftb ++ data } pre post tr { s with ftb := s.ftb ++ data } where
  trs := h.trs
  input := h.input
  buf := h.buf
  ftb := by
    simp [h.ftb]
  disconnectReq := h.disconnectReq
  fault := h.fault

theorem addInput (h : At conn pre post tr s) (data : Bytes)
    : At (({ conn with input := conn.input ++ data }).addBufferTb pre.length none) pre post tr
        { s with buf := s.buf ++ data } where
  trs := h.trs
  input := rfl
  buf := by
    simp [addBufferTb, Connection.addTb, h.buf, h.input]
  ftb := h.ftb
  disconnectReq := h.disconnectReq
  fault := h.fault

/--
`apply_in_transformations` is one step of the active transformer.
-/
theorem arrive [PacketTransformer α] (h : At conn pre post tr s) (hon : tr.on = true)
    (hpre : pre.any isOn = false) (hpost : post.any isOn = false) (data : Bytes)
    : At (conn.arrive data) pre post tr (s.feed tr data) := by
  have htrs := h.trs
  have htrs' : conn.trs = (pre ++ [.inl tr]) ++ post := by simp [htrs]
  have hany : conn.trs.any isOn = true := by
    rw [htrs]
    simp [isOn, hon]
  have hget : conn.trs[pre.length]? = some (.inl tr) := by simp [htrs]
  have hlen : conn.trs.length
      = (pre ++ [(Sum.inl tr : ZlibMc18Transformer ⊕ α)]).length + post.length := by
    rw [htrs', List.length_append]
  have hson : isOn (Sum.inl tr : ZlibMc18Transformer ⊕ α) = true := hon
  have hnext : nextbuf (pre ++ .inl tr :: post) pre.length = none := by
    rw [nextbuf, List.take_left, List.findIdx?_eq_none_iff]
    rw [List.any_eq_false] at hpre
    simpa using hpre
  unfold Connection.arrive applyInTransformations
  simp only [hany, ↓reduceIte]
  rw [hlen, go_skip (by exact htrs') hpost (Nat.le_refl _), List.length_append,
    List.length_singleton, applyInTransformations.go]
  simp only [hget, hson, Bool.not_true, Bool.false_eq_true, ↓reduceIte]
  have hmid := h.addInput data
  generalize ({ conn with input := conn.input ++ data }).addBufferTb pre.length none = conn₁ at hmid
  have hbuf : conn₁.tbs.getD pre.length [] = s.buf ++ data := by
    rw [List.getD_eq_getElem?_getD, hmid.buf]
    rfl
  have hempty := hmid.setTb []
  rw [hbuf]
  unfold Stage.feed
  dsimp only
  have henough : PacketTransformer.inEnough (Sum.inl tr : ZlibMc18Transformer ⊕ α) (s.buf ++ data)
      = ZlibMc18Transformer.inEnough (s.buf ++ data) := rfl
  rw [henough]
  cases hin : ZlibMc18Transformer.inEnough (s.buf ++ data) with
  | error fault => exact hempty.undefinedBy fault
  | ok res =>
    dsimp only
    split
    . exact hempty.disconnect
    . split
      . exact hempty.addTb (s.buf ++ data)
      . rw [transformIn_inl]
        cases tr.transformIn (s.buf ++ data) with
        | error fault => exact hempty.undefinedBy fault
        | ok res =>
          have hset : conn₁.trs.set pre.length (.inl tr) = conn₁.trs := by
            rw [hmid.trs]
            simp
          rw [← hmid.trs] at hnext
          simp only [Except.map, hset, hnext]
          have hfinal := (hempty.addFtb res.out).addTb ((s.buf ++ data).drop res.consumed)
          rw [go_of_off (by exact hfinal.trs) hpre (Nat.le_refl _)]
          exact hfinal

theorem arriveAll [PacketTransformer α] (h : At conn pre post tr s) (hon : tr.on = true)
    (hpre : pre.any isOn = false) (hpost : post.any isOn = false) (reads : List Bytes)
    : At (conn.arriveAll reads) pre post tr (s.feedAll tr reads) := by
  induction reads generalizing conn s with
  | nil => exact h
  | cons data reads ih => exact ih (h.arrive hon hpre hpost data)

theorem start (pre post : List (ZlibMc18Transformer ⊕ α)) (tr : ZlibMc18Transformer)
    : At (Connection.start (pre ++ .inl tr :: post)) pre post tr ⟨[], [], false, none⟩ where
  trs := rfl
  input := rfl
  buf := by
    simp [Connection.start]
  ftb := rfl
  disconnectReq := rfl
  fault := rfl

end At

end Connection

end HCraft
