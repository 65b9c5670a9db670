import HCraft.Lib.Framing
import HCraft.Network.Connection.Lemmas.Send
import HCraft.Network.Transformers.ZlibMc18.Lemmas.Packet

/-!
This module contains what reaches the wire when encryption and compression begin between two packets.
-/

namespace HCraft

open Transition PacketTransformer

/--
The outputs of a list of transformers known beforehand, whatever the packets are.
-/
structure Replay where
  outs : List Bytes

instance : PacketTransformer Replay where
  isOn _ := true
  inEnough _ _ := .ok 0
  transformIn _ _ := .error .nullPointer

instance : TransformOut Replay where
  transformOut tr _ :=
    match tr.outs with
    | [] => .ok (tr, none)
    | out :: outs => .ok (⟨outs⟩, some out)

theorem transform_replay (out : Bytes) (outs : List Bytes) (pack : Bytes)
    : transform [Replay.mk (out :: outs)] pack = some ([⟨outs⟩], out) := rfl

theorem eq_of_transformAll_replay {outs outs' outs₁ packs : List Bytes}
    (h : transformAll [Replay.mk outs] packs = some ([⟨outs'⟩], outs₁)) : outs = outs₁ ++ outs' := by
  induction packs generalizing outs outs₁ with
  | nil =>
    injection h with h
    injection h with h₁ h₂
    injection h₁ with h₁
    injection h₁ with h₁
    rw [h₁, ← h₂, List.nil_append]
  | cons pack packs ih =>
    cases outs with
    | nil => cases h
    | cons out outs =>
      rw [transformAll, transform_replay] at h
      simp only [Option.bind_eq_bind, Option.bind_some, Option.pure_def, Option.bind_eq_some_iff,
        Option.some.injEq, Prod.mk.injEq, Prod.exists] at h
      obtain ⟨trs, outs₂, hrest, htrs, houts⟩ := h
      rw [htrs] at hrest
      rw [ih hrest, ← houts, List.cons_append]

namespace OutConnection

section Replay

variable {τ : Type}

/--
The connection with the outputs of its transformers in place of the transformers.
-/
def replay (conn : OutConnection τ) (outs : List Bytes) : OutConnection Replay :=
  { conn with trs := [⟨outs⟩] }

theorem deref_replay (conn : OutConnection τ) (outs : List Bytes) (cont : Nat)
    : (conn.replay outs).deref cont = conn.deref cont := rfl

theorem onWrite_replay (conn : OutConnection τ) (outs : List Bytes)
    : (conn.replay outs).onWrite = conn.onWrite.map (·.replay outs) := by
  unfold onWrite
  rw [show (conn.replay outs).outq = conn.outq from rfl,
    show (conn.replay outs).initPack = conn.initPack from rfl]
  cases conn.outq with
  | nil => rfl
  | cons cont outq =>
    dsimp only
    split
    . rfl
    . rw [deref_replay]
      cases conn.deref cont with
      | error fault => rfl
      | ok c =>
        dsimp only [bind, Except.bind]
        split
        . rfl
        . cases outq with
          | nil => rfl
          | cons next outq =>
            dsimp only
            rw [show (OutConnection.deref { (conn.replay outs).delete cont with outq := next :: outq }
                next) = OutConnection.deref { conn.delete cont with outq := next :: outq } next from rfl]
            cases OutConnection.deref { conn.delete cont with outq := next :: outq } next <;> rfl

theorem foldl_delete_replay (conts : List Nat) (conn : OutConnection τ) (outs : List Bytes)
    : conts.foldl delete (conn.replay outs) = (conts.foldl delete conn).replay outs := by
  induction conts generalizing conn with
  | nil => rfl
  | cons cont conts ih => exact ih (conn.delete cont)

theorem onTime_replay (conn : OutConnection τ) (outs : List Bytes)
    : (conn.replay outs).onTime = conn.onTime.map (·.replay outs) := by
  unfold onTime
  rw [show (conn.replay outs).disconnectReq = conn.disconnectReq from rfl,
    show (conn.replay outs).initPack = conn.initPack from rfl]
  split
  . unfold disconnectNow
    rw [show (conn.replay outs).disconnected = conn.disconnected from rfl]
    split
    . rfl
    . rw [show (conn.replay outs).outq = conn.outq from rfl, foldl_delete_replay]
      rfl
  . cases conn.initPack with
    | none => rfl
    | some cont =>
      dsimp only
      rw [deref_replay]
      cases conn.deref cont <;> rfl

variable [TransformOut τ]

/--
Only `send` makes use of the transformers.
-/
theorem step_replay (conn : OutConnection τ) (outs : List Bytes) {l : Label}
    (hsend : ∀ pack flags, l ≠ .send pack flags)
    : step (.ok (conn.replay outs)) l = (step (.ok conn) l).map (Except.map (·.replay outs)) := by
  cases l with
  | send pack flags => exact absurd rfl (hsend pack flags)
  | onTime => exact congrArg some (onTime_replay conn outs)
  | onWrite =>
    rw [step, step, show (conn.replay outs).output = conn.output from rfl]
    split
    . exact congrArg some (onWrite_replay conn outs)
    . rfl
  | drain n => rfl
  | disconnect => rfl

def closed (conn : OutConnection τ) : Bool :=
  !conn.canSend || conn.disconnected || conn.disconnectReq

theorem send_of_closed {conn : OutConnection τ} (h : conn.closed = true) (pack : Bytes)
    (flags : UInt32) : conn.send pack flags = .ok conn := by
  rw [send, if_pos (by exact h)]

theorem send_replay {conn : OutConnection τ} (h : conn.closed = false) {pack out : Bytes}
    {trs : List τ} (hout : transform conn.trs pack = some (trs, out)) (flags : UInt32)
    (outs : List Bytes)
    : ∃ conn', conn.send pack flags = .ok conn' ∧ conn'.trs = trs
        ∧ (conn.replay (out :: outs)).send pack flags = .ok (conn'.replay outs) := by
  have hopen : ¬ (!conn.canSend || conn.disconnected || conn.disconnectReq) = true := by
    rw [← closed, h]
    exact Bool.false_ne_true
  have hopen' : ¬ (!(conn.replay (out :: outs)).canSend || (conn.replay (out :: outs)).disconnected
      || (conn.replay (out :: outs)).disconnectReq) = true := hopen
  have happly := applyOutTransformations_eq (transform_replay out outs pack)
  rw [send, if_neg hopen, applyOutTransformations_eq hout, send, if_neg hopen',
    show (conn.replay (out :: outs)).trs = [⟨out :: outs⟩] from rfl, happly]
  exact ⟨_, rfl, rfl, rfl⟩

/--
The packets with the outputs `outs` go out in order, whatever the transformers make of the next ones.
-/
def Ordered (conn : OutConnection τ) (outs : List Bytes) : Prop :=
  ∀ rest, Invariant [Replay.mk (outs ++ rest)] (conn.replay rest) outs conn.freed.length

omit [TransformOut τ] in
theorem ordered_start (trs : List τ) : (start trs).Ordered [] :=
  fun rest => invariant_start [Replay.mk rest]

omit [TransformOut τ] in
/--
The invariant of one replay names the outputs and what has been freed.
-/
theorem Invariant.replay_eq {conn : OutConnection τ} {outs rest outs' : List Bytes} {freed : Nat}
    (h : Invariant [Replay.mk (outs ++ rest)] (conn.replay rest) outs' freed)
    : outs' = outs ∧ freed = conn.freed.length := by
  have houts := eq_of_transformAll_replay h.transformed
  have hfreed := congrArg List.length h.freed_eq
  rw [List.length_range] at hfreed
  exact ⟨(List.append_cancel_right houts).symm, hfreed.symm⟩

theorem Ordered.send {conn : OutConnection τ} {outs : List Bytes} (h : conn.Ordered outs)
    {pack out : Bytes} {trs : List τ} (hout : transform conn.trs pack = some (trs, out))
    (hopen : conn.closed = false) (flags : UInt32)
    : ∃ conn', conn.send pack flags = .ok conn' ∧ conn'.trs = trs ∧ conn'.Ordered (outs ++ [out]) := by
  obtain ⟨conn', hsend, htrs, _⟩ := send_replay hopen hout flags []
  refine ⟨conn', hsend, htrs, fun rest => ?_⟩
  obtain ⟨conn₁, hsend₁, _, hreplay⟩ := send_replay hopen hout flags rest
  rw [hsend] at hsend₁
  injection hsend₁ with hsend₁
  obtain ⟨conn₂, outs', hsend₂, hinv⟩ := (h (out :: rest)).send flags
    (show (transform [Replay.mk (out :: rest)] pack).isSome = true from rfl)
  rw [hreplay] at hsend₂
  injection hsend₂ with hsend₂
  rw [← hsend₂, ← hsend₁, List.append_cons] at hinv
  obtain ⟨houts, hfreed⟩ := hinv.replay_eq
  rw [houts, hfreed] at hinv
  exact hinv

omit [TransformOut τ] in
theorem onWrite_trs {conn conn' : OutConnection τ} (h : conn.onWrite = .ok conn')
    : conn'.trs = conn.trs := by
  unfold onWrite at h
  split at h
  . injection h with h
    rw [h]
  . next cont outq _ =>
    split at h
    . injection h with h
      rw [h]
    . cases hderef : conn.deref cont with
      | error fault =>
        rw [hderef] at h
        cases h
      | ok c =>
        rw [hderef] at h
        dsimp only [bind, Except.bind] at h
        split at h
        . injection h with h
          rw [← h]
          rfl
        . cases outq with
          | nil =>
            injection h with h
            rw [← h]
            rfl
          | cons next outq =>
            dsimp only at h
            split at h
            . cases h
            . injection h with h
              rw [← h]
              rfl

omit [TransformOut τ] in
theorem foldl_delete_trs (conts : List Nat) (conn : OutConnection τ)
    : (conts.foldl delete conn).trs = conn.trs := by
  induction conts generalizing conn with
  | nil => rfl
  | cons cont conts ih => exact ih (conn.delete cont)

omit [TransformOut τ] in
theorem onTime_trs {conn conn' : OutConnection τ} (h : conn.onTime = .ok conn')
    : conn'.trs = conn.trs := by
  unfold onTime at h
  split at h
  . injection h with h
    rw [← h, disconnectNow]
    split
    . rfl
    . exact foldl_delete_trs _ _
  . split at h
    . injection h with h
      rw [h]
    . next cont _ =>
      cases hderef : conn.deref cont with
      | error fault =>
        rw [hderef] at h
        cases h
      | ok c =>
        rw [hderef] at h
        injection h with h
        rw [← h]
        rfl

theorem step_trs {conn conn' : OutConnection τ} {l : Label} (hsend : ∀ pack flags, l ≠ .send pack flags)
    (hstep : OutConnection.step (.ok conn) l = some (.ok conn')) : conn'.trs = conn.trs := by
  cases l with
  | send pack flags => exact absurd rfl (hsend pack flags)
  | onTime =>
    injection hstep with hstep
    exact onTime_trs hstep
  | onWrite =>
    rw [OutConnection.step] at hstep
    split at hstep
    . injection hstep with hstep
      exact onWrite_trs hstep
    . cases hstep
  | drain n =>
    injection hstep with hstep
    injection hstep with hstep
    rw [← hstep]
  | disconnect =>
    injection hstep with hstep
    injection hstep with hstep
    rw [← hstep]

/--
The other steps.
-/
theorem Ordered.step {conn : OutConnection τ} {outs : List Bytes} (h : conn.Ordered outs) {l : Label}
    (hsend : ∀ pack flags, l ≠ .send pack flags) (hgood : Undisturbed (.ok conn) l)
    {res : Except Fault (OutConnection τ)} (hstep : OutConnection.step (.ok conn) l = some res)
    : ∃ conn', res = .ok conn' ∧ conn'.trs = conn.trs ∧ conn'.Ordered outs := by
  have hgood' : ∀ rest, Undisturbed (.ok (conn.replay rest)) l := by
    intro rest
    cases l with
    | send pack flags => exact absurd rfl (hsend pack flags)
    | onTime => exact hgood
    | _ => trivial
  have hreplay : ∀ rest, ∃ conn₁ outs' freed', res.map (·.replay rest) = .ok conn₁
      ∧ Invariant [Replay.mk (outs ++ rest)] conn₁ outs' freed' := by
    intro rest
    apply (h rest).step (hgood' rest)
    rw [step_replay conn rest hsend, hstep]
    rfl
  cases res with
  | error fault =>
    obtain ⟨_, _, _, heq, _⟩ := hreplay []
    cases heq
  | ok conn' =>
    refine ⟨conn', rfl, step_trs hsend hstep, fun rest => ?_⟩
    obtain ⟨conn₁, outs', freed', heq, hinv⟩ := hreplay rest
    injection heq with heq
    rw [← heq] at hinv
    obtain ⟨houts, hfreed⟩ := hinv.replay_eq
    rw [houts, hfreed] at hinv
    exact hinv

end Replay

end OutConnection

section Switches

/--
The outputs of the transformers, as they are when the packets are sent.
-/
def outcomes : List Mc18Transformer → List OutEvent → Option (List Mc18Transformer × List Bytes)
  | trs, [] => some (trs, [])
  | trs, .send pack :: es => do
    let (trs, out) ← transform trs pack
    let (trs, outs) ← outcomes trs es
    return (trs, out :: outs)
  | trs, .beginEncryption ssec :: es => outcomes (Protocol.beginEncryption ssec trs) es
  | trs, .beginCompression threshold :: es => outcomes (Protocol.beginCompression threshold trs) es

theorem outcomes_append {trs trs₁ : List Mc18Transformer} {es es' : List OutEvent} {outs : List Bytes}
    (h : outcomes trs es = some (trs₁, outs))
    : outcomes trs (es ++ es') = (outcomes trs₁ es').map (fun res => (res.1, outs ++ res.2)) := by
  induction es generalizing trs outs with
  | nil =>
    injection h with h
    injection h with h₁ h₂
    subst h₁ h₂
    simp
  | cons e es ih =>
    cases e with
    | send pack =>
      simp only [outcomes, Option.bind_eq_bind, Option.bind_eq_some_iff, Option.pure_def,
        Option.some.injEq, Prod.mk.injEq, Prod.exists] at h
      obtain ⟨trs₂, out, hout, trs₃, outs', houts, rfl, rfl⟩ := h
      rw [List.cons_append, outcomes, hout]
      dsimp only [bind, Option.bind]
      rw [ih houts]
      cases outcomes trs₃ es' <;> rfl
    | beginEncryption ssec => exact ih h
    | beginCompression threshold => exact ih h

theorem exists_of_outcomes_append {trs trs' : List Mc18Transformer} {es es' : List OutEvent}
    {outs : List Bytes} (h : outcomes trs (es ++ es') = some (trs', outs))
    : ∃ trs₁ outs₁ outs₂, outcomes trs es = some (trs₁, outs₁)
        ∧ outcomes trs₁ es' = some (trs', outs₂) ∧ outs = outs₁ ++ outs₂ := by
  induction es generalizing trs outs with
  | nil => exact ⟨trs, [], outs, rfl, h, rfl⟩
  | cons e es ih =>
    cases e with
    | send pack =>
      simp only [List.cons_append, outcomes, Option.bind_eq_bind, Option.bind_eq_some_iff,
        Option.pure_def, Option.some.injEq, Prod.mk.injEq, Prod.exists] at h
      obtain ⟨trs₂, out, hout, trs₃, outs₃, hrest, htrs, houts⟩ := h
      rw [htrs] at hrest
      obtain ⟨trs₁, outs₁, outs₂, hfirst, hsecond, heq⟩ := ih hrest
      refine ⟨trs₁, out :: outs₁, outs₂, ?_, hsecond, ?_⟩
      . rw [outcomes, hout]
        dsimp only [bind, Option.bind]
        rw [hfirst]
        rfl
      . rw [← houts, heq, List.cons_append]
    | beginEncryption ssec => exact ih h
    | beginCompression threshold => exact ih h

def OutEvent.isSend : OutEvent → Bool
  | .send _ => true
  | _ => false

theorem length_of_outcomes {trs trs' : List Mc18Transformer} {es : List OutEvent} {outs : List Bytes}
    (h : outcomes trs es = some (trs', outs)) : outs.length = es.countP OutEvent.isSend := by
  induction es generalizing trs trs' outs with
  | nil =>
    injection h with h
    injection h with h₁ h₂
    rw [← h₂]
    rfl
  | cons e es ih =>
    cases e with
    | send pack =>
      simp only [outcomes, Option.bind_eq_bind, Option.bind_eq_some_iff, Option.pure_def,
        Option.some.injEq, Prod.mk.injEq, Prod.exists] at h
      obtain ⟨trs₂, out, hout, trs₃, outs₃, hrest, _, houts⟩ := h
      rw [← houts, List.length_cons, ih hrest, List.countP_cons_of_pos rfl]
    | beginEncryption ssec =>
      rw [List.countP_cons_of_neg (by simp [OutEvent.isSend])]
      exact ih h
    | beginCompression threshold =>
      rw [List.countP_cons_of_neg (by simp [OutEvent.isSend])]
      exact ih h

namespace OutLabel

/--
No transformer fails, and the timer does not find a request to disconnect.
-/
def Undisturbed : Except Fault (OutConnection Mc18Transformer) → OutLabel → Prop
  | res, .op l => OutConnection.Undisturbed res l
  | _, _ => True

instance (res : Except Fault (OutConnection Mc18Transformer)) (l : OutLabel)
    : Decidable (Undisturbed res l) := by
  unfold Undisturbed
  split <;> infer_instance

variable {conn : OutConnection Mc18Transformer} {outs : List Bytes} {l : OutLabel}

/--
One step, with what it adds to the outputs.
-/
theorem step_ordered (h : conn.Ordered outs) (hgood : Undisturbed (.ok conn) l)
    {res : Except Fault (OutConnection Mc18Transformer)} (hstep : step (.ok conn) l = some res)
    : ∃ conn' new, res = .ok conn' ∧ conn'.Ordered (outs ++ new)
        ∧ outcomes conn.trs (event (.ok conn) l).toList = some (conn'.trs, new) := by
  cases l with
  | beginEncryption ssec =>
    injection hstep with hstep
    exact ⟨_, [], hstep.symm, by rw [List.append_nil]; exact h, rfl⟩
  | beginCompression threshold =>
    injection hstep with hstep
    exact ⟨_, [], hstep.symm, by rw [List.append_nil]; exact h, rfl⟩
  | op l =>
    by_cases hsend : ∃ pack flags, l = .send pack flags
    . obtain ⟨pack, flags, rfl⟩ := hsend
      injection hstep with hstep
      cases hclosed : conn.closed with
      | true =>
        rw [OutConnection.send_of_closed hclosed] at hstep
        have hevent : event (.ok conn) (.op (.send pack flags)) = none := if_pos hclosed
        refine ⟨conn, [], hstep.symm, by rw [List.append_nil]; exact h, ?_⟩
        rw [hevent]
        rfl
      | false =>
        obtain ⟨⟨trs, out⟩, hout⟩ := Option.isSome_iff_exists.mp hgood
        obtain ⟨conn', hok, htrs, hordered⟩ := h.send hout hclosed flags
        have hevent : event (.ok conn) (.op (.send pack flags)) = some (.send pack) :=
          if_neg (by rw [← OutConnection.closed, hclosed]; exact Bool.false_ne_true)
        refine ⟨conn', [out], hstep.symm.trans hok, hordered, ?_⟩
        rw [hevent, Option.toList_some, outcomes, hout, htrs]
        rfl
    . have hother : ∀ pack flags, l ≠ .send pack flags :=
        fun pack flags heq => hsend ⟨pack, flags, heq⟩
      have hevent : event (.ok conn) (.op l) = none := by
        cases l with
        | send pack flags => exact absurd rfl (hother pack flags)
        | _ => rfl
      obtain ⟨conn', hres, htrs, hordered⟩ := h.step hother hgood hstep
      refine ⟨conn', [], hres, by rw [List.append_nil]; exact hordered, ?_⟩
      rw [hevent, htrs]
      rfl

theorem exec_ordered {ls : List OutLabel} (h : conn.Ordered outs)
    (hgood : EachStep step Undisturbed (.ok conn) ls)
    {res : Except Fault (OutConnection Mc18Transformer)} (hexec : exec step (.ok conn) ls = some res)
    : ∃ conn' new, res = .ok conn' ∧ conn'.Ordered (outs ++ new)
        ∧ outcomes conn.trs (history step event (.ok conn) ls) = some (conn'.trs, new) := by
  induction ls generalizing conn outs with
  | nil =>
    injection hexec with hexec
    exact ⟨conn, [], hexec.symm, by rw [List.append_nil]; exact h, rfl⟩
  | cons l ls ih =>
    obtain ⟨mid, hstep, hrest⟩ := exec_cons.mp hexec
    obtain ⟨hone, hmore⟩ := hgood mid hstep
    obtain ⟨conn₁, new₁, rfl, hordered, hout⟩ := step_ordered h hone hstep
    obtain ⟨conn', new₂, hres, hordered', hout'⟩ := ih hordered hmore hrest
    refine ⟨conn', new₁ ++ new₂, hres, by rw [← List.append_assoc]; exact hordered', ?_⟩
    rw [history_cons hstep, outcomes_append hout, hout']
    rfl

end OutLabel

/--
What is on the wire is what the transformers made of the first packets, each with the transformers
that were on when it was sent.
-/
theorem OutConnection.Ordered.written {conn : OutConnection Mc18Transformer} {outs : List Bytes}
    (h : conn.Ordered outs)
    : ∃ sent, sent ≤ outs.length ∧ conn.written = (outs.take sent).flatten := by
  obtain ⟨sent, horder⟩ := (h []).inOrder
  exact ⟨sent, horder.sent_le, horder.written⟩

end Switches

section Encryption

variable {z : ZlibMc18Transformer} {a : Aes.Transformer}

/--
The transformer behind a packet, and what it makes of it.
-/
def sealed (a : Aes.Transformer) (data : Bytes) : Aes.Transformer × Bytes :=
  match a.on, a.encryptor with
  | true, some mode =>
    ({ a with encryptor := some { mode with
        register := ((a.cfb mode.key).encrypt mode.register data).1 } },
      ((a.cfb mode.key).encrypt mode.register data).2)
  | _, _ => (a, data)

theorem sealed_of_off (hoff : a.on = false) (data : Bytes) : sealed a data = (a, data) := by
  rw [sealed, hoff]

theorem sealed_of_on {mode : Aes.CfbMode} (hon : a.on = true) (hmode : a.encryptor = some mode)
    (data : Bytes)
    : sealed a data
        =
      ({ a with encryptor := some { mode with
          register := ((a.cfb mode.key).encrypt mode.register data).1 } },
        ((a.cfb mode.key).encrypt mode.register data).2) := by
  obtain ⟨cfb, on, encryptor, decryptor⟩ := a
  dsimp only at hon hmode
  rw [hon, hmode]
  rfl

theorem transform_aes {data out : Bytes} {trs : List Mc18Transformer}
    (h : transform [(.inr a : Mc18Transformer)] data = some (trs, out))
    : trs = [.inr (sealed a data).1] ∧ out = (sealed a data).2 := by
  have hson : isOn (Sum.inr a : Mc18Transformer) = a.on := rfl
  have htransform : TransformOut.transformOut (Sum.inr a : Mc18Transformer) data
      = (a.transformOut data).map (fun res => (.inr res.1, res.2)) := rfl
  rw [transform, hson] at h
  cases hon : a.on with
  | false =>
    rw [hon, if_neg Bool.false_ne_true] at h
    injection h with h
    injection h with h₁ h₂
    rw [sealed_of_off hon]
    exact ⟨h₁.symm, h₂.symm⟩
  | true =>
    rw [hon, if_pos rfl, htransform, Aes.Transformer.transformOut] at h
    cases hmode : a.encryptor with
    | none =>
      rw [hmode] at h
      cases h
    | some mode =>
      rw [hmode] at h
      injection h with h
      injection h with h₁ h₂
      rw [sealed_of_on hon hmode, ← h₁, ← h₂]
      exact ⟨rfl, rfl⟩

/--
The compression works on the packet as if it were alone.
-/
theorem transform_eq_sealed {pack out : Bytes} {trs : List Mc18Transformer}
    (h : transform [.inl z, .inr a] pack = some (trs, out))
    : ∃ z' frame, transform [(.inl z : Mc18Transformer)] pack = some ([.inl z'], frame)
        ∧ trs = [.inl z', .inr (sealed a frame).1] ∧ out = (sealed a frame).2 := by
  have htransform : TransformOut.transformOut (Sum.inl z : Mc18Transformer) pack
      = (TransformOut.transformOut z pack).map (fun res => (.inl res.1, res.2)) := rfl
  rw [transform] at h
  rw [transform]
  cases hon : isOn (Sum.inl z : Mc18Transformer) with
  | false =>
    rw [hon, if_neg Bool.false_ne_true, Option.map_eq_some_iff] at h
    obtain ⟨⟨trs₁, out₁⟩, hrest, heq⟩ := h
    injection heq with h₁ h₂
    obtain ⟨htrs, hout⟩ := transform_aes hrest
    exact ⟨z, pack, rfl, by rw [← h₁, htrs], h₂.symm.trans hout⟩
  | true =>
    rw [hon, if_pos rfl, htransform] at h
    rw [if_pos rfl, htransform]
    cases hres : TransformOut.transformOut z pack with
    | error fault =>
      rw [hres] at h
      cases h
    | ok res =>
      rcases res with ⟨z', _ | frame⟩
      . rw [hres] at h
        cases h
      . rw [hres] at h
        dsimp only [Except.map] at h
        rw [Option.map_eq_some_iff] at h
        obtain ⟨⟨trs₁, out₁⟩, hrest, heq⟩ := h
        injection heq with h₁ h₂
        obtain ⟨htrs, hout⟩ := transform_aes hrest
        exact ⟨z', frame, rfl, by rw [← h₁, htrs], h₂.symm.trans hout⟩

def OutEvent.isBeginEncryption : OutEvent → Bool
  | .beginEncryption _ => true
  | _ => false

/--
Packets sealed one after the other.
-/
def sealAll (a : Aes.Transformer) : List Bytes → Aes.Transformer × List Bytes
  | [] => (a, [])
  | frame :: frames =>
    let res := sealed a frame
    let rest := sealAll res.1 frames
    (rest.1, res.2 :: rest.2)

theorem outcomes_eq_sealAll {es : List OutEvent} (hes : ∀ e ∈ es, e.isBeginEncryption = false)
    {trs : List Mc18Transformer} {outs : List Bytes}
    (h : outcomes [.inl z, .inr a] es = some (trs, outs))
    : ∃ z' frames, outcomes [.inl z] es = some ([.inl z'], frames)
        ∧ trs = [.inl z', .inr (sealAll a frames).1] ∧ outs = (sealAll a frames).2 := by
  induction es generalizing z a trs outs with
  | nil =>
    injection h with h
    injection h with h₁ h₂
    exact ⟨z, [], rfl, h₁.symm, h₂.symm⟩
  | cons e es ih =>
    have hes' : ∀ e ∈ es, e.isBeginEncryption = false := fun e he => hes e (List.mem_cons_of_mem _ he)
    cases e with
    | send pack =>
      simp only [outcomes, Option.bind_eq_bind, Option.bind_eq_some_iff, Option.pure_def,
        Option.some.injEq, Prod.mk.injEq, Prod.exists] at h
      obtain ⟨trs₁, out, hout, trs₂, outs', houts, htrs, hcons⟩ := h
      obtain ⟨z₁, frame, hframe, htrs₁, hseal⟩ := transform_eq_sealed hout
      rw [htrs₁] at houts
      obtain ⟨z', frames, hframes, htrs₂, hseals⟩ := ih hes' houts
      refine ⟨z', frame :: frames, ?_, htrs.symm.trans htrs₂, ?_⟩
      . rw [outcomes, hframe]
        dsimp only [bind, Option.bind]
        rw [hframes]
        rfl
      . rw [← hcons, hseal, hseals]
        rfl
    | beginEncryption ssec => exact absurd (hes _ List.mem_cons_self) (by simp [OutEvent.isBeginEncryption])
    | beginCompression threshold => exact ih hes' h

theorem sealAll_of_off (hoff : a.on = false) (frames : List Bytes) : sealAll a frames = (a, frames) := by
  induction frames with
  | nil => rfl
  | cons frame frames ih =>
    rw [sealAll, sealed_of_off hoff]
    dsimp only
    rw [ih]

theorem sealAll_of_on {mode : Aes.CfbMode} (hon : a.on = true) (hmode : a.encryptor = some mode)
    (frames : List Bytes)
    : (sealAll a frames).2 = ((a.cfb mode.key).encryptAll mode.register frames).2 := by
  induction frames generalizing a mode with
  | nil => rfl
  | cons frame frames ih =>
    have hnext := @ih { a with encryptor := some { mode with
      register := ((a.cfb mode.key).encrypt mode.register frame).1 } } _ hon rfl
    rw [sealAll, sealed_of_on hon hmode, Feedback.encryptAll]
    exact congrArg (List.cons _) hnext

/--
What a client does with the bytes behind the first `p`.
-/
def decryptFrom (cfb : Bytes → Feedback Bytes UInt8) (ssec : Bytes) (p : Nat) (stream : Bytes) : Bytes :=
  stream.take p ++ ((cfb ssec).decrypt ssec (stream.drop p)).2

theorem decryptFrom_sealed {cfb : Bytes → Feedback Bytes UInt8} {ssec : Bytes}
    (hcfb : (cfb ssec).Inverts) (pre frames : List Bytes) (sent : Nat)
    : decryptFrom cfb ssec pre.flatten.length
          ((pre ++ ((cfb ssec).encryptAll ssec frames).2).take sent).flatten
        =
      ((pre ++ frames).take sent).flatten := by
  unfold decryptFrom
  by_cases hsent : sent ≤ pre.length
  . -- nothing that is encrypted has been written yet
    rw [List.take_append_of_le_length hsent, List.take_append_of_le_length hsent]
    have hle : (pre.take sent).flatten.length ≤ pre.flatten.length :=
      (Framing.flatten_take_prefix pre sent).length_le
    rw [List.take_of_length_le hle, List.drop_of_length_le hle]
    exact List.append_nil _
  . have hall : pre.take sent = pre := List.take_of_length_le (by omega)
    rw [List.take_append, List.take_append, hall, List.flatten_append, List.flatten_append,
      List.take_left, List.drop_left, Feedback.take_encryptAll, Feedback.decrypt_flatten_encryptAll _ hcfb]

/--
In a run with one encryption response, a client that decrypts from the first packet behind it gets the
frames that compression alone puts out, one after the other, as far as they are on the wire.
-/
theorem written_decrypts (zlib : Zlib) {cfb : Bytes → Feedback Bytes UInt8}
    (hcfb : ∀ key, (cfb key).Inverts) {ls : List OutLabel}
    (hgood : EachStep OutLabel.step OutLabel.Undisturbed
      (.ok (.start (Protocol.createMc18 zlib cfb))) ls)
    (hexec : (exec OutLabel.step (.ok (.start (Protocol.createMc18 zlib cfb))) ls).isSome)
    {before after : List OutEvent} {ssec : Bytes}
    (hhistory : history OutLabel.step OutLabel.event
      (.ok (.start (Protocol.createMc18 zlib cfb))) ls = before ++ .beginEncryption ssec :: after)
    (honce : ∀ e ∈ before ++ after, e.isBeginEncryption = false)
    : ∃ conn trs frames pre sent,
        exec OutLabel.step (.ok (.start (Protocol.createMc18 zlib cfb))) ls = some (.ok conn)
        ∧ outcomes [.inl { zlib, on := false, threshold := 256 }] (before ++ after) = some (trs, frames)
        ∧ pre <+: frames ∧ pre.length = before.countP OutEvent.isSend
        ∧ sent ≤ frames.length
        ∧ decryptFrom cfb ssec pre.flatten.length conn.written = (frames.take sent).flatten := by
  obtain ⟨res, hexec⟩ := Option.isSome_iff_exists.mp hexec
  obtain ⟨conn, outs, hres, hordered, hout⟩ :=
    OutLabel.exec_ordered (OutConnection.ordered_start _) hgood hexec
  rw [List.nil_append] at hordered
  rw [hres] at hexec
  rw [hhistory] at hout
  obtain ⟨trs₁, pre, outs₂, hpre, hrest, houts⟩ := exists_of_outcomes_append hout
  obtain ⟨z₁, frames₁, hframes₁, htrs₁, hpre₁⟩ := outcomes_eq_sealAll
    (fun e he => honce e (List.mem_append_left _ he)) hpre
  rw [sealAll_of_off rfl] at htrs₁ hpre₁
  rw [htrs₁, outcomes] at hrest
  obtain ⟨z₂, frames₂, hframes₂, _, houts₂⟩ := outcomes_eq_sealAll
    (fun e he => honce e (List.mem_append_right _ he)) hrest
  rw [sealAll_of_on rfl rfl] at houts₂
  obtain ⟨sent, hsent, hwritten⟩ := hordered.written
  refine ⟨conn, [.inl z₂], frames₁ ++ frames₂, frames₁, sent, hexec, ?_, List.prefix_append _ _,
    length_of_outcomes hframes₁, ?_, ?_⟩
  . rw [outcomes_append hframes₁, hframes₂]
    rfl
  . rw [houts, List.length_append, length_of_outcomes hpre, length_of_outcomes hrest] at hsent
    rw [List.length_append, length_of_outcomes hframes₁, length_of_outcomes hframes₂]
    exact hsent
  . rw [hwritten, houts, hpre₁, houts₂]
    exact decryptFrom_sealed (hcfb ssec) frames₁ frames₂ sent

/--
The second packet is encrypted while the first one is on its way.
-/
theorem written_decrypts_two
    : ∃ conn trs frames pre sent,
        exec OutLabel.step (.ok (.start (Protocol.createMc18 .marked Connection.sampleCfb)))
            [.op (.send [1, 7] 0), .op .onTime, .beginEncryption Connection.sampleKey,
              .op (.send [2, 1, 9] 0), .op (.drain 2), .op .onWrite] = some (.ok conn)
        ∧ outcomes [.inl ⟨.marked, false, 256⟩] ([.send [1, 7]] ++ [.send [2, 1, 9]]) = some (trs, frames)
        ∧ pre <+: frames ∧ pre.length = [OutEvent.send [1, 7]].countP OutEvent.isSend
        ∧ sent ≤ frames.length
        ∧ decryptFrom Connection.sampleCfb Connection.sampleKey pre.flatten.length conn.written
            = (frames.take sent).flatten :=
  written_decrypts .marked (fun _ => Feedback.inverts_ofBlocks _) (by decide +kernel) rfl rfl
    (by decide)

end Encryption

end HCraft
