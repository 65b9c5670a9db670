import HCraft.Network.Connection.Lemmas.Encrypted
import HCraft.Network.Connection.Send

/-!
This module contains the order in which the packets of a connection reach the wire.
-/

namespace HCraft

open Transition PacketTransformer

variable {τ : Type} [TransformOut τ]

/--
A packet sent through the transformers that are on, one after the other, and what it leaves them in;
`none` if one of them fails.
-/
def transform : List τ → Bytes → Option (List τ × Bytes)
  | [], data => some ([], data)
  | tr :: trs, data =>
    if isOn tr then
      match TransformOut.transformOut tr data with
      | .ok (tr, some out) => (transform trs out).map (fun res => (tr :: res.1, res.2))
      | _ => none
    else
      (transform trs data).map (fun res => (tr :: res.1, res.2))

/--
Packets sent through the transformers in turn.
-/
def transformAll : List τ → List Bytes → Option (List τ × List Bytes)
  | trs, [] => some (trs, [])
  | trs, pack :: packs => do
    let (trs, out) ← transform trs pack
    let (trs, outs) ← transformAll trs packs
    return (trs, out :: outs)

namespace OutConnection

/--
The first `sent` packets are on the wire. The container of a packet has the number of the packet for
an address.
-/
structure InOrder (trs₀ : List τ) (conn : OutConnection τ) (outs : List Bytes) (sent : Nat)
    : Prop where
  transformed : transformAll trs₀ (conn.accepted.map Prod.fst) = some (conn.trs, outs)
  written : conn.written = (outs.take sent).flatten
  sent_le : sent ≤ outs.length
  queued : ∀ cont ∈ conn.outq,
    ∃ c, conn.containers cont = some c ∧ outs[cont]? = some c.pack
  initPack : ∀ cont, conn.initPack = some cont → conn.outq.head? = some cont ∧ cont = sent
  freed : ∀ cont ∈ conn.freed, cont < sent
  last : ∀ packs pack flags rest, conn.accepted = packs ++ (pack, flags) :: rest
    → flags &&& CONN_SEND_DISCONNECT ≠ 0 → rest = []

def Delivers (trs₀ : List τ) : Except Fault (OutConnection τ) → Prop
  | .error _ => False
  | .ok conn => ∃ outs sent, InOrder trs₀ conn outs sent

/--
No transformer fails, and the timer does not find a request to disconnect.
-/
def Undisturbed : Except Fault (OutConnection τ) → Label → Prop
  | .ok conn, .send pack _ => (transform conn.trs pack).isSome
  | .ok conn, .onTime => conn.disconnectReq = false
  | _, _ => True

instance : (res : Except Fault (OutConnection τ)) → (l : Label) → Decidable (Undisturbed res l)
  | .error _, _ => .isTrue trivial
  | .ok conn, .send pack _ => inferInstanceAs (Decidable ((transform conn.trs pack).isSome = true))
  | .ok conn, .onTime => inferInstanceAs (Decidable (conn.disconnectReq = false))
  | .ok _, .onWrite | .ok _, .drain _ | .ok _, .disconnect => .isTrue trivial

section Transformers

theorem applyOutTransformations.go_eq {pack : Bytes} {rest : List τ} {last : Bytes} {rest' : List τ}
    {out : Bytes} (h : transform rest last = some (rest', out)) (done : List τ) {ti : Nat}
    (hti : ti + ((done ++ rest).drop ti).findIdx isOn = done.length + rest.findIdx isOn)
    : go pack (rest.countP isOn) ti (done ++ rest) last = .ok (done ++ rest', out) := by
  induction rest generalizing last rest' done ti with
  | nil =>
    injection h with h
    injection h with h₁ h₂
    subst h₁ h₂
    rfl
  | cons tr rest ih =>
    rw [transform] at h
    cases hon : isOn tr with
    | true =>
      rw [if_pos hon] at h
      split at h
      . next tr' out₁ htr =>
        rw [Option.map_eq_some_iff] at h
        rcases h with ⟨⟨rest₁, out₂⟩, hrest, heq⟩
        injection heq with h₁ h₂
        subst h₁ h₂
        rw [List.findIdx_cons, hon, cond_true, Nat.add_zero] at hti
        rw [List.countP_cons_of_pos hon, go]
        dsimp only
        rw [hti, List.getElem?_append_right (le_refl _), Nat.sub_self, List.getElem?_cons_zero]
        dsimp only
        rw [htr]
        dsimp only
        have hset : (done ++ tr :: rest).set done.length tr' = (done ++ [tr']) ++ rest := by
          simp
        rw [hset, ih hrest (done ++ [tr']) (by simp), List.append_assoc, List.singleton_append]
      . injection h
    | false =>
      rw [if_neg (by simp [hon]), Option.map_eq_some_iff] at h
      rcases h with ⟨⟨rest₁, out₂⟩, hrest, heq⟩
      injection heq with h₁ h₂
      subst h₁ h₂
      rw [List.findIdx_cons, hon, cond_false] at hti
      rw [List.countP_cons_of_neg (by simp [hon])]
      have := @ih last rest₁ hrest (done ++ [tr]) ti (by simp at hti ⊢; omega)
      simpa using this

theorem applyOutTransformations_eq {trs trs' : List τ} {pack out : Bytes}
    (h : transform trs pack = some (trs', out))
    : applyOutTransformations trs pack = .ok (trs', out) := by
  apply applyOutTransformations.go_eq h []
  simp

theorem transformAll_append {trs trs' : List τ} {packs packs' : List Bytes} {outs : List Bytes}
    (h : transformAll trs packs = some (trs', outs))
    : transformAll trs (packs ++ packs')
        =
      (transformAll trs' packs').map (fun res => (res.1, outs ++ res.2)) := by
  induction packs generalizing trs outs with
  | nil =>
    injection h with h
    injection h with h₁ h₂
    subst h₁ h₂
    simp
  | cons pack packs ih =>
    simp only [transformAll, Option.bind_eq_bind, Option.bind_eq_some_iff, Option.pure_def,
      Option.some.injEq, Prod.mk.injEq, Prod.exists] at h
    rcases h with ⟨trs₁, out, hout, trs₂, outs', houts, rfl, rfl⟩
    rw [List.cons_append, transformAll, hout]
    dsimp only [bind, Option.bind]
    rw [ih houts]
    cases transformAll trs₂ packs' <;> rfl

end Transformers

/--
`freed` packets are gone again. The next one is either the initial packet, or on its way.
-/
structure Invariant (trs₀ : List τ) (conn : OutConnection τ) (outs : List Bytes) (freed : Nat)
    : Prop where
  transformed : transformAll trs₀ (conn.accepted.map Prod.fst) = some (conn.trs, outs)
  allocated : conn.allocated = outs.length
  accepted : conn.accepted.length = outs.length
  le : freed ≤ outs.length
  outq : conn.outq = List.range' freed (outs.length - freed)
  freed_eq : conn.freed = List.range freed
  containers : ∀ cont, freed ≤ cont → cont < outs.length → ∃ c, conn.containers cont = some c
    ∧ outs[cont]? = some c.pack ∧ (conn.accepted.map Prod.snd)[cont]? = some c.flags
  phase : conn.initPack = some freed ∧ freed < outs.length
        ∧ conn.written = (outs.take freed).flatten
      ∨ conn.initPack = none ∧ conn.written = (outs.take (freed + 1)).flatten
  last : ∀ packs pack flags rest, conn.accepted = packs ++ (pack, flags) :: rest
    → flags &&& CONN_SEND_DISCONNECT ≠ 0 → rest = []
  canSend : ∀ pack flags, (pack, flags) ∈ conn.accepted
    → flags &&& CONN_SEND_DISCONNECT ≠ 0 → conn.canSend = false

theorem invariant_start (trs : List τ) : Invariant trs (start trs) [] 0 where
  transformed := rfl
  allocated := rfl
  accepted := rfl
  le := le_refl 0
  outq := rfl
  freed_eq := rfl
  containers := fun _ _ hlt => absurd hlt (Nat.not_lt_zero _)
  phase := .inr ⟨rfl, rfl⟩
  last := by
    intro packs pack flags rest h
    have hlen := congrArg List.length h
    simp [start] at hlen
  canSend := fun pack flags h => absurd h List.not_mem_nil

section Invariant

variable {trs₀ : List τ} {conn : OutConnection τ} {outs : List Bytes} {freed : Nat}

theorem Invariant.inOrder (h : Invariant trs₀ conn outs freed)
    : ∃ sent, InOrder trs₀ conn outs sent := by
  have hqueued : ∀ cont ∈ conn.outq, ∃ c, conn.containers cont = some c
      ∧ outs[cont]? = some c.pack := by
    intro cont hcont
    rw [h.outq, List.mem_range'_1] at hcont
    obtain ⟨c, hc, hpack, _⟩ := h.containers cont hcont.1 (by omega)
    exact ⟨c, hc, hpack⟩
  cases h.phase with
  | inl hphase =>
    obtain ⟨hinit, hlt, hwritten⟩ := hphase
    exact ⟨freed, {
      transformed := h.transformed
      written := hwritten
      sent_le := h.le
      queued := hqueued
      initPack := by
        intro cont hcont
        rw [hinit] at hcont
        injection hcont with hcont
        rw [← hcont, h.outq, List.head?_range', if_neg (by omega)]
        exact ⟨rfl, rfl⟩
      freed := fun cont hcont => by
        rw [h.freed_eq] at hcont
        exact List.mem_range.mp hcont
      last := h.last
    }⟩
  | inr hphase =>
    obtain ⟨hinit, hwritten⟩ := hphase
    have hle := h.le
    have hmin : outs.take (min (freed + 1) outs.length) = outs.take (freed + 1) := by
      by_cases hlt : freed < outs.length
      . rw [Nat.min_eq_left hlt]
      . rw [Nat.min_eq_right (by omega), List.take_length, List.take_of_length_le (by omega)]
    exact ⟨min (freed + 1) outs.length, {
      transformed := h.transformed
      written := by rw [hmin, hwritten]
      sent_le := Nat.min_le_right _ _
      queued := hqueued
      initPack := fun cont hcont => by rw [hinit] at hcont; injection hcont
      freed := fun cont hcont => by
        rw [h.freed_eq, List.mem_range] at hcont
        omega
      last := h.last
    }⟩

theorem Invariant.send (h : Invariant trs₀ conn outs freed) {pack : Bytes} (flags : UInt32)
    (hok : (transform conn.trs pack).isSome)
    : ∃ conn' outs', conn.send pack flags = .ok conn' ∧ Invariant trs₀ conn' outs' freed := by
  obtain ⟨⟨trs', out⟩, hout⟩ := Option.isSome_iff_exists.mp hok
  have hle := h.le
  unfold OutConnection.send
  split
  . exact ⟨conn, outs, rfl, h⟩
  . next hopen =>
    rw [applyOutTransformations_eq hout]
    dsimp only [bind, Except.bind]
    refine ⟨_, outs ++ [out], rfl, ?_⟩
    have hcan : conn.canSend = true := by
      cases hc : conn.canSend with
      | true => rfl
      | false => simp [hc] at hopen
    have hrange : conn.outq ++ [conn.allocated]
        = List.range' freed ((outs ++ [out]).length - freed) := by
      rw [h.outq, h.allocated, List.length_append, List.length_singleton,
        Nat.succ_sub hle, List.range'_1_concat, Nat.add_sub_cancel' hle]
    have htake : (outs ++ [out]).take freed = outs.take freed := List.take_append_of_le_length hle
    exact {
      transformed := by
        dsimp only
        rw [List.map_append, transformAll_append h.transformed]
        simp [transformAll, hout]
      allocated := by
        dsimp only
        rw [h.allocated, List.length_append, List.length_singleton]
      accepted := by
        dsimp only
        rw [List.length_append, h.accepted, List.length_append]
        rfl
      le := by
        rw [List.length_append]
        omega
      outq := hrange
      freed_eq := h.freed_eq
      containers := by
        intro cont hlo hhi
        dsimp only
        rw [List.length_append, List.length_singleton] at hhi
        by_cases heq : cont = outs.length
        . rw [h.allocated, ← heq, Function.update_self]
          refine ⟨_, rfl, ?_, ?_⟩
          . rw [heq, List.getElem?_concat_length]
          . rw [List.map_append, heq, ← h.accepted, ← @List.length_map _ _ conn.accepted Prod.snd]
            simp
        . obtain ⟨c, hc, hpack, hflags⟩ := h.containers cont hlo (by omega)
          rw [h.allocated, Function.update_of_ne heq]
          refine ⟨c, hc, ?_, ?_⟩
          . rw [List.getElem?_append_left (by omega), hpack]
          . rw [List.map_append, List.getElem?_append_left _, hflags]
            rw [List.length_map, h.accepted]
            omega
      phase := by
        dsimp only
        rw [hrange, List.length_range', List.length_append, List.length_singleton]
        by_cases hall : freed = outs.length
        . left
          rw [if_pos (by omega), htake, h.allocated, hall]
          refine ⟨rfl, by omega, ?_⟩
          cases h.phase with
          | inl hphase => omega
          | inr hphase => rw [hphase.2, List.take_length, List.take_of_length_le (by omega)]
        . rw [if_neg (by omega), htake, List.take_append_of_le_length (by omega)]
          cases h.phase with
          | inl hphase => exact .inl ⟨hphase.1, by omega, hphase.2.2⟩
          | inr hphase => exact .inr hphase
      last := by
        intro packs pack' flags' rest heq hflag
        dsimp only at heq
        cases List.eq_nil_or_concat rest with
        | inl hnil => exact hnil
        | inr hconcat =>
          rcases hconcat with ⟨rest', x, hrest⟩
          rw [hrest, List.concat_eq_append, ← List.cons_append, ← List.append_assoc] at heq
          obtain ⟨heq, _⟩ := List.append_inj' heq rfl
          have hmem : (pack', flags') ∈ conn.accepted := by
            rw [heq]
            simp
          have := h.canSend pack' flags' hmem hflag
          rw [hcan] at this
          injection this
      canSend := by
        intro pack' flags' hmem hflag
        dsimp only at hmem ⊢
        rw [List.mem_append, List.mem_singleton] at hmem
        cases hmem with
        | inl hmem =>
          have := h.canSend pack' flags' hmem hflag
          rw [hcan] at this
          injection this
        | inr hmem =>
          injection hmem with _ hflags
          rw [← hflags, if_pos hflag]
    }

/--
The front of the queue goes once it is on the wire, and the next packet follows it.
-/
theorem Invariant.onWrite (h : Invariant trs₀ conn outs freed)
    : ∃ conn' freed', conn.onWrite = .ok conn' ∧ Invariant trs₀ conn' outs freed' := by
  unfold OutConnection.onWrite
  have hq := h.outq
  cases hout : conn.outq with
  | nil => exact ⟨conn, freed, rfl, h⟩
  | cons cont outq =>
    rw [hout] at hq
    obtain ⟨hcont, hlt, hrest⟩ := List.range'_eq_cons_iff.mp hq.symm
    subst hcont
    dsimp only
    split
    . exact ⟨conn, freed, rfl, h⟩
    . next hsent =>
      obtain ⟨hinit, hwritten⟩ : conn.initPack = none
          ∧ conn.written = (outs.take (freed + 1)).flatten := by
        cases h.phase with
        | inl hphase => exact absurd hphase.1.symm hsent
        | inr hphase => exact hphase
      obtain ⟨c, hc, hpack, hflags⟩ := h.containers freed (le_refl _) (by omega)
      have hderef : conn.deref freed = .ok c := by rw [deref, hc]
      have hcontainers : ∀ cont, freed + 1 ≤ cont → cont < outs.length → ∃ c,
          (conn.delete freed).containers cont = some c ∧ outs[cont]? = some c.pack
            ∧ (conn.accepted.map Prod.snd)[cont]? = some c.flags := by
        intro cont hlo hhi
        obtain ⟨c', hc', hrest'⟩ := h.containers cont (by omega) hhi
        refine ⟨c', ?_, hrest'⟩
        exact (Function.update_of_ne (by omega) _ _).trans hc'
      have hfreed : (conn.delete freed).freed = List.range (freed + 1) := by
        rw [delete, h.freed_eq, List.range_succ]
      have hsub : outs.length - freed - 1 = outs.length - (freed + 1) := by omega
      rw [hsub] at hrest
      rw [hderef]
      dsimp only [bind, Except.bind]
      -- what follows when nothing more is written
      have hkeep (hall : outs.length = freed + 1) (req : Bool) : Invariant trs₀
          { conn.delete freed with outq := outq, disconnectReq := req } outs (freed + 1) := {
        transformed := h.transformed
        allocated := h.allocated
        accepted := h.accepted
        le := by omega
        outq := hrest
        freed_eq := hfreed
        containers := hcontainers
        phase := by
          refine .inr ⟨hinit, ?_⟩
          rw [List.take_of_length_le (by omega), ← List.take_of_length_le (le_of_eq hall)]
          exact hwritten
        last := h.last
        canSend := h.canSend
      }
      split
      . next hflag =>
        have hall : outs.length = freed + 1 := by
          rw [List.getElem?_map, Option.map_eq_some_iff] at hflags
          rcases hflags with ⟨⟨pack, flags⟩, hx, hflags⟩
          obtain ⟨hlen, hx⟩ := List.getElem?_eq_some_iff.mp hx
          have hsplit : conn.accepted
              = conn.accepted.take freed ++ (pack, flags) :: conn.accepted.drop (freed + 1) := by
            rw [← hx, ← List.drop_eq_getElem_cons hlen, List.take_append_drop]
          have hflags : flags = c.flags := hflags
          have hnil := h.last _ _ _ _ hsplit (by rw [hflags]; exact hflag)
          rw [List.drop_eq_nil_iff, h.accepted] at hnil
          omega
        exact ⟨_, freed + 1, rfl, hkeep hall true⟩
      . cases outq with
        | nil =>
          have hall : outs.length = freed + 1 := by
            have := List.range'_eq_nil_iff.mp hrest.symm
            omega
          exact ⟨_, freed + 1, rfl, hkeep hall conn.disconnectReq⟩
        | cons next outq' =>
          obtain ⟨hnext, hmore, _⟩ := List.range'_eq_cons_iff.mp hrest.symm
          subst hnext
          obtain ⟨c', hc', hpack', _⟩ := hcontainers (freed + 1) (le_refl _) (by omega)
          have hderef' : OutConnection.deref
              { conn.delete freed with outq := (freed + 1) :: outq' } (freed + 1) = .ok c' := by
            rw [deref, hc']
          dsimp only
          rw [hderef']
          refine ⟨_, freed + 1, rfl, ?_⟩
          exact {
            transformed := h.transformed
            allocated := h.allocated
            accepted := h.accepted
            le := by omega
            outq := hrest
            freed_eq := hfreed
            containers := hcontainers
            phase := by
              refine .inr ⟨hinit, ?_⟩
              rw [List.take_add_one, hpack', Option.toList_some, List.flatten_append,
                List.flatten_singleton, ← hwritten]
              rfl
            last := h.last
            canSend := h.canSend
          }

theorem Invariant.onTime (h : Invariant trs₀ conn outs freed) (hreq : conn.disconnectReq = false)
    : ∃ conn', conn.onTime = .ok conn' ∧ Invariant trs₀ conn' outs freed := by
  have htake {c : PacketContainer} (hc : outs[freed]? = some c.pack)
      : (outs.take (freed + 1)).flatten = (outs.take freed).flatten ++ c.pack := by
    rw [List.take_add_one, hc, Option.toList_some, List.flatten_append, List.flatten_singleton]
  unfold OutConnection.onTime
  rw [if_neg (by simp [hreq])]
  cases h.phase with
  | inl hphase =>
    obtain ⟨hinit, hlt, hwritten⟩ := hphase
    obtain ⟨c, hc, hpack, _⟩ := h.containers freed (le_refl _) hlt
    have hderef : conn.deref freed = .ok c := by rw [deref, hc]
    rw [hinit]
    dsimp only
    rw [hderef]
    refine ⟨_, rfl, ?_⟩
    exact {
      transformed := h.transformed
      allocated := h.allocated
      accepted := h.accepted
      le := h.le
      outq := h.outq
      freed_eq := h.freed_eq
      containers := h.containers
      phase := by
        refine .inr ⟨rfl, ?_⟩
        rw [htake hpack, ← hwritten]
        rfl
      last := h.last
      canSend := h.canSend
    }
  | inr hphase =>
    rw [hphase.1]
    exact ⟨conn, rfl, h⟩

theorem Invariant.step (h : Invariant trs₀ conn outs freed) {l : Label}
    (hgood : Undisturbed (.ok conn) l) {res : Except Fault (OutConnection τ)}
    (hstep : step (.ok conn) l = some res)
    : ∃ conn' outs' freed', res = .ok conn' ∧ Invariant trs₀ conn' outs' freed' := by
  cases l with
  | send pack flags =>
    injection hstep with hstep
    obtain ⟨conn', outs', hsend, hinv⟩ := h.send flags hgood
    exact ⟨conn', outs', freed, hstep.symm.trans hsend, hinv⟩
  | onTime =>
    injection hstep with hstep
    obtain ⟨conn', htime, hinv⟩ := h.onTime hgood
    exact ⟨conn', outs, freed, hstep.symm.trans htime, hinv⟩
  | onWrite =>
    rw [OutConnection.step] at hstep
    split at hstep
    . injection hstep with hstep
      obtain ⟨conn', freed', hwrite, hinv⟩ := h.onWrite
      exact ⟨conn', outs, freed', hstep.symm.trans hwrite, hinv⟩
    . injection hstep
  | drain n =>
    injection hstep with hstep
    exact ⟨_, outs, freed, hstep.symm, { h with }⟩
  | disconnect =>
    injection hstep with hstep
    exact ⟨_, outs, freed, hstep.symm, { h with }⟩

end Invariant

theorem always_delivers (trs : List τ) {ls : List Label}
    (h : EachStep step Undisturbed (.ok (start trs)) ls)
    : Always step (Delivers trs) (.ok (start trs)) ls := by
  have hinv : Always step (fun res => ∃ conn outs freed, res = .ok conn
      ∧ Invariant trs conn outs freed) (.ok (start trs)) ls := by
    apply always_of_eachStep (R := Undisturbed) _ ⟨_, _, _, rfl, invariant_start trs⟩ h
    rintro _ l res ⟨conn, outs, freed, rfl, hI⟩ hgood hstep
    exact hI.step hgood hstep
  apply hinv.mono
  rintro _ ⟨conn, outs, freed, rfl, hI⟩
  obtain ⟨sent, horder⟩ := hI.inOrder
  exact ⟨outs, sent, horder⟩

/--
The second packet is encrypted and sent while the first one is on its way.
-/
theorem always_delivers_encrypted
    : let aes := (Aes.Transformer.new Connection.sampleCfb).setup Connection.sampleKey
      Always step (Delivers [aes.start]) (.ok (start [aes.start]))
        [.send [2, 1, 9] 0, .onTime, .send [2, 0, 7] CONN_SEND_DISCONNECT, .drain 3, .onWrite, .drain 3,
          .onWrite] := by
  intro aes
  apply always_delivers
  decide +kernel

end OutConnection

end HCraft
