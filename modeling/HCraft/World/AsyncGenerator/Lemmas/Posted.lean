import HCraft.World.AsyncGenerator.Lemmas.Token

/-!
This module contains generators whose requests have all reached the pool: every call of `generate`
goes from its beginning to its end with nothing in between.
-/

namespace HCraft

open Transition

variable {κ β : Type}

namespace AsyncGenerator

section Whole

variable {agen agen' : AsyncGenerator κ β} {r : Nat} {ctx : GenCtx β}

@[simp]
theorem setRequest_setRequest (req req' : Request κ β)
    : (agen.setRequest r req).setRequest r req' = agen.setRequest r req' := by
  simp [setRequest]

theorem step_proceed {res : Except Crash (AsyncGenerator κ β)} {req : Request κ β} (prov : Option κ)
    (gen : κ) (h : (agen.setRequest r req).proceed r req prov gen = some res)
    : step (.ok (agen.setRequest r req)) (.proceed r prov gen) = some res := by
  have hreq : (agen.setRequest r req).requests r = some req := Function.update_self ..
  rw [step, hreq]
  exact h

/--
A token that has been made and not freed.
-/
def TokenValid (agen : AsyncGenerator κ β) (tid : Int) : Prop :=
  ∃ tok id, agen.toks tid = some (some tok) ∧ agen.tokens tok = some ⟨id, true⟩

theorem Invariant.tokenValid (h : agen.Invariant) {tid : Int} (hsome : (agen.toks tid).isSome)
    : agen.TokenValid tid := by
  obtain ⟨v, hv⟩ := Option.isSome_iff_exists.mp hsome
  obtain ⟨tok, htok, hid⟩ := h.mapped tid v hv
  exact ⟨tok, tid, by rw [hv, htok], hid⟩

theorem TokenValid.generateWhole (h : agen.TokenValid ctx.token) (r : Nat)
    : ∃ agen', agen.generateWhole r ctx = .ok (agen.w.getChunk ctx.x ctx.z, agen')
        ∧ agen'.w = agen.w ∧ agen'.toks = agen.toks ∧ agen'.tokens = agen.tokens := by
  obtain ⟨tok, id, htok, hid⟩ := h
  simp only [AsyncGenerator.generateWhole, htok, hid, if_true]
  cases agen.w.getChunk ctx.x ctx.z with
  | some ch => exact ⟨_, rfl, rfl, rfl, rfl⟩
  | none => exact ⟨_, rfl, rfl, rfl, rfl⟩

/--
The whole call is made of the steps of the generator.
-/
theorem exec_generateWhole (hr : agen.requests r = none) (prov : Option κ) (gen : κ)
    {ch : Option κ} (h : agen.generateWhole r ctx = .ok (ch, agen'))
    : ∃ n, exec step (.ok agen) (.generate r ctx :: List.replicate n (.proceed r prov gen))
        = some (.ok agen') := by
  unfold AsyncGenerator.generateWhole at h
  split at h
  . next htoks =>
    cases h
    refine ⟨0, ?_⟩
    simp [exec_cons, step, hr, generate, htoks]
  . cases h
  . next tok htoks =>
    have hgenerate : step (.ok agen) (.generate r ctx)
        = some (.ok (agen.setRequest r ⟨tok, ctx, .found⟩)) := by
      simp [step, hr, generate, htoks]
    split at h
    . cases h
    . next t htok =>
      let toStage (stage : Stage κ) := agen.setRequest r ⟨tok, ctx, stage⟩
      have hfound : step (.ok (toStage .found)) (.proceed r prov gen)
          = some (.ok (if t.enabled then toStage .enabled else toStage .finished)) := by
        apply step_proceed
        simp [proceed, setRequest, htok, toStage]
      split at h
      . next henabled =>
        rw [if_pos henabled] at hfound
        split at h
        . next ch hch =>
          have hreturned : step (.ok (toStage .enabled)) (.proceed r prov gen) = some (.ok
              { toStage .finished with history := agen.history ++ [.returned r ch] }) := by
            apply step_proceed
            simp [proceed, setRequest, hch, toStage]
          cases h
          refine ⟨2, ?_⟩
          simp only [List.replicate_succ, List.replicate_zero, exec_cons]
          exact ⟨_, hgenerate, _, hfound, _, hreturned, rfl⟩
        . next hch =>
          have hmissing : step (.ok (toStage .enabled)) (.proceed r prov gen)
              = some (.ok (toStage .missing)) := by
            apply step_proceed
            simp [proceed, setRequest, hch, toStage]
          have hqueued : step (.ok (toStage .missing)) (.proceed r prov gen)
              = some (.ok (toStage (if agen.accepting then .queued else .finished))) := by
            apply step_proceed
            simp only [proceed, setRequest, Function.update_idem, Option.some.injEq, Except.ok.injEq]
            split
            . rfl
            . rfl
          cases h
          refine ⟨3, ?_⟩
          simp only [List.replicate_succ, List.replicate_zero, exec_cons]
          exact ⟨_, hgenerate, _, hfound, _, hmissing, _, hqueued, rfl⟩
      . next hdisabled =>
        rw [if_neg hdisabled] at hfound
        cases h
        refine ⟨1, ?_⟩
        simp only [List.replicate_succ, List.replicate_zero, exec_cons]
        exact ⟨_, hgenerate, _, hfound, rfl⟩

theorem invariant_exec (h : agen.Invariant) {ls : List (Label κ β)}
    (hkept : ∀ l ∈ ls, ∀ tid, l ≠ .freeToken tid)
    (hexec : exec step (.ok agen) ls = some (.ok agen')) : agen'.Invariant := by
  induction ls generalizing agen with
  | nil =>
    cases hexec
    exact h
  | cons l ls ih =>
    obtain ⟨res, hstep, hrest⟩ := exec_cons.mp hexec
    have hfrees : FreesIdle (.ok agen) l := by
      cases l with
      | freeToken tid => exact absurd rfl (hkept _ (by simp) tid)
      | makeToken | generate | proceed | loadChunk | join => trivial
    obtain ⟨t, hres, hnext⟩ := h.step hfrees hstep
    rw [hres] at hrest
    exact ih hnext (fun l hl => hkept l (by simp [hl])) hrest

theorem Invariant.generateWhole (h : agen.Invariant) (hr : agen.requests r = none)
    {ch : Option κ} (hwhole : agen.generateWhole r ctx = .ok (ch, agen')) : agen'.Invariant := by
  obtain ⟨n, hexec⟩ := exec_generateWhole hr none agen.w.edgeCh hwhole
  apply invariant_exec h _ hexec
  intro l hl tid
  rcases List.mem_cons.mp hl with rfl | hl
  . simp
  . simp [List.eq_of_mem_replicate hl]

end Whole

/--
`generate` is over.
-/
def Stage.InPool : Stage κ → Prop
  | .found | .enabled | .missing => False
  | _ => True

/--
A request for the chunk is not finished.
-/
def Pending (agen : AsyncGenerator κ β) (x z : Int) : Prop :=
  ∃ r req, agen.requests r = some req ∧ req.stage ≠ .finished ∧ req.ctx.x = x ∧ req.ctx.z = z

/--
There have been `calls` calls of `generate`, and all of them are over.
-/
structure Posted (calls : Nat) (agen : AsyncGenerator κ β) : Prop where
  invariant : agen.Invariant
  accepting : agen.accepting = true
  fresh : ∀ r req, agen.requests r = some req → r < calls
  inPool : ∀ r req, agen.requests r = some req → req.stage.InPool

/--
What a request under way can rely on.
-/
structure Extends (agen agen' : AsyncGenerator κ β) : Prop where
  toks : ∀ tid, (agen.toks tid).isSome → (agen'.toks tid).isSome
  getChunk : ∀ x z ch, agen.w.getChunk x z = some ch → agen'.w.getChunk x z = some ch

theorem Extends.refl (agen : AsyncGenerator κ β) : agen.Extends agen :=
  ⟨fun _ h => h, fun _ _ _ h => h⟩

section Posted

variable {agen : AsyncGenerator κ β} {calls : Nat}

theorem Posted.mono (h : Posted calls agen) {calls' : Nat} (hle : calls ≤ calls')
    : Posted calls' agen where
  invariant := h.invariant
  accepting := h.accepting
  fresh := fun r req hreq => Nat.lt_of_lt_of_le (h.fresh r req hreq) hle
  inPool := h.inPool

theorem Posted.loadChunk (h : Posted calls agen) (x z : Int) (prov : Option κ) (gen : κ)
    : Posted calls { agen with w := (agen.w.loadChunk x z prov gen).2 } where
  invariant := h.invariant.loadChunk x z prov gen
  accepting := h.accepting
  fresh := h.fresh
  inPool := h.inPool

theorem Posted.makeToken (h : Posted calls agen) : Posted calls agen.makeToken where
  invariant := h.invariant.makeToken
  accepting := h.accepting
  fresh := h.fresh
  inPool := h.inPool

theorem Posted.freeToken (h : Posted calls agen) (hidle : agen.Idle) (tid : Int)
    : ∃ agen', agen.freeToken tid = .ok agen' ∧ Posted calls agen' ∧ agen'.w = agen.w
        ∧ agen'.requests = agen.requests := by
  have hfrees : FreesIdle (.ok agen) (.freeToken tid) := fun r req hreq _ => hidle r req hreq
  obtain ⟨agen', hfree, hinv⟩ := h.invariant.freeToken hfrees
  have hsame : agen'.w = agen.w ∧ agen'.requests = agen.requests
      ∧ agen'.accepting = agen.accepting := by
    unfold AsyncGenerator.freeToken at hfree
    split at hfree
    . cases hfree
      exact ⟨rfl, rfl, rfl⟩
    . cases hfree
      exact ⟨rfl, rfl, rfl⟩
    . split at hfree
      . cases hfree
      . cases hfree
        exact ⟨rfl, rfl, rfl⟩
  obtain ⟨hw, hrequests, haccepting⟩ := hsame
  refine ⟨agen', hfree, ⟨hinv, haccepting.trans h.accepting, ?_, ?_⟩, hw, hrequests⟩
  . rw [hrequests]
    exact h.fresh
  . rw [hrequests]
    exact h.inPool

section Requests

variable {agen' : AsyncGenerator κ β} {r : Nat} {req : Request κ β}
  (hrequests : agen'.requests = Function.update agen.requests r (some req))

include hrequests

theorem pending_update {x z : Int} (h : agen.Pending x z)
    : agen'.Pending x z
        ∨ ∃ req', agen.requests r = some req' ∧ req'.ctx.x = x ∧ req'.ctx.z = z := by
  obtain ⟨r', req', hreq', hstage, hx, hz⟩ := h
  by_cases hr : r' = r
  . rw [hr] at hreq'
    exact .inr ⟨req', hreq', hx, hz⟩
  . left
    refine ⟨r', req', ?_, hstage, hx, hz⟩
    rw [hrequests, Function.update_of_ne hr, hreq']

theorem pending_here (hstage : req.stage ≠ .finished) : agen'.Pending req.ctx.x req.ctx.z :=
  ⟨r, req, by rw [hrequests, Function.update_self], hstage, rfl, rfl⟩

theorem Posted.update (h : Posted calls agen) (hinv : agen'.Invariant)
    (haccepting : agen'.accepting = agen.accepting) (hr : r < calls) (hpool : req.stage.InPool)
    : Posted calls agen' where
  invariant := hinv
  accepting := haccepting.trans h.accepting
  fresh := by
    intro r' req' hreq'
    by_cases hr' : r' = r
    . rw [hr']
      exact hr
    . rw [hrequests, Function.update_of_ne hr'] at hreq'
      exact h.fresh r' req' hreq'
  inPool := by
    intro r' req' hreq'
    by_cases hr' : r' = r
    . rw [hrequests, hr', Function.update_self] at hreq'
      cases hreq'
      exact hpool
    . rw [hrequests, Function.update_of_ne hr'] at hreq'
      exact h.inPool r' req' hreq'

end Requests

theorem Posted.requests_calls (h : Posted calls agen) : agen.requests calls = none := by
  cases hreq : agen.requests calls with
  | none => rfl
  | some req => exact absurd (h.fresh calls req hreq) (Nat.lt_irrefl calls)

theorem Posted.generateWhole (h : Posted calls agen) {ctx : GenCtx β}
    (htoken : (agen.toks ctx.token).isSome)
    : ∃ agen', agen.generateWhole calls ctx = .ok (agen.w.getChunk ctx.x ctx.z, agen')
        ∧ Posted (calls + 1) agen' ∧ agen'.w = agen.w ∧ agen'.toks = agen.toks
        ∧ (∀ x z, agen.Pending x z → agen'.Pending x z)
        ∧ (agen.w.getChunk ctx.x ctx.z = none → agen'.Pending ctx.x ctx.z) := by
  obtain ⟨tok, id, htok, hid⟩ := h.invariant.tokenValid htoken
  obtain ⟨agen', hwhole, hw, htoks, _⟩ := (h.invariant.tokenValid htoken).generateWhole calls
  have hstage : ∃ stage, agen'.requests = Function.update agen.requests calls (some ⟨tok, ctx, stage⟩)
      ∧ agen'.accepting = agen.accepting ∧ stage.InPool
      ∧ (agen.w.getChunk ctx.x ctx.z = none → stage ≠ .finished) := by
    have hresult := hwhole
    simp only [AsyncGenerator.generateWhole, htok, hid, if_true, h.accepting] at hresult
    cases hch : agen.w.getChunk ctx.x ctx.z with
    | some ch =>
      simp only [hch, Except.ok.injEq, Prod.mk.injEq, true_and] at hresult
      exact ⟨.finished, by rw [← hresult]; rfl, by rw [← hresult]; rfl, trivial, by simp⟩
    | none =>
      simp only [hch, Except.ok.injEq, Prod.mk.injEq, true_and] at hresult
      exact ⟨.queued, by rw [← hresult]; rfl, by rw [← hresult]; rfl, trivial, by simp⟩
  obtain ⟨stage, hrequests, haccepting, hpool, hqueued⟩ := hstage
  have hinv := h.invariant.generateWhole h.requests_calls hwhole
  refine ⟨agen', hwhole, ?_, hw, htoks, ?_, ?_⟩
  . exact (h.mono (Nat.le_succ calls)).update hrequests hinv haccepting (Nat.lt_succ_self calls) hpool
  . intro x z hpending
    rcases pending_update hrequests hpending with hpending | ⟨req, hreq, _⟩
    . exact hpending
    . rw [h.requests_calls] at hreq
      cases hreq
  . exact fun hnone => pending_here hrequests (hqueued hnone)

theorem Posted.proceed (h : Posted calls agen) {r : Nat} {req : Request κ β}
    (hreq : agen.requests r = some req) (hstage : ∀ ch, req.stage ≠ .loaded ch) {prov : Option κ}
    {gen : κ} {res : Except Crash (AsyncGenerator κ β)}
    (hres : agen.proceed r req prov gen = some res)
    : ∃ agen', res = .ok agen' ∧ Posted calls agen' ∧ agen.Extends agen'
        ∧ ∀ x z, agen.Pending x z → agen'.Pending x z := by
  obtain ⟨agen', hok, hinv⟩ := h.invariant.proceed hreq prov gen hres
  have hpool := h.inPool r req hreq
  have hnext : ∃ stage, agen'.requests
        = Function.update agen.requests r (some { req with stage := stage })
      ∧ agen'.accepting = agen.accepting ∧ stage.InPool ∧ stage ≠ .finished
      ∧ agen.Extends agen' := by
    have hsound := h.invariant.sound r req hreq
    unfold AsyncGenerator.proceed at hres
    rw [hok] at hres
    cases hcase : req.stage with
    | found | enabled | missing =>
      rw [hcase] at hpool
      cases hpool
    | queued =>
      obtain ⟨_, hsome⟩ := hsound.alive (by simp [hcase])
      obtain ⟨tok, htok⟩ := Option.isSome_iff_exists.mp hsome
      simp only [hcase, htok, Option.some.injEq, Except.ok.injEq] at hres
      rw [← hres]
      exact ⟨.indexed tok, rfl, rfl, trivial, by simp, fun _ h => h, fun _ _ _ h => h⟩
    | indexed tok =>
      obtain ⟨p, hp, hid⟩ := hsound.indexed tok hcase
      simp only [hcase, hp, hid, if_true, Option.some.injEq, Except.ok.injEq] at hres
      rw [← hres]
      exact ⟨.loading, rfl, rfl, trivial, by simp, fun _ h => h, fun _ _ _ h => h⟩
    | loading =>
      simp only [hcase, Option.some.injEq, Except.ok.injEq] at hres
      rw [← hres]
      exact ⟨.loaded _, rfl, rfl, trivial, by simp, fun _ h => h,
        fun _ _ _ h => World.getChunk_loadChunk_of_some h _ _ _ _⟩
    | loaded ch => exact absurd hcase (hstage ch)
    | finished => simp [hcase] at hres
  obtain ⟨stage, hrequests, haccepting, hpool', hunfinished, hextends⟩ := hnext
  refine ⟨agen', hok, ?_, hextends, ?_⟩
  . exact h.update hrequests hinv haccepting (h.fresh r req hreq) hpool'
  . intro x z hpending
    rcases pending_update hrequests hpending with hpending | ⟨req', hreq', hx, hz⟩
    . exact hpending
    . rw [hreq] at hreq'
      cases hreq'
      have hhere := pending_here hrequests hunfinished
      rw [← hx, ← hz]
      exact hhere

theorem Posted.proceed_loaded (h : Posted calls agen) {r : Nat} {req : Request κ β} {ch : κ}
    (hreq : agen.requests r = some req) (hstage : req.stage = .loaded ch) {prov : Option κ}
    {gen : κ} {res : Except Crash (AsyncGenerator κ β)}
    (hres : agen.proceed r req prov gen = some res)
    : agen.w.getChunk req.ctx.x req.ctx.z = some ch
        ∧ ∃ agen', res = .ok agen' ∧ Posted calls agen' ∧ agen.Extends agen'
            ∧ ∀ x z, agen.Pending x z → agen'.Pending x z ∨ (x = req.ctx.x ∧ z = req.ctx.z) := by
  obtain ⟨agen', hok, hinv⟩ := h.invariant.proceed hreq prov gen hres
  simp only [AsyncGenerator.proceed, hstage, Option.some.injEq] at hres
  rw [hok, Except.ok.injEq] at hres
  have hrequests : agen'.requests
      = Function.update agen.requests r (some { req with stage := .finished }) := by
    rw [← hres]
    rfl
  refine ⟨(h.invariant.sound r req hreq).loaded ch hstage, agen', hok, ?_, ?_, ?_⟩
  . exact h.update hrequests hinv (by rw [← hres]; rfl) (h.fresh r req hreq) trivial
  . rw [← hres]
    exact ⟨fun _ htok => htok, fun _ _ _ hch => hch⟩
  . intro x z hpending
    rcases pending_update hrequests hpending with hpending | ⟨req', hreq', hx, hz⟩
    . exact .inl hpending
    . rw [hreq] at hreq'
      cases hreq'
      exact .inr ⟨hx.symm, hz.symm⟩

end Posted

end AsyncGenerator

end HCraft
