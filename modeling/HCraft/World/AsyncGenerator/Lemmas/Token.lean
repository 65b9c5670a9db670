import HCraft.World.AsyncGenerator.Impl

/-!
This module contains what the token of a generation request promises, and that it holds as long as
nobody frees a token with requests under way.
-/

namespace HCraft

open Transition

variable {κ β : Type}

namespace AsyncGenerator

def Event.isOutcomeOf (r : Nat) : Event κ β → Bool
  | .deleted _ => false
  | .returned r' _ => r' = r
  | .called r' _ _ _ => r' = r

theorem Event.isOutcomeOf_eq_false {r r' : Nat} {e : Event κ β} (h : e.isOutcomeOf r = true)
    (hne : r' ≠ r) : e.isOutcomeOf r' = false := by
  cases e with
  | deleted tok => rfl
  | returned s ch =>
    simp only [isOutcomeOf, decide_eq_true_eq, decide_eq_false_iff_not] at h ⊢
    omega
  | called s tok cb ch =>
    simp only [isOutcomeOf, decide_eq_true_eq, decide_eq_false_iff_not] at h ⊢
    omega

def outcomes (agen : AsyncGenerator κ β) (r : Nat) : List (Event κ β) :=
  agen.history.filter (Event.isOutcomeOf r)

/--
The request got its chunk at once, or its callback was called with it, and nothing else.
-/
def OneOutcome (agen : AsyncGenerator κ β) (r : Nat) (req : Request κ β) : Prop :=
  ∃ ch, agen.w.getChunk req.ctx.x req.ctx.z = some ch
    ∧ (agen.outcomes r = [.returned r ch] ∨ agen.outcomes r = [.called r req.tok req.ctx.cb ch])

/--
No callback is called once its token has been deleted.
-/
def NoLateCall (agen : AsyncGenerator κ β) : Prop :=
  agen.history.Pairwise (fun e e' => ∀ r tok cb ch, e' = .called r tok cb ch → e ≠ .deleted tok)

/--
No call of `generate` is under way, no task waits and none runs.
-/
def Idle (agen : AsyncGenerator κ β) : Prop :=
  ∀ r req, agen.requests r = some req → req.stage = .finished

/--
What the tokens are for.
-/
def TokenSafe : Except Crash (AsyncGenerator κ β) → Prop
  | .error (.genFunc _) => False
  | .error _ => True
  | .ok agen =>
    agen.NoLateCall
      ∧ (agen.accepting = true → agen.Idle → ∀ r req, agen.requests r = some req
          → .deleted req.tok ∉ agen.history → agen.OneOutcome r req)

/--
If the step frees a token, then all of its requests are finished.
-/
def FreesIdle : Except Crash (AsyncGenerator κ β) → Label κ β → Prop
  | .ok agen, .freeToken tid =>
    ∀ r req, agen.requests r = some req → req.ctx.token = tid → req.stage = .finished
  | _, _ => True

/--
Where a request stands. The token it will look up is there and enabled.
-/
structure Sound (agen : AsyncGenerator κ β) (r : Nat) (req : Request κ β) : Prop where
  alive : req.stage ≠ .finished
    → agen.tokens req.tok = some ⟨req.ctx.token, true⟩ ∧ (agen.toks req.ctx.token).isSome
  indexed : ∀ tok, req.stage = .indexed tok
    → ∃ p, tok = some p ∧ agen.tokens p = some ⟨req.ctx.token, true⟩
  loaded : ∀ ch, req.stage = .loaded ch → agen.w.getChunk req.ctx.x req.ctx.z = some ch
  unfinished : req.stage ≠ .finished → agen.outcomes r = []
  finished : req.stage = .finished → agen.accepting = true → agen.OneOutcome r req

structure Invariant (agen : AsyncGenerator κ β) : Prop where
  fresh : ∀ p, agen.allocated ≤ p → agen.tokens p = none
  mapped : ∀ tid v, agen.toks tid = some v
    → ∃ p, v = some p ∧ agen.tokens p = some ⟨tid, true⟩
  deleted : ∀ p, .deleted p ∈ agen.history → p < agen.allocated ∧ agen.tokens p = none
  noLateCall : agen.NoLateCall
  unused : ∀ r, agen.requests r = none → agen.outcomes r = []
  sound : ∀ r req, agen.requests r = some req → agen.Sound r req

theorem invariant_init (w : World κ) : (init w : AsyncGenerator κ β).Invariant where
  fresh := fun _ _ => rfl
  mapped := fun tid v h => by cases h
  deleted := fun p h => by cases h
  noLateCall := List.Pairwise.nil
  unused := fun _ _ => rfl
  sound := fun r req h => by cases h

section Invariant

variable {agen : AsyncGenerator κ β}

theorem Invariant.lt_allocated (h : agen.Invariant) {p : Nat} {tok : Token}
    (hp : agen.tokens p = some tok) : p < agen.allocated := by
  by_contra hge
  rw [h.fresh p (by omega)] at hp
  injection hp

theorem Invariant.tokenSafe (h : agen.Invariant) : TokenSafe (.ok agen) := by
  refine ⟨h.noLateCall, ?_⟩
  intro haccepting hidle r req hreq _
  exact (h.sound r req hreq).finished (hidle r req hreq) haccepting

/--
A request that does not take the step itself stands where it stood, if the step leaves it what it
needs.
-/
theorem Sound.frame {agen' : AsyncGenerator κ β} {r : Nat} {req : Request κ β}
    (h : agen.Sound r req)
    (htokens : req.stage ≠ .finished → ∀ p, agen.tokens p = some ⟨req.ctx.token, true⟩
      → agen'.tokens p = some ⟨req.ctx.token, true⟩)
    (htoks : req.stage ≠ .finished → (agen.toks req.ctx.token).isSome
      → (agen'.toks req.ctx.token).isSome)
    (hw : ∀ x z ch, agen.w.getChunk x z = some ch → agen'.w.getChunk x z = some ch)
    (haccepting : agen'.accepting = true → agen.accepting = true)
    (houtcomes : agen'.outcomes r = agen.outcomes r)
    : agen'.Sound r req where
  alive := by
    intro hstage
    obtain ⟨htok, hmap⟩ := h.alive hstage
    exact ⟨htokens hstage _ htok, htoks hstage hmap⟩
  indexed := by
    intro tok hstage
    obtain ⟨p, hp, htok⟩ := h.indexed tok hstage
    exact ⟨p, hp, htokens (by simp [hstage]) p htok⟩
  loaded := fun ch hstage => hw _ _ _ (h.loaded ch hstage)
  unfinished := fun hstage => houtcomes.trans (h.unfinished hstage)
  finished := by
    intro hstage hacc
    obtain ⟨ch, hch, hone⟩ := h.finished hstage (haccepting hacc)
    refine ⟨ch, hw _ _ _ hch, ?_⟩
    rw [houtcomes]
    exact hone

theorem Invariant.makeToken (h : agen.Invariant) : agen.makeToken.Invariant where
  fresh := by
    intro p hp
    have hne : p ≠ agen.allocated := by
      simp only [AsyncGenerator.makeToken] at hp
      omega
    simp only [AsyncGenerator.makeToken] at hp ⊢
    rw [Function.update_of_ne hne]
    exact h.fresh p (by omega)
  mapped := by
    intro tid v hv
    simp only [AsyncGenerator.makeToken] at hv ⊢
    by_cases htid : tid = agen.nextTok
    . subst htid
      rw [Function.update_self] at hv
      injection hv with hv
      exact ⟨agen.allocated, hv.symm, Function.update_self _ _ _⟩
    . rw [Function.update_of_ne htid] at hv
      obtain ⟨p, hp, htok⟩ := h.mapped tid v hv
      have hlt := h.lt_allocated htok
      exact ⟨p, hp, by rw [Function.update_of_ne (by omega), htok]⟩
  deleted := by
    intro p hp
    obtain ⟨hlt, hnone⟩ := h.deleted p hp
    simp only [AsyncGenerator.makeToken]
    exact ⟨by omega, by rw [Function.update_of_ne (by omega), hnone]⟩
  noLateCall := h.noLateCall
  unused := h.unused
  sound := by
    intro r req hreq
    apply (h.sound r req hreq).frame
    . intro _ p hp
      have hlt := h.lt_allocated hp
      simp only [AsyncGenerator.makeToken]
      rw [Function.update_of_ne (by omega), hp]
    . intro _ hmap
      simp only [AsyncGenerator.makeToken]
      by_cases htid : req.ctx.token = agen.nextTok
      . rw [htid, Function.update_self, Option.isSome_some]
      . rw [Function.update_of_ne htid]
        exact hmap
    . exact fun _ _ _ hch => hch
    . exact id
    . rfl

theorem outcomes_append (agen' : AsyncGenerator κ β) {e : Event κ β}
    (h : agen'.history = agen.history ++ [e]) (r : Nat)
    : agen'.outcomes r = agen.outcomes r ++ if e.isOutcomeOf r then [e] else [] := by
  simp only [outcomes, h, List.filter_append, List.filter_cons, List.filter_nil]

theorem NoLateCall.append (h : agen.NoLateCall) {agen' : AsyncGenerator κ β} {e : Event κ β}
    (heq : agen'.history = agen.history ++ [e])
    (he : ∀ r tok cb ch, e = .called r tok cb ch → .deleted tok ∉ agen.history)
    : agen'.NoLateCall := by
  unfold NoLateCall
  rw [heq, List.pairwise_append]
  refine ⟨h, List.pairwise_singleton _ _, ?_⟩
  intro e₁ h₁ e₂ h₂ r tok cb ch hcalled hdeleted
  rw [List.mem_singleton] at h₂
  rw [hdeleted] at h₁
  exact he r tok cb ch (h₂ ▸ hcalled) h₁

theorem Invariant.freeToken (h : agen.Invariant) {tid : Int}
    (hidle : FreesIdle (.ok agen) (.freeToken tid))
    : ∃ agen', agen.freeToken tid = .ok agen' ∧ agen'.Invariant := by
  unfold AsyncGenerator.freeToken
  cases hmap : agen.toks tid with
  | none => exact ⟨agen, rfl, h⟩
  | some v =>
    obtain ⟨tok, hv, htok⟩ := h.mapped tid v hmap
    subst hv
    dsimp only
    rw [htok]
    refine ⟨_, rfl, ?_⟩
    -- a token with another number is another token
    have hother {p : Nat} {tid' : Int} (hp : agen.tokens p = some ⟨tid', true⟩) (hne : tid' ≠ tid)
        : Function.update agen.tokens tok none p = some ⟨tid', true⟩ := by
      have hneq : p ≠ tok := by
        intro heq
        rw [heq, htok] at hp
        injection hp with hp
        injection hp with hp
        exact hne hp.symm
      rw [Function.update_of_ne hneq, hp]
    have hunfinished {r : Nat} {req : Request κ β} (hreq : agen.requests r = some req)
        (hstage : req.stage ≠ .finished) : req.ctx.token ≠ tid :=
      fun heq => hstage (hidle r req hreq heq)
    exact {
      fresh := by
        intro p hp
        have hneq : p ≠ tok := by
          have := h.lt_allocated htok
          dsimp only at hp
          omega
        dsimp only
        rw [Function.update_of_ne hneq]
        exact h.fresh p hp
      mapped := by
        intro tid' v' hv'
        dsimp only at hv' ⊢
        have hne : tid' ≠ tid := by
          intro heq
          rw [heq, Function.update_self] at hv'
          injection hv'
        rw [Function.update_of_ne hne] at hv'
        obtain ⟨p, hp, hptok⟩ := h.mapped tid' v' hv'
        exact ⟨p, hp, hother hptok hne⟩
      deleted := by
        intro p hp
        dsimp only at hp ⊢
        rw [List.mem_append, List.mem_singleton] at hp
        cases hp with
        | inl hp =>
          obtain ⟨hlt, hnone⟩ := h.deleted p hp
          refine ⟨hlt, ?_⟩
          by_cases heq : p = tok
          . rw [heq, Function.update_self]
          . rw [Function.update_of_ne heq, hnone]
        | inr hp =>
          injection hp with hp
          rw [hp]
          exact ⟨h.lt_allocated htok, Function.update_self _ _ _⟩
      noLateCall := h.noLateCall.append rfl (by intro _ _ _ _ he; cases he)
      unused := by
        intro r hr
        rw [@outcomes_append _ _ agen _ (.deleted tok) rfl, h.unused r hr]
        rfl
      sound := by
        intro r req hreq
        apply (h.sound r req hreq).frame
        . intro hstage p hp
          exact hother hp (hunfinished hreq hstage)
        . intro hstage hsome
          dsimp only
          rw [Function.update_of_ne (hunfinished hreq hstage)]
          exact hsome
        . exact fun _ _ _ hch => hch
        . exact id
        . rw [@outcomes_append _ _ agen _ (.deleted tok) rfl]
          exact List.append_nil _
    }

theorem Invariant.goto (h : agen.Invariant) {agen' : AsyncGenerator κ β} {r : Nat}
    {req : Request κ β} {e : Option (Event κ β)}
    (htokens : agen'.tokens = agen.tokens) (hallocated : agen'.allocated = agen.allocated)
    (htoks : agen'.toks = agen.toks) (haccepting : agen'.accepting = agen.accepting)
    (hw : ∀ x z ch, agen.w.getChunk x z = some ch → agen'.w.getChunk x z = some ch)
    (hrequests : agen'.requests = Function.update agen.requests r (some req))
    (hhistory : agen'.history = agen.history ++ e.toList)
    (he : ∀ e' ∈ e, e'.isOutcomeOf r = true
      ∧ ∀ r tok cb ch, e' = .called r tok cb ch → .deleted tok ∉ agen.history)
    (hsound : agen'.Sound r req)
    : agen'.Invariant := by
  have houtcomes {r' : Nat} (hne : r' ≠ r) : agen'.outcomes r' = agen.outcomes r' := by
    cases e with
    | none =>
      simp only [outcomes, hhistory, Option.toList_none, List.append_nil]
    | some e =>
      have hout := (he e rfl).1
      rw [outcomes_append agen' hhistory, e.isOutcomeOf_eq_false hout hne]
      exact List.append_nil _
  exact {
    fresh := by
      rw [htokens, hallocated]
      exact h.fresh
    mapped := by
      rw [htokens, htoks]
      exact h.mapped
    deleted := by
      intro p hp
      rw [htokens, hallocated]
      apply h.deleted p
      rw [hhistory, List.mem_append] at hp
      cases hp with
      | inl hp => exact hp
      | inr hp =>
        have hout := (he _ (Option.mem_toList.mp hp)).1
        cases hout
    noLateCall := by
      cases e with
      | none =>
        unfold NoLateCall
        rw [hhistory, Option.toList_none, List.append_nil]
        exact h.noLateCall
      | some e => exact h.noLateCall.append hhistory (he e rfl).2
    unused := by
      intro r' hr'
      rw [hrequests] at hr'
      have hne : r' ≠ r := by
        intro heq
        rw [heq, Function.update_self] at hr'
        injection hr'
      rw [Function.update_of_ne hne] at hr'
      rw [houtcomes hne, h.unused r' hr']
    sound := by
      intro r' req' hreq'
      rw [hrequests] at hreq'
      by_cases heq : r' = r
      . rw [heq, Function.update_self] at hreq'
        injection hreq' with hreq'
        rw [heq, ← hreq']
        exact hsound
      . rw [Function.update_of_ne heq] at hreq'
        apply (h.sound r' req' hreq').frame
        . intro _ p hp
          rw [htokens, hp]
        . intro _ hsome
          rw [htoks]
          exact hsome
        . exact hw
        . rw [haccepting]
          exact id
        . exact houtcomes heq
  }

theorem Invariant.generate (h : agen.Invariant) {r : Nat} (ctx : GenCtx β)
    (hr : agen.requests r = none)
    : ∃ agen', agen.generate r ctx = .ok agen' ∧ agen'.Invariant := by
  unfold AsyncGenerator.generate
  cases hmap : agen.toks ctx.token with
  | none => exact ⟨agen, rfl, h⟩
  | some v =>
    obtain ⟨tok, hv, htok⟩ := h.mapped ctx.token v hmap
    subst hv
    refine ⟨_, rfl, ?_⟩
    refine @Invariant.goto _ _ agen h _ r ⟨tok, ctx, .found⟩ none rfl rfl rfl rfl
      (fun _ _ _ hch => hch) rfl (List.append_nil _).symm (fun _ he => by cases he) ?_
    exact {
      alive := fun _ => ⟨htok, by rw [setRequest, hmap]; rfl⟩
      indexed := fun _ hstage => by cases hstage
      loaded := fun _ hstage => by cases hstage
      unfinished := fun _ => h.unused r hr
      finished := fun hstage => by cases hstage
    }

theorem Invariant.setRequest (h : agen.Invariant) {r : Nat} {req : Request κ β}
    (hreq : agen.requests r = some req) (hstage : req.stage ≠ .finished) {stage : Stage κ}
    (hnext : stage ≠ .finished)
    (hindexed : ∀ tok, stage = .indexed tok
      → ∃ p, tok = some p ∧ agen.tokens p = some ⟨req.ctx.token, true⟩)
    (hloaded : ∀ ch, stage ≠ .loaded ch)
    : (agen.setRequest r { req with stage := stage }).Invariant := by
  have hsound := h.sound r req hreq
  refine @Invariant.goto _ _ agen h _ r { req with stage := stage } none rfl rfl rfl rfl
    (fun _ _ _ hch => hch) rfl (List.append_nil _).symm (fun _ he => by cases he) ?_
  exact {
    alive := fun _ => hsound.alive hstage
    indexed := hindexed
    loaded := fun ch heq => absurd heq (hloaded ch)
    unfinished := fun _ => hsound.unfinished hstage
    finished := fun heq => absurd heq hnext
  }

theorem Invariant.finish (h : agen.Invariant) {r : Nat} {req : Request κ β}
    (hreq : agen.requests r = some req) (hstage : req.stage ≠ .finished) {e : Event κ β} {ch : κ}
    (hch : agen.w.getChunk req.ctx.x req.ctx.z = some ch)
    (he : e = .returned r ch
      ∨ (e = .called r req.tok req.ctx.cb ch ∧ .deleted req.tok ∉ agen.history))
    : Invariant { agen.setRequest r { req with stage := .finished } with
        history := agen.history ++ [e] } := by
  have hsound := h.sound r req hreq
  have hout : e.isOutcomeOf r = true := by
    cases he with
    | inl he => simp [he, Event.isOutcomeOf]
    | inr he => simp [he.1, Event.isOutcomeOf]
  refine @Invariant.goto _ _ agen h _ r { req with stage := .finished } (some e) rfl rfl rfl rfl
    (fun _ _ _ hch => hch) rfl rfl ?_ ?_
  . intro e' he'
    rw [Option.mem_some_iff] at he'
    subst he'
    refine ⟨hout, ?_⟩
    intro r' tok cb ch' hcalled
    cases he with
    | inl he =>
      rw [he] at hcalled
      cases hcalled
    | inr he =>
      rw [he.1] at hcalled
      injection hcalled with _ htok
      rw [← htok]
      exact he.2
  . exact {
      alive := fun hne => absurd rfl hne
      indexed := fun _ heq => by cases heq
      loaded := fun _ heq => by cases heq
      unfinished := fun hne => absurd rfl hne
      finished := by
        intro _ _
        refine ⟨ch, hch, ?_⟩
        rw [@outcomes_append _ _ agen _ e rfl, hsound.unfinished hstage, hout]
        cases he with
        | inl he => exact .inl (by rw [he]; rfl)
        | inr he => exact .inr (by rw [he.1]; rfl)
    }

theorem Invariant.proceed (h : agen.Invariant) {r : Nat} {req : Request κ β}
    (hreq : agen.requests r = some req) (prov : Option κ) (gen : κ)
    {res : Except Crash (AsyncGenerator κ β)} (hres : agen.proceed r req prov gen = some res)
    : ∃ agen', res = .ok agen' ∧ agen'.Invariant := by
  have hsound := h.sound r req hreq
  have hdeleted (hstage : req.stage ≠ .finished) : .deleted req.tok ∉ agen.history := by
    intro hmem
    have hnone := (h.deleted _ hmem).2
    rw [(hsound.alive hstage).1] at hnone
    injection hnone
  unfold AsyncGenerator.proceed at hres
  cases hcase : req.stage with
  | found =>
    have hstage : req.stage ≠ .finished := by simp [hcase]
    simp only [hcase, (hsound.alive hstage).1, ↓reduceIte, Option.some.injEq] at hres
    exact ⟨_, hres.symm, h.setRequest hreq hstage (by simp) (by simp) (by simp)⟩
  | enabled =>
    have hstage : req.stage ≠ .finished := by simp [hcase]
    simp only [hcase] at hres
    split at hres
    . next ch hch =>
      injection hres with hres
      exact ⟨_, hres.symm, h.finish hreq hstage hch (.inl rfl)⟩
    . next hnone =>
      injection hres with hres
      exact ⟨_, hres.symm, h.setRequest hreq hstage (by simp) (by simp) (by simp)⟩
  | missing =>
    have hstage : req.stage ≠ .finished := by simp [hcase]
    simp only [hcase, Option.some.injEq] at hres
    refine ⟨_, hres.symm, ?_⟩
    split
    . exact h.setRequest hreq hstage (by simp) (by simp) (by simp)
    . next haccepting =>
      refine @Invariant.goto _ _ agen h _ r { req with stage := .finished } none rfl rfl rfl rfl
        (fun _ _ _ hch => hch) rfl (List.append_nil _).symm (fun _ he => by cases he) ?_
      exact {
        alive := fun hne => absurd rfl hne
        indexed := fun _ heq => by cases heq
        loaded := fun _ heq => by cases heq
        unfinished := fun hne => absurd rfl hne
        finished := fun _ hacc => absurd hacc haccepting
      }
  | queued =>
    have hstage : req.stage ≠ .finished := by simp [hcase]
    obtain ⟨v, hv⟩ := Option.isSome_iff_exists.mp (hsound.alive hstage).2
    obtain ⟨p, hp, htok⟩ := h.mapped _ _ hv
    simp only [hcase, hv, Option.some.injEq] at hres
    refine ⟨_, hres.symm, h.setRequest hreq hstage (by simp) ?_ (by simp)⟩
    intro tok heq
    injection heq with heq
    exact ⟨p, heq ▸ hp, htok⟩
  | indexed tok =>
    have hstage : req.stage ≠ .finished := by simp [hcase]
    obtain ⟨p, hp, htok⟩ := hsound.indexed tok hcase
    subst hp
    simp only [hcase, htok, ↓reduceIte, Option.some.injEq] at hres
    exact ⟨_, hres.symm, h.setRequest hreq hstage (by simp) (by simp) (by simp)⟩
  | loading =>
    have hstage : req.stage ≠ .finished := by simp [hcase]
    simp only [hcase, Option.some.injEq] at hres
    refine ⟨_, hres.symm, ?_⟩
    refine @Invariant.goto _ _ agen h _ r
      { req with stage := .loaded (agen.w.loadChunk req.ctx.x req.ctx.z prov gen).1 } none rfl rfl
      rfl rfl ?_ rfl (List.append_nil _).symm (fun _ he => by cases he) ?_
    . exact fun _ _ _ hch => World.getChunk_loadChunk_of_some hch _ _ _ _
    . exact {
        alive := fun _ => hsound.alive hstage
        indexed := fun _ heq => by cases heq
        loaded := by
          intro ch heq
          injection heq with heq
          rw [← heq]
          apply World.getChunk_loadChunk
        unfinished := fun _ => hsound.unfinished hstage
        finished := fun heq => by cases heq
      }
  | loaded ch =>
    have hstage : req.stage ≠ .finished := by simp [hcase]
    simp only [hcase, Option.some.injEq] at hres
    refine ⟨_, hres.symm, ?_⟩
    exact h.finish hreq hstage (hsound.loaded ch hcase) (.inr ⟨rfl, hdeleted hstage⟩)
  | finished =>
    simp only [hcase] at hres
    cases hres

/--
The steps that keep the invariant on their own.
-/
theorem Invariant.loadChunk (h : agen.Invariant) (x z : Int) (prov : Option κ) (gen : κ)
    : Invariant { agen with w := (agen.w.loadChunk x z prov gen).2 } where
  fresh := h.fresh
  mapped := h.mapped
  deleted := h.deleted
  noLateCall := h.noLateCall
  unused := h.unused
  sound := fun r req hreq => (h.sound r req hreq).frame (fun _ _ hp => hp) (fun _ hsome => hsome)
    (fun _ _ _ hch => World.getChunk_loadChunk_of_some hch _ _ _ _) id rfl

theorem Invariant.join (h : agen.Invariant) : Invariant { agen with accepting := false } where
  fresh := h.fresh
  mapped := h.mapped
  deleted := h.deleted
  noLateCall := h.noLateCall
  unused := h.unused
  sound := fun r req hreq => (h.sound r req hreq).frame (fun _ _ hp => hp) (fun _ hsome => hsome)
    (fun _ _ _ hch => hch) (fun hfalse => by cases hfalse) rfl

theorem Invariant.step (h : agen.Invariant) {l : Label κ β} (hidle : FreesIdle (.ok agen) l)
    {res : Except Crash (AsyncGenerator κ β)} (hstep : step (.ok agen) l = some res)
    : ∃ agen', res = .ok agen' ∧ agen'.Invariant := by
  cases l with
  | makeToken =>
    injection hstep with hstep
    exact ⟨_, hstep.symm, h.makeToken⟩
  | freeToken tid =>
    injection hstep with hstep
    rw [← hstep]
    exact h.freeToken hidle
  | generate r ctx =>
    simp only [AsyncGenerator.step] at hstep
    split at hstep
    . next hr =>
      injection hstep with hstep
      rw [← hstep]
      exact h.generate ctx hr
    . injection hstep
  | proceed r prov gen =>
    simp only [AsyncGenerator.step] at hstep
    split at hstep
    . injection hstep
    . next req hreq => exact h.proceed hreq prov gen hstep
  | loadChunk x z prov gen =>
    injection hstep with hstep
    exact ⟨_, hstep.symm, h.loadChunk x z prov gen⟩
  | join =>
    injection hstep with hstep
    exact ⟨_, hstep.symm, h.join⟩

end Invariant

/--
A chunk is generated, the callback is called, and then the token is freed.
-/
def generatedRun : List (Label Unit Unit) :=
  [.makeToken, .generate 0 ⟨1, 0, 0, ()⟩, .proceed 0 none (), .proceed 0 none (), .proceed 0 none (),
    .proceed 0 none (), .proceed 0 none (), .proceed 0 none (), .proceed 0 none (), .freeToken 1]

example : (exec step (.ok (init (World.mk (-1) (-1) () fun _ _ => none))) generatedRun).bind
      (fun res => res.toOption.map AsyncGenerator.history)
    = some [.called 0 0 () (), .deleted 0] := rfl

end AsyncGenerator

end HCraft
