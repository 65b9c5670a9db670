import HCraft.Lib.Transition
import HCraft.System.Server.Impl
import HCraft.Util.ThreadPool.Lemmas.Quiet

/-!
This module contains when the list of players has none that is deleted, and when no connection is
deleted while it has a job.
-/

namespace HCraft

open Transition

variable {n : Nat} {κ : Type}

namespace Server

def Login.pl : Login → Option Nat
  | .idle => none
  | .created pl => some pl
  | .registered pl => some pl
  | .playerSet pl => some pl

/--
The packet handler has been disconnected.
-/
def Disconnect.Gone : Disconnect → Prop
  | .notCalled => False
  | .seqDisabled => False
  | .handlerDisconnected => True
  | .gray => True
  | .returned => True

section Statements

variable (s : Server n κ)

/--
All players on the list are there, and so are the connections of the jobs that workers have in hand.
-/
structure Safe : Prop where
  players : ∀ pl ∈ s.players, s.heap.Alive pl
  conns : ∀ w j conn, (s.pool.workers w).job = some j → j.conn = some conn →
    (s.conns conn).deleted = false

/--
The pool has no job that makes use of the packet handler of the connection.
-/
def NoJob (conn : κ) : Prop :=
  ∀ j, s.pool.InPool j → j.conn ≠ some conn

/--
`disconnect_` is called for a connection only once the pool has none of its jobs.
-/
def Orderly : Label n κ → Prop
  | .disconnect conn => (s.conns conn).dc = .notCalled → s.NoJob conn
  | _ => True

instance [DecidableEq κ] (conn : κ) : Decidable (s.NoJob conn) :=
  decidable_of_iff
    ((∀ j ∈ s.pool.jobs, j.conn ≠ some conn)
      ∧ ∀ w, ∀ j ∈ (s.pool.workers w).job, j.conn ≠ some conn)
    (by
      constructor
      . rintro ⟨hjobs, hworkers⟩ j (hj | ⟨w, hj⟩)
        . exact hjobs j hj
        . exact hworkers w j hj
      . intro h
        exact ⟨fun j hj => h j (.inl hj), fun w j hj => h j (.inr ⟨w, hj⟩)⟩)

instance [DecidableEq κ] (l : Label n κ) : Decidable (s.Orderly l) :=
  match l with
  | .pool _ => .isTrue trivial
  | .onRead _ => .isTrue trivial
  | .enqueue _ => .isTrue trivial
  | .uuidGetSuccess _ => .isTrue trivial
  | .uuidGetFail _ => .isTrue trivial
  | .fromUsername _ => .isTrue trivial
  | .disconnect conn =>
    inferInstanceAs (Decidable ((s.conns conn).dc = .notCalled → s.NoJob conn))
  | .cleanGray => .isTrue trivial

structure Invariant : Prop where
  disabled : ∀ conn, (s.conns conn).dc ≠ .notCalled → s.pool.Disabled conn
  noJob : ∀ conn, (s.conns conn).dc ≠ .notCalled → s.NoJob conn
  deleted : ∀ conn, (s.conns conn).deleted = true → (s.conns conn).dc ≠ .notCalled
  players : ∀ pl ∈ s.players, s.heap.Alive pl
  known : ∀ conn pl, (s.conns conn).handlerPl = some pl → pl < s.heap.next
  gone : ∀ conn pl, (s.conns conn).handlerPl = some pl → (s.conns conn).dc.Gone → pl ∉ s.players
  login : ∀ w pl, (s.logins w).pl = some pl → pl < s.heap.next
  created : ∀ w pl, s.logins w = .created pl →
    s.heap.Alive pl ∧ pl ∉ s.players ∧ ∀ conn, (s.conns conn).handlerPl ≠ some pl
  distinct : ∀ w w' pl, (s.logins w).pl = some pl → s.logins w' = .created pl → w' = w
  deleting : ∀ conn conns nconns, s.cleaner = .deleting conn conns nconns →
    (s.conns conn).dc = .returned

end Statements

variable {s s' : Server n κ} {conn : κ} {w : Fin n}

theorem Invariant.safe (h : s.Invariant) : s.Safe := by
  refine ⟨h.players, ?_⟩
  intro w j conn hj hconn
  by_contra hdeleted
  rw [Bool.not_eq_false] at hdeleted
  exact h.noJob conn (h.deleted conn hdeleted) j (.of_worker hj) hconn

/--
Only a connection that is not being disconnected has its packets handled.
-/
theorem Invariant.notCalled_of_handling (h : s.Invariant) (hw : s.handling w = some conn)
    : (s.conns conn).dc = .notCalled := by
  by_contra hcalled
  unfold handling at hw
  split at hw
  . next j hworker =>
    apply h.noJob conn hcalled j _ hw
    apply ThreadPool.InPool.of_worker
    rw [hworker]
    rfl
  . cases hw

theorem Invariant.deregisterPlayer (h : s.Invariant) (pl : Nat)
    : (s.deregisterPlayer pl).Invariant where
  disabled := h.disabled
  noJob := h.noJob
  deleted := h.deleted
  players pl' hpl' := h.players pl' (List.mem_filter.mp hpl').left
  known := h.known
  gone conn pl' hhandler hgone hmem :=
    h.gone conn pl' hhandler hgone (List.mem_filter.mp hmem).left
  login := h.login
  created w pl' hw := by
    obtain ⟨halive, hmem, hhandler⟩ := h.created w pl' hw
    exact ⟨halive, fun hfilter => hmem (List.mem_filter.mp hfilter).left, hhandler⟩
  distinct := h.distinct
  deleting := h.deleting

theorem disconnectHandler_cases (hs : s.disconnectHandler conn = some s')
    : ((s.conns conn).handlerPl = none ∧ s' = s)
        ∨ ∃ pl, (s.conns conn).handlerPl = some pl ∧ s' = s.deregisterPlayer pl := by
  unfold disconnectHandler at hs
  split at hs
  . next hnone =>
    injection hs with hs
    exact .inl ⟨hnone, hs.symm⟩
  . next pl hsome _ =>
    injection hs with hs
    exact .inr ⟨pl, hsome, hs.symm⟩
  . cases hs

theorem Invariant.disconnectHandler (h : s.Invariant) (hs : s.disconnectHandler conn = some s')
    : s'.Invariant := by
  rcases disconnectHandler_cases hs with ⟨_, rfl⟩ | ⟨pl, _, rfl⟩
  . exact h
  . exact h.deregisterPlayer pl

theorem setLogin_logins {w' : Fin n} {login : Login} {P : Login → Prop}
    (h : P ((s.setLogin w login).logins w'))
    : (w' = w ∧ P login) ∨ (w' ≠ w ∧ P (s.logins w')) := by
  unfold setLogin at h
  dsimp only at h
  by_cases hw : w' = w
  . rw [hw, Function.update_self] at h
    exact .inl ⟨hw, h⟩
  . rw [Function.update_of_ne hw] at h
    exact .inr ⟨hw, h⟩

theorem setLogin_pl {w' : Fin n} {login : Login} {pl : Nat}
    (h : ((s.setLogin w login).logins w').pl = some pl)
    : (w' = w ∧ login.pl = some pl) ∨ (w' ≠ w ∧ (s.logins w').pl = some pl) :=
  setLogin_logins (P := fun login => login.pl = some pl) h

theorem setLogin_created {w' : Fin n} {login : Login} {pl : Nat}
    (h : (s.setLogin w login).logins w' = .created pl)
    : (w' = w ∧ login = .created pl) ∨ (w' ≠ w ∧ s.logins w' = .created pl) :=
  setLogin_logins (P := fun login => login = .created pl) h

/--
A worker goes on with the player it has in hand, or is through with it.
-/
theorem Invariant.setLogin (h : s.Invariant) {login : Login}
    (hpl : ∀ pl, login.pl = some pl → (s.logins w).pl = some pl)
    (hcreated : ∀ pl, login ≠ .created pl) : (s.setLogin w login).Invariant where
  disabled := h.disabled
  noJob := h.noJob
  deleted := h.deleted
  players := h.players
  known := h.known
  gone := h.gone
  login w' pl hw' := by
    rcases setLogin_pl hw' with ⟨rfl, hlogin⟩ | ⟨_, hold⟩
    . exact h.login w' pl (hpl pl hlogin)
    . exact h.login w' pl hold
  created w' pl hw' := by
    rcases setLogin_created hw' with ⟨_, hlogin⟩ | ⟨_, hold⟩
    . exact absurd hlogin (hcreated pl)
    . exact h.created w' pl hold
  distinct w₁ w₂ pl h₁ h₂ := by
    rcases setLogin_created h₂ with ⟨_, hlogin⟩ | ⟨_, hold⟩
    . exact absurd hlogin (hcreated pl)
    . rcases setLogin_pl h₁ with ⟨rfl, hlogin⟩ | ⟨_, hfirst⟩
      . exact h.distinct w₁ w₂ pl (hpl pl hlogin) hold
      . exact h.distinct w₁ w₂ pl hfirst hold
  deleting := h.deleting

theorem Invariant.deletePlayer (h : s.Invariant) {pl : Nat} (hpl : pl ∉ s.players)
    (hcreated : ∀ w, s.logins w ≠ .created pl)
    : (s.deletePlayer pl).Invariant := by
  have halive {pl' : Nat} (hne : pl' ≠ pl) (h : s.heap.Alive pl') : (s.heap.free pl).Alive pl' := by
    obtain ⟨conn, hget⟩ := h
    exact ⟨conn, (Heap.get_free_of_ne hne).trans hget⟩
  constructor
  . exact h.disabled
  . exact h.noJob
  . exact h.deleted
  . intro pl' hpl'
    have hne : pl' ≠ pl := by
      rintro rfl
      exact hpl hpl'
    exact halive hne (h.players pl' hpl')
  . exact h.known
  . exact h.gone
  . exact h.login
  . intro w pl' hw
    obtain ⟨hthere, hmem, hhandler⟩ := h.created w pl' hw
    have hne : pl' ≠ pl := by
      rintro rfl
      exact hcreated w hw
    exact ⟨halive hne hthere, hmem, hhandler⟩
  . exact h.distinct
  . exact h.deleting

theorem Invariant.handlerPl (h : s.Invariant) {pl : Nat} (hpl : (s.conns conn).handlerPl = some pl)
    : pl < s.heap.next ∧ ((s.conns conn).dc.Gone → pl ∉ s.players)
        ∧ ∀ w, s.logins w ≠ .created pl := by
  refine ⟨h.known conn pl hpl, h.gone conn pl hpl, ?_⟩
  intro w hw
  exact (h.created w pl hw).right.right conn hpl

theorem Invariant.setCleaner (h : s.Invariant) {cleaner : Cleaner κ}
    (hdeleting : ∀ conn conns nconns, cleaner = .deleting conn conns nconns →
      (s.conns conn).dc = .returned) : Invariant { s with cleaner := cleaner } :=
  { h with deleting := hdeleting }

theorem Invariant.alloc (h : s.Invariant) (hw : (s.logins w).pl = none)
    : (Server.setLogin { s with heap := s.heap.alloc conn } w (.created s.heap.next)).Invariant := by
  have hnew {pl : Nat} (hpl : s.heap.Alive pl) : pl ≠ s.heap.next := by
    obtain ⟨conn', hget⟩ := hpl
    have hlt := Heap.lt_next hget
    omega
  have halive {pl : Nat} (hpl : s.heap.Alive pl) : (s.heap.alloc conn).Alive pl := by
    obtain ⟨conn', hget⟩ := hpl
    exact ⟨conn', Heap.get_alloc_of_some hget⟩
  constructor
  . exact h.disabled
  . exact h.noJob
  . exact h.deleted
  . exact fun pl hpl => halive (h.players pl hpl)
  . exact fun conn' pl hpl => Nat.lt_succ_of_lt (h.known conn' pl hpl)
  . exact h.gone
  . intro w' pl hw'
    rcases setLogin_pl hw' with ⟨_, hpl⟩ | ⟨_, hold⟩
    . injection hpl with hpl
      rw [← hpl]
      exact Nat.lt_succ_self _
    . exact Nat.lt_succ_of_lt (h.login w' pl hold)
  . intro w' pl hw'
    rcases setLogin_created hw' with ⟨_, hpl⟩ | ⟨_, hold⟩
    . injection hpl with hpl
      subst hpl
      refine ⟨⟨conn, Heap.get_alloc_next⟩, ?_, ?_⟩
      . exact fun hmem => hnew (h.players _ hmem) rfl
      . intro conn' hhandler
        exact Nat.lt_irrefl _ (h.known conn' _ hhandler)
    . obtain ⟨hthere, hmem, hhandler⟩ := h.created w' pl hold
      exact ⟨halive hthere, hmem, hhandler⟩
  . intro w₁ w₂ pl h₁ h₂
    rcases setLogin_created h₂ with ⟨rfl, hpl⟩ | ⟨_, hold⟩
    . injection hpl with hpl
      subst hpl
      rcases setLogin_pl h₁ with ⟨heq, _⟩ | ⟨_, hfirst⟩
      . exact heq.symm
      . exact absurd (h.login w₁ _ hfirst) (Nat.lt_irrefl _)
    . rcases setLogin_pl h₁ with ⟨rfl, hpl⟩ | ⟨_, hfirst⟩
      . injection hpl with hpl
        subst hpl
        exact absurd rfl (hnew (h.created w₂ _ hold).left)
      . exact h.distinct w₁ w₂ pl hfirst hold
  . exact h.deleting

theorem Invariant.register (h : s.Invariant) {pl : Nat} (halive : s.heap.Alive pl)
    (hhandler : ∀ conn, (s.conns conn).handlerPl ≠ some pl)
    (hcreated : ∀ w, s.logins w ≠ .created pl)
    : Invariant { s with players := s.players ++ [pl] } := by
  constructor
  . exact h.disabled
  . exact h.noJob
  . exact h.deleted
  . intro pl' hpl'
    cases List.mem_append.mp hpl' with
    | inl hold => exact h.players pl' hold
    | inr hnew => exact List.mem_singleton.mp hnew ▸ halive
  . exact h.known
  . intro conn pl' hpl' hgone hmem
    cases List.mem_append.mp hmem with
    | inl hold => exact h.gone conn pl' hpl' hgone hold
    | inr hnew => exact hhandler conn (List.mem_singleton.mp hnew ▸ hpl')
  . exact h.login
  . intro w pl' hw
    obtain ⟨hthere, hmem, hothers⟩ := h.created w pl' hw
    refine ⟨hthere, ?_, hothers⟩
    intro hmem'
    cases List.mem_append.mp hmem' with
    | inl hold => exact hmem hold
    | inr hnew => exact hcreated w (List.mem_singleton.mp hnew ▸ hw)
  . exact h.distinct
  . exact h.deleting

theorem Invariant.not_created (h : s.Invariant) {pl : Nat} {login : Login}
    (hw : (s.logins w).pl = some pl) (hlogin : ∀ pl, login ≠ .created pl) (w' : Fin n)
    : (s.setLogin w login).logins w' ≠ .created pl := by
  intro hcreated
  rcases setLogin_created hcreated with ⟨_, heq⟩ | ⟨hne, hold⟩
  . exact hlogin pl heq
  . exact hne (h.distinct w w' pl hw hold)

theorem registerPlayer_eq {maxPlayers : Int} {pl : Nat} (h : s.registerPlayer maxPlayers pl = some s')
    : s' = { s with players := s.players ++ [pl] } := by
  unfold registerPlayer at h
  by_cases hfull : s.players.length = maxPlayers
  . rw [if_pos hfull] at h
    cases h
  . rw [if_neg hfull] at h
    injection h with h
    exact h.symm

/--
What `handle` does, with a connection that is not being disconnected.
-/
theorem Invariant.handle (h : s.Invariant) {f : κ → Option (Server n κ)}
    (hs : s.handle w f = some s')
    : ∃ conn, s.handling w = some conn ∧ (s.conns conn).dc = .notCalled ∧ f conn = some s' := by
  unfold Server.handle at hs
  split at hs
  . cases hs
  . next conn hw =>
    split at hs
    . cases hs
    . exact ⟨conn, hw, h.notCalled_of_handling hw, hs⟩

section Steps

variable [DecidableEq κ]

theorem NoJob.step {l : ThreadPool.Label n κ (PoolFn κ) Nat} {pool' : ThreadPool n κ (PoolFn κ) Nat}
    (h : s.NoJob conn) (hdisabled : pool'.Disabled conn) (hstep : s.pool.step l = some pool')
    (hl : ∀ refc, l ≠ .enqueue (.uuid conn) refc) : { s with pool := pool' }.NoJob conn := by
  intro j hin hconn
  rcases ThreadPool.inPool_step hstep hin with hold | ⟨fn, refc, rfl, htask⟩ | ⟨fn, seq, htask, _⟩
  . exact h j hold hconn
  . cases j
    cases htask
    cases fn with
    | packet => cases hconn
    | uuid conn' =>
      injection hconn with hconn
      subst hconn
      exact hl refc rfl
    | other => cases hconn
  . cases j
    cases htask
    injection hconn with hconn
    subst hconn
    exact hdisabled.absent fn _ hin

/--
A step of the pool is none of the server's business, as long as nobody asks for the UUID of a player
whose connection is disconnected.
-/
theorem Invariant.poolStep (h : s.Invariant) {l : ThreadPool.Label n κ (PoolFn κ) Nat}
    (hl : ∀ conn refc, l = .enqueue (.uuid conn) refc → (s.conns conn).dc = .notCalled)
    (hstep : s.poolStep l = some s') : s'.Invariant := by
  obtain ⟨pool', hpool, hs'⟩ := Option.map_eq_some_iff.mp hstep
  subst hs'
  have hdisabled (conn : κ) (hcalled : (s.conns conn).dc ≠ .notCalled) : pool'.Disabled conn :=
    (h.disabled conn hcalled).step hpool
  have hnoJob (conn : κ) (hcalled : (s.conns conn).dc ≠ .notCalled)
      : { s with pool := pool' }.NoJob conn := by
    apply (h.noJob conn hcalled).step (hdisabled conn hcalled) hpool
    intro refc heq
    exact hcalled (hl conn refc heq)
  exact { h with disabled := hdisabled, noJob := hnoJob }

theorem Invariant.setConn (h : s.Invariant) {c : Conn}
    (hcalled : c.dc ≠ .notCalled → s.pool.Disabled conn ∧ s.NoJob conn)
    (hdeleted : c.deleted = true → c.dc ≠ .notCalled)
    (hhandler : ∀ pl, c.handlerPl = some pl →
      pl < s.heap.next ∧ (c.dc.Gone → pl ∉ s.players) ∧ ∀ w, s.logins w ≠ .created pl)
    (hdeleting : ∀ conns nconns, s.cleaner = .deleting conn conns nconns → c.dc = .returned)
    : (s.setConn conn c).Invariant := by
  have hconn (P : κ → Conn → Prop) (hnew : P conn c) (hold : ∀ conn', P conn' (s.conns conn'))
      (conn' : κ) : P conn' ((s.setConn conn c).conns conn') := by
    unfold Server.setConn
    dsimp only
    by_cases heq : conn' = conn
    . rw [heq, Function.update_self]
      exact hnew
    . rw [Function.update_of_ne heq]
      exact hold conn'
  constructor
  . apply hconn (fun conn' c' => c'.dc ≠ .notCalled → s.pool.Disabled conn')
    . exact fun hc => (hcalled hc).left
    . exact h.disabled
  . apply hconn (fun conn' c' => c'.dc ≠ .notCalled → s.NoJob conn')
    . exact fun hc => (hcalled hc).right
    . exact h.noJob
  . apply hconn (fun _ c' => c'.deleted = true → c'.dc ≠ .notCalled)
    . exact hdeleted
    . exact h.deleted
  . exact h.players
  . apply hconn (fun _ c' => ∀ pl, c'.handlerPl = some pl → pl < s.heap.next)
    . exact fun pl hpl => (hhandler pl hpl).left
    . exact h.known
  . apply hconn (fun _ c' => ∀ pl, c'.handlerPl = some pl → c'.dc.Gone → pl ∉ s.players)
    . exact fun pl hpl => (hhandler pl hpl).right.left
    . exact h.gone
  . exact h.login
  . intro w pl hw
    obtain ⟨halive, hmem, hothers⟩ := h.created w pl hw
    refine ⟨halive, hmem, ?_⟩
    apply hconn (fun _ c' => c'.handlerPl ≠ some pl)
    . intro hpl
      exact (hhandler pl hpl).right.right w hw
    . exact hothers
  . exact h.distinct
  . intro conn' conns nconns hcleaner
    unfold Server.setConn
    dsimp only
    by_cases heq : conn' = conn
    . subst heq
      rw [Function.update_self]
      exact hdeleting conns nconns hcleaner
    . rw [Function.update_of_ne heq]
      exact h.deleting conn' conns nconns hcleaner

/--
`disconnect_` has come one step further.
-/
theorem Invariant.setDc (h : s.Invariant) {dc : Disconnect}
    (hcalled : dc ≠ .notCalled → s.pool.Disabled conn ∧ s.NoJob conn) (hdc : dc ≠ .notCalled)
    (hgone : dc.Gone → ∀ pl, (s.conns conn).handlerPl = some pl → pl ∉ s.players)
    (hdeleting : (s.conns conn).dc ≠ .returned)
    : (s.setConn conn { s.conns conn with dc := dc }).Invariant := by
  apply h.setConn
  . exact hcalled
  . exact fun _ => hdc
  . intro pl hpl
    obtain ⟨hknown, _, hcreated⟩ := h.handlerPl hpl
    exact ⟨hknown, fun hg => hgone hg pl hpl, hcreated⟩
  . intro conns nconns hcleaner
    exact absurd (h.deleting conn conns nconns hcleaner) hdeleting

theorem Invariant.disableSeq (h : s.Invariant) (hs : s.disableSeq conn = some s') : s'.Invariant :=
  h.poolStep (fun _ _ heq => by cases heq) hs

theorem Invariant.disconnect (h : s.Invariant) (horderly : s.Orderly (.disconnect conn))
    (hs : s.disconnect conn = some s') : s'.Invariant := by
  unfold Server.disconnect at hs
  dsimp only at hs
  split at hs
  . next hdc =>
    obtain ⟨s₁, hs₁, hs'⟩ := Option.map_eq_some_iff.mp hs
    subst hs'
    have h₁ := h.disableSeq hs₁
    obtain ⟨pool', hpool, hs₁'⟩ := Option.map_eq_some_iff.mp hs₁
    subst hs₁'
    have hnoJob := horderly hdc
    have hdisabled : pool'.Disabled conn := by
      apply ThreadPool.disabled_disableSeq hpool
      intro fn refc hin
      exact hnoJob _ hin rfl
    apply h₁.setDc
    . exact fun _ => ⟨hdisabled, hnoJob.step hdisabled hpool nofun⟩
    . simp
    . exact False.elim
    . simp [hdc]
  . next hdc =>
    obtain ⟨s₁, hs₁, hs'⟩ := Option.map_eq_some_iff.mp hs
    subst hs'
    have h₁ := h.disconnectHandler hs₁
    have hcalled : (s.conns conn).dc ≠ .notCalled := by simp [hdc]
    -- the player of the handler is the one that has been taken off the list
    rcases disconnectHandler_cases hs₁ with ⟨hnone, rfl⟩ | ⟨pl, hpl, rfl⟩
    . apply h₁.setDc
      . exact fun _ => ⟨h.disabled conn hcalled, h.noJob conn hcalled⟩
      . simp
      . intro _ pl hpl
        rw [hnone] at hpl
        cases hpl
      . simp [hdc]
    . apply h₁.setDc
      . exact fun _ => ⟨h.disabled conn hcalled, h.noJob conn hcalled⟩
      . simp
      . intro _ pl' hpl' hmem
        have heq := hpl.symm.trans hpl'
        injection heq with heq
        simp [Server.deregisterPlayer, heq] at hmem
      . simp [Server.deregisterPlayer, hdc]
  . next hdc =>
    split at hs
    . injection hs with hs
      subst hs
      have hcalled : (s.conns conn).dc ≠ .notCalled := by simp [hdc]
      have h₁ : Invariant { s with grayConns := s.grayConns ++ [conn] } := { h with }
      apply h₁.setDc
      . exact fun _ => ⟨h.disabled conn hcalled, h.noJob conn hcalled⟩
      . simp
      . intro _ pl hpl
        exact h.gone conn pl hpl (by simp [hdc, Disconnect.Gone])
      . simp [hdc]
    . cases hs
  . next hdc =>
    injection hs with hs
    subst hs
    have hcalled : (s.conns conn).dc ≠ .notCalled := by simp [hdc]
    apply h.setDc
    . exact fun _ => ⟨h.disabled conn hcalled, h.noJob conn hcalled⟩
    . simp
    . intro _ pl hpl
      exact h.gone conn pl hpl (by simp [hdc, Disconnect.Gone])
    . simp [hdc]
  . cases hs

theorem Invariant.deleteProto (h : s.Invariant) (hdc : (s.conns conn).dc = .returned)
    : (s.deleteProto conn).Invariant := by
  have hcalled : (s.conns conn).dc ≠ .notCalled := by simp [hdc]
  have h₁ : (s.setConn conn { s.conns conn with deleted := true }).Invariant := by
    apply h.setConn
    . exact fun _ => ⟨h.disabled conn hcalled, h.noJob conn hcalled⟩
    . exact fun _ => hcalled
    . exact fun pl hpl => h.handlerPl hpl
    . exact fun _ _ _ => hdc
  unfold Server.deleteProto
  dsimp only
  split
  . exact h₁
  . next pl hpl =>
    obtain ⟨_, hgone, hcreated⟩ := h.handlerPl hpl
    exact h₁.deletePlayer (hgone (by simp [hdc, Disconnect.Gone])) hcreated

theorem Invariant.cleanGray (h : s.Invariant) (hs : s.cleanGray = some s') : s'.Invariant := by
  unfold Server.cleanGray at hs
  split at hs
  . split at hs
    . cases hs
    . injection hs with hs
      subst hs
      exact h.setCleaner nofun
  . injection hs with hs
    subst hs
    exact { h with deleting := nofun }
  . next conn conns nconns _ =>
    split at hs
    . next hdc =>
      have hdeleting : Invariant { s with cleaner := .deleting conn conns nconns } := by
        apply h.setCleaner
        intro conn' conns' nconns' heq
        injection heq with heq
        rw [← heq]
        exact hdc
      split at hs
      . injection hs with hs
        subst hs
        exact hdeleting
      . split at hs
        . injection hs with hs
          subst hs
          exact hdeleting
        . injection hs with hs
          subst hs
          exact h.setCleaner nofun
    . cases hs
  . next conn conns nconns hcleaner =>
    injection hs with hs
    subst hs
    exact (h.deleteProto (h.deleting conn conns nconns hcleaner)).setCleaner nofun
  . obtain ⟨s₁, hs₁, hs'⟩ := Option.map_eq_some_iff.mp hs
    subst hs'
    exact (h.disableSeq hs₁).setCleaner nofun

theorem Invariant.uuidGetSuccess (h : s.Invariant) {maxPlayers : Int}
    (hdc : (s.conns conn).dc = .notCalled)
    (hs : s.uuidGetSuccess maxPlayers w conn = some s') : s'.Invariant := by
  have hdeleting (conns nconns : List κ) (hcleaner : s.cleaner = .deleting conn conns nconns)
      : (s.conns conn).dc = .returned :=
    h.deleting conn conns nconns hcleaner
  unfold Server.uuidGetSuccess at hs
  cases hlogin : s.logins w with
  | idle =>
    simp only [hlogin, Option.some.injEq] at hs
    subst hs
    exact h.alloc (by simp [hlogin, Login.pl])
  | created pl =>
    have hpl : (s.logins w).pl = some pl := by simp [hlogin, Login.pl]
    obtain ⟨halive, hmem, hhandler⟩ := h.created w pl hlogin
    cases hcleaner : s.cleaner with
    | idle =>
      simp only [hlogin, hcleaner] at hs
      cases hregister : s.registerPlayer maxPlayers pl with
      | none =>
        simp only [hregister, Option.some.injEq] at hs
        subst hs
        have h₁ : (s.setLogin w .idle).Invariant := by
          apply h.setLogin
          . nofun
          . nofun
        exact h₁.deletePlayer hmem (h.not_created hpl nofun)
      | some s₁ =>
        simp only [hregister, Option.some.injEq] at hs
        subst hs
        rw [registerPlayer_eq hregister]
        have h₁ : (s.setLogin w (.registered pl)).Invariant := by
          apply h.setLogin
          . exact fun _ heq => hpl.trans heq
          . nofun
        exact h₁.register halive hhandler (h.not_created hpl nofun)
    | looking conns nconns => simp [hlogin, hcleaner] at hs
    | deleting conn' conns nconns => simp [hlogin, hcleaner] at hs
    | releasing conn' conns nconns => simp [hlogin, hcleaner] at hs
  | registered pl =>
    simp only [hlogin, Option.some.injEq] at hs
    subst hs
    have hpl : (s.logins w).pl = some pl := by simp [hlogin, Login.pl]
    have h₁ : (s.setConn conn { s.conns conn with pl := some pl }).Invariant := by
      apply h.setConn
      . exact fun hcalled => absurd hdc hcalled
      . exact h.deleted conn
      . exact fun pl' hpl' => h.handlerPl hpl'
      . exact hdeleting
    apply h₁.setLogin
    . exact fun _ heq => hpl.trans heq
    . nofun
  | playerSet pl =>
    simp only [hlogin, Option.some.injEq] at hs
    subst hs
    have hpl : (s.logins w).pl = some pl := by simp [hlogin, Login.pl]
    have h₁ : (s.setLogin w .idle).Invariant := by
      apply h.setLogin
      . nofun
      . nofun
    apply h₁.setConn
    . exact fun hcalled => absurd hdc hcalled
    . exact h.deleted conn
    . intro pl' hpl'
      injection hpl' with hpl'
      subst hpl'
      refine ⟨h.login w pl hpl, ?_, h.not_created hpl nofun⟩
      -- the connection is not being disconnected, for it has a job
      dsimp only
      rw [hdc]
      exact False.elim
    . exact hdeleting

theorem Invariant.step (h : s.Invariant) {maxPlayers : Int} {l : Label n κ}
    (horderly : s.Orderly l) (hs : s.step maxPlayers l = some s') : s'.Invariant := by
  cases l with
  | pool l =>
    have hown (hl : ∀ fn refc, l ≠ .enqueue fn refc) (hstep : s.poolStep l = some s')
        : s'.Invariant :=
      h.poolStep (fun conn refc heq => absurd heq (hl _ refc)) hstep
    cases l with
    | enqueue fn refc => cases hs
    | enqueueSeq seq fn refc => cases hs
    | stopJobs seq cb => cases hs
    | disableSeq seq => cases hs
    | «return» w =>
      dsimp only [Server.step] at hs
      split at hs
      . exact hown nofun hs
      . cases hs
    | enqueueSeqPush seq => exact hown nofun hs
    | join => exact hown nofun hs
    | stop => exact hown nofun hs
    | pop w => exact hown nofun hs
    | call w => exact hown nofun hs
    | lockSeq w => exact hown nofun hs
    | requeue w => exact hown nofun hs
    | leave w => exact hown nofun hs
  | onRead conn =>
    dsimp only [Server.step] at hs
    split at hs
    . cases hs
    . exact h.poolStep (fun _ _ heq => by cases heq) hs
  | enqueue refc => exact h.poolStep (fun _ _ heq => by cases heq) hs
  | uuidGetSuccess w =>
    obtain ⟨conn, _, hdc, hf⟩ := h.handle hs
    exact h.uuidGetSuccess hdc hf
  | uuidGetFail w =>
    obtain ⟨conn, _, _, hf⟩ := h.handle hs
    exact h.disconnectHandler hf
  | fromUsername w =>
    obtain ⟨conn, _, hdc, hf⟩ := h.handle hs
    apply h.poolStep _ hf
    intro conn' refc heq
    injection heq with heq
    injection heq with heq
    rw [← heq]
    exact hdc
  | disconnect conn => exact h.disconnect horderly hs
  | cleanGray => exact h.cleanGray hs

/--
If `disconnect_` is called only for connections that have no job in the pool, no deleted player is on
the list, and no deleted connection has a job.
-/
theorem always_safe {maxPlayers : Int} {ls : List (Label n κ)}
    (h : EachStep (step maxPlayers) Orderly init ls) : Always (step maxPlayers) Safe init ls := by
  apply Always.mono (P := Invariant) (fun _ => Invariant.safe)
  apply always_of_eachStep (R := Orderly) _ _ h
  . exact fun s l s' hI horderly hs => hI.step horderly hs
  . constructor
    . exact fun _ hcalled => absurd rfl hcalled
    . exact fun _ hcalled => absurd rfl hcalled
    . nofun
    . nofun
    . nofun
    . nofun
    . nofun
    . nofun
    . nofun
    . nofun

end Steps

/--
A packet comes in and is handled up to the call of `uuid_get_success`.
-/
def loginStart : List (Label 1 Unit) :=
  [.onRead (), .pool (.enqueueSeqPush ()), .pool (.pop 0), .pool (.call 0), .uuidGetSuccess 0]

/--
The rest of the login.
-/
def loginRest : List (Label 1 Unit) :=
  [.uuidGetSuccess 0, .uuidGetSuccess 0, .uuidGetSuccess 0, .pool (.return 0), .pool (.lockSeq 0),
    .pool (.leave 0)]

def disconnectAll : List (Label 1 Unit) :=
  List.replicate 4 (.disconnect ())

def cleanAll : List (Label 1 Unit) :=
  List.replicate 5 .cleanGray

theorem always_safe_login
    : Always (step 20) Safe init (loginStart ++ loginRest ++ disconnectAll ++ cleanAll) := by
  apply always_safe
  decide

/--
The login goes on after `disconnect_` has looked for the player.
-/
theorem not_always_safe
    : ¬ Always (step 20) Safe init (loginStart ++ disconnectAll ++ loginRest ++ cleanAll) := by
  intro h
  obtain ⟨s, hexec, hmem, hdead⟩
      : ∃ s, exec (step 20) init (loginStart ++ disconnectAll ++ loginRest ++ cleanAll) = some s
          ∧ 0 ∈ s.players ∧ s.heap.get 0 = none := by
    refine ⟨_, rfl, ?_, ?_⟩
    . decide
    . rfl
  obtain ⟨conn, halive⟩ := (h.last hexec).players 0 hmem
  rw [hdead] at halive
  cases halive

end Server

end HCraft
