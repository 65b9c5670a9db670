import HCraft.Lib.Transition
import HCraft.Entity.PlayerList.Impl

/-!
This module contains who is on the player list that a client shows.
-/

namespace HCraft

namespace PlayerList

open Transition

variable {κ : Type} [DecidableEq κ]

/--
What a packet makes of the entry of a player.
-/
def Packet.entry (pl : κ) (listed : Bool) : Packet κ → Bool
  | .add pl' => if pl' = pl then true else listed
  | .remove pl' => if pl' = pl then false else listed

/--
Whether the client shows a player after these packets.
-/
def shows (packets : List (Packet κ)) (pl : κ) : Bool :=
  packets.foldl (Packet.entry pl) false

theorem shows_append (packets : List (Packet κ)) (packet : Packet κ) (pl : κ)
    : shows (packets ++ [packet]) pl = packet.entry pl (shows packets pl) := by
  simp [shows]

/--
`me` shows `pl`.
-/
def listed (st : PlayerList κ) (me pl : κ) : Bool :=
  shows (st.sent me) pl

section Send

variable (st : PlayerList κ)

@[simp]
theorem send_pls (pl : κ) (packet : Packet κ) : (st.send pl packet).pls = st.pls := by
  unfold send
  split <;> rfl

@[simp]
theorem send_stage (pl : κ) (packet : Packet κ) : (st.send pl packet).stage = st.stage := by
  unfold send
  split <;> rfl

@[simp]
theorem send_closed (pl : κ) (packet : Packet κ) : (st.send pl packet).closed = st.closed := by
  unfold send
  split <;> rfl

theorem listed_send (pl : κ) (packet : Packet κ) (me q : κ)
    : (st.send pl packet).listed me q
        =
      if me = pl ∧ st.closed me = false then packet.entry q (st.listed me q) else st.listed me q := by
  unfold send
  by_cases hclosed : st.closed pl = true
  . rw [if_pos hclosed, if_neg]
    rintro ⟨rfl, hopen⟩
    simp [hclosed] at hopen
  . rw [if_neg hclosed]
    by_cases hme : me = pl
    . subst hme
      simp [listed, shows_append, hclosed]
    . simp [listed, hme]

theorem listed_add (pl q me p : κ)
    : (st.send pl (.add q)).listed me p
        =
      (st.listed me p || (decide (me = pl ∧ q = p) && !st.closed me)) := by
  rw [listed_send]
  by_cases hme : me = pl <;> by_cases hq : q = p <;> cases hclosed : st.closed me
    <;> simp [Packet.entry, hme, hq]

theorem listed_remove (pl q me p : κ)
    : (st.send pl (.remove q)).listed me p
        =
      (st.listed me p && !(decide (me = pl ∧ q = p) && !st.closed me)) := by
  rw [listed_send]
  by_cases hme : me = pl <;> by_cases hq : q = p <;> cases hclosed : st.closed me
    <;> simp [Packet.entry, hme, hq]

end Send

section Loops

theorem announce_frame (me : κ) (pls : List κ) (st : PlayerList κ)
    : (announce me pls st).pls = st.pls ∧ (announce me pls st).stage = st.stage
        ∧ (announce me pls st).closed = st.closed := by
  induction pls generalizing st with
  | nil => exact ⟨rfl, rfl, rfl⟩
  | cons pl pls ih =>
    obtain ⟨hpls, hstage, hclosed⟩ := ih ((st.send pl (.add me)).send me (.add pl))
    rw [announce]
    exact ⟨by simp [hpls], by simp [hstage], by simp [hclosed]⟩

theorem withdraw_frame (me : κ) (pls : List κ) (st : PlayerList κ)
    : (withdraw me pls st).pls = st.pls ∧ (withdraw me pls st).stage = st.stage
        ∧ (withdraw me pls st).closed = st.closed := by
  induction pls generalizing st with
  | nil => exact ⟨rfl, rfl, rfl⟩
  | cons pl pls ih =>
    obtain ⟨hpls, hstage, hclosed⟩ := ih (st.send pl (.remove me))
    rw [withdraw]
    exact ⟨by simp [hpls], by simp [hstage], by simp [hclosed]⟩

/--
All show the new player, which shows all.
-/
theorem listed_announce (me : κ) (pls : List κ) (st : PlayerList κ) (p q : κ)
    : (announce me pls st).listed p q = true
        ↔
      st.listed p q = true
        ∨ (st.closed p = false ∧ ((p ∈ pls ∧ q = me) ∨ (p = me ∧ q ∈ pls))) := by
  induction pls generalizing st with
  | nil => simp [announce]
  | cons pl pls ih =>
    rw [announce, ih, listed_add, listed_add]
    simp only [send_closed, Bool.or_eq_true, Bool.and_eq_true, decide_eq_true_eq,
      Bool.not_eq_true', List.mem_cons]
    constructor
    . rintro (((h | ⟨⟨rfl, rfl⟩, hopen⟩) | ⟨⟨rfl, rfl⟩, hopen⟩) | ⟨hopen, h | h⟩)
      . exact .inl h
      . exact .inr ⟨hopen, .inl ⟨.inl rfl, rfl⟩⟩
      . exact .inr ⟨hopen, .inr ⟨rfl, .inl rfl⟩⟩
      . exact .inr ⟨hopen, .inl ⟨.inr h.1, h.2⟩⟩
      . exact .inr ⟨hopen, .inr ⟨h.1, .inr h.2⟩⟩
    . rintro (h | ⟨hopen, ⟨rfl | h, rfl⟩ | ⟨rfl, rfl | h⟩⟩)
      . exact .inl (.inl (.inl h))
      . exact .inl (.inl (.inr ⟨⟨rfl, rfl⟩, hopen⟩))
      . exact .inr ⟨hopen, .inl ⟨h, rfl⟩⟩
      . exact .inl (.inr ⟨⟨rfl, rfl⟩, hopen⟩)
      . exact .inr ⟨hopen, .inr ⟨rfl, h⟩⟩

/--
Nobody shows the player any more.
-/
theorem listed_withdraw (me : κ) (pls : List κ) (st : PlayerList κ) (p q : κ)
    : (withdraw me pls st).listed p q = true
        ↔
      st.listed p q = true ∧ ¬ (st.closed p = false ∧ p ∈ pls ∧ q = me) := by
  induction pls generalizing st with
  | nil => simp [withdraw]
  | cons pl pls ih =>
    rw [withdraw, ih, listed_remove]
    simp only [send_closed, Bool.and_eq_true, Bool.not_eq_true', Bool.and_eq_false_iff,
      decide_eq_false_iff_not, Bool.not_eq_false', List.mem_cons]
    cases hclosed : st.closed p
    . simp only [Bool.false_eq_true, or_false, true_and]
      constructor
      . rintro ⟨⟨hlisted, hfirst⟩, hrest⟩
        refine ⟨hlisted, ?_⟩
        rintro ⟨rfl | hmem, rfl⟩
        . exact hfirst ⟨rfl, rfl⟩
        . exact hrest ⟨hmem, rfl⟩
      . rintro ⟨hlisted, hnot⟩
        refine ⟨⟨hlisted, ?_⟩, ?_⟩
        . rintro ⟨rfl, rfl⟩
          exact hnot ⟨.inl rfl, rfl⟩
        . rintro ⟨hmem, rfl⟩
          exact hnot ⟨.inr hmem, rfl⟩
    . simp

end Loops

/--
A player in the world whose client still gets packets.
-/
structure Sees (st : PlayerList κ) (p : κ) : Prop where
  spawned : st.stage p = .spawned
  opened : st.closed p = false

/--
The clients show everybody who has spawned, and nobody who has left.
-/
def Right (st : PlayerList κ) : Prop :=
  ∀ p q, st.Sees p →
    (st.stage q = .spawned → st.listed p q = true)
      ∧ (st.listed p q = true → st.stage q = .joined ∨ st.stage q = .spawned)

/--
The steps that do no harm: nobody spawns while another player is between `despawn` and
`remove_player`, and nobody leaves who has not spawned.
-/
def Orderly : Except Fault (PlayerList κ) → Label κ → Prop
  | .ok st, .spawn pl => st.closed pl = true ∨ ∀ q, st.stage q ≠ .despawned
  | .ok st, .despawn pl => st.stage pl ≠ .joined
  | _, _ => True

/--
Holds as long as all steps are orderly.
-/
structure Kept (st : PlayerList κ) : Prop where
  mem : ∀ q, q ∈ st.pls ↔
    st.stage q = .joined ∨ st.stage q = .spawned ∨ st.stage q = .despawned
  fresh : ∀ p q, st.stage p = .new → st.listed p q = false
  shown : ∀ p q, st.Sees p → st.stage q = .spawned → st.listed p q = true
  there : ∀ p q, st.stage p = .joined ∨ st.stage p = .spawned → st.closed p = false →
    st.listed p q = true → st.stage q = .joined ∨ st.stage q = .spawned

theorem kept_init : Kept (init : PlayerList κ) where
  mem := by simp [init]
  fresh := fun _ _ _ => rfl
  shown := fun _ _ h _ => by cases h.spawned
  there := fun _ _ h _ _ => by rcases h with h | h <;> cases h

theorem Kept.right {st : PlayerList κ} (h : Kept st) : st.Right :=
  fun p q hsees => ⟨h.shown p q hsees, h.there p q (.inr hsees.spawned) hsees.opened⟩

section Steps

variable {st : PlayerList κ} {pl : κ}

theorem setStage_stage (st : PlayerList κ) (pl : κ) (stage : Stage) (q : κ)
    : (st.setStage pl stage).stage q = if q = pl then stage else st.stage q := by
  simp only [setStage, Function.update_apply]

theorem Kept.join (h : Kept st) (hnew : st.stage pl = .new)
    : Kept ({ st with pls := st.pls ++ [pl] }.setStage pl .joined) := by
  have hstage := setStage_stage { st with pls := st.pls ++ [pl] } pl .joined
  have hother : ∀ q, q ≠ pl → ({ st with pls := st.pls ++ [pl] }.setStage pl .joined).stage q
      = st.stage q := fun q hq => (hstage q).trans (if_neg hq)
  have hself : ({ st with pls := st.pls ++ [pl] }.setStage pl .joined).stage pl = .joined :=
    (hstage pl).trans (if_pos rfl)
  constructor
  . intro q
    by_cases hq : q = pl
    . subst hq
      simp [setStage]
    . rw [hother q hq]
      simpa [setStage, hq] using h.mem q
  . intro p q hp
    by_cases hpl : p = pl
    . subst hpl
      rw [hself] at hp
      cases hp
    . rw [hother p hpl] at hp
      exact h.fresh p q hp
  . intro p q hsees hq
    have hp : p ≠ pl := by
      rintro rfl
      have := hsees.spawned
      rw [hself] at this
      cases this
    have hq' : q ≠ pl := by
      rintro rfl
      rw [hself] at hq
      cases hq
    rw [hother q hq'] at hq
    exact h.shown p q ⟨(hother p hp).symm.trans hsees.spawned, hsees.opened⟩ hq
  . intro p q hp hopen hlisted
    by_cases hpl : p = pl
    . subst hpl
      have hsame : st.listed p q = true := hlisted
      rw [h.fresh p q hnew] at hsame
      cases hsame
    . rw [hother p hpl] at hp
      have := h.there p q hp hopen hlisted
      by_cases hq : q = pl
      . subst hq
        exact .inl hself
      . rw [hother q hq]
        exact this

theorem Kept.spawn (h : Kept st) (hjoined : st.stage pl = .joined)
    (hquiet : st.closed pl = true ∨ ∀ q, st.stage q ≠ .despawned)
    : Kept ((announce pl st.pls st).setStage pl .spawned) := by
  obtain ⟨hpls, hstages, hclosed⟩ := announce_frame pl st.pls st
  have hself : ((announce pl st.pls st).setStage pl .spawned).stage pl = .spawned := by
    simp [setStage]
  have hother : ∀ q, q ≠ pl → ((announce pl st.pls st).setStage pl .spawned).stage q = st.stage q := by
    intro q hq
    rw [setStage_stage, if_neg hq, hstages]
  have hlisted : ∀ p q, ((announce pl st.pls st).setStage pl .spawned).listed p q = true ↔
      st.listed p q = true
        ∨ (st.closed p = false ∧ ((p ∈ st.pls ∧ q = pl) ∨ (p = pl ∧ q ∈ st.pls))) :=
    fun p q => listed_announce pl st.pls st p q
  have hclosed' : ∀ p, ((announce pl st.pls st).setStage pl .spawned).closed p = st.closed p :=
    fun p => congrFun hclosed p
  constructor
  . intro q
    rw [show ((announce pl st.pls st).setStage pl .spawned).pls = st.pls from hpls, h.mem q]
    by_cases hq : q = pl
    . subst hq
      simp [hself, hjoined]
    . rw [hother q hq]
  . intro p q hp
    by_cases hpl : p = pl
    . subst hpl
      rw [hself] at hp
      cases hp
    . rw [hother p hpl] at hp
      have hnot : p ∉ st.pls := by
        rw [h.mem p, hp]
        simp
      rw [Bool.eq_false_iff, ne_eq, hlisted, h.fresh p q hp]
      simp [hnot, hpl]
  . intro p q hsees hq
    rw [hlisted]
    have hopen : st.closed p = false := (hclosed' p).symm.trans hsees.opened
    by_cases hpl : p = pl
    . subst hpl
      refine .inr ⟨hopen, .inr ⟨rfl, ?_⟩⟩
      rw [h.mem q]
      by_cases hqp : q = p
      . subst hqp
        exact .inl hjoined
      . rw [hother q hqp] at hq
        exact .inr (.inl hq)
    . have hp := (hother p hpl).symm.trans hsees.spawned
      by_cases hqp : q = pl
      . subst hqp
        exact .inr ⟨hopen, .inl ⟨(h.mem p).mpr (.inr (.inl hp)), rfl⟩⟩
      . rw [hother q hqp] at hq
        exact .inl (h.shown p q ⟨hp, hopen⟩ hq)
  . intro p q hp hopen hq
    rw [hclosed'] at hopen
    have hp' : st.stage p = .joined ∨ st.stage p = .spawned := by
      by_cases hpl : p = pl
      . subst hpl
        exact .inl hjoined
      . rwa [hother p hpl] at hp
    by_cases hqp : q = pl
    . subst hqp
      exact .inr hself
    . rw [hother q hqp]
      rcases (hlisted p q).mp hq with hbefore | ⟨_, ⟨_, heq⟩ | ⟨rfl, hmem⟩⟩
      . exact h.there p q hp' hopen hbefore
      . exact absurd heq hqp
      . rcases (h.mem q).mp hmem with hq | hq | hq
        . exact .inl hq
        . exact .inr hq
        . rcases hquiet with hquiet | hquiet
          . rw [hopen] at hquiet
            cases hquiet
          . exact absurd hq (hquiet q)

theorem Kept.despawn (h : Kept st) (hspawned : st.stage pl = .spawned)
    : Kept ((withdraw pl st.pls st).setStage pl .despawned) := by
  obtain ⟨hpls, hstages, hclosed⟩ := withdraw_frame pl st.pls st
  have hself : ((withdraw pl st.pls st).setStage pl .despawned).stage pl = .despawned := by
    simp [setStage]
  have hother : ∀ q, q ≠ pl →
      ((withdraw pl st.pls st).setStage pl .despawned).stage q = st.stage q := by
    intro q hq
    rw [setStage_stage, if_neg hq, hstages]
  have hlisted : ∀ p q, ((withdraw pl st.pls st).setStage pl .despawned).listed p q = true ↔
      st.listed p q = true ∧ ¬ (st.closed p = false ∧ p ∈ st.pls ∧ q = pl) :=
    fun p q => listed_withdraw pl st.pls st p q
  have hclosed' : ∀ p, ((withdraw pl st.pls st).setStage pl .despawned).closed p = st.closed p :=
    fun p => congrFun hclosed p
  -- whoever is looked at has not just left
  have hstay : ∀ p, ((withdraw pl st.pls st).setStage pl .despawned).stage p = .joined
      ∨ ((withdraw pl st.pls st).setStage pl .despawned).stage p = .spawned →
        p ≠ pl ∧ (st.stage p = .joined ∨ st.stage p = .spawned) := by
    intro p hp
    have hne : p ≠ pl := by
      rintro rfl
      rw [hself] at hp
      simp at hp
    exact ⟨hne, by rwa [hother p hne] at hp⟩
  constructor
  . intro q
    rw [show ((withdraw pl st.pls st).setStage pl .despawned).pls = st.pls from hpls, h.mem q]
    by_cases hq : q = pl
    . subst hq
      simp [hself, hspawned]
    . rw [hother q hq]
  . intro p q hp
    have hne : p ≠ pl := by
      rintro rfl
      rw [hself] at hp
      cases hp
    rw [hother p hne] at hp
    rw [Bool.eq_false_iff, ne_eq, hlisted, h.fresh p q hp]
    simp
  . intro p q hsees hq
    obtain ⟨hne, _⟩ := hstay p (.inr hsees.spawned)
    obtain ⟨hneq, _⟩ := hstay q (.inr hq)
    rw [hlisted]
    refine ⟨h.shown p q ⟨(hother p hne).symm.trans hsees.spawned, hsees.opened ▸ (hclosed' p).symm⟩
      ((hother q hneq).symm.trans hq), ?_⟩
    rintro ⟨_, _, heq⟩
    exact hneq heq
  . intro p q hp hopen hq
    obtain ⟨hne, hp'⟩ := hstay p hp
    rw [hclosed'] at hopen
    obtain ⟨hq, hnot⟩ := (hlisted p q).mp hq
    have hneq : q ≠ pl := by
      rintro rfl
      exact hnot ⟨hopen, (h.mem p).mpr (hp'.imp_right .inl), rfl⟩
    rw [hother q hneq]
    exact h.there p q hp' hopen hq

theorem Kept.remove (h : Kept st) (hdespawned : st.stage pl = .despawned)
    : Kept ({ st with pls := st.pls.filter (· ≠ pl) }.setStage pl .removed) := by
  have hself : ({ st with pls := st.pls.filter (· ≠ pl) }.setStage pl .removed).stage pl = .removed := by
    simp [setStage]
  have hother : ∀ q, q ≠ pl →
      ({ st with pls := st.pls.filter (· ≠ pl) }.setStage pl .removed).stage q = st.stage q := by
    intro q hq
    rw [setStage_stage, if_neg hq]
  have hstay : ∀ p stage, stage ≠ .removed →
      ({ st with pls := st.pls.filter (· ≠ pl) }.setStage pl .removed).stage p = stage →
        st.stage p = stage := by
    intro p stage hstage hp
    by_cases hne : p = pl
    . subst hne
      exact absurd (hself.symm.trans hp).symm hstage
    . rwa [hother p hne] at hp
  constructor
  . intro q
    by_cases hq : q = pl
    . subst hq
      simp [setStage]
    . rw [hother q hq]
      simpa [setStage, hq] using h.mem q
  . exact fun p q hp => h.fresh p q (hstay p _ (by simp) hp)
  . exact fun p q hsees hq =>
      h.shown p q ⟨hstay p _ (by simp) hsees.spawned, hsees.opened⟩ (hstay q _ (by simp) hq)
  . intro p q hp hopen hlisted
    have hq := h.there p q
      (hp.imp (hstay p _ (by simp)) (hstay p _ (by simp))) hopen hlisted
    have hne : q ≠ pl := by
      rintro rfl
      rw [hdespawned] at hq
      simp at hq
    rwa [hother q hne]

theorem Kept.close (h : Kept st) (pl : κ)
    : Kept { st with closed := Function.update st.closed pl true } := by
  have hopen : ∀ p, Function.update st.closed pl true p = false → st.closed p = false := by
    intro p hp
    by_cases hne : p = pl
    . subst hne
      simp at hp
    . rwa [Function.update_of_ne hne] at hp
  exact ⟨h.mem, h.fresh, fun p q hsees => h.shown p q ⟨hsees.spawned, hopen p hsees.opened⟩,
    fun p q hp hclosed => h.there p q hp (hopen p hclosed)⟩

theorem Kept.act (h : Kept st) {l : Label κ} (horderly : Orderly (.ok st) l)
    {res : Except Fault (PlayerList κ)} (hact : st.act l = some res)
    : ∃ st', res = .ok st' ∧ Kept st' := by
  cases l with
  | join pl =>
    simp only [PlayerList.act] at hact
    split at hact
    . next hnew =>
      cases hact
      exact ⟨_, rfl, h.join hnew⟩
    . cases hact
  | spawn pl =>
    simp only [PlayerList.act] at hact
    split at hact
    . next hjoined =>
      cases hact
      exact ⟨_, rfl, h.spawn hjoined horderly⟩
    . cases hact
  | despawn pl =>
    simp only [PlayerList.act] at hact
    split at hact
    . next hjoined => exact absurd hjoined horderly
    . next hspawned =>
      cases hact
      exact ⟨_, rfl, h.despawn hspawned⟩
    . cases hact
  | remove pl =>
    simp only [PlayerList.act] at hact
    split at hact
    . next hdespawned =>
      cases hact
      exact ⟨_, rfl, h.remove hdespawned⟩
    . cases hact
  | close pl =>
    cases hact
    exact ⟨_, rfl, h.close pl⟩

/--
A player who spawns while another one is on the way out shows it from then on.
-/
theorem Kept.not_right (h : Kept st) {l : Label κ} (hdisorderly : ¬ Orderly (.ok st) l)
    {res : Except Fault (PlayerList κ)} (hact : st.act l = some res)
    : ¬ ∃ st', res = .ok st' ∧ Right st' := by
  cases l with
  | spawn pl =>
    simp only [Orderly, not_or, not_forall, not_not] at hdisorderly
    obtain ⟨hopen, q, hq⟩ := hdisorderly
    rw [Bool.not_eq_true] at hopen
    simp only [PlayerList.act] at hact
    split at hact
    . next hjoined =>
      cases hact
      obtain ⟨_, hstages, hclosed⟩ := announce_frame pl st.pls st
      rintro ⟨st', heq, hright⟩
      cases heq
      have hsees : ((announce pl st.pls st).setStage pl .spawned).Sees pl :=
        ⟨by simp [setStage], (congrFun hclosed pl).trans hopen⟩
      have hlisted := (listed_announce pl st.pls st pl q).mpr
        (.inr ⟨hopen, .inr ⟨rfl, (h.mem q).mpr (.inr (.inr hq))⟩⟩)
      have hne : q ≠ pl := by
        rintro rfl
        rw [hjoined] at hq
        cases hq
      have := (hright pl q hsees).2 hlisted
      rw [setStage_stage, if_neg hne, hstages, hq] at this
      simp at this
    . cases hact
  | despawn pl =>
    have hjoined : st.stage pl = .joined := by
      by_contra hne
      exact hdisorderly hne
    simp only [PlayerList.act, hjoined] at hact
    cases hact
    rintro ⟨st', heq, _⟩
    cases heq
  | join _ => exact absurd trivial hdisorderly
  | remove _ => exact absurd trivial hdisorderly
  | close _ => exact absurd trivial hdisorderly

end Steps

end PlayerList

end HCraft
