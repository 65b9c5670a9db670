import HCraft.Lib.Transition
import HCraft.System.Server.Broadcast
import Mathlib.Data.List.Nodup

/-!
This module contains the order in which players are sent the chat.
-/

namespace HCraft

namespace Broadcast

open Transition

variable {κ : Type} [DecidableEq κ] {username : κ → Bytes} {st st' : Broadcast κ} {pl : κ}

def Packet.text : Packet → Option Bytes
  | .chat msg => some msg
  | _ => none

/--
The chat among the packets of a connection.
-/
def chats (sent : List (Bool × Packet)) : List Bytes :=
  sent.filterMap (fun p => p.2.text)

/--
The chat message that a step begins to send.
-/
def begun (username : κ → Bytes) (st : Broadcast κ) : Label κ → Option Bytes
  | .chat me msg => onChat username st me msg
  | _ => none

section Send

theorem send_of_closed (h : st.closed pl = true) (packet : Packet) : st.send pl packet = st := by
  rw [send, if_pos h]

theorem send_of_open (h : st.closed pl = false) (packet : Packet)
    : st.send pl packet
        =
      { st with
        sent := Function.update st.sent pl
          (st.sent pl ++ [(decide (st.stage pl = .compressing), packet)]) } := by
  rw [send, if_neg (by simp [h])]

@[simp]
theorem send_players (p : κ) (packet : Packet) : (st.send p packet).players = st.players := by
  unfold send
  split <;> rfl

@[simp]
theorem send_stage (p : κ) (packet : Packet) : (st.send p packet).stage = st.stage := by
  unfold send
  split <;> rfl

@[simp]
theorem send_closed (p : κ) (packet : Packet) : (st.send p packet).closed = st.closed := by
  unfold send
  split <;> rfl

@[simp]
theorem send_sending (p : κ) (packet : Packet) : (st.send p packet).sending = st.sending := by
  unfold send
  split <;> rfl

theorem send_sent_of_ne {p : κ} (hne : pl ≠ p) (packet : Packet)
    : (st.send p packet).sent pl = st.sent pl := by
  unfold send
  split
  . rfl
  . exact Function.update_of_ne hne _ _

theorem chats_send_of_none {p : κ} {packet : Packet} (h : packet.text = none)
    : chats ((st.send p packet).sent pl) = chats (st.sent pl) := by
  unfold send
  split
  . rfl
  . by_cases hp : pl = p
    . subst hp
      simp [chats, h]
    . simp [Function.update_of_ne hp]

theorem chats_send_chat (h : st.closed pl = false) (msg : Bytes)
    : chats ((st.send pl (.chat msg)).sent pl) = chats (st.sent pl) ++ [msg] := by
  rw [send_of_open h]
  simp [chats, Packet.text]

end Send

section Deliver

@[simp]
theorem deliver_players (p : κ) (rnd : Int) (round : Round)
    : (st.deliver p rnd round).players = st.players := by
  cases round with
  | chat msg => exact send_players p _
  | keepAlive =>
    simp only [deliver, sendKeepAlive]
    split
    . rfl
    . exact send_players p _

@[simp]
theorem deliver_stage (p : κ) (rnd : Int) (round : Round)
    : (st.deliver p rnd round).stage = st.stage := by
  cases round with
  | chat msg => exact send_stage p _
  | keepAlive =>
    simp only [deliver, sendKeepAlive]
    split
    . rfl
    . exact send_stage p _

theorem deliver_of_ne {p : κ} (hne : pl ≠ p) (rnd : Int) (round : Round)
    : (st.deliver p rnd round).sent pl = st.sent pl
        ∧ (st.deliver p rnd round).closed pl = st.closed pl := by
  cases round with
  | chat msg => exact ⟨send_sent_of_ne hne _, by rw [deliver, send_closed]⟩
  | keepAlive =>
    simp only [deliver, sendKeepAlive]
    split
    . exact ⟨rfl, Function.update_of_ne hne _ _⟩
    . exact ⟨send_sent_of_ne hne _, by rw [send_closed]⟩

theorem closed_deliver (p : κ) (rnd : Int) (round : Round) (h : st.closed pl = true)
    : (st.deliver p rnd round).closed pl = true := by
  cases round with
  | chat msg => rwa [deliver, send_closed]
  | keepAlive =>
    simp only [deliver, sendKeepAlive]
    split
    . by_cases hp : pl = p
      . simp [close, hp]
      . simpa [close, Function.update_of_ne hp] using h
    . rwa [send_closed]

theorem chats_deliver_keepAlive (p : κ) (rnd : Int)
    : chats ((st.deliver p rnd .keepAlive).sent pl) = chats (st.sent pl) := by
  simp only [deliver, sendKeepAlive]
  split
  . rfl
  . exact chats_send_of_none rfl

theorem deliver_of_closed (h : st.closed pl = true) (rnd : Int) (round : Round)
    : (st.deliver pl rnd round).sent pl = st.sent pl := by
  cases round with
  | chat msg => rw [deliver, send_of_closed h]
  | keepAlive =>
    simp only [deliver, sendKeepAlive]
    split
    . rfl
    . rw [send_of_closed h]

end Deliver

section Moves

/--
What a step can do.
-/
inductive Moves (username : κ → Bytes) (st : Broadcast κ) : Label κ → Broadcast κ → Prop where
  | register {pl : κ} (hidle : st.sending = none) (hnew : st.stage pl = .new)
    : Moves username st (.register pl)
        ({ st with players := st.players ++ [pl] }.setStage pl .registered)
  | greet {pl : κ} (hstage : st.stage pl = .registered)
    : Moves username st (.login pl) ((st.send pl .loginSuccess).setStage pl .greeted)
  | join {pl : κ} (hstage : st.stage pl = .greeted)
    : Moves username st (.login pl) ((st.send pl .joinGame).setStage pl .inGame)
  | tell {pl : κ} (hstage : st.stage pl = .inGame)
    : Moves username st (.login pl) ((st.send pl .setCompression).setStage pl .told)
  | compress {pl : κ} (hstage : st.stage pl = .told)
    : Moves username st (.login pl) (st.setStage pl .compressing)
  | spawn {pl : κ} (spawned : κ → Bool)
    : Moves username st (.spawn pl) { st with spawned := spawned }
  | other {pl : κ} (hstage : st.stage pl = .compressing)
    : Moves username st (.other pl) (st.send pl .other)
  | ignore {me : κ} {msg : Bytes} (hnone : onChat username st me msg = none)
    : Moves username st (.chat me msg) st
  | chat {me : κ} {msg text : Bytes} (hsome : onChat username st me msg = some text)
      (hidle : st.sending = none)
    : Moves username st (.chat me msg) { st with sending := some (.chat text, st.players) }
  | keepAlive (hidle : st.sending = none)
    : Moves username st .keepAlive { st with sending := some (.keepAlive, st.players) }
  | finish {rnd : Int} {round : Round} (hsending : st.sending = some (round, []))
    : Moves username st (.visit rnd) { st with sending := none }
  | visit {rnd : Int} {round : Round} {pl : κ} {pls : List κ}
      (hsending : st.sending = some (round, pl :: pls))
    : Moves username st (.visit rnd)
        { st.deliver pl rnd round with sending := some (round, pls) }
  | answer {pl : κ} {id : Int} (kaId : κ → Option Int)
    : Moves username st (.answer pl id) { st with kaId := kaId }
  | close {pl : κ} : Moves username st (.close pl) (st.close pl)
  | deregister {pl : κ} (hidle : st.sending = none)
    : Moves username st (.deregister pl) { st with players := st.players.filter (· ≠ pl) }

theorem moves_of_step {l : Label κ} (hstep : step username st l = some st')
    : Moves username st l st' := by
  cases l with
  | register pl =>
    simp only [step] at hstep
    split at hstep
    . next h =>
      cases hstep
      exact .register h.1 h.2
    . cases hstep
  | login pl =>
    simp only [step] at hstep
    split at hstep
    . next h => cases hstep; exact .greet h
    . next h => cases hstep; exact .join h
    . next h => cases hstep; exact .tell h
    . next h => cases hstep; exact .compress h
    . cases hstep
  | spawn pl =>
    simp only [step] at hstep
    split at hstep
    . cases hstep
      exact .spawn _
    . cases hstep
  | other pl =>
    simp only [step] at hstep
    split at hstep
    . next h =>
      cases hstep
      exact .other h
    . cases hstep
  | chat me msg =>
    simp only [step] at hstep
    split at hstep
    . next h =>
      cases hstep
      exact .ignore h
    . next text h =>
      split at hstep
      . next hidle =>
        cases hstep
        exact .chat h hidle
      . cases hstep
  | keepAlive =>
    simp only [step] at hstep
    split at hstep
    . next h =>
      cases hstep
      exact .keepAlive h
    . cases hstep
  | visit rnd =>
    simp only [step] at hstep
    split at hstep
    . cases hstep
    . next h =>
      cases hstep
      exact .finish h
    . next h =>
      cases hstep
      exact .visit h
  | answer pl id =>
    simp only [step] at hstep
    cases hstep
    split
    . exact .answer _
    . exact .answer st.kaId
  | close pl =>
    cases hstep
    exact .close
  | deregister pl =>
    simp only [step] at hstep
    split at hstep
    . next h =>
      cases hstep
      exact .deregister h
    . cases hstep

end Moves

section Sound

/--
The loop goes through players of the list, which nobody changes meanwhile.
-/
structure Sound (st : Broadcast κ) : Prop where
  nodup : st.players.Nodup
  listed : ∀ pl ∈ st.players, st.stage pl ≠ .new
  pending : ∀ round pls, st.sending = some (round, pls) → pls <:+ st.players
  silent : ∀ pl, st.stage pl = .new → st.sent pl = []

omit [DecidableEq κ] in
theorem sound_init : Sound (init : Broadcast κ) where
  nodup := List.nodup_nil
  listed := by simp [init]
  pending := by simp [init]
  silent := fun _ _ => rfl

theorem setStage_of_ne {p : κ} (hne : pl ≠ p) (stage : Stage)
    : (st.setStage p stage).stage pl = st.stage pl :=
  Function.update_of_ne hne _ _

theorem setStage_self (stage : Stage) : (st.setStage pl stage).stage pl = stage :=
  Function.update_self ..

/--
A player that has been registered is sent something.
-/
theorem Sound.send (h : Sound st) (hstage : st.stage pl ≠ .new) (packet : Packet)
    : Sound (st.send pl packet) where
  nodup := by simpa using h.nodup
  listed := by simpa using h.listed
  pending := by simpa using h.pending
  silent := by
    intro p hp
    rw [send_stage] at hp
    have hne : p ≠ pl := fun heq => hstage (heq ▸ hp)
    rw [send_sent_of_ne hne, h.silent p hp]

theorem Sound.setStage (h : Sound st) (hstage : st.stage pl ≠ .new) {stage : Stage}
    (hnew : stage ≠ .new) : Sound (st.setStage pl stage) where
  nodup := h.nodup
  listed := by
    intro p hp
    by_cases hne : p = pl
    . rwa [hne, setStage_self]
    . rw [setStage_of_ne hne]
      exact h.listed p hp
  pending := h.pending
  silent := by
    intro p hp
    have hne : p ≠ pl := by
      rintro rfl
      rw [setStage_self] at hp
      exact hnew hp
    rw [setStage_of_ne hne] at hp
    exact h.silent p hp

theorem Sound.deliver (h : Sound st) (hstage : st.stage pl ≠ .new) (rnd : Int) (round : Round)
    {pls : List κ} (hpls : pls <:+ st.players)
    : Sound { st.deliver pl rnd round with sending := some (round, pls) } where
  nodup := by simpa using h.nodup
  listed := by simpa using h.listed
  pending := by
    intro round' pls' heq
    cases heq
    simpa using hpls
  silent := by
    intro p hp
    simp only [deliver_stage] at hp
    have hne : p ≠ pl := fun heq => hstage (heq ▸ hp)
    simpa only [(deliver_of_ne hne rnd round).1] using h.silent p hp

theorem Sound.register (h : Sound st) (hidle : st.sending = none) (hnew : st.stage pl = .new)
    : Sound ({ st with players := st.players ++ [pl] }.setStage pl .registered) where
  nodup := by
    apply List.nodup_append.mpr
    refine ⟨h.nodup, List.nodup_singleton pl, ?_⟩
    intro p hp q hq heq
    rw [List.mem_singleton.mp hq] at heq
    exact h.listed p hp (heq ▸ hnew)
  listed := by
    intro p hp
    by_cases hne : p = pl
    . rw [hne, setStage_self]
      simp
    . rw [setStage_of_ne hne]
      exact h.listed p (by simpa [Broadcast.setStage, hne] using hp)
  pending := by
    intro round pls hsending
    simp [Broadcast.setStage, hidle] at hsending
  silent := by
    intro p hp
    have hne : p ≠ pl := by
      rintro rfl
      rw [setStage_self] at hp
      cases hp
    rw [setStage_of_ne hne] at hp
    exact h.silent p hp

theorem Sound.step {l : Label κ} (h : Sound st) (hstep : Broadcast.step username st l = some st')
    : Sound st' := by
  cases moves_of_step hstep with
  | register hidle hnew => exact h.register hidle hnew
  | greet hstage =>
    exact (h.send (by simp [hstage]) _).setStage (by simp [hstage]) (by simp)
  | join hstage =>
    exact (h.send (by simp [hstage]) _).setStage (by simp [hstage]) (by simp)
  | tell hstage =>
    exact (h.send (by simp [hstage]) _).setStage (by simp [hstage]) (by simp)
  | compress hstage => exact h.setStage (by simp [hstage]) (by simp)
  | spawn spawned => exact ⟨h.nodup, h.listed, h.pending, h.silent⟩
  | other hstage => exact h.send (by simp [hstage]) _
  | ignore _ => exact h
  | chat _ _ =>
    refine ⟨h.nodup, h.listed, ?_, h.silent⟩
    rintro round pls ⟨⟩
    exact List.suffix_refl _
  | keepAlive _ =>
    refine ⟨h.nodup, h.listed, ?_, h.silent⟩
    rintro round pls ⟨⟩
    exact List.suffix_refl _
  | finish _ => exact ⟨h.nodup, h.listed, by simp, h.silent⟩
  | @visit rnd round pl pls hsending =>
    have hpls := h.pending _ _ hsending
    exact h.deliver (h.listed pl (hpls.subset List.mem_cons_self)) rnd round
      ((List.suffix_cons pl pls).trans hpls)
  | answer kaId => exact ⟨h.nodup, h.listed, h.pending, h.silent⟩
  | close => exact ⟨h.nodup, h.listed, h.pending, h.silent⟩
  | deregister hidle =>
    refine ⟨h.nodup.filter _, fun p hp => h.listed p (List.mem_of_mem_filter hp), ?_, h.silent⟩
    intro round pls hsending
    simp [hidle] at hsending

end Sound

section Received

/--
What a player has of the messages that were begun since it was registered. It gets no more of them
once its connection is closed or it is not in the list.
-/
inductive Received (st : Broadcast κ) (pl : κ) (msgs : List Bytes) : Prop where
  | all (hsent : chats (st.sent pl) = msgs)
      (hidle : ∀ msg pls, st.sending = some (.chat msg, pls) → pl ∉ pls)
  | due {msg : Bytes} {pls : List κ} (hsending : st.sending = some (.chat msg, pls))
      (hmem : pl ∈ pls) (hsent : chats (st.sent pl) ++ [msg] = msgs)
  | gone (hgone : st.closed pl = true ∨ pl ∉ st.players) (hsent : chats (st.sent pl) <+: msgs)

variable {msgs : List Bytes}

omit [DecidableEq κ] in
theorem Received.isPrefix (h : Received st pl msgs) : chats (st.sent pl) <+: msgs := by
  cases h with
  | all hsent _ => exact hsent ▸ List.prefix_refl _
  | due _ _ hsent => exact ⟨_, hsent⟩
  | gone _ hsent => exact hsent

omit [DecidableEq κ] in
theorem Received.eq_of_idle (h : Received st pl msgs) (hlisted : pl ∈ st.players)
    (hopen : st.closed pl = false) (hidle : st.sending = none) : chats (st.sent pl) = msgs := by
  cases h with
  | all hsent _ => exact hsent
  | due hsending _ _ =>
    rw [hidle] at hsending
    cases hsending
  | gone hgone _ =>
    cases hgone with
    | inl hclosed =>
      rw [hopen] at hclosed
      cases hclosed
    | inr hnot => exact absurd hlisted hnot

omit [DecidableEq κ] in
/--
A step that is not about the chat, the list or the connection.
-/
theorem Received.congr (h : Received st pl msgs)
    (hchats : chats (st'.sent pl) = chats (st.sent pl)) (hclosed : st'.closed pl = st.closed pl)
    (hplayers : st'.players = st.players) (hsending : st'.sending = st.sending)
    : Received st' pl msgs := by
  cases h with
  | all hsent hidle =>
    refine .all (hchats.trans hsent) ?_
    rwa [hsending]
  | due hdue hmem hsent => exact .due (hsending.trans hdue) hmem (by rw [hchats, hsent])
  | gone hgone hsent =>
    rw [← hclosed, ← hplayers] at hgone
    exact .gone hgone (by rwa [hchats])

theorem Received.close (h : Received st pl msgs) (p : κ) : Received (st.close p) pl msgs := by
  cases h with
  | all hsent hidle => exact .all hsent hidle
  | due hdue hmem hsent => exact .due hdue hmem hsent
  | gone hgone hsent =>
    refine .gone ?_ hsent
    cases hgone with
    | inl hclosed =>
      left
      by_cases hp : pl = p
      . simp [Broadcast.close, hp]
      . simpa [Broadcast.close, Function.update_of_ne hp] using hclosed
    | inr hnot => exact .inr hnot

theorem Received.begin (h : Received st pl msgs) (hidle : st.sending = none) (msg : Bytes)
    : Received { st with sending := some (.chat msg, st.players) } pl (msgs ++ [msg]) := by
  cases h with
  | all hsent _ =>
    by_cases hmem : pl ∈ st.players
    . exact .due rfl hmem (by rw [hsent])
    . exact .gone (.inr hmem) ⟨[msg], by rw [hsent]⟩
  | due hdue _ _ =>
    rw [hidle] at hdue
    cases hdue
  | gone hgone hsent => exact .gone hgone (hsent.trans (List.prefix_append msgs [msg]))

/--
The player whose turn it is gets the message, unless its connection is closed.
-/
theorem Received.visit (hsound : Sound st) (h : Received st pl msgs) {p : κ} {pls : List κ}
    {round : Round} (hsending : st.sending = some (round, p :: pls)) (rnd : Int)
    : Received { st.deliver p rnd round with sending := some (round, pls) } pl msgs := by
  have hsuffix := hsound.pending _ _ hsending
  have hnodup : (p :: pls).Nodup := hsuffix.sublist.nodup hsound.nodup
  cases h with
  | all hsent hidle =>
    cases round with
    | chat msg =>
      have hnot := hidle _ _ hsending
      have hne : pl ≠ p := fun heq => hnot (heq ▸ List.mem_cons_self)
      refine .all ?_ ?_
      . dsimp only
        rw [(deliver_of_ne hne rnd _).1, hsent]
      . rintro msg' pls' ⟨⟩ hmem
        exact hnot (List.mem_cons_of_mem p hmem)
    | keepAlive =>
      refine .all ((chats_deliver_keepAlive p rnd).trans hsent) ?_
      rintro msg' pls' ⟨⟩
  | @due msg _ hdue hmem hsent =>
    rw [hsending] at hdue
    cases hdue
    by_cases hp : pl = p
    . subst hp
      cases hclosed : st.closed pl with
      | true =>
        refine .gone (.inl (closed_deliver pl rnd _ hclosed)) ?_
        dsimp only
        rw [deliver_of_closed hclosed]
        exact ⟨[msg], hsent⟩
      | false =>
        refine .all ((chats_send_chat hclosed msg).trans hsent) ?_
        rintro msg' pls' ⟨⟩
        exact (List.nodup_cons.mp hnodup).1
    . refine .due rfl (List.mem_of_ne_of_mem hp hmem) ?_
      dsimp only
      rw [(deliver_of_ne hp rnd _).1, hsent]
  | gone hgone hsent =>
    cases hgone with
    | inl hclosed =>
      refine .gone (.inl (closed_deliver p rnd round hclosed)) ?_
      dsimp only
      by_cases hp : pl = p
      . subst hp
        rwa [deliver_of_closed hclosed]
      . rwa [(deliver_of_ne hp rnd round).1]
    | inr hnot =>
      have hne : pl ≠ p := fun heq => hnot (hsuffix.subset (heq ▸ List.mem_cons_self))
      refine .gone (.inr ?_) ?_
      . simpa using hnot
      . dsimp only
        rwa [(deliver_of_ne hne rnd round).1]

omit [DecidableEq κ] in
/--
A step that begins no message.
-/
theorem Received.of_none {l : Label κ} (hnone : begun username st l = none)
    (h : Received st' pl msgs) : Received st' pl (msgs ++ (begun username st l).toList) := by
  rw [hnone, Option.toList_none, List.append_nil]
  exact h

theorem Received.step {l : Label κ} (hsound : Sound st) (hstage : st.stage pl ≠ .new)
    (h : Received st pl msgs) (hstep : Broadcast.step username st l = some st')
    : Received st' pl (msgs ++ (begun username st l).toList) := by
  cases moves_of_step hstep with
  | @register p hidle hnew =>
    have hne : pl ≠ p := fun heq => hstage (heq ▸ hnew)
    apply Received.of_none rfl
    cases h with
    | all hsent hidle => exact .all hsent hidle
    | due hdue hmem hsent => exact .due hdue hmem hsent
    | gone hgone hsent =>
      refine .gone ?_ hsent
      simpa [Broadcast.setStage, hne] using hgone
  | greet _ | join _ | tell _ | other _ =>
    apply Received.of_none rfl
    apply h.congr
    . exact chats_send_of_none rfl
    . exact congrFun (send_closed _ _) pl
    . exact send_players _ _
    . exact send_sending _ _
  | compress _ =>
    apply Received.of_none rfl
    exact h.congr rfl rfl rfl rfl
  | spawn _ =>
    apply Received.of_none rfl
    exact h.congr rfl rfl rfl rfl
  | answer _ =>
    apply Received.of_none rfl
    exact h.congr rfl rfl rfl rfl
  | ignore hnone =>
    rw [begun, hnone, Option.toList_none, List.append_nil]
    exact h
  | chat hsome hidle =>
    rw [begun, hsome, Option.toList_some]
    exact h.begin hidle _
  | keepAlive hidle =>
    apply Received.of_none rfl
    cases h with
    | all hsent _ => exact .all hsent (by rintro msg pls ⟨⟩)
    | due hdue _ _ =>
      rw [hidle] at hdue
      cases hdue
    | gone hgone hsent => exact .gone hgone hsent
  | finish hsending =>
    apply Received.of_none rfl
    cases h with
    | all hsent _ => exact .all hsent (by rintro msg pls ⟨⟩)
    | due hdue hmem _ =>
      rw [hsending] at hdue
      cases hdue
      cases hmem
    | gone hgone hsent => exact .gone hgone hsent
  | visit hsending =>
    apply Received.of_none rfl
    exact h.visit hsound hsending _
  | close =>
    apply Received.of_none rfl
    exact h.close _
  | deregister hidle =>
    apply Received.of_none rfl
    cases h with
    | all hsent hnot => exact .all hsent hnot
    | due hdue hmem hsent => exact .due hdue hmem hsent
    | gone hgone hsent =>
      refine .gone ?_ hsent
      cases hgone with
      | inl hclosed => exact .inl hclosed
      | inr hnot => exact .inr (fun hmem => hnot (List.mem_of_mem_filter hmem))

theorem stage_ne_new {l : Label κ} (hstage : st.stage pl ≠ .new)
    (hstep : Broadcast.step username st l = some st') : st'.stage pl ≠ .new := by
  have hset : ∀ {s : Broadcast κ} {p : κ} {stage : Stage}, s.stage pl ≠ .new → stage ≠ .new →
      (s.setStage p stage).stage pl ≠ .new := by
    intro s p stage hs hne
    by_cases hp : pl = p
    . subst hp
      rwa [setStage_self]
    . rwa [setStage_of_ne hp]
  cases moves_of_step hstep with
  | register _ _ => exact hset hstage (by simp)
  | greet _ | join _ | tell _ => exact hset (by simpa using hstage) (by simp)
  | compress _ => exact hset hstage (by simp)
  | other _ => simpa using hstage
  | visit _ => simpa using hstage
  | _ => exact hstage

theorem Received.exec {ls : List (Label κ)} (hsound : Sound st) (hstage : st.stage pl ≠ .new)
    (h : Received st pl msgs) (hexec : Transition.exec (Broadcast.step username) st ls = some st')
    : Received st' pl (msgs ++ history (Broadcast.step username) (begun username) st ls) := by
  induction ls generalizing st msgs with
  | nil =>
    injection hexec with hexec
    rw [← hexec, history, List.append_nil]
    exact h
  | cons l ls ih =>
    obtain ⟨mid, hstep, hrest⟩ := exec_cons.mp hexec
    rw [history_cons hstep, ← List.append_assoc]
    exact ih (hsound.step hstep) (stage_ne_new hstage hstep) (h.step hsound hstage hstep) hrest

theorem sound_exec {ls : List (Label κ)} (hsound : Sound st)
    (hexec : Transition.exec (Broadcast.step username) st ls = some st') : Sound st' := by
  induction ls generalizing st with
  | nil =>
    injection hexec with hexec
    rwa [← hexec]
  | cons l ls ih =>
    obtain ⟨mid, hstep, hrest⟩ := exec_cons.mp hexec
    exact ih (hsound.step hstep) hrest

/--
Everybody sees the chat in one order, that of the mutex: a player is sent the messages begun since
it was registered from the first one on, and all of them as long as it is in the list and connected.
-/
theorem chats_since_register {before after : List (Label κ)} {mid : Broadcast κ}
    (hmid : exec (step username) init (before ++ [.register pl]) = some mid)
    (hexec : exec (step username) mid after = some st)
    : chats (st.sent pl) <+: history (step username) (begun username) mid after
        ∧ (pl ∈ st.players → st.closed pl = false → st.sending = none →
          chats (st.sent pl) = history (step username) (begun username) mid after) := by
  obtain ⟨new, hbefore, hlast⟩ := exec_append.mp hmid
  obtain ⟨_, hregister, hnil⟩ := exec_cons.mp hlast
  cases hnil
  have hnew := sound_exec sound_init hbefore
  have hsound := hnew.step hregister
  have hfirst : mid.stage pl ≠ .new ∧ Received mid pl [] := by
    cases moves_of_step hregister with
    | register hidle hstage =>
      refine ⟨by simp [setStage_self], .all ?_ ?_⟩
      . simp [Broadcast.setStage, hnew.silent pl hstage, chats]
      . intro msg pls hsending
        simp [Broadcast.setStage, hidle] at hsending
  have hreceived := hfirst.2.exec hsound hfirst.1 hexec
  rw [List.nil_append] at hreceived
  exact ⟨hreceived.isPrefix, hreceived.eq_of_idle⟩

/--
`true` is greeted and says something once `false` is registered.
-/
theorem chats_since_register_two
    : ∃ mid st : Broadcast Bool,
        exec (step fun _ => [66]) init
            ([.register true, .login true, .login true, .login true, .login true, .spawn true]
              ++ [.register false]) = some mid
          ∧ exec (step fun _ => [66]) mid [.chat true [104], .visit 0, .visit 0, .visit 0] = some st
          ∧ chats (st.sent false)
            = [[0xC2, 0xA7, 101, 0xC2, 0xA7, 101, 66, 0xC2, 0xA7, 102, 58, 32, 104]] := by
  refine ⟨_, _, rfl, rfl, ?_⟩
  have hall := (@chats_since_register Bool _ (fun _ => [66]) _ false
    [.register true, .login true, .login true, .login true, .login true, .spawn true]
    [.chat true [104], .visit 0, .visit 0, .visit 0] _ rfl rfl).2 (by decide) rfl rfl
  exact hall.trans rfl

end Received

end Broadcast

end HCraft
