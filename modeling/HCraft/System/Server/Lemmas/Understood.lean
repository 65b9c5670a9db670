import HCraft.System.Server.Lemmas.Chats

/-!
This module contains what the clients of players that are being greeted understand of what they are
sent.
-/

namespace HCraft

namespace Broadcast

open Transition

variable {κ : Type} [DecidableEq κ] {username : κ → Bytes} {st st' : Broadcast κ} {pl : κ}

/--
How a client takes the next packet: as one of the login or of the game, and as compressed or not.
`lost` is a client that has taken one for what it is not.
-/
inductive Client where
  | login
  | play (compressed : Bool)
  | lost
  deriving DecidableEq, Repr

def Client.next : Client → Bool × Packet → Client
  | .login, (compressed, packet) =>
    if compressed = false ∧ packet = .loginSuccess then .play false else .lost
  | .play expected, (compressed, packet) =>
    if compressed = expected then
      match packet with
      | .loginSuccess => .lost
      | .setCompression => .play true
      | _ => .play expected
    else
      .lost
  | .lost, _ => .lost

def Client.after (sent : List (Bool × Packet)) : Client :=
  sent.foldl next .login

/--
The client that has got what `uuid_get_success` has sent so far.
-/
def Stage.client : Stage → Client
  | .new | .registered => .login
  | .greeted | .inGame => .play false
  | .told | .compressing => .play true

/--
Packets of the game are for clients that have left the login, and that are not to expect a
compressed packet while the transformer is still off.
-/
def Stage.Ready (stage : Stage) : Prop :=
  stage ≠ .registered ∧ stage ≠ .told

/--
What is sent to all players gets to one that is not ready.
-/
def TooEarly (st : Broadcast κ) : Label κ → Prop
  | .visit _ =>
    match st.sending with
    | some (round, pl :: _) =>
      st.closed pl = false ∧ (round = .keepAlive → st.kaId pl = none) ∧ ¬ (st.stage pl).Ready
    | _ => False
  | _ => False

/--
A client understands what it is sent, and one that is connected stands where the server takes it to.
-/
structure Follows (st : Broadcast κ) (pl : κ) : Prop where
  understood : Client.after (st.sent pl) ≠ .lost
  open_eq : st.closed pl = false → Client.after (st.sent pl) = (st.stage pl).client

theorem after_append_singleton (sent : List (Bool × Packet)) (p : Bool × Packet)
    : Client.after (sent ++ [p]) = (Client.after sent).next p := by
  rw [Client.after, List.foldl_append]
  rfl

theorem after_send_of_open (h : Follows st pl) (hopen : st.closed pl = false) (packet : Packet)
    : Client.after ((st.send pl packet).sent pl)
        =
      (st.stage pl).client.next (decide (st.stage pl = .compressing), packet) := by
  rw [send_of_open hopen]
  dsimp only
  rw [Function.update_self, after_append_singleton, h.open_eq hopen]

/--
A packet that takes the client from where it stands to where `stage` has it.
-/
theorem Follows.send (h : Follows st pl) {packet : Packet} {stage : Stage}
    (hnext : (st.stage pl).client.next (decide (st.stage pl = .compressing), packet) = stage.client)
    (hstage : stage.client ≠ .lost)
    : Follows ((st.send pl packet).setStage pl stage) pl := by
  cases hclosed : st.closed pl with
  | true =>
    rw [send_of_closed hclosed]
    refine ⟨h.understood, ?_⟩
    intro hopen
    rw [show (st.setStage pl stage).closed = st.closed from rfl, hclosed] at hopen
    cases hopen
  | false =>
    have hafter := after_send_of_open h hclosed packet
    rw [hnext] at hafter
    constructor
    . exact fun hlost => hstage (hafter.symm.trans hlost)
    . intro _
      rw [setStage_self]
      exact hafter

theorem client_ne_lost (stage : Stage) : stage.client ≠ .lost := by
  cases stage <;> simp [Stage.client]

omit [DecidableEq κ] in
/--
A step that sends the player nothing and does not greet it.
-/
theorem Follows.congr (h : Follows st pl) (hsent : st'.sent pl = st.sent pl)
    (hclosed : st'.closed pl = false → st.closed pl = false) (hstage : st'.stage pl = st.stage pl)
    : Follows st' pl where
  understood := by
    rw [hsent]
    exact h.understood
  open_eq := by
    intro hopen
    rw [hsent, hstage]
    exact h.open_eq (hclosed hopen)

theorem Follows.login (hall : ∀ p, Follows st p) {p : κ} {packet : Packet} {stage : Stage}
    (hnext : (st.stage p).client.next (decide (st.stage p = .compressing), packet) = stage.client)
    : ∀ pl, Follows ((st.send p packet).setStage p stage) pl := by
  intro pl
  by_cases hp : pl = p
  . subst hp
    exact (hall pl).send hnext (client_ne_lost stage)
  . apply (hall pl).congr
    . exact send_sent_of_ne hp packet
    . exact fun hopen => (congrFun (send_closed p packet) pl).symm.trans hopen
    . rw [setStage_of_ne hp, send_stage]

/--
A packet of the game is taken as one by a client that is ready for it, and only by such a client.
-/
theorem next_of_ready {stage : Stage} (hnew : stage ≠ .new) {packet : Packet}
    (hpacket : packet = .other ∨ (∃ msg, packet = .chat msg) ∨ ∃ id, packet = .keepAlive id)
    : (stage.Ready →
          stage.client.next (decide (stage = .compressing), packet) = stage.client)
        ∧ (¬ stage.Ready →
          stage.client.next (decide (stage = .compressing), packet) = .lost) := by
  rcases hpacket with rfl | ⟨msg, rfl⟩ | ⟨id, rfl⟩ <;>
    cases stage <;> simp_all [Stage.Ready, Stage.client, Client.next]

def Round.packet (rnd : Int) : Round → Packet
  | .chat msg => .chat msg
  | .keepAlive => .keepAlive rnd

theorem deliver_eq_send {round : Round} (hka : round = .keepAlive → st.kaId pl = none) (rnd : Int)
    : (st.deliver pl rnd round).sent = (st.send pl (round.packet rnd)).sent
        ∧ (st.deliver pl rnd round).closed = st.closed := by
  cases round with
  | chat msg => exact ⟨rfl, send_closed pl _⟩
  | keepAlive =>
    rw [deliver, sendKeepAlive, hka rfl]
    exact ⟨rfl, send_closed pl _⟩

theorem after_deliver (h : Follows st pl) (hopen : st.closed pl = false) {round : Round}
    (hka : round = .keepAlive → st.kaId pl = none) (rnd : Int)
    : Client.after ((st.deliver pl rnd round).sent pl)
        =
      (st.stage pl).client.next (decide (st.stage pl = .compressing), round.packet rnd) := by
  rw [(deliver_eq_send hka rnd).1]
  exact after_send_of_open h hopen _

theorem packet_of_round (round : Round) (rnd : Int)
    : round.packet rnd = .other ∨ (∃ msg, round.packet rnd = .chat msg)
        ∨ ∃ id, round.packet rnd = .keepAlive id := by
  cases round with
  | chat msg => exact .inr (.inl ⟨msg, rfl⟩)
  | keepAlive => exact .inr (.inr ⟨rnd, rfl⟩)

/--
The player whose turn it is stays where it is if it is ready for the packet, or gets none.
-/
theorem Follows.deliver (h : Follows st pl) (hnew : st.stage pl ≠ .new) {round : Round}
    (hready : st.closed pl = false → (round = .keepAlive → st.kaId pl = none) →
      (st.stage pl).Ready) (rnd : Int) (sending : Option (Round × List κ))
    : Follows { st.deliver pl rnd round with sending } pl := by
  cases hclosed : st.closed pl with
  | true =>
    apply h.congr
    . exact deliver_of_closed hclosed rnd round
    . intro hopen
      exact (Bool.eq_false_iff.mp hopen (closed_deliver pl rnd round hclosed)).elim
    . exact congrFun (deliver_stage pl rnd round) pl
  | false =>
    by_cases hka : round = .keepAlive → st.kaId pl = none
    . have hafter := after_deliver h hclosed hka rnd
      rw [(next_of_ready hnew (packet_of_round round rnd)).1 (hready hclosed hka)] at hafter
      constructor
      . exact fun hlost => client_ne_lost _ (hafter.symm.trans hlost)
      . intro _
        dsimp only
        rw [hafter, deliver_stage]
    . -- the connection is closed instead
      obtain ⟨rfl, hexpecting⟩ := Classical.not_imp.mp hka
      obtain ⟨id, hid⟩ := Option.ne_none_iff_exists'.mp hexpecting
      apply h.congr
      . simp [Broadcast.deliver, sendKeepAlive, hid, close]
      . intro hopen
        simp [Broadcast.deliver, sendKeepAlive, hid, close] at hopen
      . exact congrFun (deliver_stage pl rnd _) pl

theorem Follows.other (hall : ∀ p, Follows st p) {p : κ} (hstage : st.stage p = .compressing)
    : ∀ pl, Follows (st.send p .other) pl := by
  intro pl
  by_cases hp : pl = p
  . subst hp
    have hnext : (st.stage pl).client.next (decide (st.stage pl = .compressing), .other)
        = Stage.compressing.client := by
      rw [hstage]
      rfl
    have h := (hall pl).send hnext (client_ne_lost _)
    apply h.congr
    . rfl
    . exact fun hopen => hopen
    . rw [setStage_self, send_stage, hstage]
  . apply (hall pl).congr
    . exact send_sent_of_ne hp _
    . exact fun hopen => (congrFun (send_closed p _) pl).symm.trans hopen
    . rw [send_stage]

theorem Follows.step {l : Label κ} (hsound : Sound st) (hall : ∀ p, Follows st p)
    (hnot : ¬ TooEarly st l) (hstep : Broadcast.step username st l = some st')
    : ∀ pl, Follows st' pl := by
  cases moves_of_step hstep with
  | @register p hidle hnew =>
    intro pl
    by_cases hp : pl = p
    . subst hp
      have h := hall pl
      refine ⟨h.understood, ?_⟩
      intro hopen
      rw [setStage_self]
      have heq := h.open_eq hopen
      rw [hnew] at heq
      exact heq
    . exact (hall pl).congr rfl (fun hopen => hopen) (setStage_of_ne hp _)
  | greet hstage =>
    apply Follows.login hall
    rw [hstage]
    rfl
  | join hstage =>
    apply Follows.login hall
    rw [hstage]
    rfl
  | tell hstage =>
    apply Follows.login hall
    rw [hstage]
    rfl
  | @compress p hstage =>
    intro pl
    by_cases hp : pl = p
    . subst hp
      have h := hall pl
      refine ⟨h.understood, ?_⟩
      intro hopen
      rw [setStage_self]
      have heq := h.open_eq hopen
      rw [hstage] at heq
      exact heq
    . exact (hall pl).congr rfl (fun hopen => hopen) (setStage_of_ne hp _)
  | other hstage => exact Follows.other hall hstage
  | ignore _ => exact hall
  | spawn _ | chat _ _ | keepAlive _ | finish _ | answer _ | deregister _ =>
    exact fun pl => (hall pl).congr rfl (fun hopen => hopen) rfl
  | @close p =>
    intro pl
    apply (hall pl).congr
    . rfl
    . intro hopen
      by_cases hp : pl = p
      . simp [Broadcast.close, hp] at hopen
      . simpa [Broadcast.close, Function.update_of_ne hp] using hopen
    . rfl
  | @visit rnd round p pls hsending =>
    have hlisted := (hsound.pending _ _ hsending).subset List.mem_cons_self
    intro pl
    by_cases hp : pl = p
    . subst hp
      apply (hall pl).deliver (hsound.listed pl hlisted)
      intro hopen hka
      by_contra hunready
      apply hnot
      rw [TooEarly, hsending]
      exact ⟨hopen, hka, hunready⟩
    . apply (hall pl).congr
      . exact (deliver_of_ne hp rnd round).1
      . exact fun hopen => (deliver_of_ne hp rnd round).2.symm.trans hopen
      . exact congrFun (deliver_stage p rnd round) pl

/--
The client that gets a packet too early is lost.
-/
theorem lost_of_tooEarly {l : Label κ} (hsound : Sound st) (hall : ∀ p, Follows st p)
    (hearly : TooEarly st l) (hstep : step username st l = some st')
    : ∃ pl, Client.after (st'.sent pl) = .lost := by
  cases moves_of_step hstep with
  | @visit rnd round p pls hsending =>
    rw [TooEarly, hsending] at hearly
    obtain ⟨hopen, hka, hunready⟩ := hearly
    have hlisted := (hsound.pending _ _ hsending).subset List.mem_cons_self
    refine ⟨p, ?_⟩
    dsimp only
    rw [after_deliver (hall p) hopen hka rnd]
    exact (next_of_ready (hsound.listed p hlisted) (packet_of_round round rnd)).2 hunready
  | finish hsending =>
    rw [TooEarly, hsending] at hearly
    exact hearly.elim
  | _ => exact hearly.elim

/--
The clients understand all they are sent exactly as long as nothing that is sent to all players gets
to one between its registration and the end of the login, or between the packet that announces the
compression and the compression itself.
-/
theorem always_understood_iff (ls : List (Label κ))
    : Always (step username) (fun st => ∀ pl, Client.after (st.sent pl) ≠ .lost) init ls
        ↔
      EachStep (step username) (fun st l => ¬ TooEarly st l) init ls := by
  have hinit : Sound (init : Broadcast κ) ∧ ∀ pl, Follows (init : Broadcast κ) pl :=
    ⟨sound_init, fun _ => ⟨by simp [init, Client.after], fun _ => rfl⟩⟩
  apply always_iff_eachStep (I := fun st => Sound st ∧ ∀ pl, Follows st pl) (A := fun _ => True)
  . exact fun st h pl => (h.2 pl).understood
  . exact fun st l st' h _ hnot hstep => ⟨h.1.step hstep, Follows.step h.1 h.2 hnot hstep⟩
  . intro st l st' h _ hearly hstep hunderstood
    obtain ⟨pl, hlost⟩ := lost_of_tooEarly h.1 h.2 (not_not.mp hearly) hstep
    exact hunderstood pl hlost
  . exact hinit
  . exact fun _ _ => trivial

-- A chat message reaches a player that is registered but has not been told so: its client is lost.
example : ¬ Always (step fun _ : Bool => [66])
    (fun st => ∀ pl, Client.after (st.sent pl) ≠ .lost) init
    [.register true, .login true, .login true, .login true, .login true, .spawn true,
      .register false, .chat true [104], .visit 0, .visit 0] :=
  fun h => h.last rfl false rfl

-- The same between the packet that announces the compression and the compression itself.
example : ¬ Always (step fun _ : Bool => [66])
    (fun st => ∀ pl, Client.after (st.sent pl) ≠ .lost) init
    [.register true, .login true, .login true, .login true, .login true, .spawn true,
      .register false, .login false, .login false, .login false, .chat true [104], .visit 0,
      .visit 0] :=
  fun h => h.last rfl false rfl

end Broadcast

end HCraft
