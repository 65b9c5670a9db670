import HCraft.Lib.Returns
import HCraft.Network.Handlers.Mc18.Login

/-!
This module contains that nobody gets to the play state without having been authenticated.
-/

namespace HCraft

open Transition Mc18PacketHandler

variable {υ : Type}

theorem Mc18PacketHandler.table_of_handle {handler : Mc18PacketHandler} {reader : PacketReader}
    {tbl : List Handler} {opc : Int} (h : handler.handle reader = some (.call tbl opc))
    : tbl = table handler.state := by
  unfold handle at h
  split at h
  . cases h
  . simp only [Option.bind_eq_bind, Option.bind_eq_some_iff, Prod.exists] at h
    rcases h with ⟨_, _, _, opc', _, _, h⟩
    cases hstate : handler.state with
    | handshake =>
      simp only [hstate, Option.pure_def, Option.some.injEq] at h
      split at h
      . cases h
      . injection h with h
        exact h.symm
    | status =>
      simp only [hstate, Option.pure_def, Option.some.injEq] at h
      split at h
      . cases h
      . injection h with h
        exact h.symm
    | login =>
      simp only [hstate, Option.pure_def, Option.some.injEq] at h
      split at h
      . cases h
      . injection h with h
        exact h.symm
    | play =>
      simp only [hstate, Option.pure_def, Option.some.injEq] at h
      split at h
      . cases h
      . injection h with h
        exact h.symm

namespace Mc18Session

/--
What a handler may make of a session.
-/
inductive Outcome (s : Mc18Session υ) (oracle : Oracle υ) : Mc18Session υ → Prop where
  | idle : Outcome s oracle s
  | disconnectConn : Outcome s oracle s.disconnectConn
  | disconnect : Outcome s oracle s.disconnect
  | setState {state : ProtocolState} (hstate : s.handler.state ≠ .play) (hnew : state ≠ .play)
    : Outcome s oracle (s.setState state)
  | login (hstate : s.handler.state ≠ .play) (name : Bytes) (hencryption : s.cfg.encryption = false)
    : Outcome s oracle (login { s with name } oracle)
  | request (hstate : s.handler.state ≠ .play) (name : Bytes)
    : Outcome s oracle { s with name, vtoken := oracle.rnd }
  | response (hstate : s.handler.state ≠ .play) {message : Bytes}
    (hmessage : List.ofFn s.vtoken = message) (ssec : Bytes)
    : Outcome s oracle (s.beginEncryption oracle message ssec)

section Outcome

variable {s : Mc18Session υ} (oracle : Oracle υ) (reader : PacketReader)

theorem outcome_handleH00 (hstate : s.handler.state ≠ .play)
    : Returns (s.handleH00 reader) (Outcome s oracle) := by
  unfold handleH00
  apply returns_bind
  rintro ⟨proto, reader⟩
  dsimp only
  split
  . exact returns_ok .disconnectConn
  . apply returns_bind
    rintro ⟨_, reader⟩
    apply returns_bind
    rintro ⟨_, reader⟩
    apply returns_bind
    rintro ⟨st, _⟩
    dsimp only
    split
    . exact returns_ok (.setState hstate (by simp))
    . split
      . exact returns_ok (.setState hstate (by simp))
      . exact returns_ok .disconnectConn

theorem outcome_handleL00 (hstate : s.handler.state ≠ .play)
    : Returns (s.handleL00 oracle reader) (Outcome s oracle) := by
  unfold handleL00
  apply returns_bind
  rintro ⟨name, _⟩
  cases name with
  | none => exact returns_ok .disconnectConn
  | some name =>
    dsimp only
    split
    . next hoff => exact returns_ok (.login hstate name (by simpa using hoff))
    . exact returns_ok (.request hstate name)

theorem outcome_disconnectPlayer : Returns s.disconnectPlayer (Outcome s oracle) := by
  unfold disconnectPlayer
  split
  . exact returns_error _
  . exact returns_ok .disconnectConn

theorem outcome_checkResponse (hstate : s.handler.state ≠ .play) (ssEnc vtokenEnc : Bytes)
    : Returns (s.checkResponse oracle ssEnc vtokenEnc) (Outcome s oracle) := by
  unfold checkResponse
  apply returns_bind
  intro message
  split
  . exact outcome_disconnectPlayer oracle
  . split
    . exact outcome_disconnectPlayer oracle
    . next hmessage =>
      apply returns_bind
      intro ssec
      split
      . exact outcome_disconnectPlayer oracle
      . exact returns_ok (.response hstate (by simpa using hmessage) ssec)

theorem outcome_handleL01 (hstate : s.handler.state ≠ .play)
    : Returns (s.handleL01 oracle reader) (Outcome s oracle) := by
  unfold handleL01
  apply returns_bind
  intro ssEnc
  cases ssEnc with
  | none => exact returns_ok .disconnect
  | some res =>
    apply returns_bind
    intro vtokenEnc
    cases vtokenEnc with
    | none => exact returns_ok .disconnect
    | some res' => exact outcome_checkResponse oracle hstate _ _

/--
The tables keep the functions of the login away from a player.
-/
theorem outcome_call {f : Handler} (hf : f ∈ table s.handler.state)
    : Returns (s.call oracle reader f) (Outcome s oracle) := by
  have hkicks : Returns (.ok (if oracle.kicks then s.disconnectConn else s) : Except Fault _)
      (Outcome s oracle) := by
    apply returns_ok
    split
    . exact .disconnectConn
    . exact .idle
  cases hstate : s.handler.state with
  | handshake =>
    simp only [hstate, table, handshakeTable, List.mem_singleton] at hf
    subst hf
    exact outcome_handleH00 oracle reader (by simp [hstate])
  | status =>
    simp only [hstate, table, statusTable, List.mem_cons, List.not_mem_nil, or_false] at hf
    rcases hf with rfl | rfl
    . exact returns_ok .idle
    . apply returns_bind
      intro _
      exact returns_ok .idle
  | login =>
    simp only [hstate, table, loginTable, List.mem_cons, List.not_mem_nil, or_false] at hf
    rcases hf with rfl | rfl
    . exact outcome_handleL00 oracle reader (by simp [hstate])
    . exact outcome_handleL01 oracle reader (by simp [hstate])
  | play =>
    rw [hstate] at hf
    have hplay : f ≠ .h00 ∧ f ≠ .s00 ∧ f ≠ .s01 ∧ f ≠ .l00 ∧ f ≠ .l01 := by
      refine ⟨?_, ?_, ?_, ?_, ?_⟩ <;> (rintro rfl; revert hf; decide)
    cases f <;> first | exact hkicks | simp at hplay

theorem outcome_handle : Returns (s.handle oracle reader) (Outcome s oracle) := by
  unfold handle
  split
  . exact returns_error _
  . exact returns_ok .idle
  . exact returns_ok .disconnectConn
  . next tbl opc hcall =>
    split
    . exact returns_error _
    . have hmem : Returns (orOutside tbl[opc.toNat]?) (· ∈ table s.handler.state) := by
        intro f hf
        rw [← table_of_handle hcall]
        apply List.mem_of_getElem? (i := opc.toNat)
        cases hget : tbl[opc.toNat]? with
        | none =>
          rw [hget] at hf
          cases hf
        | some f' =>
          rw [hget] at hf
          injection hf with hf
          rw [hf]
      refine hmem.bind ?_
      intro f hf
      apply returns_bind
      rintro ⟨_, reader⟩
      apply returns_bind
      rintro ⟨_, reader⟩
      exact outcome_call oracle reader hf

end Outcome

/--
The one player that was registered has been authenticated, in answer to the response whose secret the
connection is encrypted with and whose token matched.
-/
def Authentic (s : Mc18Session υ) : Prop :=
  ∃ pl, s.pl = some pl ∧ s.registered = [pl]
    ∧ ∃ response ∈ s.responses, response.succ = true ∧ response.name = pl.name
        ∧ response.message = List.ofFn response.vtoken
        ∧ s.aes = ⟨true, some response.ssec⟩

def PlayAuthentic : Except Fault (Mc18Session υ) → Prop
  | .error _ => True
  | .ok s => s.handler.state = .play → s.Authentic

structure Invariant (s : Mc18Session υ) : Prop where
  encryption : s.cfg.encryption = true
  online : s.cfg.online = true
  lookups : s.lookups = []
  outside : s.handler.state ≠ .play → s.pl = none ∧ s.registered = []
  play : s.handler.state = .play → s.Authentic

theorem invariant_start {cfg : ServerConfig} (hencryption : cfg.encryption = true)
    (honline : cfg.online = true) (vtoken : Fin 4 → UInt8) (uman : UuidManager υ)
    : (start cfg vtoken uman).Invariant where
  encryption := hencryption
  online := honline
  lookups := rfl
  outside := fun _ => ⟨rfl, rfl⟩
  play := fun h => by cases h

section Invariant

variable {s : Mc18Session υ}

theorem Invariant.disconnectConn (h : s.Invariant) : s.disconnectConn.Invariant where
  encryption := h.encryption
  online := h.online
  lookups := h.lookups
  outside := h.outside
  play := h.play

theorem Invariant.disconnect (h : s.Invariant) : s.disconnect.Invariant where
  encryption := h.encryption
  online := h.online
  lookups := h.lookups
  outside := h.outside
  play := h.play

/--
Before the play state only the players matter.
-/
theorem Invariant.setState (h : s.Invariant) (hstate : s.handler.state ≠ .play)
    {state : ProtocolState} (hnew : state ≠ .play) : (s.setState state).Invariant where
  encryption := h.encryption
  online := h.online
  lookups := h.lookups
  outside := fun _ => h.outside hstate
  play := fun hplay => absurd hplay hnew

theorem Invariant.request (h : s.Invariant) (hstate : s.handler.state ≠ .play) (name : Bytes)
    (vtoken : Fin 4 → UInt8) : Invariant { s with name, vtoken } where
  encryption := h.encryption
  online := h.online
  lookups := h.lookups
  outside := h.outside
  play := fun hplay => absurd hplay hstate

/--
The session server decides, and the UUID of a player it knows is found at once.
-/
theorem Invariant.beginEncryption (h : s.Invariant) (hstate : s.handler.state ≠ .play)
    (oracle : Oracle υ) {message : Bytes} (hmessage : List.ofFn s.vtoken = message) (ssec : Bytes)
    : (s.beginEncryption oracle message ssec).Invariant := by
  have honline := h.online
  obtain ⟨hpl, hregistered⟩ := h.outside hstate
  unfold Mc18Session.beginEncryption
  dsimp only
  rw [if_neg (by simp [honline])]
  cases hauth : Authenticator.authenticate s.uman s.name oracle.answer with
  | mk uman succ =>
    cases succ with
    | false =>
      rw [authCb, if_neg (by simp)]
      apply Invariant.disconnectConn
      exact {
        encryption := h.encryption
        online := h.online
        lookups := h.lookups
        outside := h.outside
        play := fun hplay => absurd hplay hstate
      }
    | true =>
      obtain ⟨uuid, huuid⟩ := Authenticator.fromUsername_of_authenticate hauth oracle.v3
      rw [authCb, if_pos rfl, login]
      dsimp only
      rw [huuid]
      dsimp only
      unfold uuidGetSuccess
      split
      . exact {
          encryption := h.encryption
          online := h.online
          lookups := h.lookups
          outside := h.outside
          play := fun hplay => absurd hplay hstate
        }
      . exact {
          encryption := h.encryption
          online := h.online
          lookups := h.lookups
          outside := fun hplay => absurd rfl hplay
          play := by
            intro _
            refine ⟨⟨uuid, s.name⟩, rfl, ?_, ⟨s.name, ssec, message, s.vtoken, true⟩, ?_, rfl, rfl,
              hmessage.symm, rfl⟩
            . dsimp only
              rw [hregistered, List.nil_append]
            . exact List.mem_append_right _ List.mem_cons_self
        }

theorem Invariant.outcome (h : s.Invariant) {oracle : Oracle υ} {s' : Mc18Session υ}
    (hs' : Outcome s oracle s') : s'.Invariant := by
  cases hs' with
  | idle => exact h
  | disconnectConn => exact h.disconnectConn
  | disconnect => exact h.disconnect
  | setState hstate hnew => exact h.setState hstate hnew
  | login hstate name hencryption =>
    rw [h.encryption] at hencryption
    cases hencryption
  | request hstate name => exact h.request hstate name oracle.rnd
  | response hstate hmessage ssec => exact h.beginEncryption hstate oracle hmessage ssec

theorem Invariant.insert (h : s.Invariant) (name : Bytes) (uuid : υ)
    : Invariant { s with uman := s.uman.insert name uuid } where
  encryption := h.encryption
  online := h.online
  lookups := h.lookups
  outside := h.outside
  play := h.play

theorem Invariant.step (h : s.Invariant) {l : Label υ} {res : Except Fault (Mc18Session υ)}
    (hstep : step (.ok s) l = some res) : Returns res Invariant := by
  cases l with
  | handle packet beyond oracle =>
    injection hstep with hstep
    rw [← hstep]
    exact (outcome_handle oracle _).mono (fun s' => h.outcome)
  | lookedUp answer full =>
    -- nobody is left to the pool
    simp only [Mc18Session.step, h.lookups] at hstep
    cases hstep
  | insert name uuid =>
    injection hstep with hstep
    rw [← hstep]
    exact returns_ok (h.insert name uuid)
  | disconnect =>
    injection hstep with hstep
    rw [← hstep]
    exact returns_ok h.disconnect

end Invariant

theorem always_playAuthentic {cfg : ServerConfig} (hencryption : cfg.encryption = true)
    (honline : cfg.online = true) (vtoken : Fin 4 → UInt8) (uman : UuidManager υ)
    (ls : List (Label υ))
    : Always step PlayAuthentic (.ok (start cfg vtoken uman)) ls := by
  have hinv : Always step (Returns · Invariant) (.ok (start cfg vtoken uman)) ls := by
    refine always_of_eachStep (I := (Returns · Invariant)) (R := fun _ _ => True) ?_
      (returns_ok (invariant_start hencryption honline vtoken uman))
      (EachStep.of_forall fun _ _ _ => trivial)
    intro res l res' hI _ hstep
    cases res with
    | error fault => cases hstep
    | ok s => exact (hI s rfl).step hstep
  apply hinv.mono
  intro res hI
  cases res with
  | error fault => trivial
  | ok s => exact (hI s rfl).play

/--
Bob shakes hands, begins to log in, answers the encryption request, is found by the session server, and
disconnects. The decrypted token is the one that was made for him.
-/
def loginRun : List (Label Nat) :=
  let token (i : Fin 4) : UInt8 := i.val.toUInt8 + 1
  let decrypt (ct : Bytes) : Option Bytes :=
    if ct = List.replicate 128 7 then some (List.replicate 16 5)
    else if ct = List.replicate 128 9 then some [1, 2, 3, 4]
    else none
  let oracle : Oracle Nat := ⟨token, decrypt, .id 42, 0, false, false⟩
  [.handle [9, 0, 47, 3, 97, 46, 98, 0, 80, 2] [] oracle, .handle [5, 0, 3, 66, 111, 98] [] oracle,
    .handle ([133, 2, 1, 128, 1] ++ List.replicate 128 7 ++ [128, 1] ++ List.replicate 128 9) [] oracle,
    .disconnect]

example : (exec step (.ok (start ⟨true, true⟩ (fun _ => 0) ⟨true, fun _ => none⟩)) loginRun).bind
      (fun res => res.toOption.map (fun s => (s.handler.state, s.registered)))
    = some (.play, [⟨42, [66, 111, 98]⟩]) := by
  decide +kernel

theorem always_playAuthentic_online
    : Always step PlayAuthentic
        (.ok (start ⟨true, true⟩ (fun _ => 0) (⟨true, fun _ => none⟩ : UuidManager Nat))) loginRun :=
  always_playAuthentic rfl rfl _ _ _

end Mc18Session

end HCraft
