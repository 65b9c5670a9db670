import HCraft.Lib.Returns
import HCraft.Network.Handlers.Mc18.Play
import HCraft.Network.Handlers.Mc18.Lemmas.Login

/-!
This module contains when the handlers follow a null pointer.
-/

namespace HCraft

open Transition Mc18PacketHandler

variable {υ : Type}

namespace Mc18Session

/--
There is a player in the play state, and nowhere else.
-/
def Registered (s : Mc18Session υ) : Prop :=
  s.handler.state = .play ↔ s.pl.isSome = true

theorem registered_start (cfg : ServerConfig) (vtoken : Fin 4 → UInt8) (uman : UuidManager υ)
    : (start cfg vtoken uman).Registered := by
  simp [Registered, start]

section Registered

variable {s : Mc18Session υ}

theorem Registered.pl_eq_none (h : s.Registered) (hstate : s.handler.state ≠ .play)
    : s.pl = none := by
  cases hpl : s.pl with
  | none => rfl
  | some pl => exact absurd (h.mpr (by rw [hpl]; rfl)) hstate

theorem Registered.disconnectConn (h : s.Registered) : s.disconnectConn.Registered := h
theorem Registered.disconnect (h : s.Registered) : s.disconnect.Registered := h

theorem Registered.setState (h : s.Registered) (hstate : s.handler.state ≠ .play)
    {state : ProtocolState} (hnew : state ≠ .play) : (s.setState state).Registered := by
  have hpl := h.pl_eq_none hstate
  simp [Registered, Mc18Session.setState, hnew, hpl]

theorem Registered.uuidGetSuccess (h : s.Registered) (name : Bytes) (uuid : υ) (full : Bool)
    : (s.uuidGetSuccess name uuid full).Registered := by
  unfold Mc18Session.uuidGetSuccess
  split
  . exact h
  . simp [Registered, Mc18Session.setState]

theorem Registered.login (h : s.Registered) (oracle : Oracle υ)
    : (s.login oracle).Registered := by
  unfold Mc18Session.login
  split
  . exact h.uuidGetSuccess _ _ _
  . exact h

theorem Registered.authCb (h : s.Registered) (oracle : Oracle υ) (succ : Bool)
    : (s.authCb oracle succ).Registered := by
  unfold Mc18Session.authCb
  split
  . exact h.login oracle
  . exact h.disconnectConn

theorem Registered.beginEncryption (h : s.Registered) (oracle : Oracle υ) (message ssec : Bytes)
    : (s.beginEncryption oracle message ssec).Registered := by
  unfold Mc18Session.beginEncryption
  dsimp only
  split
  . exact Registered.login (s := { s with aes := ⟨true, some ssec⟩ }) h oracle
  . apply Registered.authCb
    exact h

theorem Registered.outcome (h : s.Registered) {oracle : Oracle υ} {s' : Mc18Session υ}
    (hs' : Outcome s oracle s') : s'.Registered := by
  cases hs' with
  | idle => exact h
  | disconnectConn => exact h.disconnectConn
  | disconnect => exact h.disconnect
  | setState hstate hnew => exact h.setState hstate hnew
  | login hstate name hencryption => exact Registered.login (s := { s with name }) h oracle
  | request hstate name => exact h
  | response hstate hmessage ssec => exact h.beginEncryption oracle _ ssec

theorem Registered.step (h : s.Registered) {l : Label υ} {res : Except Fault (Mc18Session υ)}
    (hstep : step (.ok s) l = some res) : Returns res Registered := by
  cases l with
  | handle packet beyond oracle =>
    injection hstep with hstep
    rw [← hstep]
    exact (outcome_handle oracle _).mono (fun s' => h.outcome)
  | lookedUp answer full =>
    simp only [Mc18Session.step] at hstep
    split at hstep
    . cases hstep
    . split at hstep
      . injection hstep with hstep
        rw [← hstep]
        apply returns_ok
        apply Registered.uuidGetSuccess
        exact h
      . injection hstep with hstep
        rw [← hstep]
        exact returns_ok h
  | insert name uuid =>
    injection hstep with hstep
    rw [← hstep]
    exact returns_ok h
  | disconnect =>
    injection hstep with hstep
    rw [← hstep]
    exact returns_ok h.disconnect

theorem succeeds_lookedUp {answer : Answer υ} {full : Bool} {res : Except Fault (Mc18Session υ)}
    (hstep : step (.ok s) (.lookedUp answer full) = some res) : Succeeds res := by
  simp only [step] at hstep
  split at hstep
  . cases hstep
  . split at hstep
    . injection hstep with hstep
      rw [← hstep]
      apply succeeds_ok
    . injection hstep with hstep
      rw [← hstep]
      apply succeeds_ok

end Registered

section Avoids

variable (s : Mc18Session υ) (oracle : Oracle υ) (reader : PacketReader)

@[simp]
theorem avoids_orOutside {α : Type} (a : Option α) : Avoids (orOutside a) .nullPointer := by
  unfold orOutside
  split
  . apply avoids_pure
  . simp

@[simp]
theorem avoids_decryptOrThrow (ct : Bytes) : Avoids (decryptOrThrow oracle ct) .nullPointer := by
  unfold decryptOrThrow
  split
  . apply avoids_pure
  . simp

@[simp]
theorem avoids_readArray : Avoids (readArray reader) .nullPointer := by
  simp [readArray]

theorem avoids_handleH00 : Avoids (s.handleH00 reader) .nullPointer := by
  simp [handleH00]

theorem avoids_handleS01 : Avoids (s.handleS01 reader) .nullPointer := by
  simp [handleS01]

theorem avoids_handleL00 : Avoids (s.handleL00 oracle reader) .nullPointer := by
  unfold handleL00
  simp only [avoids_bind_iff, avoids_orOutside, true_and]
  rintro ⟨name, _⟩ _
  cases name with
  | none => apply avoids_pure
  | some name => simp

/--
The token is the one that was sent, and the secret is as long as a key. Neither is asked for if an
exception is thrown.
-/
def Accepted (oracle : Oracle υ) (ssEnc vtokenEnc : Bytes) : Prop :=
  ∀ message, oracle.decrypt vtokenEnc = some message →
    message = List.ofFn s.vtoken ∧ ∀ ssec, oracle.decrypt ssEnc = some ssec → ssec.length = 16

/--
The encryption response of `reader`, if it has one, is accepted.
-/
def AcceptedResponse : Prop :=
  ∀ ssEnc reader' vtokenEnc reader'', readArray reader = .ok (some (ssEnc, reader'))
    → readArray reader' = .ok (some (vtokenEnc, reader'')) → s.Accepted oracle ssEnc vtokenEnc

theorem orOutside_eq_ok_iff {α : Type} {a : Option α} {x : α}
    : orOutside a = .ok x ↔ a = some x := by
  cases a with
  | none => simp [orOutside]
  | some a => simp [orOutside]

theorem decryptOrThrow_eq_ok_iff {ct message : Bytes}
    : decryptOrThrow oracle ct = .ok message ↔ oracle.decrypt ct = some message := by
  unfold decryptOrThrow
  split
  . next heq => simp [heq]
  . next heq => simp [heq]

theorem avoids_disconnectPlayer_iff
    : Avoids s.disconnectPlayer .nullPointer ↔ s.pl.isSome = true := by
  unfold disconnectPlayer
  cases s.pl with
  | none => simp
  | some pl => exact iff_of_true (avoids_pure _ _) rfl

theorem avoids_checkResponse_iff (hpl : s.pl = none) (ssEnc vtokenEnc : Bytes)
    : Avoids (s.checkResponse oracle ssEnc vtokenEnc) .nullPointer
        ↔
      s.Accepted oracle ssEnc vtokenEnc := by
  unfold checkResponse Accepted
  simp only [avoids_bind_iff, avoids_decryptOrThrow, true_and, decryptOrThrow_eq_ok_iff,
    avoids_ite_iff, avoids_disconnectPlayer_iff, hpl, avoids_pure]
  apply forall₂_congr
  intro message _
  by_cases hmessage : message = List.ofFn s.vtoken
  . subst hmessage
    simp
  . -- a token of another length is another token
    simp only [hmessage, false_and, iff_false]
    intro h
    by_cases hlen : message.length ≠ 4
    . exact absurd (h.1 hlen) (by simp)
    . exact absurd ((h.2 hlen).1 (Ne.symm hmessage)) (by simp)

theorem avoids_handleL01_iff (hpl : s.pl = none)
    : Avoids (s.handleL01 oracle reader) .nullPointer ↔ s.AcceptedResponse oracle reader := by
  unfold handleL01 AcceptedResponse
  rw [avoids_bind_iff, and_iff_right (avoids_readArray reader)]
  constructor
  . intro h ssEnc reader' vtokenEnc reader'' hss hvtoken
    have hrest := h _ hss
    dsimp only at hrest
    rw [avoids_bind_iff] at hrest
    exact (s.avoids_checkResponse_iff oracle hpl ssEnc vtokenEnc).mp (hrest.2 _ hvtoken)
  . intro h ssEnc hss
    cases ssEnc with
    | none => apply avoids_pure
    | some res =>
      dsimp only
      rw [avoids_bind_iff, and_iff_right (avoids_readArray _)]
      intro vtokenEnc hvtoken
      cases vtokenEnc with
      | none => apply avoids_pure
      | some res' =>
        exact (s.avoids_checkResponse_iff oracle hpl _ _).mpr (h _ _ _ _ hss hvtoken)

end Avoids

end Mc18Session

theorem Window.avoids_set (win : Window) (i : Int) (item : Option SlotItem)
    : Avoids (win.set i item) .nullPointer := by
  unfold set
  rw [avoids_bind_iff]
  refine ⟨?_, fun _ _ => avoids_pure _ _⟩
  unfold get
  split
  . simp
  . split
    . simp
    . apply avoids_pure

@[simp]
theorem avoids_readSlot (reader : PacketReader) : Avoids (readSlot reader) .nullPointer := by
  simp [readSlot]

namespace Mc18PacketHandler

theorem avoids_route (handler : Mc18PacketHandler) (reader : PacketReader)
    : Avoids (handler.route reader) .nullPointer := by
  unfold route
  split
  . simp
  . simp
  . simp
  . simp

theorem mem_table_of_route {handler : Mc18PacketHandler} {reader rest : PacketReader} {f : Handler}
    (h : handler.route reader = .ok (.call f rest)) : f ∈ table handler.state := by
  unfold route at h
  split at h
  . cases h
  . cases h
  . cases h
  . next tbl opc hcall =>
    rw [← table_of_handle hcall]
    split at h
    . cases h
    . simp only [bind_eq_ok_iff] at h
      obtain ⟨f', hf', _, _, _, _, h⟩ := h
      injection h with h
      injection h with hf
      rw [← hf]
      exact List.mem_of_getElem? (Mc18Session.orOutside_eq_ok_iff.mp hf')

end Mc18PacketHandler

theorem Mc18Session.handle_eq (s : Mc18Session υ) (oracle : Oracle υ) (reader : PacketReader)
    : s.handle oracle reader
        =
      s.handler.route reader >>= fun
        | .ignored => .ok s
        | .disconnect => .ok s.disconnectConn
        | .call f rest => s.call oracle rest f := by
  unfold handle route
  cases s.handler.handle reader with
  | none => rfl
  | some d =>
    cases d with
    | ignored => rfl
    | disconnect => rfl
    | call tbl opc =>
      dsimp only
      by_cases hopc : opc < 0
      . rw [if_pos hopc, if_pos hopc]
        rfl
      . rw [if_neg hopc, if_neg hopc]
        simp only [bind_assoc, pure_bind]

namespace PlaySession

open Mc18Session

section Avoids

variable (s : PlaySession υ) (oracle : Oracle υ) (reader : PacketReader)

theorem pl_eq (hpl : s.session.pl.isSome = true) : s.pl = .ok s.playing := by
  obtain ⟨pl, hpl⟩ := Option.isSome_iff_exists.mp hpl
  rw [PlaySession.pl, hpl]

theorem avoids_pl (hpl : s.session.pl.isSome = true) : Avoids s.pl .nullPointer := by
  rw [s.pl_eq hpl]
  apply avoids_pure

/--
A Close Window packet for a window other than the inventory finds one open.
-/
def ClosesOpen : Prop :=
  ∀ wid reader', reader.readByte = some (wid, reader') → wid ≠ 0 → s.playing.openw.isSome = true

theorem avoids_handleP0d_iff (hpl : s.session.pl.isSome = true)
    : Avoids (s.handleP0d reader) .nullPointer ↔ s.ClosesOpen reader := by
  unfold handleP0d ClosesOpen
  simp only [avoids_bind_iff, avoids_orOutside, true_and, orOutside_eq_ok_iff, avoids_ite_iff,
    avoids_pure, implies_true, s.pl_eq hpl, avoids_ok, Except.ok.injEq, forall_eq', Prod.forall]
  apply forall₂_congr
  intro wid reader'
  apply forall₂_congr
  intro _ _
  cases s.playing.openw with
  | none => simp
  | some w => simp

theorem avoids_handleP01 (hpl : s.session.pl.isSome = true)
    : Avoids (s.handleP01 oracle reader) .nullPointer := by
  unfold handleP01
  rw [avoids_bind_iff, and_iff_right (avoids_orOutside _)]
  rintro ⟨str, _⟩ _
  cases str with
  | none => apply avoids_pure
  | some str => simp [s.avoids_pl hpl]

theorem avoids_handleP0e (hpl : s.session.pl.isSome = true)
    : Avoids (s.handleP0e reader) .nullPointer := by
  simp only [handleP0e, avoids_bind_iff, avoids_orOutside, avoids_readSlot, s.pl_eq hpl, avoids_ok,
    true_and, Except.ok.injEq, forall_eq']
  intros
  split
  . apply avoids_pure
  . apply avoids_pure

/--
Where there is a player, only closing a window can go wrong.
-/
theorem avoids_call (hpl : s.session.pl.isSome = true) {f : Handler} (hl01 : f ≠ .l01)
    (hp0d : f ≠ .p0d) : Avoids (s.call oracle reader f) .nullPointer := by
  cases f with
  | p00 => simp [call, handleP00, s.avoids_pl hpl]
  | p01 => exact s.avoids_handleP01 oracle reader hpl
  | p03 => simp [call, handleP03, s.avoids_pl hpl]
  | p04 => simp [call, handleP04, s.avoids_pl hpl]
  | p05 => simp [call, handleP05, s.avoids_pl hpl]
  | p06 => simp [call, handleP06, s.avoids_pl hpl]
  | p07 => simp [call, handleP07, s.avoids_pl hpl]
  | p08 => simp [call, handleP08, s.avoids_pl hpl]
  | p09 => simp [call, handleP09, s.avoids_pl hpl]
  | p0d => exact absurd rfl hp0d
  | p0e => exact s.avoids_handleP0e reader hpl
  | p10 => simp [call, handleP10, s.avoids_pl hpl, Window.avoids_set]
  | xx => apply avoids_pure
  | l01 => exact absurd rfl hl01
  | h00 => simp [call, avoids_handleH00]
  | s00 => apply avoids_pure
  | s01 => simp [call, avoids_handleS01]
  | l00 => simp [call, avoids_handleL00]

/--
An encryption response is accepted, and what is closed is open.
-/
def HarmlessCall : Handler → Prop
  | .l01 => s.session.AcceptedResponse oracle reader
  | .p0d => s.ClosesOpen reader
  | _ => True

theorem harmlessCall_of_ne {f : Handler} (hl01 : f ≠ .l01) (hp0d : f ≠ .p0d)
    : s.HarmlessCall oracle reader f := by
  unfold HarmlessCall
  split
  . exact absurd rfl hl01
  . exact absurd rfl hp0d
  . trivial

def HarmlessPacket : Prop :=
  ∀ f rest, s.session.handler.route reader = .ok (.call f rest) → s.HarmlessCall oracle rest f

/--
Where there is no player, only an encryption response can go wrong.
-/
theorem avoids_call_outside (hstate : s.session.handler.state ≠ .play) {f : Handler}
    (hf : f ∈ table s.session.handler.state) (hl01 : f ≠ .l01)
    : Avoids (s.call oracle reader f) .nullPointer := by
  cases hs : s.session.handler.state with
  | handshake =>
    simp only [hs, table, handshakeTable, List.mem_singleton] at hf
    subst hf
    simp [call, avoids_handleH00]
  | status =>
    simp only [hs, table, statusTable, List.mem_cons, List.not_mem_nil, or_false] at hf
    rcases hf with rfl | rfl
    . apply avoids_pure
    . simp [call, avoids_handleS01]
  | login =>
    simp only [hs, table, loginTable, List.mem_cons, List.not_mem_nil, or_false] at hf
    rcases hf with rfl | rfl
    . simp [call, avoids_handleL00]
    . exact absurd rfl hl01
  | play => exact absurd hs hstate

theorem avoids_call_iff (h : s.session.Registered) {f : Handler}
    (hf : f ∈ table s.session.handler.state)
    : Avoids (s.call oracle reader f) .nullPointer ↔ s.HarmlessCall oracle reader f := by
  by_cases hstate : s.session.handler.state = .play
  . have hpl := h.mp hstate
    have hl01 : f ≠ .l01 := by
      rintro rfl
      rw [hstate] at hf
      revert hf
      decide
    by_cases hp0d : f = .p0d
    . subst hp0d
      exact s.avoids_handleP0d_iff reader hpl
    . apply iff_of_true
      . exact s.avoids_call oracle reader hpl hl01 hp0d
      . exact s.harmlessCall_of_ne oracle reader hl01 hp0d
  . have hp0d : f ≠ .p0d := by
      rintro rfl
      cases hs : s.session.handler.state with
      | play => exact hstate hs
      | handshake => simp [hs, table, handshakeTable] at hf
      | status => simp [hs, table, statusTable] at hf
      | login => simp [hs, table, loginTable] at hf
    by_cases hl01 : f = .l01
    . subst hl01
      rw [call, bind_pure_comp, avoids_map_iff]
      exact s.session.avoids_handleL01_iff oracle reader (h.pl_eq_none hstate)
    . apply iff_of_true
      . exact s.avoids_call_outside oracle reader hstate hf hl01
      . exact s.harmlessCall_of_ne oracle reader hl01 hp0d

theorem avoids_handle_iff (h : s.session.Registered)
    : Avoids (s.handle oracle reader) .nullPointer ↔ s.HarmlessPacket oracle reader := by
  unfold handle HarmlessPacket
  rw [avoids_bind_iff, and_iff_right (avoids_route _ reader)]
  constructor
  . intro hall f rest hroute
    exact (s.avoids_call_iff oracle rest h (mem_table_of_route hroute)).mp (hall _ hroute)
  . intro hall route hroute
    cases route with
    | ignored => apply avoids_pure
    | disconnect => apply avoids_pure
    | call f rest =>
      exact (s.avoids_call_iff oracle rest h (mem_table_of_route hroute)).mpr (hall f rest hroute)

end Avoids

section Simulation

variable {s s' : PlaySession υ} {oracle : Oracle υ} {reader : PacketReader}

/--
A function of the play state leaves the session alone, or disconnects.
-/
def Follows (s s' : PlaySession υ) : Prop :=
  s'.session = s.session ∨ s'.session = s.session.disconnectConn

@[simp]
theorem follows_callPlayer (call : PlayerCall) : Follows s (s.callPlayer oracle call) := by
  unfold callPlayer
  dsimp only
  split
  . exact .inr rfl
  . exact .inl rfl

theorem session_update (s : PlaySession υ) (session : Mc18Session υ)
    : (s.update session).session = session := by
  unfold update
  split
  . rfl
  . rfl

theorem follows_ite {c : Prop} [Decidable c] {x y : PlaySession υ} (hx : Follows s x)
    (hy : Follows s y) : Follows s (if c then x else y) := by
  split
  . exact hx
  . exact hy

@[simp]
theorem follows_disconnectConn (s : PlaySession υ) : Follows s s.disconnectConn :=
  .inr rfl

@[simp]
theorem follows_setPlaying (s : PlaySession υ) (playing : Playing)
    : Follows s (s.setPlaying playing) :=
  .inl rfl

@[simp]
theorem follows_self (s : PlaySession υ) : Follows s s :=
  .inl rfl

theorem follows_handleP01 : Returns (s.handleP01 oracle reader) (Follows s) := by
  unfold handleP01
  apply returns_bind
  rintro ⟨str, _⟩
  cases str with
  | none => exact returns_ok (follows_disconnectConn s)
  | some str => simp [returns_map_iff]

theorem follows_handleP0d : Returns (s.handleP0d reader) (Follows s) := by
  unfold handleP0d
  apply returns_bind
  rintro ⟨wid, _⟩
  dsimp only
  split
  . exact returns_ok (follows_self s)
  . apply returns_bind
    intro pl
    split
    . exact returns_error _
    . exact returns_ok (follows_ite (follows_disconnectConn s) (follows_setPlaying s _))

theorem follows_handleP0e : Returns (s.handleP0e reader) (Follows s) := by
  simp only [handleP0e, returns_bind_iff]
  intros
  split
  . exact returns_ok (follows_ite (follows_disconnectConn s) (follows_self s))
  . exact returns_ok (follows_ite (follows_disconnectConn s) (follows_self s))

theorem follows_call {f : Handler} (hf : f ∉ handshakeTable ++ statusTable ++ loginTable)
    : Returns (s.call oracle reader f) (Follows s) := by
  cases f with
  | p00 => simp [call, handleP00, returns_bind_iff, returns_map_iff]
  | p01 => exact follows_handleP01
  | p03 => simp [call, handleP03, returns_bind_iff, returns_map_iff]
  | p04 => simp [call, handleP04, returns_bind_iff, returns_map_iff]
  | p05 => simp [call, handleP05, returns_bind_iff, returns_map_iff]
  | p06 => simp [call, handleP06, returns_bind_iff, returns_map_iff]
  | p07 => simp [call, handleP07, returns_bind_iff, returns_map_iff]
  | p08 => simp [call, handleP08, returns_bind_iff, returns_map_iff]
  | p09 =>
    simp [call, handleP09, returns_bind_iff, returns_pure_iff, returns_map_iff, returns_ite_iff]
  | p0d => exact follows_handleP0d
  | p0e => exact follows_handleP0e
  | p10 =>
    simp [call, handleP10, returns_bind_iff, returns_pure_iff, returns_map_iff, returns_ite_iff]
  | xx => exact returns_ok (follows_self s)
  | h00 => simp [handshakeTable] at hf
  | s00 => simp [statusTable] at hf
  | s01 => simp [statusTable] at hf
  | l00 => simp [loginTable] at hf
  | l01 => simp [loginTable] at hf

theorem eq_ok_of_update {x : Except Fault (Mc18Session υ)} (h : s.update <$> x = .ok s')
    : x = .ok s'.session := by
  cases x with
  | error fault => cases h
  | ok session =>
    injection h with h
    rw [← h, session_update]

theorem simulates_call {f : Handler} (h : s.call oracle reader f = .ok s')
    : ∃ kicks, s.session.call { oracle with kicks } reader f = .ok s'.session := by
  by_cases hf : f ∈ handshakeTable ++ statusTable ++ loginTable
  . refine ⟨oracle.kicks, ?_⟩
    simp only [handshakeTable, statusTable, loginTable, List.cons_append, List.nil_append,
      List.mem_cons, List.not_mem_nil, or_false] at hf
    rcases hf with rfl | rfl | rfl | rfl | rfl
    . exact eq_ok_of_update h
    . cases h
      rfl
    . exact eq_ok_of_update h
    . exact eq_ok_of_update h
    . exact eq_ok_of_update h
  . have hcall (kicks : Bool) : s.session.call { oracle with kicks } reader f
        = .ok (if kicks then s.session.disconnectConn else s.session) := by
      revert hf
      cases f <;> simp [handshakeTable, statusTable, loginTable, Mc18Session.call]
    cases follows_call hf s' h with
    | inl hs' => exact ⟨false, by rw [hcall, hs']; rfl⟩
    | inr hs' => exact ⟨true, by rw [hcall, hs']; rfl⟩

/--
To the rest of the server, the handlers of the play state are functions that may disconnect.
-/
theorem simulates_handle (h : s.handle oracle reader = .ok s')
    : ∃ kicks, s.session.handle { oracle with kicks } reader = .ok s'.session := by
  unfold handle at h
  cases hroute : s.session.handler.route reader with
  | error fault =>
    rw [hroute] at h
    cases h
  | ok route =>
    rw [hroute] at h
    have heq (kicks : Bool) := Mc18Session.handle_eq s.session { oracle with kicks } reader
    rw [hroute] at heq
    cases route with
    | ignored =>
      cases h
      exact ⟨oracle.kicks, heq _⟩
    | disconnect =>
      cases h
      exact ⟨oracle.kicks, heq _⟩
    | call f rest =>
      obtain ⟨kicks, hcall⟩ := simulates_call h
      exact ⟨kicks, (heq kicks).trans hcall⟩

end Simulation

/--
The packets that follow no null pointer.
-/
def Harmless : Except Fault (PlaySession υ) → Label υ → Prop
  | .ok s, .session (.handle packet beyond oracle) =>
    s.HarmlessPacket oracle (.ofPacket packet beyond)
  | _, _ => True

/--
No handler has followed a null pointer, and there is a player if one is needed.
-/
def Sound (res : Except Fault (PlaySession υ)) : Prop :=
  Avoids res .nullPointer ∧ Returns res (·.session.Registered)

section Run

variable {s s' : PlaySession υ}

theorem sound_ok (h : s.session.Registered) : Sound (.ok s) :=
  ⟨avoids_ok _ _, returns_ok h⟩

theorem sound_update (h : s.session.Registered) (l : Mc18Session.Label υ)
    {res : Except Fault (Mc18Session υ)} (hstep : Mc18Session.step (.ok s.session) l = some res)
    (hok : Succeeds res) : Sound (res.map s.update) := by
  obtain ⟨session, rfl⟩ := hok
  apply sound_ok
  rw [session_update]
  exact h.step hstep session rfl

theorem registered_handle (h : s.session.Registered) (oracle : Oracle υ) (reader : PacketReader)
    : Returns (s.handle oracle reader) (·.session.Registered) := by
  intro s' hs'
  obtain ⟨kicks, hsession⟩ := simulates_handle hs'
  exact h.outcome (outcome_handle { oracle with kicks } reader _ hsession)

theorem sound_step (h : s.session.Registered) {l : Label υ} {res : Except Fault (PlaySession υ)}
    (hl : ∀ packet beyond oracle, l ≠ .session (.handle packet beyond oracle))
    (hstep : step (.ok s) l = some res) : Sound res := by
  cases l with
  | session l =>
    cases l with
    | handle packet beyond oracle => exact absurd rfl (hl packet beyond oracle)
    | lookedUp answer full =>
      simp only [step, Option.map_eq_some_iff] at hstep
      obtain ⟨res', hstep, rfl⟩ := hstep
      exact sound_update h _ hstep (succeeds_lookedUp hstep)
    | insert name uuid =>
      injection hstep with hstep
      rw [← hstep]
      exact sound_update h (.insert name uuid) rfl (succeeds_ok _)
    | disconnect =>
      injection hstep with hstep
      rw [← hstep]
      exact sound_update h .disconnect rfl (succeeds_ok _)
  | openWindow w =>
    simp only [step] at hstep
    split at hstep
    . cases hstep
    . injection hstep with hstep
      rw [← hstep]
      exact sound_ok h
  | sendKeepAlive id =>
    simp only [step] at hstep
    split at hstep
    . cases hstep
    . split at hstep
      . injection hstep with hstep
        rw [← hstep]
        exact sound_ok h
      . injection hstep with hstep
        rw [← hstep]
        exact sound_ok h

theorem step_spec (h : s.session.Registered) {l : Label υ} {res : Except Fault (PlaySession υ)}
    (hstep : step (.ok s) l = some res)
    : (Avoids res .nullPointer ↔ Harmless (.ok s) l) ∧ Returns res (·.session.Registered) := by
  by_cases hl : ∃ packet beyond oracle, l = .session (.handle packet beyond oracle)
  . obtain ⟨packet, beyond, oracle, rfl⟩ := hl
    injection hstep with hstep
    rw [← hstep]
    exact ⟨s.avoids_handle_iff oracle _ h, registered_handle h oracle _⟩
  . have hsound := sound_step h (fun packet beyond oracle heq => hl ⟨packet, beyond, oracle, heq⟩) hstep
    refine ⟨iff_of_true hsound.1 ?_, hsound.2⟩
    unfold Harmless
    split
    . next packet beyond oracle _ => exact absurd ⟨packet, beyond, oracle, rfl⟩ hl
    . trivial

end Run

/--
The property of a run that no handler follows a null pointer.
-/
def NonNull (res : Except Fault (PlaySession υ)) : Prop :=
  res ≠ .error .nullPointer

theorem always_nonNull_iff (cfg : ServerConfig) (vtoken : Fin 4 → UInt8) (uman : UuidManager υ)
    (ls : List (Label υ))
    : Always step NonNull (.ok (start cfg vtoken uman)) ls
        ↔
      EachStep step Harmless (.ok (start cfg vtoken uman)) ls := by
  refine always_iff_eachStep (I := Sound) (A := fun _ => True) (fun res h => h.1) ?_ ?_
    (sound_ok (registered_start cfg vtoken uman)) (fun _ _ => trivial)
  . intro res l res' hI _ hR hstep
    cases res with
    | error fault => cases hstep
    | ok s =>
      obtain ⟨havoids, hregistered⟩ := step_spec (hI.2 s rfl) hstep
      exact ⟨havoids.mpr hR, hregistered⟩
  . intro res l res' hI _ hR hstep hP
    cases res with
    | error fault => cases hstep
    | ok s => exact hR ((step_spec (hI.2 s rfl) hstep).1.mp hP)

/--
`NonNull`, to be computed.
-/
def followsNull : Except Fault (PlaySession υ) → Bool
  | .error .nullPointer => true
  | _ => false

theorem not_always_nonNull {res : Except Fault (PlaySession υ)} {ls : List (Label υ)}
    (h : (exec step res ls).any followsNull = true) : ¬ Always step NonNull res ls := by
  intro hall
  cases hexec : exec step res ls with
  | none =>
    rw [hexec] at h
    cases h
  | some res' =>
    rw [hexec, Option.any_some] at h
    unfold followsNull at h
    split at h
    . exact hall.last hexec rfl
    . cases h

/--
A key of 1024 bits, and what was encrypted is not the token that was sent.
-/
def otherToken : Oracle Nat :=
  { rnd := fun _ => 7
    decrypt := fun ct => if ct.length = 128 then some [0, 0, 0, 0] else none
    answer := .empty
    v3 := 0
    full := false
    kicks := false }

/--
A handshake, a login start and an encryption response.
-/
theorem not_always_nonNull_otherToken
    : ¬ Always step NonNull
        (.ok (start ⟨true, true⟩ (fun _ => 0) (⟨true, fun _ => none⟩ : UuidManager Nat)))
        [.session (.handle [9, 0, 47, 3, 97, 46, 98, 0, 80, 2] [] otherToken),
          .session (.handle [3, 0, 1, 97] [] otherToken),
          .session (.handle ([0x85, 0x02, 1, 0x80, 0x01] ++ List.replicate 128 1
            ++ [0x80, 0x01] ++ List.replicate 128 1) [] otherToken)] := by
  apply not_always_nonNull
  decide +kernel

end PlaySession

end HCraft
