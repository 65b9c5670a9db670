import Mathlib.Data.List.TakeWhile
import HCraft.Network.Connection.Lemmas.Encrypted
import HCraft.Network.Handlers.Infer.Impl

/-!
This module contains the proof that it makes no difference to the handler of protocol 1.8 that its
connection had to find the protocol out first.
-/

namespace HCraft

open PacketTransformer Transition

namespace Connection

section Disconnect

variable {τ : Type}

/--
The connection with another request to disconnect, or none.
-/
def withReq (conn : Connection τ) (req : Bool) : Connection τ :=
  { conn with disconnectReq := req }

theorem addBufferTb_withReq (conn : Connection τ) (req : Bool) (i : Nat) (lastbuf : Option Nat)
    : (conn.withReq req).addBufferTb i lastbuf = (conn.addBufferTb i lastbuf).withReq req := by
  cases lastbuf <;> rfl

variable [PacketTransformer τ]

/--
Nothing in the pipeline looks at the request.
-/
theorem go_withReq (i : Nat) (lastbuf : Option Nat) (conn : Connection τ)
    : ∃ bad : Bool, ∀ req, applyInTransformations.go i lastbuf (conn.withReq req)
        = (applyInTransformations.go i lastbuf conn).withReq (req || bad) := by
  induction i generalizing lastbuf conn with
  | zero => exact ⟨false, fun req => by rw [Bool.or_false]; rfl⟩
  | succ i ih =>
    have hsame : ∀ req, (conn.withReq req).trs = conn.trs := fun _ => rfl
    simp only [applyInTransformations.go, hsame, addBufferTb_withReq]
    cases htr : conn.trs[i]? with
    | none => exact ⟨false, fun req => by rw [Bool.or_false]⟩
    | some tr =>
      dsimp only
      split
      . exact ih lastbuf conn
      . generalize conn.addBufferTb i lastbuf = moved
        have htbs : ∀ req, (moved.withReq req).tbs = moved.tbs := fun _ => rfl
        simp only [htbs]
        cases inEnough tr (moved.tbs.getD i []) with
        | error fault => exact ⟨false, fun req => by rw [Bool.or_false]; rfl⟩
        | ok enough =>
          dsimp only
          split
          . exact ⟨true, fun req => by rw [Bool.or_true]; rfl⟩
          . split
            . exact ⟨false, fun req => by rw [Bool.or_false]; rfl⟩
            . cases transformIn tr (moved.tbs.getD i []) with
              | error fault => exact ⟨false, fun req => by rw [Bool.or_false]; rfl⟩
              | ok done =>
                obtain ⟨tr', res⟩ := done
                dsimp only
                have htrs : ∀ req, (moved.withReq req).trs = moved.trs := fun _ => rfl
                simp only [htrs]
                cases nextbuf (moved.trs.set i tr') i with
                | none =>
                  exact ih (some i) (addTb { moved with
                    tbs := moved.tbs.set i [], trs := moved.trs.set i tr',
                    ftb := moved.ftb ++ res.out } i (List.drop res.consumed (moved.tbs.getD i [])))
                | some j =>
                  exact ih (some i) (addTb (addTb { moved with
                    tbs := moved.tbs.set i [], trs := moved.trs.set i tr' } j res.out)
                      i (List.drop res.consumed (moved.tbs.getD i [])))

theorem applyInTransformations_withReq (conn : Connection τ)
    : ∃ bad : Bool, ∀ req, (conn.withReq req).applyInTransformations
        = conn.applyInTransformations.withReq (req || bad) := by
  unfold applyInTransformations
  have htrs : ∀ req, (conn.withReq req).trs = conn.trs := fun _ => rfl
  simp only [htrs]
  split
  . exact go_withReq _ _ conn
  . exact ⟨false, fun req => by rw [Bool.or_false]; rfl⟩

omit [PacketTransformer τ] in
theorem readLoop_withReq (conn : Connection τ)
    : ∃ bad : Bool, ∀ req, (conn.withReq req).readLoop
        = (conn.readLoop.1.withReq (req || bad), conn.readLoop.2) := by
  obtain ⟨bad, h⟩ := readLoop_with conn
  refine ⟨bad, fun req => (h conn.trs conn.tbs req).trans ?_⟩
  rw [withReq, ← (readLoop_frame conn).1, ← readLoop_tbs conn]

theorem onRead_withReq (conn : Connection τ) (data : Bytes)
    : ∃ bad : Bool, ∀ req, (conn.withReq req).onRead data
        = ((conn.onRead data).1.withReq (req || bad), (conn.onRead data).2) := by
  unfold onRead
  have hinput : ∀ req, (conn.withReq req).input = conn.input := fun _ => rfl
  simp only [hinput]
  split
  . exact ⟨true, fun req => by rw [Bool.or_true]; rfl⟩
  . obtain ⟨bad, happly⟩ := applyInTransformations_withReq { conn with input := conn.input ++ data }
    obtain ⟨bad', hloop⟩ :=
      readLoop_withReq ({ conn with input := conn.input ++ data } : Connection τ).applyInTransformations
    refine ⟨bad || bad', fun req => ?_⟩
    have := happly req
    rw [withReq] at this
    rw [withReq, this, hloop, Bool.or_assoc]

/--
While all transformers are off, it does not matter which ones they are.
-/
theorem onRead_of_off (conn : Connection τ) (hoff : conn.trs.any PacketTransformer.isOn = false)
    (data : Bytes)
    : ∃ bad : Bool, ∀ (trs : List τ) (tbs : List Bytes) (req : Bool),
        trs.any PacketTransformer.isOn = false →
        ({ conn with trs, tbs, disconnectReq := req } : Connection τ).onRead data
          =
        ({ (conn.onRead data).1 with trs, tbs, disconnectReq := req || bad },
          (conn.onRead data).2) := by
  by_cases hempty : (conn.input ++ data).length = 0
  . refine ⟨true, fun trs tbs req _ => ?_⟩
    rw [onRead, if_pos hempty, onRead, if_pos hempty, Bool.or_true]
    rfl
  . obtain ⟨bad, h⟩ := readLoop_with
      { conn with input := [], ftb := conn.ftb ++ (conn.input ++ data) }
    refine ⟨bad, fun trs tbs req htrs => ?_⟩
    have hread : ∀ c : Connection τ, c.trs.any isOn = false → (c.input ++ data).length ≠ 0 →
        c.onRead data
          = ({ c with input := [], ftb := c.ftb ++ (c.input ++ data) } : Connection τ).readLoop := by
      intro c hc hne
      rw [onRead, if_neg hne, applyInTransformations, if_neg (by simp [hc])]
    rw [hread { conn with trs, tbs, disconnectReq := req } htrs hempty, hread conn hoff hempty]
    exact h trs tbs req

end Disconnect

theorem after_withReq (conn : Connection Mc18Transformer) (l : InLabel)
    : ∃ bad : Bool, ∀ req, (conn.withReq req).after l
        = ((conn.after l).1.withReq (req || bad), (conn.after l).2) := by
  cases l with
  | read data => exact onRead_withReq conn data
  | _ => exact ⟨false, fun req => by rw [Bool.or_false]; rfl⟩

theorem afterAll_append_singleton (conn : Connection Mc18Transformer) (ls : List InLabel) (l : InLabel)
    : conn.afterAll (ls ++ [l])
        =
      (((conn.afterAll ls).1.after l).1,
        (conn.afterAll ls).2 ++ ((conn.afterAll ls).1.after l).2) := by
  induction ls generalizing conn with
  | nil => simp [afterAll]
  | cons l' ls ih =>
    rw [List.cons_append, afterAll, ih, afterAll]
    simp

end Connection

namespace Inferring

variable {zlib : Zlib} {cfb : Bytes → Feedback Bytes UInt8}

/--
The packet looks like the handshake of a client that speaks protocol 1.8.
-/
def accepts (packet beyond : Bytes) : Bool :=
  InferPacketHandler.handle (.ofPacket packet beyond) = some (some "1.8")

/--
A packet of three bytes or more is judged by these alone.
-/
theorem accepts_cons (len opc pv : UInt8) (rest beyond : Bytes)
    : accepts (len :: opc :: pv :: rest) beyond = true ↔ len ≤ 127 ∧ opc = 0 ∧ pv = 47 := by
  have hle : ¬ len > 127 ↔ len ≤ 127 := UInt8.not_lt
  by_cases hlen : len > 127
  . have : ¬ len ≤ 127 := fun h => hle.mpr h hlen
    simp [accepts, InferPacketHandler.handle, PacketReader.ofPacket, PacketReader.readByte,
      PacketReader.readFixed, hlen, this]
  . by_cases hopc : opc = 0
    . simp only [accepts, InferPacketHandler.handle, PacketReader.ofPacket, PacketReader.readByte,
        PacketReader.readFixed, hle.mp hlen, hopc]
      by_cases hpv : pv = 47
      . subst hpv
        simp [hlen]
      . simp [hlen, hpv]
    . simp [accepts, InferPacketHandler.handle, PacketReader.ofPacket, PacketReader.readByte,
        PacketReader.readFixed, hlen, hopc]

theorem version_of_handle {reader : PacketReader} {version : String}
    (h : InferPacketHandler.handle reader = some (some version)) : version = "1.8" := by
  simp only [InferPacketHandler.handle, Option.bind_eq_bind, Option.bind_eq_some_iff] at h
  obtain ⟨len, _, h⟩ := h
  split at h
  . cases h
  . obtain ⟨opc, _, h⟩ := Option.bind_eq_some_iff.mp h
    split at h
    . cases h
    . obtain ⟨pv, _, h⟩ := Option.bind_eq_some_iff.mp h
      split at h
      . cases h
        rfl
      . cases h

/--
`pure` is what the inbound side would be if the protocol had been known from the start.
-/
structure Follows (zlib : Zlib) (cfb : Bytes → Feedback Bytes UInt8) (st : Inferring)
    (pure : Connection Mc18Transformer × List ReadEvent) : Prop where
  inferring : st.inferring = true →
    pure.1.trs = Protocol.createMc18 zlib cfb ∧ pure.1.tbs = [[], []]
      ∧ ∃ req, st.conn = { pure.1 with trs := [], tbs := [], disconnectReq := req }
  inferred : st.inferring = false → ∃ req, st.conn = pure.1.withReq req
  dispatched : ReadEvent.dispatched pure.2 = st.jobs.map Prod.fst ++ st.queue
  waiting : st.inferring = true ↔ ∀ job ∈ st.jobs, accepts job.1 job.2 = false
  handled : st.handled
    = (st.jobs.dropWhile (fun job => !accepts job.1 job.2)).map Prod.fst

theorem follows_init : Follows zlib cfb init
    ((Connection.start (Protocol.createMc18 zlib cfb)).afterAll init.arrived) where
  inferring := fun _ => ⟨rfl, rfl, false, rfl⟩
  inferred := fun h => by cases h
  dispatched := rfl
  waiting := by simp [init]
  handled := rfl

theorem after_of_off {conn : Connection Mc18Transformer}
    (hoff : conn.trs.any isOn = false) {l : InLabel} (hl : l.isRead = true)
    : (conn.after l).1.trs = conn.trs ∧ (conn.after l).1.tbs = conn.tbs
        ∧ ∀ req, ∃ req',
          ({ conn with trs := [], tbs := [], disconnectReq := req }
            : Connection Mc18Transformer).after l
          =
          ({ (conn.after l).1 with trs := [], tbs := [], disconnectReq := req' },
            (conn.after l).2) := by
  cases l with
  | read data =>
    obtain ⟨bad, h⟩ := Connection.onRead_of_off conn hoff data
    have hself := h conn.trs conn.tbs conn.disconnectReq hoff
    refine ⟨congrArg (fun res => res.1.trs) hself, congrArg (fun res => res.1.tbs) hself, ?_⟩
    exact fun req => ⟨req || bad, h [] [] req rfl⟩
  | _ => cases hl

/--
Something arrives, or the handler of protocol 1.8 begins encryption or compression.
-/
theorem Follows.net {st : Inferring} {pure : Connection Mc18Transformer × List ReadEvent}
    (h : Follows zlib cfb st pure) {l : InLabel} (hl : st.inferring = true → l.isRead = true)
    : Follows zlib cfb
        { st with
          conn := (st.conn.after l).1
          queue := st.queue ++ ReadEvent.dispatched (st.conn.after l).2
          arrived := st.arrived ++ [l] }
        ((pure.1.after l).1, pure.2 ++ (pure.1.after l).2) := by
  have hevents : (st.conn.after l).2 = (pure.1.after l).2
      ∧ (st.inferring = true →
          (pure.1.after l).1.trs = Protocol.createMc18 zlib cfb
            ∧ (pure.1.after l).1.tbs = [[], []]
            ∧ ∃ req, (st.conn.after l).1
              = { (pure.1.after l).1 with trs := [], tbs := [], disconnectReq := req })
      ∧ (st.inferring = false → ∃ req, (st.conn.after l).1 = (pure.1.after l).1.withReq req) := by
    cases hst : st.inferring with
    | true =>
      obtain ⟨htrs, htbs, req, hconn⟩ := h.inferring hst
      have hoff : pure.1.trs.any isOn = false := by
        rw [htrs]
        rfl
      obtain ⟨htrs', htbs', hafter⟩ := after_of_off hoff (hl hst)
      obtain ⟨req', heq⟩ := hafter req
      rw [hconn, heq]
      exact ⟨rfl, fun _ => ⟨htrs'.trans htrs, htbs'.trans htbs, req', rfl⟩, fun h => by cases h⟩
    | false =>
      obtain ⟨req, hconn⟩ := h.inferred hst
      obtain ⟨bad, heq⟩ := pure.1.after_withReq l
      rw [hconn, heq]
      exact ⟨rfl, fun h => (by cases h), fun _ => ⟨_, rfl⟩⟩
  obtain ⟨hevents, hinferring, hinferred⟩ := hevents
  refine ⟨hinferring, hinferred, ?_, h.waiting, h.handled⟩
  dsimp only
  rw [ReadEvent.dispatched_append, h.dispatched, hevents, List.append_assoc]

/--
The protocol is still to be found out, and the packet does not look like a handshake.
-/
theorem Follows.refuse {st : Inferring} {pure : Connection Mc18Transformer × List ReadEvent}
    (h : Follows zlib cfb st pure) (hst : st.inferring = true) {packet beyond : Bytes}
    {queue : List Bytes} (hqueue : st.queue = packet :: queue)
    (hrefuse : accepts packet beyond = false)
    : Follows zlib cfb
        { st with queue, jobs := st.jobs ++ [(packet, beyond)], conn := st.conn.disconnect } pure where
  inferring := by
    intro _
    obtain ⟨htrs, htbs, req, hconn⟩ := h.inferring hst
    refine ⟨htrs, htbs, true, ?_⟩
    dsimp only
    rw [hconn]
    rfl
  inferred := fun hfalse => absurd (hst.symm.trans hfalse) (by simp)
  dispatched := by
    rw [h.dispatched, hqueue]
    simp
  waiting := by
    have := h.waiting.mp hst
    simp only [hst, true_iff, List.mem_append, List.mem_singleton]
    rintro job (hjob | rfl)
    . exact this job hjob
    . exact hrefuse
  handled := by
    have hall := h.waiting.mp hst
    have hhandled := h.handled
    rw [List.dropWhile_eq_nil_iff.mpr (fun job hjob => by simp [hall job hjob])] at hhandled
    dsimp only
    rw [hhandled, List.dropWhile_eq_nil_iff.mpr]
    intro job hjob
    rw [List.mem_append, List.mem_singleton] at hjob
    rcases hjob with hjob | rfl
    . simp [hall job hjob]
    . simp [hrefuse]

/--
The packet is the handshake.
-/
theorem Follows.accept {st : Inferring} {pure : Connection Mc18Transformer × List ReadEvent}
    (h : Follows zlib cfb st pure) (hst : st.inferring = true) {packet beyond : Bytes}
    {queue : List Bytes} (hqueue : st.queue = packet :: queue)
    (haccept : accepts packet beyond = true)
    : Follows zlib cfb
        { st with
          queue, jobs := st.jobs ++ [(packet, beyond)]
          conn := st.conn.setProtocol (Protocol.createMc18 zlib cfb), inferring := false
          handled := st.handled ++ [packet] } pure where
  inferring := fun h => by cases h
  inferred := by
    intro _
    obtain ⟨htrs, htbs, req, hconn⟩ := h.inferring hst
    refine ⟨req, ?_⟩
    dsimp only
    rw [hconn, Connection.setProtocol, Connection.withReq, ← htrs, show
      pure.1.trs.map (fun _ => ([] : Bytes)) = pure.1.tbs by rw [htrs, htbs]; rfl]
  dispatched := by
    rw [h.dispatched, hqueue]
    simp
  waiting := by
    simp only [Bool.false_eq_true, false_iff]
    intro hall
    have := hall (packet, beyond) (by simp)
    rw [haccept] at this
    cases this
  handled := by
    have hall := h.waiting.mp hst
    have hhandled := h.handled
    rw [List.dropWhile_eq_nil_iff.mpr (fun job hjob => by simp [hall job hjob])] at hhandled
    dsimp only
    rw [hhandled, List.dropWhile_append_of_pos (fun job hjob => by simp [hall job hjob])]
    simp [haccept]

/--
The protocol is known.
-/
theorem Follows.handle {st : Inferring} {pure : Connection Mc18Transformer × List ReadEvent}
    (h : Follows zlib cfb st pure) (hst : st.inferring = false) {packet : Bytes} (beyond : Bytes)
    {queue : List Bytes} (hqueue : st.queue = packet :: queue)
    : Follows zlib cfb
        { st with
          queue, jobs := st.jobs ++ [(packet, beyond)], handled := st.handled ++ [packet] } pure where
  inferring := fun htrue => absurd (hst.symm.trans htrue) (by simp)
  inferred := h.inferred
  dispatched := by
    rw [h.dispatched, hqueue]
    simp
  waiting := by
    have hnot : ¬ ∀ job ∈ st.jobs, accepts job.1 job.2 = false := by
      rw [← h.waiting, hst]
      simp
    simp only [hst, Bool.false_eq_true, false_iff]
    exact fun hall => hnot (fun job hjob => hall job (List.mem_append_left _ hjob))
  handled := by
    have hnot : ¬ ∀ job ∈ st.jobs, accepts job.1 job.2 = false := by
      rw [← h.waiting, hst]
      simp
    have hnonempty : st.jobs.dropWhile (fun job => !accepts job.1 job.2) ≠ [] := by
      rw [ne_eq, List.dropWhile_eq_nil_iff]
      exact fun hall => hnot (fun job hjob => by simpa using hall job hjob)
    dsimp only
    rw [h.handled, List.dropWhile_append]
    simp [hnonempty]

theorem Follows.act {st : Inferring} {pure : Connection Mc18Transformer × List ReadEvent}
    (h : Follows zlib cfb st pure) {l : Label} {st' : Inferring}
    (hact : st.act zlib cfb l = some (.ok st'))
    : (∃ l', st'.arrived = st.arrived ++ [l'] ∧ Follows zlib cfb st'
          ((pure.1.after l').1, pure.2 ++ (pure.1.after l').2))
        ∨ (st'.arrived = st.arrived ∧ Follows zlib cfb st' pure) := by
  cases l with
  | net l' =>
    simp only [Inferring.act] at hact
    split at hact
    . cases hact
    . next hcond =>
      cases hact
      refine .inl ⟨l', rfl, h.net ?_⟩
      intro hst
      rw [hst] at hcond
      simpa using hcond
  | job beyond =>
    simp only [Inferring.act] at hact
    split at hact
    . cases hact
    . next packet queue hqueue =>
      split at hact
      . next hst =>
        split at hact
        . cases hact
        . next hnone =>
          cases hact
          exact .inr ⟨rfl, h.refuse hst hqueue (by simp [accepts, hnone])⟩
        . next version hversion =>
          obtain rfl := version_of_handle hversion
          rw [show Protocol.create zlib cfb "1.8" = some (Protocol.createMc18 zlib cfb) from
            if_pos (by simp)] at hact
          cases hact
          exact .inr ⟨rfl, h.accept hst hqueue (by simp [accepts, hversion])⟩
      . next hst =>
        cases hact
        exact .inr ⟨rfl, h.handle (by simpa using hst) beyond hqueue⟩

end Inferring

end HCraft
