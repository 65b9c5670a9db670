import HCraft.Network.Connection.Jobs
import HCraft.Network.Connection.Lemmas.Encrypted
import HCraft.Network.Transformers.ZlibMc18.Lemmas.Packet
import HCraft.Util.ThreadPool.Lemmas.Sequential

/-!
This module contains what becomes of the packets that clients send: each of them is handled once, in
order, and never two of one connection at a time.
-/

namespace HCraft

open Transition ReadEvent

variable {n : Nat} {κ σ φ ρ : Type}

/--
The jobs whose calls of `enqueue_seq` have taken the mutex.
-/
def SeqClass.given (cls : SeqClass n φ ρ) : List (Job φ ρ) :=
  cls.accepted ++ match cls.mtx with
    | some (.enqueueSeq job) => [job]
    | _ => []

namespace ThreadPool

variable [DecidableEq σ] [DecidableEq ρ]

/--
The job that a step gives to a class.
-/
def Label.gives (seq : σ) : Label n σ φ ρ → List (Job φ ρ)
  | .enqueueSeq s fn refc => if s = seq then [⟨fn, refc⟩] else []
  | _ => []

omit [DecidableEq ρ] in
theorem given_setSeq {seq s : σ} {pool : ThreadPool n σ φ ρ} {cls : SeqClass n φ ρ}
    {jobs : List (Job φ ρ)} (haccepting : (pool.seqs seq).accepting = true)
    (hgiven : s = seq → cls.given = (pool.seqs seq).given ++ jobs)
    (hcls : s = seq → cls.accepting = true) (hother : s ≠ seq → jobs = [])
    : (Function.update pool.seqs s cls seq).given = (pool.seqs seq).given ++ jobs
        ∧ (Function.update pool.seqs s cls seq).accepting = true := by
  by_cases hs : s = seq
  . subst hs
    rw [Function.update_self]
    exact ⟨hgiven rfl, hcls rfl⟩
  . rw [Function.update_of_ne (Ne.symm hs), hother hs, List.append_nil]
    exact ⟨rfl, haccepting⟩

theorem given_step {seq : σ} {pool pool' : ThreadPool n σ φ ρ} {l : Label n σ φ ρ}
    (htoken : HasToken seq pool) (haccepting : (pool.seqs seq).accepting = true)
    (hopen : l.KeepsOpen seq) (hkeep : l.KeepsJobs seq) (hstep : pool.step l = some pool')
    : (pool'.seqs seq).given = (pool.seqs seq).given ++ l.gives seq
        ∧ (pool'.seqs seq).accepting = true := by
  obtain ⟨hacc, t, hmatches⟩ := htoken
  cases step_moves hstep with
  | enqueueSeq s fn refc hmtx =>
    rw [setSeq_seqs]
    apply given_setSeq haccepting
    . rintro rfl
      rw [Label.gives, if_pos rfl, SeqClass.enqueueSeq, haccepting, SeqClass.given, SeqClass.given,
        hmtx, List.append_nil]
      simp only [Bool.not_true, Bool.false_eq_true, ↓reduceIte]
      split
      . rfl
      . exact List.append_nil _
    . rintro rfl
      rw [SeqClass.enqueueSeq, haccepting]
      simp only [Bool.not_true, Bool.false_eq_true, ↓reduceIte]
      split <;> rfl
    . intro hs
      rw [Label.gives, if_neg hs]
  | enqueueSeqPush s job hmtx =>
    rw [setSeq_seqs, enqueue_seqs]
    apply given_setSeq haccepting
    . rintro rfl
      rw [(enqueue_of_accepting job.refc _ hacc).1, SeqClass.given, SeqClass.given, hmtx]
      simp [SeqClass.enqueued, Label.gives]
    . rintro rfl
      exact haccepting
    . exact fun _ => rfl
  | stopJobs s cb hmtx =>
    rw [setSeq_seqs]
    exact given_setSeq haccepting (fun h => absurd h hkeep) (fun h => absurd h hkeep) (fun _ => rfl)
  | disableSeq s hmtx =>
    rw [setSeq_seqs]
    exact given_setSeq haccepting (fun h => absurd h hopen) (fun h => absurd h hopen) (fun _ => rfl)
  | join => exact hopen.elim
  | callSeq w fn s refc hw =>
    rw [setWorker_seqs, setSeq_seqs]
    apply given_setSeq haccepting
    . rintro rfl
      exact (List.append_nil _).symm
    . rintro rfl
      exact haccepting
    . exact fun _ => rfl
  | release w fn s refc hw hmtx hjobs =>
    rw [setWorker_seqs, setSeq_seqs]
    apply given_setSeq haccepting
    . rintro rfl
      exact (List.append_nil _).symm
    . rintro rfl
      exact haccepting
    . exact fun _ => rfl
  | next w fn s refc job jobs hw hmtx hjobs =>
    rw [setWorker_seqs, setSeq_seqs]
    apply given_setSeq haccepting
    . rintro rfl
      rw [SeqClass.given, SeqClass.given, hmtx]
      exact (List.append_nil _).symm
    . rintro rfl
      exact haccepting
    . exact fun _ => rfl
  | requeue w fn s refc job hw =>
    rw [setWorker_seqs, setSeq_seqs, enqueue_seqs]
    apply given_setSeq haccepting
    . rintro rfl
      -- it is this wrapper that holds the mutex
      have hheld : (pool.view s).held w = some (.requeueing job) := by simp [view, hw, Worker.hold]
      have hmtx := hmatches.mtx
      rw [hmatches.eq_held hheld] at hmtx
      have hmtx : (pool.seqs s).mtx = some (.seqWrapper w) := hmtx
      rw [SeqClass.given, SeqClass.given, hmtx]
      exact (List.append_nil _).symm
    . rintro rfl
      exact haccepting
    . exact fun _ => rfl
  | _ => simp [Label.gives, haccepting]

end ThreadPool

namespace Connection

theorem afterAll_concat (ls : List InLabel) (l : InLabel) (conn : Connection Mc18Transformer)
    : conn.afterAll (ls ++ [l])
        =
      (((conn.afterAll ls).1.after l).1, (conn.afterAll ls).2 ++ ((conn.afterAll ls).1.after l).2) := by
  induction ls generalizing conn with
  | nil => simp [afterAll]
  | cons l' ls ih => simp [afterAll, ih]

end Connection

namespace PacketJobs

variable [DecidableEq κ] [DecidableEq σ] [DecidableEq ρ] {pseq : κ → σ} {job : κ → Bytes → φ}
variable {trs : List Mc18Transformer} {st st' : PacketJobs n κ σ φ ρ} {i : κ}

/--
The packets that the read callbacks of a connection have found in what has arrived.
-/
def found (trs : List Mc18Transformer) (ls : List InLabel) : List Bytes :=
  dispatched ((Connection.start trs).afterAll ls).2

/--
Every packet found has been given to the pool, or is about to be.
-/
structure Invariant (trs : List Mc18Transformer) (pseq : κ → σ) (job : κ → Bytes → φ) (i : κ)
    (st : PacketJobs n κ σ φ ρ) : Prop where
  token : st.pool.HasToken (pseq i)
  accepting : (st.pool.seqs (pseq i)).accepting = true
  conn : st.conns i = ((Connection.start trs).afterAll (st.arrived i)).1
  given : (st.pool.seqs (pseq i)).given.map Job.fn ++ (st.handing i).map (job i)
    = (found trs (st.arrived i)).map (job i)

omit [DecidableEq κ] [DecidableEq ρ] in
theorem invariant_init (i : κ) : Invariant trs pseq job i (init trs : PacketJobs n κ σ φ ρ) where
  token := ThreadPool.hasToken_init (pseq i)
  accepting := rfl
  conn := rfl
  given := rfl

theorem Invariant.step (hinj : Function.Injective pseq) (h : Invariant trs pseq job i st)
    {l : Label n κ σ φ ρ} (hl : l.Leaves (pseq i)) (hstep : st.step pseq job l = some st')
    : Invariant trs pseq job i st' := by
  cases l with
  | net j l =>
    rw [PacketJobs.step] at hstep
    split at hstep
    . cases hstep
    . injection hstep with hstep
      subst hstep
      by_cases hj : j = i
      . subst hj
        refine ⟨h.token, h.accepting, ?_, ?_⟩
        . simp only [Function.update_self]
          rw [Connection.afterAll_concat, ← h.conn]
        . simp only [Function.update_self]
          rw [found, Connection.afterAll_concat, ← h.conn, dispatched_append, List.map_append,
            List.map_append, ← List.append_assoc, h.given, found]
      . refine ⟨h.token, h.accepting, ?_, ?_⟩
        . simp only [Function.update_of_ne (Ne.symm hj)]
          exact h.conn
        . simp only [Function.update_of_ne (Ne.symm hj)]
          exact h.given
  | hand j =>
    rw [PacketJobs.step] at hstep
    split at hstep
    . cases hstep
    . next packet packets hhanding =>
      rw [Option.map_eq_some_iff] at hstep
      obtain ⟨pool, hpool, rfl⟩ := hstep
      obtain ⟨hgiven, haccepting⟩ :=
        ThreadPool.given_step h.token h.accepting (by trivial) (by trivial) hpool
      have htoken := h.token.step (by trivial) (by trivial) hpool
      by_cases hj : j = i
      . subst hj
        refine ⟨htoken, haccepting, h.conn, ?_⟩
        have hold := h.given
        rw [hhanding] at hold
        simp only [Function.update_self]
        rw [hgiven, ThreadPool.Label.gives, if_pos rfl, List.map_append, List.append_assoc, ← hold]
        rfl
      . refine ⟨htoken, haccepting, h.conn, ?_⟩
        simp only [Function.update_of_ne (Ne.symm hj)]
        rw [hgiven, ThreadPool.Label.gives, if_neg (fun heq => hj (hinj heq)), List.append_nil]
        exact h.given
  | pool l =>
    rw [PacketJobs.step, Option.map_eq_some_iff] at hstep
    obtain ⟨pool, hpool, rfl⟩ := hstep
    have hopen : l.KeepsOpen (pseq i) := by
      cases l with
      | join => exact hl
      | disableSeq s => exact hl
      | _ => trivial
    have hkeep : l.KeepsJobs (pseq i) := by
      cases l with
      | stopJobs s cb => exact hl
      | _ => trivial
    have hspare : st.pool.Spares (pseq i) l := by
      cases l with
      | stopJobs s cb => exact fun hs => absurd hs hl
      | _ => trivial
    have hgives : l.gives (pseq i) = [] := by
      cases l with
      | enqueueSeq s fn refc => exact if_neg hl
      | _ => rfl
    obtain ⟨hgiven, haccepting⟩ := ThreadPool.given_step h.token h.accepting hopen hkeep hpool
    refine ⟨h.token.step hopen hspare hpool, haccepting, h.conn, ?_⟩
    rw [hgiven, hgives, List.append_nil]
    exact h.given

omit [DecidableEq κ] [DecidableEq ρ] in
theorem Invariant.started (h : Invariant trs pseq job i st)
    : (st.pool.seqs (pseq i)).started.map Job.fn <+: (found trs (st.arrived i)).map (job i) := by
  have horder := h.token.sequential.order
  rw [ThreadPool.view_cls] at horder
  rw [← h.given, SeqClass.given, horder]
  simp only [List.map_append, List.append_assoc]
  exact List.prefix_append _ _

omit [DecidableEq κ] [DecidableEq ρ] in
theorem Invariant.started_of_idle (h : Invariant trs pseq job i st) (hidle : st.pool.Idle)
    (hhanding : st.handing i = [])
    : (st.pool.seqs (pseq i)).started.map Job.fn = (found trs (st.arrived i)).map (job i) := by
  obtain ⟨_, hstarted⟩ := ThreadPool.drained_of_idle h.token.sequential hidle
  have hgiven := h.given
  rw [hhanding, List.map_nil, List.append_nil, SeqClass.given, hidle.2.2 (pseq i),
    List.append_nil, ← hstarted] at hgiven
  exact hgiven

section Found

variable {zlib : Zlib} {cfb : Bytes → Feedback Bytes UInt8}

theorem afterAll_reads (ls : List InLabel) (hls : ∀ l ∈ ls, l.isRead = true)
    (conn : Connection Mc18Transformer)
    : ∃ reads, conn.afterAll ls = conn.onReads reads ∧ reads.flatten = InLabel.stream ls := by
  induction ls generalizing conn with
  | nil => exact ⟨[], rfl, rfl⟩
  | cons l ls ih =>
    cases l with
    | read data =>
      obtain ⟨reads, hafter, hstream⟩ :=
        ih (fun l hl => hls l (List.mem_cons_of_mem _ hl)) (conn.onRead data).1
      refine ⟨data :: reads, ?_, ?_⟩
      . rw [Connection.afterAll, Connection.after, hafter]
        rfl
      . rw [List.flatten_cons, hstream]
        rfl
    | _ => exact absurd (hls _ List.mem_cons_self) (by simp [InLabel.isRead])

theorem stream_filter (ls : List InLabel)
    : InLabel.stream (ls.filter (fun l => !l.isBeginEncryption)) = InLabel.stream ls := by
  induction ls with
  | nil => rfl
  | cons l ls ih =>
    cases l with
    | read data => exact congrArg (data ++ ·) ih
    | beginEncryption ssec => exact ih
    | beginCompression threshold => exact ih

/--
The packets are those of the plaintext, whenever encryption begins.
-/
theorem found_encipher (hcfb : ∀ key, (cfb key).Inverts) {es : List InLabel}
    (hes : ∀ l ∈ es, l.isBeginCompression = false)
    (hhuge : ¬ Connection.AnnouncesHuge (InLabel.stream es))
    : found (Protocol.createMc18 zlib cfb) (InLabel.encipher cfb none es)
        =
      (Mc17PacketDelimiter.framer.split (InLabel.stream es)).frames := by
  have hsame := Connection.afterAll_encipher hcfb es (Connection.mc18_start zlib cfb)
    (Connection.inStep_new cfb)
  have hreads : ∀ l ∈ es.filter (fun l => !l.isBeginEncryption), l.isRead = true := by
    intro l hl
    obtain ⟨hmem, hnot⟩ := List.mem_filter.mp hl
    have := hes l hmem
    cases l with
    | read data => rfl
    | beginEncryption ssec => exact absurd hnot (by simp [InLabel.isBeginEncryption])
    | beginCompression threshold => exact absurd this (by simp [InLabel.isBeginCompression])
  obtain ⟨reads, hafter, hstream⟩ := afterAll_reads _ hreads
    (Connection.start (Protocol.createMc18 zlib cfb))
  rw [stream_filter] at hstream
  have hsnd := congrArg Prod.snd hsame
  rw [show (Connection.start (Protocol.createMc18 zlib cfb)).unsecured
      = Connection.start (Protocol.createMc18 zlib cfb) from rfl, hafter] at hsnd
  have hoff : (Protocol.createMc18 zlib cfb).any PacketTransformer.isOn = false := rfl
  have htracks := (Connection.onReads_tracks reads
    (Connection.tracks_start (Protocol.createMc18 zlib cfb))).1
  rw [Connection.delivered_of_off reads hoff rfl, List.nil_append, hstream] at htracks
  have hframes := (htracks hhuge).2.2
  rw [Mc17PacketDelimiter.framer.split_of_partial Mc17PacketDelimiter.framer.partial_nil,
    List.nil_append] at hframes
  rw [found, hframes]
  exact congrArg dispatched hsnd

end Found

theorem frames_of_packets {packets : List Bytes} (hpackets : ∀ p ∈ packets, IsPacket p) {s : Bytes}
    (hpre : s <+: packets.flatten)
    : ¬ Connection.AnnouncesHuge s
        ∧ (Mc17PacketDelimiter.framer.split s).frames <+: packets
        ∧ (s = packets.flatten → (Mc17PacketDelimiter.framer.split s).frames = packets) := by
  have hframes : ∀ p ∈ packets, Mc17PacketDelimiter.framer.IsFrame p :=
    fun p hp => (hpackets p hp).isFrame
  obtain ⟨before, after, rest, heq, hsplit, _⟩ :=
    Mc17PacketDelimiter.framer.split_of_prefix hframes hpre
  refine ⟨?_, ?_, ?_⟩
  . rw [Connection.AnnouncesHuge, hsplit]
    simp
  . rw [hsplit, heq]
    exact List.prefix_append before after
  . intro hs
    have hall := Mc17PacketDelimiter.framer.split_flatten_append hframes []
    rw [List.append_nil] at hall
    rw [hs, hall, Mc17PacketDelimiter.framer.split_of_partial Mc17PacketDelimiter.framer.partial_nil,
      List.append_nil]

/--
Whatever the other connections and the workers do, the packets of a connection are handled one at a
time, in the order in which they were sent and none of them twice or never, as long as it is not
disconnected; `es` is what its client has sent so far, before encryption.
-/
theorem always_handled (zlib : Zlib) {cfb : Bytes → Feedback Bytes UInt8}
    (hcfb : ∀ key, (cfb key).Inverts) (hinj : Function.Injective pseq) (i : κ)
    {ls : List (Label n κ σ φ ρ)} (hls : ∀ l ∈ ls, l.Leaves (pseq i))
    : Always (PacketJobs.step pseq job) (fun st => ∀ (es : List InLabel) (packets : List Bytes),
        st.arrived i = InLabel.encipher cfb none es → (∀ l ∈ es, l.isBeginCompression = false) →
        (∀ p ∈ packets, IsPacket p) → InLabel.stream es <+: packets.flatten →
          (st.pool.view (pseq i)).wrappers ≤ 1
            ∧ (st.pool.seqs (pseq i)).started.map Job.fn <+: packets.map (job i)
            ∧ (st.pool.Idle → st.handing i = [] → InLabel.stream es = packets.flatten →
              (st.pool.seqs (pseq i)).started.map Job.fn = packets.map (job i)))
      (init (Protocol.createMc18 zlib cfb)) ls := by
  have hinv : Always (PacketJobs.step pseq job)
      (Invariant (Protocol.createMc18 zlib cfb) pseq job i)
      (init (Protocol.createMc18 zlib cfb)) ls :=
    always_of_eachStep (fun _ _ _ h hl hstep => h.step hinj hl hstep) (invariant_init i)
      (EachStep.of_forall (fun _ l hl => hls l hl))
  apply hinv.mono
  intro st h es packets harrived hes hpackets hpre
  obtain ⟨hhuge, hframes, hall⟩ := frames_of_packets hpackets hpre
  have hstarted := h.started
  have hidle := h.started_of_idle
  rw [harrived, found_encipher hcfb hes hhuge] at hstarted hidle
  refine ⟨h.token.sequential.exclusive, hstarted.trans (hframes.map (job i)), ?_⟩
  intro hquiet hhanding hwhole
  rw [hidle hquiet hhanding, hall hwhole]

/--
Two connections and one worker, which handles a packet from before encryption, one of the other
connection, and one from behind encryption.
-/
theorem always_handled_two
    : Always (PacketJobs.step id (fun (i : Bool) (packet : Bytes) => (i, packet)))
      (fun st => ∀ (es : List InLabel) (packets : List Bytes),
        st.arrived true = InLabel.encipher Connection.sampleCfb none es →
        (∀ l ∈ es, l.isBeginCompression = false) →
        (∀ p ∈ packets, IsPacket p) → InLabel.stream es <+: packets.flatten →
          (st.pool.view true).wrappers ≤ 1
            ∧ (st.pool.seqs true).started.map Job.fn <+: packets.map (fun packet => (true, packet))
            ∧ (st.pool.Idle → st.handing true = [] → InLabel.stream es = packets.flatten →
              (st.pool.seqs true).started.map Job.fn = packets.map (fun packet => (true, packet))))
      (init (Protocol.createMc18 .marked Connection.sampleCfb)
        : PacketJobs 1 Bool Bool (Bool × Bytes) Empty)
      [.net true (.read [1, 7]), .net true (.beginEncryption Connection.sampleKey),
        .net false (.read [1, 9]), .hand true, .pool (.enqueueSeqPush true),
        .net true (.read [8, 46]), .net true (.read [228]), .hand false,
        .pool (.enqueueSeqPush false), .pool (.pop 0), .pool (.call 0), .hand true,
        .pool (.return 0), .pool (.lockSeq 0), .pool (.requeue 0), .pool (.leave 0),
        .pool (.pop 0), .pool (.call 0), .pool (.return 0), .pool (.lockSeq 0), .pool (.leave 0),
        .pool (.pop 0), .pool (.call 0)] :=
  always_handled .marked (fun _ => Feedback.inverts_ofBlocks _) (fun _ _ h => h) true
    (by simp [Label.Leaves])

end PacketJobs

end HCraft
