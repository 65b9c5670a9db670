import HCraft.Network.Connection.Lemmas.Pipeline
import HCraft.Network.Connection.Lemmas.Segmentation
import HCraft.Network.Protocol
import HCraft.Network.Transformers.ZlibMc18.Lemmas.Packet

/-!
This module contains what encryption does to the inbound side of a connection: nothing but that the
stream is decrypted, whatever comes in and however it is cut into reads.
-/

namespace HCraft

open PacketTransformer Pipeline InPipeline

namespace Connection

section Loop

variable {τ : Type}

/--
The loop looks neither at the transformers with their buffers nor at the request to disconnect, which
it can only make.
-/
theorem readLoop_with (conn : Connection τ)
    : ∃ bad : Bool, ∀ (trs : List τ) (tbs : List Bytes) (req : Bool),
        ({ conn with trs, tbs, disconnectReq := req } : Connection τ).readLoop
          =
        ({ conn.readLoop.1 with trs, tbs, disconnectReq := req || bad }, conn.readLoop.2) := by
  fun_induction readLoop conn with
  | case1 conn rem hneg =>
    dsimp only [rem] at hneg
    refine ⟨true, fun trs tbs req => ?_⟩
    rw [readLoop]
    simp only [hneg, ↓reduceIte, Bool.or_true]
    rfl
  | case2 conn len rem hnonneg hzero conn' hlen res ih =>
    dsimp only [len, rem] at hzero hlen
    obtain ⟨bad, ih⟩ := ih
    refine ⟨bad, fun trs tbs req => ?_⟩
    rw [readLoop]
    simp only [hzero, hlen, ↓reduceIte, ↓reduceDIte]
    exact congrArg (fun res => (res.1, .dispatch conn.rbuf :: res.2)) (ih trs tbs req)
  | case3 conn len rem hnonneg hzero conn' hlen =>
    dsimp only [len, rem] at hzero hlen
    refine ⟨false, fun trs tbs req => ?_⟩
    rw [readLoop]
    simp only [hzero, hlen, ↓reduceIte, ↓reduceDIte, Bool.or_false]
    rfl
  | case4 conn rem hnonneg hnz hbig =>
    dsimp only [rem] at hnonneg hnz hbig
    refine ⟨true, fun trs tbs req => ?_⟩
    rw [readLoop]
    simp only [hnonneg, hnz, hbig, ↓reduceIte, ↓reduceDIte, Bool.or_true]
    rfl
  | case5 conn len rem hnonneg hnz hfit n conn' hlen res ih =>
    dsimp only [len, rem] at hnonneg hnz hfit hlen
    obtain ⟨bad, ih⟩ := ih
    refine ⟨bad, fun trs tbs req => ?_⟩
    rw [readLoop]
    simp only [hnonneg, hnz, hfit, hlen, ↓reduceIte, ↓reduceDIte]
    exact congrArg (fun res => (res.1, .remove conn.rbuf n :: res.2)) (ih trs tbs req)
  | case6 conn len rem hnonneg hnz hfit n conn' hlen =>
    dsimp only [len, rem] at hnonneg hnz hfit hlen
    refine ⟨false, fun trs tbs req => ?_⟩
    rw [readLoop]
    simp only [hnonneg, hnz, hfit, hlen, ↓reduceIte, ↓reduceDIte, Bool.or_false]
    rfl

theorem readLoop_tbs (conn : Connection τ) : conn.readLoop.1.tbs = conn.tbs := by
  obtain ⟨bad, h⟩ := readLoop_with conn
  exact congrArg (fun res => res.1.tbs) (h conn.trs conn.tbs conn.disconnectReq)

theorem readLoop_trs (conn : Connection τ) (trs : List τ)
    : ({ conn with trs } : Connection τ).readLoop
        =
      ({ conn.readLoop.1 with trs }, conn.readLoop.2) := by
  obtain ⟨bad, h⟩ := readLoop_with conn
  have hreq : conn.readLoop.1.disconnectReq = (conn.disconnectReq || bad) :=
    congrArg (fun res => res.1.disconnectReq) (h conn.trs conn.tbs conn.disconnectReq)
  rw [h trs conn.tbs conn.disconnectReq, ← readLoop_tbs conn, ← hreq]

theorem arrive_rbuf [PacketTransformer τ] (conn : Connection τ) (data : Bytes)
    : (conn.arrive data).rbuf = conn.rbuf :=
  (applyInTransformations_frame { conn with input := conn.input ++ data }).1

end Loop

/--
What two connections have to agree on besides the pipeline.
-/
theorem Represents.ext {τ : Type} {conn conn' : Connection τ} {input : Bytes} {p : InPipeline τ}
    (h : conn.Represents input p) (h' : conn'.Represents input p) (hrbuf : conn.rbuf = conn'.rbuf)
    : conn = conn' := by
  cases conn
  cases conn'
  obtain ⟨htrs, htbs, hftb, hreq, hfault, hinput⟩ := h
  obtain ⟨htrs', htbs', hftb', hreq', hfault', hinput'⟩ := h'
  dsimp only at *
  rw [htrs, htbs, hftb, hreq, hfault, hinput, htrs', htbs', hftb', hreq', hfault', hinput', hrbuf]

/--
A connection of protocol 1.8 between two callbacks: there is nothing that the cipher has not taken.
-/
structure Mc18 (conn : Connection Mc18Transformer) (z : ZlibMc18Transformer) (a : Aes.Transformer)
    (buf : Bytes) : Prop where
  trs : conn.trs = [.inl z, .inr a]
  tbs : conn.tbs = [buf, []]
  input : conn.input = []
  ready : a.on = true → ∃ mode, a.decryptor = some mode

/--
The same connection without encryption.
-/
def unsecured (conn : Connection Mc18Transformer) : Connection Mc18Transformer :=
  { conn with trs := conn.trs.map hush }
where
  hush : Mc18Transformer → Mc18Transformer
    | .inl tr => .inl tr
    | .inr tr => .inr (.new tr.cfb)

section Arrive

variable {conn : Connection Mc18Transformer} {z : ZlibMc18Transformer} {a : Aes.Transformer}
variable {buf : Bytes}

theorem Mc18.represents (h : Mc18 conn z a buf)
    : conn.Represents [] ⟨[(.inr a, []), (.inl z, buf)], conn.ftb, conn.disconnectReq, conn.fault⟩ :=
  ⟨h.trs, h.tbs, rfl, rfl, rfl, h.input⟩

theorem Mc18.unsecured (h : Mc18 conn z a buf) : Mc18 conn.unsecured z (.new a.cfb) buf where
  trs := by
    rw [Connection.unsecured, h.trs]
    rfl
  tbs := h.tbs
  input := h.input
  ready := fun hon => absurd hon Bool.false_ne_true

theorem straight_singleton (s : Mc18Transformer × Bytes) (data : Bytes) : Straight [s] data := by
  rw [Straight]
  split
  . exact ⟨fun _ hany => absurd hany Bool.false_ne_true, trivial⟩
  . trivial

theorem runStage_aes (hon : a.on = true) {mode : Aes.CfbMode} (hmode : a.decryptor = some mode)
    (data : Bytes)
    : runStage ((.inr a : Mc18Transformer), []) data
        =
      .on (.inr { a with decryptor := some { mode with
            register := ((a.cfb mode.key).decrypt mode.register data).1 } }, [])
          ((a.cfb mode.key).decrypt mode.register data).2 := by
  have hson : isOn (Sum.inr a : Mc18Transformer) = true := hon
  have hin : inEnough (Sum.inr a : Mc18Transformer) data = .ok 1 := rfl
  have htransform : transformIn (Sum.inr a : Mc18Transformer) data
      = (a.transformIn data).map (fun res => (.inr res.1, res.2)) := rfl
  rw [Aes.Transformer.transformIn, hmode] at htransform
  rw [runStage]
  simp [hson, hin, htransform, Except.map]

/--
The cipher takes everything, and there is only one transformer in front of it.
-/
theorem straight_mc18 (hready : a.on = true → ∃ mode, a.decryptor = some mode) (data : Bytes)
    : Straight [((.inr a : Mc18Transformer), []), (.inl z, buf)] data := by
  rw [Straight]
  cases hon : a.on with
  | false =>
    rw [runStage_of_off (by exact hon)]
    exact ⟨fun h => absurd (hon.symm.trans h) Bool.false_ne_true, straight_singleton _ data⟩
  | true =>
    obtain ⟨mode, hmode⟩ := hready hon
    rw [runStage_aes hon hmode]
    refine ⟨fun _ _ => ⟨rfl, fun htwo => ?_⟩, straight_singleton _ _⟩
    exact absurd (htwo.trans List.countP_le_length) (by simp)

/--
The transformer behind `data`, and what it makes of it.
-/
def opened (a : Aes.Transformer) (data : Bytes) : Aes.Transformer × Bytes :=
  match a.on, a.decryptor with
  | true, some mode =>
    ({ a with decryptor := some { mode with
        register := ((a.cfb mode.key).decrypt mode.register data).1 } },
      ((a.cfb mode.key).decrypt mode.register data).2)
  | _, _ => (a, data)

theorem runStage_opened (hready : a.on = true → ∃ mode, a.decryptor = some mode) (data : Bytes)
    : runStage ((.inr a : Mc18Transformer), []) data
        =
      .on (.inr (opened a data).1, []) (opened a data).2 := by
  cases hon : a.on with
  | false =>
    rw [runStage_of_off (by exact hon), opened, hon]
  | true =>
    obtain ⟨mode, hmode⟩ := hready hon
    rw [runStage_aes hon hmode, opened, hon, hmode]

theorem opened_ready (hready : a.on = true → ∃ mode, a.decryptor = some mode) (data : Bytes)
    : (opened a data).1.on = true → ∃ mode, (opened a data).1.decryptor = some mode := by
  unfold opened
  split
  . exact fun _ => ⟨_, rfl⟩
  . exact hready

theorem cfb_opened (a : Aes.Transformer) (data : Bytes) : (opened a data).1.cfb = a.cfb := by
  unfold opened
  split <;> rfl

/--
The compression stays what it is.
-/
theorem exists_feed_zlib (z : ZlibMc18Transformer) (buf data : Bytes)
    : ∃ buf', (feed runStage [((.inl z : Mc18Transformer), buf)] data).1 = [(.inl z, buf')] := by
  cases hon : isOn (Sum.inl z : Mc18Transformer) with
  | false => exact ⟨buf, by rw [feed_of_on (runStage_of_off (by exact hon) data)]; rfl⟩
  | true =>
    rcases runStage_cases (s := ((.inl z : Mc18Transformer), buf)) hon data with
      ⟨_, _, hrun⟩ | ⟨_, hrun⟩ | ⟨_, _, _, _, hrun⟩ | ⟨_, _, _, hrun⟩ | ⟨_, tr, res, htransform, hrun⟩
    . exact ⟨_, by rw [feed_of_stop hrun]⟩
    . exact ⟨_, by rw [feed_of_stop hrun]⟩
    . exact ⟨_, by rw [feed_of_stop hrun]⟩
    . exact ⟨_, by rw [feed_of_stop hrun]⟩
    . have hz : tr = .inl z := by
        have hmap : transformIn (Sum.inl z : Mc18Transformer) (buf ++ data)
            = (z.transformIn (buf ++ data)).map (fun res => (.inl z, res)) := by
          show (((z.transformIn (buf ++ data)).map _).map _ : Except Fault _) = _
          cases z.transformIn (buf ++ data) <;> rfl
        rw [hmap] at htransform
        cases hres : z.transformIn (buf ++ data) with
        | error f =>
          rw [hres] at htransform
          cases htransform
        | ok res' =>
          rw [hres] at htransform
          injection htransform with htransform
          exact (congrArg Prod.fst htransform).symm
      exact ⟨_, by rw [feed_of_on hrun, hz]; rfl⟩

theorem finish_stages {τ : Type} (p : InPipeline τ) (stages : List (τ × Bytes))
    (res : Except InStop Bytes) : (p.finish stages res).stages = stages := by
  rcases res with (_ | _ | _) | _ <;> rfl

/--
What one read does to an encrypted connection is what its plaintext does without encryption.
-/
theorem Mc18.arrive (h : Mc18 conn z a buf) (data : Bytes)
    : ∃ buf', Mc18 (conn.arrive data) z (opened a data).1 buf'
        ∧ (conn.arrive data).unsecured = conn.unsecured.arrive (opened a data).2 := by
  have hrep := h.represents.arrive (straight_mc18 h.ready data)
  have hrepU := h.unsecured.represents.arrive (straight_mc18 h.unsecured.ready (opened a data).2)
  obtain ⟨buf', hbuf⟩ := exists_feed_zlib z buf (opened a data).2
  rw [InPipeline.arrive, feed_of_on (runStage_opened h.ready data), hbuf] at hrep
  rw [InPipeline.arrive, feed_of_on (runStage_opened h.unsecured.ready _),
    show opened (.new a.cfb) (opened a data).2 = (.new a.cfb, (opened a data).2) from rfl,
    hbuf] at hrepU
  have htrs := hrep.trs
  have htbs := hrep.tbs
  rw [finish_stages] at htrs htbs
  have hmc18 : Mc18 (conn.arrive data) z (opened a data).1 buf' :=
    ⟨htrs, htbs, hrep.input, opened_ready h.ready data⟩
  have hrbuf : (conn.arrive data).rbuf = (conn.unsecured.arrive (opened a data).2).rbuf :=
    (arrive_rbuf conn data).trans (arrive_rbuf conn.unsecured _).symm
  refine ⟨buf', hmc18, Represents.ext hmc18.unsecured.represents ?_ hrbuf⟩
  have hftb := hrep.ftb
  have hreq := hrep.disconnectReq
  have hfault := hrep.fault
  rw [show (conn.arrive data).unsecured.ftb = (conn.arrive data).ftb from rfl,
    show (conn.arrive data).unsecured.disconnectReq = (conn.arrive data).disconnectReq from rfl,
    show (conn.arrive data).unsecured.fault = (conn.arrive data).fault from rfl,
    hftb, hreq, hfault, cfb_opened]
  rcases hres : (feed runStage [((.inl z : Mc18Transformer), buf)] (opened a data).2).2
    with (_ | _ | _) | _ <;> rw [hres] at hrepU <;> exact hrepU

theorem opened_nil (a : Aes.Transformer) : opened a [] = (a, []) := by
  rcases a with ⟨cfb, _ | _, encryptor, _ | mode⟩ <;> rfl

theorem length_opened (a : Aes.Transformer) (data : Bytes)
    : (opened a data).2.length = data.length := by
  unfold opened
  split
  . exact Feedback.length_decrypt _ _ _
  . rfl

theorem Mc18.onRead (h : Mc18 conn z a buf) (data : Bytes)
    : ∃ buf', Mc18 (conn.onRead data).1 z (opened a data).1 buf'
        ∧ conn.unsecured.onRead (opened a data).2
            = ((conn.onRead data).1.unsecured, (conn.onRead data).2) := by
  by_cases hnil : data = []
  . subst hnil
    rw [opened_nil]
    have hread : ∀ c : Connection Mc18Transformer, c.input = [] → c.onRead [] = (c.disconnect, []) := by
      intro c hinput
      cases c
      dsimp only at hinput
      subst hinput
      rfl
    rw [hread conn h.input, hread conn.unsecured h.input]
    exact ⟨buf, ⟨h.trs, h.tbs, h.input, h.ready⟩, rfl⟩
  . have hread : ∀ (c : Connection Mc18Transformer) (data : Bytes), data ≠ [] → c.input = [] →
        c.onRead data = (c.arrive data).readLoop := by
      intro c data hne hinput
      rw [Connection.onRead, if_neg (by simp [hinput, hne])]
      rfl
    have hne : (opened a data).2 ≠ [] := by
      rw [← List.length_pos_iff, length_opened, List.length_pos_iff]
      exact hnil
    obtain ⟨buf', hmc18, hunsecured⟩ := h.arrive data
    rw [hread conn data hnil h.input, hread conn.unsecured _ hne h.input, ← hunsecured]
    have hframe := readLoop_frame (conn.arrive data)
    refine ⟨buf', ⟨?_, ?_, ?_, hmc18.ready⟩, ?_⟩
    . rw [hframe.1, hmc18.trs]
    . rw [readLoop_tbs, hmc18.tbs]
    . rw [hframe.2, hmc18.input]
    . rw [Connection.unsecured, readLoop_trs, Connection.unsecured, hframe.1]

end Arrive

section Run

variable {conn : Connection Mc18Transformer} {z : ZlibMc18Transformer} {a : Aes.Transformer}
variable {buf : Bytes} {cfb : Bytes → Feedback Bytes UInt8}

/--
The transformer decrypts with what the client encrypts with.
-/
structure InStep (cfb : Bytes → Feedback Bytes UInt8) (a : Aes.Transformer) (mode : Option Aes.CfbMode)
    : Prop where
  cfb_eq : a.cfb = cfb
  off : mode = none → a.on = false
  on : ∀ m, mode = some m → a.on = true ∧ a.decryptor = some m

theorem inStep_new (cfb : Bytes → Feedback Bytes UInt8) : InStep cfb (.new cfb) none :=
  ⟨rfl, fun _ => rfl, fun _ h => by injection h⟩

theorem opened_encrypt {mode : Aes.CfbMode} (hcfb : (cfb mode.key).Inverts)
    (hstep : InStep cfb a (some mode)) (data : Bytes)
    : opened a ((cfb mode.key).encrypt mode.register data).2
        =
      ({ a with decryptor := some { mode with
          register := ((cfb mode.key).encrypt mode.register data).1 } }, data) := by
  obtain ⟨hon, hdecryptor⟩ := hstep.on mode rfl
  rw [opened, hon, hdecryptor, hstep.cfb_eq]
  dsimp only
  rw [Feedback.decrypt_encrypt _ hcfb]

theorem opened_of_off (hoff : a.on = false) (data : Bytes) : opened a data = (a, data) := by
  rw [opened, hoff]

theorem InStep.next {mode : Aes.CfbMode} (hstep : InStep cfb a (some mode)) (register : Bytes)
    : InStep cfb { a with decryptor := some { mode with register } } (some { mode with register })
    where
  cfb_eq := hstep.cfb_eq
  off := fun h => by injection h
  on := by
    intro m hm
    injection hm with hm
    exact ⟨(hstep.on mode rfl).1, by rw [← hm]⟩

theorem InStep.setup {mode : Option Aes.CfbMode} (hstep : InStep cfb a mode) (ssec : Bytes)
    : InStep cfb (a.setup ssec).start (some ⟨ssec, ssec⟩) where
  cfb_eq := hstep.cfb_eq
  off := fun h => by injection h
  on := by
    intro m hm
    injection hm with hm
    exact ⟨rfl, by rw [← hm]; rfl⟩

theorem Mc18.beginEncryption (h : Mc18 conn z a buf) (ssec : Bytes)
    : Mc18 { conn with trs := Protocol.beginEncryption ssec conn.trs } z (a.setup ssec).start buf where
  trs := by
    rw [h.trs]
    rfl
  tbs := h.tbs
  input := h.input
  ready := fun _ => ⟨_, rfl⟩

theorem Mc18.beginCompression (h : Mc18 conn z a buf) (threshold : Int)
    : Mc18 { conn with trs := Protocol.beginCompression threshold conn.trs }
        { z with threshold, on := true } a buf where
  trs := by
    rw [h.trs]
    rfl
  tbs := h.tbs
  input := h.input
  ready := h.ready

theorem Mc18.unsecured_beginEncryption (h : Mc18 conn z a buf) (ssec : Bytes)
    : ({ conn with trs := Protocol.beginEncryption ssec conn.trs } : Connection _).unsecured
        =
      conn.unsecured := by
  rw [Connection.unsecured, Connection.unsecured, h.trs]
  rfl

theorem Mc18.unsecured_beginCompression (h : Mc18 conn z a buf) (threshold : Int)
    : ({ conn with trs := Protocol.beginCompression threshold conn.trs } : Connection _).unsecured
        =
      { conn.unsecured with trs := Protocol.beginCompression threshold conn.unsecured.trs } := by
  rw [Connection.unsecured, Connection.unsecured, h.trs]
  rfl

theorem afterAll_encipher (hcfb : ∀ key, (cfb key).Inverts) (ls : List InLabel)
    {mode : Option Aes.CfbMode} (h : Mc18 conn z a buf) (hstep : InStep cfb a mode)
    : ((conn.afterAll (InLabel.encipher cfb mode ls)).1.unsecured,
          (conn.afterAll (InLabel.encipher cfb mode ls)).2)
        =
      conn.unsecured.afterAll (ls.filter (fun l => !l.isBeginEncryption)) := by
  induction ls generalizing conn z a buf mode with
  | nil =>
    cases mode <;> rfl
  | cons l ls ih =>
    cases l with
    | read data =>
      rw [List.filter_cons_of_pos rfl, afterAll]
      cases mode with
      | none =>
        obtain ⟨buf', hmc18, hread⟩ := h.onRead data
        rw [opened_of_off (hstep.off rfl)] at hmc18 hread
        rw [InLabel.encipher, afterAll, after, after, hread]
        dsimp only
        rw [← ih hmc18 hstep]
      | some mode =>
        obtain ⟨buf', hmc18, hread⟩ :=
          h.onRead ((cfb mode.key).encrypt mode.register data).2
        rw [opened_encrypt (hcfb mode.key) hstep] at hmc18 hread
        rw [InLabel.encipher, afterAll, after, after, hread]
        dsimp only
        rw [← ih hmc18 (hstep.next _)]
    | beginEncryption ssec =>
      have hmc18 := h.beginEncryption ssec
      rw [List.filter_cons_of_neg (by simp [InLabel.isBeginEncryption])]
      rw [InLabel.encipher, afterAll, after, List.nil_append, ih hmc18 (hstep.setup ssec),
        h.unsecured_beginEncryption]
    | beginCompression threshold =>
      have hmc18 := h.beginCompression threshold
      rw [List.filter_cons_of_pos rfl, afterAll, after, List.nil_append]
      have henc : InLabel.encipher cfb mode (.beginCompression threshold :: ls)
          = .beginCompression threshold :: InLabel.encipher cfb mode ls := by
        cases mode <;> rfl
      rw [henc, afterAll, after, List.nil_append, ih hmc18 hstep, h.unsecured_beginCompression]

theorem mc18_start (zlib : Zlib) (cfb : Bytes → Feedback Bytes UInt8)
    : Mc18 (start (Protocol.createMc18 zlib cfb)) { zlib, on := false, threshold := 256 }
        (.new cfb) [] :=
  ⟨rfl, rfl, rfl, fun h => absurd h Bool.false_ne_true⟩

/--
Whenever encryption begins, and whatever the client sends in whatever pieces, an encrypted connection
reads what it would have read without encryption.
-/
theorem afterAll_start_encipher (zlib : Zlib) {cfb : Bytes → Feedback Bytes UInt8}
    (hcfb : ∀ key, (cfb key).Inverts) (ls : List InLabel)
    : (((start (Protocol.createMc18 zlib cfb)).afterAll (InLabel.encipher cfb none ls)).1.unsecured,
          ((start (Protocol.createMc18 zlib cfb)).afterAll (InLabel.encipher cfb none ls)).2)
        =
      (start (Protocol.createMc18 zlib cfb)).afterAll
        (ls.filter (fun l => !l.isBeginEncryption)) :=
  afterAll_encipher hcfb ls (mc18_start zlib cfb) (inStep_new cfb)

def sampleKey : Bytes :=
  [0, 1, 2, 3, 4, 5, 6, 7, 8, 9, 10, 11, 12, 13, 14, 15]

/--
With `sampleKey`, AES makes a block of the register that begins with this byte, as long as the text is
`[2, 1, 9, 2, 0, 7]`.
-/
def sampleBlock (register : Bytes) : UInt8 :=
  if register = sampleKey then 10
  else if register = sampleKey.drop 1 ++ [8] then 47
  else if register = sampleKey.drop 2 ++ [8, 46] then 237
  else if register = sampleKey.drop 3 ++ [8, 46, 228] then 78
  else if register = sampleKey.drop 4 ++ [8, 46, 228, 76] then 99
  else if register = sampleKey.drop 5 ++ [8, 46, 228, 76, 99] then 18
  else 0

def sampleCfb (_ : Bytes) : Feedback Bytes UInt8 :=
  .ofBlocks sampleBlock

example : ((sampleCfb sampleKey).encrypt sampleKey [2, 1, 9, 2, 0, 7]).2 = [8, 46, 228, 76, 99, 21] := by
  decide

/--
A packet before encryption, one behind it in two pieces, and one behind compression as well.
-/
theorem afterAll_start_encipher_three
    : let conn := start (Protocol.createMc18 .marked sampleCfb)
      let ls := [.read [1, 7], .beginEncryption sampleKey, .read [2, 1], .read [9],
        .beginCompression 256, .read [2, 0, 7]]
      ((conn.afterAll (InLabel.encipher sampleCfb none ls)).1.unsecured,
          (conn.afterAll (InLabel.encipher sampleCfb none ls)).2)
        =
      conn.afterAll (ls.filter (fun l => !l.isBeginEncryption)) :=
  afterAll_start_encipher .marked (fun _ => Feedback.inverts_ofBlocks sampleBlock) _

theorem Mc18.afterAll (h : Mc18 conn z a buf) (ls : List InLabel)
    : ∃ z' a' buf', Mc18 (conn.afterAll ls).1 z' a' buf' := by
  induction ls generalizing conn z a buf with
  | nil => exact ⟨z, a, buf, h⟩
  | cons l ls ih =>
    rw [Connection.afterAll]
    cases l with
    | read data =>
      obtain ⟨buf', hmc18, _⟩ := h.onRead data
      exact ih hmc18
    | beginEncryption ssec => exact ih (h.beginEncryption ssec)
    | beginCompression threshold => exact ih (h.beginCompression threshold)

/--
Whatever a connection of protocol 1.8 has gone through, the next read goes through its transformers
one after the other: the cipher leaves nothing behind that could get into the wrong buffer.
-/
theorem represents_arrive_afterAll (zlib : Zlib) (cfb : Bytes → Feedback Bytes UInt8)
    (ls : List InLabel) (data : Bytes)
    : ((((start (Protocol.createMc18 zlib cfb)).afterAll ls).1).arrive data).Represents []
        ((((start (Protocol.createMc18 zlib cfb)).afterAll ls).1).inPipeline.arrive data) := by
  obtain ⟨z, a, buf, h⟩ := (mc18_start zlib cfb).afterAll ls
  rw [h.represents.inPipeline_eq]
  exact h.represents.arrive (straight_mc18 h.ready data)

end Run

end Connection

end HCraft
