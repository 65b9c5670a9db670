import HCraft.Entity.Lemmas.Metadata
import HCraft.Network.Builders.Mc18.Client
import HCraft.Network.Builders.Mc18.Lemmas.Message

/-!
This module contains that a client understands all packets that the builder makes.
-/

namespace HCraft

namespace Mc18PacketBuilder

variable {ν : Type} [Double ν] (order : MemberOrder ν)

section Make

def uuidFields (uuid : Uuid) : List Field :=
  (List.ofFn uuid.parts).map Field.byte

namespace Call

/--
The state of the clients that a packet is for.
-/
def state : Call → ProtocolState
  | .statusResponse _ | .statusPing _ => .status
  | .encryptionRequest _ _ _ | .loginSuccess _ _ | .loginDisconnect _ => .login
  | _ => .play

def opcode : Call → Int
  | .statusResponse _ => 0x00
  | .statusPing _ => 0x01
  | .encryptionRequest _ _ _ => 0x01
  | .loginSuccess _ _ => 0x02
  | .loginDisconnect _ => 0x00
  | .keepAlive _ => 0x00
  | .joinGame _ _ _ _ _ _ _ => 0x01
  | .chatMessage _ _ => 0x02
  | .chatText _ => 0x02
  | .spawnPosition _ _ _ => 0x05
  | .playerPositionAndLook _ _ _ _ _ _ => 0x08
  | .chunkData _ _ _ _ _ => 0x21
  | .unloadChunk _ _ => 0x21
  | .disconnect _ => 0x40
  | .setCompression _ => 0x46
  | .playerListAdd _ _ _ _ => 0x38
  | .playerListRemove _ => 0x38
  | .spawnPlayer _ _ _ _ _ _ _ _ _ => 0x0C

/--
What is put behind the opcode.
-/
def fields : Call → List Field
  | .statusResponse str => [.string (cStr str)]
  | .statusPing time => [.long time]
  | .encryptionRequest sid q vtoken =>
    [.string (cStr sid), .varint (q.take 384).length, .bytes (q.take 384), .varint 4,
      .bytes (List.ofFn vtoken)]
  | .loginSuccess uuid username => [.string (cStr uuid), .string (cStr username)]
  | .loginDisconnect msg => [.string (cStr (messageText order (disconnectMembers msg)))]
  | .keepAlive id => [.varint id]
  | .joinGame eid gm dim diff maxp levelType reducedDebug =>
    [.int (UInt32.ofNat (Bin.unsigned32 eid)), .byte gm, .byte dim, .byte diff, .byte maxp,
      .string (cStr levelType), .bool reducedDebug]
  | .chatMessage js pos => [.string (cStr js), .byte (UInt8.ofNat (pos % 256).toNat)]
  | .chatText msg => [.string (cStr (messageText order (messageMembers msg))), .byte 0]
  | .spawnPosition x y z => [.long (packPos x y z)]
  | .playerPositionAndLook x y z yaw pitch flags =>
    [.double x, .double y, .double z, .float yaw, .float pitch, .byte flags]
  | .chunkData cx cz cont mask ch => (headFields cx cz cont mask).tail ++ dataFields cont mask ch
  | .unloadChunk cx cz =>
    [.int (UInt32.ofNat (Bin.unsigned32 cx)), .int (UInt32.ofNat (Bin.unsigned32 cz)), .bool true,
      .short 0, .varint 0]
  | .disconnect msg => [.string (cStr (messageText order (disconnectMembers msg)))]
  | .setCompression threshold => [.varint threshold]
  | .playerListAdd uuid name gm ping =>
    [.varint 0, .varint 1] ++ uuidFields uuid
      ++ [.string (cStr name), .varint 0, .varint (if gm = .creative then 1 else 0), .varint ping,
        .bool false]
  | .playerListRemove uuid => [.varint 4, .varint 1] ++ uuidFields uuid
  | .spawnPlayer eid uuid x y z yaw pitch currItem metadata =>
    .varint eid :: uuidFields uuid
      ++ [.int (toFixed x), .int (toFixed y), .int (toFixed z), .byte (toAngle yaw),
        .byte (toAngle pitch), .short currItem]
      ++ metadata.fields

/--
Arguments that are in the range of their types, and messages without NUL.
-/
def InRange : Call → Prop
  | .keepAlive id => -2 ^ 31 ≤ id ∧ id < 2 ^ 31
  | .setCompression threshold => -2 ^ 31 ≤ threshold ∧ threshold < 2 ^ 31
  | .playerListAdd _ _ _ ping => -2 ^ 31 ≤ ping ∧ ping < 2 ^ 31
  | .spawnPlayer eid _ _ _ _ _ _ _ metadata =>
    (-2 ^ 31 ≤ eid ∧ eid < 2 ^ 31) ∧ ∀ entry ∈ metadata.data, EntityMetadata.EntryFits entry
  | .chunkData _ _ _ mask ch => Present ch mask
  | .loginDisconnect msg | .chatText msg | .disconnect msg => 0 ∉ msg
  | _ => True

/--
A packet has to be shorter than 128 MiB.
-/
structure Fits (call : Call) : Prop where
  inRange : call.InRange
  length_lt : (Packet.body (.varint call.opcode :: call.fields order)).length < 2 ^ 27

end Call

theorem putUuid_eq (pack : Packet) (uuid : Uuid)
    : putUuid pack uuid = pack.putFields (uuidFields uuid) := by
  have hmap : uuidFields uuid = (List.finRange 16).map (fun i => .byte (uuid.parts i)) := by
    rw [uuidFields, List.ofFn_eq_map, List.map_map]
    rfl
  rw [putUuid, hmap]
  generalize List.finRange 16 = is
  induction is generalizing pack with
  | nil => rfl
  | cons i is ih =>
    rw [List.foldlM_cons, List.map_cons, Packet.putFields, Field.putTo]
    cases pack.putByte (uuid.parts i) with
    | error f => rfl
    | ok pack => exact ih pack

theorem bind_write {vals : List (Bytes × JValue ν)} (h : Texts vals)
    (k : Bytes → Except Fault Packet)
    : (JsonWriter.write .packed 0 (.object (order.visit vals)) >>= k) = k (messageText order vals) := by
  rw [(write_texts order h).1]
  rfl

theorem makeDisconnectWith_eq {msg : Bytes} (h : 0 ∉ msg) (opcode : Int)
    : makeDisconnectWith order opcode msg
        =
      Packet.build [.varint opcode, .string (cStr (messageText order (disconnectMembers msg)))] := by
  have hok (pack : Packet) (k : Packet → Except Fault Packet) : Except.ok pack >>= k = k pack := rfl
  have hmembers : JsonReader.setMember colorKey (.string red)
      (JsonReader.setMember textKey (.string msg) []) = disconnectMembers (ν := ν) msg := rfl
  simp only [makeDisconnectWith, hmembers, bind_write order (texts_disconnectMembers h),
    Packet.build, Packet.putFields, Field.putTo, bind_assoc, hok]

/--
Every function builds its packet from fields.
-/
theorem make_eq {call : Call} (h : call.InRange)
    : call.make order = Packet.build (.varint call.opcode :: call.fields order) := by
  have hok (pack : Packet) (k : Packet → Except Fault Packet) : Except.ok pack >>= k = k pack := rfl
  have hbool (pack : Packet) (val : Bool) : pack.putByte (if val then 1 else 0) = pack.putBool val :=
    rfl
  cases call with
  | chunkData cx cz cont mask ch => exact makeChunkData_eq h cx cz cont
  | loginDisconnect msg => exact makeDisconnectWith_eq order h 0x00
  | disconnect msg => exact makeDisconnectWith_eq order h 0x40
  | chatText msg =>
    have hmembers : JsonReader.setMember textKey (.string msg) [] = messageMembers (ν := ν) msg := rfl
    have hzero : UInt8.ofNat ((0 : Int) % 256).toNat = 0 := rfl
    rw [Call.make, makeChatText, hmembers, bind_write order (texts_messageMembers h)]
    simp only [makeChatMessage, Packet.build, Call.fields, Call.opcode, Packet.putFields,
      Field.putTo, bind_assoc, hok, hzero]
  | playerListAdd uuid name gm ping =>
    simp only [Call.make, makePlayerListAdd, Packet.build, Call.fields, Call.opcode,
      putFields_append, putUuid_eq, Packet.putFields, Field.putTo, bind_assoc, hok]
  | playerListRemove uuid =>
    simp only [Call.make, makePlayerListRemove, Packet.build, Call.fields, Call.opcode,
      putFields_append, putUuid_eq, Packet.putFields, Field.putTo, bind_assoc, hok]
  | spawnPlayer eid uuid x y z yaw pitch currItem metadata =>
    simp only [Call.make, makeSpawnPlayer, Packet.build, Call.fields, Call.opcode,
      putFields_append, putUuid_eq, EntityMetadata.encode_eq, Packet.putFields,
      Field.putTo, bind_assoc, hok]
  | joinGame eid gm dim diff maxp levelType reducedDebug =>
    simp only [Call.make, makeJoinGame, Packet.build, Call.fields, Call.opcode, Packet.putFields,
      Field.putTo, bind_assoc, hok, hbool]
  | _ =>
    simp only [Call.make, makeStatusResponse, makeStatusPing, makeEncryptionRequest,
      makeLoginSuccess, makeKeepAlive, makeChatMessage, makeSpawnPosition,
      makePlayerPositionAndLook, makeUnloadChunk, makeSetCompression, Packet.build, Call.fields,
      Call.opcode, Packet.putFields, Field.putTo, bind_assoc, hok]

end Make

section Valid

theorem zero_notMem_cStr (str : Bytes) : 0 ∉ cStr str := by
  intro h
  have hne := List.mem_takeWhile_imp h
  simp at hne

theorem valid_string (str : Bytes) : (Field.string (cStr str)).Valid :=
  zero_notMem_cStr str

theorem valid_uuidFields (uuid : Uuid) : ∀ field ∈ uuidFields uuid, field.Valid := by
  intro field h
  obtain ⟨b, _, hb⟩ := List.mem_map.mp h
  rw [← hb]
  trivial

theorem valid_fields {call : Call} (h : call.InRange) : ∀ field ∈ call.fields order, field.Valid := by
  have hsmall : (Field.varint 0).Valid ∧ (Field.varint 1).Valid ∧ (Field.varint 4).Valid := by
    simp [Field.Valid]
  cases call with
  | encryptionRequest sid q vtoken =>
    have hlen : (q.take 384).length ≤ 384 := List.length_take_le 384 q
    have hkeylen : (Field.varint (q.take 384).length).Valid := by
      unfold Field.Valid
      dsimp only
      omega
    simp only [Call.fields, List.forall_mem_cons]
    exact ⟨valid_string sid, hkeylen, trivial, hsmall.2.2, trivial, List.forall_mem_nil _⟩
  | keepAlive id =>
    simp only [Call.fields, List.forall_mem_cons]
    exact ⟨h, List.forall_mem_nil _⟩
  | setCompression threshold =>
    simp only [Call.fields, List.forall_mem_cons]
    exact ⟨h, List.forall_mem_nil _⟩
  | chunkData cx cz cont mask ch =>
    intro field hfield
    cases List.mem_append.mp hfield with
    | inl hfield => exact valid_headFields cx cz (List.mem_of_mem_tail hfield)
    | inr hfield => exact valid_dataFields hfield
  | playerListAdd uuid name gm ping =>
    have hgm : (Field.varint (if gm = .creative then 1 else 0)).Valid := by
      split
      . exact hsmall.2.1
      . exact hsmall.1
    simp only [Call.fields, List.forall_mem_append, List.forall_mem_cons]
    exact ⟨⟨⟨hsmall.1, hsmall.2.1, List.forall_mem_nil _⟩, valid_uuidFields uuid⟩, valid_string name,
      hsmall.1, hgm, h, trivial, List.forall_mem_nil _⟩
  | playerListRemove uuid =>
    simp only [Call.fields, List.forall_mem_append, List.forall_mem_cons]
    exact ⟨⟨hsmall.2.2, hsmall.2.1, List.forall_mem_nil _⟩, valid_uuidFields uuid⟩
  | spawnPlayer eid uuid x y z yaw pitch currItem metadata =>
    simp only [Call.fields, List.forall_mem_append, List.forall_mem_cons]
    exact ⟨⟨⟨h.1, valid_uuidFields uuid⟩, trivial, trivial, trivial, trivial, trivial, trivial,
      List.forall_mem_nil _⟩, metadata.valid_fields⟩
  | _ => simp [Call.fields, Field.Valid, zero_notMem_cStr]

theorem valid_opcode (call : Call) : (Field.varint call.opcode).Valid := by
  unfold Field.Valid
  cases call <;> simp only [Call.opcode] <;> omega

end Valid

section Read

/--
What a call wants to tell a client.
-/
def Call.Shows : Call → ClientPacket → Prop
  | .statusResponse str, packet => packet = .statusResponse (cStr str)
  | .statusPing time, packet => packet = .statusPing time
  | .encryptionRequest sid q vtoken, packet =>
    packet = .encryptionRequest (cStr sid) (q.take 384) (List.ofFn vtoken)
  | .loginSuccess uuid username, packet => packet = .loginSuccess (cStr uuid) (cStr username)
  | .loginDisconnect msg, packet =>
    ∃ js, packet = .loginDisconnect js ∧ Says (ν := ν) (disconnectMembers msg) js
  | .keepAlive id, packet => packet = .keepAlive id
  | .joinGame eid gm dim diff maxp levelType reducedDebug, packet =>
    packet = .joinGame (UInt32.ofNat (Bin.unsigned32 eid)) gm dim diff maxp (cStr levelType)
      reducedDebug
  | .chatMessage js pos, packet =>
    packet = .chatMessage (cStr js) (UInt8.ofNat (pos % 256).toNat)
  | .chatText msg, packet =>
    ∃ js, packet = .chatMessage js 0 ∧ Says (ν := ν) (messageMembers msg) js
  | .spawnPosition x y z, packet => packet = .spawnPosition (packPos x y z)
  | .playerPositionAndLook x y z yaw pitch flags, packet =>
    packet = .playerPositionAndLook x y z yaw pitch flags
  | .chunkData cx cz cont mask ch, packet =>
    let cx := UInt32.ofNat (Bin.unsigned32 cx)
    let cz := UInt32.ofNat (Bin.unsigned32 cz)
    if cont ∧ mask = 0 then
      packet = .unloadChunk cx cz
    else
      packet = .chunkData cx cz mask (fun i => if selects mask i then ch.subs i else none)
        (if cont then some ch.biomes else none)
  | .unloadChunk cx cz, packet =>
    packet = .unloadChunk (UInt32.ofNat (Bin.unsigned32 cx)) (UInt32.ofNat (Bin.unsigned32 cz))
  | .disconnect msg, packet =>
    ∃ js, packet = .disconnect js ∧ Says (ν := ν) (disconnectMembers msg) js
  | .setCompression threshold, packet => packet = .setCompression threshold
  | .playerListAdd uuid name gm ping, packet =>
    packet = .playerListAdd (List.ofFn uuid.parts) (cStr name) (if gm = .creative then 1 else 0) ping
  | .playerListRemove uuid, packet => packet = .playerListRemove (List.ofFn uuid.parts)
  | .spawnPlayer eid uuid x y z yaw pitch currItem metadata, packet =>
    packet = .spawnPlayer eid (List.ofFn uuid.parts) (toFixed x) (toFixed y) (toFixed z)
      (toAngle yaw) (toAngle pitch) currItem (metadata.data.map PacketReader.receivedEntry)

theorem body_uuidFields (uuid : Uuid)
    : Packet.body (uuidFields uuid) = Packet.body [.bytes (List.ofFn uuid.parts)] := by
  have hbytes : Packet.body [.bytes (List.ofFn uuid.parts)] = List.ofFn uuid.parts :=
    List.append_nil _
  rw [hbytes, uuidFields]
  generalize List.ofFn uuid.parts = bs
  induction bs with
  | nil => rfl
  | cons b bs ih =>
    rw [List.map_cons, Packet.body_cons, ih]
    rfl

variable {order} {reader : PacketReader} {rest : Bytes}

open PacketReader

theorem bind_of_eq_some {α β : Type} {x : Option α} {a : α} (h : x = some a) (k : α → Option β)
    : (x >>= k) = k a := by
  rw [h]
  rfl

/--
The reader stands in front of these fields, which it can read.
-/
structure Ready (reader : PacketReader) (fields : List Field) (rest : Bytes) : Prop where
  ahead : reader.Ahead (Packet.body fields ++ rest)
  valid : ∀ field ∈ fields, field.Valid
  length_lt : (Packet.body fields).length < 2 ^ 31

theorem Ready.read {fields : List Field} (h : Ready reader fields rest)
    : readFields (fields.map Field.type) reader
        =
      some (fields, reader.skip (Packet.body fields).length) :=
  readFields_body h.ahead h.valid h.length_lt

theorem Ready.append {fs gs : List Field} (h : Ready reader (fs ++ gs) rest)
    : Ready reader fs (Packet.body gs ++ rest)
        ∧ Ready (reader.skip (Packet.body fs).length) gs rest := by
  have hahead := h.ahead
  have hlt := h.length_lt
  rw [body_append, List.append_assoc] at hahead
  rw [body_append, List.length_append] at hlt
  constructor
  . exact ⟨hahead, fun field hfield => h.valid field (List.mem_append_left gs hfield), by omega⟩
  . exact ⟨hahead.skip, fun field hfield => h.valid field (List.mem_append_right fs hfield), by omega⟩

/--
Only the bytes of the fields matter to the reader.
-/
theorem Ready.congr {fs gs : List Field} (h : Ready reader fs rest)
    (hbody : Packet.body fs = Packet.body gs) (hvalid : ∀ field ∈ gs, field.Valid)
    : Ready reader gs rest :=
  ⟨hbody ▸ h.ahead, hvalid, hbody ▸ h.length_lt⟩

theorem Ready.readBytes {bs : Bytes} (h : Ready reader [.bytes bs] rest)
    : reader.readBytes bs.length = some (bs, reader.skip (Packet.body [.bytes bs]).length) := by
  have hbytes : Packet.body [.bytes bs] = bs := List.append_nil bs
  have hahead := h.ahead
  rw [hbytes] at hahead ⊢
  exact readBytes_spec hahead

theorem skip_body_append (fs gs : List Field)
    : (reader.skip (Packet.body fs).length).skip (Packet.body gs).length
        =
      reader.skip (Packet.body (fs ++ gs)).length := by
  rw [skip_skip, body_append, List.length_append]

theorem readEncryptionRequest_spec {sid pkey vtoken : Bytes} (hlen : vtoken.length = 4)
    (h : Ready reader [.string sid, .varint pkey.length, .bytes pkey, .varint 4, .bytes vtoken] rest)
    : ClientPacket.readEncryptionRequest reader
        =
      some (.encryptionRequest sid pkey vtoken, reader.skip
        (Packet.body
          [.string sid, .varint pkey.length, .bytes pkey, .varint 4, .bytes vtoken]).length) := by
  obtain ⟨h₁, h⟩ := @Ready.append reader rest [.string sid, .varint pkey.length] _ h
  obtain ⟨h₂, h₃⟩ := @Ready.append _ rest [.bytes pkey, .varint 4] _ h
  have hread₃ := h₃.readBytes
  rw [hlen] at hread₃
  unfold ClientPacket.readEncryptionRequest
  refine (bind_of_eq_some h₁.read _).trans ?_
  refine (bind_of_eq_some h₂.read _).trans ?_
  refine (bind_of_eq_some hread₃ _).trans ?_
  rw [skip_body_append, skip_body_append]
  rfl

def chunkFields (cx cz : UInt32) (cont : Bool) (mask : UInt16) (payload : Bytes) : List Field :=
  [.int cx, .int cz, .bool cont, .short mask, .varint payload.length] ++ [.bytes payload]

theorem readChunk_spec {cx cz : UInt32} {cont : Bool} {mask : UInt16} {payload : Bytes}
    (h : Ready reader (chunkFields cx cz cont mask payload) rest)
    : ClientPacket.readChunk reader
        =
      some (if cont ∧ mask = 0 then
          .unloadChunk cx cz
        else
          .chunkData cx cz mask (sliceSubs mask payload) (sliceBiomes cont mask payload),
        reader.skip (Packet.body (chunkFields cx cz cont mask payload)).length) := by
  obtain ⟨h₁, h₂⟩ := h.append
  have hread₂ := h₂.readBytes
  unfold ClientPacket.readChunk
  refine (bind_of_eq_some h₁.read _).trans ?_
  refine (bind_of_eq_some hread₂ _).trans ?_
  rw [skip_body_append]
  dsimp only
  split
  . rfl
  . rfl

/--
The payload of a chunk is put array by array and read at once.
-/
theorem Ready.chunkData {cx cz : Int} {cont : Bool} {mask : UInt16} {ch : Chunk}
    (h : Ready reader ((headFields cx cz cont mask).tail ++ dataFields cont mask ch) rest)
    : let fields := chunkFields (UInt32.ofNat (Bin.unsigned32 cx)) (UInt32.ofNat (Bin.unsigned32 cz))
        cont mask (Packet.body (dataFields cont mask ch))
      Ready reader fields rest
        ∧ Packet.body ((headFields cx cz cont mask).tail ++ dataFields cont mask ch)
          = Packet.body fields := by
  intro fields
  have hbytes : ∀ bs, Packet.body [.bytes bs] = bs := List.append_nil
  have hhead : fields = (headFields cx cz cont mask).tail
      ++ [.bytes (Packet.body (dataFields cont mask ch))] := by
    show chunkFields _ _ _ _ _ = _
    rw [chunkFields, ← dataSize_eq]
    rfl
  have hbody : Packet.body ((headFields cx cz cont mask).tail ++ dataFields cont mask ch)
      = Packet.body fields := by
    rw [hhead, body_append, body_append, hbytes]
  refine ⟨h.congr hbody ?_, hbody⟩
  intro field hfield
  rw [hhead, List.mem_append, List.mem_singleton] at hfield
  cases hfield with
  | inl hfield => exact h.valid field (List.mem_append_left _ hfield)
  | inr hfield =>
    rw [hfield]
    trivial

/--
A chunk that is unloaded is one without payload.
-/
theorem Ready.unloadChunk {cx cz : UInt32}
    (h : Ready reader [.int cx, .int cz, .bool true, .short 0, .varint 0] rest)
    : Ready reader (chunkFields cx cz true 0 []) rest
        ∧ Packet.body [.int cx, .int cz, .bool true, .short 0, .varint 0]
          = Packet.body (chunkFields cx cz true 0 []) := by
  have hbody : Packet.body [.int cx, .int cz, .bool true, .short 0, .varint 0]
      = Packet.body (chunkFields cx cz true 0 []) := by
    rw [chunkFields, body_append]
    exact (List.append_nil _).symm
  refine ⟨h.congr hbody ?_, hbody⟩
  intro field hfield
  rw [chunkFields, List.mem_append, List.mem_singleton] at hfield
  cases hfield with
  | inl hfield => exact h.valid field hfield
  | inr hfield =>
    rw [hfield]
    trivial

theorem readListItem_add {uuid name : Bytes} {gm ping : Int} (hlen : uuid.length = 16)
    (h : Ready reader [.varint 0, .varint 1, .bytes uuid, .string name, .varint 0, .varint gm,
      .varint ping, .bool false] rest)
    : ClientPacket.readListItem reader
        =
      some (.playerListAdd uuid name gm ping, reader.skip (Packet.body [.varint 0, .varint 1,
        .bytes uuid, .string name, .varint 0, .varint gm, .varint ping, .bool false]).length) := by
  obtain ⟨h₁, h₂⟩ := @Ready.append reader rest [.varint 0, .varint 1, .bytes uuid] _ h
  have hread₁ := h₁.read
  rw [List.map_cons, List.map_cons, List.map_cons, Field.type, Field.type, Field.type, hlen] at hread₁
  unfold ClientPacket.readListItem
  refine (bind_of_eq_some hread₁ _).trans ?_
  refine (bind_of_eq_some h₂.read _).trans ?_
  rw [skip_body_append]
  rfl

theorem readListItem_remove {uuid : Bytes} (hlen : uuid.length = 16)
    (h : Ready reader [.varint 4, .varint 1, .bytes uuid] rest)
    : ClientPacket.readListItem reader
        =
      some (.playerListRemove uuid,
        reader.skip (Packet.body [.varint 4, .varint 1, .bytes uuid]).length) := by
  have hread := h.read
  rw [List.map_cons, List.map_cons, List.map_cons, Field.type, Field.type, Field.type, hlen] at hread
  unfold ClientPacket.readListItem
  exact bind_of_eq_some hread _

theorem readSpawnPlayer_spec {eid : Int} {uuid : Bytes} {x y z : UInt32} {yaw pitch : UInt8}
    {currItem : UInt16} {metadata : EntityMetadata} (hlen : uuid.length = 16)
    (hfits : ∀ entry ∈ metadata.data, EntityMetadata.EntryFits entry)
    (h : Ready reader (([.varint eid, .bytes uuid, .int x, .int y, .int z, .byte yaw, .byte pitch,
      .short currItem] : List Field) ++ metadata.fields) rest)
    : ClientPacket.readSpawnPlayer reader
        =
      some (.spawnPlayer eid uuid x y z yaw pitch currItem
          (metadata.data.map PacketReader.receivedEntry),
        reader.skip (Packet.body (([.varint eid, .bytes uuid, .int x, .int y, .int z, .byte yaw,
          .byte pitch, .short currItem] : List Field) ++ metadata.fields)).length) := by
  obtain ⟨h₁, h₂⟩ := h.append
  have hread₁ := h₁.read
  simp only [List.map_cons, List.map_nil, Field.type, hlen] at hread₁
  unfold ClientPacket.readSpawnPlayer
  refine (bind_of_eq_some hread₁ _).trans ?_
  refine (bind_of_eq_some (readMetadata_spec hfits h₂.ahead) _).trans ?_
  rw [skip_body_append]
  rfl

/--
The bytes of a UUID are put one by one and read at once.
-/
theorem Ready.uuid {uuid : Uuid} {fs gs : List Field} (h : Ready reader (fs ++ uuidFields uuid ++ gs) rest)
    : Ready reader (fs ++ .bytes (List.ofFn uuid.parts) :: gs) rest
        ∧ Packet.body (fs ++ uuidFields uuid ++ gs)
          = Packet.body (fs ++ .bytes (List.ofFn uuid.parts) :: gs) := by
  have hbody : Packet.body (fs ++ uuidFields uuid ++ gs)
      = Packet.body (fs ++ .bytes (List.ofFn uuid.parts) :: gs) := by
    rw [← List.singleton_append, ← List.append_assoc, body_append, body_append, body_append,
      body_append, body_uuidFields]
  refine ⟨h.congr hbody ?_, hbody⟩
  intro field hfield
  rw [List.mem_append, List.mem_cons] at hfield
  rcases hfield with hfield | rfl | hfield
  . exact h.valid field (List.mem_append_left gs (List.mem_append_left _ hfield))
  . trivial
  . exact h.valid field (List.mem_append_right _ hfield)

/--
A client understands what is put behind the opcode.
-/
theorem readPayload_spec [LawfulDouble ν] {call : Call} (hcall : call.InRange)
    (h : Ready reader (call.fields order) rest)
    : ∃ packet, call.Shows (ν := ν) packet
        ∧ ClientPacket.readPayload call.state call.opcode reader
          = some (packet, reader.skip (Packet.body (call.fields order)).length) := by
  have hread := h.read
  cases call with
  | statusResponse str => exact ⟨_, rfl, bind_of_eq_some hread _⟩
  | statusPing time => exact ⟨_, rfl, bind_of_eq_some hread _⟩
  | loginSuccess uuid username => exact ⟨_, rfl, bind_of_eq_some hread _⟩
  | keepAlive id => exact ⟨_, rfl, bind_of_eq_some hread _⟩
  | joinGame eid gm dim diff maxp levelType reducedDebug =>
    exact ⟨_, rfl, bind_of_eq_some hread _⟩
  | chatMessage js pos => exact ⟨_, rfl, bind_of_eq_some hread _⟩
  | spawnPosition x y z => exact ⟨_, rfl, bind_of_eq_some hread _⟩
  | playerPositionAndLook x y z yaw pitch flags => exact ⟨_, rfl, bind_of_eq_some hread _⟩
  | setCompression threshold => exact ⟨_, rfl, bind_of_eq_some hread _⟩
  | loginDisconnect msg =>
    have htexts := texts_disconnectMembers (ν := ν) hcall
    refine ⟨_, ⟨_, rfl, ?_⟩, bind_of_eq_some hread _⟩
    rw [cStr_messageText order htexts]
    exact says_messageText order htexts
  | disconnect msg =>
    have htexts := texts_disconnectMembers (ν := ν) hcall
    refine ⟨_, ⟨_, rfl, ?_⟩, bind_of_eq_some hread _⟩
    rw [cStr_messageText order htexts]
    exact says_messageText order htexts
  | chatText msg =>
    have htexts := texts_messageMembers (ν := ν) hcall
    refine ⟨_, ⟨_, rfl, ?_⟩, bind_of_eq_some hread _⟩
    rw [cStr_messageText order htexts]
    exact says_messageText order htexts
  | encryptionRequest sid q vtoken =>
    exact ⟨_, rfl, readEncryptionRequest_spec List.length_ofFn h⟩
  | unloadChunk cx cz =>
    obtain ⟨hready, hbody⟩ := h.unloadChunk
    refine ⟨_, rfl, ?_⟩
    rw [Call.fields, hbody]
    exact readChunk_spec hready
  | chunkData cx cz cont mask ch =>
    obtain ⟨hready, hbody⟩ := h.chunkData
    have hspec := readChunk_spec hready
    rw [sliceSubs_spec hcall, sliceBiomes_spec, ← hbody] at hspec
    refine ⟨_, ?_, hspec⟩
    rw [Call.Shows]
    split
    . rfl
    . rfl
  | playerListAdd uuid name gm ping =>
    obtain ⟨hready, hbody⟩ := h.uuid
    refine ⟨_, rfl, ?_⟩
    rw [Call.fields, hbody]
    exact readListItem_add List.length_ofFn hready
  | playerListRemove uuid =>
    have h : Ready reader ([.varint 4, .varint 1] ++ uuidFields uuid ++ []) rest := by
      rw [List.append_nil]
      exact h
    obtain ⟨hready, hbody⟩ := h.uuid
    refine ⟨_, rfl, ?_⟩
    rw [Call.fields, ← List.append_nil (_ ++ uuidFields uuid), hbody]
    exact readListItem_remove List.length_ofFn hready
  | spawnPlayer eid uuid x y z yaw pitch currItem metadata =>
    have h : Ready reader (([.varint eid] : List Field) ++ uuidFields uuid
        ++ (([.int (toFixed x), .int (toFixed y), .int (toFixed z), .byte (toAngle yaw),
          .byte (toAngle pitch), .short currItem] : List Field) ++ metadata.fields)) rest := by
      rw [← List.append_assoc]
      exact h
    obtain ⟨hready, hbody⟩ := h.uuid
    refine ⟨_, rfl, ?_⟩
    rw [Call.fields, List.append_assoc, ← List.singleton_append, hbody]
    exact readSpawnPlayer_spec List.length_ofFn hcall.2 hready

end Read

section Stream

/--
The state of the clients behind a packet.
-/
def Call.next : Call → ProtocolState
  | .loginSuccess _ _ => .play
  | call => call.state

/--
Calls one after another, each of them for a client that is in the state the calls before have led to.
-/
def Legal : ProtocolState → List Call → Prop
  | _, [] => True
  | state, call :: calls => call.state = state ∧ call.Fits order ∧ Legal call.next calls

omit [Double ν] in
theorem next_of_shows [Double ν] {call : Call} {packet : ClientPacket}
    (h : call.Shows (ν := ν) packet) : packet.next call.state = call.next := by
  cases call with
  | loginDisconnect msg =>
    obtain ⟨js, rfl, _⟩ := h
    rfl
  | chatText msg =>
    obtain ⟨js, rfl, _⟩ := h
    rfl
  | disconnect msg =>
    obtain ⟨js, rfl, _⟩ := h
    rfl
  | chunkData cx cz cont mask ch =>
    rw [Call.Shows] at h
    split at h
    . rw [h]
      rfl
    . rw [h]
      rfl
  | _ =>
    rw [Call.Shows] at h
    rw [h]
    rfl

variable {order} {reader : PacketReader} {rest : Bytes}

open PacketReader

/--
What `_put_len` makes of a body.
-/
def frame (body : Bytes) : Bytes :=
  Bin.writeVarint body.length ++ body

theorem read_spec [LawfulDouble ν] {call : Call} (hfits : call.Fits order)
    (h : reader.Ahead (frame (Packet.body (.varint call.opcode :: call.fields order)) ++ rest))
    : ∃ packet, call.Shows (ν := ν) packet
        ∧ ClientPacket.read call.state reader
          = some (packet, reader.skip
            (frame (Packet.body (.varint call.opcode :: call.fields order))).length) := by
  have hlt := hfits.length_lt
  have hvalid := valid_opcode call
  have hbody := body_append [.varint call.opcode] (call.fields order)
  have hopcode : Packet.body [.varint call.opcode] = Leb128.encode (Bin.unsigned32 call.opcode) := by
    rw [← Bin.writeVarint_eq_encode]
    exact List.append_nil _
  rw [List.singleton_append, hopcode] at hbody
  rw [hbody] at h hlt ⊢
  rw [frame, Bin.writeVarint_eq_encode, List.append_assoc, List.append_assoc] at h
  have hread₁ := readVarint_encode h (by omega)
  have hread₂ := readVarint_encode h.skip (Bin.unsigned32_lt call.opcode)
  rw [Bin.int32_eq_self (by omega)] at hread₁
  rw [Bin.int32_unsigned32 hvalid.1 hvalid.2] at hread₂
  rw [List.length_append] at hlt
  obtain ⟨packet, hshows, hread₃⟩ := readPayload_spec hfits.inRange
    ⟨h.skip.skip, valid_fields order hfits.inRange, by omega⟩
  refine ⟨packet, hshows, ?_⟩
  unfold ClientPacket.read
  refine (bind_of_eq_some hread₁ _).trans ?_
  refine (bind_of_eq_some hread₂ _).trans ?_
  refine (bind_of_eq_some hread₃ _).trans ?_
  dsimp only
  rw [if_pos]
  . simp only [skip_skip, frame, Bin.writeVarint_eq_encode, List.length_append, Nat.add_assoc]
    rfl
  . obtain ⟨n, hpos, _⟩ := h
    simp only [PacketReader.skip, hpos, Option.map_some, Int.toNat_natCast, List.length_append]
    congr 1
    omega

theorem make_spec {call : Call} (hfits : call.Fits order)
    : ∃ pack, call.make order = .ok pack
        ∧ pack.data = frame (Packet.body (.varint call.opcode :: call.fields order)) := by
  rw [make_eq order hfits.inRange]
  apply Packet.build_spec _ hfits.length_lt
  intro field hfield
  cases hfield with
  | head => exact valid_opcode call
  | tail _ hfield => exact valid_fields order hfits.inRange field hfield

theorem length_frame_pos (body : Bytes) : 0 < (frame body).length := by
  have hpos := Field.length_writeVarint body.length
  rw [frame, List.length_append]
  omega

/--
The bytes of all packets
-/
def stream (order : MemberOrder ν) (calls : List Call) : Bytes :=
  calls.flatMap (fun call => frame (Packet.body (.varint call.opcode :: call.fields order)))

theorem stream_cons (call : Call) (calls : List Call)
    : stream order (call :: calls)
        =
      frame (Packet.body (.varint call.opcode :: call.fields order)) ++ stream order calls :=
  List.flatMap_cons

theorem mapM_make {state : ProtocolState} {calls : List Call} (h : Legal order state calls)
    : ∃ packs, calls.mapM (Call.make order) = .ok packs
        ∧ packs.flatMap Packet.data = stream order calls := by
  induction calls generalizing state with
  | nil => exact ⟨[], rfl, rfl⟩
  | cons call calls ih =>
    obtain ⟨_, hfits, hcalls⟩ := h
    obtain ⟨pack, hmake, hdata⟩ := make_spec hfits
    obtain ⟨packs, hmakes, hstream⟩ := ih hcalls
    refine ⟨pack :: packs, ?_, ?_⟩
    . rw [List.mapM_cons, hmake, hmakes]
      rfl
    . rw [List.flatMap_cons, hdata, hstream, stream_cons]

theorem readAll_stream [LawfulDouble ν] {state : ProtocolState} {calls : List Call}
    (h : Legal order state calls) {n fuel : Nat} (hpos : reader.pos = some n)
    (hle : n ≤ reader.arr.length) (harr : reader.arr.drop n = stream order calls)
    (hfuel : (stream order calls).length < fuel)
    : ∃ packets, List.Forall₂ (Call.Shows (ν := ν)) calls packets
        ∧ ClientPacket.readAll fuel state reader = some packets := by
  induction calls generalizing state reader n fuel with
  | nil =>
    have hge := List.drop_eq_nil_iff.mp harr
    refine ⟨[], .nil, ?_⟩
    cases fuel with
    | zero => omega
    | succ fuel =>
      rw [ClientPacket.readAll, if_pos]
      rw [hpos, Nat.le_antisymm hle hge]
  | cons call calls ih =>
    obtain ⟨rfl, hfits, hcalls⟩ := h
    rw [stream_cons] at harr hfuel
    have hframe := length_frame_pos (Packet.body (.varint call.opcode :: call.fields order))
    have hlen := congrArg List.length harr
    rw [List.length_drop, List.length_append] at hlen
    rw [List.length_append] at hfuel
    have hahead : reader.Ahead
        (frame (Packet.body (.varint call.opcode :: call.fields order)) ++ stream order calls) :=
      ⟨n, hpos, harr⟩
    obtain ⟨packet, hshows, hread⟩ := read_spec hfits hahead
    generalize frame (Packet.body (.varint call.opcode :: call.fields order)) = bs at *
    cases fuel with
    | zero => omega
    | succ fuel =>
      have hnext : (reader.skip bs.length).pos = some (n + bs.length) := by
        rw [PacketReader.skip, hpos, Option.map_some]
      obtain ⟨packets, hall, hrest⟩ := @ih (reader.skip bs.length) call.next hcalls
        (n + bs.length) fuel hnext (by show n + bs.length ≤ reader.arr.length; omega)
        (by
          show reader.arr.drop (n + bs.length) = _
          rw [← List.drop_drop, harr, List.drop_left])
        (by omega)
      refine ⟨packet :: packets, .cons hshows hall, ?_⟩
      rw [ClientPacket.readAll, if_neg]
      . refine (bind_of_eq_some hread _).trans ?_
        dsimp only
        rw [next_of_shows hshows]
        exact bind_of_eq_some hrest _
      . rw [hpos]
        intro heq
        injection heq with heq
        omega

/--
Whatever is sent to a client, as long as it is meant for the state the client is in: the builder makes
every packet, and out of the stream of all of them the client gets what the calls wanted to tell it.
-/
theorem readStream_make [LawfulDouble ν] {state : ProtocolState} {calls : List Call}
    (h : Legal order state calls)
    : ∃ packs packets, calls.mapM (Call.make order) = .ok packs
        ∧ ClientPacket.readStream state (packs.flatMap Packet.data) = some packets
        ∧ List.Forall₂ (Call.Shows (ν := ν)) calls packets := by
  obtain ⟨packs, hmake, hstream⟩ := mapM_make h
  have harr : ((PacketReader.ofPacket (stream order calls) []).arr).drop 0 = stream order calls :=
    List.append_nil _
  obtain ⟨packets, hall, hread⟩ := @readAll_stream _ _ order (.ofPacket (stream order calls) []) _
    _ _ h 0 _ rfl (Nat.zero_le _) harr (Nat.lt_succ_self _)
  refine ⟨packs, packets, hmake, ?_, hall⟩
  rw [hstream]
  exact hread

def sampleOrder : MemberOrder Nat :=
  { visit := fun vals => vals, perm := fun _ => .refl _ }

/--
A login, a message and a chunk that is unloaded
-/
def sampleCalls : List Call :=
  [.loginSuccess [117] [110], .chatText [104, 105], .unloadChunk (-1) 2]

theorem readStream_make_sample
    : ∃ packs packets, sampleCalls.mapM (Call.make sampleOrder) = .ok packs
        ∧ ClientPacket.readStream .login (packs.flatMap Packet.data) = some packets
        ∧ List.Forall₂ (Call.Shows (ν := Nat)) sampleCalls packets := by
  apply readStream_make
  refine ⟨rfl, ⟨trivial, by decide +kernel⟩, rfl, ⟨?_, by decide +kernel⟩, rfl,
    ⟨trivial, by decide +kernel⟩, trivial⟩
  show (0 : UInt8) ∉ ([104, 105] : Bytes)
  decide

end Stream

end Mc18PacketBuilder

end HCraft
