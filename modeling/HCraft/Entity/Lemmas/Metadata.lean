import HCraft.Entity.Metadata
import HCraft.Network.Packet.Lemmas.Frame

/-!
This module contains that the metadata of entities can be read back from a packet.
-/

namespace HCraft

namespace Packet

variable {pack pack' : Packet} {n tenths bound : Nat} {arr : Bytes} {fields : List Field}

theorem expand_ok (h : pack.expand n = .ok pack') : pack'.data = pack.data ∧ pack'.pos = pack.pos := by
  unfold expand at h
  split at h
  . injection h with h
    rw [← h]
    exact ⟨rfl, rfl⟩
  . dsimp only at h
    split at h
    . cases h
    . split at h
      . cases h
      . injection h with h
        rw [← h]
        exact ⟨rfl, rfl⟩

theorem ensure_ok (h : pack.ensure tenths bound = .ok pack')
    : pack'.data = pack.data ∧ pack'.pos = pack.pos := by
  unfold ensure at h
  split at h
  . exact expand_ok h
  . injection h with h
    rw [← h]
    exact ⟨rfl, rfl⟩

/--
The cursor is in the packet, or at its end.
-/
def Within (pack : Packet) : Prop :=
  pack.pos ≤ pack.data.length

/--
`pack'` is `pack` with `arr` put to it.
-/
structure IsPut (pack pack' : Packet) (arr : Bytes) : Prop where
  data_eq : pack'.data = Slice.patch 0 pack.data pack.pos arr
  pos_eq : pack'.pos = pack.pos + arr.length

theorem IsPut.within (h : IsPut pack pack' arr) (hin : pack.Within) : pack'.Within := by
  unfold Within
  rw [h.data_eq, h.pos_eq, Slice.length_patch hin]
  omega

theorem IsPut.refl (hin : pack.Within) : IsPut pack pack [] where
  data_eq := by
    rw [Slice.patch_eq hin, List.append_nil]
    exact (List.take_append_drop pack.pos pack.data).symm
  pos_eq := rfl

theorem IsPut.trans {pack'' : Packet} {arr' : Bytes} (hin : pack.Within) (h : IsPut pack pack' arr)
    (h' : IsPut pack' pack'' arr') : IsPut pack pack'' (arr ++ arr') where
  data_eq := by rw [h'.data_eq, h.data_eq, h.pos_eq, Slice.patch_patch hin]
  pos_eq := by rw [h'.pos_eq, h.pos_eq, List.length_append, Nat.add_assoc]

theorem put_ok (h : pack.put tenths bound arr = .ok pack') : IsPut pack pack' arr := by
  unfold put at h
  cases hensure : pack.ensure tenths bound with
  | error f =>
    rw [hensure] at h
    cases h
  | ok pack₁ =>
    obtain ⟨hdata, hpos⟩ := ensure_ok hensure
    rw [hensure] at h
    have hstore : pack₁.store arr = .ok pack' := h
    unfold store at hstore
    split at hstore
    . injection hstore with hstore
      rw [← hstore]
      constructor
      . dsimp only
        rw [hdata, hpos]
      . dsimp only
        rw [hpos]
    . cases hstore

/--
Every field but a string, of which only the part in front of a NUL is put.
-/
def IsRaw : Field → Prop
  | .string _ => False
  | _ => True

theorem putTo_ok {field : Field} (hraw : IsRaw field) (h : field.putTo pack = .ok pack')
    : IsPut pack pack' field.encode := by
  cases field with
  | string str => exact hraw.elim
  | _ => exact put_ok h

theorem putFields_ok (hraw : ∀ field ∈ fields, IsRaw field) (hin : pack.Within)
    (h : pack.putFields fields = .ok pack') : IsPut pack pack' (body fields) := by
  induction fields generalizing pack with
  | nil =>
    injection h with h
    rw [← h]
    exact .refl hin
  | cons field fields ih =>
    rw [putFields] at h
    cases hput : field.putTo pack with
    | error f =>
      rw [hput] at h
      cases h
    | ok pack₁ =>
      rw [hput] at h
      have hput := putTo_ok (hraw field List.mem_cons_self) hput
      have hputs := ih (fun field hfield => hraw field (List.mem_cons_of_mem _ hfield))
        (hput.within hin) h
      rw [body_cons]
      exact hput.trans hin hputs

theorem putFields_append (pack : Packet) (fields fields' : List Field)
    : pack.putFields (fields ++ fields')
        =
      pack.putFields fields >>= fun pack => pack.putFields fields' := by
  induction fields generalizing pack with
  | nil => rfl
  | cons field fields ih =>
    rw [List.cons_append, putFields, putFields, bind_assoc]
    congr 1
    funext pack
    exact ih pack

theorem putFields_singleton (pack : Packet) (field : Field)
    : pack.putFields [field] = field.putTo pack :=
  bind_pure (field.putTo pack)

theorem putFields_cons_cons (pack : Packet) (field field' : Field) (fields : List Field)
    : pack.putFields (field :: field' :: fields)
        =
      field.putTo pack >>= fun pack => pack.putFields (field' :: fields) :=
  rfl

theorem body_append (fields fields' : List Field)
    : body (fields ++ fields') = body fields ++ body fields' :=
  List.flatMap_append

end Packet

open Packet

namespace MetadataValue

/--
What is put of a value behind its header.
-/
def fields : MetadataValue → List Field
  | .byte u8 => [.byte u8]
  | .short u16 => [.short u16]
  | .int u32 => [.int u32]
  | .float f32 => [.float f32]
  | .string str =>
    [.varint (Bin.int32 (str.length % 2 ^ 32)), .bytes (str.take (str.length % 2 ^ 32))]
  | .slot item =>
    if item.id ≠ EMPTY_SLOT_VALUE then
      [.short item.id, .byte (EntityMetadata.amountByte item.amount), .short item.damage, .byte 0]
    else
      [.short item.id]
  | .pos x y z => [.int x, .int y, .int z]
  | .rot pitch yaw roll => [.float pitch, .float yaw, .float roll]

theorem encodeValue_eq (pack : Packet) (val : MetadataValue)
    : EntityMetadata.encodeValue pack val = pack.putFields val.fields := by
  cases val with
  | slot item =>
    by_cases hid : item.id = EMPTY_SLOT_VALUE
    . simp [EntityMetadata.encodeValue, fields, hid, putFields_singleton, Field.putTo]
    . simp [EntityMetadata.encodeValue, fields, hid, putFields_singleton, putFields_cons_cons,
        Field.putTo]
  | _ =>
    simp [EntityMetadata.encodeValue, fields, putFields_singleton, putFields_cons_cons, Field.putTo]

theorem isRaw_fields (val : MetadataValue) : ∀ field ∈ val.fields, IsRaw field := by
  cases val with
  | slot item =>
    rw [fields]
    split
    . simp [IsRaw]
    . simp [IsRaw]
  | _ => simp [fields, IsRaw]

theorem valid_fields (val : MetadataValue) : ∀ field ∈ val.fields, field.Valid := by
  cases val with
  | string str =>
    have hlo := Bin.le_wrap32 (str.length % 2 ^ 32 : Nat)
    have hhi := Bin.wrap32_lt (str.length % 2 ^ 32 : Nat)
    simp only [fields, List.mem_cons, List.not_mem_nil, or_false, forall_eq_or_imp, forall_eq]
    exact ⟨⟨hlo, hhi⟩, trivial⟩
  | slot item =>
    rw [fields]
    split
    . simp [Field.Valid]
    . simp [Field.Valid]
  | _ => simp [fields, Field.Valid]

/--
What comes back: of an empty slot only that it is empty.
-/
def received : MetadataValue → MetadataValue
  | .slot item => if item.id = EMPTY_SLOT_VALUE then .slot ⟨item.id, 0, 0⟩ else .slot item
  | val => val

/--
An amount fits its byte, and the length of a string its 32 bits.
-/
def Fits : MetadataValue → Prop
  | .string str => str.length < 2 ^ 32
  | .slot item => 0 ≤ item.amount ∧ item.amount ≤ 255
  | _ => True

end MetadataValue

namespace PacketReader

variable {reader : PacketReader} {rest : Bytes}

theorem readByte_spec {val : UInt8} (h : reader.Ahead (val :: rest))
    : reader.readByte = some (val, reader.skip 1) :=
  @readFixed_spec reader [val] rest UInt8 1 List.head? val h rfl

theorem readShort_spec {val : UInt16} (h : reader.Ahead (Bin.writeShortBe val.toNat ++ rest))
    : reader.readShort = some (val, reader.skip 2) := by
  rw [readShort, readFixed_spec h (Bin.readShortBe_writeShortBe val.toNat_lt rest)]
  simp

theorem readInts_spec {x y z : UInt32}
    (h : reader.Ahead (Bin.writeIntBe x.toNat
      ++ (Bin.writeIntBe y.toNat ++ (Bin.writeIntBe z.toNat ++ rest))))
    : reader.readInt = some (x, reader.skip 4)
        ∧ (reader.skip 4).readInt = some (y, reader.skip 8)
        ∧ (reader.skip 8).readInt = some (z, reader.skip 12) := by
  have hy : (reader.skip 4).readInt = some (y, (reader.skip 4).skip 4) := readInt_spec h.skip
  have hz : ((reader.skip 4).skip 4).readInt = some (z, ((reader.skip 4).skip 4).skip 4) :=
    readInt_spec h.skip.skip
  rw [skip_skip] at hy hz
  rw [skip_skip] at hz
  exact ⟨readInt_spec h, hy, hz⟩

theorem readMetadataValue_string {str : Bytes} (hlt : str.length < 2 ^ 32)
    (h : reader.Ahead (body (MetadataValue.string str).fields ++ rest))
    : reader.readMetadataValue (MetadataValue.string str).type
        =
      some (.string str, reader.skip (body (MetadataValue.string str).fields).length) := by
  have hlen : Bin.unsigned32 (Bin.int32 str.length) = str.length := Bin.unsigned32_int32 hlt
  have hbody : body (MetadataValue.string str).fields = Leb128.encode str.length ++ str := by
    rw [MetadataValue.fields, body_cons, body_cons, Nat.mod_eq_of_lt hlt, List.take_length,
      Field.encode, Field.encode, hlen, Bin.writeVarint_eq_encode]
    exact congrArg _ (List.append_nil str)
  rw [hbody, List.append_assoc] at h
  have hvarint := readVarint_encode h hlt
  have hstr := readBytes_spec h.skip
  simp only [readMetadataValue, MetadataValue.type, hvarint, hbody, List.length_append]
  rw [← skip_skip]
  show ((reader.skip (Leb128.encode str.length).length).readBytes
    (Bin.unsigned32 (Bin.int32 str.length)) >>= _) = _
  rw [hlen, hstr]
  rfl

theorem readMetadataValue_slot {item : SlotItem} (hid : item.id ≠ EMPTY_SLOT_VALUE)
    (hfits : 0 ≤ item.amount ∧ item.amount ≤ 255)
    (h : reader.Ahead (body (MetadataValue.slot item).fields ++ rest))
    : reader.readMetadataValue (MetadataValue.slot item).type
        =
      some (.slot item, reader.skip (body (MetadataValue.slot item).fields).length) := by
  have hfields : (MetadataValue.slot item).fields = [.short item.id,
      .byte (EntityMetadata.amountByte item.amount), .short item.damage, .byte 0] := if_pos hid
  have hamount : ((EntityMetadata.amountByte item.amount).toNat : Int) = item.amount := by
    unfold EntityMetadata.amountByte
    rw [if_neg (by omega), UInt8.toNat_ofNat']
    omega
  rw [hfields] at h ⊢
  have h : reader.Ahead (Bin.writeShortBe item.id.toNat
      ++ ([EntityMetadata.amountByte item.amount]
        ++ (Bin.writeShortBe item.damage.toNat ++ ([0] ++ rest)))) := h
  have hshort := readShort_spec h
  have hbyte : (reader.skip 2).readByte = some (_, (reader.skip 2).skip 1) :=
    readByte_spec h.skip
  have hdamage : ((reader.skip 2).skip 1).readShort = some (_, ((reader.skip 2).skip 1).skip 2) :=
    readShort_spec h.skip.skip
  have hnbt : (((reader.skip 2).skip 1).skip 2).readByte = some (0, _) :=
    readByte_spec h.skip.skip.skip
  simp only [readMetadataValue, MetadataValue.type, bind, Option.bind, hshort, hbyte, hdamage,
    hnbt, hamount, if_pos hid]
  rw [skip_skip, skip_skip, skip_skip]
  rfl

theorem readMetadataValue_spec {val : MetadataValue} (hfits : val.Fits)
    (h : reader.Ahead (body val.fields ++ rest))
    : reader.readMetadataValue val.type
        =
      some (val.received, reader.skip (body val.fields).length) := by
  cases val with
  | byte u8 =>
    have hu8 := readByte_spec h
    simp only [readMetadataValue, MetadataValue.type, hu8]
    rfl
  | short u16 =>
    have hu16 := readShort_spec h
    simp only [readMetadataValue, MetadataValue.type, hu16]
    rfl
  | int u32 =>
    have hu32 := readInt_spec h
    simp only [readMetadataValue, MetadataValue.type, hu32]
    rfl
  | float f32 =>
    have hf32 := readInt_spec h
    simp only [readMetadataValue, MetadataValue.type, readFloat, hf32]
    rfl
  | string str => exact readMetadataValue_string hfits h
  | slot item =>
    rw [MetadataValue.received]
    by_cases hid : item.id = EMPTY_SLOT_VALUE
    . have hfields : (MetadataValue.slot item).fields = [.short item.id] := if_neg (not_not.mpr hid)
      rw [hfields] at h ⊢
      have hshort := readShort_spec h
      simp only [readMetadataValue, MetadataValue.type, hshort, hid]
      rfl
    . rw [if_neg hid]
      exact readMetadataValue_slot hid hfits h
  | pos x y z =>
    obtain ⟨hx, hy, hz⟩ := readInts_spec h
    simp only [readMetadataValue, MetadataValue.type, bind, Option.bind, hx, hy, hz]
    rfl
  | rot pitch yaw roll =>
    obtain ⟨hpitch, hyaw, hroll⟩ := readInts_spec h
    simp only [readMetadataValue, MetadataValue.type, readFloat, bind, Option.bind, hpitch, hyaw,
      hroll]
    rfl

end PacketReader

namespace EntityMetadata

theorem header_spec (val : MetadataValue) {index : Int} (hindex : 0 ≤ index ∧ index ≤ 31)
    : header val.type index >>> 5 = val.type
        ∧ ((header val.type index &&& 31).toNat : Int) = index
        ∧ (header val.type index = 127 ↔ val.type = 3 ∧ index = 31) := by
  have hall : ∀ t : Fin 8, ∀ i : Fin 32,
      header (UInt8.ofNat t) i.val >>> 5 = UInt8.ofNat t
        ∧ ((header (UInt8.ofNat t) i.val &&& 31).toNat : Int) = i.val
        ∧ (header (UInt8.ofNat t) i.val = 127 ↔ UInt8.ofNat t = 3 ∧ (i.val : Int) = 31) := by
    decide +kernel
  obtain ⟨i, rfl⟩ := Int.eq_ofNat_of_zero_le hindex.1
  have hi : i < 32 := by omega
  cases val with
  | byte _ => exact hall 0 ⟨i, hi⟩
  | short _ => exact hall 1 ⟨i, hi⟩
  | int _ => exact hall 2 ⟨i, hi⟩
  | float _ => exact hall 3 ⟨i, hi⟩
  | string _ => exact hall 4 ⟨i, hi⟩
  | slot _ => exact hall 5 ⟨i, hi⟩
  | pos _ _ _ => exact hall 6 ⟨i, hi⟩
  | rot _ _ _ => exact hall 7 ⟨i, hi⟩

/--
The entry can be told from the end of the metadata, which is that of a number with a fraction and the
last index.
-/
structure EntryFits (entry : Int × MetadataValue) : Prop where
  index : 0 ≤ entry.1 ∧ entry.1 ≤ 31
  value : entry.2.Fits
  ne_end : ¬ (entry.2.type = 3 ∧ entry.1 = 31)

def entryFields (entry : Int × MetadataValue) : List Field :=
  .byte (header entry.2.type entry.1) :: entry.2.fields

/--
All that is put to a packet.
-/
def fields (metadata : EntityMetadata) : List Field :=
  metadata.data.flatMap entryFields ++ [.byte 127]

theorem foldlM_encodeEntry (pack : Packet) (entries : List (Int × MetadataValue))
    : entries.foldlM encodeEntry pack = pack.putFields (entries.flatMap entryFields) := by
  induction entries generalizing pack with
  | nil => rfl
  | cons entry entries ih =>
    have hentry : encodeEntry pack entry = pack.putFields (entryFields entry) := by
      rw [encodeEntry, entryFields, putFields]
      congr 1
      funext pack
      exact MetadataValue.encodeValue_eq pack entry.2
    rw [List.foldlM_cons, List.flatMap_cons, putFields_append, hentry]
    congr 1
    funext pack
    exact ih pack

theorem encode_eq (metadata : EntityMetadata) (pack : Packet)
    : metadata.encode pack = pack.putFields metadata.fields := by
  rw [encode, fields, putFields_append, foldlM_encodeEntry]
  congr 1
  funext pack
  exact (putFields_singleton pack (.byte 127)).symm

theorem mem_fields {metadata : EntityMetadata} {field : Field} (h : field ∈ metadata.fields)
    : (∃ b, field = .byte b) ∨ ∃ entry ∈ metadata.data, field ∈ entry.2.fields := by
  cases List.mem_append.mp h with
  | inl h =>
    obtain ⟨entry, hentry, hfield⟩ := List.mem_flatMap.mp h
    cases List.mem_cons.mp hfield with
    | inl hhead => exact .inl ⟨_, hhead⟩
    | inr hfield => exact .inr ⟨entry, hentry, hfield⟩
  | inr h => exact .inl ⟨127, List.mem_singleton.mp h⟩

theorem isRaw_fields (metadata : EntityMetadata) : ∀ field ∈ metadata.fields, IsRaw field := by
  intro field h
  rcases mem_fields h with ⟨b, rfl⟩ | ⟨entry, _, hfield⟩
  . trivial
  . exact entry.2.isRaw_fields field hfield

theorem valid_fields (metadata : EntityMetadata) : ∀ field ∈ metadata.fields, field.Valid := by
  intro field h
  rcases mem_fields h with ⟨b, rfl⟩ | ⟨entry, _, hfield⟩
  . trivial
  . exact entry.2.valid_fields field hfield

end EntityMetadata

namespace PacketReader

open EntityMetadata

variable {reader : PacketReader} {rest : Bytes}

def receivedEntry (entry : Int × MetadataValue) : Int × MetadataValue :=
  (entry.1, entry.2.received)

theorem length_le_body (entries : List (Int × MetadataValue))
    : entries.length ≤ (body (entries.flatMap entryFields)).length := by
  induction entries with
  | nil => exact Nat.zero_le _
  | cons entry entries ih =>
    rw [List.flatMap_cons, entryFields, List.cons_append, body_cons, body_append,
      List.length_append, List.length_append, List.length_cons]
    have hhead : (Field.byte (header entry.2.type entry.1)).encode.length = 1 := rfl
    omega

theorem body_entries_cons (entry : Int × MetadataValue) (entries : List (Int × MetadataValue))
    : body ((entry :: entries).flatMap entryFields ++ [.byte 127])
        =
      header entry.2.type entry.1
        :: (body entry.2.fields ++ body (entries.flatMap entryFields ++ [.byte 127])) := by
  rw [List.flatMap_cons, entryFields, List.append_assoc, List.cons_append, body_cons, body_append]
  rfl

theorem readEntries_spec {entries : List (Int × MetadataValue)}
    (hfits : ∀ entry ∈ entries, EntryFits entry) {fuel : Nat} (hfuel : entries.length < fuel)
    (h : reader.Ahead (body (entries.flatMap entryFields ++ [.byte 127]) ++ rest))
    : reader.readEntries fuel
        =
      some (entries.map receivedEntry,
        reader.skip (body (entries.flatMap entryFields ++ [.byte 127])).length) := by
  induction entries generalizing reader fuel with
  | nil =>
    cases fuel with
    | zero => simp at hfuel
    | succ fuel =>
      have hend := @readByte_spec reader rest 127 h
      rw [readEntries, hend]
      rfl
  | cons entry entries ih =>
    cases fuel with
    | zero => simp at hfuel
    | succ fuel =>
      have hentry := hfits entry List.mem_cons_self
      obtain ⟨htype, hindex, hne⟩ := header_spec entry.2 hentry.index
      have hnot : header entry.2.type entry.1 ≠ 127 := mt hne.mp hentry.ne_end
      rw [body_entries_cons, List.cons_append, List.append_assoc] at h
      have hhead := readByte_spec h
      have hahead := @Ahead.skip reader [header entry.2.type entry.1] _ h
      have hval := readMetadataValue_spec hentry.value hahead
      have hentries := ih (fun entry hmem => hfits entry (List.mem_cons_of_mem _ hmem))
        (by simpa using hfuel) hahead.skip
      rw [readEntries, hhead]
      show (if header entry.2.type entry.1 = 127 then _ else
        (reader.skip 1).readMetadataValue (header entry.2.type entry.1 >>> 5) >>= _) = _
      rw [if_neg hnot, htype]
      rw [List.length_singleton] at hval hentries
      rw [hval]
      show readEntries fuel _ >>= _ = _
      rw [hentries]
      show some ((((header entry.2.type entry.1 &&& 31).toNat : Int), entry.2.received) :: _, _) = _
      rw [hindex, skip_skip, skip_skip, body_entries_cons, List.length_cons, List.length_append,
        Nat.add_comm (_ + _) 1, ← Nat.add_assoc]
      rfl

/--
The bytes that have been put stop at themselves, whatever comes behind them.
-/
theorem readMetadata_spec {metadata : EntityMetadata} (hfits : ∀ entry ∈ metadata.data, EntryFits entry)
    (h : reader.Ahead (body metadata.fields ++ rest))
    : reader.readMetadata
        =
      some (metadata.data.map receivedEntry, reader.skip (body metadata.fields).length) := by
  apply readEntries_spec hfits _ h
  obtain ⟨n, _, harr⟩ := h
  have hlen := congrArg List.length harr
  have hentries := length_le_body metadata.data
  rw [List.length_drop, List.length_append, fields, body_append, List.length_append] at hlen
  omega

end PacketReader

namespace EntityMetadata

open PacketReader

variable {metadata : EntityMetadata} {pack : Packet}

/--
A client finds `entries` in the bytes that have been put, whatever comes behind them, and is at their
end then.
-/
def ReadsBack (metadata : EntityMetadata) (entries : List (Int × MetadataValue)) : Prop :=
  ∀ pack pack', pack.Within → metadata.encode pack = .ok pack' →
    ∀ (reader : PacketReader) rest,
      reader.Ahead (Slice.slice pack'.data pack.pos (pack'.pos - pack.pos) ++ rest) →
      reader.readMetadata = some (entries, reader.skip (pack'.pos - pack.pos))

/--
Every dictionary whose entries fit comes back, and can be put to a packet that has room for it.
-/
theorem readsBack_received (metadata : EntityMetadata) (hfits : ∀ entry ∈ metadata.data, EntryFits entry)
    : metadata.ReadsBack (metadata.data.map receivedEntry)
        ∧ ∀ pack, pack.Growing → pack.data.length + (body metadata.fields).length < 2 ^ 27 →
            ∃ pack', metadata.encode pack = .ok pack' := by
  constructor
  . intro pack pack' hin hencode reader rest hahead
    rw [encode_eq] at hencode
    have hput := putFields_ok metadata.isRaw_fields hin hencode
    have hlen : pack'.pos - pack.pos = (body metadata.fields).length := by
      rw [hput.pos_eq, Nat.add_sub_cancel_left]
    rw [hlen, hput.data_eq, Slice.slice_patch hin] at hahead
    rw [hlen]
    exact readMetadata_spec hfits hahead
  . intro pack hgrowing hlt
    obtain ⟨pack', hput, _⟩ := putFields_spec hgrowing metadata.valid_fields hlt
    exact ⟨pack', (encode_eq metadata pack).trans hput⟩

theorem readsBack_received_two
    : (∀ entry ∈ [((31 : Int), MetadataValue.string [97, 98]), (0, .slot ⟨1, 2, 64⟩)], EntryFits entry)
        ∧ ReadsBack ⟨[(31, .string [97, 98]), (0, .slot ⟨1, 2, 64⟩)], by decide⟩
            [(31, .string [97, 98]), (0, .slot ⟨1, 2, 64⟩)] := by
  have hfits : ∀ entry ∈ [((31 : Int), MetadataValue.string [97, 98]), (0, .slot ⟨1, 2, 64⟩)],
      EntryFits entry := by
    intro entry hentry
    simp only [List.mem_cons, List.not_mem_nil, or_false] at hentry
    cases hentry with
    | inl hentry =>
      subst hentry
      exact ⟨by decide, (by decide : 2 < 2 ^ 32), by decide⟩
    | inr hentry =>
      subst hentry
      exact ⟨by decide, (by decide : (0 : Int) ≤ 64 ∧ (64 : Int) ≤ 255), by decide⟩
  exact ⟨hfits, (readsBack_received ⟨_, by decide⟩ hfits).1⟩

theorem not_readsBack_of_body {entries : List (Int × MetadataValue)} {bs : Bytes}
    (hlt : bs.length < 2 ^ 27) (hbody : body metadata.fields = bs)
    (hread : (PacketReader.ofPacket bs []).readMetadata.map Prod.fst ≠ some entries)
    : ¬ metadata.ReadsBack entries := by
  intro h
  obtain ⟨pack', hput, _⟩ := putFields_spec growing_new metadata.valid_fields
    (by rw [hbody, show (Packet.new 16 5).data.length = 0 from rfl]; omega)
  have hin : (Packet.new 16 5).Within := Nat.le_refl 0
  have hisPut := putFields_ok metadata.isRaw_fields hin hput
  have hlen : pack'.pos - (Packet.new 16 5).pos = bs.length := by
    rw [hisPut.pos_eq, Nat.add_sub_cancel_left, hbody]
  have hahead : (PacketReader.ofPacket bs []).Ahead
      (Slice.slice pack'.data (Packet.new 16 5).pos (pack'.pos - (Packet.new 16 5).pos) ++ []) := by
    rw [hlen, hisPut.data_eq, hbody, Slice.slice_patch hin]
    exact ahead_ofPacket bs []
  apply hread
  rw [h _ pack' hin ((encode_eq metadata _).trans hput) _ [] hahead]
  rfl

theorem not_readsBack_of_length {str : Bytes} (h : str.length = 2 ^ 32)
    : ¬ (new.putString 0 str).ReadsBack (new.putString 0 str).data := by
  have hdata : (new.putString 0 str).data = [(0, .string str)] := rfl
  have hheader : header (MetadataValue.string str).type 0 = 128 := by
    show header 4 0 = 128
    decide +kernel
  have hbody : body (new.putString 0 str).fields = [128, 0, 127] := by
    rw [fields, hdata, List.flatMap_cons, List.flatMap_nil, entryFields, MetadataValue.fields,
      hheader, h, Nat.mod_self, List.take_zero]
    decide +kernel
  rw [hdata]
  apply not_readsBack_of_body (by decide) hbody
  have hread : (PacketReader.ofPacket [128, 0, 127] []).readMetadata.map Prod.fst
      = some [(0, .string [])] := by
    decide +kernel
  rw [hread]
  intro heq
  have hstr : [] = str := by simpa using heq
  rw [← hstr] at h
  simp at h

/--
A number with a fraction at the last index looks like the end, an empty slot has no amount, and a
length has 32 bits.
-/
theorem not_readsBack_data
    : ¬ (new.putFloat 31 0).ReadsBack (new.putFloat 31 0).data
      ∧ ¬ (new.putSlot 0 ⟨EMPTY_SLOT_VALUE, 0, 1⟩).ReadsBack (new.putSlot 0 ⟨EMPTY_SLOT_VALUE, 0, 1⟩).data
      ∧ ∃ str : Bytes, str.length = 2 ^ 32
          ∧ ¬ (new.putString 0 str).ReadsBack (new.putString 0 str).data := by
  refine ⟨?_, ?_, List.replicate (2 ^ 32) 97, List.length_replicate, ?_⟩
  . apply @not_readsBack_of_body _ _ [127, 0, 0, 0, 0, 127]
    . decide
    . decide +kernel
    . decide +kernel
  . apply @not_readsBack_of_body _ _ [160, 255, 255, 127]
    . decide
    . decide +kernel
    . decide +kernel
  . exact not_readsBack_of_length List.length_replicate

end EntityMetadata

end HCraft
