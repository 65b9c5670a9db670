import HCraft.Util.Nbt.Lemmas.Skip
import HCraft.Util.Nbt.Lemmas.Write

/-!
This module contains the correctness of the reader on what the writer has written.
-/

namespace HCraft

namespace NbtTag

mutual

/--
What the reader keeps of a tag.
-/
def erase : NbtTag UInt8 → NbtTag Unit
  | byte val => .byte val
  | short val => .short val
  | int val => .int val
  | long val => .long val
  | float val => .float val
  | double val => .double val
  | byteArray data => .byteArray data
  | string val => .string val
  | list _ vals => .list () (eraseVals vals)
  | compound tags => .compound (eraseTags tags)
  | intArray data => .intArray data

def eraseVals : List (NbtTag UInt8) → List (NbtTag Unit)
  | [] => []
  | t :: ts => t.erase :: eraseVals ts

def eraseTags : List (Bytes × NbtTag UInt8) → List (Bytes × NbtTag Unit)
  | [] => []
  | (name, t) :: ts => (name, t.erase) :: eraseTags ts

end

theorem id_ne_zero {δ : Type} (t : NbtTag δ) : t.id ≠ 0 := by
  cases t with
  | _ => exact of_decide_eq_true rfl

theorem length_payload_pos (t : NbtTag UInt8) : 0 < t.payload.length := by
  cases t with
  | _ => simp [payload]

theorem length_le_payloadVals (ts : List (NbtTag UInt8)) : ts.length ≤ (payloadVals ts).length := by
  induction ts with
  | nil => simp
  | cons t ts ih =>
    have := t.length_payload_pos
    rw [payloadVals, List.length_append, List.length_cons]
    omega

theorem length_putAll (arr : List UInt32) : (putAll arr).length = 4 * arr.length := by
  unfold putAll
  induction arr with
  | nil => rfl
  | cons v arr ih =>
    rw [List.flatMap_cons, List.length_append, ih, Bin.length_writeIntBe, List.length_cons]
    omega

end NbtTag

namespace NbtReader

open NbtTag Bin

theorem setTag_of_not_mem {name : Bytes} {t : NbtTag Unit} {tags : List (Bytes × NbtTag Unit)}
    (h : name ∉ tags.map Prod.fst)
    : setTag name t tags = tags ++ [(name, t)] := by
  induction tags with
  | nil => rfl
  | cons tag tags ih =>
    rcases tag with ⟨name', t'⟩
    rw [List.map_cons, List.mem_cons, not_or] at h
    rw [setTag, if_neg (Ne.symm h.left), ih h.right]
    rfl

theorem readInts_putAll (arr : List UInt32) (rest : Bytes)
    : readInts arr.length (putAll arr ++ rest) = some arr := by
  unfold putAll
  induction arr with
  | nil => rfl
  | cons v arr ih =>
    have hread := readIntBe_writeIntBe v.toNat_lt (arr.flatMap (fun v => writeIntBe v.toNat) ++ rest)
    have hv := unsigned32_int32 v.toNat_lt
    generalize int32 v.toNat = n at hread hv
    rw [List.length_cons, readInts, List.flatMap_cons, List.append_assoc, hread]
    dsimp only
    rw [List.drop_left' (length_writeIntBe _), ih, hv, UInt32.ofNat_toNat]
    rfl

theorem int32_length {n : Nat} (h : n < 2 ^ 31)
    : int32 (BigEndian.decode (writeIntBe n)) = n := by
  rw [decode_writeIntBe (by omega), int32_eq_self h]

section Numbers

variable {fuel : Nat} (rest : Bytes)

theorem readPayload_short (v : UInt16)
    : readPayload (fuel + 1) 2 (cur (writeShortBe v.toNat ++ rest)) = .ok (.short v, cur rest) := by
  have hread := readFixed_append (length_writeShortBe v.toNat)
    (readShortBe_writeShortBe v.toNat_lt rest)
  have hid : readPayload (fuel + 1) 2 (cur (writeShortBe v.toNat ++ rest))
      = (readPayloadShort (cur (writeShortBe v.toNat ++ rest))).map
          (fun r => (.short (UInt16.ofNat r.1), r.2)) := by
    rw [readPayload]
    rfl
  rw [hid, readPayloadShort, hread, Except.map]
  dsimp only
  rw [UInt16.ofNat_toNat]

theorem readPayloadInt_append (v : UInt32)
    : ∃ n, readPayloadInt (cur (writeIntBe v.toNat ++ rest)) = .ok (n, cur rest)
        ∧ UInt32.ofNat (unsigned32 n) = v := by
  have hread := readFixed_append (length_writeIntBe v.toNat)
    (readIntBe_writeIntBe v.toNat_lt rest)
  have hv := unsigned32_int32 v.toNat_lt
  generalize int32 v.toNat = n at hread hv
  refine ⟨n, hread, ?_⟩
  rw [hv, UInt32.ofNat_toNat]

theorem readPayload_int (v : UInt32)
    : readPayload (fuel + 1) 3 (cur (writeIntBe v.toNat ++ rest)) = .ok (.int v, cur rest) := by
  obtain ⟨n, hread, hv⟩ := readPayloadInt_append rest v
  have hid : readPayload (fuel + 1) 3 (cur (writeIntBe v.toNat ++ rest))
      = (readPayloadInt (cur (writeIntBe v.toNat ++ rest))).map
          (fun r => (.int (UInt32.ofNat (unsigned32 r.1)), r.2)) := by
    rw [readPayload]
    rfl
  rw [hid, hread, Except.map]
  dsimp only
  rw [hv]

theorem readPayload_float (v : UInt32)
    : readPayload (fuel + 1) 5 (cur (writeIntBe v.toNat ++ rest)) = .ok (.float v, cur rest) := by
  obtain ⟨n, hread, hv⟩ := readPayloadInt_append rest v
  have hid : readPayload (fuel + 1) 5 (cur (writeIntBe v.toNat ++ rest))
      = (readPayloadInt (cur (writeIntBe v.toNat ++ rest))).map
          (fun r => (.float (UInt32.ofNat (unsigned32 r.1)), r.2)) := by
    rw [readPayload]
    rfl
  rw [hid, hread, Except.map]
  dsimp only
  rw [hv]

theorem readPayloadLong_append (v : UInt64)
    : readPayloadLong (cur (writeLongBe v.toNat ++ rest)) = .ok (v.toNat, cur rest) :=
  readFixed_append (length_writeLongBe v.toNat) (readLongBe_writeLongBe v.toNat_lt rest)

theorem readPayload_long (v : UInt64)
    : readPayload (fuel + 1) 4 (cur (writeLongBe v.toNat ++ rest)) = .ok (.long v, cur rest) := by
  have hid : readPayload (fuel + 1) 4 (cur (writeLongBe v.toNat ++ rest))
      = (readPayloadLong (cur (writeLongBe v.toNat ++ rest))).map
          (fun r => (.long (UInt64.ofNat r.1), r.2)) := by
    rw [readPayload]
    rfl
  rw [hid, readPayloadLong_append, Except.map]
  dsimp only
  rw [UInt64.ofNat_toNat]

theorem readPayload_double (v : UInt64)
    : readPayload (fuel + 1) 6 (cur (writeLongBe v.toNat ++ rest))
        =
      .ok (.double v, cur rest) := by
  have hid : readPayload (fuel + 1) 6 (cur (writeLongBe v.toNat ++ rest))
      = (readPayloadLong (cur (writeLongBe v.toNat ++ rest))).map
          (fun r => (.double (UInt64.ofNat r.1), r.2)) := by
    rw [readPayload]
    rfl
  rw [hid, readPayloadLong_append, Except.map]
  dsimp only
  rw [UInt64.ofNat_toNat]

end Numbers

section Arrays

variable {fuel : Nat} (rest : Bytes)

theorem readPayload_byteArray {data : Bytes} (h : data.length < 2 ^ 31)
    : readPayload (fuel + 1) 7 (cur (writeIntBe data.length ++ data ++ rest))
        =
      .ok (.byteArray data, cur rest) := by
  have hread := readPayloadByteArray_append (length_writeIntBe _) (int32_length h) rest
  have hid : ∀ s, readPayload (fuel + 1) 7 s
      = (readPayloadByteArray s).map (fun r => (.byteArray r.1, r.2)) := by
    intro s
    rw [readPayload]
    rfl
  rw [List.append_assoc, hid, hread]
  rfl

theorem readPayload_string {val : Bytes} (h : val.length ≤ 65535) (hval : 0 ∉ val)
    : readPayload (fuel + 1) 8 (cur (writeShortBe val.length ++ val ++ rest))
        =
      .ok (.string val, cur rest) := by
  have hread := readPayloadString_append (length_writeShortBe _)
    (decode_writeShortBe (by omega : val.length < 2 ^ 16)) rest
  rw [cstr_eq_self hval] at hread
  have hid : ∀ s, readPayload (fuel + 1) 8 s
      = (readPayloadString s).map (fun r => (.string r.1, r.2)) := by
    intro s
    rw [readPayload]
    rfl
  rw [List.append_assoc, hid, hread]
  rfl

theorem readPayload_intArray {arr : List UInt32} (h : 4 * arr.length < 2 ^ 31)
    : readPayload (fuel + 1) 11 (cur (writeIntBe arr.length ++ putAll arr ++ rest))
        =
      .ok (.intArray arr, cur rest) := by
  have hlen := length_putAll arr
  have hwrap : wrap32 (arr.length * 4) = (putAll arr).length := by
    rw [wrap32_eq_self (by omega) (by omega), hlen]
    omega
  have hread := readPayloadIntArray_append (length_writeIntBe _)
    (int32_length (by omega : arr.length < 2 ^ 31)) hwrap (by omega) (readInts_putAll arr rest)
  have hid : ∀ s, readPayload (fuel + 1) 11 s
      = (readPayloadIntArray s).map (fun r => (.intArray r.1, r.2)) := by
    intro s
    rw [readPayload]
    rfl
  rw [List.append_assoc, hid, hread]
  rfl

end Arrays

theorem readTag_payload {t : NbtTag UInt8} {fuel : Nat} {name rest : Bytes}
    (hname : ValidName name)
    (h : readPayload fuel t.id (cur (t.payload ++ rest)) = .ok (t.erase, cur rest))
    : readTag (fuel + 1) (cur (header t.id name ++ t.payload ++ rest))
        =
      .ok (some (name, t.erase), cur rest) := by
  have hread := readName_append (length_writeShortBe _)
    (decode_writeShortBe (by have := hname.left; omega : name.length < 2 ^ 16))
    (by have := hname.left; omega) (t.payload ++ rest)
  rw [cstr_eq_self hname.right] at hread
  rw [header, List.cons_append, List.cons_append, List.append_assoc, List.append_assoc, readTag_cons]
  rw [hread]
  dsimp only
  rw [h]
  rfl

mutual

theorem readPayload_payload (t : NbtTag UInt8) (ht : t.Valid) {fuel : Nat}
    (hfuel : 2 * t.payload.length + 3 ≤ fuel) (hlt : t.payload.length < 2 ^ 31) (rest : Bytes)
    : readPayload fuel t.id (cur (t.payload ++ rest)) = .ok (t.erase, cur rest) :=
  match fuel, t with
  | 0, _ => by omega
  | fuel + 1, .byte val => by
    rw [payload, List.singleton_append]
    have hread := readPayloadByte_cons val rest
    rw [readPayload]
    exact congrArg (Except.map (fun (v, s) => (NbtTag.byte v, s))) hread
  | fuel + 1, .short val => readPayload_short rest val
  | fuel + 1, .int val => readPayload_int rest val
  | fuel + 1, .long val => readPayload_long rest val
  | fuel + 1, .float val => readPayload_float rest val
  | fuel + 1, .double val => readPayload_double rest val
  | fuel + 1, .byteArray data => by
    rw [payload, List.length_append] at hlt
    exact readPayload_byteArray rest (by omega)
  | fuel + 1, .string val => readPayload_string rest ht.left ht.right
  | fuel + 1, .intArray data => by
    rw [payload, List.length_append, length_putAll] at hlt
    exact readPayload_intArray rest (by omega)
  | fuel + 1, .list eltype vals => by
    obtain ⟨htypes, hvals⟩ := ht
    have hcount := length_le_payloadVals vals
    simp only [payload, List.length_cons, List.length_append, length_writeIntBe] at hfuel hlt
    have hread := readVals_payloadVals vals hvals htypes (by omega : _ ≤ fuel) (by omega) rest
    have hlen := int32_length (by omega : vals.length < 2 ^ 31)
    rw [payload, List.cons_append, List.append_assoc, NbtTag.id, readPayload_list]
    unfold readPayloadList
    rw [if_neg (by simp only [cur, List.length_cons, List.length_append, length_writeIntBe]; omega)]
    rw [readPayloadByte_cons]
    dsimp only [bind, Except.bind]
    rw [readFixed_int (length_writeIntBe _) hlen]
    dsimp only
    rw [Int.toNat_natCast, hread]
    rfl
  | fuel + 1, .compound tags => by
    obtain ⟨hnames, htags⟩ := ht
    simp only [payload, List.length_append, List.length_singleton] at hfuel hlt
    have hread := readTags_payloadTags tags htags (by omega : _ ≤ fuel) (by omega) [] hnames rest
    rw [payload, List.append_assoc, List.singleton_append, NbtTag.id, readPayload]
    change (readTags fuel [] _).bind _ = _
    rw [hread]
    rfl

theorem readVals_payloadVals (ts : List (NbtTag UInt8)) (hts : ValidVals ts) {eltype : UInt8}
    (htypes : ∀ t ∈ ts, t.id = eltype) {fuel : Nat}
    (hfuel : 2 * (payloadVals ts).length + 4 ≤ fuel) (hlt : (payloadVals ts).length < 2 ^ 31)
    (rest : Bytes)
    : readVals fuel eltype ts.length (cur (payloadVals ts ++ rest))
        =
      .ok (eraseVals ts, cur rest) :=
  match fuel, ts with
  | 0, _ => by omega
  | fuel + 1, [] => rfl
  | fuel + 1, t :: ts => by
    obtain ⟨ht, hts⟩ := hts
    have hpos := t.length_payload_pos
    rw [payloadVals, List.length_append] at hfuel hlt
    have hread := readPayload_payload t ht (by omega : _ ≤ fuel) (by omega)
      (payloadVals ts ++ rest)
    have hrest := readVals_payloadVals ts hts (fun t h => htypes t (by simp [h]))
      (by omega : _ ≤ fuel) (by omega) rest
    rw [htypes t (by simp)] at hread
    rw [payloadVals, List.append_assoc, List.length_cons, readVals, hread]
    dsimp only [bind, Except.bind]
    rw [hrest]
    rfl

theorem readTags_payloadTags (ts : List (Bytes × NbtTag UInt8)) (hts : ValidTags ts) {fuel : Nat}
    (hfuel : 2 * (payloadTags ts).length + 4 ≤ fuel) (hlt : (payloadTags ts).length < 2 ^ 31)
    (tags : List (Bytes × NbtTag Unit)) (hnames : (tags.map Prod.fst ++ ts.map Prod.fst).Nodup)
    (rest : Bytes)
    : readTags fuel tags (cur (payloadTags ts ++ 0 :: rest))
        =
      .ok (tags ++ eraseTags ts, cur rest) :=
  match fuel, ts with
  | 0, _ => by omega
  | fuel + 1, [] => by
    rw [payloadTags, List.nil_append, readTags_end, eraseTags, List.append_nil]
  | fuel + 2, (name, t) :: ts => by
    obtain ⟨hname, ht, hts⟩ := hts
    have hpos := t.length_payload_pos
    simp only [payloadTags, List.length_append, header, List.length_cons, length_writeShortBe]
      at hfuel hlt
    rw [List.map_cons] at hnames
    have hfresh : name ∉ tags.map Prod.fst := by
      intro hmem
      exact (List.nodup_append.mp hnames).right.right name hmem name (by simp) rfl
    have hread := readPayload_payload t ht (by omega : _ ≤ fuel) (by omega)
      (payloadTags ts ++ 0 :: rest)
    have htag := readTag_payload hname hread
    have hrest := readTags_payloadTags ts hts (by omega : _ ≤ fuel + 1) (by omega)
      (tags ++ [(name, t.erase)]) (by simpa using hnames) rest
    rw [payloadTags, List.append_assoc]
    have hcons : header t.id name ++ t.payload ++ (payloadTags ts ++ 0 :: rest)
        = t.id :: (writeShortBe name.length ++ name ++ t.payload
          ++ (payloadTags ts ++ 0 :: rest)) := by
      simp [header]
    rw [hcons] at htag ⊢
    rw [readTags_cons t.id_ne_zero, htag]
    dsimp only
    rw [setTag_of_not_mem hfresh, hrest, eraseTags, List.append_assoc]
    rfl
  | 1, _ :: _ => by omega

end

section Root

variable {name : Bytes} {tags : List (Bytes × NbtTag UInt8)}

theorem write_root (hname : ValidName name) (htags : (NbtTag.compound tags).Valid)
    (hlen : (header 10 name ++ (NbtTag.compound tags).payload).length < 2 ^ 28)
    : ∃ w, (NbtTag.compound tags).write (some name) NbtWriter.new = .ok w
        ∧ w.buf.data = header 10 name ++ (NbtTag.compound tags).payload := by
  obtain ⟨w, hwrite, _, hdata, _⟩ := @write_spec (.compound tags) htags (some name) NbtWriter.new
    ⟨.compound, 0, 0⟩ [] rfl ByteBuffer.atEnd_new hname (by
      change 0 + (header 10 name ++ (NbtTag.compound tags).payload).length ≤ 2 ^ 28
      omega)
  exact ⟨w, hwrite, hdata⟩

theorem readTag_root (hname : ValidName name) (htags : (NbtTag.compound tags).Valid)
    {data : Bytes} (hdata : data = header 10 name ++ (NbtTag.compound tags).payload)
    (hlen : data.length < 2 ^ 28)
    : readTag (2 * data.length + 1) (cur data)
        =
      .ok (some (name, (NbtTag.compound tags).erase), cur []) := by
  have hnil : data = header 10 name ++ (NbtTag.compound tags).payload ++ [] := by
    rw [hdata, List.append_nil]
  rw [hdata, List.length_append] at hlen
  rw [hnil]
  apply readTag_payload hname
  apply readPayload_payload _ htags
  . simp only [List.length_append, header, List.length_cons, Bin.length_writeShortBe]
    omega
  . omega

theorem readRaw_root (hname : ValidName name) (htags : (NbtTag.compound tags).Valid)
    {data : Bytes} (hdata : data = header 10 name ++ (NbtTag.compound tags).payload)
    (hlen : data.length < 2 ^ 28)
    : readRaw data = .ok (name, eraseTags tags) := by
  rw [readRaw_eq, readTag_root hname htags hdata hlen]
  rfl

/--
The whole buffer is consumed: the reader stops at its end.
-/
theorem readRaw_write (hname : ValidName name) (htags : (NbtTag.compound tags).Valid)
    (hlen : (header 10 name ++ (NbtTag.compound tags).payload).length < 2 ^ 28)
    : ∃ w, (NbtTag.compound tags).write (some name) NbtWriter.new = .ok w
        ∧ readTag (2 * w.buf.data.length + 1) (cur w.buf.data)
          = .ok (some (name, (NbtTag.compound tags).erase), cur [])
        ∧ readRaw w.buf.data = .ok (name, eraseTags tags) := by
  obtain ⟨w, hwrite, hdata⟩ := write_root hname htags hlen
  have hlt : w.buf.data.length < 2 ^ 28 := hdata ▸ hlen
  exact ⟨w, hwrite, readTag_root hname htags hdata hlt, readRaw_root hname htags hdata hlt⟩

end Root

theorem readRaw_write_list
    : ∃ w, (NbtTag.compound [([108], .list 2 [.short 1, .short 2])]).write (some [104]) .new = .ok w
        ∧ readTag (2 * w.buf.data.length + 1) (cur w.buf.data)
          = .ok (some ([104],
              (NbtTag.compound [([108], .list 2 [.short 1, .short 2])]).erase), cur [])
        ∧ readRaw w.buf.data = .ok ([104], eraseTags [([108], .list 2 [.short 1, .short 2])]) := by
  apply readRaw_write
  . exact ⟨by decide, by decide⟩
  . simp [Valid, ValidTags, ValidVals, ValidName, NbtTag.id]
  . simp [header, payload, payloadTags, payloadVals]

end NbtReader

end HCraft
