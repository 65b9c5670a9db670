import HCraft.Network.Packet.Lemmas.Put
import HCraft.Network.PacketDelimiter
import Mathlib.Data.List.TakeWhile

/-!
This module contains the agreement of the packets that are built, the delimiter that finds their
ends and the cursor that reads their fields.
-/

namespace HCraft

namespace PacketReader

def skip (reader : PacketReader) (n : Nat) : PacketReader :=
  { reader with pos := reader.pos.map (· + n) }

theorem skip_zero (reader : PacketReader) : reader.skip 0 = reader := by
  simp only [skip, Nat.add_zero, Option.map_id']

theorem skip_skip (reader : PacketReader) (m n : Nat)
    : (reader.skip m).skip n = reader.skip (m + n) := by
  simp only [skip, Option.map_map, Function.comp_def, Nat.add_assoc]

/--
The cursor stands in front of `bs`.
-/
def Ahead (reader : PacketReader) (bs : Bytes) : Prop :=
  ∃ n, reader.pos = some n ∧ reader.arr.drop n = bs

theorem ahead_ofPacket (packet beyond : Bytes) : (ofPacket packet beyond).Ahead (packet ++ beyond) :=
  ⟨0, rfl, rfl⟩

section Ahead

variable {reader : PacketReader} {bs rest : Bytes}

theorem Ahead.skip (h : reader.Ahead (bs ++ rest)) : (reader.skip bs.length).Ahead rest := by
  rcases h with ⟨n, hpos, harr⟩
  refine ⟨n + bs.length, by rw [PacketReader.skip, hpos, Option.map_some], ?_⟩
  rw [PacketReader.skip, ← List.drop_drop, harr, List.drop_left]

theorem readFixed_spec {α : Type} {n : Nat} {read : Bytes → Option α} {v : α}
    (h : reader.Ahead (bs ++ rest)) (hread : read (bs ++ rest) = some v)
    : reader.readFixed n read = some (v, reader.skip n) := by
  rcases h with ⟨pos, hpos, harr⟩
  simp only [readFixed, skip, hpos, harr, hread, Option.map_some, Option.bind_eq_bind,
    Option.bind_some, Option.pure_def]

theorem readVarint_spec (h : reader.Ahead (bs ++ rest)) (hbs : Leb128.Terminated bs)
    (hlen : bs.length ≤ 5)
    : reader.readVarint = some (Bin.int32 (Leb128.value bs), reader.skip bs.length) := by
  rcases h with ⟨pos, hpos, harr⟩
  simp only [readVarint, skip, hpos, harr, Bin.readVarint_of_terminated hbs rest hlen,
    Option.map_some, Option.bind_eq_bind, Option.bind_some, Option.pure_def]

theorem readVarint_encode {n : Nat} (h : reader.Ahead (Leb128.encode n ++ rest)) (hn : n < 2 ^ 32)
    : reader.readVarint = some (Bin.int32 n, reader.skip (Leb128.encode n).length) := by
  have hlen : (Leb128.encode n).length ≤ 5 := Leb128.length_encode_le (by omega) (by omega)
  rw [readVarint_spec h (Leb128.terminated_encode n) hlen, Leb128.value_encode]

theorem readVarlong_encode {n : Nat} (h : reader.Ahead (Leb128.encode n ++ rest)) (hn : n < 2 ^ 64)
    : reader.readVarlong = some (UInt64.ofNat n, reader.skip (Leb128.encode n).length) := by
  rcases h with ⟨pos, hpos, harr⟩
  simp only [readVarlong, skip, hpos, harr, Bin.readVarlong_encode hn rest, Option.map_some,
    Option.bind_eq_bind, Option.bind_some, Option.pure_def]

theorem readInt_spec {val : UInt32} (h : reader.Ahead (Bin.writeIntBe val.toNat ++ rest))
    : reader.readInt = some (val, reader.skip 4) := by
  have hlt := val.toNat_lt
  unfold readInt
  rw [readFixed_spec h (Bin.readIntBe_writeIntBe hlt rest), Option.map_some]
  dsimp only
  rw [Bin.unsigned32_int32 hlt, UInt32.ofNat_toNat]

theorem readLong_spec {val : UInt64} (h : reader.Ahead (Bin.writeLongBe val.toNat ++ rest))
    : reader.readLong = some (val, reader.skip 8) := by
  unfold readLong
  rw [readFixed_spec h (Bin.readLongBe_writeLongBe val.toNat_lt rest), Option.map_some]
  dsimp only
  rw [UInt64.ofNat_toNat]

theorem readBytes_spec (h : reader.Ahead (bs ++ rest))
    : reader.readBytes bs.length = some (bs, reader.skip bs.length) := by
  unfold readBytes
  apply readFixed_spec h
  rw [if_pos (by simp), List.take_left]

end Ahead

end PacketReader

inductive FieldType where
  | bool
  | byte
  | short
  | int
  | long
  | float
  | double
  | varint
  | varlong
  | string
  | bytes (len : Nat)

/--
An argument of a `put_*`. Numbers with a fraction are their bits.
-/
inductive Field where
  | bool (val : Bool)
  | byte (val : UInt8)
  | short (val : UInt16)
  | int (val : UInt32)
  | long (val : UInt64)
  | float (val : UInt32)
  | double (val : UInt64)
  | varint (val : Int)
  | varlong (val : UInt64)
  | string (str : Bytes)
  | bytes (arr : Bytes)

namespace Field

/--
A number in the range of its type, or a string without NUL.
-/
def Valid : Field → Prop
  | .varint val => -2 ^ 31 ≤ val ∧ val < 2 ^ 31
  | .string str => 0 ∉ str
  | _ => True

def type : Field → FieldType
  | .bool _ => .bool
  | .byte _ => .byte
  | .short _ => .short
  | .int _ => .int
  | .long _ => .long
  | .float _ => .float
  | .double _ => .double
  | .varint _ => .varint
  | .varlong _ => .varlong
  | .string _ => .string
  | .bytes arr => .bytes arr.length

def encode : Field → Bytes
  | .bool val => [if val then 1 else 0]
  | .byte val => [val]
  | .short val => Bin.writeShortBe val.toNat
  | .int val => Bin.writeIntBe val.toNat
  | .long val => Bin.writeLongBe val.toNat
  | .float val => Bin.writeIntBe val.toNat
  | .double val => Bin.writeLongBe val.toNat
  | .varint val => Bin.writeVarint (Bin.unsigned32 val)
  | .varlong val => Bin.writeVarlong val.toNat
  | .string str => Bin.writeVarint str.length ++ str
  | .bytes arr => arr

def putTo (pack : Packet) : Field → Except Fault Packet
  | .bool val => pack.putBool val
  | .byte val => pack.putByte val
  | .short val => pack.putShort val
  | .int val => pack.putInt val
  | .long val => pack.putLong val
  | .float val => pack.putFloat val
  | .double val => pack.putDouble val
  | .varint val => pack.putVarint val
  | .varlong val => pack.putVarlong val
  | .string str => pack.putString str
  | .bytes arr => pack.putBytes arr

end Field

/--
A string is read as a number and that many bytes.
-/
def FieldType.read (reader : PacketReader) : FieldType → Option (Field × PacketReader)
  | .bool => reader.readBool.map (fun (v, reader) => (.bool v, reader))
  | .byte => reader.readByte.map (fun (v, reader) => (.byte v, reader))
  | .short => reader.readShort.map (fun (v, reader) => (.short v, reader))
  | .int => reader.readInt.map (fun (v, reader) => (.int v, reader))
  | .long => reader.readLong.map (fun (v, reader) => (.long v, reader))
  | .float => reader.readFloat.map (fun (v, reader) => (.float v, reader))
  | .double => reader.readDouble.map (fun (v, reader) => (.double v, reader))
  | .varint => reader.readVarint.map (fun (v, reader) => (.varint v, reader))
  | .varlong => reader.readVarlong.map (fun (v, reader) => (.varlong v, reader))
  | .string => do
    let (len, reader) ← reader.readVarint
    if len < 0 then
      none
    else
      (reader.readBytes len.toNat).map (fun (v, reader) => (.string v, reader))
  | .bytes len => (reader.readBytes len).map (fun (v, reader) => (.bytes v, reader))

def readFields : List FieldType → PacketReader → Option (List Field × PacketReader)
  | [], reader => some ([], reader)
  | type :: types, reader => do
    let (field, reader) ← type.read reader
    let (fields, reader) ← readFields types reader
    return (field :: fields, reader)

namespace Packet

def body (fields : List Field) : Bytes :=
  fields.flatMap Field.encode

def putFields (pack : Packet) : List Field → Except Fault Packet
  | [] => .ok pack
  | field :: fields => do
    let pack ← field.putTo pack
    pack.putFields fields

def build (fields : List Field) : Except Fault Packet := do
  let pack ← (new 16 5).putFields fields
  pack.putLen

end Packet

section Put

variable {pack : Packet}

theorem mcString_eq {str : Bytes} (h : 0 ∉ str) (hlt : str.length < 2 ^ 32)
    : Packet.mcString str = Bin.writeVarint str.length ++ str := by
  have hall : str.takeWhile (· ≠ 0) = str := by
    rw [List.takeWhile_eq_self_iff]
    intro b hb
    simp only [ne_eq, decide_not, Bool.not_eq_eq_eq_not, Bool.not_true, decide_eq_false_iff_not]
    intro hzero
    exact h (hzero ▸ hb)
  simp only [Packet.mcString, hall, Nat.mod_eq_of_lt hlt]

theorem Field.length_writeVarint (n : Nat) : 0 < (Bin.writeVarint n).length := by
  rw [Bin.writeVarint_eq_encode]
  apply Leb128.length_encode_pos

theorem Field.putTo_spec (h : pack.Growing) {field : Field} (hvalid : field.Valid)
    (hlt : pack.data.length + field.encode.length < 2 ^ 27)
    : ∃ pack', field.putTo pack = .ok pack' ∧ pack'.Growing
        ∧ pack'.data = pack.data ++ field.encode := by
  cases field with
  | bool val => exact Packet.put_spec h (by omega) (by omega) (le_refl 1) (by simp) hlt
  | byte val => exact Packet.put_spec h (by omega) (by omega) (le_refl 1) (by simp) hlt
  | short val => exact Packet.put_spec h (by omega) (by omega) (le_refl 2) (by simp) hlt
  | int val => exact Packet.put_spec h (by omega) (by omega) (le_refl 4) (by simp) hlt
  | long val => exact Packet.put_spec h (by omega) (by omega) (le_refl 8) (by simp) hlt
  | float val => exact Packet.put_spec h (by omega) (by omega) (le_refl 4) (by simp) hlt
  | double val => exact Packet.put_spec h (by omega) (by omega) (le_refl 8) (by simp) hlt
  | varint val =>
    have hpos := Field.length_writeVarint (Bin.unsigned32 val)
    have hfive : (Bin.writeVarint (Bin.unsigned32 val)).length ≤ 5 := by
      rw [Bin.writeVarint_eq_encode]
      apply Leb128.length_encode_le (by omega)
      unfold Bin.unsigned32
      omega
    exact Packet.put_spec h (by omega) (by omega) hfive (by omega) hlt
  | varlong val =>
    have hpos : 0 < (Bin.writeVarlong val.toNat).length := Field.length_writeVarint val.toNat
    have hten : (Bin.writeVarlong val.toNat).length ≤ 10 := by
      rw [Bin.writeVarlong, Bin.writeVarint_eq_encode]
      apply Leb128.length_encode_le (by omega)
      have := val.toNat_lt
      omega
    exact Packet.put_spec h (by omega) (by omega) hten (by omega) hlt
  | string str =>
    rw [Field.encode, List.length_append] at hlt
    have hfive : (Bin.writeVarint str.length).length ≤ 5 := by
      rw [Bin.writeVarint_eq_encode]
      exact Leb128.length_encode_le (by omega) (by omega)
    rw [Field.putTo, Packet.putString, mcString_eq hvalid (by omega), Field.encode]
    apply Packet.put_spec h (by omega) (by omega)
    . rw [List.length_append, Packet.strlenUpperBound]
      omega
    . rw [List.length_append, Packet.strlenUpperBound]
      omega
    . rw [List.length_append]
      exact hlt
  | bytes arr => exact Packet.put_spec h (by omega) (by omega) (le_refl _) (by omega) hlt

theorem Packet.body_cons (field : Field) (fields : List Field)
    : body (field :: fields) = field.encode ++ body fields :=
  List.flatMap_cons

theorem Packet.putFields_spec (h : pack.Growing) {fields : List Field}
    (hvalid : ∀ field ∈ fields, field.Valid)
    (hlt : pack.data.length + (body fields).length < 2 ^ 27)
    : ∃ pack', pack.putFields fields = .ok pack' ∧ pack'.Growing
        ∧ pack'.data = pack.data ++ body fields := by
  induction fields generalizing pack with
  | nil => exact ⟨pack, rfl, h, (List.append_nil _).symm⟩
  | cons field fields ih =>
    rw [body_cons, List.length_append] at hlt
    obtain ⟨pack₁, h₁, hgrow₁, hdata₁⟩ :=
      field.putTo_spec h (hvalid field List.mem_cons_self) (by omega)
    obtain ⟨pack₂, h₂, hgrow₂, hdata₂⟩ := @ih pack₁ hgrow₁
      (fun field hfield => hvalid field (List.mem_cons_of_mem _ hfield))
      (by rw [hdata₁, List.length_append]; omega)
    refine ⟨pack₂, ?_, hgrow₂, ?_⟩
    . rw [putFields, h₁]
      exact h₂
    . rw [hdata₂, hdata₁, body_cons, List.append_assoc]

theorem Packet.build_spec {fields : List Field} (hvalid : ∀ field ∈ fields, field.Valid)
    (hlt : (body fields).length < 2 ^ 27)
    : ∃ pack, build fields = .ok pack
        ∧ pack.data = Bin.writeVarint (body fields).length ++ body fields := by
  obtain ⟨pack₁, h₁, hgrow₁, hdata₁⟩ := putFields_spec growing_new hvalid (by simpa [new] using hlt)
  rw [new, List.nil_append] at hdata₁
  obtain ⟨pack₂, h₂, hdata₂⟩ := putLen_spec hgrow₁ (by rw [hdata₁]; exact hlt)
  refine ⟨pack₂, ?_, by rw [hdata₂, hdata₁]⟩
  rw [build, h₁]
  exact h₂

end Put

section Read

variable {reader : PacketReader} {rest : Bytes}

theorem Field.read_encode {field : Field} (h : reader.Ahead (field.encode ++ rest))
    (hvalid : field.Valid) (hlt : field.encode.length < 2 ^ 31)
    : field.type.read reader = some (field, reader.skip field.encode.length) := by
  cases field with
  | bool val =>
    have hread := @PacketReader.readFixed_spec reader _ rest UInt8 1 List.head? _ h rfl
    rw [Field.type, FieldType.read, PacketReader.readBool, hread]
    cases val with
    | false => rfl
    | true => rfl
  | byte val =>
    have hread := @PacketReader.readFixed_spec reader _ rest UInt8 1 List.head? _ h rfl
    rw [Field.type, FieldType.read, PacketReader.readByte, hread]
    rfl
  | short val =>
    rw [Field.type, FieldType.read, PacketReader.readShort,
      PacketReader.readFixed_spec h (Bin.readShortBe_writeShortBe val.toNat_lt rest)]
    simp [Field.encode]
  | int val =>
    rw [Field.type, FieldType.read, PacketReader.readInt_spec h]
    rfl
  | long val =>
    rw [Field.type, FieldType.read, PacketReader.readLong_spec h]
    rfl
  | float val =>
    rw [Field.type, FieldType.read, PacketReader.readFloat, PacketReader.readInt_spec h]
    rfl
  | double val =>
    rw [Field.type, FieldType.read, PacketReader.readDouble, PacketReader.readLong_spec h]
    rfl
  | varint val =>
    rw [Field.encode, Bin.writeVarint_eq_encode] at h ⊢
    rw [Field.type, FieldType.read, PacketReader.readVarint_encode h (Bin.unsigned32_lt val),
      Bin.int32_unsigned32 hvalid.1 hvalid.2]
    rfl
  | varlong val =>
    rw [Field.encode, Bin.writeVarlong, Bin.writeVarint_eq_encode] at h ⊢
    rw [Field.type, FieldType.read, PacketReader.readVarlong_encode h val.toNat_lt,
      UInt64.ofNat_toNat]
    rfl
  | string str =>
    rw [Field.encode, List.length_append] at hlt
    rw [Field.encode, Bin.writeVarint_eq_encode] at h ⊢
    rw [List.append_assoc] at h
    have hlen := PacketReader.readVarint_encode h (by omega)
    have hstr := PacketReader.readBytes_spec h.skip
    rw [Field.type, FieldType.read, hlen, Bin.int32_eq_self (by omega)]
    dsimp only [bind, Option.bind]
    rw [if_neg (by omega), Int.toNat_natCast, hstr, Option.map_some, PacketReader.skip_skip,
      List.length_append]
  | bytes arr =>
    have hread := @PacketReader.readBytes_spec reader arr rest h
    rw [Field.type, FieldType.read, hread]
    rfl

theorem readFields_body {fields : List Field} (h : reader.Ahead (Packet.body fields ++ rest))
    (hvalid : ∀ field ∈ fields, field.Valid) (hlt : (Packet.body fields).length < 2 ^ 31)
    : readFields (fields.map Field.type) reader
        =
      some (fields, reader.skip (Packet.body fields).length) := by
  induction fields generalizing reader with
  | nil =>
    show some ([], reader) = some ([], reader.skip 0)
    rw [PacketReader.skip_zero]
  | cons field fields ih =>
    rw [Packet.body_cons, List.length_append] at hlt
    rw [Packet.body_cons, List.append_assoc] at h
    have hfield := field.read_encode h (hvalid field List.mem_cons_self) (by omega)
    have hfields := ih h.skip (fun field hfield => hvalid field (List.mem_cons_of_mem _ hfield))
      (by omega)
    rw [List.map_cons, readFields, hfield]
    dsimp only [bind, Option.bind]
    rw [hfields, PacketReader.skip_skip, Packet.body_cons, List.length_append]
    rfl

end Read

section Delimiter

variable {arr : Bytes}

theorem remaining_writeVarint_append {post : Bytes} (h : arr.length < 2 ^ 31) {pre : Bytes}
    (hpre : arr = pre ++ post)
    : Mc17PacketDelimiter.remaining (Bin.writeVarint arr.length ++ pre) = post.length := by
  have hlen : (Leb128.encode arr.length).length ≤ 5 := Leb128.length_encode_le (by omega) (by omega)
  have hsum : arr.length = pre.length + post.length := by rw [hpre, List.length_append]
  rw [Bin.writeVarint_eq_encode,
    Mc17PacketDelimiter.remaining_of_terminated (Leb128.terminated_encode _) pre hlen,
    Leb128.value_encode, Bin.int32_eq_self h, Bin.wrap32_eq_self (by omega) (by omega)]
  omega

theorem remaining_writeVarint_pos {pre post : Bytes} (h : arr.length < 2 ^ 31)
    (hpre : Bin.writeVarint arr.length ++ arr = pre ++ post) (hpost : post ≠ [])
    : 0 < Mc17PacketDelimiter.remaining pre := by
  have hpos := List.length_pos_iff.mpr hpost
  rcases List.append_eq_append_iff.mp hpre with ⟨mid, rfl, harr⟩ | ⟨mid, hbs, rfl⟩
  . rw [remaining_writeVarint_append h harr]
    omega
  . cases hmid : mid with
    | nil =>
      rw [hmid, List.append_nil] at hbs
      have harr : arr = [] ++ arr := rfl
      rw [← hbs, ← List.append_nil (Bin.writeVarint _), remaining_writeVarint_append h harr]
      rw [hmid, List.nil_append] at hpos
      omega
    | cons b mid' =>
      rw [Bin.writeVarint_eq_encode] at hbs
      have hlen : (Leb128.encode arr.length).length ≤ 5 :=
        Leb128.length_encode_le (by omega) (by omega)
      have hmore := (Leb128.terminated_encode arr.length).more_of_append hbs (by simp [hmid])
      have hshort := congrArg List.length hbs
      rw [List.length_append, hmid, List.length_cons] at hshort
      rw [Mc17PacketDelimiter.remaining_of_more hmore, if_neg (by omega)]
      omega

end Delimiter

/--
A packet that is built is a frame, and its fields can be read back.
-/
theorem Packet.build_frame {fields : List Field} (hvalid : ∀ field ∈ fields, field.Valid)
    (hlt : (body fields).length < 2 ^ 27)
    : ∃ pack, build fields = .ok pack
        ∧ pack.data = Bin.writeVarint (body fields).length ++ body fields
        ∧ Mc17PacketDelimiter.remaining pack.data = 0
        ∧ (∀ pre post, pack.data = pre ++ post → post ≠ []
            → 0 < Mc17PacketDelimiter.remaining pre)
        ∧ ∀ beyond, ∃ reader reader',
            (PacketReader.ofPacket pack.data beyond).readVarint
              = some (((body fields).length : Int), reader)
            ∧ readFields (fields.map Field.type) reader = some (fields, reader')
            ∧ reader'.pos = some pack.data.length := by
  obtain ⟨pack, hbuild, hdata⟩ := build_spec hvalid hlt
  refine ⟨pack, hbuild, hdata, ?_, ?_, ?_⟩
  . have hall : body fields = body fields ++ [] := (List.append_nil _).symm
    rw [hdata, remaining_writeVarint_append (by omega) hall]
    rfl
  . intro pre post hpre hpost
    rw [hdata] at hpre
    exact remaining_writeVarint_pos (by omega) hpre hpost
  . intro beyond
    have hahead := PacketReader.ahead_ofPacket pack.data beyond
    rw [hdata, Bin.writeVarint_eq_encode, List.append_assoc] at hahead
    have hlen := PacketReader.readVarint_encode hahead (by omega)
    have hfields := readFields_body hahead.skip hvalid (by omega)
    rw [Bin.int32_eq_self (by omega)] at hlen
    rw [PacketReader.skip_skip] at hfields
    refine ⟨_, _, ?_, hfields, ?_⟩
    . rw [hdata, Bin.writeVarint_eq_encode]
      exact hlen
    . rw [hdata, Bin.writeVarint_eq_encode, List.length_append]
      simp only [PacketReader.skip, PacketReader.ofPacket, Option.map_some, Nat.zero_add]

theorem Packet.build_frame_strings
    : ∃ pack, build [.string [104, 105], .varint (-1), .bytes [0, 7]] = .ok pack
        ∧ pack.data = Bin.writeVarint 10 ++ body [.string [104, 105], .varint (-1), .bytes [0, 7]]
        ∧ Mc17PacketDelimiter.remaining pack.data = 0 := by
  have hvalid : ∀ field ∈ [Field.string [104, 105], .varint (-1), .bytes [0, 7]], field.Valid := by
    simp [Field.Valid]
  have hbody : (body [.string [104, 105], .varint (-1), .bytes [0, 7]]).length = 10 := by
    simp [body, Field.encode, Bin.writeVarint_eq_encode, Leb128.encode, Bin.unsigned32]
  obtain ⟨pack, hbuild, hdata, hdone, _⟩ := build_frame hvalid (by rw [hbody]; omega)
  rw [hbody] at hdata
  exact ⟨pack, hbuild, hdata, hdone⟩

end HCraft
