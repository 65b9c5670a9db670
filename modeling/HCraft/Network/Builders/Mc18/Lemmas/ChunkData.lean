import HCraft.Network.Builders.Mc18.Impl
import HCraft.Network.Packet.Lemmas.Frame
import Mathlib.Data.Nat.Bitwise

/-!
This module contains that a client recovers a chunk from its packet.
-/

namespace HCraft

namespace Mc18PacketBuilder

variable {mask : UInt16} {ch : Chunk} {cont : Bool}

section Mask

theorem selects_eq_testBit (mask : UInt16) (i : Fin 16) : selects mask i = mask.toNat.testBit i := by
  have hshift : ((1 : UInt16) <<< UInt16.ofNat i).toNat = 2 ^ i.val := by
    revert i
    decide
  have hiff : mask &&& 1 <<< UInt16.ofNat i = 0 ↔ mask.toNat.testBit i = false := by
    rw [← UInt16.toNat_inj, UInt16.toNat_and, hshift, Nat.and_two_pow]
    cases mask.toNat.testBit i with
    | false => simp
    | true => simp
  unfold selects
  rw [Bool.eq_iff_iff, bne_iff_ne, ne_eq, hiff, Bool.not_eq_false]

theorem selects_or (mask : UInt16) (i j : Fin 16)
    : selects (mask ||| 1 <<< UInt16.ofNat j) i = (selects mask i || i == j) := by
  have hshift : ((1 : UInt16) <<< UInt16.ofNat j).toNat = 2 ^ j.val := by
    revert j
    decide
  rw [selects_eq_testBit, selects_eq_testBit, UInt16.toNat_or, Nat.testBit_or, hshift,
    Nat.testBit_two_pow]
  congr 1
  rw [Bool.eq_iff_iff, decide_eq_true_iff, beq_iff_eq, Fin.ext_iff, eq_comm]

theorem selects_foldl (ps : List (Fin 16)) (mask : UInt16) (i : Fin 16)
    : selects (ps.foldl
          (fun mask i => if (ch.subs i).isSome then mask ||| 1 <<< UInt16.ofNat i else mask) mask) i
        =
      (selects mask i || (decide (i ∈ ps) && (ch.subs i).isSome)) := by
  induction ps generalizing mask with
  | nil => simp
  | cons j ps ih =>
    rw [List.foldl_cons, ih]
    split
    . next hsome =>
      rw [selects_or]
      by_cases hij : i = j
      . simp [hij, hsome]
      . simp [hij, beq_false_of_ne hij]
    . next hnone =>
      by_cases hij : i = j
      . simp [hij, hnone]
      . simp [hij]

theorem selects_mask (ch : Chunk) (i : Fin 16) : selects ch.mask i = (ch.subs i).isSome := by
  have hzero : selects 0 i = false := by
    rw [selects_eq_testBit]
    exact Nat.zero_testBit _
  unfold Chunk.mask
  rw [selects_foldl, hzero]
  simp

end Mask

section Fields

/--
A mask that selects no sub-chunk that is absent.
-/
def Present (ch : Chunk) (mask : UInt16) : Prop :=
  ∀ i, selects mask i = true → (ch.subs i).isSome = true

/--
The sub-chunks in the order in which they are put.
-/
def selected (mask : UInt16) : List (Fin 16) :=
  (List.finRange 16).filter (selects mask)

def subFields (mask : UInt16) (ch : Chunk) (array : SubChunk → Bytes) : List Field :=
  (selected mask).map (fun i => .bytes (array (ch.getSub i)))

def headFields (cx cz : Int) (cont : Bool) (mask : UInt16) : List Field :=
  [
    .varint 0x21,
    .int (UInt32.ofNat (Bin.unsigned32 cx)),
    .int (UInt32.ofNat (Bin.unsigned32 cz)),
    .bool cont,
    .short mask,
    .varint (dataSize cont mask)
  ]

def biomeFields (cont : Bool) (ch : Chunk) : List Field :=
  if cont then [.bytes (List.ofFn ch.biomes)] else []

def dataFields (cont : Bool) (mask : UInt16) (ch : Chunk) : List Field :=
  subFields mask ch SubChunk.typesBytes ++ subFields mask ch (fun sub => List.ofFn sub.bl)
    ++ subFields mask ch (fun sub => List.ofFn sub.sl) ++ biomeFields cont ch

theorem putFields_append (pack : Packet) (fs gs : List Field)
    : pack.putFields (fs ++ gs) = pack.putFields fs >>= (·.putFields gs) := by
  induction fs generalizing pack with
  | nil => rfl
  | cons f fs ih =>
    rw [List.cons_append, Packet.putFields, Packet.putFields]
    cases f.putTo pack with
    | error e => rfl
    | ok pack => exact ih pack

theorem putSubs_eq (hmask : Present ch mask) (pack : Packet) (array : SubChunk → Bytes)
    : putSubs pack mask ch array = pack.putFields (subFields mask ch array) := by
  unfold putSubs subFields selected
  generalize List.finRange 16 = ps
  induction ps generalizing pack with
  | nil => rfl
  | cons i ps ih =>
    rw [List.foldlM_cons]
    cases hi : selects mask i with
    | false =>
      rw [List.filter_cons_of_neg (by simp [hi])]
      exact ih pack
    | true =>
      obtain ⟨sub, hsub⟩ := Option.isSome_iff_exists.mp (hmask i hi)
      have hget : ch.getSub i = sub := by
        unfold Chunk.getSub
        rw [hsub]
        rfl
      rw [List.filter_cons_of_pos hi, List.map_cons, Packet.putFields, if_pos rfl, hsub, hget]
      dsimp only [Field.putTo]
      cases pack.putBytes (array sub) with
      | error e => rfl
      | ok pack => exact ih pack

theorem makeChunkData_eq (hmask : Present ch mask) (cx cz : Int) (cont : Bool)
    : makeChunkData cx cz cont mask ch
        =
      Packet.build (headFields cx cz cont mask ++ dataFields cont mask ch) := by
  have hok (pack : Packet) (k : Packet → Except Fault Packet) : Except.ok pack >>= k = k pack := rfl
  have hbiomes (pack : Packet) (k : Packet → Except Fault Packet)
      : (if cont = true then pack.putBytes (List.ofFn ch.biomes) >>= k else k pack)
          = pack.putFields (biomeFields cont ch) >>= k := by
    cases cont with
    | false => rfl
    | true =>
      show _ = (pack.putBytes _ >>= _) >>= _
      cases pack.putBytes (List.ofFn ch.biomes) with
      | error e => rfl
      | ok pack => rfl
  unfold makeChunkData Packet.build dataFields
  simp only [putSubs_eq hmask, hok, hbiomes, putFields_append, headFields, Packet.putFields,
    Field.putTo, bind_assoc]

end Fields

section Layout

/--
Sub-chunk `k` of a payload with `n` of them.
-/
def sliceSub (payload : Bytes) (n k : Nat) : SubChunk :=
  let types := Slice.slice payload (k * 8192) 8192
  let bl := Slice.slice payload (n * 8192 + k * 2048) 2048
  let sl := Slice.slice payload (n * 8192 + (n * 2048 + k * 2048)) 2048
  { types := fun j =>
      (types.getD (j * 2) 0).toUInt16 ||| (types.getD (j * 2 + 1) 0).toUInt16 <<< 8
    sl := fun j => sl.getD j 0
    bl := fun j => bl.getD j 0 }

def sliceSubs (mask : UInt16) (payload : Bytes) (i : Fin 16) : Option SubChunk :=
  if selects mask i then
    some (sliceSub payload (selected mask).length ((selected mask).idxOf i))
  else
    none

def sliceBiomes (cont : Bool) (mask : UInt16) (payload : Bytes) : Option (Fin 256 → UInt8) :=
  if cont then
    let biomes := Slice.slice payload ((selected mask).length * 12288) 256
    some (fun j => biomes.getD j 0)
  else
    none

theorem toUInt16_or_shiftLeft (v : UInt16)
    : v.toUInt8.toUInt16 ||| (v >>> 8).toUInt8.toUInt16 <<< 8 = v := by
  have hhi : ((v >>> 8).toUInt8.toUInt16 <<< 8).toNat = v.toNat / 256 * 2 ^ 8 := by
    have := v.toNat_lt
    simp [Nat.shiftRight_eq_div_pow, Nat.shiftLeft_eq]
    omega
  have hlo : v.toUInt8.toUInt16.toNat = v.toNat % 2 ^ 8 := by simp
  rw [← UInt16.toNat_inj, UInt16.toNat_or, hhi, hlo, Nat.or_comm, Nat.mul_comm,
    ← Nat.two_pow_add_eq_or_of_lt (Nat.mod_lt _ (by decide))]
  omega

theorem length_typesBytes (sub : SubChunk) : sub.typesBytes.length = 8192 := by
  unfold SubChunk.typesBytes
  generalize hpair : (fun i => [(sub.types i).toUInt8, (sub.types i >>> 8).toUInt8]) = pair
  rw [@Slice.length_flatMap _ _ pair 2 _ (by rw [← hpair]; exact fun _ _ => rfl),
    List.length_finRange]

theorem slice_typesBytes (sub : SubChunk) (j : Fin 4096)
    : Slice.slice sub.typesBytes (j * 2) 2
        =
      [(sub.types j).toUInt8, (sub.types j >>> 8).toUInt8] := by
  have hj : (List.finRange 4096)[j.val]? = some j := by
    rw [List.getElem?_eq_getElem (by simp), List.getElem_finRange, Fin.cast_mk]
  unfold SubChunk.typesBytes
  generalize hpair : (fun i => [(sub.types i).toUInt8, (sub.types i >>> 8).toUInt8]) = pair
  rw [Slice.slice_flatMap (by rw [← hpair]; exact fun _ _ => rfl) hj, ← hpair]

theorem getD_typesBytes (sub : SubChunk) (j : Fin 4096)
    : sub.typesBytes.getD (j * 2) 0 = (sub.types j).toUInt8
        ∧ sub.typesBytes.getD (j * 2 + 1) 0 = (sub.types j >>> 8).toUInt8 := by
  have hget (i : Nat) (hi : i < 2) := @Slice.getD_slice _ sub.typesBytes (j * 2) 2 i hi 0
  rw [slice_typesBytes] at hget
  exact ⟨(hget 0 (by decide)).symm, (hget 1 (by decide)).symm⟩

theorem body_append (fs gs : List Field)
    : Packet.body (fs ++ gs) = Packet.body fs ++ Packet.body gs :=
  List.flatMap_append

theorem body_subFields (array : SubChunk → Bytes)
    : Packet.body (subFields mask ch array)
        =
      (selected mask).flatMap (fun i => array (ch.getSub i)) := by
  unfold Packet.body subFields
  rw [List.flatMap_map]
  rfl

variable {array : SubChunk → Bytes} {len : Nat}

theorem length_body_subFields (h : ∀ sub, (array sub).length = len)
    : (Packet.body (subFields mask ch array)).length = (selected mask).length * len := by
  rw [body_subFields]
  exact Slice.length_flatMap (fun _ _ => h _)

theorem slice_body_subFields (h : ∀ sub, (array sub).length = len) {i : Fin 16}
    (hi : selects mask i = true) (rest : Bytes)
    : Slice.slice (Packet.body (subFields mask ch array) ++ rest) ((selected mask).idxOf i * len) len
        =
      array (ch.getSub i) := by
  have hmem : i ∈ selected mask := by
    unfold selected
    rw [List.mem_filter]
    exact ⟨List.mem_finRange i, hi⟩
  have hlt := List.idxOf_lt_length_of_mem hmem
  have hle : (selected mask).idxOf i * len + len ≤ (selected mask).length * len := by
    rw [← Nat.succ_mul]
    exact Nat.mul_le_mul_right _ hlt
  rw [Slice.slice_append_left (by rw [length_body_subFields h]; exact hle), body_subFields]
  apply Slice.slice_flatMap (fun _ _ => h _)
  rw [List.getElem?_eq_getElem hlt, List.getElem_idxOf]

theorem body_dataFields
    : Packet.body (dataFields cont mask ch)
        =
      Packet.body (subFields mask ch SubChunk.typesBytes)
        ++ (Packet.body (subFields mask ch (fun sub => List.ofFn sub.bl))
          ++ (Packet.body (subFields mask ch (fun sub => List.ofFn sub.sl))
            ++ Packet.body (biomeFields cont ch))) := by
  unfold dataFields
  rw [body_append, body_append, body_append, List.append_assoc, List.append_assoc]

theorem getD_ofFn {n : Nat} (f : Fin n → UInt8) (j : Fin n) : (List.ofFn f).getD j 0 = f j := by
  rw [List.getD_eq_getElem?_getD, List.getElem?_ofFn, dif_pos j.isLt, Option.getD_some]

theorem length_types : (Packet.body (subFields mask ch SubChunk.typesBytes)).length
    = (selected mask).length * 8192 :=
  length_body_subFields length_typesBytes

theorem length_light (light : SubChunk → Fin 2048 → UInt8)
    : (Packet.body (subFields mask ch (fun sub => List.ofFn (light sub)))).length
        =
      (selected mask).length * 2048 :=
  length_body_subFields (fun _ => List.length_ofFn)

theorem slice_light (light : SubChunk → Fin 2048 → UInt8) {i : Fin 16}
    (hi : selects mask i = true) (rest : Bytes)
    : Slice.slice (Packet.body (subFields mask ch (fun sub => List.ofFn (light sub))) ++ rest)
          ((selected mask).idxOf i * 2048) 2048
        =
      List.ofFn (light (ch.getSub i)) :=
  @slice_body_subFields mask ch (fun sub => List.ofFn (light sub)) 2048 (fun _ => List.length_ofFn) i
    hi rest

theorem sliceSub_spec {i : Fin 16} (hi : selects mask i = true)
    : sliceSub (Packet.body (dataFields cont mask ch)) (selected mask).length
          ((selected mask).idxOf i)
        =
      ch.getSub i := by
  have hsl (pos : Nat) :
      Slice.slice (Packet.body (dataFields cont mask ch))
          ((selected mask).length * 8192 + ((selected mask).length * 2048 + pos)) 2048
        = Slice.slice (Packet.body (subFields mask ch (fun sub => List.ofFn sub.sl))
            ++ Packet.body (biomeFields cont ch)) pos 2048 := by
    rw [body_dataFields, ← length_types, Slice.slice_append_add, ← length_light (·.bl),
      Slice.slice_append_add]
  have hbl (pos : Nat) :
      Slice.slice (Packet.body (dataFields cont mask ch)) ((selected mask).length * 8192 + pos) 2048
        = Slice.slice (Packet.body (subFields mask ch (fun sub => List.ofFn sub.bl))
            ++ (Packet.body (subFields mask ch (fun sub => List.ofFn sub.sl))
              ++ Packet.body (biomeFields cont ch))) pos 2048 := by
    rw [body_dataFields, ← length_types, Slice.slice_append_add]
  unfold sliceSub
  rw [hsl, hbl, slice_light (·.bl) hi, slice_light (·.sl) hi, body_dataFields,
    slice_body_subFields length_typesBytes hi]
  have htypes : (fun j : Fin 4096 => ((ch.getSub i).typesBytes.getD (j * 2) 0).toUInt16
      ||| ((ch.getSub i).typesBytes.getD (j * 2 + 1) 0).toUInt16 <<< 8) = (ch.getSub i).types := by
    funext j
    obtain ⟨hlo, hhi⟩ := getD_typesBytes (ch.getSub i) j
    rw [hlo, hhi, toUInt16_or_shiftLeft]
  dsimp only
  rw [htypes, funext (getD_ofFn _), funext (getD_ofFn _)]

theorem sliceSubs_spec (hmask : Present ch mask)
    : sliceSubs mask (Packet.body (dataFields cont mask ch))
        =
      fun i => if selects mask i then ch.subs i else none := by
  funext i
  unfold sliceSubs
  split
  . next hi =>
    obtain ⟨sub, hsub⟩ := Option.isSome_iff_exists.mp (hmask i hi)
    rw [sliceSub_spec hi, hsub]
    unfold Chunk.getSub
    rw [hsub]
    rfl
  . rfl

theorem sliceBiomes_spec
    : sliceBiomes cont mask (Packet.body (dataFields cont mask ch))
        =
      if cont then some ch.biomes else none := by
  unfold sliceBiomes
  cases cont with
  | false => rfl
  | true =>
    have hpos : (selected mask).length * 12288
        = (selected mask).length * 8192
          + ((selected mask).length * 2048 + ((selected mask).length * 2048 + 0)) := by omega
    have hbiomes : Packet.body (biomeFields true ch) = List.ofFn ch.biomes := List.append_nil _
    have hslice : Slice.slice (Packet.body (dataFields true mask ch))
        ((selected mask).length * 12288) 256 = List.ofFn ch.biomes := by
      rw [hpos, body_dataFields, ← length_types, Slice.slice_append_add,
        ← length_light (·.bl), Slice.slice_append_add, length_light, ← length_light (·.sl),
        Slice.slice_append_add, hbiomes]
      unfold Slice.slice
      rw [List.drop_zero, List.take_of_length_le (Nat.le_of_eq List.length_ofFn)]
    rw [if_pos rfl, if_pos rfl, hslice]
    dsimp only
    rw [funext (getD_ofFn ch.biomes)]

theorem length_biomes
    : (Packet.body (biomeFields cont ch)).length = if cont then 256 else 0 := by
  cases cont with
  | false => rfl
  | true =>
    show (List.ofFn ch.biomes ++ []).length = 256
    rw [List.append_nil, List.length_ofFn]

theorem dataSize_eq
    : dataSize cont mask = ((Packet.body (dataFields cont mask ch)).length : Int) := by
  have hfold (ps : List (Fin 16)) (size : Int)
      : ps.foldl (fun size i => if selects mask i then size + 12288 else size) size
          = size + 12288 * (ps.filter (selects mask)).length := by
    induction ps generalizing size with
    | nil => simp
    | cons i ps ih =>
      rw [List.foldl_cons, ih]
      split
      . next hi =>
        rw [List.filter_cons_of_pos hi, List.length_cons]
        omega
      . next hi => rw [List.filter_cons_of_neg hi]
  unfold dataSize
  rw [hfold, body_dataFields, List.length_append, List.length_append, List.length_append,
    length_types, length_light, length_light, length_biomes]
  unfold selected
  split
  . omega
  . omega

theorem length_dataFields_le : (Packet.body (dataFields cont mask ch)).length ≤ 196864 := by
  have hsize := @dataSize_eq mask ch cont
  have hle : (selected mask).length ≤ 16 := by
    have := List.length_filter_le (selects mask) (List.finRange 16)
    rwa [List.length_finRange] at this
  have hbiomes : (Packet.body (biomeFields cont ch)).length ≤ 256 := by
    rw [length_biomes]
    split
    . omega
    . omega
  rw [body_dataFields, List.length_append, List.length_append, List.length_append, length_types,
    length_light, length_light]
  omega

theorem length_varint_le (val : Int) : (Field.varint val).encode.length ≤ 5 := by
  show (Bin.writeVarint (Bin.unsigned32 val)).length ≤ 5
  rw [Bin.writeVarint_eq_encode]
  apply Leb128.length_encode_le (by omega)
  have := Bin.unsigned32_lt val
  omega

theorem length_headFields_le (cx cz : Int) : (Packet.body (headFields cx cz cont mask)).length ≤ 21 := by
  have hopcode := length_varint_le 0x21
  have hsize := length_varint_le (dataSize cont mask)
  unfold headFields
  simp only [Packet.body_cons, List.length_append]
  simp only [Packet.body, Field.encode, List.flatMap_nil, List.length_nil, List.length_cons,
    Bin.length_writeIntBe, Bin.length_writeShortBe] at hopcode hsize ⊢
  omega

theorem valid_headFields (cx cz : Int) {field : Field} (h : field ∈ headFields cx cz cont mask)
    : field.Valid := by
  have hsize := @dataSize_eq mask (.new 0 0) cont
  have hle := @length_dataFields_le mask (.new 0 0) cont
  simp only [headFields, List.mem_cons, List.not_mem_nil, or_false] at h
  rcases h with rfl | rfl | rfl | rfl | rfl | rfl
  . simp [Field.Valid]
  . trivial
  . trivial
  . trivial
  . trivial
  . unfold Field.Valid
    dsimp only
    omega

theorem valid_dataFields {field : Field} (h : field ∈ dataFields cont mask ch) : field.Valid := by
  have hsub {array : SubChunk → Bytes} (h : field ∈ subFields mask ch array) : field.Valid := by
    obtain ⟨i, _, hi⟩ := List.mem_map.mp h
    rw [← hi]
    trivial
  unfold dataFields at h
  rw [List.mem_append, List.mem_append, List.mem_append] at h
  rcases h with ((h | h) | h) | h
  . exact hsub h
  . exact hsub h
  . exact hsub h
  . unfold biomeFields at h
    split at h
    . rw [List.mem_singleton] at h
      rw [h]
      trivial
    . cases h

end Layout

section Decode

/--
The packet of a chunk declares the size of what follows its header, and slicing that by the layout
gives the selected sub-chunks and the biomes.
-/
theorem makeChunkData_spec (cx cz : Int) (cont : Bool) (ch : Chunk)
    : (∀ i, selects ch.mask i = (ch.subs i).isSome)
        ∧ ∀ mask, Present ch mask → ∃ pack len pos,
          makeChunkData cx cz cont mask ch = .ok pack
            ∧ readFields [.varint, .varint, .int, .int, .bool, .short, .varint] (.ofPacket pack.data [])
              = some (
                [
                  .varint len,
                  .varint 0x21,
                  .int (UInt32.ofNat (Bin.unsigned32 cx)),
                  .int (UInt32.ofNat (Bin.unsigned32 cz)),
                  .bool cont,
                  .short mask,
                  .varint (pack.data.drop pos).length
                ],
                { arr := pack.data, len := pack.data.length, pos := some pos })
            ∧ sliceSubs mask (pack.data.drop pos)
              = (fun i => if selects mask i then ch.subs i else none)
            ∧ sliceBiomes cont mask (pack.data.drop pos)
              = (if cont then some ch.biomes else none) := by
  refine ⟨selects_mask ch, fun mask hmask => ?_⟩
  have hhead := @length_headFields_le mask cont cx cz
  have hdata := @length_dataFields_le mask ch cont
  have hvalid : ∀ field ∈ headFields cx cz cont mask ++ dataFields cont mask ch, field.Valid := by
    intro field hfield
    cases List.mem_append.mp hfield with
    | inl hfield => exact valid_headFields cx cz hfield
    | inr hfield => exact valid_dataFields hfield
  have hbody := body_append (headFields cx cz cont mask) (dataFields cont mask ch)
  have hlen := congrArg List.length hbody
  rw [List.length_append] at hlen
  obtain ⟨pack, hbuild, hpack⟩ := Packet.build_spec hvalid (by omega)
  generalize (Packet.body (headFields cx cz cont mask ++ dataFields cont mask ch)).length = len
    at hlen hpack
  have hfields : pack.data
      = Packet.body (.varint len :: headFields cx cz cont mask)
        ++ Packet.body (dataFields cont mask ch) := by
    have hnat : Bin.unsigned32 (len : Int) = len := by
      unfold Bin.unsigned32
      omega
    rw [hpack, hbody, Packet.body_cons, List.append_assoc, Field.encode, hnat]
  have hlenvalid : (Field.varint len).Valid := by
    unfold Field.Valid
    dsimp only
    omega
  have hdrop : pack.data.drop (Packet.body (.varint len :: headFields cx cz cont mask)).length
      = Packet.body (dataFields cont mask ch) := by
    rw [hfields, List.drop_left]
  refine ⟨pack, len, (Packet.body (.varint len :: headFields cx cz cont mask)).length, ?_, ?_, ?_, ?_⟩
  . rw [makeChunkData_eq hmask, hbuild]
  . have hahead := PacketReader.ahead_ofPacket pack.data []
    rw [List.append_nil, hfields] at hahead
    have hshort : (Packet.body (.varint len :: headFields cx cz cont mask)).length < 2 ^ 31 := by
      have := length_varint_le len
      rw [Packet.body_cons, List.length_append]
      omega
    have hvalid : ∀ field ∈ .varint len :: headFields cx cz cont mask, field.Valid := by
      intro field hfield
      cases hfield with
      | head => exact hlenvalid
      | tail _ hfield => exact valid_headFields cx cz hfield
    have hread := readFields_body hahead hvalid hshort
    rw [hdrop, ← dataSize_eq]
    rw [hfields]
    refine hread.trans ?_
    simp only [PacketReader.skip, PacketReader.ofPacket, List.append_nil, Option.map_some,
      Nat.zero_add, headFields]
  . rw [hdrop, sliceSubs_spec hmask]
  . rw [hdrop, sliceBiomes_spec]

end Decode

end Mc18PacketBuilder

end HCraft
