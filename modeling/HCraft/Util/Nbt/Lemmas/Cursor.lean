import HCraft.Util.Nbt.Impl

/-!
This module contains what the readers of numbers, arrays and strings do behind a given number of
bytes.
-/

namespace HCraft

namespace NbtReader

open Bin

variable {α : Type}

def cur (data : Bytes) : NbtCursor :=
  ⟨data, data.length⟩

theorem advance_cur {bs : Bytes} {n : Int} (h : n = bs.length) (rest : Bytes)
    : advance (cur (bs ++ rest)) n = .ok (cur rest) := by
  subst h
  unfold advance cur
  rw [if_neg (by omega)]
  dsimp only
  rw [if_neg (by rw [List.length_append]; omega)]
  rw [Int.toNat_natCast, List.drop_left, List.length_append]
  congr 2
  omega

theorem readFixed_of_lt {n : Nat} {data : Bytes} (h : data.length < n) (read : Bytes → Option α)
    : readFixed n read (cur data) = .error unexpectedEof := by
  unfold readFixed cur
  rw [if_pos (by dsimp only; omega)]

theorem readFixed_append {n : Nat} {bs rest : Bytes} {read : Bytes → Option α} {v : α}
    (hlen : bs.length = n) (h : read (bs ++ rest) = some v)
    : readFixed n read (cur (bs ++ rest)) = .ok (v, cur rest) := by
  have havail : ¬ (cur (bs ++ rest)).avail < n := by
    dsimp only [cur]
    rw [List.length_append]
    omega
  unfold readFixed
  rw [if_neg havail]
  dsimp only [cur]
  rw [h]
  dsimp only
  rw [← cur, advance_cur (by omega)]
  rfl

theorem readPayloadByte_cons (b : UInt8) (rest : Bytes)
    : readPayloadByte (cur (b :: rest)) = .ok (b, cur rest) := by
  unfold readPayloadByte
  rw [if_neg (by simp [cur]; omega)]
  dsimp only [cur, List.head?_cons]
  have := @advance_cur [b] 1 rfl rest
  dsimp only [cur, List.cons_append, List.nil_append] at this
  rw [this]
  rfl

/--
The bytes from here on begin with `n` bytes, or there are too few.
-/
theorem exists_append_of_le {n : Nat} {data : Bytes} (h : n ≤ data.length)
    : ∃ bs rest, data = bs ++ rest ∧ bs.length = n :=
  ⟨data.take n, data.drop n, (List.take_append_drop n data).symm, by
    rw [List.length_take]
    omega⟩

theorem readFixed_int {len : Bytes} {n : Int} (h : len.length = 4)
    (hn : int32 (BigEndian.decode len) = n) (data : Bytes)
    : readFixed 4 readIntBe (cur (len ++ data)) = .ok (n, cur data) := by
  apply readFixed_append h
  rw [readIntBe_append h, hn]

theorem readFixed_short {len : Bytes} {n : Nat} (h : len.length = 2)
    (hn : BigEndian.decode len = n) (data : Bytes)
    : readFixed 2 readShortBe (cur (len ++ data)) = .ok (n, cur data) := by
  apply readFixed_append h
  rw [readShortBe_append h, hn]

section ByteArray

variable {len : Bytes} {n : Int}

theorem readPayloadByteArray_of_lt (h : len.length = 4) (hn : int32 (BigEndian.decode len) = n)
    {data : Bytes} (hlt : data.length < n)
    : readPayloadByteArray (cur (len ++ data)) = .error unexpectedEof := by
  unfold readPayloadByteArray
  rw [readFixed_int h hn]
  apply if_pos
  exact hlt

theorem readPayloadByteArray_of_neg (h : len.length = 4) (hn : int32 (BigEndian.decode len) = n)
    (data : Bytes) (hneg : n < 0)
    : readPayloadByteArray (cur (len ++ data)) = .error (.fault .wrappedSize) := by
  unfold readPayloadByteArray
  rw [readFixed_int h hn]
  dsimp only [bind, Except.bind, cur]
  rw [if_neg (by omega), if_pos hneg]

theorem readPayloadByteArray_append {data : Bytes} (h : len.length = 4)
    (hn : int32 (BigEndian.decode len) = data.length) (rest : Bytes)
    : readPayloadByteArray (cur (len ++ (data ++ rest))) = .ok (data, cur rest) := by
  unfold readPayloadByteArray
  have hle : data.length ≤ (data ++ rest).length := by
    rw [List.length_append]
    omega
  rw [readFixed_int h hn]
  dsimp only [bind, Except.bind]
  rw [if_neg (by dsimp only [cur]; omega), if_neg (by omega), if_neg (by dsimp only [cur]; omega)]
  rw [advance_cur rfl]
  dsimp only [cur]
  rw [Int.toNat_natCast, List.take_left]

end ByteArray

section String

variable {len : Bytes} {n : Nat}

theorem readPayloadString_of_lt (h : len.length = 2) (hn : BigEndian.decode len = n)
    {data : Bytes} (hlt : data.length < n)
    : readPayloadString (cur (len ++ data)) = .error unexpectedEof := by
  unfold readPayloadString
  rw [readFixed_short h hn]
  apply if_pos
  dsimp only [cur]
  omega

theorem readPayloadString_append {data : Bytes} (h : len.length = 2)
    (hn : BigEndian.decode len = data.length) (rest : Bytes)
    : readPayloadString (cur (len ++ (data ++ rest))) = .ok (cstr data, cur rest) := by
  unfold readPayloadString
  have hle : data.length ≤ (data ++ rest).length := by
    rw [List.length_append]
    omega
  rw [readFixed_short h hn]
  dsimp only [bind, Except.bind]
  rw [if_neg (by dsimp only [cur]; omega), if_neg (by dsimp only [cur]; omega)]
  rw [advance_cur rfl]
  dsimp only [cur]
  rw [List.take_left]

end String

section IntArray

theorem length_of_readIntBe {data : Bytes} {v : Int} (h : readIntBe data = some v)
    : 4 ≤ data.length := by
  match data, h with
  | _ :: _ :: _ :: _ :: _, _ => simp

theorem readInts_of_lt {n : Nat} {data : Bytes} (h : data.length < 4 * n)
    : readInts n data = none := by
  induction n generalizing data with
  | zero => omega
  | succ n ih =>
    unfold readInts
    split
    . rfl
    . next v hv =>
      have hfour := length_of_readIntBe hv
      rw [ih, Option.map_none]
      rw [List.length_drop]
      omega

theorem exists_readInts {n : Nat} {data : Bytes} (h : data.length = 4 * n) (rest : Bytes)
    : ∃ vals, readInts n (data ++ rest) = some vals := by
  induction n generalizing data with
  | zero => exact ⟨[], rfl⟩
  | succ n ih =>
    obtain ⟨bs, data', hdata, hbs⟩ := @exists_append_of_le 4 data (by omega)
    subst hdata
    rw [List.length_append] at h
    obtain ⟨vals, hvals⟩ := @ih data' (by omega)
    unfold readInts
    rw [List.append_assoc, readIntBe_append hbs]
    generalize int32 (BigEndian.decode bs) = v
    dsimp only
    rw [List.drop_left' hbs, hvals]
    exact ⟨_, rfl⟩

variable {len : Bytes} {n : Int}

theorem readPayloadIntArray_of_lt (h : len.length = 4) (hn : int32 (BigEndian.decode len) = n)
    {data : Bytes} (hlt : data.length < wrap32 (n * 4))
    : readPayloadIntArray (cur (len ++ data)) = .error unexpectedEof := by
  unfold readPayloadIntArray
  rw [readFixed_int h hn]
  dsimp only [bind, Except.bind]
  generalize wrap32 (n * 4) = m at hlt ⊢
  apply if_pos
  exact hlt

theorem readPayloadIntArray_of_neg (h : len.length = 4) (hn : int32 (BigEndian.decode len) = n)
    {data : Bytes} (hle : wrap32 (n * 4) ≤ data.length) (hneg : n < 0)
    : readPayloadIntArray (cur (len ++ data)) = .error (.fault .wrappedSize) := by
  unfold readPayloadIntArray
  rw [readFixed_int h hn]
  dsimp only [bind, Except.bind]
  generalize wrap32 (n * 4) = m at hle ⊢
  rw [if_neg (by dsimp only [cur]; omega), if_pos hneg]

/--
The number of ints is known to be there only where `len * 4` does not wrap around.
-/
theorem readPayloadIntArray_of_wrapped (h : len.length = 4)
    (hn : int32 (BigEndian.decode len) = n) {data : Bytes} (hle : wrap32 (n * 4) ≤ data.length)
    (hneg : 0 ≤ n) (hlt : data.length < 4 * n)
    : readPayloadIntArray (cur (len ++ data)) = .error (.fault .readOutside) := by
  unfold readPayloadIntArray
  rw [readFixed_int h hn]
  dsimp only [bind, Except.bind]
  generalize wrap32 (n * 4) = m at hle ⊢
  rw [if_neg (by dsimp only [cur]; omega), if_neg (by omega),
    readInts_of_lt (by dsimp only [cur]; omega)]

theorem readPayloadIntArray_append {data : Bytes} {vals : List UInt32} (h : len.length = 4)
    (hn : int32 (BigEndian.decode len) = n) (hwrap : wrap32 (n * 4) = data.length)
    (hlen : n * 4 = data.length) {rest : Bytes}
    (hvals : readInts n.toNat (data ++ rest) = some vals)
    : readPayloadIntArray (cur (len ++ (data ++ rest))) = .ok (vals, cur rest) := by
  unfold readPayloadIntArray
  have hle : data.length ≤ (data ++ rest).length := by
    rw [List.length_append]
    omega
  rw [readFixed_int h hn]
  dsimp only [bind, Except.bind]
  rw [hwrap, if_neg (by dsimp only [cur]; omega), if_neg (by omega)]
  have hcur : (cur (data ++ rest)).data = data ++ rest := rfl
  rw [hcur, hvals]
  dsimp only
  rw [advance_cur rfl]

end IntArray

section Name

variable {len : Bytes} {n : Nat}

theorem readName_of_neg (h : len.length = 2) (hn : BigEndian.decode len = n) (data : Bytes)
    (hneg : 2 ^ 15 ≤ n) (hlt : n < 2 ^ 16)
    : readName (cur (len ++ data)) = .error (.fault .wrappedSize) := by
  unfold readName
  rw [readFixed_short h hn]
  dsimp only [bind, Except.bind, cur]
  rw [if_neg (show ¬ n < 2 ^ 15 by omega)]
  split
  . rfl
  . rw [if_neg (by omega), if_pos (by omega)]

theorem readName_of_lt (h : len.length = 2) (hn : BigEndian.decode len = n) {data : Bytes}
    (hpos : n < 2 ^ 15) (hlt : data.length < n)
    : readName (cur (len ++ data)) = .error unexpectedEof := by
  unfold readName
  rw [readFixed_short h hn]
  dsimp only [bind, Except.bind, cur]
  rw [if_pos hpos, if_neg (by omega), if_pos (by omega)]

theorem readName_append {name : Bytes} (h : len.length = 2)
    (hn : BigEndian.decode len = name.length) (hpos : name.length < 2 ^ 15) (rest : Bytes)
    : readName (cur (len ++ (name ++ rest))) = .ok (cstr name, cur rest) := by
  unfold readName
  have hle : name.length ≤ (name ++ rest).length := by
    rw [List.length_append]
    omega
  rw [readFixed_short h hn]
  dsimp only [bind, Except.bind]
  rw [if_pos hpos, if_neg (by omega), if_neg (by dsimp only [cur]; omega), if_neg (by omega),
    if_neg (by dsimp only [cur]; omega)]
  rw [advance_cur rfl]
  dsimp only [cur]
  rw [Int.toNat_natCast, List.take_left]

end Name

end NbtReader

end HCraft
