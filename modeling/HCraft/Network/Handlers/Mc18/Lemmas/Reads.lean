import HCraft.Network.Handlers.Mc18.Reads

/-!
This module contains when the packet handler reads nothing but the packet, and refuses a packet that is
too short.
-/

namespace HCraft

namespace Bin

section Append

theorem readVarint.go_append {arr : Bytes} {fuel i n : Nat} {res : Int × Option Nat}
    (h : go fuel arr i n = some res) (rest : Bytes) : go fuel (arr ++ rest) i n = some res := by
  induction fuel generalizing arr i n with
  | zero => exact h
  | succ fuel ih =>
    cases arr with
    | nil => cases h
    | cons b arr =>
      rw [List.cons_append]
      unfold go at h ⊢
      dsimp only at h ⊢
      split at h
      . next hlast =>
        rw [if_pos hlast]
        exact h
      . next hmore =>
        rw [if_neg hmore]
        exact ih h

/--
What the bytes that are there decide does not depend on what lies behind them.
-/
theorem readVarint_append {arr : Bytes} {res : Int × Option Nat} (h : readVarint arr = some res)
    (rest : Bytes) : readVarint (arr ++ rest) = some res :=
  readVarint.go_append h rest

theorem readVarint.le_of_go {arr : Bytes} {fuel i n vl : Nat} {v : Int}
    (h : go fuel arr i n = some (v, some vl)) : vl ≤ i + arr.length := by
  induction fuel generalizing arr i n with
  | zero => simp [go] at h
  | succ fuel ih =>
    cases arr with
    | nil => cases h
    | cons b arr =>
      unfold go at h
      dsimp only at h
      rw [List.length_cons]
      split at h
      . injection h with h
        injection h with _ h
        injection h with h
        omega
      . have := ih h
        omega

theorem le_of_readVarint {arr : Bytes} {vl : Nat} {v : Int} (h : readVarint arr = some (v, some vl))
    : vl ≤ arr.length := by
  have := readVarint.le_of_go h
  omega

theorem readMcString.go_append {arr : Bytes} {n room : Nat} {out : Option Bytes}
    (h : go arr n room = some out) (rest : Bytes) : go (arr ++ rest) n room = some out := by
  induction arr generalizing n room out with
  | nil =>
    cases n with
    | zero =>
      rw [← h]
      cases rest <;> rfl
    | succ n => cases h
  | cons f arr ih =>
    cases n with
    | zero =>
      rw [← h]
      rfl
    | succ n =>
      rw [List.cons_append]
      unfold go at h ⊢
      dsimp only at h ⊢
      split at h
      . next hbad =>
        rw [if_pos hbad]
        exact h
      . next hgood =>
        rw [if_neg hgood]
        cases room with
        | zero => exact h
        | succ room =>
          dsimp only at h ⊢
          obtain ⟨out', hout, hmap⟩ := Option.map_eq_some_iff.mp h
          rw [ih hout, Option.map_some, hmap]

theorem readMcString_append {arr : Bytes} {outLen : Nat} {res : Option Bytes × Int}
    (h : readMcString arr outLen = some res) (rest : Bytes)
    : readMcString (arr ++ rest) outLen = some res := by
  unfold readMcString at h ⊢
  simp only [Option.bind_eq_bind, Option.bind_eq_some_iff] at h ⊢
  obtain ⟨⟨len, vl⟩, hlen, out, hout, hres⟩ := h
  refine ⟨(len, vl), readVarint_append hlen rest, out, ?_, hres⟩
  have hle : vl.getD 0 ≤ arr.length := by
    cases vl with
    | none => exact Nat.zero_le _
    | some vl => exact le_of_readVarint hlen
  rw [List.drop_append_of_le_length hle]
  exact readMcString.go_append hout rest

theorem bounds_readMcString {arr : Bytes} {outLen : Nat} {out : Option Bytes} {vl : Int}
    (h : readMcString arr outLen = some (out, vl)) : -2 ^ 31 ≤ vl ∧ vl < 2 ^ 31 := by
  unfold readMcString at h
  simp only [Option.bind_eq_bind, Option.bind_eq_some_iff] at h
  obtain ⟨_, _, _, _, hres⟩ := h
  injection hres with hres
  injection hres with _ hvl
  rw [← hvl]
  exact ⟨le_wrap32 _, wrap32_lt _⟩

end Append

end Bin

namespace PacketReader

/--
The same cursor where the memory ends with the packet.
-/
def cut (reader : PacketReader) : PacketReader :=
  { reader with arr := reader.arr.take reader.len }

end PacketReader

namespace Reads

/--
Every call gets along with the bytes of the packet, and moves the cursor forward, or not at all, but not
past the end of the packet.
-/
def Inside (reader : PacketReader) : Reads → Prop
  | .done => True
  | .refused => True
  | .wild => False
  | .call c next =>
    c.run reader.cut ≠ none
      ∧ ∃ v pos pos', reader.pos = some pos
        ∧ c.run reader = some (v, { reader with pos := some pos' })
        ∧ pos ≤ pos' ∧ pos' ≤ reader.len
        ∧ Inside { reader with pos := some pos' } (next v)

/--
The function ends with the packet given up.
-/
def Refuses (reader : PacketReader) : Reads → Prop
  | .done => False
  | .refused => True
  | .wild => False
  | .call c next => ∃ v reader', c.run reader = some (v, reader') ∧ Refuses reader' (next v)

end Reads

namespace ReaderCall

/--
A field at the front of `bs`, if all of it is there, and what follows it. Nothing is taken off for a
string that is not accepted.
-/
def field {α : Type} (call : ReaderCall α) (bs : Bytes) : Option (α × Bytes) :=
  match call with
  | .readBool => bs.head?.map (fun b => (b != 0, bs.drop 1))
  | .readByte => bs.head?.map (·, bs.drop 1)
  | .readShort => (Bin.readShortBe bs).map (fun v => (UInt16.ofNat v, bs.drop 2))
  | .readLong => (Bin.readLongBe bs).map (fun v => (UInt64.ofNat v, bs.drop 8))
  | .readFloat =>
    (Bin.readIntBe bs).map (fun v => (UInt32.ofNat (Bin.unsigned32 v), bs.drop 4))
  | .readDouble => (Bin.readLongBe bs).map (fun v => (UInt64.ofNat v, bs.drop 8))
  | .readVarint =>
    match Bin.readVarint bs with
    | some (v, some vl) => some (v, bs.drop vl)
    | _ => none
  | .readString len =>
    match Bin.readMcString bs len with
    | none => none
    | some (none, _) => some (none, bs)
    | some (some out, vl) =>
      if 0 ≤ vl ∧ vl ≤ bs.length then
        some (some (out.takeWhile (· ≠ 0)), bs.drop vl.toNat)
      else
        none
  | .readBytes len => if len ≤ bs.length then some (bs.take len, bs.drop len) else none

/--
A field at the front of `bs` as it was announced: a string that is not accepted takes up its bytes, too.
-/
def announced {α : Type} (call : ReaderCall α) (bs : Bytes) : Option (α × Bytes) :=
  match call with
  | .readString len =>
    match Bin.readMcString bs len with
    | none => none
    | some (out, vl) =>
      if 0 ≤ vl ∧ vl ≤ bs.length then
        some (out.map (·.takeWhile (· ≠ 0)), bs.drop vl.toNat)
      else
        none
  | call => call.field bs

/--
A string is there.
-/
def Accepts {α : Type} (call : ReaderCall α) (v : α) : Prop :=
  match call with
  | .readString _ => v ≠ none
  | _ => True

end ReaderCall

namespace Reads

/--
The fields that are read are all there, and the opcode has a function.
-/
def Complete (bs : Bytes) : Reads → Prop
  | .done => True
  | .refused => True
  | .wild => False
  | .call c next => ∃ v rest, c.field bs = some (v, rest) ∧ Complete rest (next v)

/--
The packet is as long as its fields, each of them behind the one before.
-/
def LongEnough (bs : Bytes) : Reads → Prop
  | .done => True
  | .refused => True
  | .wild => False
  | .call c next => ∃ v rest, c.announced bs = some (v, rest) ∧ LongEnough rest (next v)

/--
The fields that are read lead to the end of the packet being given up.
-/
def Refused (bs : Bytes) : Reads → Prop
  | .done => False
  | .refused => True
  | .wild => False
  | .call c next => ∃ v rest, c.field bs = some (v, rest) ∧ Refused rest (next v)

/--
A string that is not accepted has the packet given up.
-/
def Strict : Reads → Prop
  | .done => True
  | .refused => True
  | .wild => True
  | .call c next => ∀ v, (¬ c.Accepts v → next v = .refused) ∧ Strict (next v)

/--
The packet is read within its bounds, and given up if it is too short for its fields.
-/
def Right (packet beyond : Bytes) (reads : Reads) : Prop :=
  reads.Inside (.ofPacket packet beyond)
    ∧ (¬ reads.LongEnough packet → reads.Refuses (.ofPacket packet beyond))

end Reads

namespace ReaderCall

variable {α : Type} {packet beyond : Bytes} {pos : Nat}

/--
The cursor at `pos` in a packet.
-/
def cursor (packet beyond : Bytes) (pos : Nat) : PacketReader :=
  { arr := packet ++ beyond, len := packet.length, pos := some pos }

theorem cut_cursor : (cursor packet beyond pos).cut = cursor packet [] pos := by
  unfold PacketReader.cut cursor
  dsimp only
  rw [List.take_left, List.append_nil]

theorem drop_append (hpos : pos ≤ packet.length)
    : (packet ++ beyond).drop pos = packet.drop pos ++ beyond :=
  List.drop_append_of_le_length hpos

/--
`call` takes `v` off the front of the packet that is left, and leaves the cursor at `pos'`.
-/
def Takes (call : ReaderCall α) (packet beyond : Bytes) (pos : Nat) (v : α) (rest : Bytes) : Prop :=
  call.run (cursor packet beyond pos).cut ≠ none
    ∧ ∃ pos', call.run (cursor packet beyond pos) = some (v, cursor packet beyond pos')
      ∧ pos ≤ pos' ∧ pos' ≤ packet.length ∧ rest = packet.drop pos'

/--
`read` looks at the first `n` bytes.
-/
structure Fixed (n : Nat) (read : Bytes → Option α) : Prop where
  le : ∀ {bs v}, read bs = some v → n ≤ bs.length
  append : ∀ {bs rest v}, read bs = some v → read (bs ++ rest) = some v

theorem Fixed.map {β : Type} {n : Nat} {read : Bytes → Option α} (h : Fixed n read) (f : α → β)
    : Fixed n (fun bs => (read bs).map f) where
  le hmap := by
    obtain ⟨v, hv, _⟩ := Option.map_eq_some_iff.mp hmap
    exact h.le hv
  append hmap := by
    obtain ⟨v, hv, heq⟩ := Option.map_eq_some_iff.mp hmap
    rw [h.append hv, Option.map_some, heq]

theorem Fixed.of_append {n : Nat} {read : Bytes → Option α} (f : Bytes → α)
    (hle : ∀ {bs v}, read bs = some v → n ≤ bs.length)
    (hread : ∀ {bs}, bs.length = n → ∀ rest, read (bs ++ rest) = some (f bs)) : Fixed n read where
  le := hle
  append {bs rest v} h := by
    have htake : (bs.take n).length = n := List.length_take_of_le (hle h)
    rw [← List.take_append_drop n bs, hread htake] at h
    rw [← List.take_append_drop n bs, List.append_assoc, hread htake, h]

theorem fixed_head? : Fixed 1 (List.head? : Bytes → Option UInt8) where
  le {bs v} h := by
    cases bs with
    | nil => cases h
    | cons b bs => simp
  append {bs rest v} h := by
    cases bs with
    | nil => cases h
    | cons b bs => exact h

theorem fixed_readShortBe : Fixed 2 Bin.readShortBe := by
  refine .of_append BigEndian.decode ?_ Bin.readShortBe_append
  intro bs v h
  unfold Bin.readShortBe at h
  split at h
  . simp
  . cases h

theorem fixed_readIntBe : Fixed 4 Bin.readIntBe := by
  refine .of_append (fun bs => Bin.int32 (BigEndian.decode bs)) ?_ Bin.readIntBe_append
  intro bs v h
  unfold Bin.readIntBe at h
  split at h
  . simp
  . cases h

theorem fixed_readLongBe : Fixed 8 Bin.readLongBe := by
  refine .of_append BigEndian.decode ?_ Bin.readLongBe_append
  intro bs v h
  unfold Bin.readLongBe at h
  split at h
  . simp
  . cases h

theorem fixed_take (n : Nat)
    : Fixed n (fun bs : Bytes => if n ≤ bs.length then some (bs.take n) else none) where
  le {bs v} h := by
    split at h
    . next hle => exact hle
    . cases h
  append {bs rest v} h := by
    split at h
    . next hle =>
      rw [if_pos (by rw [List.length_append]; omega), List.take_append_of_le_length hle]
      exact h
    . cases h

theorem field_iff_of_fixed {call : ReaderCall α} {read : Bytes → Option α} {n : Nat}
    (hfixed : Fixed n read) (hrun : ∀ reader, call.run reader = reader.readFixed n read)
    (hfield : ∀ bs, call.field bs = (read bs).map (·, bs.drop n))
    (hpos : pos ≤ packet.length) {v : α} {rest : Bytes}
    : call.field (packet.drop pos) = some (v, rest) ↔ call.Takes packet beyond pos v rest := by
  have hcut : call.run (cursor packet beyond pos).cut
      = (read (packet.drop pos)).map (·, cursor packet [] (pos + n)) := by
    rw [cut_cursor, hrun]
    unfold PacketReader.readFixed cursor
    dsimp only
    rw [List.append_nil, Option.bind_eq_bind, Option.bind_some]
    cases read (packet.drop pos) with
    | none => rfl
    | some v => rfl
  have hall {w : α} (hw : read (packet.drop pos) = some w)
      : call.run (cursor packet beyond pos) = some (w, cursor packet beyond (pos + n)) := by
    rw [hrun]
    unfold PacketReader.readFixed cursor
    simp only [Option.bind_eq_bind, Option.bind_some, drop_append hpos, hfixed.append hw]
    rfl
  unfold Takes
  rw [hfield, hcut]
  constructor
  . intro h
    obtain ⟨w, hw, heq⟩ := Option.map_eq_some_iff.mp h
    injection heq with hv hrest
    subst hv
    have hle := hfixed.le hw
    rw [List.length_drop] at hle
    refine ⟨by rw [hw]; nofun, pos + n, hall hw, by omega, by omega, ?_⟩
    rw [← hrest, List.drop_drop]
  . rintro ⟨hsome, pos', hrun', _, _, hrest⟩
    cases hw : read (packet.drop pos) with
    | none =>
      rw [hw] at hsome
      exact absurd rfl hsome
    | some w =>
      rw [hall hw] at hrun'
      injection hrun' with hrun'
      injection hrun' with hv hcursor
      injection hcursor with _ _ hpos'
      injection hpos' with hpos'
      rw [Option.map_some, hv, hrest, ← hpos', List.drop_drop]

theorem readFixed_map {β : Type} (reader : PacketReader) (n : Nat) (read : Bytes → Option α)
    (f : α → β)
    : (reader.readFixed n read).map (fun (v, reader) => (f v, reader))
        =
      reader.readFixed n (fun bs => (read bs).map f) := by
  unfold PacketReader.readFixed
  cases reader.pos with
  | none => rfl
  | some pos =>
    simp only [Option.bind_eq_bind, Option.bind_some]
    cases read (reader.arr.drop pos) with
    | none => rfl
    | some v => rfl

theorem field_iff_of_map {β : Type} {call : ReaderCall β} {read : Bytes → Option α} {n : Nat}
    (hfixed : Fixed n read) {f : α → β}
    (hrun : ∀ reader,
      call.run reader = (reader.readFixed n read).map (fun (v, reader) => (f v, reader)))
    (hfield : ∀ bs, call.field bs = (read bs).map (fun v => (f v, bs.drop n)))
    (hpos : pos ≤ packet.length) {v : β} {rest : Bytes}
    : call.field (packet.drop pos) = some (v, rest) ↔ call.Takes packet beyond pos v rest := by
  apply field_iff_of_fixed (hfixed.map f)
  . intro reader
    rw [hrun, readFixed_map]
  . intro bs
    rw [hfield, Option.map_map]
    rfl
  . exact hpos

theorem field_iff_readVarint (hpos : pos ≤ packet.length) {v : Int} {rest : Bytes}
    : readVarint.field (packet.drop pos) = some (v, rest)
        ↔
      readVarint.Takes packet beyond pos v rest := by
  have hrun (beyond : Bytes) {res : Int × Option Nat}
      (h : Bin.readVarint (packet.drop pos) = some res)
      : readVarint.run (cursor packet beyond pos)
          = some (res.1, { cursor packet beyond pos with pos := res.2.map (pos + ·) }) := by
    unfold run PacketReader.readVarint cursor
    simp only [Option.bind_eq_bind, Option.bind_some, drop_append hpos, Bin.readVarint_append h]
    rfl
  have hcut (h : Bin.readVarint (packet.drop pos) = none)
      : readVarint.run (cursor packet beyond pos).cut = none := by
    rw [cut_cursor]
    unfold run PacketReader.readVarint cursor
    simp only [Option.bind_eq_bind, Option.bind_some, List.append_nil, h, Option.bind_none]
  unfold Takes field
  dsimp only
  cases h : Bin.readVarint (packet.drop pos) with
  | none => simp [hcut h]
  | some res =>
    rcases res with ⟨w, vl⟩
    rw [cut_cursor, hrun [] h, hrun beyond h]
    cases vl with
    | none => simp [cursor]
    | some vl =>
      have hle := Bin.le_of_readVarint h
      rw [List.length_drop] at hle
      simp only [Option.map_some, Option.some.injEq, Prod.mk.injEq, ne_eq, reduceCtorEq,
        not_false_eq_true, true_and]
      constructor
      . rintro ⟨rfl, rfl⟩
        refine ⟨pos + vl, ⟨rfl, rfl⟩, by omega, by omega, List.drop_drop⟩
      . rintro ⟨pos', ⟨rfl, hcursor⟩, _, _, hrest⟩
        injection hcursor with _ _ hpos'
        injection hpos' with hpos'
        rw [hrest, ← hpos', List.drop_drop]
        exact ⟨rfl, rfl⟩

theorem field_iff_readString {len : Nat} (hlen : packet.length < 2 ^ 31)
    (hpos : pos ≤ packet.length) {v : Option Bytes} {rest : Bytes}
    : (readString len).field (packet.drop pos) = some (v, rest)
        ↔
      (readString len).Takes packet beyond pos v rest := by
  have hnone (beyond : Bytes) {vl : Int}
      (h : Bin.readMcString (packet.drop pos) len = some (none, vl))
      : (readString len).run (cursor packet beyond pos)
          = some (none, cursor packet beyond pos) := by
    unfold run PacketReader.readString cursor
    simp only [Option.bind_eq_bind, Option.bind_some, drop_append hpos, Bin.readMcString_append h]
    rfl
  have hsome (beyond : Bytes) {out : Bytes} {vl : Int}
      (h : Bin.readMcString (packet.drop pos) len = some (some out, vl))
      : (readString len).run (cursor packet beyond pos)
          = some (some (out.takeWhile (· ≠ 0)),
              { cursor packet beyond pos with pos := some (Bin.unsigned32 (pos + vl)) }) := by
    unfold run PacketReader.readString cursor
    simp only [Option.bind_eq_bind, Option.bind_some, drop_append hpos, Bin.readMcString_append h]
    rfl
  have hcut (h : Bin.readMcString (packet.drop pos) len = none)
      : (readString len).run (cursor packet beyond pos).cut = none := by
    rw [cut_cursor]
    unfold run PacketReader.readString cursor
    simp only [Option.bind_eq_bind, Option.bind_some, List.append_nil, h, Option.bind_none]
  unfold Takes field
  dsimp only
  cases h : Bin.readMcString (packet.drop pos) len with
  | none => simp [hcut h]
  | some res =>
    rcases res with ⟨out, vl⟩
    rw [cut_cursor]
    cases out with
    | none =>
      rw [hnone [] h, hnone beyond h]
      dsimp only
      simp only [Option.some.injEq, Prod.mk.injEq, ne_eq, reduceCtorEq, not_false_eq_true, true_and]
      constructor
      . rintro ⟨rfl, rfl⟩
        exact ⟨pos, ⟨rfl, rfl⟩, le_refl _, hpos, rfl⟩
      . rintro ⟨pos', ⟨rfl, hcursor⟩, _, _, hrest⟩
        injection hcursor with _ _ hpos'
        injection hpos' with hpos'
        rw [hrest, ← hpos']
        exact ⟨rfl, rfl⟩
    | some out =>
      obtain ⟨hlo, hhi⟩ := Bin.bounds_readMcString h
      rw [hsome [] h, hsome beyond h]
      rw [List.length_drop]
      dsimp only
      simp only [Option.some.injEq, Prod.mk.injEq, ne_eq, reduceCtorEq, not_false_eq_true, true_and]
      split
      . next hfits =>
        have hnext : Bin.unsigned32 (pos + vl) = pos + vl.toNat := by
          unfold Bin.unsigned32
          omega
        rw [hnext]
        simp only [Option.some.injEq, Prod.mk.injEq]
        constructor
        . rintro ⟨rfl, rfl⟩
          refine ⟨pos + vl.toNat, ⟨rfl, rfl⟩, by omega, by omega, List.drop_drop⟩
        . rintro ⟨pos', ⟨rfl, hcursor⟩, _, _, hrest⟩
          injection hcursor with _ _ hpos'
          injection hpos' with hpos'
          rw [hrest, ← hpos', List.drop_drop]
          exact ⟨rfl, rfl⟩
      . next hshort =>
        constructor
        . nofun
        . rintro ⟨pos', ⟨_, hcursor⟩, _, _, _⟩
          injection hcursor with _ _ hpos'
          injection hpos' with hpos'
          unfold Bin.unsigned32 at hpos'
          omega

/--
A field is there if and only if the call that reads it gets along with the packet.
-/
theorem field_iff (call : ReaderCall α) (hlen : packet.length < 2 ^ 31) (hpos : pos ≤ packet.length)
    {v : α} {rest : Bytes}
    : call.field (packet.drop pos) = some (v, rest) ↔ call.Takes packet beyond pos v rest := by
  cases call with
  | readBool => exact field_iff_of_map fixed_head? (fun _ => rfl) (fun _ => rfl) hpos
  | readByte => exact field_iff_of_fixed fixed_head? (fun _ => rfl) (fun _ => rfl) hpos
  | readShort => exact field_iff_of_map fixed_readShortBe (fun _ => rfl) (fun _ => rfl) hpos
  | readLong => exact field_iff_of_map fixed_readLongBe (fun _ => rfl) (fun _ => rfl) hpos
  | readFloat => exact field_iff_of_map fixed_readIntBe (fun _ => rfl) (fun _ => rfl) hpos
  | readDouble => exact field_iff_of_map fixed_readLongBe (fun _ => rfl) (fun _ => rfl) hpos
  | readVarint => exact field_iff_readVarint hpos
  | readString len => exact field_iff_readString hlen hpos
  | readBytes len =>
    apply field_iff_of_fixed (fixed_take len) (fun _ => rfl) _ hpos
    intro bs
    unfold field
    dsimp only
    split
    . rfl
    . rfl

end ReaderCall

namespace Reads

open ReaderCall

variable {packet beyond : Bytes} {pos : Nat}

theorem inside_iff (hlen : packet.length < 2 ^ 31) (hpos : pos ≤ packet.length) (reads : Reads)
    : reads.Inside (cursor packet beyond pos) ↔ reads.Complete (packet.drop pos) := by
  induction reads generalizing pos with
  | done => exact Iff.rfl
  | refused => exact Iff.rfl
  | wild => exact Iff.rfl
  | call c next ih =>
    unfold Inside Complete
    constructor
    . rintro ⟨hcut, v, _, pos', hat, hrun, hge, hle, hnext⟩
      injection hat with hat
      subst hat
      refine ⟨v, packet.drop pos', (@field_iff _ _ beyond _ c hlen hpos _ _).mpr ?_,
        (ih v hle).mp hnext⟩
      exact ⟨hcut, pos', hrun, hge, hle, rfl⟩
    . rintro ⟨v, rest, hfield, hnext⟩
      obtain ⟨hcut, pos', hrun, hge, hle, hrest⟩ :=
        (@field_iff _ _ beyond _ c hlen hpos _ _).mp hfield
      rw [hrest] at hnext
      exact ⟨hcut, v, pos, pos', rfl, hrun, hge, hle, (ih v hle).mpr hnext⟩

/--
Where all fields are there, the run takes the same way as the fields do.
-/
theorem refuses_iff (hlen : packet.length < 2 ^ 31) (hpos : pos ≤ packet.length) {reads : Reads}
    (hcomplete : reads.Complete (packet.drop pos))
    : reads.Refuses (cursor packet beyond pos) ↔ reads.Refused (packet.drop pos) := by
  induction reads generalizing pos with
  | done => exact Iff.rfl
  | refused => exact Iff.rfl
  | wild => exact Iff.rfl
  | call c next ih =>
    obtain ⟨v, rest, hfield, hnext⟩ := hcomplete
    obtain ⟨_, pos', hrun, _, hle, hrest⟩ := (@field_iff _ _ beyond _ c hlen hpos _ _).mp hfield
    rw [hrest] at hnext
    unfold Refuses Refused
    rw [hrun, hfield, hrest]
    constructor
    . rintro ⟨w, reader', hw, hrefuses⟩
      injection hw with hw
      injection hw with hv hreader
      subst hv hreader
      exact ⟨v, _, rfl, (ih v hle hnext).mp hrefuses⟩
    . rintro ⟨w, rest', hw, hrefused⟩
      injection hw with hw
      injection hw with hv hrest'
      subst hv hrest'
      exact ⟨v, _, rfl, (ih v hle hnext).mpr hrefused⟩

theorem announced_of_accepts {α : Type} {c : ReaderCall α} {bs rest : Bytes} {v : α}
    (hfield : c.field bs = some (v, rest)) (hv : c.Accepts v) : c.announced bs = some (v, rest) := by
  cases c with
  | readString len =>
    unfold field at hfield
    unfold announced
    dsimp only at hfield ⊢
    cases h : Bin.readMcString bs len with
    | none =>
      rw [h] at hfield
      cases hfield
    | some res =>
      rcases res with ⟨out, vl⟩
      rw [h] at hfield
      cases out with
      | none =>
        injection hfield with hfield
        injection hfield with hnone
        exact absurd hnone.symm hv
      | some out => exact hfield
  | _ => exact hfield

theorem longEnough_or_refused {reads : Reads} (hstrict : reads.Strict) {bs : Bytes}
    (h : reads.Complete bs) : reads.LongEnough bs ∨ reads.Refused bs := by
  induction reads generalizing bs with
  | done => exact Or.inl trivial
  | refused => exact Or.inl trivial
  | wild => exact h.elim
  | call c next ih =>
    obtain ⟨v, rest, hfield, hnext⟩ := h
    obtain ⟨hrefuse, hstrict⟩ := hstrict v
    by_cases hv : c.Accepts v
    . cases ih v hstrict hnext with
      | inl hlong => exact Or.inl ⟨v, rest, announced_of_accepts hfield hv, hlong⟩
      | inr hrefused => exact Or.inr ⟨v, rest, hfield, hrefused⟩
    . refine Or.inr ⟨v, rest, hfield, ?_⟩
      rw [hrefuse hv]
      trivial

theorem complete_call {α : Type} {c : ReaderCall α} {next : α → Reads} {bs rest : Bytes} {v : α}
    (h : c.field bs = some (v, rest)) : (call c next).Complete bs ↔ (next v).Complete rest := by
  show (∃ v rest, c.field bs = some (v, rest) ∧ (next v).Complete rest) ↔ _
  rw [h]
  simp

theorem refused_call {α : Type} {c : ReaderCall α} {next : α → Reads} {bs rest : Bytes} {v : α}
    (h : c.field bs = some (v, rest)) : (call c next).Refused bs ↔ (next v).Refused rest := by
  show (∃ v rest, c.field bs = some (v, rest) ∧ (next v).Refused rest) ↔ _
  rw [h]
  simp

theorem longEnough_call {α : Type} {c : ReaderCall α} {next : α → Reads} {bs rest : Bytes} {v : α}
    (h : c.announced bs = some (v, rest)) : (call c next).LongEnough bs ↔ (next v).LongEnough rest := by
  show (∃ v rest, c.announced bs = some (v, rest) ∧ (next v).LongEnough rest) ↔ _
  rw [h]
  simp

theorem not_complete_call {α : Type} {c : ReaderCall α} {next : α → Reads} {bs : Bytes}
    (h : c.field bs = none) : ¬ (call c next).Complete bs := by
  rintro ⟨v, rest, hfield, _⟩
  rw [h] at hfield
  cases hfield

end Reads

namespace Mc18PacketHandler

open Reads ReaderCall

/--
What `handle_h00` goes for behind the protocol.
-/
def handshakeFields : Reads :=
  call (readString 256) fun _ =>
  call readShort fun _ =>
  call readVarint fun st =>
    if st ≠ 1 ∧ st ≠ 2 then refused else done

/--
The address is not accepted, which nobody looks at, the packet ends before these fields do, and the
number that lies two bytes behind the front of the address is a protocol state.
-/
def MisreadFields (address : Bytes) : Prop :=
  ∃ vl st rest, Bin.readMcString address 256 = some (none, vl)
    ∧ ¬ handshakeFields.LongEnough address
    ∧ readVarint.field (address.drop 2) = some (st, rest)
    ∧ (st = 1 ∨ st = 2)

def MisreadBody (body : Bytes) : Prop :=
  ∃ address, readVarint.field body = some (47, address) ∧ MisreadFields address

/--
A handshake is taken for another one.
-/
structure Misread (handler : Mc18PacketHandler) (packet : Bytes) : Prop where
  conn : handler.conn = true
  state : handler.state = .handshake
  exists_body : ∃ len fields body, readVarint.field packet = some (len, fields)
    ∧ readVarint.field fields = some (0, body)
    ∧ MisreadBody body

section Strict

theorem strict_call {α : Type} {c : ReaderCall α} {next : α → Reads} (hc : ∀ v, c.Accepts v)
    (h : ∀ v, (next v).Strict) : (call c next).Strict :=
  fun v => ⟨fun hno => absurd (hc v) hno, h v⟩

theorem strict_string {len : Nat} {next : Option Bytes → Reads} (hnone : next none = .refused)
    (h : ∀ v, (next v).Strict) : (call (readString len) next).Strict := by
  intro v
  refine ⟨fun hno => ?_, h v⟩
  have hv : v = none := not_not.mp hno
  rw [hv, hnone]

theorem strict_ite {c : Prop} [Decidable c] {reads reads' : Reads} (h : reads.Strict)
    (h' : reads'.Strict) : (if c then reads else reads').Strict := by
  split
  . exact h
  . exact h'

theorem strict_readSlot {next : Reads} (h : next.Strict) : (readSlot next).Strict := by
  refine strict_call (fun _ => trivial) fun id => strict_ite h ?_
  refine strict_call (fun _ => trivial) fun count => strict_call (fun _ => trivial) fun damage => ?_
  exact strict_call (fun _ => trivial) fun more => strict_ite h trivial

theorem strict_readArray {next : Reads} (h : next.Strict) : (readArray next).Strict := by
  refine strict_call (fun _ => trivial) fun len => strict_ite trivial ?_
  exact strict_call (fun _ => trivial) fun _ => h

/--
Only `handle_h00` goes on with a string that is not accepted.
-/
theorem strict_reads {h : Handler} (hne : h ≠ .h00) : h.reads.Strict := by
  cases h with
  | h00 => exact absurd rfl hne
  | s00 => trivial
  | s01 => exact strict_call (fun _ => trivial) fun _ => trivial
  | l00 => exact strict_string rfl fun _ => strict_ite trivial trivial
  | l01 => exact strict_readArray (strict_readArray trivial)
  | p00 => exact strict_call (fun _ => trivial) fun _ => trivial
  | p01 => exact strict_string rfl fun _ => strict_ite trivial trivial
  | p03 => exact strict_call (fun _ => trivial) fun _ => trivial
  | p04 =>
    iterate 4 refine strict_call (fun _ => trivial) fun _ => ?_
    trivial
  | p05 =>
    iterate 3 refine strict_call (fun _ => trivial) fun _ => ?_
    trivial
  | p06 =>
    iterate 6 refine strict_call (fun _ => trivial) fun _ => ?_
    trivial
  | p07 =>
    iterate 3 refine strict_call (fun _ => trivial) fun _ => ?_
    trivial
  | p08 =>
    iterate 2 refine strict_call (fun _ => trivial) fun _ => ?_
    apply strict_readSlot
    iterate 3 refine strict_call (fun _ => trivial) fun _ => ?_
    trivial
  | p09 => exact strict_call (fun _ => trivial) fun _ => strict_ite trivial trivial
  | p0d => exact strict_call (fun _ => trivial) fun _ => trivial
  | p0e =>
    iterate 5 refine strict_call (fun _ => trivial) fun _ => ?_
    exact strict_readSlot trivial
  | p10 =>
    exact strict_call (fun _ => trivial) fun _ => strict_readSlot (strict_ite trivial trivial)
  | xx => trivial

theorem strict_callEntry {table : List Handler} (hne : ∀ h ∈ table, h ≠ .h00) (opc : Int)
    : (callEntry table opc).Strict := by
  unfold callEntry
  split
  . trivial
  . split
    . trivial
    . next h hget => exact strict_reads (hne h (List.mem_of_getElem? hget))

end Strict

/--
What `handle` calls behind the length and the opcode.
-/
def entry (state : ProtocolState) (opc : Int) : Reads :=
  match state with
  | .handshake => if opc > 0x00 then refused else callEntry handshakeTable opc
  | .status => if opc > 0x01 then refused else callEntry statusTable opc
  | .login => if opc > 0x01 then refused else callEntry loginTable opc
  | .play => if opc > 0x19 then refused else callEntry playTable opc

theorem reads_of_conn {handler : Mc18PacketHandler} (hconn : handler.conn = true)
    : handler.reads = call readVarint fun _ => call readVarint fun opc => entry handler.state opc := by
  unfold reads entry
  rw [hconn]
  rfl

theorem strict_entry {state : ProtocolState} (hstate : state ≠ .handshake) (opc : Int)
    : (entry state opc).Strict := by
  cases state with
  | handshake => exact absurd rfl hstate
  | status => exact strict_ite trivial (strict_callEntry (by decide) opc)
  | login => exact strict_ite trivial (strict_callEntry (by decide) opc)
  | play => exact strict_ite trivial (strict_callEntry (by decide) opc)

/--
A string is there, or it is not accepted because of a byte and the cursor stays.
-/
theorem accepts_or_refused {len : Nat} {bs rest : Bytes} {v : Option Bytes}
    (h : (readString len).field bs = some (v, rest))
    : (readString len).Accepts v ∨ rest = bs ∧ ∃ vl, Bin.readMcString bs len = some (none, vl) := by
  unfold field at h
  dsimp only at h
  split at h
  . cases h
  . next vl hstring =>
    injection h with h
    injection h with _ hrest
    exact Or.inr ⟨hrest.symm, vl, hstring⟩
  . next out vl hstring =>
    split at h
    . injection h with h
      injection h with hv _
      exact Or.inl (hv ▸ nofun)
    . cases h

theorem handshakeFields_iff {bs : Bytes} (h : handshakeFields.Complete bs)
    : (¬ handshakeFields.LongEnough bs → handshakeFields.Refused bs) ↔ ¬ MisreadFields bs := by
  obtain ⟨addr, rest, hfield, port, rest', hport, st, rest'', hst, _⟩ := h
  have hrefused : handshakeFields.Refused bs ↔ st ≠ 1 ∧ st ≠ 2 := by
    unfold handshakeFields
    rw [refused_call hfield, refused_call hport, refused_call hst]
    split
    . next hne => exact iff_of_true trivial hne
    . next heq => exact iff_of_false id heq
  rw [hrefused]
  have hdrop : rest' = rest.drop 2 := by
    obtain ⟨_, _, heq⟩ := Option.map_eq_some_iff.mp hport
    injection heq with _ hrest
    exact hrest.symm
  constructor
  . rintro hrefuses ⟨vl, st', tail, hstring, hshort, hst', hstate⟩
    have hnone : (readString 256).field bs = some (none, bs) := by
      unfold field
      dsimp only
      rw [hstring]
    rw [hnone] at hfield
    injection hfield with hfield
    injection hfield with _ hbs
    rw [hdrop, ← hbs, hst'] at hst
    injection hst with hst
    injection hst with hst
    have hother := hrefuses hshort
    omega
  . intro hno hshort
    by_contra hstate
    cases accepts_or_refused hfield with
    | inl haccepts =>
      -- the packet is long enough
      apply hshort
      unfold handshakeFields
      rw [longEnough_call (announced_of_accepts hfield haccepts),
        longEnough_call (announced_of_accepts hport trivial),
        longEnough_call (announced_of_accepts hst trivial)]
      split
      . trivial
      . trivial
    | inr hanswer =>
      obtain ⟨hbs, vl, hstring⟩ := hanswer
      rw [hdrop, hbs] at hst
      exact hno ⟨vl, st, rest'', hstring, hshort, hst, by omega⟩

theorem entry_handshake {opc : Int} {body : Bytes} (h : (entry .handshake opc).Complete body)
    : (opc > 0 ∧ entry .handshake opc = refused) ∨ (opc = 0 ∧ entry .handshake opc = handleH00) := by
  unfold entry at h ⊢
  dsimp only at h ⊢
  by_cases hlarge : opc > 0
  . rw [if_pos hlarge]
    exact Or.inl ⟨hlarge, rfl⟩
  . rw [if_neg hlarge] at h ⊢
    unfold callEntry at h
    by_cases hneg : opc < 0
    . rw [if_pos hneg] at h
      exact h.elim
    . have hzero : opc = 0 := by omega
      rw [hzero]
      exact Or.inr ⟨rfl, rfl⟩

theorem handleH00_iff {body : Bytes} (h : handleH00.Complete body)
    : (¬ handleH00.LongEnough body → handleH00.Refused body) ↔ ¬ MisreadBody body := by
  obtain ⟨proto, address, hproto, hfields⟩ := h
  dsimp only at hfields
  -- there is one protocol and one address
  have hmisread : MisreadBody body ↔ proto = 47 ∧ MisreadFields address := by
    constructor
    . rintro ⟨address', hproto', hmisread⟩
      rw [hproto] at hproto'
      injection hproto' with hproto'
      injection hproto' with h47 haddress
      exact ⟨h47, haddress ▸ hmisread⟩
    . rintro ⟨h47, hmisread⟩
      exact ⟨address, h47 ▸ hproto, hmisread⟩
  rw [hmisread]
  unfold handleH00
  rw [longEnough_call (announced_of_accepts hproto trivial), refused_call hproto]
  by_cases h47 : proto = 47
  . rw [if_neg (not_not.mpr h47)] at hfields ⊢
    rw [and_iff_right h47]
    exact handshakeFields_iff hfields
  . rw [if_pos h47]
    exact iff_of_true (fun _ => trivial) (fun hmisread => h47 hmisread.left)

/--
What a misread packet has is what is read of this one.
-/
theorem misread_iff {handler : Mc18PacketHandler} {packet fields body : Bytes} {len opc : Int}
    (hconn : handler.conn = true) (hstate : handler.state = .handshake)
    (hlen : readVarint.field packet = some (len, fields))
    (hopc : readVarint.field fields = some (opc, body))
    : handler.Misread packet ↔ opc = 0 ∧ MisreadBody body := by
  constructor
  . rintro ⟨_, _, len', fields', body', hlen', hopc', hmisread⟩
    rw [hlen] at hlen'
    injection hlen' with hlen'
    injection hlen' with _ hfields
    rw [← hfields, hopc] at hopc'
    injection hopc' with hopc'
    injection hopc' with hzero hbody
    exact ⟨hzero, hbody ▸ hmisread⟩
  . rintro ⟨hzero, hmisread⟩
    exact ⟨hconn, hstate, len, fields, body, hlen, hzero ▸ hopc, hmisread⟩

theorem entry_handshake_iff {opc : Int} {body : Bytes} (h : (entry .handshake opc).Complete body)
    : (¬ (entry .handshake opc).LongEnough body → (entry .handshake opc).Refused body)
        ↔
      ¬ (opc = 0 ∧ MisreadBody body) := by
  cases entry_handshake h with
  | inl hrefused =>
    obtain ⟨hlarge, heq⟩ := hrefused
    rw [heq]
    exact iff_of_true (fun _ => trivial) (fun hmisread => absurd hmisread.left (by omega))
  | inr hhandshake =>
    obtain ⟨hzero, heq⟩ := hhandshake
    rw [heq] at h ⊢
    rw [handleH00_iff h, and_iff_right hzero]

/--
A handshake whose address has two bytes of the five that are announced, the first of which is not
accepted, is taken for a status request.
-/
example : Misread ⟨true, .handshake⟩ [5, 0, 47, 5, 128, 1] := by
  have hlen : readVarint.field [5, 0, 47, 5, 128, 1] = some (5, [0, 47, 5, 128, 1]) := by decide
  have hopc : readVarint.field [0, 47, 5, 128, 1] = some (0, [47, 5, 128, 1]) := by decide
  have hproto : readVarint.field [47, 5, 128, 1] = some (47, [5, 128, 1]) := by decide
  have haddr : Bin.readMcString [5, 128, 1] 256 = some (none, 6) := by decide
  have hstate : readVarint.field [1] = some (1, []) := by decide
  refine ⟨rfl, rfl, 5, _, _, hlen, hopc, _, hproto, 6, 1, [], haddr, ?_, hstate, Or.inl rfl⟩
  rintro ⟨v, rest, haddress, _⟩
  have hnone : (readString 256).announced [5, 128, 1] = none := by decide
  rw [hnone] at haddress
  cases haddress

end Mc18PacketHandler

end HCraft
