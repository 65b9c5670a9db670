import HCraft.Lib.Transition
import HCraft.Network.Packet.Memory

/-!
This module contains when `packet` stays inside its block of memory, and that it has the contents of an
idealised packet then.
-/

namespace HCraft

open Slice
open Transition

theorem Field.length_written_le (field : Field) : field.written.length ≤ field.bound := by
  cases field with
  | varint val =>
    show (Bin.writeVarint (Bin.unsigned32 val)).length ≤ 5
    rw [Bin.writeVarint_eq_encode]
    apply Leb128.length_encode_le (by omega)
    have := Bin.unsigned32_lt val
    omega
  | varlong val =>
    show (Bin.writeVarlong val.toNat).length ≤ 10
    rw [Bin.writeVarlong, Bin.writeVarint_eq_encode]
    apply Leb128.length_encode_le (by omega)
    have := val.toNat_lt
    omega
  | string str =>
    show (Packet.mcString str).length ≤ 5 + str.length
    unfold Packet.mcString
    dsimp only
    have hle : (str.takeWhile (· ≠ 0)).length ≤ str.length := (List.takeWhile_prefix _).length_le
    generalize str.takeWhile (· ≠ 0) = cut at hle ⊢
    have hfive : (Bin.writeVarint (cut.length % 2 ^ 32)).length ≤ 5 := by
      rw [Bin.writeVarint_eq_encode]
      exact Leb128.length_encode_le (by omega) (by omega)
    rw [List.length_append]
    omega
  | _ => exact Nat.le_refl _

theorem Field.tenths_mem (field : Field) : 10 ≤ field.tenths ∧ field.tenths ≤ 16 := by
  cases field with
  | _ => simp [tenths]

namespace Packet

namespace Memory

variable {pack pack' : Memory} {n tenths bound : Nat} {arr : Bytes}

/--
Both what `cap` counts and what has been written are in the block. After `use_reserved` there may be
more of the latter.
-/
structure Sound (pack : Memory) : Prop where
  pos_le : pack.pos ≤ pack.len
  pos_le_cap : pack.pos ≤ pack.cap
  cap_le : pack.rbeg + pack.cap ≤ pack.block.length
  len_le : pack.rbeg + pack.len ≤ pack.block.length
  reserved_eq : pack.block.take pack.rbeg = List.replicate pack.rbeg none

theorem sound_new {initCap reserveBeg : Nat} (h : reserveBeg + initCap < 2 ^ 28)
    : (new initCap reserveBeg).Sound := by
  have hmod : (reserveBeg + initCap) % 2 ^ 32 = reserveBeg + initCap := Nat.mod_eq_of_lt (by omega)
  unfold new
  rw [hmod]
  constructor
  . exact Nat.le_refl 0
  . exact Nat.zero_le _
  . simp
  . simp
  . dsimp only
    rw [List.take_replicate, Nat.min_eq_left (by omega)]

theorem Sound.length_contents (h : pack.Sound) : pack.contents.length = pack.len :=
  length_slice_of_le h.len_le

theorem putField_eq (pack : Memory) (field : Field)
    : pack.putField field = pack.put field.tenths field.bound field.written := by
  cases field with
  | _ => rfl

/--
The packet has another block, and is the same apart from that.
-/
structure Moved (pack pack' : Memory) : Prop where
  sound : pack'.Sound
  pos_eq : pack'.pos = pack.pos
  contents_eq : pack'.contents = pack.contents

section Expand

theorem expand_of_le (h : pack.Sound) (hlt : pack.rbeg + n < 2 ^ 32) (hle : n ≤ pack.cap ∨ pack.len ≤ n)
    : ∃ pack', pack.expand n = .ok pack' ∧ Moved pack pack' ∧ pack'.cap = max pack.cap n := by
  unfold expand
  split
  . next hcap => exact ⟨pack, rfl, ⟨h, rfl, rfl⟩, by omega⟩
  . next hmore =>
    have hlen := h.len_le
    rw [Nat.mod_eq_of_lt hlt]
    dsimp only
    rw [List.length_replicate, if_neg (by omega), if_neg (by omega)]
    have hcontents := h.length_contents
    have hblock : (patch none (List.replicate (pack.rbeg + n) none) pack.rbeg pack.contents).length
        = pack.rbeg + n := by
      rw [length_patch (by rw [List.length_replicate]; omega), List.length_replicate]
      omega
    refine ⟨_, rfl, ⟨?_, rfl, ?_⟩, by dsimp only; omega⟩
    . constructor
      . exact h.pos_le
      . have := h.pos_le_cap
        dsimp only
        omega
      . dsimp only
        omega
      . dsimp only
        omega
      . dsimp only
        rw [patch_eq (by rw [List.length_replicate]; omega), List.append_assoc, List.take_replicate,
          Nat.min_eq_left (by omega), List.take_left' List.length_replicate]
    . have hself := @slice_patch _ none (List.replicate (pack.rbeg + n) none) pack.contents
        pack.rbeg (by rw [List.length_replicate]; omega)
      rw [hcontents] at hself
      exact hself

theorem expand_of_not_le (h : pack.Sound) (hlt : pack.rbeg + n < 2 ^ 32)
    (hle : ¬ (n ≤ pack.cap ∨ pack.len ≤ n)) : pack.expand n = .error .writeOutside := by
  have hlen := h.len_le
  unfold expand
  rw [if_neg (by omega), Nat.mod_eq_of_lt hlt]
  dsimp only
  rw [List.length_replicate, if_neg (by omega), if_pos (by omega)]

/--
The new capacity, if there is one, is enough for the contents.
-/
def Copies (pack : Memory) (tenths bound : Nat) : Prop :=
  pack.pos + bound ≤ pack.cap ∨ pack.len ≤ pack.cap * tenths / 10 + bound

theorem ensure_eq (htenths : tenths ≤ 16) (hlt : pack.rbeg + (pack.pos + bound) < 2 ^ 28)
    : pack.ensure tenths bound
        =
      if pack.pos + bound ≤ pack.cap then
        .ok pack
      else
        pack.expand (pack.cap * tenths / 10 + bound) := by
  unfold ensure
  rw [@Nat.mod_eq_of_lt (pack.pos + bound) _ (by omega)]
  by_cases hroom : pack.pos + bound ≤ pack.cap
  . rw [if_neg (by omega), if_pos hroom]
  . have hmul : pack.cap * tenths ≤ pack.cap * 16 := Nat.mul_le_mul_left _ htenths
    rw [if_pos (by omega), if_neg hroom, @Nat.mod_eq_of_lt (pack.cap * tenths) _ (by omega),
      Nat.mod_eq_of_lt (by omega)]

theorem ensure_of_copies (h : pack.Sound) (hlo : 10 ≤ tenths) (hhi : tenths ≤ 16)
    (hlt : pack.rbeg + (pack.pos + bound) < 2 ^ 28) (hcopies : pack.Copies tenths bound)
    : ∃ pack', pack.ensure tenths bound = .ok pack' ∧ Moved pack pack'
        ∧ pack.pos + bound ≤ pack'.cap := by
  rw [ensure_eq hhi hlt]
  split
  . next hroom => exact ⟨pack, rfl, ⟨h, rfl, rfl⟩, hroom⟩
  . next hmore =>
    have hpos := h.pos_le_cap
    have hmul : pack.cap * 10 ≤ pack.cap * tenths := Nat.mul_le_mul_left _ hlo
    have hmul' : pack.cap * tenths ≤ pack.cap * 16 := Nat.mul_le_mul_left _ hhi
    have hcopies := or_iff_right hmore |>.mp hcopies
    obtain ⟨pack', heq, hmoved, hcap⟩ :=
      @expand_of_le _ (pack.cap * tenths / 10 + bound) h (by omega) (.inr hcopies)
    exact ⟨pack', heq, hmoved, by omega⟩

theorem ensure_of_not_copies (h : pack.Sound) (hlo : 10 ≤ tenths) (hhi : tenths ≤ 16)
    (hlt : pack.rbeg + (pack.pos + bound) < 2 ^ 28) (hcopies : ¬ pack.Copies tenths bound)
    : pack.ensure tenths bound = .error .writeOutside := by
  have hpos := h.pos_le_cap
  have hmul : pack.cap * 10 ≤ pack.cap * tenths := Nat.mul_le_mul_left _ hlo
  have hmul' : pack.cap * tenths ≤ pack.cap * 16 := Nat.mul_le_mul_left _ hhi
  unfold Copies at hcopies
  rw [ensure_eq hhi hlt, if_neg (by omega)]
  apply expand_of_not_le h (by omega)
  omega

end Expand

section Put

theorem store_of_le (h : pack.Sound) (hle : pack.pos + arr.length ≤ pack.cap)
    : ∃ pack', pack.store arr = .ok pack' ∧ pack'.Sound
        ∧ pack'.contents = patch none pack.contents pack.pos (arr.map some)
        ∧ pack'.pos = pack.pos + arr.length := by
  have hpos := h.pos_le
  have hcap := h.cap_le
  have hlen := h.len_le
  have hmax : (if pack.pos + arr.length > pack.len then pack.pos + arr.length else pack.len)
      = max pack.len (pack.pos + arr.length) := by
    split
    . omega
    . omega
  unfold store
  rw [if_pos (by omega)]
  dsimp only
  rw [hmax]
  have hblock : (patch none pack.block (pack.rbeg + pack.pos) (arr.map some)).length
      = pack.block.length := by
    rw [length_patch (by omega), List.length_map]
    omega
  refine ⟨_, rfl, ?_, ?_, rfl⟩
  . constructor
    . dsimp only
      omega
    . exact hle
    . rw [hblock]
      exact hcap
    . dsimp only
      omega
    . dsimp only
      rw [patch_eq (by omega), List.append_assoc, List.take_append_of_le_length
        (by rw [List.length_take]; omega), List.take_take, Nat.min_eq_left (by omega)]
      exact h.reserved_eq
  . have hwithin := @slice_patch_within _ none pack.block (arr.map some) pack.pos pack.rbeg pack.len
      hpos hlen
    rw [List.length_map] at hwithin
    exact hwithin

theorem put_of_copies (h : pack.Sound) (hlo : 10 ≤ tenths) (hhi : tenths ≤ 16)
    (hbound : arr.length ≤ bound) (hlt : pack.rbeg + (pack.pos + bound) < 2 ^ 28)
    (hcopies : pack.Copies tenths bound)
    : ∃ pack', pack.put tenths bound arr = .ok pack' ∧ pack'.Sound
        ∧ pack'.contents = patch none pack.contents pack.pos (arr.map some)
        ∧ pack'.pos = pack.pos + arr.length := by
  obtain ⟨pack₁, heq₁, hmoved, hcap⟩ := ensure_of_copies h hlo hhi hlt hcopies
  obtain ⟨pack₂, heq₂, hsound, hcontents, hpos⟩ :=
    @store_of_le pack₁ arr hmoved.sound (by rw [hmoved.pos_eq]; omega)
  refine ⟨pack₂, ?_, hsound, ?_, ?_⟩
  . rw [put, heq₁]
    exact heq₂
  . rw [hcontents, hmoved.contents_eq, hmoved.pos_eq]
  . rw [hpos, hmoved.pos_eq]

theorem put_of_not_copies (h : pack.Sound) (hlo : 10 ≤ tenths) (hhi : tenths ≤ 16)
    (hlt : pack.rbeg + (pack.pos + bound) < 2 ^ 28) (hcopies : ¬ pack.Copies tenths bound)
    (arr : Bytes) : pack.put tenths bound arr = .error .writeOutside := by
  rw [put, ensure_of_not_copies h hlo hhi hlt hcopies]
  rfl

end Put

section Reserved

theorem useReserved_of_le {count : Nat} (h : pack.Sound) (hle : count ≤ pack.rbeg)
    : ∃ pack', pack.useReserved count = .ok pack' ∧ pack'.Sound ∧ pack'.pos = 0
        ∧ pack'.contents = List.replicate count none ++ pack.contents := by
  have hcap := h.cap_le
  have hlen := h.len_le
  have hreserved : ∀ k ≤ pack.rbeg, pack.block.take k = List.replicate k none := by
    intro k hk
    have htake := congrArg (List.take k) h.reserved_eq
    rw [List.take_take, List.take_replicate, Nat.min_eq_left hk] at htake
    exact htake
  unfold useReserved
  rw [if_pos hle]
  refine ⟨_, rfl, ?_, rfl, ?_⟩
  . constructor
    . exact Nat.zero_le _
    . exact Nat.zero_le _
    . dsimp only
      omega
    . dsimp only
      omega
    . exact hreserved _ (Nat.sub_le ..)
  . have hsplit : pack.block.drop (pack.rbeg - count)
        = List.replicate count none ++ pack.block.drop pack.rbeg := by
      have hdrop := congrArg (List.drop (pack.rbeg - count)) (List.take_append_drop pack.rbeg pack.block)
      rw [h.reserved_eq, List.drop_append_of_le_length (by rw [List.length_replicate]; omega),
        List.drop_replicate] at hdrop
      rw [← hdrop]
      congr 2
      omega
    unfold contents slice
    dsimp only
    rw [hsplit, List.take_append, List.length_replicate, List.take_of_length_le
      (by rw [List.length_replicate]; omega), Nat.add_sub_cancel]

end Reserved

section ToPacket

/--
`Packet` is what is left of a packet without the rest of its block.
-/
def toPacket (pack : Memory) : Packet :=
  { data := pack.contents.map (·.getD 0), pos := pack.pos, cap := pack.cap, rbeg := pack.rbeg
    size := pack.block.length }

theorem Sound.length_toPacket (h : pack.Sound) : pack.toPacket.data.length = pack.len := by
  rw [toPacket, List.length_map, h.length_contents]

theorem toPacket_expand (h : pack.Sound) (hlt : pack.rbeg + n < 2 ^ 32)
    : (pack.expand n).map toPacket = pack.toPacket.expand n := by
  have hlen := h.length_toPacket
  have hle := h.len_le
  have hself : pack.toPacket.cap = pack.cap ∧ pack.toPacket.rbeg = pack.rbeg
      ∧ pack.toPacket.size = pack.block.length := ⟨rfl, rfl, rfl⟩
  unfold Packet.expand
  rw [hlen, hself.1, hself.2.1, hself.2.2]
  by_cases hmore : pack.cap ≥ n
  . have heq : pack.expand n = .ok pack := if_pos hmore
    rw [heq, if_pos hmore]
    rfl
  . rw [if_neg hmore, Nat.mod_eq_of_lt hlt]
    dsimp only
    rw [if_neg (by omega)]
    by_cases hcopies : n ≤ pack.cap ∨ pack.len ≤ n
    . rw [if_neg (by omega)]
      obtain ⟨pack', heq, hmoved, hcap⟩ := expand_of_le h hlt hcopies
      have hblock : pack'.block.length = pack.rbeg + n ∧ pack'.rbeg = pack.rbeg := by
        unfold expand at heq
        rw [if_neg hmore, Nat.mod_eq_of_lt hlt] at heq
        dsimp only at heq
        rw [List.length_replicate, if_neg (by omega), if_neg (by omega)] at heq
        injection heq with heq
        rw [← heq]
        dsimp only
        rw [length_patch (by rw [List.length_replicate]; omega), List.length_replicate,
          h.length_contents]
        omega
      rw [heq]
      show Except.ok (toPacket pack') = _
      unfold toPacket
      rw [hmoved.contents_eq, hmoved.pos_eq, hcap, hblock.1, hblock.2, Nat.max_eq_right (by omega)]
    . rw [if_pos (by omega), expand_of_not_le h hlt hcopies]
      rfl

theorem toPacket_store (h : pack.Sound) (arr : Bytes)
    : (pack.store arr).map toPacket = pack.toPacket.store arr := by
  have hpos := h.pos_le
  have hlen := h.len_le
  unfold store Packet.store
  show Except.map toPacket (if pack.rbeg + pack.pos + arr.length ≤ pack.block.length then _ else _)
    = if pack.rbeg + pack.pos + arr.length ≤ pack.block.length then _ else _
  split
  . next hle =>
    have hmax : (if pack.pos + arr.length > pack.len then pack.pos + arr.length else pack.len)
        = max pack.len (pack.pos + arr.length) := by
      split
      . omega
      . omega
    have hwithin := @slice_patch_within _ none pack.block (arr.map some) pack.pos pack.rbeg pack.len
      hpos hlen
    rw [List.length_map] at hwithin
    have hblock : (patch none pack.block (pack.rbeg + pack.pos) (arr.map some)).length
        = pack.block.length := by
      rw [length_patch (by omega), List.length_map]
      omega
    dsimp only
    rw [hmax]
    show Except.ok (toPacket _) = _
    unfold toPacket contents
    dsimp only
    rw [hwithin, hblock, map_patch, List.map_map]
    congr 3
    exact (List.map_id _).symm ▸ rfl
  . rfl

/--
What is put to a packet with its block is put to a `Packet`.
-/
theorem toPacket_put (h : pack.Sound) (hlo : 10 ≤ tenths) (hhi : tenths ≤ 16)
    (hlt : pack.rbeg + (pack.pos + bound) < 2 ^ 28) (arr : Bytes)
    : (pack.put tenths bound arr).map toPacket = pack.toPacket.put tenths bound arr := by
  have hensure : (pack.ensure tenths bound).map toPacket = pack.toPacket.ensure tenths bound := by
    unfold ensure Packet.ensure
    show Except.map toPacket (if (pack.pos + bound) % 2 ^ 32 > pack.cap then _ else _)
      = if (pack.pos + bound) % 2 ^ 32 > pack.cap then _ else _
    split
    . next hmore =>
      have hmul' : pack.cap * tenths ≤ pack.cap * 16 := Nat.mul_le_mul_left _ hhi
      apply toPacket_expand h
      rw [Nat.mod_eq_of_lt (by omega), Nat.mod_eq_of_lt (by omega)]
      omega
    . rfl
  unfold put Packet.put
  rw [← hensure]
  by_cases hcopies : pack.Copies tenths bound
  . obtain ⟨pack', heq, hmoved, _⟩ := ensure_of_copies h hlo hhi hlt hcopies
    rw [heq]
    exact toPacket_store hmoved.sound arr
  . rw [ensure_of_not_copies h hlo hhi hlt hcopies]
    rfl

end ToPacket

end Memory

section Runs

variable {pack : Memory} {ideal : Ideal} {c : Call}

/--
No memory outside of a block was used, and the contents are those of the idealised packet.
-/
def Holds : Except Fault Memory × Ideal → Prop
  | (.error _, _) => False
  | (.ok pack, ideal) => pack.contents = ideal.data

/--
If the packet gets a new block, then that is large enough for the contents.
-/
def Fits : Except Fault Memory × Ideal → Call → Prop
  | (.ok pack, _), .put field => pack.Copies field.tenths field.bound
  | (.ok pack, _), .expand newCap => newCap ≤ pack.cap ∨ pack.len ≤ newCap
  | _, _ => True

def Simulates : Except Fault Memory × Ideal → Prop
  | (.error _, _) => False
  | (.ok pack, ideal) => pack.Sound ∧ pack.contents = ideal.data ∧ pack.pos = ideal.pos

theorem holds_of_simulates {s : Except Fault Memory × Ideal} (h : Simulates s) : Holds s := by
  obtain ⟨r, ideal⟩ := s
  cases r with
  | error _ => exact h
  | ok pack => exact h.2.1

theorem lt_of_allowed_put {field : Field} (h : pack.Allowed (.put field))
    : pack.rbeg + (pack.pos + field.bound) < 2 ^ 28 :=
  Nat.lt_of_le_of_lt (Nat.add_le_add_left (Nat.le_max_right _ _) _) h

theorem lt_of_allowed_expand {newCap : Nat} (h : pack.Allowed (.expand newCap))
    : pack.rbeg + newCap < 2 ^ 32 :=
  Nat.lt_trans h (by omega)

theorem simulates_call (h : Simulates (.ok pack, ideal)) (hallowed : pack.Allowed c)
    (hfits : Fits (.ok pack, ideal) c) : Simulates (pack.call c, ideal.call c) := by
  obtain ⟨hsound, hcontents, hpos⟩ := h
  cases c with
  | put field =>
    obtain ⟨pack', heq, hsound', hcontents', hpos'⟩ :=
      Memory.put_of_copies hsound field.tenths_mem.1 field.tenths_mem.2 field.length_written_le
        (lt_of_allowed_put hallowed) hfits
    have hcall : pack.call (.put field) = .ok pack' := (pack.putField_eq field).trans heq
    rw [hcall]
    refine ⟨hsound', ?_, ?_⟩
    . rw [hcontents', hcontents, hpos, Ideal.call]
    . rw [hpos', hpos, Ideal.call]
  | rewind =>
    refine ⟨⟨Nat.zero_le _, Nat.zero_le _, hsound.cap_le, hsound.len_le, hsound.reserved_eq⟩, ?_, rfl⟩
    exact hcontents
  | reset =>
    have hcap := hsound.cap_le
    refine ⟨⟨Nat.le_refl 0, Nat.zero_le _, hcap, ?_, hsound.reserved_eq⟩, ?_, rfl⟩
    . exact Nat.le_trans (Nat.add_le_add_left (Nat.zero_le _) _) hcap
    . rfl
  | expand newCap =>
    obtain ⟨pack', heq, hmoved, _⟩ :=
      Memory.expand_of_le hsound (lt_of_allowed_expand hallowed) hfits
    have hcall : pack.call (.expand newCap) = .ok pack' := heq
    rw [hcall]
    refine ⟨hmoved.sound, ?_, ?_⟩
    . rw [hmoved.contents_eq, hcontents, Ideal.call]
    . rw [hmoved.pos_eq, hpos, Ideal.call]
  | useReserved count =>
    obtain ⟨pack', heq, hsound', hpos', hcontents'⟩ := Memory.useReserved_of_le hsound hallowed
    have hcall : pack.call (.useReserved count) = .ok pack' := heq
    rw [hcall]
    refine ⟨hsound', ?_, hpos'⟩
    rw [hcontents', hcontents, Ideal.call]

theorem not_holds_call (h : Simulates (.ok pack, ideal)) (hallowed : pack.Allowed c)
    (hfits : ¬ Fits (.ok pack, ideal) c) : ¬ Holds (pack.call c, ideal.call c) := by
  cases c with
  | put field =>
    have herror : pack.call (.put field) = .error .writeOutside :=
      (pack.putField_eq field).trans
        (Memory.put_of_not_copies h.1 field.tenths_mem.1 field.tenths_mem.2
          (lt_of_allowed_put hallowed) hfits _)
    rw [herror]
    exact not_false
  | expand newCap =>
    have herror : pack.call (.expand newCap) = .error .writeOutside :=
      Memory.expand_of_not_le h.1 (lt_of_allowed_expand hallowed) hfits
    rw [herror]
    exact not_false
  | rewind => exact absurd trivial hfits
  | reset => exact absurd trivial hfits
  | useReserved count => exact absurd trivial hfits

theorem simulates_new {initCap reserveBeg : Nat} (h : reserveBeg + initCap < 2 ^ 28)
    : Simulates (.ok (.new initCap reserveBeg), .new) :=
  ⟨Memory.sound_new h, rfl, rfl⟩

theorem step_eq_some {s s' : Except Fault Memory × Ideal} (hstep : step s c = some s')
    : ∃ pack ideal, s = (.ok pack, ideal) ∧ pack.Allowed c ∧ s' = (pack.call c, ideal.call c) := by
  obtain ⟨r, ideal⟩ := s
  cases r with
  | error _ => cases hstep
  | ok pack =>
    simp only [step] at hstep
    split at hstep
    . next hallowed =>
      injection hstep with hstep
      exact ⟨pack, ideal, rfl, hallowed, hstep.symm⟩
    . cases hstep

/--
A packet is like an idealised one throughout a run just in case no new block is too small.
-/
theorem holds_iff_fits (initCap reserveBeg : Nat) (h : reserveBeg + initCap < 2 ^ 28)
    (calls : List Call)
    : Always step Holds (.ok (.new initCap reserveBeg), .new) calls
        ↔
      EachStep step Fits (.ok (.new initCap reserveBeg), .new) calls := by
  apply always_iff_eachStep (I := Simulates) (A := fun _ => True)
  . intro s h
    exact holds_of_simulates h
  . intro s c s' h _ hfits hstep
    obtain ⟨pack, ideal, rfl, hallowed, rfl⟩ := step_eq_some hstep
    exact simulates_call h hallowed hfits
  . intro s c s' h _ hfits hstep
    obtain ⟨pack, ideal, rfl, hallowed, rfl⟩ := step_eq_some hstep
    exact not_holds_call h hallowed hfits
  . exact simulates_new h
  . simp

/--
A full packet of the default size, with its length put in front.
-/
def lengthInFront : List Call :=
  [.put (.bytes (List.replicate 16 0)), .useReserved 1, .put (.varint 16)]

theorem holds_iff_fits_lengthInFront
    : Always step Holds (.ok (.new 16 5), .new) lengthInFront
        ↔
      EachStep step Fits (.ok (.new 16 5), .new) lengthInFront :=
  holds_iff_fits 16 5 (by decide) lengthInFront

/--
All 21 bytes of a packet of the default size are used, and 17 are asked for.
-/
theorem not_holds_expand
    : ¬ Always step Holds (.ok (.new 16 5), .new)
          [.put (.bytes (List.replicate 16 0)), .useReserved 5, .expand 17] := by
  intro h
  have hlast := h.last rfl
  exact hlast

end Runs

end Packet

end HCraft
