import HCraft.Network.Packet

/-!
This module contains what the fields put to a packet leave in it.
-/

namespace HCraft

namespace Packet

/--
A packet that is being built: the cursor is at its end, and no byte is reserved but the first five.
-/
structure Growing (pack : Packet) : Prop where
  pos_eq : pack.pos = pack.data.length
  length_le : pack.data.length ≤ pack.cap
  le_cap : 16 ≤ pack.cap
  cap_lt : pack.cap < 2 ^ 29
  rbeg_eq : pack.rbeg = 5
  size_eq : pack.size = 5 + pack.cap

theorem growing_new : (new 16 5).Growing where
  pos_eq := rfl
  length_le := by decide
  le_cap := by decide
  cap_lt := by decide
  rbeg_eq := rfl
  size_eq := rfl

section Put

variable {pack : Packet}

theorem expand_spec (h : pack.Growing) {newCap : Nat} (hmore : pack.cap < newCap)
    (hlt : newCap < 2 ^ 29)
    : ∃ pack', pack.expand newCap = .ok pack' ∧ pack'.Growing ∧ pack'.cap = newCap
        ∧ pack'.data = pack.data := by
  have hlen := h.length_le
  have hcap := h.le_cap
  have hsize := h.size_eq
  have hrbeg := h.rbeg_eq
  have hmod : (pack.rbeg + newCap) % 2 ^ 32 = 5 + newCap := by
    rw [hrbeg]
    exact Nat.mod_eq_of_lt (by omega)
  unfold expand
  rw [if_neg (by omega), hmod]
  dsimp only
  rw [if_neg (by omega), if_neg (by omega)]
  refine ⟨_, rfl, ?_, rfl, rfl⟩
  exact {
    pos_eq := h.pos_eq
    length_le := by dsimp only; omega
    le_cap := by dsimp only; omega
    cap_lt := hlt
    rbeg_eq := hrbeg
    size_eq := rfl
  }

theorem ensure_spec (h : pack.Growing) {tenths bound : Nat} (hlo : 10 ≤ tenths)
    (hhi : tenths ≤ 16) (hlt : pack.data.length + bound < 2 ^ 27 + 9)
    : ∃ pack', pack.ensure tenths bound = .ok pack' ∧ pack'.Growing ∧ pack'.data = pack.data
        ∧ pack.data.length + bound ≤ pack'.cap := by
  have hlen := h.length_le
  unfold ensure
  rw [h.pos_eq, @Nat.mod_eq_of_lt (pack.data.length + bound) _ (by omega)]
  split
  . next hmore =>
    have hmul : pack.cap * 10 ≤ pack.cap * tenths := Nat.mul_le_mul_left _ hlo
    have hmul' : pack.cap * tenths ≤ pack.cap * 16 := Nat.mul_le_mul_left _ hhi
    rw [@Nat.mod_eq_of_lt (pack.cap * tenths) _ (by omega), Nat.mod_eq_of_lt (by omega)]
    obtain ⟨pack', heq, hgrow, hcap, hdata⟩ :=
      @expand_spec _ h (pack.cap * tenths / 10 + bound) (by omega) (by omega)
    exact ⟨pack', heq, hgrow, hdata, by omega⟩
  . next henough => exact ⟨pack, rfl, h, rfl, by omega⟩

theorem store_spec (h : pack.Growing) {arr : Bytes}
    (hle : pack.data.length + arr.length ≤ pack.cap)
    : ∃ pack', pack.store arr = .ok pack' ∧ pack'.Growing ∧ pack'.data = pack.data ++ arr := by
  have hpos := h.pos_eq
  have hsize := h.size_eq
  have hrbeg := h.rbeg_eq
  unfold store
  rw [if_pos (by omega), hpos, Slice.patch_length]
  refine ⟨_, rfl, ?_, rfl⟩
  exact {
    pos_eq := by
      dsimp only
      rw [List.length_append]
    length_le := by
      dsimp only
      rw [List.length_append]
      exact hle
    le_cap := h.le_cap
    cap_lt := h.cap_lt
    rbeg_eq := hrbeg
    size_eq := hsize
  }

theorem put_spec (h : pack.Growing) {tenths bound : Nat} {arr : Bytes} (hlo : 10 ≤ tenths)
    (hhi : tenths ≤ 16) (hbound : arr.length ≤ bound) (hslack : bound ≤ arr.length + 9)
    (hlt : pack.data.length + arr.length < 2 ^ 27)
    : ∃ pack', pack.put tenths bound arr = .ok pack' ∧ pack'.Growing
        ∧ pack'.data = pack.data ++ arr := by
  obtain ⟨pack₁, h₁, hgrow₁, hdata₁, hcap₁⟩ :=
    @ensure_spec _ h tenths bound hlo hhi (by omega)
  obtain ⟨pack₂, h₂, hgrow₂, hdata₂⟩ := @store_spec pack₁ hgrow₁ arr (by rw [hdata₁]; omega)
  refine ⟨pack₂, ?_, hgrow₂, ?_⟩
  . unfold put
    rw [h₁]
    exact h₂
  . rw [hdata₂, hdata₁]

theorem putLen_spec (h : pack.Growing) (hlt : pack.data.length < 2 ^ 27)
    : ∃ pack', pack.putLen = .ok pack'
        ∧ pack'.data = Bin.writeVarint pack.data.length ++ pack.data := by
  have hsize := h.size_eq
  have hrbeg := h.rbeg_eq
  have hcap := h.le_cap
  have hlen := h.length_le
  have hfive : (Bin.writeVarint pack.data.length).length ≤ 5 := by
    rw [Bin.writeVarint_eq_encode]
    exact Leb128.length_encode_le (by omega) (by omega)
  unfold putLen
  generalize Bin.writeVarint pack.data.length = a at hfive ⊢
  have hreserved : pack.useReserved a.length = .ok { pack with
      data := List.replicate a.length 0 ++ pack.data
      pos := 0
      rbeg := pack.rbeg - a.length } := if_pos (by omega)
  dsimp only
  rw [hreserved]
  dsimp only [bind, Except.bind]
  unfold putBytes put ensure
  dsimp only
  rw [Nat.zero_add, Nat.mod_eq_of_lt (by omega), if_neg (by omega)]
  dsimp only [bind, Except.bind]
  unfold store
  dsimp only
  rw [if_pos (by omega)]
  refine ⟨_, rfl, ?_⟩
  dsimp only
  rw [Slice.patch_eq (by omega), List.take_zero, List.nil_append, Nat.zero_add,
    List.drop_left' List.length_replicate]

end Put

end Packet

end HCraft
