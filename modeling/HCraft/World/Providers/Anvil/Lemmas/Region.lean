import HCraft.Lib.Extents
import HCraft.World.Providers.Anvil.Impl

/-!
This module contains what a region file means: the layout its header describes and the sectors a chunk
is stored in.
-/

namespace HCraft

namespace AnvilWorldProvider

open Bin Slice Extents

theorem cindex_eq (x z : Int) : cindex x z = (z % 32).toNat * 32 + (x % 32).toNat := by
  unfold cindex
  rw [shiftLeft_or_eq_add (k := 5) (by omega), show 2 ^ 5 = 32 from rfl]

theorem cindex_lt (x z : Int) : cindex x z < 1024 := by
  rw [cindex_eq]
  omega

def entryLoc (hdr : Bytes) (i : Fin 1024) : Nat :=
  readLocation (slice hdr (i * 4) 3)

def entrySize (hdr : Bytes) (i : Fin 1024) : Nat :=
  (hdr.getD (i * 4 + 3) 0).toNat

/--
The sectors the header gives to each chunk.
-/
def layout (hdr : Bytes) (i : Fin 1024) : Option Extent :=
  if entryLoc hdr i = 0 then none else some ⟨entryLoc hdr i, entrySize hdr i⟩

theorem layout_eq_none {hdr : Bytes} {i : Fin 1024} : layout hdr i = none ↔ entryLoc hdr i = 0 := by
  simp [layout]

theorem layout_eq_some {hdr : Bytes} {i : Fin 1024} {e : Extent}
    : layout hdr i = some e
        ↔
      entryLoc hdr i ≠ 0 ∧ entryLoc hdr i = e.loc ∧ entrySize hdr i = e.size := by
  unfold layout
  split
  . next h => simp [h]
  . next h => simp [h, Extent.ext_iff]

section Location

theorem writeIntBe_of_lt {n : Nat} (h : n < 2 ^ 24) : writeIntBe n = 0 :: (writeIntBe n).drop 1 := by
  have : n >>> 24 = 0 := by
    rw [Nat.shiftRight_eq_div_pow]
    omega
  simp [writeIntBe, this]

theorem readLocation_writeIntBe {n : Nat} (h : n < 2 ^ 24)
    : readLocation ((writeIntBe n).drop 1) = n := by
  have hpad : ((writeIntBe n).drop 1).rightpad 3 0 = (writeIntBe n).drop 1 := by
    simp [List.rightpad]
  unfold readLocation
  rw [hpad, ← writeIntBe_of_lt h, ← List.append_nil (writeIntBe n), readIntBe_writeIntBe (by omega)]
  rw [int32_eq_self (by omega), Option.getD_some, Int.toNat_natCast]

theorem length_location (n : Nat) : ((writeIntBe n).drop 1).length = 3 := by
  simp

end Location

section Entry

variable {hdr : Bytes} (hlen : 4096 ≤ hdr.length) {i : Fin 1024}
include hlen

theorem layout_patch_of_ne {j : Fin 1024} (hji : j ≠ i) {pos : Nat} {s : Bytes} (hpos : i * 4 ≤ pos)
    (hs : pos + s.length ≤ i * 4 + 4) : layout (patch 0 hdr pos s) j = layout hdr j := by
  have hi := i.isLt
  have hj := j.isLt
  have hne : j.val ≠ i.val := fun heq => hji (Fin.ext heq)
  unfold layout entryLoc entrySize
  rcases Nat.lt_or_gt_of_ne hne with hlt | hgt
  . rw [slice_patch_of_before (by omega) (by omega), getD_patch_of_before (by omega) (by omega)]
  . rw [slice_patch_of_after (by omega) (by omega), getD_patch_of_after (by omega) (by omega)]

theorem entryLoc_patch_loc {loc : Nat} (hloc : loc < 2 ^ 24)
    : entryLoc (patch 0 hdr (i * 4) ((writeIntBe loc).drop 1)) i = loc := by
  have hs := length_location loc
  have hi := i.isLt
  unfold entryLoc
  rw [← hs, slice_patch (by omega)]
  apply readLocation_writeIntBe hloc

theorem entrySize_patch_size {size : Nat} (hsize : size < 256)
    : entrySize (patch 0 hdr (i * 4 + 3) [UInt8.ofNat size]) i = size := by
  have hi := i.isLt
  unfold entrySize
  rw [getD_patch_self (by omega) (by simp)]
  simp only [List.getD_cons_zero, UInt8.toNat_ofNat']
  omega

theorem layout_patch_loc {e : Extent} (he : layout hdr i = some e) {loc : Nat} (hpos : 0 < loc)
    (hloc : loc < 2 ^ 24)
    : layout (patch 0 hdr (i * 4) ((writeIntBe loc).drop 1))
        =
      Function.update (layout hdr) i (some ⟨loc, e.size⟩) := by
  have hs := length_location loc
  have hi := i.isLt
  funext j
  by_cases hji : j = i
  . rw [hji, Function.update_self, layout_eq_some, entryLoc_patch_loc hlen hloc]
    refine ⟨by omega, rfl, ?_⟩
    rw [← (layout_eq_some.mp he).2.2]
    unfold entrySize
    rw [getD_patch_of_after (by omega) (by omega)]
  . rw [Function.update_of_ne hji]
    apply layout_patch_of_ne hlen hji
    . omega
    . omega

theorem layout_patch_size {e : Extent} (he : layout hdr i = some e) {size : Nat}
    (hsize : size < 256)
    : layout (patch 0 hdr (i * 4 + 3) [UInt8.ofNat size])
        =
      Function.update (layout hdr) i (some ⟨e.loc, size⟩) := by
  have hi := i.isLt
  funext j
  by_cases hji : j = i
  . obtain ⟨hne, hloc, _⟩ := layout_eq_some.mp he
    have hsame : entryLoc (patch 0 hdr (i * 4 + 3) [UInt8.ofNat size]) i = entryLoc hdr i := by
      unfold entryLoc
      rw [slice_patch_of_before (by omega) (by omega)]
    rw [hji, Function.update_self, layout_eq_some, hsame, entrySize_patch_size hlen hsize]
    exact ⟨hne, hloc, rfl⟩
  . rw [Function.update_of_ne hji]
    apply layout_patch_of_ne hlen hji
    . omega
    . simp

theorem layout_patch_entry {loc size : Nat} (hpos : 0 < loc) (hloc : loc < 2 ^ 24)
    (hsize : size < 256)
    : layout (patch 0 hdr (i * 4) ((writeIntBe loc).drop 1 ++ [UInt8.ofNat size]))
        =
      Function.update (layout hdr) i (some ⟨loc, size⟩) := by
  have hs := length_location loc
  have hi := i.isLt
  have hlen' : 4096 ≤ (patch 0 hdr (i * 4) ((writeIntBe loc).drop 1)).length := by
    rw [length_patch (by omega)]
    omega
  rw [← patch_patch (by omega), hs]
  funext j
  by_cases hji : j = i
  . have hsame : entryLoc (patch 0 (patch 0 hdr (i * 4) ((writeIntBe loc).drop 1)) (i * 4 + 3)
        [UInt8.ofNat size]) i = loc := by
      have hfirst := @entryLoc_patch_loc hdr hlen i loc hloc
      unfold entryLoc at hfirst ⊢
      rw [slice_patch_of_before (by omega) (by omega), hfirst]
    rw [hji, Function.update_self, layout_eq_some, hsame, entrySize_patch_size hlen' hsize]
    exact ⟨by omega, rfl, rfl⟩
  . rw [Function.update_of_ne hji, layout_patch_of_ne hlen' hji (by omega) (by simp)]
    apply layout_patch_of_ne hlen hji
    . omega
    . omega

end Entry

theorem layout_congr {data data' : Bytes} (h : data.take 4096 = data'.take 4096)
    : layout data = layout data' := by
  have hslice : ∀ i n, i + n ≤ 4096 → slice data i n = slice data' i n := by
    intro i n hin
    rw [← slice_take hin, h, slice_take hin]
  have hget : ∀ i, i < 4096 → data[i]? = data'[i]? := by
    intro i hi
    have : (data.take 4096)[i]? = (data'.take 4096)[i]? := by rw [h]
    rw [List.getElem?_take, List.getElem?_take, if_pos hi, if_pos hi] at this
    exact this
  funext i
  have hi := i.isLt
  unfold layout entryLoc entrySize
  rw [hslice _ _ (by omega), List.getD_eq_getElem?_getD, hget _ (by omega),
    ← List.getD_eq_getElem?_getD]

section Record

theorem and_4095 (n : Nat) : n &&& 4095 = n % 4096 :=
  Nat.and_two_pow_sub_one_eq_mod n 12

/--
The sectors a chunk is stored in.
-/
def record (data : Bytes) : Bytes :=
  writeIntBe (data.length + 1) ++ [2] ++ data ++ List.replicate (pad (data.length + 5)) 0

def sectors (data : Bytes) : Nat :=
  (pad (data.length + 5) + (data.length + 5)) >>> 12

theorem length_record (data : Bytes) : (record data).length = 4096 * sectors data := by
  unfold record sectors pad
  simp only [List.length_append, length_writeIntBe, List.length_singleton, List.length_replicate,
    and_4095, Nat.shiftRight_eq_div_pow]
  split
  . omega
  . omega

theorem sectors_pos (data : Bytes) : 1 ≤ sectors data := by
  have h := length_record data
  unfold record at h
  simp only [List.length_append, length_writeIntBe, List.length_singleton] at h
  omega

theorem sectors_lt {data : Bytes} (h : data.length + 5 ≤ 255 * 4096) : sectors data < 256 := by
  unfold sectors pad
  simp only [and_4095, Nat.shiftRight_eq_div_pow]
  split
  . omega
  . omega

end Record

end AnvilWorldProvider

end HCraft
