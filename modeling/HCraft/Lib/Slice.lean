import Mathlib.Data.List.GetD

/-!
This module contains reads and writes in the middle of a list, as of a file or a block of memory.
-/

universe u v

namespace Slice

variable {α : Type u}

def slice (xs : List α) (pos len : Nat) : List α :=
  (xs.drop pos).take len

/--
`xs` with `ys` written over it from `pos` on. A hole between the end of `xs` and `pos` is filled.
-/
def patch (fill : α) (xs : List α) (pos : Nat) (ys : List α) : List α :=
  (xs.rightpad pos fill).take pos ++ ys ++ xs.drop (pos + ys.length)

theorem length_slice (xs : List α) (pos len : Nat)
    : (slice xs pos len).length = min len (xs.length - pos) := by
  simp [slice]

theorem length_slice_of_le {xs : List α} {pos len : Nat} (h : pos + len ≤ xs.length)
    : (slice xs pos len).length = len := by
  rw [length_slice]
  omega

theorem slice_append_left {xs ys : List α} {pos len : Nat} (h : pos + len ≤ xs.length)
    : slice (xs ++ ys) pos len = slice xs pos len := by
  unfold slice
  rw [List.drop_append_of_le_length (by omega), List.take_append_of_le_length]
  rw [List.length_drop]
  omega

theorem slice_slice {xs : List α} {pos len i n : Nat} (h : i + n ≤ len)
    : slice (slice xs pos len) i n = slice xs (pos + i) n := by
  unfold slice
  rw [List.drop_take, List.take_take, List.drop_drop]
  congr 1
  omega

theorem slice_take {xs : List α} {len i n : Nat} (h : i + n ≤ len)
    : slice (xs.take len) i n = slice xs i n := by
  have := @slice_slice _ xs 0 len i n h
  simpa [slice] using this

theorem slice_append_add (xs ys : List α) (pos len : Nat)
    : slice (xs ++ ys) (xs.length + pos) len = slice ys pos len := by
  unfold slice
  rw [← List.drop_drop, List.drop_left]

theorem getD_slice {xs : List α} {pos len i : Nat} (h : i < len) (d : α)
    : (slice xs pos len).getD i d = xs.getD (pos + i) d := by
  unfold slice
  rw [List.getD_eq_getElem?_getD, List.getD_eq_getElem?_getD, List.getElem?_take, if_pos h,
    List.getElem?_drop]

section Patch

variable {fill : α} {xs ys : List α} {pos : Nat}

theorem patch_eq (h : pos ≤ xs.length)
    : patch fill xs pos ys = xs.take pos ++ ys ++ xs.drop (pos + ys.length) := by
  unfold patch List.rightpad
  rw [show pos - xs.length = 0 by omega, List.replicate_zero, List.append_nil]

theorem patch_length (fill : α) (xs ys : List α) : patch fill xs xs.length ys = xs ++ ys := by
  rw [patch_eq (Nat.le_refl _), List.take_length, List.drop_eq_nil_of_le (by omega),
    List.append_nil]

theorem length_patch (h : pos ≤ xs.length)
    : (patch fill xs pos ys).length = max xs.length (pos + ys.length) := by
  rw [patch_eq h]
  simp only [List.length_append, List.length_take, List.length_drop]
  omega

theorem patch_patch (h : pos ≤ xs.length) (zs : List α)
    : patch fill (patch fill xs pos ys) (pos + ys.length) zs = patch fill xs pos (ys ++ zs) := by
  have hlen : (xs.take pos ++ ys).length = pos + ys.length := by
    rw [List.length_append, List.length_take]
    omega
  rw [patch_eq (by rw [length_patch h]; omega), patch_eq h, patch_eq h]
  rw [List.take_left' hlen, List.drop_append, hlen, List.drop_eq_nil_of_le (by omega)]
  rw [List.drop_drop, List.nil_append, List.length_append, List.append_assoc _ ys zs]
  congr 2
  omega

theorem slice_patch (h : pos ≤ xs.length)
    : slice (patch fill xs pos ys) pos ys.length = ys := by
  unfold slice
  rw [patch_eq h, List.append_assoc, List.drop_left' (by rw [List.length_take]; omega)]
  exact List.take_left

theorem slice_patch_of_before {i n : Nat} (h : pos ≤ xs.length) (hi : i + n ≤ pos)
    : slice (patch fill xs pos ys) i n = slice xs i n := by
  rw [patch_eq h, List.append_assoc, slice_append_left (by rw [List.length_take]; omega)]
  exact slice_take hi

theorem slice_patch_of_after {i n : Nat} (h : pos ≤ xs.length) (hi : pos + ys.length ≤ i)
    : slice (patch fill xs pos ys) i n = slice xs i n := by
  have hlen : (xs.take pos ++ ys).length = pos + ys.length := by
    rw [List.length_append, List.length_take]
    omega
  unfold slice
  rw [patch_eq h, List.drop_append, hlen, List.drop_eq_nil_of_le (by omega), List.nil_append,
    List.drop_drop]
  congr 2
  omega

theorem getD_patch_of_before {i : Nat} (h : pos ≤ xs.length) (hi : i < pos) (d : α)
    : (patch fill xs pos ys).getD i d = xs.getD i d := by
  rw [patch_eq h, List.append_assoc, List.getD_append _ _ _ _ (by rw [List.length_take]; omega)]
  rw [List.getD_eq_getElem?_getD, List.getD_eq_getElem?_getD, List.getElem?_take, if_pos hi]

theorem getD_patch_self (h : pos ≤ xs.length) (hpos : 0 < ys.length) (d : α)
    : (patch fill xs pos ys).getD pos d = ys.getD 0 d := by
  have hlen : (xs.take pos).length = pos := by
    rw [List.length_take]
    omega
  rw [patch_eq h, List.append_assoc, List.getD_append_right _ _ _ _ (by omega), hlen, Nat.sub_self]
  rw [List.getD_append _ _ _ _ hpos]

theorem getD_patch_of_after {i : Nat} (h : pos ≤ xs.length) (hi : pos + ys.length ≤ i) (d : α)
    : (patch fill xs pos ys).getD i d = xs.getD i d := by
  have hlen : (xs.take pos ++ ys).length = pos + ys.length := by
    rw [List.length_append, List.length_take]
    omega
  rw [patch_eq h, List.getD_append_right _ _ _ _ (by omega), hlen]
  rw [List.getD_eq_getElem?_getD, List.getD_eq_getElem?_getD, List.getElem?_drop]
  congr 2
  omega

theorem take_patch {len : Nat} (hpos : pos ≤ len) (hlen : len ≤ xs.length)
    : (patch fill xs pos ys).take (max len (pos + ys.length)) = patch fill (xs.take len) pos ys := by
  have hhead : (xs.take pos ++ ys).length = pos + ys.length := by
    rw [List.length_append, List.length_take]
    omega
  rw [patch_eq (by omega), patch_eq (by rw [List.length_take]; omega), List.take_take,
    Nat.min_eq_left hpos, List.take_append, hhead, List.take_of_length_le (by omega), List.drop_take]
  congr 2
  omega

theorem drop_patch {off : Nat} (hpos : off + pos ≤ xs.length)
    : (patch fill xs (off + pos) ys).drop off = patch fill (xs.drop off) pos ys := by
  have htake : (xs.take (off + pos)).drop off = (xs.drop off).take pos := by
    rw [List.drop_take, Nat.add_sub_cancel_left]
  rw [patch_eq hpos, patch_eq (by rw [List.length_drop]; omega), List.append_assoc,
    List.drop_append_of_le_length (by rw [List.length_take]; omega), htake, List.drop_drop,
    List.append_assoc, Nat.add_assoc]

/--
What a write does to a part of the list that it starts in.
-/
theorem slice_patch_within {off len : Nat} (hpos : pos ≤ len) (hlen : off + len ≤ xs.length)
    : slice (patch fill xs (off + pos) ys) off (max len (pos + ys.length))
        =
      patch fill (slice xs off len) pos ys := by
  unfold slice
  rw [drop_patch (by omega), take_patch hpos (by rw [List.length_drop]; omega)]

theorem map_patch {β : Type v} (f : α → β) (fill : α) (xs ys : List α) (pos : Nat)
    : (patch fill xs pos ys).map f = patch (f fill) (xs.map f) pos (ys.map f) := by
  simp [patch, List.rightpad]

end Patch

section FlatMap

variable {β : Type v} {f : β → List α} {n : Nat} {ys : List β}

theorem length_flatMap (h : ∀ y ∈ ys, (f y).length = n)
    : (ys.flatMap f).length = ys.length * n := by
  induction ys with
  | nil => simp
  | cons y ys ih =>
    rw [List.flatMap_cons, List.length_append, h y List.mem_cons_self,
      ih (fun y hy => h y (List.mem_cons_of_mem _ hy)), List.length_cons]
    lia

theorem slice_flatMap (h : ∀ y ∈ ys, (f y).length = n) {k : Nat} {y : β} (hy : ys[k]? = some y)
    : slice (ys.flatMap f) (k * n) n = f y := by
  obtain ⟨hk, hget⟩ := List.getElem?_eq_some_iff.mp hy
  have hsplit : ys = ys.take k ++ y :: ys.drop (k + 1) := by
    rw [← hget, ← List.drop_eq_getElem_cons hk, List.take_append_drop]
  have hbefore : ((ys.take k).flatMap f).length = k * n := by
    rw [length_flatMap (fun y hy => h y (List.mem_of_mem_take hy)), List.length_take_of_le (by omega)]
  have hy := h y (List.mem_of_getElem? hy)
  unfold slice
  rw [hsplit, List.flatMap_append, List.flatMap_cons, List.drop_left' hbefore, List.take_left' hy]

end FlatMap

end Slice
