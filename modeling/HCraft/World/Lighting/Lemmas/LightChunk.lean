import HCraft.Lib.Loop
import HCraft.World.Chunk.Lemmas.Independent
import HCraft.World.Lighting.LightChunk
import Mathlib.Algebra.BigOperators.Intervals

/-!
This module contains the sky light that `light_chunk` leaves in a chunk, and that it changes nothing
else.
-/

namespace HCraft

namespace Chunk

/--
The opacity of a block; one that is not known has none.
-/
def opacityAt (ch : Chunk) (x : Fin 16) (y : Nat) (z : Fin 16) : Nat :=
  if hy : y < 256 then
    match BlockInfo.fromId (ch.getId x ⟨y, hy⟩ z) with
    | some binf => binf.opacity
    | none => 0
  else
    0

/--
The light that comes down a column as far as `y`.
-/
def columnLight (ch : Chunk) (x : Fin 16) (y : Fin 256) (z : Fin 16) : Nat :=
  if y.val < ch.getHeight x z then
    0
  else if y = 255 then
    15
  else
    15 - ∑ y' ∈ Finset.Icc y.val 254, ch.opacityAt x y' z

/--
The chunks differ in nothing but the sky light.
-/
structure SameBlocks (ch' ch : Chunk) : Prop where
  pos : ch'.pos = ch.pos
  biomes : ch'.biomes = ch.biomes
  hmap : ch'.hmap = ch.hmap
  read : ∀ x y z a, a ≠ .skyLight → ch'.read x y z a = ch.read x y z a

namespace SameBlocks

variable {ch ch' ch'' : Chunk}

theorem refl (ch : Chunk) : ch.SameBlocks ch where
  pos := rfl
  biomes := rfl
  hmap := rfl
  read _ _ _ _ _ := rfl

theorem trans (h' : ch''.SameBlocks ch') (h : ch'.SameBlocks ch) : ch''.SameBlocks ch where
  pos := h'.pos.trans h.pos
  biomes := h'.biomes.trans h.biomes
  hmap := h'.hmap.trans h.hmap
  read x y z a ha := (h'.read x y z a ha).trans (h.read x y z a ha)

theorem getId (h : ch'.SameBlocks ch) (x : Fin 16) (y : Fin 256) (z : Fin 16)
    : ch'.getId x y z = ch.getId x y z :=
  UInt16.toNat_inj.mp (h.read x y z .id (by decide))

theorem getHeight (h : ch'.SameBlocks ch) (x z : Fin 16) : ch'.getHeight x z = ch.getHeight x z := by
  unfold Chunk.getHeight
  rw [h.hmap]

theorem opacityAt (h : ch'.SameBlocks ch) (x : Fin 16) (y : Nat) (z : Fin 16)
    : ch'.opacityAt x y z = ch.opacityAt x y z := by
  unfold Chunk.opacityAt
  simp only [h.getId]

theorem columnLight (h : ch'.SameBlocks ch) (x : Fin 16) (y : Fin 256) (z : Fin 16)
    : ch'.columnLight x y z = ch.columnLight x y z := by
  unfold Chunk.columnLight
  simp only [h.getHeight, h.opacityAt]

theorem setSkyLight {x z : Fin 16} {y : Fin 256} {sl : UInt8} (hsl : sl.toNat < 16)
    : (ch.setSkyLight x y z sl).SameBlocks ch where
  pos := rfl
  biomes := rfl
  hmap := rfl
  read x' y' z' a ha := by
    have hcall := @read_call ch (.setSkyLight x y z sl) hsl x' y' z' a
    have hnone : (Op.setSkyLight x y z sl).written a = none := by
      cases a with
      | skyLight => exact absurd rfl ha
      | _ => rfl
    rw [hnone] at hcall
    exact hcall.trans (ite_self _)

end SameBlocks

section Column

variable {x x' z z' : Fin 16} {y' : Fin 256}

theorem toNat_ofNat_light {sl : Nat} (h : sl < 16) : (UInt8.ofNat sl).toNat = sl := by
  rw [UInt8.toNat_ofNat']
  omega

theorem lightAbove_succ {ch : Chunk} {h : Int} {y : Nat} (hy : y + 1 ≤ 256) (hle : h ≤ y) (sl : Nat)
    : ch.lightAbove x z h (y + 1) hy sl
        =
      (ch.setSkyLight x ⟨y, hy⟩ z (UInt8.ofNat (sl - ch.opacityAt x y z))).lightAbove x z h y
        (Nat.le_of_succ_le hy) (sl - ch.opacityAt x y z) := by
  have hopacity : ch.opacityAt x y z = match BlockInfo.fromId (ch.getId x ⟨y, hy⟩ z) with
      | some binf => binf.opacity
      | none => 0 := dif_pos hy
  rw [lightAbove, if_pos hle, hopacity]
  cases BlockInfo.fromId (ch.getId x ⟨y, hy⟩ z) with
  | none => rfl
  | some binf => rfl

theorem sameBlocks_lightAbove {h : Int} (y : Nat) (hy : y ≤ 256) (ch : Chunk) {sl : Nat}
    (hsl : sl < 16) : (ch.lightAbove x z h y hy sl).SameBlocks ch := by
  induction y generalizing ch sl with
  | zero => exact .refl ch
  | succ y ih =>
    by_cases hle : h ≤ y
    . have hsl' : sl - ch.opacityAt x y z < 16 := by omega
      rw [lightAbove_succ hy hle]
      apply (ih _ _ hsl').trans
      apply SameBlocks.setSkyLight
      rw [toNat_ofNat_light hsl']
      exact hsl'
    . rw [lightAbove, if_neg hle]
      exact .refl ch

theorem sameBlocks_lightBelow (y : Nat) (hy : y ≤ 256) (ch : Chunk)
    : (ch.lightBelow x z y hy).SameBlocks ch := by
  induction y generalizing ch with
  | zero => exact .refl ch
  | succ y ih =>
    unfold lightBelow
    apply (ih _ _).trans
    apply SameBlocks.setSkyLight
    decide

theorem skyLight_lightAbove {h : Int} (y : Nat) (hy : y ≤ 256) (ch : Chunk) {sl : Nat} (hsl : sl < 16)
    : (ch.lightAbove x z h y hy sl).skyLight x' y' z'
        =
      if x' = x ∧ z' = z ∧ h ≤ y'.val ∧ y'.val < y then
        sl - ∑ i ∈ Finset.Ico y'.val y, ch.opacityAt x i z
      else
        ch.skyLight x' y' z' := by
  induction y generalizing ch sl with
  | zero =>
    rw [if_neg (by omega)]
    rfl
  | succ y ih =>
    by_cases hle : h ≤ y
    . have hsl' : sl - ch.opacityAt x y z < 16 := by omega
      have hval : (UInt8.ofNat (sl - ch.opacityAt x y z)).toNat = sl - ch.opacityAt x y z :=
        toNat_ofNat_light hsl'
      have hsame : (ch.setSkyLight x ⟨y, hy⟩ z (UInt8.ofNat (sl - ch.opacityAt x y z))).SameBlocks ch :=
        .setSkyLight (by rw [hval]; exact hsl')
      rw [lightAbove_succ hy hle, ih _ _ hsl', skyLight_setSkyLight (by rw [hval]; exact hsl'), hval]
      simp only [hsame.opacityAt]
      by_cases hcolumn : x' = x ∧ z' = z
      . rcases hcolumn with ⟨rfl, rfl⟩
        rcases Nat.lt_trichotomy y'.val y with hlt | heq | hgt
        . by_cases hh : h ≤ y'.val
          . rw [if_pos ⟨rfl, rfl, hh, hlt⟩, if_pos ⟨rfl, rfl, hh, by omega⟩,
              Finset.sum_Ico_succ_top (Nat.le_of_lt hlt)]
            omega
          . have hne : ¬ (x' = x' ∧ y' = ⟨y, hy⟩ ∧ z' = z') := by
              rintro ⟨_, rfl, _⟩
              exact Nat.lt_irrefl _ hlt
            rw [if_neg (by tauto), if_neg hne, if_neg (by tauto)]
        . have hy' : y' = ⟨y, hy⟩ := Fin.ext heq
          subst hy'
          rw [if_neg (by simp), if_pos ⟨rfl, rfl, rfl⟩,
            if_pos ⟨rfl, rfl, hle, Nat.lt_succ_self _⟩]
          dsimp only
          rw [Finset.sum_Ico_succ_top (Nat.le_refl _), Finset.Ico_self, Finset.sum_empty, Nat.zero_add]
        . have hne : ¬ (x' = x' ∧ y' = ⟨y, hy⟩ ∧ z' = z') := by
            rintro ⟨_, rfl, _⟩
            exact Nat.lt_irrefl _ hgt
          rw [if_neg (by omega), if_neg hne, if_neg (by omega)]
      . rw [if_neg (by tauto), if_neg (by tauto), if_neg (by tauto)]
    . rw [lightAbove, if_neg hle, if_neg (by omega)]

theorem skyLight_lightBelow (y : Nat) (hy : y ≤ 256) (ch : Chunk)
    : (ch.lightBelow x z y hy).skyLight x' y' z'
        =
      if x' = x ∧ z' = z ∧ y'.val < y then 0 else ch.skyLight x' y' z' := by
  induction y generalizing ch with
  | zero =>
    rw [if_neg (by omega)]
    rfl
  | succ y ih =>
    unfold lightBelow
    rw [ih, skyLight_setSkyLight (by decide)]
    by_cases heq : x' = x ∧ y' = ⟨y, hy⟩ ∧ z' = z
    . rcases heq with ⟨rfl, rfl, rfl⟩
      rw [if_neg (by simp), if_pos ⟨rfl, rfl, rfl⟩, if_pos ⟨rfl, rfl, Nat.lt_succ_self _⟩]
      rfl
    . have hval : x' = x → z' = z → y'.val ≠ y := by
        rintro hx hz rfl
        exact heq ⟨hx, rfl, hz⟩
      rw [if_neg heq]
      congr 1
      rw [eq_iff_iff]
      constructor
      . rintro ⟨hx, hz, hlt⟩
        exact ⟨hx, hz, Nat.lt_succ_of_lt hlt⟩
      . rintro ⟨hx, hz, hlt⟩
        exact ⟨hx, hz, Nat.lt_of_le_of_ne (Nat.le_of_lt_succ hlt) (hval hx hz)⟩

end Column

section Spec

variable {ch : Chunk} {x x' z z' : Fin 16} {y' : Fin 256}

theorem sameBlocks_lightColumn : (ch.lightColumn x z).SameBlocks ch := by
  unfold lightColumn
  dsimp only
  apply (sameBlocks_lightBelow _ _ _).trans
  apply (sameBlocks_lightAbove _ _ _ (by omega)).trans
  exact .setSkyLight (by decide)

theorem skyLight_lightColumn (h : 0 ≤ ch.getHeight x z ∧ ch.getHeight x z ≤ 256)
    : (ch.lightColumn x z).skyLight x' y' z'
        =
      if x' = x ∧ z' = z then ch.columnLight x y' z else ch.skyLight x' y' z' := by
  have hsame : (ch.setSkyLight x 255 z 15).SameBlocks ch := .setSkyLight (by decide)
  unfold lightColumn
  dsimp only
  rw [skyLight_lightBelow, skyLight_lightAbove _ _ _ (by omega), skyLight_setSkyLight (by decide)]
  simp only [hsame.getHeight, hsame.opacityAt]
  by_cases hcolumn : x' = x ∧ z' = z
  . rcases hcolumn with ⟨rfl, rfl⟩
    rw [if_pos (c := x' = x' ∧ z' = z') ⟨rfl, rfl⟩]
    unfold columnLight
    by_cases hbelow : (y'.val : Int) < ch.getHeight x' z'
    . rw [if_pos ⟨rfl, rfl, by omega⟩, if_pos hbelow]
    . rw [if_neg (by omega), if_neg hbelow]
      by_cases htop : y' = 255
      . subst htop
        rw [if_neg (by simp), if_pos ⟨rfl, rfl, rfl⟩, if_pos rfl]
        rfl
      . have hlt : y'.val < 255 := by
          have hne : y'.val ≠ (255 : Fin 256).val := fun heq => htop (Fin.ext heq)
          have hmax : (255 : Fin 256).val = 255 := rfl
          omega
        rw [if_pos ⟨rfl, rfl, by omega, hlt⟩, if_neg htop]
        rfl
  . rw [if_neg (by tauto), if_neg (by tauto), if_neg (by tauto), if_neg hcolumn]

/--
The column has its light.
-/
def Lit (ch : Chunk) (x z : Fin 16) (c : Chunk) : Prop :=
  ∀ y, c.skyLight x y z = ch.columnLight x y z

def HeightsInRange (ch : Chunk) : Prop :=
  ∀ x z, 0 ≤ ch.getHeight x z ∧ ch.getHeight x z ≤ 256

theorem lit_lightColumn {c : Chunk} (h : ch.HeightsInRange) (hc : c.SameBlocks ch)
    : ch.Lit x z (c.lightColumn x z) := by
  intro y
  rw [skyLight_lightColumn (by rw [hc.getHeight]; exact h x z), if_pos ⟨rfl, rfl⟩, hc.columnLight]

theorem Lit.lightColumn {c : Chunk} (h : ch.HeightsInRange) (hc : c.SameBlocks ch)
    (hlit : ch.Lit x' z' c) : ch.Lit x' z' (c.lightColumn x z) := by
  intro y
  rw [skyLight_lightColumn (by rw [hc.getHeight]; exact h x z), hlit]
  split
  . next heq => rw [hc.columnLight, heq.left, heq.right]
  . rfl

/--
The two loops as one over all columns.
-/
theorem lightChunk_eq (ch : Chunk)
    : ch.lightChunk
        =
      (List.finRange 16 ×ˢ List.finRange 16).foldl (fun c p => c.lightColumn p.1 p.2) ch := by
  unfold lightChunk
  simp only [SProd.sprod, List.product, List.foldl_flatMap, List.foldl_map]

theorem sameBlocks_lightChunk (ch : Chunk) : ch.lightChunk.SameBlocks ch := by
  rw [lightChunk_eq]
  apply List.foldlRecOn (motive := fun c : Chunk => c.SameBlocks ch)
  . exact .refl ch
  . intro c hc p _
    exact sameBlocks_lightColumn.trans hc

theorem pos_lightChunk (ch : Chunk) : ch.lightChunk.pos = ch.pos :=
  (sameBlocks_lightChunk ch).pos

theorem getId_lightChunk (ch : Chunk) : ch.lightChunk.getId x y' z = ch.getId x y' z :=
  (sameBlocks_lightChunk ch).getId x y' z

theorem lit_foldl (h : ch.HeightsInRange) (ps : List (Fin 16 × Fin 16))
    : (ps.foldl (fun c p => c.lightColumn p.1 p.2) ch).SameBlocks ch
        ∧ ∀ p ∈ ps, ch.Lit p.1 p.2 (ps.foldl (fun c p => c.lightColumn p.1 p.2) ch) := by
  refine Loop.foldl_established (g := fun c p => c.lightColumn p.1 p.2)
    (I := fun c => c.SameBlocks ch) (Q := fun p => ch.Lit p.1 p.2) (s := ch) ?_ ?_ ?_ ?_ ps
  . intro c p hc
    exact sameBlocks_lightColumn.trans hc
  . intro c p hc
    exact lit_lightColumn h hc
  . intro c p q hc hlit
    exact hlit.lightColumn h hc
  . exact .refl ch

theorem skyLight_lightChunk (h : ch.HeightsInRange) (x : Fin 16) (y : Fin 256) (z : Fin 16)
    : ch.lightChunk.skyLight x y z = ch.columnLight x y z := by
  have hmem : (x, z) ∈ List.finRange 16 ×ˢ List.finRange 16 :=
    List.pair_mem_product.mpr ⟨List.mem_finRange x, List.mem_finRange z⟩
  rw [lightChunk_eq]
  generalize List.finRange 16 ×ˢ List.finRange 16 = ps at hmem
  exact (lit_foldl h ps).right (x, z) hmem y

/--
Every block gets the light that comes down its column, and nothing else changes.
-/
theorem lightChunk_spec (h : ch.HeightsInRange)
    : (∀ x y z, ch.lightChunk.read x y z .skyLight
          = if y.val < ch.getHeight x z then
              0
            else if y = 255 then
              15
            else
              15 - ∑ y' ∈ Finset.Icc y.val 254, ch.opacityAt x y' z)
        ∧ (∀ x y z a, a ≠ .skyLight → ch.lightChunk.read x y z a = ch.read x y z a)
        ∧ ch.lightChunk.biomes = ch.biomes ∧ ch.lightChunk.hmap = ch.hmap := by
  have hsame := sameBlocks_lightChunk ch
  exact ⟨skyLight_lightChunk h, hsame.read, hsame.biomes, hsame.hmap⟩

/--
Water over stone.
-/
def pool : Chunk :=
  ((new 0 0).setId 0 3 0 1).setId 0 10 0 8

theorem heightsInRange_pool : pool.HeightsInRange := by
  unfold HeightsInRange
  decide +kernel

theorem lightChunk_spec_pool
    : (∀ x y z, pool.lightChunk.read x y z .skyLight
          = if y.val < pool.getHeight x z then
              0
            else if y = 255 then
              15
            else
              15 - ∑ y' ∈ Finset.Icc y.val 254, pool.opacityAt x y' z)
        ∧ (∀ x y z a, a ≠ .skyLight → pool.lightChunk.read x y z a = pool.read x y z a)
        ∧ pool.lightChunk.biomes = pool.biomes
        ∧ pool.lightChunk.hmap = pool.hmap :=
  lightChunk_spec heightsInRange_pool

example : pool.lightChunk.skyLight 0 10 0 = 12 ∧ pool.lightChunk.skyLight 0 3 0 = 0 := by
  rw [skyLight_lightChunk heightsInRange_pool, skyLight_lightChunk heightsInRange_pool]
  decide +kernel

end Spec

end Chunk

end HCraft
