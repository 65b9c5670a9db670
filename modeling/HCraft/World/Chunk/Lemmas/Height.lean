import HCraft.Lib.Transition
import HCraft.World.Chunk.Lemmas.Cells

/-!
This module contains the correctness of the heightmap of a chunk.
-/

namespace HCraft

namespace Chunk

open BlockInfo (blocksSky blocksSky_zero)

/--
`h` is one more than the `y` of the topmost block that ends the column, or zero.
-/
def Top (ch : Chunk) (x z : Fin 16) (h : Int) : Prop :=
  (∃ y : Fin 256, blocksSky (ch.getId x y z) = true
    ∧ (∀ y', blocksSky (ch.getId x y' z) = true → y' ≤ y) ∧ h = y.val + 1)
  ∨ (∀ y, blocksSky (ch.getId x y z) = false) ∧ h = 0

def HeightmapOk (ch : Chunk) : Prop :=
  ∀ x z, ch.Top x z (ch.getHeight x z)

section Top

variable {ch : Chunk} {x z : Fin 16} {h : Int}

theorem Top.nonneg (htop : ch.Top x z h) : 0 ≤ h := by
  cases htop with
  | inl hsome =>
    obtain ⟨y, _, _, hy⟩ := hsome
    omega
  | inr hnone => omega

theorem Top.above (htop : ch.Top x z h) {y : Fin 256} (hy : h ≤ y.val)
    : blocksSky (ch.getId x y z) = false := by
  cases htop with
  | inl hsome =>
    obtain ⟨y', _, hmax, heq⟩ := hsome
    cases hb : blocksSky (ch.getId x y z) with
    | false => rfl
    | true =>
      have := hmax y hb
      omega
  | inr hnone => exact hnone.left y

/--
A height is right where nothing above it ends the column, and what is right below it does.
-/
theorem Top.of_above
    (habove : ∀ y : Fin 256, h ≤ y.val → blocksSky (ch.getId x y z) = false)
    (htop : h ≠ 0 → ∃ y : Fin 256, h = y.val + 1 ∧ blocksSky (ch.getId x y z) = true)
    : ch.Top x z h := by
  by_cases hzero : h = 0
  . right
    exact ⟨fun y => habove y (by omega), hzero⟩
  . left
    obtain ⟨y, hy, hb⟩ := htop hzero
    refine ⟨y, hb, ?_, hy⟩
    intro y' hb'
    by_contra hlt
    have := habove y' (by omega)
    rw [this] at hb'
    nomatch hb'

theorem Top.congr {ch' : Chunk} (hids : ∀ y, ch'.getId x y z = ch.getId x y z)
    (htop : ch.Top x z h) : ch'.Top x z h := by
  unfold Top
  simp only [hids]
  exact htop

theorem top_findHeight {top : Nat} {htop : top ≤ 256}
    (habove : ∀ y : Fin 256, top ≤ y.val → blocksSky (ch.getId x y z) = false)
    : ch.Top x z (ch.findHeight x z top htop) := by
  induction top with
  | zero =>
    right
    exact ⟨fun y => habove y (Nat.zero_le _), rfl⟩
  | succ top ih =>
    unfold findHeight
    split
    . next hb =>
      apply Top.of_above
      . intro y hy
        exact habove y (by omega)
      . intro _
        exact ⟨⟨top, htop⟩, rfl, hb⟩
    . next hb =>
      apply ih
      intro y hy
      by_cases heq : y.val = top
      . have : y = ⟨top, htop⟩ := Fin.ext heq
        rw [this]
        simpa using hb
      . exact habove y (by omega)

end Top

section UpdateHeight

variable {ch : Chunk} {x x' z z' : Fin 16} {y : Fin 256}

theorem getHeight_setHeight {h : Int}
    : (ch.setHeight x z h).getHeight x' z' = if x' = x ∧ z' = z then h else ch.getHeight x' z' := by
  unfold setHeight getHeight
  dsimp only
  split
  . next heq => rw [heq.left, heq.right, Function.update_self]
  . next hne =>
    rw [Function.update_of_ne]
    rw [ne_eq, hind_inj]
    exact hne

theorem getId_updateHeight {y' : Fin 256} {id : UInt16}
    : (ch.updateHeight x y z id).getId x' y' z' = ch.getId x' y' z' := by
  unfold updateHeight recalcHeightAt
  split
  . split
    . exact getId_setHeight
    . rfl
  . split
    . exact getId_setHeight
    . rfl

theorem pos_updateHeight {id : UInt16} : (ch.updateHeight x y z id).pos = ch.pos := by
  unfold updateHeight
  split
  . split
    . rfl
    . rfl
  . split
    . rfl
    . rfl

theorem pos_setId {id : UInt16} : (ch.setId x y z id).pos = ch.pos :=
  pos_updateHeight

theorem pos_setIdAndMeta {id : UInt16} {val : UInt8}
    : (ch.setIdAndMeta x y z id val).pos = ch.pos :=
  pos_updateHeight

theorem getId_setId {y' : Fin 256} {id : UInt16} (hid : id.toNat < 4096)
    : (ch.setId x y z id).getId x' y' z'
        =
      if x' = x ∧ y' = y ∧ z' = z then id else ch.getId x' y' z' := by
  unfold setId
  rw [getId_updateHeight]
  exact getId_setType (fun t => setId_shiftRight hid)

theorem getHeight_updateHeight_of_ne {id : UInt16} (h : ¬ (x' = x ∧ z' = z))
    : (ch.updateHeight x y z id).getHeight x' z' = ch.getHeight x' z' := by
  unfold updateHeight recalcHeightAt
  split
  . split
    . rw [getHeight_setHeight, if_neg h]
    . rfl
  . split
    . rw [getHeight_setHeight, if_neg h]
    . rfl

/--
The height that was right before one block became `id` is updated to the one that is right now.
-/
theorem top_updateHeight {h : Int} {id : UInt16} {old : Chunk} (htop : old.Top x z h)
    (hheight : ch.getHeight x z = h)
    (hids : ∀ y', ch.getId x y' z = if y' = y then id else old.getId x y' z)
    : ch.Top x z ((ch.updateHeight x y z id).getHeight x z) := by
  have hself : ch.getId x y z = id := by
    rw [hids, if_pos rfl]
  have habove : ∀ y' : Fin 256, y' ≠ y → h ≤ y'.val → blocksSky (ch.getId x y' z) = false := by
    intro y' hne hle
    rw [hids, if_neg hne]
    exact htop.above hle
  unfold updateHeight recalcHeightAt
  rw [hheight]
  split
  . next hb =>
    split
    . next hle =>
      -- the new block is above all others
      rw [getHeight_setHeight, if_pos ⟨rfl, rfl⟩]
      apply Top.of_above
      . intro y' hy'
        exact habove y' (by omega) (by omega)
      . intro _
        exact ⟨y, rfl, hself ▸ hb⟩
    . next hlt =>
      rw [hheight]
      apply Top.of_above
      . intro y' hy'
        exact habove y' (by omega) hy'
      . intro hzero
        by_cases hy : h = y.val + 1
        . exact ⟨y, hy, hself ▸ hb⟩
        . cases htop with
          | inl hsome =>
            obtain ⟨y', hb', _, heq⟩ := hsome
            refine ⟨y', heq, ?_⟩
            rw [hids, if_neg (by omega)]
            exact hb'
          | inr hnone => omega
  . next hb =>
    have hfree : blocksSky (ch.getId x y z) = false := by
      rw [hself]
      simpa using hb
    split
    . next heq =>
      -- the block was the topmost one
      rw [getHeight_setHeight, if_pos ⟨rfl, rfl⟩]
      apply top_findHeight
      intro y' hy'
      by_cases hy : y' = y
      . rw [hy]
        exact hfree
      . exact habove y' hy (by omega)
    . next hne =>
      rw [hheight]
      apply Top.of_above
      . intro y' hy'
        by_cases hy : y' = y
        . rw [hy]
          exact hfree
        . exact habove y' hy hy'
      . intro hzero
        cases htop with
        | inl hsome =>
          obtain ⟨y', hb', _, heq⟩ := hsome
          refine ⟨y', heq, ?_⟩
          rw [hids, if_neg (by omega)]
          exact hb'
        | inr hnone => omega

theorem HeightmapOk.updateHeight {id : UInt16} {old : Chunk} (hok : old.HeightmapOk)
    (hhmap : ch.hmap = old.hmap)
    (hids : ∀ x' y' z', ch.getId x' y' z'
      = if x' = x ∧ y' = y ∧ z' = z then id else old.getId x' y' z')
    : (ch.updateHeight x y z id).HeightmapOk := by
  have hheight : ∀ x z, ch.getHeight x z = old.getHeight x z := by
    intro x z
    unfold getHeight
    rw [hhmap]
  intro x' z'
  by_cases hcolumn : x' = x ∧ z' = z
  . rw [hcolumn.left, hcolumn.right]
    apply Top.congr (fun y' => getId_updateHeight)
    apply top_updateHeight (hok x z) (hheight x z)
    intro y'
    rw [hids]
    simp
  . rw [getHeight_updateHeight_of_ne hcolumn, hheight]
    apply Top.congr _ (hok x' z')
    intro y'
    rw [getId_updateHeight, hids, if_neg]
    intro h
    exact hcolumn ⟨h.left, h.right.right⟩

theorem HeightmapOk.congr {ch' : Chunk} (hok : ch.HeightmapOk) (hhmap : ch'.hmap = ch.hmap)
    (hids : ∀ x y z, ch'.getId x y z = ch.getId x y z) : ch'.HeightmapOk := by
  intro x z
  have hheight : ch'.getHeight x z = ch.getHeight x z := by
    unfold getHeight
    rw [hhmap]
  rw [hheight]
  exact Top.congr (fun y => hids x y z) (hok x z)

end UpdateHeight

inductive Op where
  | setId (x : Fin 16) (y : Fin 256) (z : Fin 16) (id : UInt16)
  | setIdAndMeta (x : Fin 16) (y : Fin 256) (z : Fin 16) (id : UInt16) (val : UInt8)
  | setMeta (x : Fin 16) (y : Fin 256) (z : Fin 16) (val : UInt8)
  | setSkyLight (x : Fin 16) (y : Fin 256) (z : Fin 16) (sl : UInt8)
  | setBlockLight (x : Fin 16) (y : Fin 256) (z : Fin 16) (bl : UInt8)
  | getId (x : Fin 16) (y : Fin 256) (z : Fin 16)
  | getMeta (x : Fin 16) (y : Fin 256) (z : Fin 16)
  | getSkyLight (x : Fin 16) (y : Fin 256) (z : Fin 16)
  | getBlockLight (x : Fin 16) (y : Fin 256) (z : Fin 16)

def Op.Valid : Op → Prop
  | setId _ _ _ id => id.toNat < 4096
  | setIdAndMeta _ _ _ id val => id.toNat < 4096 ∧ val.toNat < 16
  | setMeta _ _ _ val => val.toNat < 16
  | setSkyLight _ _ _ sl => sl.toNat < 16
  | setBlockLight _ _ _ bl => bl.toNat < 16
  | _ => True

/--
The chunk behind a call.
-/
def call (ch : Chunk) : Op → Chunk
  | .setId x y z id => ch.setId x y z id
  | .setIdAndMeta x y z id val => ch.setIdAndMeta x y z id val
  | .setMeta x y z val => ch.setMeta x y z val
  | .setSkyLight x y z sl => ch.setSkyLight x y z sl
  | .setBlockLight x y z bl => ch.setBlockLight x y z bl
  | .getId _ _ _ => ch
  | .getMeta x y z => (ch.getMeta x y z).snd
  | .getSkyLight x y z => (ch.getSkyLight x y z).snd
  | .getBlockLight x y z => (ch.getBlockLight x y z).snd

def step (ch : Chunk) (op : Op) : Option Chunk :=
  some (ch.call op)

theorem heightmapOk_new (cx cz : Int) : (new cx cz).HeightmapOk := by
  intro x z
  right
  exact ⟨fun y => blocksSky_zero, rfl⟩

theorem HeightmapOk.call {ch : Chunk} (hok : ch.HeightmapOk) {op : Op} (hop : op.Valid)
    : (ch.call op).HeightmapOk := by
  cases op with
  | setId x y z id =>
    apply hok.updateHeight
    . rfl
    . intro x' y' z'
      exact getId_setType (fun t => setId_shiftRight hop)
  | setIdAndMeta x y z id val =>
    apply hok.updateHeight
    . rfl
    . intro x' y' z'
      apply getId_setType
      intro t
      apply pack_shiftRight hop.left
      rw [UInt8.toNat_toUInt16]
      exact hop.right
  | setMeta x y z val =>
    apply hok.congr
    . rfl
    . intro x' y' z'
      exact getId_setMeta hop
  | setSkyLight x y z sl | setBlockLight x y z bl =>
    apply hok.congr
    . rfl
    . intro x' y' z'
      apply getId_setSub
      rfl
  | getId x y z => exact hok
  | getMeta x y z | getSkyLight x y z | getBlockLight x y z =>
    apply hok.congr
    . rfl
    . intro x' y' z'
      apply getId_setSub
      rfl

theorem HeightmapOk.calls {ch : Chunk} (hok : ch.HeightmapOk) {ops : List Op}
    (hops : ∀ op ∈ ops, op.Valid) : (ops.foldl Chunk.call ch).HeightmapOk := by
  induction ops generalizing ch with
  | nil => exact hok
  | cons op ops ih =>
    have hcall := hok.call (hops op List.mem_cons_self)
    exact ih hcall (fun op' hop' => hops op' (List.mem_cons_of_mem _ hop'))

/--
The heightmap is right throughout any run of calls.
-/
theorem always_heightmapOk (cx cz : Int) {ops : List Op} (hops : ∀ op ∈ ops, op.Valid)
    : Transition.Always step HeightmapOk (new cx cz) ops := by
  apply Transition.always_of_eachStep (R := fun _ op => op.Valid)
  . intro ch op ch' hok hop hstep
    rw [← Option.some.inj hstep]
    exact hok.call hop
  . exact heightmapOk_new cx cz
  . apply Transition.EachStep.of_forall
    intro ch op hop
    exact hops op hop

theorem always_heightmapOk_stone
    : Transition.Always step HeightmapOk (new 0 0) [.setId 0 64 0 1, .setId 0 64 0 0] :=
  always_heightmapOk 0 0 (by simp [Op.Valid])

end Chunk

end HCraft
