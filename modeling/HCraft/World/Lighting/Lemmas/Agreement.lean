import HCraft.World.Chunk.Lemmas.Height
import HCraft.World.Lighting.Lemmas.Runs
import HCraft.World.Memory.Lemmas.Load

/-!
This module contains where `light_chunk` and the updates of the lighting manager agree about the blocks
above the heightmap.
-/

namespace HCraft

namespace BlockInfo

theorem mem_blockList {id : UInt16} {binf : BlockInfo} (h : fromId id = some binf)
    : binf ∈ blockList := by
  unfold fromId at h
  split at h
  . cases h
  . next binf' hbinf =>
    split at h
    . cases h
    . injection h with h
      exact h ▸ List.mem_of_getElem? hbinf

theorem opacity_lt_of_fluid {id : UInt16} {binf : BlockInfo} (h : fromId id = some binf)
    (hfluid : binf.state ≠ .solid) : binf.opacity < 15 := by
  have hall : ∀ binf ∈ blockList, binf.state ≠ .solid → binf.opacity < 15 := by decide +kernel
  exact hall binf (mem_blockList h) hfluid

end BlockInfo

namespace Chunk

variable {c : Chunk} {x z : Fin 16} {y : Fin 256}

def isOpaqueAt (c : Chunk) (x : Fin 16) (y : Fin 256) (z : Fin 16) : Bool :=
  match BlockInfo.fromId (c.getId x y z) with
  | some binf => binf.isOpaque
  | none => false

/--
What both ways of lighting make full daylight, or an opaque block in it: none of the blocks above takes
any light, and neither does the block itself where `light_chunk` and `calc_sl` treat it differently.
-/
def Undimmed (c : Chunk) (x : Fin 16) (y : Fin 256) (z : Fin 16) : Prop :=
  if y = 255 then
    c.isOpaqueAt x y z = true → c.opacityAt x y z = 0
  else
    (∀ y' : Fin 256, y < y' → y' ≠ 255 → c.opacityAt x y' z = 0)
      ∧ (c.isOpaqueAt x y z = false → c.opacityAt x y z = 0)

def AllKnown (c : Chunk) : Prop :=
  ∀ x y z, BlockInfo.fromId (c.getId x y z) ≠ none

theorem opacityAt_eq {binf : BlockInfo} (h : BlockInfo.fromId (c.getId x y z) = some binf)
    : c.opacityAt x y z = binf.opacity := by
  unfold opacityAt
  rw [dif_pos y.isLt, h]

theorem isOpaqueAt_eq {binf : BlockInfo} (h : BlockInfo.fromId (c.getId x y z) = some binf)
    : c.isOpaqueAt x y z = binf.isOpaque := by
  unfold isOpaqueAt
  rw [h]

theorem HeightmapOk.heightsInRange (h : c.HeightmapOk) : c.HeightsInRange := by
  intro x z
  refine ⟨(h x z).nonneg, ?_⟩
  cases h x z with
  | inl hsome =>
    obtain ⟨y, _, _, heq⟩ := hsome
    omega
  | inr hnone => omega

/--
An opaque block above the heightmap is a fluid.
-/
theorem HeightmapOk.opacity_lt (h : c.HeightmapOk) (habove : c.getHeight x z ≤ y.val)
    {binf : BlockInfo} (hbinf : BlockInfo.fromId (c.getId x y z) = some binf)
    (hblocks : binf.isOpaque = true) : binf.opacity < 15 := by
  apply BlockInfo.opacity_lt_of_fluid hbinf
  intro hsolid
  have hsky := (h x z).above habove
  have hends := BlockInfo.blocksSky_iff.mpr ⟨binf, hbinf, hblocks, hsolid⟩
  rw [hsky] at hends
  cases hends

theorem val_lt_of_ne {y : Fin 256} (h : y ≠ 255) : y.val < 255 := by
  have hne : y.val ≠ (255 : Fin 256).val := fun heq => h (Fin.ext heq)
  have hmax : (255 : Fin 256).val = 255 := rfl
  omega

theorem sum_Icc_eq (h : y ≠ 255)
    : ∑ y' ∈ Finset.Icc y.val 254, c.opacityAt x y' z
        =
      c.opacityAt x y z + ∑ y' ∈ Finset.Icc (y.val + 1) 254, c.opacityAt x y' z := by
  have hlt := val_lt_of_ne h
  rw [← Finset.insert_Icc_add_one_left_eq_Icc (Nat.le_of_lt_succ hlt), Finset.sum_insert (by simp)]

theorem sum_above_eq_zero_iff
    : ∑ y' ∈ Finset.Icc (y.val + 1) 254, c.opacityAt x y' z = 0
        ↔
      ∀ y' : Fin 256, y < y' → y' ≠ 255 → c.opacityAt x y' z = 0 := by
  rw [Finset.sum_eq_zero_iff]
  constructor
  . intro h y' hlt hne
    apply h y'.val
    have := val_lt_of_ne hne
    rw [Finset.mem_Icc]
    omega
  . intro h y' hmem
    rw [Finset.mem_Icc] at hmem
    have hne : (⟨y', by omega⟩ : Fin 256) ≠ 255 := by
      intro heq
      have hval : y' = (255 : Fin 256).val := congrArg Fin.val heq
      have hmax : (255 : Fin 256).val = 255 := rfl
      omega
    exact h ⟨y', by omega⟩ (by rw [Fin.lt_def]; dsimp only; omega) hne

/--
The light that an update gives to a block above the heightmap.
-/
def updatedLight (c : Chunk) (x : Fin 16) (y : Fin 256) (z : Fin 16) : Nat :=
  if c.isOpaqueAt x y z then 15 - c.opacityAt x y z else 15

theorem updatedLight_lightChunk {binf : BlockInfo}
    (hbinf : BlockInfo.fromId (c.getId x y z) = some binf)
    : c.lightChunk.updatedLight x y z = c.updatedLight x y z := by
  have hbinf' : BlockInfo.fromId (c.lightChunk.getId x y z) = some binf := by
    rw [getId_lightChunk, hbinf]
  unfold updatedLight
  rw [isOpaqueAt_eq hbinf', isOpaqueAt_eq hbinf, (sameBlocks_lightChunk c).opacityAt]

theorem updatedLight_eq_iff (hok : c.HeightmapOk) (hknown : c.AllKnown)
    (habove : c.getHeight x z ≤ y.val)
    : c.updatedLight x y z = c.columnLight x y z ↔ c.Undimmed x y z := by
  obtain ⟨binf, hbinf⟩ := Option.ne_none_iff_exists'.mp (hknown x y z)
  unfold updatedLight columnLight Undimmed
  rw [if_neg (Int.not_lt.mpr habove)]
  by_cases htop : y = 255
  . rw [if_pos htop, if_pos htop]
    by_cases hblocks : c.isOpaqueAt x y z = true
    . rw [if_pos hblocks, forall_prop_of_true hblocks]
      have hlt := hok.opacity_lt habove hbinf (by rw [← isOpaqueAt_eq hbinf, hblocks])
      rw [opacityAt_eq hbinf]
      omega
    . rw [if_neg hblocks]
      simp [hblocks]
  . rw [if_neg htop, if_neg htop, sum_Icc_eq htop, ← sum_above_eq_zero_iff]
    by_cases hblocks : c.isOpaqueAt x y z = true
    . have hlt := hok.opacity_lt habove hbinf (by rw [← isOpaqueAt_eq hbinf, hblocks])
      rw [if_pos hblocks, opacityAt_eq hbinf]
      simp only [hblocks, Bool.true_eq_false, false_implies, and_true]
      omega
    . rw [if_neg hblocks]
      simp only [hblocks, true_implies]
      omega

end Chunk

namespace Lighting

open Transition

variable {s s' : Lighting} {p : BlockPos} {ch : Nat} {c : Chunk}

/--
An update of one block: `enqueue_sl_no_lock`, and `calc_sl` if that has put the block on the queue. The
calls for its neighbours are left in `calls`.
-/
def relight (s : Lighting) (p : BlockPos) : Except Fault Lighting := do
  let s' ← s.enqueueSlNoLock p
  if s'.updates.length > s.updates.length then
    let s' := { s' with updates := s.updates }
    s'.calcSl p
  else
    return s'

theorem calcSl_above (hch : s.mem.getChunk p.chunkPos.x p.chunkPos.z = some ch)
    (hc : s.mem.chunkAt ch = some c) (habove : c.getHeight p.bx p.bz ≤ p.y.val)
    : ∃ s', s.calcSl p = .ok s' ∧ s.mem.Relit s'.mem
        ∧ s'.mem.lightAt ⟨ch, p.bx, p.y, p.bz⟩ = 15 := by
  obtain ⟨s', hs', hrelit, habs⟩ := changeSl_spec (p := p) hc (Nat.le_refl 15)
  have hvalue := congrFun (congrArg Relaxation.State.value habs) ⟨ch, p.bx, p.y, p.bz⟩
  refine ⟨s', ?_, hrelit, ?_⟩
  . unfold calcSl
    rw [hch]
    dsimp only
    rw [WorldMemory.get_of_chunkAt hc]
    simp only [bind, Except.bind]
    unfold WorldMemory.rightSkyLight
    rw [if_pos habove]
    exact hs'
  . split at hvalue
    . simpa [abs, Relaxation.put] using hvalue
    . next hsame =>
      rw [ne_eq, not_not] at hsame
      rw [hsame]
      exact hvalue

/--
A cell that the calls still to be made leave alone.
-/
def Untouched (m : WorldMemory) (cell : LightCell) : Prop :=
  m.opaqueLight cell = none ∨ m.opaqueLight cell = some (m.lightAt cell)

theorem opaqueLight_of_chunkAt {m : WorldMemory} (hc : m.chunkAt ch = some c) {binf : BlockInfo}
    (hbinf : BlockInfo.fromId (c.getId p.bx p.y p.bz) = some binf)
    : m.opaqueLight ⟨ch, p.bx, p.y, p.bz⟩
        =
      if binf.isOpaque then some (15 - binf.opacity) else none := by
  unfold WorldMemory.opaqueLight
  rw [WorldMemory.idAt_of_chunkAt hc, Option.bind_some, hbinf]

theorem relight_spec (hch : s.mem.getChunk p.chunkPos.x p.chunkPos.z = some ch)
    (hc : s.mem.chunkAt ch = some c) (habove : c.getHeight p.bx p.bz ≤ p.y.val) {binf : BlockInfo}
    (hbinf : BlockInfo.fromId (c.getId p.bx p.y p.bz) = some binf)
    : ∃ s', s.relight p = .ok s'
        ∧ s'.mem.lightAt ⟨ch, p.bx, p.y, p.bz⟩ = c.updatedLight p.bx p.y p.bz
        ∧ Untouched s'.mem ⟨ch, p.bx, p.y, p.bz⟩ := by
  have hfixed := opaqueLight_of_chunkAt hc hbinf
  unfold Chunk.updatedLight
  rw [Chunk.isOpaqueAt_eq hbinf, Chunk.opacityAt_eq hbinf]
  by_cases hblocks : binf.isOpaque = true
  . rw [if_pos hblocks] at hfixed
    rw [if_pos hblocks]
    obtain ⟨s', hs', hrelit, habs⟩ := enqueueSlNoLock_of_chunkAt hch hc hbinf
    have hcell : s.mem.relaxation.cell p = some ⟨ch, p.bx, p.y, p.bz⟩ := by
      simp [WorldMemory.relaxation, WorldMemory.cell, hch]
    unfold Relaxation.enqueue at habs
    rw [hcell] at habs
    have hafter : s'.updates = s.updates
        ∧ s'.mem.lightAt ⟨ch, p.bx, p.y, p.bz⟩ = 15 - binf.opacity := by
      have hfixed' : s.mem.relaxation.fixed ⟨ch, p.bx, p.y, p.bz⟩ = some (15 - binf.opacity) := hfixed
      dsimp only at habs
      rw [hfixed'] at habs
      dsimp only at habs
      split at habs
      . injection habs with habs
        have hvalue := congrFun (congrArg Relaxation.State.value habs) ⟨ch, p.bx, p.y, p.bz⟩
        refine ⟨(congrArg Relaxation.State.updates habs).symm, ?_⟩
        simpa [abs, Relaxation.put] using hvalue.symm
      . next hsame =>
        injection habs with habs
        have hvalue := congrFun (congrArg Relaxation.State.value habs) ⟨ch, p.bx, p.y, p.bz⟩
        refine ⟨(congrArg Relaxation.State.updates habs).symm, ?_⟩
        rw [ne_eq, not_not] at hsame
        rw [hsame]
        exact hvalue.symm
    refine ⟨s', ?_, hafter.right, ?_⟩
    . unfold relight
      rw [hs']
      simp only [bind, Except.bind]
      rw [if_neg (by rw [hafter.left]; exact Nat.lt_irrefl _)]
      rfl
    . right
      rw [hrelit.opaqueLight, hfixed, hafter.right]
  . rw [if_neg hblocks] at hfixed
    rw [if_neg hblocks]
    obtain ⟨s', hs', hrelit, hlight⟩ := calcSl_above hch hc habove
    refine ⟨s', ?_, hlight, ?_⟩
    . have henqueue : s.enqueueSlNoLock p = .ok { s with updates := s.updates ++ [p] } := by
        unfold enqueueSlNoLock
        rw [hch]
        dsimp only
        rw [WorldMemory.get_of_chunkAt hc]
        simp only [bind, Except.bind]
        rw [hbinf]
        dsimp only
        rw [if_neg hblocks]
        rfl
      unfold relight
      rw [henqueue]
      simp only [bind, Except.bind]
      rw [if_pos (by simp)]
      exact hs'
    . left
      rw [hrelit.opaqueLight, hfixed]

theorem Untouched.calls {cell : LightCell} (huntouched : Untouched s.mem cell) {as : List Action}
    (has : ∀ a ∈ as, a = .call) (hexec : exec step (.ok s) as = some (.ok s'))
    : s'.mem.lightAt cell = s.mem.lightAt cell := by
  induction as generalizing s with
  | nil =>
    injection hexec with hexec
    injection hexec with hexec
    rw [hexec]
  | cons a as ih =>
    obtain ⟨r, hact, hrest⟩ := exec_cons.mp hexec
    have ha : a = .call := has a (by simp)
    subst ha
    cases r with
    | error e =>
      cases as with
      | nil => cases hrest
      | cons a as =>
        obtain ⟨_, hnone, _⟩ := exec_cons.mp hrest
        cases hnone
    | ok s₁ =>
      simp only [step, act] at hact
      split at hact
      . cases hact
      . next q calls hcalls =>
        injection hact with hact
        obtain ⟨hrelit, habs⟩ := enqueue_of_ok hact
        have hsame : s₁.mem.lightAt cell = s.mem.lightAt cell := Relaxation.enqueue_kept habs huntouched
        have huntouched₁ : Untouched s₁.mem cell := by
          unfold Untouched
          rw [hrelit.opaqueLight, hsame]
          exact huntouched
        rw [ih huntouched₁ (fun a ha => has a (by simp [ha])) hrest, hsame]

/--
An update leaves the light of a freshly lit block above the heightmap as it is if and only if the block
is undimmed. The calls for its neighbours make no difference to that.
-/
theorem relight_keeps_iff (hok : c.HeightmapOk) (hknown : c.AllKnown)
    (hch : s.mem.getChunk p.chunkPos.x p.chunkPos.z = some ch)
    (hlit : s.mem.chunkAt ch = some c.lightChunk) (habove : c.getHeight p.bx p.bz ≤ p.y.val)
    : ∃ s₁, s.relight p = .ok s₁
        ∧ ∀ as s', (∀ a ∈ as, a = .call) → exec step (.ok s₁) as = some (.ok s')
          → (s'.mem.lightAt ⟨ch, p.bx, p.y, p.bz⟩ = s.mem.lightAt ⟨ch, p.bx, p.y, p.bz⟩
              ↔ c.Undimmed p.bx p.y p.bz) := by
  have hsame := Chunk.sameBlocks_lightChunk c
  obtain ⟨binf, hbinf⟩ := Option.ne_none_iff_exists'.mp (hknown p.bx p.y p.bz)
  have hbinf' : BlockInfo.fromId (c.lightChunk.getId p.bx p.y p.bz) = some binf := by
    rw [hsame.getId, hbinf]
  obtain ⟨s₁, hs₁, hlight, huntouched⟩ :=
    relight_spec hch hlit (by rw [hsame.getHeight]; exact habove) hbinf'
  refine ⟨s₁, hs₁, fun as s' has hexec => ?_⟩
  rw [huntouched.calls has hexec, hlight, Chunk.updatedLight_lightChunk hbinf,
    WorldMemory.lightAt_of_chunkAt hlit, Chunk.skyLight_lightChunk hok.heightsInRange]
  exact Chunk.updatedLight_eq_iff hok hknown habove

section Generated

theorem generated_spec (gen : WorldGenerator)
    : ∃ ch m, (WorldMemory.new 16 16 (.new 0 0)).loadChunk none gen 0 0 = .ok (ch, m)
        ∧ m.getChunk 0 0 = some ch
        ∧ m.chunkAt ch = some (gen.generate (.new 0 0)).lightChunk := by
  have hint : (⟨0, 0⟩ : ChunkPos).IsInt := by decide
  obtain ⟨ch, m, hload, hloaded, hch⟩ :=
    WorldMemory.loadChunk_of_gen (WorldMemory.sound_new 16 16 (.new 0 0)) hint
      (inBounds_new_iff.mpr rfl) rfl gen
  exact ⟨ch, m, hload, hloaded.getChunk, hch⟩

def poolGenerator : WorldGenerator where
  generate := fun ch => (ch.setId 0 3 0 1).setId 0 10 0 8
  pos_generate := fun _ => Chunk.pos_setId.trans Chunk.pos_setId

theorem heightmapOk_pool : Chunk.pool.HeightmapOk := by
  have hstone : (Chunk.Op.setId 0 3 0 1).Valid := by
    unfold Chunk.Op.Valid
    decide
  have hwater : (Chunk.Op.setId 0 10 0 8).Valid := by
    unfold Chunk.Op.Valid
    decide
  have hbed := Chunk.HeightmapOk.call (Chunk.heightmapOk_new 0 0) hstone
  exact Chunk.HeightmapOk.call hbed hwater

theorem allKnown_pool : Chunk.pool.AllKnown := by
  intro x y z
  unfold Chunk.pool
  rw [Chunk.getId_setId (by decide), Chunk.getId_setId (by decide)]
  split
  . decide
  . split
    . decide
    . nofun

/--
The water is relit.
-/
theorem relight_keeps_iff_pool
    : let p : BlockPos := ⟨0, 10, 0, by decide, by decide⟩
      ∃ ch m s₁,
        (WorldMemory.new 16 16 (.new 0 0)).loadChunk none poolGenerator 0 0 = .ok (ch, m)
          ∧ Lighting.relight { mem := m, updates := [], calls := [] } p = .ok s₁
          ∧ ∀ as s', (∀ a ∈ as, a = .call) → exec step (.ok s₁) as = some (.ok s')
            → (s'.mem.lightAt ⟨ch, p.bx, p.y, p.bz⟩ = m.lightAt ⟨ch, p.bx, p.y, p.bz⟩
                ↔ Chunk.pool.Undimmed p.bx p.y p.bz) := by
  intro p
  obtain ⟨ch, m, hload, hget, hch⟩ := generated_spec poolGenerator
  have hpos : p.chunkPos = ⟨0, 0⟩ := by decide
  have habove : Chunk.pool.getHeight p.bx p.bz ≤ p.y.val := by decide
  obtain ⟨s₁, hs₁, hkeeps⟩ := relight_keeps_iff (s := { mem := m, updates := [], calls := [] }) (p := p)
    heightmapOk_pool allKnown_pool (by rw [hpos]; exact hget) hch habove
  exact ⟨ch, m, s₁, hload, hs₁, hkeeps⟩

/--
Water at `y = 10`.
-/
def pond : WorldGenerator where
  generate := fun ch => ch.setId 0 10 0 8
  pos_generate := fun _ => Chunk.pos_setId

theorem getId_pond (x z : Fin 16) (y : Fin 256)
    : (pond.generate (.new 0 0)).getId x y z = if x = 0 ∧ y = 10 ∧ z = 0 then 8 else 0 := by
  unfold pond
  dsimp only
  rw [Chunk.getId_setId (by decide)]
  rfl

theorem allKnown_pond : (pond.generate (.new 0 0)).AllKnown := by
  intro x y z
  rw [getId_pond]
  split
  . decide
  . decide

theorem not_undimmed_pond : ¬ (pond.generate (.new 0 0)).Undimmed 0 5 0 := by
  intro h
  unfold Chunk.Undimmed at h
  rw [if_neg (by decide)] at h
  have hwater : BlockInfo.fromId ((pond.generate (.new 0 0)).getId 0 10 0)
      = some ⟨0x08, 3, true, .fluid⟩ := by
    rw [getId_pond]
    rfl
  have hopacity := Chunk.opacityAt_eq hwater
  rw [h.left 10 (by decide) (by decide)] at hopacity
  cases hopacity

/--
The light that `light_chunk` has dimmed on its way through water is full daylight after an update.
-/
theorem not_relight_keeps
    : ¬ ∀ (c : Chunk) (s s₁ : Lighting) (p : BlockPos) (ch : Nat), c.HeightmapOk → c.AllKnown →
        s.mem.getChunk p.chunkPos.x p.chunkPos.z = some ch →
        s.mem.chunkAt ch = some c.lightChunk → c.getHeight p.bx p.bz ≤ p.y.val →
        s.relight p = .ok s₁ →
        s₁.mem.lightAt ⟨ch, p.bx, p.y, p.bz⟩ = s.mem.lightAt ⟨ch, p.bx, p.y, p.bz⟩ := by
  intro h
  let p : BlockPos := ⟨0, 5, 0, by decide, by decide⟩
  obtain ⟨ch, m, _, hget, hch⟩ := generated_spec pond
  have hpos : p.chunkPos = ⟨0, 0⟩ := by decide
  have hvalid : (Chunk.Op.setId 0 10 0 8).Valid := by
    unfold Chunk.Op.Valid
    decide
  have hok : (pond.generate (.new 0 0)).HeightmapOk := (Chunk.heightmapOk_new 0 0).call hvalid
  have habove : (pond.generate (.new 0 0)).getHeight p.bx p.bz ≤ p.y.val := by decide
  let s : Lighting := { mem := m, updates := [], calls := [] }
  have hget' : s.mem.getChunk p.chunkPos.x p.chunkPos.z = some ch := by
    rw [hpos]
    exact hget
  have hsame := Chunk.sameBlocks_lightChunk (pond.generate (.new 0 0))
  obtain ⟨binf, hbinf⟩ := Option.ne_none_iff_exists'.mp (allKnown_pond p.bx p.y p.bz)
  have hbinf' := hbinf
  rw [← hsame.getId] at hbinf'
  obtain ⟨s₁, hs₁, hlight, _⟩ := relight_spec hget' hch (by rw [hsame.getHeight]; exact habove) hbinf'
  have hkeeps := h _ s s₁ p ch hok allKnown_pond hget' hch habove hs₁
  apply not_undimmed_pond
  apply (Chunk.updatedLight_eq_iff hok allKnown_pond habove).mp
  rw [← Chunk.skyLight_lightChunk hok.heightsInRange, ← WorldMemory.lightAt_of_chunkAt hch, ← hkeeps,
    hlight, Chunk.updatedLight_lightChunk hbinf]

end Generated

end Lighting

end HCraft
