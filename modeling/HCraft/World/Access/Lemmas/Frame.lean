import HCraft.World.Access.Impl
import HCraft.World.Chunk.Lemmas.Height
import HCraft.World.Lighting.Lemmas.Runs
import HCraft.World.Memory.Lemmas.Load

/-!
This module contains what writing one block does to the other blocks of the world.
-/

namespace HCraft

namespace Chunk

variable {c : Chunk} {x x' z z' : Fin 16} {y y' : Fin 256} {id : UInt16} {val : UInt8}

theorem getId_setId_of_ne (h : ¬ (x' = x ∧ y' = y ∧ z' = z))
    : (c.setId x y z id).getId x' y' z' = c.getId x' y' z' := by
  unfold setId
  rw [getId_updateHeight, getId_setType_of_ne h]

theorem getId_setIdAndMeta_of_ne (h : ¬ (x' = x ∧ y' = y ∧ z' = z))
    : (c.setIdAndMeta x y z id val).getId x' y' z' = c.getId x' y' z' := by
  unfold setIdAndMeta
  rw [getId_updateHeight, getId_setType_of_ne h]

end Chunk

namespace WorldMemory

variable {m m' : WorldMemory} {p q : BlockPos} {ch : Nat} {c : Chunk}

theorem getId_of_chunkAt (hch : m.getChunk q.chunkPos.x q.chunkPos.z = some ch)
    (hc : m.chunkAt ch = some c) : m.getId q = .ok (c.getId q.bx q.y q.bz) := by
  unfold getId
  rw [hch]
  dsimp only
  rw [get_of_chunkAt hc]
  rfl

theorem Relit.getId (h : Relit m m') (q : BlockPos) : m'.getId q = m.getId q := by
  unfold WorldMemory.getId
  rw [h.edited.getChunk]
  split
  . rfl
  . next ch hch =>
    cases hc : m.chunkAt ch with
    | none =>
      have hdead : ¬ m.heap.Alive ch := by
        rw [alive_iff_chunkAt, hc]
        simp
      have hdead' : ¬ m'.heap.Alive ch := mt (h.edited.alive ch).mp hdead
      have hget (m : WorldMemory) (hdead : ¬ m.heap.Alive ch) : m.get ch = .error .useAfterFree := by
        unfold WorldMemory.get
        split
        . rfl
        . next obj hobj => exact absurd ⟨obj, hobj⟩ hdead
      rw [hget m hdead, hget m' hdead']
    | some c =>
      obtain ⟨c', hc', hblocks⟩ := h.chunkAt hc
      have hid : c'.getId = c.getId := congrArg Blocks.getId hblocks
      rw [get_of_chunkAt hc, get_of_chunkAt hc']
      simp only [bind, Except.bind, hid]

end WorldMemory

namespace Lighting

open Transition

variable {s s₁ s₂ : Lighting} {p q : BlockPos} {prov : Option Chunk} {gen : WorldGenerator} {id : UInt16}
  {f : Chunk → Chunk}

/--
Unless air is written to where nothing is loaded, the chunk is there and changed.
-/
theorem write_spec (h : s.mem.Sound) (hprov : ∀ c ∈ prov, c.pos = p.chunkPos) (gen : WorldGenerator)
    (hload : ¬ (id = 0 ∧ s.mem.getChunk p.chunkPos.x p.chunkPos.z = none))
    : ∃ ch mem, s.mem.Loaded mem p.chunkPos ch
        ∧ s.mem.write prov gen p id f = .ok (some (mem.edit ch f)) := by
  unfold WorldMemory.write
  cases hch : s.mem.getChunk p.chunkPos.x p.chunkPos.z with
  | some ch =>
    refine ⟨ch, s.mem, .refl h hch, ?_⟩
    dsimp only
    rw [WorldMemory.editChunk_ok (h.alive_getChunk p.isInt_chunkPos hch)]
    rfl
  | none =>
    have hid : id ≠ 0 := fun hid => hload ⟨hid, hch⟩
    obtain ⟨ch, mem, hmem, hloaded⟩ := WorldMemory.loadChunk_spec h p.isInt_chunkPos hprov gen
    have halive := hloaded.sound.alive_getChunk p.isInt_chunkPos hloaded.getChunk
    refine ⟨ch, mem, hloaded, ?_⟩
    dsimp only
    rw [if_neg hid, hmem]
    simp only [bind, Except.bind]
    rw [WorldMemory.editChunk_ok halive]
    rfl

theorem write_of_air (hid : id = 0) (hch : s.mem.getChunk p.chunkPos.x p.chunkPos.z = none)
    : s.mem.write prov gen p id f = .ok none := by
  unfold WorldMemory.write
  rw [hch]
  dsimp only
  rw [if_pos hid]

theorem sound_write (h : s.mem.Sound) (hprov : ∀ c ∈ prov, c.pos = p.chunkPos)
    (gen : WorldGenerator) (id : UInt16) (hf : ∀ c : Chunk, (f c).pos = c.pos)
    : ∃ w, s.mem.write prov gen p id f = .ok w ∧ ∀ mem ∈ w, mem.Sound := by
  by_cases hair : id = 0 ∧ s.mem.getChunk p.chunkPos.x p.chunkPos.z = none
  . exact ⟨none, write_of_air hair.left hair.right, by simp⟩
  . obtain ⟨ch, mem, hloaded, hok⟩ := write_spec (f := f) h hprov gen hair
    refine ⟨_, hok, ?_⟩
    intro mem' hmem'
    injection hmem' with hmem'
    rw [← hmem']
    exact (WorldMemory.edited_edit (fun c _ => hf c)).sound hloaded.sound

theorem update_spec (h : s.mem.Sound) (hprov : ∀ c ∈ prov, c.pos = p.chunkPos) (gen : WorldGenerator)
    (hload : ¬ (id = 0 ∧ s.mem.getChunk p.chunkPos.x p.chunkPos.z = none))
    : ∃ ch mem, s.mem.Loaded mem p.chunkPos ch
        ∧ s.update prov gen p id f = .ok ({ s with mem := mem.edit ch f }.enqueue p) := by
  obtain ⟨ch, mem, hloaded, hok⟩ := write_spec (f := f) h hprov gen hload
  refine ⟨ch, mem, hloaded, ?_⟩
  unfold update
  rw [hok]
  rfl

theorem update_of_air (hid : id = 0) (hch : s.mem.getChunk p.chunkPos.x p.chunkPos.z = none)
    : s.update prov gen p id f = .ok s := by
  unfold update
  rw [write_of_air hid hch]
  rfl

theorem sound_update (h : s.mem.Sound) (hprov : ∀ c ∈ prov, c.pos = p.chunkPos)
    (hf : ∀ c : Chunk, (f c).pos = c.pos) (hupdate : s.update prov gen p id f = .ok s₁)
    : s₁.mem.Sound := by
  by_cases hair : id = 0 ∧ s.mem.getChunk p.chunkPos.x p.chunkPos.z = none
  . rw [update_of_air hair.left hair.right] at hupdate
    injection hupdate with hupdate
    exact hupdate ▸ h
  . obtain ⟨ch, mem, hloaded, hok⟩ := update_spec (f := f) h hprov gen hair
    rw [hok] at hupdate
    injection hupdate with hupdate
    rw [← hupdate]
    exact (WorldMemory.edited_edit (fun c _ => hf c)).sound hloaded.sound

/--
The two blocks are one: out of bounds there is only the edge chunk.
-/
def Shared (m : WorldMemory) (p q : BlockPos) : Prop :=
  ¬ m.InBounds p.chunkPos ∧ ¬ m.InBounds q.chunkPos ∧ p.bx = q.bx ∧ p.y = q.y ∧ p.bz = q.bz

/--
`r` leaves the block at `q` as it is in `s`, and so does all the lighting that comes after it.
-/
def Unchanged (s : Lighting) (r : Except Fault Lighting) (q : BlockPos) : Prop :=
  ∃ s₁, r = .ok s₁
    ∧ ∀ as s₂, exec step (.ok s₁) as = some (.ok s₂) → s₂.mem.getId q = s.mem.getId q

theorem getId_edit (h : s.mem.Sound) {mem : WorldMemory} {ch : Nat}
    (hloaded : s.mem.Loaded mem p.chunkPos ch)
    (hf : ∀ c : Chunk, ¬ (q.bx = p.bx ∧ q.y = p.y ∧ q.bz = p.bz) →
      (f c).getId q.bx q.y q.bz = c.getId q.bx q.y q.bz)
    (hpos : ∀ c : Chunk, (f c).pos = c.pos)
    (hpq : p ≠ q) (hq : s.mem.getChunk q.chunkPos.x q.chunkPos.z ≠ none)
    (hshared : ¬ Shared s.mem p q)
    : (mem.edit ch f).getId q = s.mem.getId q := by
  obtain ⟨chq, hchq⟩ := Option.ne_none_iff_exists'.mp hq
  obtain ⟨c, hc⟩ := h.chunkAt_getChunk hchq
  have hedited : mem.Edited (mem.edit ch f) := WorldMemory.edited_edit (fun c _ => hpos c)
  have hchq' : (mem.edit ch f).getChunk q.chunkPos.x q.chunkPos.z = some chq := by
    rw [hedited.getChunk]
    by_cases hsame : q.chunkPos = p.chunkPos
    . rw [hsame] at hchq ⊢
      rw [hloaded.getChunk, hloaded.getChunk_eq chq hchq]
    . rw [hloaded.getChunk_of_ne _ q.isInt_chunkPos hsame, hchq]
  have hmem : mem.chunkAt chq = some c := by
    rw [hloaded.chunkAt chq (h.alive_getChunk q.isInt_chunkPos hchq), hc]
  rw [WorldMemory.getId_of_chunkAt hchq hc]
  by_cases hch : chq = ch
  . subst hch
    have hc' : (mem.edit chq f).chunkAt chq = some (f c) := by
      rw [WorldMemory.chunkAt_edit, if_pos rfl, hmem]
      rfl
    rw [WorldMemory.getId_of_chunkAt hchq' hc']
    congr 1
    apply hf
    rintro ⟨hx, hy, hz⟩
    -- the two blocks are in one place of one chunk
    have hcases := hloaded.sound.getChunk_cases p.isInt_chunkPos hloaded.getChunk
    rw [WorldMemory.inBounds_congr hloaded.width hloaded.depth, hloaded.edgeCh, hmem] at hcases
    cases h.getChunk_cases q.isInt_chunkPos hchq with
    | inl hqout =>
      cases hcases with
      | inl hpout => exact hshared ⟨hpout.left, hqout.left, hx.symm, hy.symm, hz.symm⟩
      | inr hpin => exact hpin.right.left hqout.right
    | inr hqin =>
      obtain ⟨_, hne, c', hc', hqpos⟩ := hqin
      cases hcases with
      | inl hpout => exact hne hpout.right
      | inr hpin =>
        obtain ⟨_, _, c'', hc'', hppos⟩ := hpin
        injection hc'' with hc''
        rw [hc] at hc'
        injection hc' with hc'
        have hsame : q.chunkPos = p.chunkPos := by rw [← hqpos, ← hppos, ← hc', hc'']
        exact hpq (BlockPos.eq_of_chunkPos hsame hx hy hz).symm
  . have hc' : (mem.edit ch f).chunkAt chq = some c := by
      rw [WorldMemory.chunkAt_edit, if_neg hch, hmem]
    rw [WorldMemory.getId_of_chunkAt hchq' hc']

theorem unchanged_update (h : s.mem.Sound) (hprov : ∀ c ∈ prov, c.pos = p.chunkPos)
    (hf : ∀ c : Chunk, ¬ (q.bx = p.bx ∧ q.y = p.y ∧ q.bz = p.bz) →
      (f c).getId q.bx q.y q.bz = c.getId q.bx q.y q.bz)
    (hpos : ∀ c : Chunk, (f c).pos = c.pos)
    (hpq : p ≠ q) (hq : s.mem.getChunk q.chunkPos.x q.chunkPos.z ≠ none)
    (hshared : ¬ Shared s.mem p q)
    : Unchanged s (s.update prov gen p id f) q := by
  have hlit (s₁ : Lighting) (hsound : s₁.mem.Sound) (hid : s₁.mem.getId q = s.mem.getId q)
      : ∀ as s₂, exec step (.ok s₁) as = some (.ok s₂) → s₂.mem.getId q = s.mem.getId q := by
    intro as s₂ hexec
    rw [(relit_of_exec hsound hexec).getId q, hid]
  by_cases hair : id = 0 ∧ s.mem.getChunk p.chunkPos.x p.chunkPos.z = none
  . exact ⟨s, update_of_air hair.left hair.right, hlit s h rfl⟩
  . obtain ⟨ch, mem, hloaded, hok⟩ := update_spec (f := f) h hprov gen hair
    refine ⟨_, hok, hlit _ ?_ ?_⟩
    . exact sound_update h hprov hpos hok
    . exact getId_edit h hloaded hf hpos hpq hq hshared

/--
The states of a world whose chunks are loaded and put, whose blocks are written and whose light is
propagated, in any order.
-/
inductive Reachable : Lighting → Prop where
  | new (width depth : Int) (edge : Chunk)
    : Reachable { mem := .new width depth edge, updates := [], calls := [] }
  | serve {s : Lighting} {r : WorldMemory.Request} {mem : WorldMemory} (h : Reachable s)
    (hr : r.Proper s.mem) (hserve : s.mem.serve r = .ok mem) : Reachable { s with mem }
  | setId {s s₁ : Lighting} {prov : Option Chunk} {gen : WorldGenerator} {p : BlockPos} {id : UInt16}
    (h : Reachable s) (hprov : ∀ c ∈ prov, c.pos = p.chunkPos)
    (hset : s.setId prov gen p id = .ok s₁) : Reachable s₁
  | setIdAndMeta {s s₁ : Lighting} {prov : Option Chunk} {gen : WorldGenerator} {p : BlockPos}
    {id : UInt16} {val : UInt8} (h : Reachable s) (hprov : ∀ c ∈ prov, c.pos = p.chunkPos)
    (hset : s.setIdAndMeta prov gen p id val = .ok s₁) : Reachable s₁
  | act {s s₁ : Lighting} {a : Action} (h : Reachable s) (hact : s.act a = some (.ok s₁))
    : Reachable s₁

theorem Reachable.sound (h : Reachable s) : s.mem.Sound := by
  induction h with
  | new width depth edge => exact WorldMemory.sound_new width depth edge
  | serve _ hr hserve ih =>
    obtain ⟨mem', hok, hsound, _⟩ := WorldMemory.serve_spec ih hr
    rw [hserve] at hok
    injection hok with hok
    exact hok ▸ hsound
  | setId _ hprov hset ih => exact sound_update ih hprov (fun _ => Chunk.pos_setId) hset
  | setIdAndMeta _ hprov hset ih => exact sound_update ih hprov (fun _ => Chunk.pos_setIdAndMeta) hset
  | act _ hact ih => exact (relit_of_act ih hact).edited.sound ih

/--
Writing a block changes no other block that is loaded or out of bounds, apart from those out of bounds
that are the same block of the edge chunk.
-/
theorem unchanged_set (h : Reachable s) (hprov : ∀ c ∈ prov, c.pos = p.chunkPos) (hpq : p ≠ q)
    (hq : s.mem.getChunk q.chunkPos.x q.chunkPos.z ≠ none) (hshared : ¬ Shared s.mem p q)
    : Unchanged s (s.setId prov gen p id) q
        ∧ ∀ val, Unchanged s (s.setIdAndMeta prov gen p id val) q := by
  constructor
  . exact unchanged_update h.sound hprov (fun _ => Chunk.getId_setId_of_ne) (fun _ => Chunk.pos_setId)
      hpq hq hshared
  . intro val
    exact unchanged_update h.sound hprov (fun _ => Chunk.getId_setIdAndMeta_of_ne)
      (fun _ => Chunk.pos_setIdAndMeta) hpq hq hshared

/--
Two blocks of one chunk, which is loaded when the first of them is put.
-/
theorem unchanged_set_beside
    : let p : BlockPos := ⟨1, 70, 2, by decide, by decide⟩
      let q : BlockPos := ⟨2, 70, 2, by decide, by decide⟩
      let s : Lighting := { mem := .new 16 16 (.new 0 0), updates := [], calls := [] }
      ∃ s₁, s.setId none .empty q 3 = .ok s₁
        ∧ s₁.mem.getId q = .ok 3
        ∧ Unchanged s₁ (s₁.setId none .empty p 1) q
        ∧ ∀ val, Unchanged s₁ (s₁.setIdAndMeta none .empty p 1 val) q := by
  intro p q s
  have hsound : s.mem.Sound := WorldMemory.sound_new 16 16 (.new 0 0)
  have hprov : ∀ c ∈ (none : Option Chunk), c.pos = q.chunkPos := by simp
  have hair : ¬ ((3 : UInt16) = 0 ∧ s.mem.getChunk q.chunkPos.x q.chunkPos.z = none) :=
    fun h => absurd h.left (by decide)
  obtain ⟨ch, mem, hloaded, hset⟩ :=
    update_spec (f := (·.setId q.bx q.y q.bz 3)) hsound hprov .empty hair
  have hreachable := Reachable.setId (.new 16 16 (.new 0 0)) hprov hset
  have hedited : mem.Edited (mem.edit ch (·.setId q.bx q.y q.bz 3)) :=
    WorldMemory.edited_edit (fun _ _ => Chunk.pos_setId)
  have hch : (mem.edit ch (·.setId q.bx q.y q.bz 3)).getChunk q.chunkPos.x q.chunkPos.z = some ch := by
    rw [hedited.getChunk, hloaded.getChunk]
  -- the first write has loaded the chunk, in which the second one finds its place
  refine ⟨_, hset, ?_, unchanged_set hreachable (by simp) (by decide) (fun h => ?_) ?_⟩
  . obtain ⟨c, hc⟩ := hloaded.sound.chunkAt_getChunk hloaded.getChunk
    have hc' : (mem.edit ch (·.setId q.bx q.y q.bz 3)).chunkAt ch = some (c.setId q.bx q.y q.bz 3) := by
      rw [WorldMemory.chunkAt_edit, if_pos rfl, hc]
      rfl
    refine (WorldMemory.getId_of_chunkAt hch hc').trans (congrArg Except.ok ?_)
    rw [Chunk.getId_setId (by decide), if_pos ⟨rfl, rfl, rfl⟩]
  . cases hch.symm.trans h
  . rintro ⟨hout, _⟩
    exact hout ((WorldMemory.inBounds_congr (hedited.width.trans hloaded.width)
      (hedited.depth.trans hloaded.depth)).mpr (inBounds_new_iff.mpr rfl))

/--
The same block of the edge chunk, seen from two positions.
-/
theorem not_unchanged_set
    : ¬ ∀ (s : Lighting) (p q : BlockPos) (prov : Option Chunk) (gen : WorldGenerator) (id : UInt16),
        Reachable s → (∀ c ∈ prov, c.pos = p.chunkPos) → p ≠ q →
        s.mem.getChunk q.chunkPos.x q.chunkPos.z ≠ none →
        Unchanged s (s.setId prov gen p id) q := by
  intro h
  let p : BlockPos := ⟨0, 0, 0, by decide, by decide⟩
  let q : BlockPos := ⟨16, 0, 0, by decide, by decide⟩
  let s : Lighting := { mem := .new 0 0 (.new 0 0), updates := [], calls := [] }
  have hedge (p : BlockPos) : s.mem.getChunk p.chunkPos.x p.chunkPos.z = some 0 :=
    WorldMemory.getChunk_of_not_inBounds (not_inBounds_new _ _)
  obtain ⟨s₁, hset, hsame⟩ := h s p q none .empty 1 (.new 0 0 (.new 0 0)) (by simp) (by decide)
    (by simp [hedge q])
  have hbefore : s.mem.getId q = .ok 0 := WorldMemory.getId_of_chunkAt (hedge q) rfl
  have hok : s.setId none .empty p 1
      = .ok ({ s with mem := s.mem.edit 0 (·.setId p.bx p.y p.bz 1) }.enqueue p) := by
    unfold setId update WorldMemory.write
    rw [hedge p]
    rfl
  rw [hok] at hset
  injection hset with hset
  have hafter : s₁.mem.getId q = .ok (((Chunk.new 0 0).setId p.bx p.y p.bz 1).getId q.bx q.y q.bz) := by
    rw [← hset]
    exact WorldMemory.getId_of_chunkAt (hedge q) rfl
  have hone : ((Chunk.new 0 0).setId p.bx p.y p.bz 1).getId q.bx q.y q.bz = 1 := by
    decide
  have h₀₁ := hsame [] s₁ rfl
  rw [hafter, hbefore, hone] at h₀₁
  injection h₀₁ with h₀₁
  exact absurd h₀₁ (by decide)

end Lighting

end HCraft
