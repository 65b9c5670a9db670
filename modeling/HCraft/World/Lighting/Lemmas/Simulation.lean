import HCraft.Lib.Relaxation
import HCraft.World.Lighting.Lemmas.Relit

/-!
This module shows that the lighting manager relaxes the light of the blocks: opaque blocks have a fixed
light, the light of all others follows from that of their neighbours.
-/

namespace HCraft

namespace BlockPos

variable {p q : BlockPos}

theorem isInt_chunkPos (p : BlockPos) : p.chunkPos.IsInt := by
  obtain ⟨hx, hx'⟩ := p.hx
  obtain ⟨hz, hz'⟩ := p.hz
  unfold ChunkPos.IsInt chunkPos
  simp only [Int.shiftRight_eq_div_pow]
  omega

theorem x_eq (p : BlockPos) : p.x = p.chunkPos.x * 16 + p.bx.val := by
  unfold chunkPos bx
  simp only [Int.shiftRight_eq_div_pow]
  omega

theorem z_eq (p : BlockPos) : p.z = p.chunkPos.z * 16 + p.bz.val := by
  unfold chunkPos bz
  simp only [Int.shiftRight_eq_div_pow]
  omega

theorem ext_iff : p = q ↔ p.x = q.x ∧ p.y = q.y ∧ p.z = q.z := by
  cases p
  cases q
  simp

/--
A block is known by its chunk and its place in it.
-/
theorem eq_of_chunkPos (hpos : q.chunkPos = p.chunkPos) (hx : q.bx = p.bx) (hy : q.y = p.y)
    (hz : q.bz = p.bz) : q = p := by
  rw [ext_iff, q.x_eq, q.z_eq, p.x_eq, p.z_eq, hpos, hx, hy, hz]
  exact ⟨rfl, rfl, rfl⟩

end BlockPos

namespace WorldMemory

section Abstraction

variable (m : WorldMemory)

/--
The block at a position, unless its chunk is not loaded.
-/
def cell (p : BlockPos) : Option LightCell :=
  (m.getChunk p.chunkPos.x p.chunkPos.z).map (fun ch => ⟨ch, p.bx, p.y, p.bz⟩)

def idAt (cell : LightCell) : Option UInt16 :=
  (m.blocksAt cell.ch).map (fun b => b.getId cell.x cell.y cell.z)

/--
The light that an opaque block always has.
-/
def opaqueLight (cell : LightCell) : Option Nat :=
  match (m.idAt cell).bind BlockInfo.fromId with
  | none => none
  | some binf => if binf.isOpaque then some (15 - binf.opacity) else none

/--
The block is one that `from_id` knows.
-/
def Known (cell : LightCell) : Prop :=
  (m.idAt cell).bind BlockInfo.fromId ≠ none

def relaxation : Relaxation BlockPos LightCell where
  cell := m.cell
  fixed := m.opaqueLight
  rule := m.rightLight
  next := BlockPos.neighbours

end Abstraction

variable {m m' : WorldMemory} {ch : Nat} {c : Chunk} {p : BlockPos}

namespace Relit

theorem cell (h : Relit m m') : m'.cell = m.cell := by
  funext p
  unfold WorldMemory.cell
  rw [h.edited.getChunk]

theorem idAt (h : Relit m m') : m'.idAt = m.idAt := by
  funext cell
  unfold WorldMemory.idAt
  rw [h.blocksAt]

theorem opaqueLight (h : Relit m m') : m'.opaqueLight = m.opaqueLight := by
  funext cell
  unfold WorldMemory.opaqueLight
  rw [h.idAt]

theorem known (h : Relit m m') : m'.Known = m.Known := by
  funext cell
  unfold WorldMemory.Known
  rw [h.idAt]

theorem rightLight (h : Relit m m') : m'.rightLight = m.rightLight := by
  funext v cell
  unfold WorldMemory.rightLight
  rw [h.blocksAt, h.neighbour]

theorem relaxation (h : Relit m m') : m'.relaxation = m.relaxation := by
  unfold WorldMemory.relaxation
  rw [h.cell, h.opaqueLight, h.rightLight]

end Relit

theorem cell_eq_some {cell : LightCell} (h : m.cell p = some cell)
    : m.getChunk p.chunkPos.x p.chunkPos.z = some cell.ch ∧ cell = ⟨cell.ch, p.bx, p.y, p.bz⟩ := by
  unfold WorldMemory.cell at h
  rw [Option.map_eq_some_iff] at h
  obtain ⟨ch, hch, hmk⟩ := h
  rw [← hmk]
  exact ⟨hch, rfl⟩

theorem idAt_of_chunkAt (hc : m.chunkAt ch = some c) {x z : Fin 16} {y : Fin 256}
    : m.idAt ⟨ch, x, y, z⟩ = some (c.getId x y z) := by
  unfold idAt blocksAt
  rw [hc]
  rfl

theorem Sound.chunkAt_getChunk (h : m.Sound) (hch : m.getChunk p.chunkPos.x p.chunkPos.z = some ch)
    : ∃ c, m.chunkAt ch = some c :=
  alive_iff_chunkAt.mp (h.alive_getChunk p.isInt_chunkPos hch)

theorem Sound.alive_neighbour (h : m.Sound) {pos : ChunkPos}
    (hch : m.getChunk pos.x pos.z = some ch) {d : Direction} {nch : Nat}
    (hnch : m.neighbour ch d = some nch) : m.heap.Alive nch := by
  by_cases hin : m.InBounds pos
  . have hlookup := getChunk_of_inBounds hin
    rw [hch] at hlookup
    obtain ⟨c, hc⟩ := alive_iff_chunkAt.mp (h.alive hlookup.symm)
    rw [h.linked _ ch c hlookup.symm hc] at hnch
    exact h.alive_getChunk ((h.isInt hlookup.symm hc).shift d) hnch
  . rw [getChunk_of_not_inBounds hin] at hch
    injection hch with hch
    rw [← hch] at hnch
    obtain ⟨k, c, hk, _⟩ := h.edgeLinked d nch hnch
    exact h.alive hk

theorem Sound.alive_around (h : m.Sound) (hch : m.getChunk p.chunkPos.x p.chunkPos.z = some ch)
    {x z : Fin 16} {y : Fin 256}
    : ∀ n ∈ Neighbour.around (m.neighbour ch) ch x y z, n.Alive m := by
  have hself : m.heap.Alive ch := h.alive_getChunk p.isInt_chunkPos hch
  have hacross (d : Direction) (x z : Fin 16) (y : Fin 256)
      : (Neighbour.across (m.neighbour ch d) x y z).Alive m := by
    unfold Neighbour.across
    split
    . trivial
    . next nch hnch => exact h.alive_neighbour hch hnch
  intro n hn
  simp only [Neighbour.around, List.mem_cons, List.not_mem_nil, or_false] at hn
  rcases hn with hn | hn | hn | hn | hn | hn
  . rw [hn]
    split
    . exact hacross ..
    . exact hself
  . rw [hn]
    split
    . exact hacross ..
    . exact hself
  . rw [hn]
    split
    . exact hacross ..
    . exact hself
  . rw [hn]
    split
    . exact hacross ..
    . exact hself
  . rw [hn]
    split
    . trivial
    . exact hself
  . rw [hn]
    split
    . trivial
    . exact hself

end WorldMemory

namespace Neighbour

theorem maxValue_le {v : LightCell → Nat} {ns : List Neighbour} {k : Nat}
    (h : ∀ n ∈ ns, n.value v ≤ k) : maxValue v ns ≤ k := by
  induction ns with
  | nil => exact Nat.zero_le k
  | cons n ns ih =>
    have hn := h n (by simp)
    have hns := ih (fun n hn => h n (by simp [hn]))
    exact Nat.max_le.mpr ⟨hn, hns⟩

theorem value_around_le {v : LightCell → Nat} (hv : ∀ cell, v cell ≤ 15)
    (neighbours : Direction → Option Nat) (ch : Nat) (x : Fin 16) (y : Fin 256) (z : Fin 16)
    : ∀ n ∈ around neighbours ch x y z, n.value v ≤ 15 := by
  have hacross (nch : Option Nat) (x z : Fin 16) (y : Fin 256)
      : (across nch x y z).value v ≤ 15 := by
    unfold across
    split
    . simp [value]
    . exact hv _
  intro n hn
  simp only [around, List.mem_cons, List.not_mem_nil, or_false] at hn
  rcases hn with hn | hn | hn | hn | hn | hn
  all_goals
    rw [hn]
    split
  . exact hacross ..
  . exact hv _
  . exact hacross ..
  . exact hv _
  . exact hacross ..
  . exact hv _
  . exact hacross ..
  . exact hv _
  . simp [value]
  . exact hv _
  . simp [value]
  . exact hv _

end Neighbour

namespace WorldMemory

variable {m : WorldMemory}

theorem rightLight_le {v : LightCell → Nat} (hv : ∀ cell, v cell ≤ 15) (cell : LightCell)
    : m.rightLight v cell ≤ 15 := by
  unfold rightLight
  split
  . omega
  . split
    . omega
    . have := Neighbour.maxValue_le
        (Neighbour.value_around_le hv (m.neighbour cell.ch) cell.ch cell.x cell.y cell.z)
      omega

theorem opaqueLight_le {cell : LightCell} {sl : Nat} (h : m.opaqueLight cell = some sl) : sl ≤ 15 := by
  unfold opaqueLight at h
  split at h
  . cases h
  . split at h
    . injection h with h
      omega
    . cases h

end WorldMemory

namespace Lighting

/--
The light as a relaxation sees it.
-/
def abs (s : Lighting) : Relaxation.State BlockPos LightCell :=
  { value := s.mem.lightAt, updates := s.updates, calls := s.calls }

variable {s : Lighting} {p : BlockPos} {ch : Nat} {c : Chunk}

theorem lightAt_setSkyLight {m : WorldMemory} (hc : m.chunkAt ch = some c) {x z : Fin 16}
    {y : Fin 256} {sl : Nat} (hsl : sl ≤ 15)
    : (m.edit ch (·.setSkyLight x y z (UInt8.ofNat sl))).lightAt
        =
      Function.update m.lightAt ⟨ch, x, y, z⟩ sl := by
  have hofNat : (UInt8.ofNat sl).toNat = sl := by
    rw [UInt8.toNat_ofNat']
    omega
  funext cell
  cases cell with
  | mk ch' x' y' z' =>
    unfold WorldMemory.lightAt
    rw [WorldMemory.chunkAt_edit]
    by_cases hch : ch' = ch
    . subst hch
      simp only [if_true, hc, Option.map_some]
      rw [Chunk.skyLight_setSkyLight (by omega), hofNat]
      by_cases hxyz : x' = x ∧ y' = y ∧ z' = z
      . rw [if_pos hxyz, hxyz.left, hxyz.right.left, hxyz.right.right, Function.update_self]
      . rw [if_neg hxyz, Function.update_of_ne]
        . simp only [hc]
        . simpa using hxyz
    . rw [if_neg hch, Function.update_of_ne]
      simp [hch]

theorem changeSl_spec (hc : s.mem.chunkAt ch = some c) {sl : Nat} (hsl : sl ≤ 15)
    : ∃ s', s.changeSl p ch sl = .ok s'
        ∧ s.mem.Relit s'.mem
        ∧ s'.abs
            =
          if sl ≠ s.mem.lightAt ⟨ch, p.bx, p.y, p.bz⟩ then
            s.mem.relaxation.put s.abs p ⟨ch, p.bx, p.y, p.bz⟩ sl
          else
            s.abs := by
  obtain ⟨m₁, hm₁, hrelit, hlight⟩ :=
    WorldMemory.readSkyLight_spec (x := p.bx) (y := p.y) (z := p.bz) hc
  unfold changeSl
  rw [hm₁]
  simp only [bind, Except.bind]
  split
  . obtain ⟨c₁, hc₁, _⟩ := hrelit.chunkAt hc
    have halive := WorldMemory.alive_iff_chunkAt.mpr ⟨c₁, hc₁⟩
    rw [WorldMemory.editChunk_ok halive]
    refine ⟨_, rfl, ?_, ?_⟩
    . exact hrelit.trans (WorldMemory.relit_edit (fun _ _ => Chunk.blocks_setSkyLight))
    . unfold abs enqueueSlNeighbours Relaxation.put
      dsimp only
      rw [lightAt_setSkyLight hc₁ hsl, hlight]
      rfl
  . refine ⟨_, rfl, hrelit, ?_⟩
    unfold abs
    dsimp only
    rw [hlight]

theorem calcSl_spec (h : s.mem.Sound)
    : ∃ s', s.calcSl p = .ok s'
        ∧ s.mem.Relit s'.mem
        ∧ s'.abs = s.mem.relaxation.recompute s.abs p := by
  unfold calcSl Relaxation.recompute
  cases hch : s.mem.getChunk p.chunkPos.x p.chunkPos.z with
  | none =>
    have hcell : s.mem.relaxation.cell p = none := by
      simp [WorldMemory.relaxation, WorldMemory.cell, hch]
    rw [hcell]
    exact ⟨s, rfl, .refl _, rfl⟩
  | some ch =>
    have hcell : s.mem.relaxation.cell p = some ⟨ch, p.bx, p.y, p.bz⟩ := by
      simp [WorldMemory.relaxation, WorldMemory.cell, hch]
    obtain ⟨c, hc⟩ := h.chunkAt_getChunk hch
    have haround := h.alive_around hch (x := p.bx) (y := p.y) (z := p.bz)
    obtain ⟨m₁, hm₁, ht⟩ := WorldMemory.rightSkyLight_spec hc haround
    obtain ⟨c₁, hc₁, _⟩ := ht.left.chunkAt hc
    have hle : s.mem.rightLight s.mem.lightAt ⟨ch, p.bx, p.y, p.bz⟩ ≤ 15 :=
      WorldMemory.rightLight_le (fun cell => Nat.le_of_lt_succ (WorldMemory.lightAt_lt cell)) _
    obtain ⟨s', hs', hrelit, habs⟩ :=
      changeSl_spec (s := { s with mem := m₁ }) (p := p) hc₁ hle
    rw [hcell]
    refine ⟨s', ?_, ht.left.trans hrelit, ?_⟩
    . dsimp only
      rw [WorldMemory.get_of_chunkAt hc]
      simp only [bind, Except.bind]
      rw [hm₁]
      exact hs'
    . rw [habs]
      unfold abs
      rw [ht.left.relaxation, ht.right]
      rfl

theorem enqueueSlNoLock_of_chunkAt (hch : s.mem.getChunk p.chunkPos.x p.chunkPos.z = some ch)
    (hc : s.mem.chunkAt ch = some c) {binf : BlockInfo}
    (hbinf : BlockInfo.fromId (c.getId p.bx p.y p.bz) = some binf)
    : ∃ s', s.enqueueSlNoLock p = .ok s'
        ∧ s.mem.Relit s'.mem
        ∧ s.mem.relaxation.enqueue s.abs p = some s'.abs := by
  have hcell : s.mem.relaxation.cell p = some ⟨ch, p.bx, p.y, p.bz⟩ := by
    simp [WorldMemory.relaxation, WorldMemory.cell, hch]
  have hfixed : s.mem.relaxation.fixed ⟨ch, p.bx, p.y, p.bz⟩
      = if binf.isOpaque then some (15 - binf.opacity) else none := by
    simp only [WorldMemory.relaxation, WorldMemory.opaqueLight, WorldMemory.idAt_of_chunkAt hc,
      Option.bind_some, hbinf]
  unfold enqueueSlNoLock Relaxation.enqueue
  rw [hch, hcell]
  dsimp only
  rw [WorldMemory.get_of_chunkAt hc, hfixed]
  simp only [bind, Except.bind]
  rw [hbinf]
  dsimp only
  by_cases hopaque : binf.isOpaque
  . obtain ⟨s', hs', hrelit, habs⟩ := changeSl_spec (p := p) hc (Nat.sub_le 15 binf.opacity)
    rw [if_pos hopaque, if_pos hopaque]
    refine ⟨s', hs', hrelit, ?_⟩
    rw [habs, apply_ite some]
    rfl
  . rw [if_neg hopaque, if_neg hopaque]
    exact ⟨_, rfl, .refl _, rfl⟩

/--
A call needs a chunk that is loaded and a block that is known.
-/
theorem enqueueSlNoLock_spec (h : s.mem.Sound) {cell : LightCell} (hcell : s.mem.cell p = some cell)
    (hknown : s.mem.Known cell)
    : ∃ s', s.enqueueSlNoLock p = .ok s'
        ∧ s.mem.Relit s'.mem
        ∧ s.mem.relaxation.enqueue s.abs p = some s'.abs := by
  unfold WorldMemory.cell at hcell
  rw [Option.map_eq_some_iff] at hcell
  obtain ⟨ch, hch, hmk⟩ := hcell
  subst hmk
  obtain ⟨c, hc⟩ := h.chunkAt_getChunk hch
  unfold WorldMemory.Known at hknown
  rw [WorldMemory.idAt_of_chunkAt hc, Option.bind_some] at hknown
  obtain ⟨binf, hbinf⟩ := Option.ne_none_iff_exists'.mp hknown
  exact enqueueSlNoLock_of_chunkAt hch hc hbinf

/--
A call that returns did what the relaxation does.
-/
theorem enqueue_of_ok {s' : Lighting} (h : s.enqueueSlNoLock p = .ok s')
    : s.mem.Relit s'.mem ∧ s.mem.relaxation.enqueue s.abs p = some s'.abs := by
  have hok := h
  unfold enqueueSlNoLock at h
  split at h
  . cases h
  . next ch hch =>
    cases hget : s.mem.heap.get ch with
    | none =>
      unfold WorldMemory.get at h
      rw [hget] at h
      cases h
    | some obj =>
      have hc := WorldMemory.chunkAt_of_get hget
      rw [WorldMemory.get_ok hget] at h
      simp only [bind, Except.bind] at h
      split at h
      . cases h
      . next binf hbinf =>
        obtain ⟨s₁, hs₁, hrelit, habs⟩ := enqueueSlNoLock_of_chunkAt hch hc hbinf
        rw [hok] at hs₁
        injection hs₁ with hs₁
        exact hs₁ ▸ ⟨hrelit, habs⟩

/--
What a call needs to be made.
-/
def Ready (m : WorldMemory) (p : BlockPos) : Prop :=
  ∃ cell, m.cell p = some cell ∧ m.Known cell

theorem ready_congr {m m' : WorldMemory} {p : BlockPos} (h : m.Relit m') : Ready m' p ↔ Ready m p := by
  unfold Ready
  rw [h.cell, h.known]

theorem enqueueSlNoLock_of_not_ready (h : s.mem.Sound) (hp : ¬ Ready s.mem p)
    : s.enqueueSlNoLock p = .error .nullPointer := by
  unfold enqueueSlNoLock
  cases hch : s.mem.getChunk p.chunkPos.x p.chunkPos.z with
  | none => rfl
  | some ch =>
    obtain ⟨c, hc⟩ := h.chunkAt_getChunk hch
    have hcell : s.mem.cell p = some ⟨ch, p.bx, p.y, p.bz⟩ := by
      unfold WorldMemory.cell
      rw [hch]
      rfl
    have hunknown : BlockInfo.fromId (c.getId p.bx p.y p.bz) = none := by
      by_contra hknown
      refine hp ⟨_, hcell, ?_⟩
      unfold WorldMemory.Known
      rw [WorldMemory.idAt_of_chunkAt hc]
      exact hknown
    dsimp only
    rw [WorldMemory.get_of_chunkAt hc]
    simp only [bind, Except.bind]
    rw [hunknown]

end Lighting

end HCraft
