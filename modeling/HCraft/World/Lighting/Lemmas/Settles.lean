import HCraft.World.Lighting.Lemmas.Runs

/-!
This module shows that the light of the blocks is right once the queue is empty.
-/

namespace HCraft

namespace BlockPos

variable {p q : BlockPos}

/--
There is an `int` after the chunk coordinate of a block.
-/
theorem shift_chunkPos (p : BlockPos) (d : Direction)
    : p.chunkPos.shift d
        =
      match d with
      | .north => ⟨p.chunkPos.x, p.chunkPos.z - 1⟩
      | .west => ⟨p.chunkPos.x - 1, p.chunkPos.z⟩
      | .south => ⟨p.chunkPos.x, p.chunkPos.z + 1⟩
      | .east => ⟨p.chunkPos.x + 1, p.chunkPos.z⟩ := by
  have hx := p.hx
  have hz := p.hz
  have hpx := p.x_eq
  have hpz := p.z_eq
  cases d with
  | north | west | south | east =>
    simp only [ChunkPos.shift, ChunkPos.mk.injEq, true_and, and_true]
    apply Bin.wrap32_eq_self
    . omega
    . omega

theorem mem_neighbours_of_x (hx : p.x = q.x - 1 ∨ p.x = q.x + 1) (hy : p.y = q.y) (hz : p.z = q.z)
    : p ∈ q.neighbours := by
  have hp := p.hx
  unfold neighbours
  simp only [List.mem_append, List.mem_cons, List.not_mem_nil, or_false, ext_iff, moveX, hy, hz]
  cases hx with
  | inl hx =>
    rw [← hx, Bin.wrap32_eq_self hp.left hp.right]
    simp
  | inr hx =>
    rw [← hx, Bin.wrap32_eq_self hp.left hp.right]
    simp

theorem mem_neighbours_of_z (hx : p.x = q.x) (hy : p.y = q.y) (hz : p.z = q.z - 1 ∨ p.z = q.z + 1)
    : p ∈ q.neighbours := by
  have hp := p.hz
  unfold neighbours
  simp only [List.mem_append, List.mem_cons, List.not_mem_nil, or_false, ext_iff, moveZ, hy, hx]
  cases hz with
  | inl hz =>
    rw [← hz, Bin.wrap32_eq_self hp.left hp.right]
    simp
  | inr hz =>
    rw [← hz, Bin.wrap32_eq_self hp.left hp.right]
    simp

theorem mem_neighbours_of_y (hx : p.x = q.x)
    (hy : (q.y > 0 ∧ p.y = q.y - 1) ∨ (q.y < 255 ∧ p.y = q.y + 1)) (hz : p.z = q.z)
    : p ∈ q.neighbours := by
  unfold neighbours
  rw [List.mem_append, List.mem_append]
  cases hy with
  | inl hy =>
    left
    right
    rw [if_pos hy.left, List.mem_singleton, ext_iff]
    exact ⟨hx, hy.right, hz⟩
  | inr hy =>
    right
    rw [if_pos hy.left, List.mem_singleton, ext_iff]
    exact ⟨hx, hy.right, hz⟩

theorem exists_mem_neighbours_chunkPos (p : BlockPos) : ∃ q ∈ p.neighbours, q.chunkPos = p.chunkPos := by
  by_cases hy : p.y > 0
  . exact ⟨{ p with y := p.y - 1 }, mem_neighbours_of_y rfl (.inl ⟨hy, rfl⟩) rfl, rfl⟩
  . have hy' : p.y < 255 := by omega
    exact ⟨{ p with y := p.y + 1 }, mem_neighbours_of_y rfl (.inr ⟨hy', rfl⟩) rfl, rfl⟩

end BlockPos

namespace Neighbour

variable {neighbours : Direction → Option Nat} {ch ch' : Nat} {x x' z z' : Fin 16} {y y' : Fin 256}

theorem mem_around (h : .block ch' x' y' z' ∈ around neighbours ch x y z)
    : (y' = y ∧ z' = z
          ∧ ((x = 15 ∧ x' = 0 ∧ neighbours .east = some ch') ∨ (x ≠ 15 ∧ x' = x + 1 ∧ ch' = ch)))
        ∨ (y' = y ∧ z' = z
          ∧ ((x = 0 ∧ x' = 15 ∧ neighbours .west = some ch') ∨ (x ≠ 0 ∧ x' = x - 1 ∧ ch' = ch)))
        ∨ (y' = y ∧ x' = x
          ∧ ((z = 15 ∧ z' = 0 ∧ neighbours .south = some ch') ∨ (z ≠ 15 ∧ z' = z + 1 ∧ ch' = ch)))
        ∨ (y' = y ∧ x' = x
          ∧ ((z = 0 ∧ z' = 15 ∧ neighbours .north = some ch') ∨ (z ≠ 0 ∧ z' = z - 1 ∧ ch' = ch)))
        ∨ (x' = x ∧ z' = z ∧ ch' = ch
          ∧ ((y ≠ 255 ∧ y' = y + 1) ∨ (y ≠ 0 ∧ y' = y - 1))) := by
  have hacross (nch : Option Nat) (x₀ z₀ : Fin 16) (h : .block ch' x' y' z' = across nch x₀ y z₀)
      : nch = some ch' ∧ x' = x₀ ∧ y' = y ∧ z' = z₀ := by
    unfold across at h
    cases nch with
    | none => cases h
    | some nch =>
      injection h with hch hx hy hz
      exact ⟨congrArg some hch.symm, hx, hy, hz⟩
  simp only [around, List.mem_cons, List.not_mem_nil, or_false] at h
  rcases h with h | h | h | h | h | h
  . split at h
    . next hx =>
      obtain ⟨hch, hx', hy', hz'⟩ := hacross _ _ _ h
      exact .inl ⟨hy', hz', .inl ⟨hx, hx', hch⟩⟩
    . next hx =>
      injection h with hch hx' hy' hz'
      exact .inl ⟨hy', hz', .inr ⟨hx, hx', hch⟩⟩
  . split at h
    . next hx =>
      obtain ⟨hch, hx', hy', hz'⟩ := hacross _ _ _ h
      exact .inr (.inl ⟨hy', hz', .inl ⟨hx, hx', hch⟩⟩)
    . next hx =>
      injection h with hch hx' hy' hz'
      exact .inr (.inl ⟨hy', hz', .inr ⟨hx, hx', hch⟩⟩)
  . split at h
    . next hz =>
      obtain ⟨hch, hx', hy', hz'⟩ := hacross _ _ _ h
      exact .inr (.inr (.inl ⟨hy', hx', .inl ⟨hz, hz', hch⟩⟩))
    . next hz =>
      injection h with hch hx' hy' hz'
      exact .inr (.inr (.inl ⟨hy', hx', .inr ⟨hz, hz', hch⟩⟩))
  . split at h
    . next hz =>
      obtain ⟨hch, hx', hy', hz'⟩ := hacross _ _ _ h
      exact .inr (.inr (.inr (.inl ⟨hy', hx', .inl ⟨hz, hz', hch⟩⟩)))
    . next hz =>
      injection h with hch hx' hy' hz'
      exact .inr (.inr (.inr (.inl ⟨hy', hx', .inr ⟨hz, hz', hch⟩⟩)))
  . split at h
    . cases h
    . next hy =>
      injection h with hch hx' hy' hz'
      exact .inr (.inr (.inr (.inr ⟨hx', hz', hch, .inl ⟨hy, hy'⟩⟩)))
  . split at h
    . cases h
    . next hy =>
      injection h with hch hx' hy' hz'
      exact .inr (.inr (.inr (.inr ⟨hx', hz', hch, .inr ⟨hy, hy'⟩⟩)))

theorem not_mem_around_self : .block ch' x y z ∉ around neighbours ch x y z := by
  intro h
  rcases mem_around h with h | h | h | h | h
  all_goals omega

theorem maxValue_update {v : LightCell → Nat} {ns : List Neighbour} {cell : LightCell} {sl : Nat}
    (h : .block cell.ch cell.x cell.y cell.z ∉ ns)
    : maxValue (Function.update v cell sl) ns = maxValue v ns := by
  induction ns with
  | nil => rfl
  | cons n ns ih =>
    rw [List.mem_cons, not_or] at h
    have hvalue : n.value (Function.update v cell sl) = n.value v := by
      cases n with
      | light sl => rfl
      | block ch x y z =>
        have hne : (⟨ch, x, y, z⟩ : LightCell) ≠ cell := by
          rintro rfl
          exact h.left rfl
        exact Function.update_of_ne hne _ _
    unfold maxValue at ih ⊢
    rw [List.foldr_cons, List.foldr_cons, hvalue, ih h.right]

end Neighbour

namespace WorldMemory

variable {m m' : WorldMemory} {p q : BlockPos} {c d : LightCell}

/--
The position lies in a chunk that is loaded and within the world.
-/
def Inside (m : WorldMemory) (p : BlockPos) : Prop :=
  m.InBounds p.chunkPos ∧ m.getChunk p.chunkPos.x p.chunkPos.z ≠ none

instance (m : WorldMemory) (p : BlockPos) : Decidable (m.Inside p) :=
  have : Decidable (m.InBounds p.chunkPos) := inferInstanceAs (Decidable (¬ _))
  inferInstanceAs (Decidable (_ ∧ _))

theorem Relit.inside (h : Relit m m') : m'.Inside = m.Inside := by
  funext p
  unfold Inside
  rw [h.edited.getChunk, h.edited.inBounds]

/--
The chunk of a position within the world has the position of that chunk.
-/
theorem Mapped.chunkAt_cell (h : m.Mapped) (hp : m.Inside p) (hc : m.cell p = some c)
    : ∃ ch, m.chunks.lookup (index p.chunkPos.x p.chunkPos.z) = some c.ch
        ∧ c.ch ≠ m.edgeCh
        ∧ m.chunkAt c.ch = some ch
        ∧ ch.pos = p.chunkPos := by
  have hget := (cell_eq_some hc).left
  cases h.getChunk_cases p.isInt_chunkPos hget with
  | inl hedge => exact absurd hp.left hedge.left
  | inr hin =>
    obtain ⟨_, hne, ch, hch, hpos⟩ := hin
    rw [getChunk_of_inBounds hp.left] at hget
    exact ⟨ch, hget, hne, hch, hpos⟩

theorem chunkPos_eq_of_cell (h : m.Mapped) (hp : m.Inside p) (hq : m.Inside q)
    (hc : m.cell p = some c) (hd : m.cell q = some d) (hcd : d.ch = c.ch)
    : q.chunkPos = p.chunkPos := by
  obtain ⟨ch, _, _, hch, hpos⟩ := h.chunkAt_cell hp hc
  obtain ⟨ch', _, _, hch', hpos'⟩ := h.chunkAt_cell hq hd
  rw [hcd, hch] at hch'
  injection hch' with hch'
  rw [← hpos, ← hpos', hch']

theorem chunkPos_eq_of_neighbour (h : m.Sound) (hp : m.Inside p) (hq : m.Inside q)
    (hc : m.cell p = some c) (hd : m.cell q = some d) (dir : Direction)
    (hdir : m.neighbour c.ch dir = some d.ch)
    : q.chunkPos = p.chunkPos.shift dir := by
  obtain ⟨ch, hlookup, _, hch, hpos⟩ := h.chunkAt_cell hp hc
  obtain ⟨ch', _, hne, hch', hpos'⟩ := h.chunkAt_cell hq hd
  rw [h.linked _ _ ch hlookup hch, hpos] at hdir
  cases h.getChunk_cases (p.isInt_chunkPos.shift dir) hdir with
  | inl hedge => exact absurd hedge.right hne
  | inr hin =>
    obtain ⟨_, _, ch'', hch'', hpos''⟩ := hin
    rw [hch'] at hch''
    injection hch'' with hch''
    rw [← hpos'', ← hch'', hpos']

theorem mem_neighbours_of_around (h : m.Sound) (hp : m.Inside p) (hq : m.Inside q)
    (hc : m.cell p = some c) (hd : m.cell q = some d)
    (hmem : .block d.ch d.x d.y d.z ∈ Neighbour.around (m.neighbour c.ch) c.ch c.x c.y c.z)
    : p ∈ q.neighbours := by
  have hcell := (cell_eq_some hc).right
  have hcell' := (cell_eq_some hd).right
  have hx : c.x = p.bx := by rw [hcell]
  have hy : c.y = p.y := by rw [hcell]
  have hz : c.z = p.bz := by rw [hcell]
  have hx' : d.x = q.bx := by rw [hcell']
  have hy' : d.y = q.y := by rw [hcell']
  have hz' : d.z = q.bz := by rw [hcell']
  rw [hx, hy, hz, hx', hy', hz'] at hmem
  have hsame := chunkPos_eq_of_cell h.toMapped hp hq hc hd
  have hacross := chunkPos_eq_of_neighbour h hp hq hc hd
  have hpx := p.x_eq
  have hpz := p.z_eq
  have hqx := q.x_eq
  have hqz := q.z_eq
  rcases Neighbour.mem_around hmem with hcase | hcase | hcase | hcase | hcase
  . obtain ⟨hyq, hzq, hcross⟩ := hcase
    have hxpq : q.x = p.x + 1 ∧ q.z = p.z := by
      cases hcross with
      | inl hborder =>
        obtain ⟨hb, hb', hdir⟩ := hborder
        have hpos := (hacross .east hdir).trans (p.shift_chunkPos .east)
        rw [hpos] at hqx hqz
        dsimp only at hqx hqz
        omega
      | inr hinner =>
        obtain ⟨hb, hb', hch⟩ := hinner
        rw [hsame hch] at hqx hqz
        omega
    exact BlockPos.mem_neighbours_of_x (.inl (by omega)) hyq.symm hxpq.right.symm
  . obtain ⟨hyq, hzq, hcross⟩ := hcase
    have hxpq : q.x = p.x - 1 ∧ q.z = p.z := by
      cases hcross with
      | inl hborder =>
        obtain ⟨hb, hb', hdir⟩ := hborder
        have hpos := (hacross .west hdir).trans (p.shift_chunkPos .west)
        rw [hpos] at hqx hqz
        dsimp only at hqx hqz
        omega
      | inr hinner =>
        obtain ⟨hb, hb', hch⟩ := hinner
        rw [hsame hch] at hqx hqz
        omega
    exact BlockPos.mem_neighbours_of_x (.inr (by omega)) hyq.symm hxpq.right.symm
  . obtain ⟨hyq, hxq, hcross⟩ := hcase
    have hzpq : q.z = p.z + 1 ∧ q.x = p.x := by
      cases hcross with
      | inl hborder =>
        obtain ⟨hb, hb', hdir⟩ := hborder
        have hpos := (hacross .south hdir).trans (p.shift_chunkPos .south)
        rw [hpos] at hqx hqz
        dsimp only at hqx hqz
        omega
      | inr hinner =>
        obtain ⟨hb, hb', hch⟩ := hinner
        rw [hsame hch] at hqx hqz
        omega
    exact BlockPos.mem_neighbours_of_z hzpq.right.symm hyq.symm (.inl (by omega))
  . obtain ⟨hyq, hxq, hcross⟩ := hcase
    have hzpq : q.z = p.z - 1 ∧ q.x = p.x := by
      cases hcross with
      | inl hborder =>
        obtain ⟨hb, hb', hdir⟩ := hborder
        have hpos := (hacross .north hdir).trans (p.shift_chunkPos .north)
        rw [hpos] at hqx hqz
        dsimp only at hqx hqz
        omega
      | inr hinner =>
        obtain ⟨hb, hb', hch⟩ := hinner
        rw [hsame hch] at hqx hqz
        omega
    exact BlockPos.mem_neighbours_of_z hzpq.right.symm hyq.symm (.inr (by omega))
  . obtain ⟨hxq, hzq, hch, hyq⟩ := hcase
    rw [hsame hch] at hqx hqz
    apply BlockPos.mem_neighbours_of_y
    . omega
    . omega
    . omega

theorem rightLight_update (hc : .block d.ch d.x d.y d.z
      ∉ Neighbour.around (m.neighbour c.ch) c.ch c.x c.y c.z) (v : LightCell → Nat) (sl : Nat)
    : m.rightLight (Function.update v d sl) c = m.rightLight v c := by
  unfold rightLight
  rw [Neighbour.maxValue_update hc]

/--
The light of a block depends on that of the blocks around it.
-/
theorem relaxation_local (h : m.Sound) : m.relaxation.Local m.Inside where
  cell_inj := by
    intro p q hp hq heq
    obtain ⟨ch, hch⟩ := Option.ne_none_iff_exists'.mp hp.right
    have hc : m.cell p = some ⟨ch, p.bx, p.y, p.bz⟩ := by
      unfold cell
      rw [hch]
      rfl
    have hd : m.cell q = some ⟨ch, p.bx, p.y, p.bz⟩ := by
      rw [← hc]
      exact heq.symm
    have hpos := chunkPos_eq_of_cell h.toMapped hp hq hc hd rfl
    have hcell := (cell_eq_some hd).right
    simp only [LightCell.mk.injEq, true_and] at hcell
    exact BlockPos.eq_of_chunkPos hpos.symm hcell.left hcell.right.left hcell.right.right
  rule_self := by
    intro p c _ _ v sl
    exact rightLight_update Neighbour.not_mem_around_self v sl
  rule_of_not_mem := by
    intro p q c d hp hq hc hd hmem _ v sl
    apply rightLight_update
    exact fun haround => hmem (mem_neighbours_of_around h hp hq hc hd haround)
  next_not_good := by
    intro p hp
    obtain ⟨q, hq, hpos⟩ := p.exists_mem_neighbours_chunkPos
    refine ⟨q, hq, ?_⟩
    unfold Inside at hp ⊢
    rw [hpos]
    exact hp

end WorldMemory

namespace Lighting

open Transition

/--
All calls are for positions that lie in loaded chunks within the world.
-/
def CallsInside (r : Except Fault Lighting) : Prop :=
  ∀ s, r = .ok s → ∀ p ∈ s.calls, s.mem.Inside p

instance : DecidablePred CallsInside
  | .error _ => .isTrue nofun
  | .ok s => decidable_of_iff (∀ p ∈ s.calls, s.mem.Inside p)
    ⟨fun h _ hs => by injection hs with hs; exact hs ▸ h, fun h => h s rfl⟩

/--
The light of the block at `p` is what `calc_sl` makes it. `c` is the chunk at `ch` that has it.
-/
def LocallyRight (m : WorldMemory) (p : BlockPos) (ch : Nat) (c : Chunk) : Prop :=
  c.skyLight p.bx p.y p.bz
    =
  if (p.y : Int) ≥ c.getHeight p.bx p.bz then
    15
  else
    Neighbour.maxValue m.lightAt (Neighbour.around (m.neighbour ch) ch p.bx p.y p.bz) - 1

/--
Light passes through the block at `p`.
-/
def Clear (p : BlockPos) (c : Chunk) : Prop :=
  ∃ binf, BlockInfo.fromId (c.getId p.bx p.y p.bz) = some binf ∧ binf.isOpaque = false

/--
What `P` says of all blocks that light passes through.
-/
def ForClear (m : WorldMemory) (P : BlockPos → Nat → Chunk → Prop) : Prop :=
  ∀ p ch c, m.InBounds p.chunkPos → m.getChunk p.chunkPos.x p.chunkPos.z = some ch →
    m.chunkAt ch = some c → Clear p c → P p ch c

variable {s s' : Lighting} {m : WorldMemory} {p : BlockPos} {ch : Nat} {c : Chunk}

theorem opaqueLight_eq_none_iff (hc : m.chunkAt ch = some c)
    (hknown : m.Known ⟨ch, p.bx, p.y, p.bz⟩)
    : m.opaqueLight ⟨ch, p.bx, p.y, p.bz⟩ = none ↔ Clear p c := by
  unfold WorldMemory.Known at hknown
  unfold WorldMemory.opaqueLight Clear
  rw [WorldMemory.idAt_of_chunkAt hc, Option.bind_some] at hknown ⊢
  cases hinfo : BlockInfo.fromId (c.getId p.bx p.y p.bz) with
  | none => exact absurd hinfo hknown
  | some binf => simp

theorem locallyRight_iff (hc : m.chunkAt ch = some c)
    : LocallyRight m p ch c
        ↔
      m.rightLight m.lightAt ⟨ch, p.bx, p.y, p.bz⟩ = m.lightAt ⟨ch, p.bx, p.y, p.bz⟩ := by
  unfold LocallyRight WorldMemory.rightLight WorldMemory.blocksAt
  rw [hc, WorldMemory.lightAt_of_chunkAt hc, eq_comm]
  exact Iff.rfl

/--
The queue is complete if and only if it has all blocks whose light is wrong.
-/
theorem covered_iff (h : s.mem.Sound)
    (hknown : ∀ p cell, s.mem.cell p = some cell → s.mem.Known cell)
    : s.mem.relaxation.Covered s.mem.Inside s.abs
        ↔
      ForClear s.mem
        (fun p ch c => ¬ LocallyRight s.mem p ch c → p ∈ s.updates ∨ p ∈ s.calls) := by
  constructor
  . intro hcovered p ch c hin hch hc hclear hwrong
    have hcell : s.mem.cell p = some ⟨ch, p.bx, p.y, p.bz⟩ := by
      unfold WorldMemory.cell
      rw [hch]
      rfl
    rw [locallyRight_iff hc] at hwrong
    apply hcovered p _ ⟨hin, by simp [hch]⟩ hcell
    . exact (opaqueLight_eq_none_iff hc (hknown p _ hcell)).mpr hclear
    . exact hwrong
  . intro hqueue p cell hin hcell hfixed hwrong
    obtain ⟨hch, hmk⟩ := WorldMemory.cell_eq_some hcell
    obtain ⟨c, _, _, hc, _⟩ := h.chunkAt_cell hin hcell
    have hknown := hknown p cell hcell
    rw [hmk] at hfixed hwrong hknown
    apply hqueue p cell.ch c hin.left hch hc
    . exact (opaqueLight_eq_none_iff hc hknown).mp hfixed
    . rw [locallyRight_iff hc]
      exact hwrong

theorem ready_of_inside (hknown : ∀ p cell, m.cell p = some cell → m.Known cell) (hp : m.Inside p)
    : Ready m p := by
  obtain ⟨ch, hch⟩ := Option.ne_none_iff_exists'.mp hp.right
  have hcell : m.cell p = some ⟨ch, p.bx, p.y, p.bz⟩ := by
    unfold WorldMemory.cell
    rw [hch]
    rfl
  exact ⟨_, hcell, hknown p _ hcell⟩

/--
What a run keeps: the queue stays complete.
-/
structure Settling (s : Lighting) : Prop where
  sound : s.mem.Sound
  known : ∀ p cell, s.mem.cell p = some cell → s.mem.Known cell
  covered : s.mem.relaxation.Covered s.mem.Inside s.abs

theorem Settling.act (h : Settling s) (hcalls : CallsInside (.ok s)) {a : Action}
    {r : Except Fault Lighting} (hact : s.act a = some r) (hcalls' : CallsInside r)
    : ∃ s', r = .ok s' ∧ Settling s' := by
  have hready : ∀ p ∈ s.calls, Ready s.mem p :=
    fun p hp => ready_of_inside h.known (hcalls s rfl p hp)
  obtain ⟨s', hok, hrelit, hstep⟩ := act_spec h.sound hready hact
  refine ⟨s', hok, hrelit.edited.sound h.sound, ?_, ?_⟩
  . rw [hrelit.cell, hrelit.known]
    exact h.known
  . have hinside' := hcalls' s' hok
    rw [hrelit.inside] at hinside' ⊢
    rw [hrelit.relaxation]
    exact h.covered.step (WorldMemory.relaxation_local h.sound) (hcalls s rfl) hinside' hstep

theorem Settling.exec (h : Settling s) {as : List Action} (hexec : exec step (.ok s) as = some (.ok s'))
    (hinside : Always step CallsInside (.ok s) as) : Settling s' := by
  induction as generalizing s with
  | nil =>
    injection hexec with hexec
    injection hexec with hexec
    exact hexec ▸ h
  | cons a as ih =>
    obtain ⟨r, hact, hrest⟩ := exec_cons.mp hexec
    have hnext := hinside.right r hact
    obtain ⟨s₁, hok, hsettling⟩ := h.act hinside.left hact hnext.first
    subst hok
    exact ih hsettling hrest hnext

/--
Once the queue is empty, the light of every block that light passes through is right, provided the
queue had all that was wrong before and no position outside of the loaded world was looked at.
-/
theorem light_right_of_empty (h : s.mem.Sound)
    (hknown : ∀ p cell, s.mem.cell p = some cell → s.mem.Known cell)
    (hqueue : ForClear s.mem (fun p ch c => ¬ LocallyRight s.mem p ch c → p ∈ s.updates))
    {as : List Action} (hexec : exec step (.ok s) as = some (.ok s'))
    (hinside : Always step CallsInside (.ok s) as) (hupdates : s'.updates = []) (hcalls : s'.calls = [])
    : ForClear s'.mem (LocallyRight s'.mem) := by
  have hcovered := (covered_iff h hknown).mpr
    (fun p ch c hin hch hc hclear hwrong => .inl (hqueue p ch c hin hch hc hclear hwrong))
  have hend := Settling.exec ⟨h, hknown, hcovered⟩ hexec hinside
  have hright := (covered_iff hend.sound hend.known).mp hend.covered
  intro p ch c hin hch hc hclear
  by_contra hwrong
  have hmem := hright p ch c hin hch hc hclear hwrong
  simp [hupdates, hcalls] at hmem

section Shaded

/--
An empty chunk in full daylight.
-/
def bright : Chunk :=
  { Chunk.new 0 0 with subs := fun _ => some { SubChunk.new with sl := fun _ => 0xFF } }

theorem skyLight_bright (x z : Fin 16) (y : Fin 256) : bright.skyLight x y z = 15 := by
  have hsl : (bright.getSub (Chunk.subIndex y)).sl = fun _ => 0xFF := rfl
  rw [Chunk.skyLight_eq, hsl]
  unfold Chunk.getNibble
  dsimp only
  split
  . decide
  . decide

theorem getId_bright (x z : Fin 16) (y : Fin 256) : bright.getId x y z = 0 := by
  have htypes : (bright.getSub (Chunk.subIndex y)).types = fun _ => 0 := rfl
  rw [Chunk.getId_eq, htypes]
  dsimp only
  decide

def shadedAt : BlockPos :=
  ⟨5, 5, 5, by decide, by decide⟩

/--
One of the blocks is dark.
-/
def shaded : Chunk :=
  bright.setSkyLight 5 5 5 0

/--
The block is lit, its neighbours are enqueued and found to be right.
-/
def shadedRun : List Action :=
  .work 0 :: (List.replicate 6 .call ++ List.replicate 6 (.work 0))

theorem getId_shaded (x z : Fin 16) (y : Fin 256) : shaded.getId x y z = 0 :=
  Chunk.getId_setSkyLight.trans (getId_bright x z y)

theorem locallyRight_shaded {m : WorldMemory} {p : BlockPos} {ch : Nat}
    (hne : ¬ (p.bx = 5 ∧ p.y = 5 ∧ p.bz = 5)) : LocallyRight m p ch shaded := by
  have hheight : (p.y : Int) ≥ shaded.getHeight p.bx p.bz := Int.natCast_nonneg _
  have hzero : (0 : UInt8).toNat < 16 := by decide
  unfold LocallyRight shaded
  rw [Chunk.skyLight_setSkyLight hzero, if_neg hne, skyLight_bright]
  exact (if_pos hheight).symm

theorem eq_shadedAt {p : BlockPos} (hpos : p.chunkPos = ⟨0, 0⟩)
    (h : p.bx = 5 ∧ p.y = 5 ∧ p.bz = 5) : p = shadedAt := by
  obtain ⟨x, y, z, hx, hz⟩ := p
  obtain ⟨hbx, hy, hbz⟩ := h
  unfold BlockPos.chunkPos at hpos
  rw [ChunkPos.mk.injEq, Int.shiftRight_eq_div_pow, Int.shiftRight_eq_div_pow] at hpos
  have hbx' : (x % 16).toNat = 5 := congrArg Fin.val hbx
  have hbz' : (z % 16).toNat = 5 := congrArg Fin.val hbz
  unfold shadedAt
  rw [BlockPos.mk.injEq]
  dsimp only at hpos hy
  exact ⟨by omega, hy, by omega⟩

/--
In a world of one chunk, a block in the open that is dark is lit.
-/
theorem light_right_of_empty_shaded
    : ∃ ch m s', (WorldMemory.new 16 16 (.new 0 0)).loadChunk (some shaded) .empty 0 0 = .ok (ch, m)
        ∧ exec step (.ok { mem := m, updates := [shadedAt], calls := [] }) shadedRun = some (.ok s')
        ∧ ForClear s'.mem (LocallyRight s'.mem) := by
  have hair (x z : Fin 16) (y : Fin 256) : BlockInfo.fromId (shaded.getId x y z) ≠ none := by
    rw [getId_shaded]
    nofun
  obtain ⟨ch, m, hload, hloaded, hch, hcomplete⟩ := exists_complete (c := shaded) rfl
    (fun x y z => hair x z y)
  have hget {pos : ChunkPos} {ch' : Nat} {c : Chunk} (hpos : pos = ⟨0, 0⟩)
      (hget : m.getChunk pos.x pos.z = some ch') (hc : m.chunkAt ch' = some c) : c = shaded := by
    rw [hpos, hloaded.getChunk] at hget
    injection hget with hget
    rw [← hget, hch] at hc
    injection hc with hc
    exact hc.symm
  -- the run is evaluated
  have hruns : ∀ loaded ∈ ((WorldMemory.new 16 16 (.new 0 0)).loadChunk (some shaded) .empty 0 0).toOption,
      Always step CallsInside (.ok { mem := loaded.2, updates := [shadedAt], calls := [] }) shadedRun
        ∧ ((exec step (.ok { mem := loaded.2, updates := [shadedAt], calls := [] }) shadedRun).bind
          Except.toOption).map (fun s => (s.updates, s.calls)) = some ([], []) := by
    decide +kernel
  obtain ⟨halways, hends⟩ := hruns (ch, m) (by rw [hload]; rfl)
  obtain ⟨s', hs', hempty⟩ := Option.map_eq_some_iff.mp hends
  obtain ⟨r, hexec, hr⟩ := Option.bind_eq_some_iff.mp hs'
  obtain rfl : r = .ok s' := by
    cases r with
    | error fault => cases hr
    | ok s => exact congrArg Except.ok (Option.some.inj hr)
  injection hempty with hupdates hcalls
  refine ⟨ch, m, s', hload, hexec, ?_⟩
  apply light_right_of_empty hloaded.sound hcomplete.known _ hexec halways hupdates hcalls
  intro p ch' c hin' hch' hc _ hwrong
  rw [WorldMemory.inBounds_congr hloaded.width hloaded.depth, inBounds_new_iff] at hin'
  rw [List.mem_singleton]
  apply eq_shadedAt hin'
  by_contra hne
  exact hwrong (hget hin' hch' hc ▸ locallyRight_shaded hne)

end Shaded

end Lighting

end HCraft
