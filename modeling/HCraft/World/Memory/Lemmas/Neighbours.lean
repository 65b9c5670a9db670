import HCraft.World.Memory.Impl

/-!
This module contains what `set_chunk_neighbours` does to the pointers between chunks, and the invariant
that it keeps.
-/

namespace HCraft

namespace ChunkPos

/--
Both coordinates are values of an `int`.
-/
def IsInt (pos : ChunkPos) : Prop :=
  (-2 ^ 31 ≤ pos.x ∧ pos.x < 2 ^ 31) ∧ (-2 ^ 31 ≤ pos.z ∧ pos.z < 2 ^ 31)

instance (pos : ChunkPos) : Decidable pos.IsInt :=
  inferInstanceAs (Decidable (_ ∧ _))

variable {pos pos' : ChunkPos}

theorem IsInt.shift (h : pos.IsInt) (d : Direction) : (pos.shift d).IsInt := by
  have hx := h.left
  have hz := h.right
  cases d with
  | north => exact ⟨hx, Bin.le_wrap32 _, Bin.wrap32_lt _⟩
  | south => exact ⟨hx, Bin.le_wrap32 _, Bin.wrap32_lt _⟩
  | west => exact ⟨⟨Bin.le_wrap32 _, Bin.wrap32_lt _⟩, hz⟩
  | east => exact ⟨⟨Bin.le_wrap32 _, Bin.wrap32_lt _⟩, hz⟩

theorem shift_opposite (h : pos.IsInt) (d : Direction) : (pos.shift d).shift d.opposite = pos := by
  obtain ⟨⟨hx, hx'⟩, hz, hz'⟩ := h
  cases pos with
  | mk x z =>
    dsimp only at hx hx' hz hz'
    cases d with
    | north | west | south | east =>
      simp only [shift, Direction.opposite, mk.injEq, Bin.wrap32, true_and, and_true]
      omega

theorem shift_eq_iff (h : pos.IsInt) (h' : pos'.IsInt) (d : Direction)
    : pos.shift d = pos' ↔ pos = pos'.shift d.opposite := by
  constructor
  . intro heq
    rw [← heq, shift_opposite h]
  . intro heq
    have hback := shift_opposite h' d.opposite
    rw [Direction.opposite_opposite] at hback
    rw [heq, hback]

theorem shift_ne (h : pos.IsInt) (d : Direction) : pos.shift d ≠ pos := by
  obtain ⟨⟨hx, hx'⟩, hz, hz'⟩ := h
  cases pos with
  | mk x z =>
    dsimp only at hx hx' hz hz'
    cases d with
    | north | west | south | east =>
      simp only [shift, ne_eq, mk.injEq, Bin.wrap32]
      omega

end ChunkPos

namespace WorldMemory

section Index

theorem index_eq (x z : Int) : index x z = Bin.unsigned32 z * 2 ^ 32 + Bin.unsigned32 x := by
  unfold index
  rw [Nat.or_comm, Bin.shiftLeft_or_eq_add (Bin.unsigned32_lt x)]

theorem index_inj {pos pos' : ChunkPos} (h : pos.IsInt) (h' : pos'.IsInt)
    : index pos.x pos.z = index pos'.x pos'.z ↔ pos = pos' := by
  obtain ⟨hx, hz⟩ := h
  obtain ⟨hx', hz'⟩ := h'
  cases pos with
  | mk x z =>
    cases pos' with
    | mk x' z' =>
      dsimp only at hx hz hx' hz'
      simp only [index_eq, Bin.unsigned32, ChunkPos.mk.injEq]
      omega

end Index

section Views

variable (m : WorldMemory)

/--
The blocks of a chunk that has not been deleted.
-/
def chunkAt (ch : Nat) : Option Chunk :=
  (m.heap.get ch).map (·.chunk)

def neighbour (ch : Nat) (d : Direction) : Option Nat :=
  (m.heap.get ch).bind (·.neighbours d)

/--
`ch` is the chunk in the map at `pos`.
-/
def Holds (pos : ChunkPos) (ch : Nat) : Prop :=
  m.chunks.lookup (index pos.x pos.z) = some ch

def InBounds (pos : ChunkPos) : Prop :=
  ¬ m.world.OutOfBounds pos.x pos.z

end Views

variable {m m' m'' : WorldMemory} {ch nch : Nat} {d : Direction} {pos : ChunkPos}

theorem alive_iff_chunkAt : m.heap.Alive ch ↔ ∃ c, m.chunkAt ch = some c := by
  unfold chunkAt Heap.Alive
  cases m.heap.get ch with
  | none => simp
  | some obj => simp

theorem getChunk_of_outOfBounds (h : m.world.OutOfBounds pos.x pos.z)
    : m.getChunk pos.x pos.z = some m.edgeCh := by
  rw [getChunk, World.getChunk_eq, if_pos h]
  rfl

theorem getChunk_of_inBounds (h : m.InBounds pos)
    : m.getChunk pos.x pos.z = m.chunks.lookup (index pos.x pos.z) := by
  rw [getChunk, World.getChunk_eq, if_neg h]
  rfl

section Frame

/--
Nothing but pointers between chunks has changed.
-/
structure Relinked (m m' : WorldMemory) : Prop where
  width : m'.width = m.width
  depth : m'.depth = m.depth
  edgeCh : m'.edgeCh = m.edgeCh
  chunks : m'.chunks = m.chunks
  chunkAt : m'.chunkAt = m.chunkAt
  next : m'.heap.next = m.heap.next

theorem Relinked.refl (m : WorldMemory) : Relinked m m :=
  ⟨rfl, rfl, rfl, rfl, rfl, rfl⟩

theorem Relinked.trans (h : Relinked m m') (h' : Relinked m' m'') : Relinked m m'' where
  width := h'.width.trans h.width
  depth := h'.depth.trans h.depth
  edgeCh := h'.edgeCh.trans h.edgeCh
  chunks := h'.chunks.trans h.chunks
  chunkAt := h'.chunkAt.trans h.chunkAt
  next := h'.next.trans h.next

theorem Relinked.world (h : Relinked m m') : m'.world = m.world := by
  unfold WorldMemory.world
  rw [h.width, h.depth, h.edgeCh, h.chunks]

theorem Relinked.getChunk (h : Relinked m m') : m'.getChunk = m.getChunk := by
  funext x z
  rw [WorldMemory.getChunk, WorldMemory.getChunk, h.world]

theorem Relinked.alive (h : Relinked m m') : m'.heap.Alive ch ↔ m.heap.Alive ch := by
  rw [alive_iff_chunkAt, alive_iff_chunkAt, h.chunkAt]

end Frame

section Links

theorem get_ok {obj : ChunkObject} (h : m.heap.get ch = some obj) : m.get ch = .ok obj := by
  simp only [get, h]

theorem chunkAt_of_get {obj : ChunkObject} (h : m.heap.get ch = some obj)
    : m.chunkAt ch = some obj.chunk := by
  simp [chunkAt, h]

theorem setNeighbour_spec (halive : m.heap.Alive ch) (n : Option Nat)
    : ∃ m', m.setNeighbour ch d n = .ok m'
        ∧ Relinked m m'
        ∧ ∀ q e, m'.neighbour q e = if q = ch ∧ e = d then n else m.neighbour q e := by
  obtain ⟨obj, hobj⟩ := halive
  refine ⟨{ m with heap := m.heap.modify ch (·.setNeighbour d n) }, ?_, ?_, ?_⟩
  . simp only [setNeighbour, get_ok hobj]
    rfl
  . refine ⟨rfl, rfl, rfl, rfl, ?_, rfl⟩
    funext q
    simp only [chunkAt, Heap.get_modify]
    split
    . next hq => simp [ChunkObject.setNeighbour, Function.comp_def]
    . rfl
  . intro q e
    simp only [neighbour, Heap.get_modify]
    by_cases hq : q = ch
    . by_cases he : e = d
      . simp [hq, he, hobj, ChunkObject.setNeighbour]
      . simp [hq, he, hobj, ChunkObject.setNeighbour]
    . simp [hq]

theorem link_spec (halive : m.heap.Alive ch)
    (hnch : ∀ nch, m.getChunk pos.x pos.z = some nch → m.heap.Alive nch ∧ nch ≠ ch)
    : ∃ m', m.link ch d pos = .ok m'
        ∧ Relinked m m'
        ∧ ∀ q e, m'.neighbour q e
            =
          if q = ch ∧ e = d then m.getChunk pos.x pos.z
          else if m.getChunk pos.x pos.z = some q ∧ e = d.opposite then some ch
          else m.neighbour q e := by
  obtain ⟨m₁, hm₁, hre₁, hnb₁⟩ := setNeighbour_spec (d := d) halive (m.getChunk pos.x pos.z)
  unfold link
  dsimp only
  rw [hm₁]
  cases hget : m.getChunk pos.x pos.z with
  | none =>
    rw [hget] at hnb₁
    refine ⟨m₁, rfl, hre₁, ?_⟩
    simpa using hnb₁
  | some nch =>
    rw [hget] at hnb₁
    obtain ⟨hnalive, hne⟩ := hnch nch hget
    obtain ⟨m₂, hm₂, hre₂, hnb₂⟩ :=
      setNeighbour_spec (d := d.opposite) (hre₁.alive.mpr hnalive) (some ch)
    refine ⟨m₂, hm₂, hre₁.trans hre₂, ?_⟩
    intro q e
    rw [hnb₂, hnb₁]
    by_cases hq : q = nch
    . simp [hq, hne]
    . simp [hq, Ne.symm hq]

/--
All four pointers of the chunk `ch` at `pos` are right in `m'`, and it is what its neighbours have on
that side. Everything else is as in `m`.
-/
structure NeighboursSet (m m' : WorldMemory) (ch : Nat) (pos : ChunkPos) : Prop where
  relinked : Relinked m m'
  neighbour : ∀ q e, m'.neighbour q e
      =
    if q = ch then m.getChunk (pos.shift e).x (pos.shift e).z
    else if m.getChunk (pos.shift e.opposite).x (pos.shift e.opposite).z = some q then some ch
    else m.neighbour q e

theorem setChunkNeighbours_spec {c : Chunk} (hc : m.chunkAt ch = some c)
    (hnch : ∀ d nch, m.getChunk (c.pos.shift d).x (c.pos.shift d).z = some nch
        → m.heap.Alive nch ∧ nch ≠ ch)
    : ∃ m', m.setChunkNeighbours ch = .ok m' ∧ NeighboursSet m m' ch c.pos := by
  have halive : m.heap.Alive ch := alive_iff_chunkAt.mpr ⟨c, hc⟩
  have ⟨obj, hobj⟩ := halive
  have hpos : obj.chunk = c := by
    have hchunk := chunkAt_of_get hobj
    rw [hc] at hchunk
    injection hchunk with hchunk
    exact hchunk.symm
  -- one link after the other
  have hlink (m₁ : WorldMemory) (h₁ : Relinked m m₁) (d : Direction)
      : ∃ m₂, m₁.link ch d (c.pos.shift d) = .ok m₂
          ∧ Relinked m m₂
          ∧ ∀ q e, m₂.neighbour q e
              =
            if q = ch ∧ e = d then m.getChunk (c.pos.shift d).x (c.pos.shift d).z
            else if m.getChunk (c.pos.shift d).x (c.pos.shift d).z = some q ∧ e = d.opposite then some ch
            else m₁.neighbour q e := by
    have hnch₁ (nch : Nat) (h : m₁.getChunk (c.pos.shift d).x (c.pos.shift d).z = some nch)
        : m₁.heap.Alive nch ∧ nch ≠ ch := by
      rw [h₁.getChunk] at h
      rw [h₁.alive]
      exact hnch d nch h
    obtain ⟨m₂, hm₂, h₂, hnb₂⟩ := link_spec (d := d) (h₁.alive.mpr halive) hnch₁
    rw [h₁.getChunk] at hnb₂
    exact ⟨m₂, hm₂, h₁.trans h₂, hnb₂⟩
  obtain ⟨m₁, hm₁, h₁, hnb₁⟩ := hlink m (.refl m) .east
  obtain ⟨m₂, hm₂, h₂, hnb₂⟩ := hlink m₁ h₁ .west
  obtain ⟨m₃, hm₃, h₃, hnb₃⟩ := hlink m₂ h₂ .south
  obtain ⟨m₄, hm₄, h₄, hnb₄⟩ := hlink m₃ h₃ .north
  refine ⟨m₄, ?_, h₄, ?_⟩
  . unfold setChunkNeighbours
    rw [get_ok hobj, ← hpos] at *
    simp only [bind, Except.bind]
    rw [hm₁]
    dsimp only
    rw [hm₂]
    dsimp only
    rw [hm₃]
    exact hm₄
  . intro q e
    rw [hnb₄, hnb₃, hnb₂, hnb₁]
    by_cases hq : q = ch
    . subst hq
      have hself (d : Direction) : m.getChunk (c.pos.shift d).x (c.pos.shift d).z ≠ some q :=
        fun h => (hnch d q h).right rfl
      cases e with
      | north | west | south | east => simp [hself]
    . cases e with
      | north | west | south | east =>
        simp [hq, Direction.opposite]
        congr

end Links

end WorldMemory

end HCraft
