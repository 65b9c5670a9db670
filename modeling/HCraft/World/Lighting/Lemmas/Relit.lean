import HCraft.World.Chunk.Lemmas.Light
import HCraft.World.Lighting.Impl
import HCraft.World.Memory.Lemmas.Sound

/-!
This module contains what the steps of the lighting manager read and write, and what they leave alone.
-/

namespace HCraft

/--
What lighting does not change about a chunk.
-/
structure Blocks where
  pos : ChunkPos
  getId : Fin 16 → Fin 256 → Fin 16 → UInt16
  hmap : Fin 256 → Int

def Chunk.blocks (c : Chunk) : Blocks :=
  { pos := c.pos, getId := c.getId, hmap := c.hmap }

/--
A block in a chunk, wherever that chunk is.
-/
structure LightCell where
  ch : Nat
  x : Fin 16
  y : Fin 256
  z : Fin 16
  deriving DecidableEq

namespace Chunk

variable {c : Chunk} {x z : Fin 16} {y : Fin 256}

theorem blocks_touchSub : (c.touchSub y).blocks = c.blocks := by
  unfold blocks
  rw [Blocks.mk.injEq]
  refine ⟨rfl, ?_, rfl⟩
  funext x y z
  exact getId_touchSub

theorem blocks_setSkyLight {sl : UInt8} : (c.setSkyLight x y z sl).blocks = c.blocks := by
  unfold blocks
  rw [Blocks.mk.injEq]
  refine ⟨rfl, ?_, rfl⟩
  funext x y z
  exact getId_setSkyLight

end Chunk

namespace WorldMemory

variable (m : WorldMemory)

def lightAt (cell : LightCell) : Nat :=
  match m.chunkAt cell.ch with
  | none => 0
  | some c => c.skyLight cell.x cell.y cell.z

def blocksAt (ch : Nat) : Option Blocks :=
  (m.chunkAt ch).map Chunk.blocks

/--
Nothing but light has changed.
-/
structure Relit (m m' : WorldMemory) : Prop where
  width : m'.width = m.width
  depth : m'.depth = m.depth
  edgeCh : m'.edgeCh = m.edgeCh
  chunks : m'.chunks = m.chunks
  next : m'.heap.next = m.heap.next
  blocksAt : m'.blocksAt = m.blocksAt
  neighbour : m'.neighbour = m.neighbour

variable {m} {m' m'' : WorldMemory} {ch : Nat} {c : Chunk} {x z : Fin 16} {y : Fin 256}

namespace Relit

theorem refl (m : WorldMemory) : Relit m m :=
  ⟨rfl, rfl, rfl, rfl, rfl, rfl, rfl⟩

theorem trans (h : Relit m m') (h' : Relit m' m'') : Relit m m'' where
  width := h'.width.trans h.width
  depth := h'.depth.trans h.depth
  edgeCh := h'.edgeCh.trans h.edgeCh
  chunks := h'.chunks.trans h.chunks
  next := h'.next.trans h.next
  blocksAt := h'.blocksAt.trans h.blocksAt
  neighbour := h'.neighbour.trans h.neighbour

theorem symm (h : Relit m m') : Relit m' m :=
  ⟨h.width.symm, h.depth.symm, h.edgeCh.symm, h.chunks.symm, h.next.symm, h.blocksAt.symm,
    h.neighbour.symm⟩

theorem edited (h : Relit m m') : Edited m m' where
  width := h.width
  depth := h.depth
  edgeCh := h.edgeCh
  chunks := h.chunks
  next := h.next
  pos := by
    intro ch
    have hch := congrArg (Option.map Blocks.pos) (congrFun h.blocksAt ch)
    unfold WorldMemory.blocksAt at hch
    rw [Option.map_map, Option.map_map] at hch
    exact hch
  neighbour := h.neighbour

theorem chunkAt (h : Relit m m') (hc : m.chunkAt ch = some c)
    : ∃ c', m'.chunkAt ch = some c' ∧ c'.blocks = c.blocks := by
  have hch := congrFun h.blocksAt ch
  unfold WorldMemory.blocksAt at hch
  rw [hc] at hch
  simpa using hch

end Relit

theorem relit_edit {f : Chunk → Chunk} (hf : ∀ c, m.chunkAt ch = some c → (f c).blocks = c.blocks)
    : Relit m (m.edit ch f) := by
  have he : Edited m (m.edit ch f) :=
    edited_edit (fun c hc => congrArg Blocks.pos (hf c hc))
  refine ⟨rfl, rfl, rfl, rfl, rfl, ?_, he.neighbour⟩
  funext q
  unfold blocksAt
  rw [chunkAt_edit]
  split
  . next hq =>
    subst hq
    cases hc : m.chunkAt q with
    | none => rfl
    | some c => simp [hf c hc]
  . rfl

section Reads

/--
Reading changes neither blocks nor light.
-/
def Touched (m m' : WorldMemory) : Prop :=
  Relit m m' ∧ m'.lightAt = m.lightAt

theorem Touched.refl (m : WorldMemory) : Touched m m :=
  ⟨.refl m, rfl⟩

theorem Touched.trans (h : Touched m m') (h' : Touched m' m'') : Touched m m'' :=
  ⟨h.left.trans h'.left, h'.right.trans h.right⟩

theorem get_of_chunkAt (hc : m.chunkAt ch = some c)
    : m.get ch = .ok { chunk := c, neighbours := m.neighbour ch } := by
  obtain ⟨obj, hobj⟩ := alive_iff_chunkAt.mpr ⟨c, hc⟩
  rw [get_ok hobj]
  rw [chunkAt_of_get hobj] at hc
  injection hc with hc
  subst hc
  unfold neighbour
  rw [hobj]
  rfl

theorem lightAt_of_chunkAt (hc : m.chunkAt ch = some c)
    : m.lightAt ⟨ch, x, y, z⟩ = c.skyLight x y z := by
  simp only [lightAt, hc]

theorem lightAt_lt (cell : LightCell) : m.lightAt cell < 16 := by
  unfold lightAt
  split
  . omega
  . exact Chunk.skyLight_lt

theorem readSkyLight_spec (hc : m.chunkAt ch = some c)
    : ∃ m', m.readSkyLight ch x y z = .ok (m.lightAt ⟨ch, x, y, z⟩, m') ∧ Touched m m' := by
  refine ⟨m.edit ch (fun _ => c.touchSub y), ?_, ?_, ?_⟩
  . unfold readSkyLight
    rw [get_of_chunkAt hc, lightAt_of_chunkAt hc]
    rfl
  . apply relit_edit
    intro c' hc'
    rw [hc] at hc'
    injection hc' with hc'
    rw [← hc', Chunk.blocks_touchSub]
  . funext cell
    unfold lightAt
    rw [chunkAt_edit]
    by_cases hcell : cell.ch = ch
    . simp [hcell, hc]
    . rw [if_neg hcell]

end Reads

end WorldMemory

namespace Neighbour

/--
The light of a neighbour, where `v` is the light of the blocks.
-/
def value (v : LightCell → Nat) : Neighbour → Nat
  | light sl => sl
  | block ch x y z => v ⟨ch, x, y, z⟩

def maxValue (v : LightCell → Nat) (ns : List Neighbour) : Nat :=
  ns.foldr (fun n max' => max (n.value v) max') 0

/--
The chunk of the neighbour has not been deleted.
-/
def Alive (m : WorldMemory) : Neighbour → Prop
  | light _ => True
  | block ch _ _ _ => m.heap.Alive ch

end Neighbour

namespace WorldMemory

variable {m m' : WorldMemory} {ch : Nat} {c : Chunk} {x z : Fin 16} {y : Fin 256}

theorem readNeighbour_spec {n : Neighbour} (hn : n.Alive m)
    : ∃ m', m.readNeighbour n = .ok (n.value m.lightAt, m') ∧ Touched m m' := by
  cases n with
  | light sl => exact ⟨m, rfl, .refl m⟩
  | block ch x y z =>
    obtain ⟨c, hc⟩ := alive_iff_chunkAt.mp hn
    exact readSkyLight_spec hc

theorem Touched.alive (h : Touched m m') {n : Neighbour} (hn : n.Alive m) : n.Alive m' := by
  cases n with
  | light sl => trivial
  | block ch x y z => exact (h.left.edited.alive ch).mpr hn

theorem maxLight_spec {ns : List Neighbour} (hns : ∀ n ∈ ns, n.Alive m)
    : ∃ m', m.maxLight ns = .ok (Neighbour.maxValue m.lightAt ns, m') ∧ Touched m m' := by
  induction ns generalizing m with
  | nil => exact ⟨m, rfl, .refl m⟩
  | cons n ns ih =>
    obtain ⟨m₁, hm₁, ht₁⟩ := readNeighbour_spec (hns n (by simp))
    have hns₁ : ∀ n ∈ ns, n.Alive m₁ := by
      intro n hn
      exact ht₁.alive (hns n (by simp [hn]))
    obtain ⟨m₂, hm₂, ht₂⟩ := ih hns₁
    refine ⟨m₂, ?_, ht₁.trans ht₂⟩
    unfold maxLight
    rw [hm₁]
    simp only [bind, Except.bind]
    rw [hm₂, ht₁.right]
    rfl

/--
The light that a block should have, where `v` is the light of the blocks.
-/
def rightLight (m : WorldMemory) (v : LightCell → Nat) (cell : LightCell) : Nat :=
  match m.blocksAt cell.ch with
  | none => 0
  | some b =>
    if (cell.y : Int) ≥ b.hmap (Chunk.hind cell.x cell.z) then
      15
    else
      Neighbour.maxValue v (Neighbour.around (m.neighbour cell.ch) cell.ch cell.x cell.y cell.z) - 1

theorem rightSkyLight_spec (hc : m.chunkAt ch = some c)
    (haround : ∀ n ∈ Neighbour.around (m.neighbour ch) ch x y z, n.Alive m)
    : ∃ m', m.rightSkyLight ch { chunk := c, neighbours := m.neighbour ch } x y z
          = .ok (m.rightLight m.lightAt ⟨ch, x, y, z⟩, m')
        ∧ Touched m m' := by
  have hheight : c.getHeight x z = c.blocks.hmap (Chunk.hind x z) := rfl
  unfold rightSkyLight rightLight blocksAt
  rw [hc]
  dsimp only [Option.map_some]
  rw [hheight]
  by_cases hy : (y : Int) ≥ c.blocks.hmap (Chunk.hind x z)
  . rw [if_pos hy, if_pos hy]
    exact ⟨m, rfl, .refl m⟩
  . obtain ⟨m', hm', ht⟩ := maxLight_spec haround
    refine ⟨m', ?_, ht⟩
    rw [if_neg hy, if_neg hy, hm']
    rfl

end WorldMemory

end HCraft
