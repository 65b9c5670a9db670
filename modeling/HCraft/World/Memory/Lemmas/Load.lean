import HCraft.World.Lighting.Lemmas.LightChunk
import HCraft.World.Memory.Lemmas.Sound
import Mathlib.Data.List.Basic

/-!
This module contains what `load_chunk` and `put_chunk` do to the chunks in memory, and runs of them.
-/

namespace HCraft

namespace WorldMemory

variable {m m' : WorldMemory} {ch : Nat} {pos : ChunkPos} {c : Chunk}

section Alloc

theorem heap_alloc_of_ne {q : Nat} (hq : q ≠ (m.alloc c).1)
    : (m.alloc c).2.heap.get q = m.heap.get q :=
  Heap.get_alloc_of_ne hq

theorem not_alive_alloc : ¬ m.heap.Alive (m.alloc c).1 := by
  rintro ⟨obj, hobj⟩
  have hnone : m.heap.get (m.alloc c).1 = none := Heap.get_next
  rw [hnone] at hobj
  injection hobj

theorem inserted_of_heap {heap : Heap ChunkObject} (hpos : c.pos.IsInt) (hin : m.InBounds c.pos)
    (hnew : ¬ m.heap.Alive ch) (hself : heap.get ch = some (.new c))
    (hother : ∀ q, q ≠ ch → ¬ m.Holds c.pos q → heap.get q = m.heap.get q)
    : Inserted m (WorldMemory.insert { m with heap } (index c.pos.x c.pos.z) ch) ch c where
  width := rfl
  depth := rfl
  edgeCh := rfl
  chunks := rfl
  new := hnew
  chunkAt := congrArg (Option.map _) hself
  chunkAt_of_ne := by
    intro q hq hholds
    exact congrArg (Option.map _) (hother q hq hholds)
  neighbour_of_ne := by
    intro q hq hholds
    funext d
    exact congrArg (Option.bind · _) (hother q hq hholds)
  isInt := hpos
  inBounds := hin

theorem inserted_alloc (hpos : c.pos.IsInt) (hin : m.InBounds c.pos)
    : Inserted m ((m.alloc c).2.insert (index c.pos.x c.pos.z) (m.alloc c).1) (m.alloc c).1 c :=
  inserted_of_heap hpos hin not_alive_alloc Heap.get_alloc_next
    (fun _ hq _ => heap_alloc_of_ne hq)

theorem inserted_replace {old : Nat} (hpos : c.pos.IsInt) (hin : m.InBounds c.pos)
    (hold : m.chunks.lookup (index c.pos.x c.pos.z) = some old) (halive : m.heap.Alive old)
    : Inserted m
        (WorldMemory.insert { (m.alloc c).2 with heap := (m.alloc c).2.heap.free old }
          (index c.pos.x c.pos.z) (m.alloc c).1)
        (m.alloc c).1 c := by
  apply inserted_of_heap hpos hin not_alive_alloc
  . have hne : (m.alloc c).1 ≠ old := by
      rintro rfl
      exact not_alive_alloc halive
    rw [Heap.get_free_of_ne hne]
    exact Heap.get_alloc_next
  . intro q hq hholds
    have hne : q ≠ old := by
      rintro rfl
      exact hholds hold
    rw [Heap.get_free_of_ne hne]
    exact heap_alloc_of_ne hq

end Alloc

section Load

/--
The chunk `ch` is at `pos` now, and whatever was in memory before still is.
-/
structure Loaded (m m' : WorldMemory) (pos : ChunkPos) (ch : Nat) : Prop where
  sound : m'.Sound
  width : m'.width = m.width
  depth : m'.depth = m.depth
  edgeCh : m'.edgeCh = m.edgeCh
  chunkAt : ∀ q, m.heap.Alive q → m'.chunkAt q = m.chunkAt q
  getChunk : m'.getChunk pos.x pos.z = some ch
  getChunk_eq : ∀ ch', m.getChunk pos.x pos.z = some ch' → ch' = ch
  getChunk_of_ne : ∀ pos' : ChunkPos, pos'.IsInt → pos' ≠ pos →
    m'.getChunk pos'.x pos'.z = m.getChunk pos'.x pos'.z

theorem Loaded.refl (h : m.Sound) (hch : m.getChunk pos.x pos.z = some ch) : Loaded m m pos ch :=
  ⟨h, rfl, rfl, rfl, fun _ _ => rfl, hch, fun _ hch' => Option.some.inj (hch'.symm.trans hch),
    fun _ _ _ => rfl⟩

theorem addChunk_spec (h : m.Sound) (hc : c.pos = pos) (hpos : pos.IsInt) (hin : m.InBounds pos)
    (hfree : m.chunks.lookup (index pos.x pos.z) = none)
    : ∃ ch m', m.addChunk pos.x pos.z c = .ok (ch, m')
        ∧ Loaded m m' pos ch
        ∧ ¬ m.heap.Alive ch
        ∧ m'.chunkAt ch = some c := by
  subst hc
  have hi := inserted_alloc hpos hin
  obtain ⟨m₂, hm₂, hsound, hre⟩ := hi.sound h
  refine ⟨(m.alloc c).1, m₂, ?_, ?_, not_alive_alloc, ?_⟩
  . unfold addChunk
    dsimp only
    rw [hm₂]
    rfl
  . refine ⟨hsound, hre.width, hre.depth, hre.edgeCh, ?_, ?_, ?_, ?_⟩
    . intro q hq
      have hholds : ¬ m.Holds c.pos q := by
        unfold Holds
        rw [hfree]
        nofun
      rw [hre.chunkAt, hi.chunkAt_of_ne q (hi.ne_of_alive hq) hholds]
    . rw [hre.getChunk, hi.getChunk_self h.toMapped]
    . intro ch' hch'
      rw [getChunk_of_inBounds hin, hfree] at hch'
      cases hch'
    . intro pos' hpos' hne
      rw [hre.getChunk, hi.getChunk_of_ne hpos' hne]
  . rw [hre.chunkAt, hi.chunkAt]

theorem Loaded.edited {f : Chunk → Chunk} (h : Loaded m m' pos ch)
    (hnew : ¬ m.heap.Alive ch) (hf : ∀ c, (f c).pos = c.pos)
    : Loaded m (m'.edit ch f) pos ch := by
  have he : Edited m' (m'.edit ch f) := edited_edit (fun c _ => hf c)
  refine ⟨he.sound h.sound, he.width.trans h.width, he.depth.trans h.depth, he.edgeCh.trans h.edgeCh,
    ?_, ?_, h.getChunk_eq, ?_⟩
  . intro q hq
    have hne : q ≠ ch := by
      rintro rfl
      exact hnew hq
    rw [chunkAt_edit, if_neg hne, h.chunkAt q hq]
  . rw [he.getChunk, h.getChunk]
  . rw [he.getChunk]
    exact h.getChunk_of_ne

/--
What the provider has is what is loaded, if there is no such chunk in memory.
-/
theorem loadChunk_of_prov (h : m.Sound) (hpos : pos.IsInt) (hin : m.InBounds pos)
    (hfree : m.chunks.lookup (index pos.x pos.z) = none) (hc : c.pos = pos) (gen : WorldGenerator)
    : ∃ ch m', m.loadChunk (some c) gen pos.x pos.z = .ok (ch, m')
        ∧ Loaded m m' pos ch
        ∧ m'.chunkAt ch = some c := by
  obtain ⟨ch, m', hadd, hloaded, _, hchunk⟩ := addChunk_spec h hc hpos hin hfree
  refine ⟨ch, m', ?_, hloaded, hchunk⟩
  unfold loadChunk
  rw [if_neg hin, hfree]
  exact hadd

theorem loadChunk_of_gen (h : m.Sound) (hpos : pos.IsInt) (hin : m.InBounds pos)
    (hfree : m.chunks.lookup (index pos.x pos.z) = none) (gen : WorldGenerator)
    : ∃ ch m', m.loadChunk none gen pos.x pos.z = .ok (ch, m')
        ∧ Loaded m m' pos ch
        ∧ m'.chunkAt ch = some (gen.generate (.new pos.x pos.z)).lightChunk := by
  have hgen : (gen.generate (.new pos.x pos.z)).pos = pos := gen.pos_generate _
  obtain ⟨ch, m', hadd, hloaded, hnew, hchunk⟩ := addChunk_spec h hgen hpos hin hfree
  refine ⟨ch, m'.edit ch Chunk.lightChunk, ?_, hloaded.edited hnew Chunk.pos_lightChunk, ?_⟩
  . unfold loadChunk
    rw [if_neg hin, hfree]
    dsimp only
    rw [hadd]
    simp only [bind, Except.bind]
    rw [editChunk_ok (alive_iff_chunkAt.mpr ⟨_, hchunk⟩)]
    rfl
  . rw [chunkAt_edit, if_pos rfl, hchunk]
    rfl

theorem loadChunk_spec (h : m.Sound) (hpos : pos.IsInt) {prov : Option Chunk}
    (hprov : ∀ c ∈ prov, c.pos = pos) (gen : WorldGenerator)
    : ∃ ch m', m.loadChunk prov gen pos.x pos.z = .ok (ch, m') ∧ Loaded m m' pos ch := by
  by_cases hout : m.world.OutOfBounds pos.x pos.z
  . refine ⟨_, m, ?_, .refl h (getChunk_of_outOfBounds hout)⟩
    unfold loadChunk
    exact if_pos hout
  . have hget := getChunk_of_inBounds hout
    cases hfree : m.chunks.lookup (index pos.x pos.z) with
    | some ch =>
      rw [hfree] at hget
      refine ⟨ch, m, ?_, .refl h hget⟩
      unfold loadChunk
      rw [if_neg hout, hfree]
    | none =>
      cases prov with
      | some c =>
        obtain ⟨ch, m', hload, hloaded, _⟩ := loadChunk_of_prov h hpos hout hfree (hprov c rfl) gen
        exact ⟨ch, m', hload, hloaded⟩
      | none =>
        obtain ⟨ch, m', hload, hloaded, _⟩ := loadChunk_of_gen h hpos hout hfree gen
        exact ⟨ch, m', hload, hloaded⟩

end Load

section Put

theorem get_alloc_self : (m.alloc c).2.get (m.alloc c).1 = .ok (.new c) :=
  get_ok Heap.get_alloc_next

theorem putChunk_spec (h : m.Sound) (hpos : c.pos.IsInt) (hin : m.InBounds c.pos)
    : ∃ m', (m.alloc c).2.putChunk (m.alloc c).1 = .ok m'
        ∧ m'.Sound
        ∧ m'.width = m.width
        ∧ m'.depth = m.depth := by
  unfold putChunk
  rw [get_alloc_self]
  simp only [bind, Except.bind, ChunkObject.new]
  split
  . next old hold =>
    have halive := h.alive hold
    have hi := inserted_replace hpos hin hold halive
    obtain ⟨m₂, hm₂, hsound, hre⟩ := hi.sound h
    obtain ⟨obj, hobj⟩ := halive
    have hdelete : (m.alloc c).2.delete old
        = .ok { (m.alloc c).2 with heap := (m.alloc c).2.heap.free old } := by
      unfold delete
      rw [get_ok (Heap.get_alloc_of_some hobj)]
      rfl
    rw [hdelete]
    exact ⟨m₂, hm₂, hsound, hre.width, hre.depth⟩
  . next hfree =>
    have hi := inserted_alloc hpos hin
    obtain ⟨m₂, hm₂, hsound, hre⟩ := hi.sound h
    exact ⟨m₂, hm₂, hsound, hre.width, hre.depth⟩

end Put

section Runs

/--
`fresh` is a chunk that its caller has just made.
-/
inductive Request where
  | loadChunk (prov : Option Chunk) (gen : WorldGenerator) (pos : ChunkPos)
  | putChunk (fresh : Chunk)

def serve (m : WorldMemory) : Request → Except Fault WorldMemory
  | .loadChunk prov gen pos => do
    let (_, m) ← m.loadChunk prov gen pos.x pos.z
    return m
  | .putChunk fresh =>
    let (ch, m) := m.alloc fresh
    m.putChunk ch

/--
The provider returns a chunk with the position it was asked for, and chunks are put within bounds.
-/
def Request.Proper (m : WorldMemory) : Request → Prop
  | .loadChunk prov _ pos => pos.IsInt ∧ ∀ c ∈ prov, c.pos = pos
  | .putChunk fresh => fresh.pos.IsInt ∧ m.InBounds fresh.pos

/--
The pointers to the neighbours of every chunk in the map are those of the map, and none of them
dangles.
-/
def NeighboursAgree (m : WorldMemory) : Prop :=
  ∀ k ch, m.chunks.lookup k = some ch →
    ∃ obj, m.heap.get ch = some obj
      ∧ ∀ d,
          obj.neighbours d = m.getChunk (obj.chunk.pos.shift d).x (obj.chunk.pos.shift d).z
            ∧ ∀ nch, obj.neighbours d = some nch → m.heap.Alive nch

theorem Sound.neighboursAgree (h : m.Sound) : m.NeighboursAgree := by
  intro k ch hch
  obtain ⟨obj, hobj⟩ := h.alive hch
  have hc := chunkAt_of_get hobj
  refine ⟨obj, hobj, ?_⟩
  intro d
  have hd : obj.neighbours d = m.getChunk (obj.chunk.pos.shift d).x (obj.chunk.pos.shift d).z := by
    rw [← h.linked k ch _ hch hc, neighbour, hobj]
    rfl
  refine ⟨hd, ?_⟩
  rw [hd]
  intro nch
  exact h.alive_getChunk ((h.isInt hch hc).shift d)

theorem inBounds_congr (hwidth : m'.width = m.width) (hdepth : m'.depth = m.depth)
    : m'.InBounds pos ↔ m.InBounds pos := by
  unfold InBounds World.OutOfBounds world
  rw [hwidth, hdepth]

theorem Request.proper_congr (hwidth : m'.width = m.width) (hdepth : m'.depth = m.depth)
    {r : Request} : r.Proper m' ↔ r.Proper m := by
  cases r with
  | loadChunk prov gen pos => exact Iff.rfl
  | putChunk fresh =>
    unfold Request.Proper
    dsimp only
    rw [inBounds_congr hwidth hdepth]

theorem serve_spec (h : m.Sound) {r : Request} (hr : r.Proper m)
    : ∃ m', m.serve r = .ok m' ∧ m'.Sound ∧ m'.width = m.width ∧ m'.depth = m.depth := by
  cases r with
  | loadChunk prov gen pos =>
    obtain ⟨ch, m', hload, hloaded⟩ := loadChunk_spec h hr.left hr.right gen
    refine ⟨m', ?_, hloaded.sound, hloaded.width, hloaded.depth⟩
    unfold serve
    dsimp only
    rw [hload]
    rfl
  | putChunk fresh => exact putChunk_spec h hr.left hr.right

theorem serve_all_spec {rs : List Request} (h : m.Sound) (hrs : ∀ r ∈ rs, r.Proper m)
    : ∃ m', rs.foldlM serve m = .ok m' ∧ m'.Sound := by
  induction rs generalizing m with
  | nil => exact ⟨m, rfl, h⟩
  | cons r rs ih =>
    obtain ⟨m₁, hm₁, hsound, hwidth, hdepth⟩ := serve_spec h (hrs r (by simp))
    have hrest : ∀ r ∈ rs, r.Proper m₁ := by
      intro r hr
      rw [Request.proper_congr hwidth hdepth]
      exact hrs r (by simp [hr])
    obtain ⟨m', hm', hsound'⟩ := ih hsound hrest
    refine ⟨m', ?_, hsound'⟩
    rw [List.foldlM_cons, hm₁]
    exact hm'

/--
Whatever is loaded and put, in whatever order, no dangling pointer is followed and the neighbours
agree with the map.
-/
theorem neighboursAgree_of_requests (width depth : Int) (edge : Chunk) (rs : List Request)
    (hrs : ∀ r ∈ rs, r.Proper (new width depth edge))
    : ∃ m, rs.foldlM serve (new width depth edge) = .ok m ∧ m.NeighboursAgree := by
  obtain ⟨m, hm, hsound⟩ := serve_all_spec (sound_new width depth edge) hrs
  exact ⟨m, hm, hsound.neighboursAgree⟩

/--
A chunk on the border of a world of one chunk is loaded and replaced.
-/
theorem neighboursAgree_of_two_requests
    : ∃ m, [.loadChunk none .empty ⟨0, 0⟩, .putChunk (.new 0 0)].foldlM serve
          (new 16 16 (.new 0 0)) = .ok m
        ∧ m.NeighboursAgree := by
  apply neighboursAgree_of_requests
  intro r hr
  have hint : (⟨0, 0⟩ : ChunkPos).IsInt := by decide
  have hin : (new 16 16 (.new 0 0)).InBounds ⟨0, 0⟩ := by
    unfold InBounds World.OutOfBounds
    decide
  simp only [List.mem_cons, List.not_mem_nil, or_false] at hr
  cases hr with
  | inl hload =>
    rw [hload]
    exact ⟨hint, by simp⟩
  | inr hput =>
    rw [hput]
    exact ⟨hint, hin⟩

end Runs

end WorldMemory

end HCraft
