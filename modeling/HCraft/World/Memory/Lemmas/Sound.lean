import HCraft.World.Memory.Lemmas.Neighbours

/-!
This module contains the invariant of the chunks in memory: what the map, the pointers between
neighbours and the edge chunk have to do with each other.
-/

namespace HCraft

namespace WorldMemory

/--
Every chunk of the map exists, lies within the world and is stored under its own position.
-/
structure Mapped (m : WorldMemory) : Prop where
  edge : m.heap.Alive m.edgeCh
  stored : ∀ k ch, m.chunks.lookup k = some ch →
    ch ≠ m.edgeCh
      ∧ ∃ c, m.chunkAt ch = some c
          ∧ c.pos.IsInt
          ∧ index c.pos.x c.pos.z = k
          ∧ m.InBounds c.pos

/--
The edge chunk may point to any chunk on the border that it lies next to.
-/
structure Sound (m : WorldMemory) : Prop extends Mapped m where
  linked : ∀ k ch c, m.chunks.lookup k = some ch → m.chunkAt ch = some c →
    ∀ d, m.neighbour ch d = m.getChunk (c.pos.shift d).x (c.pos.shift d).z
  edgeLinked : ∀ d nch, m.neighbour m.edgeCh d = some nch →
    ∃ k c, m.chunks.lookup k = some nch
      ∧ m.chunkAt nch = some c
      ∧ ¬ m.InBounds (c.pos.shift d.opposite)

variable {m m₁ m₂ : WorldMemory} {ch nch : Nat} {pos : ChunkPos} {c : Chunk}

theorem getChunk_of_not_inBounds (h : ¬ m.InBounds pos) : m.getChunk pos.x pos.z = some m.edgeCh :=
  getChunk_of_outOfBounds (not_not.mp h)

theorem Mapped.alive (h : m.Mapped) {k : Nat} (hch : m.chunks.lookup k = some ch)
    : m.heap.Alive ch := by
  obtain ⟨_, c, hc, _⟩ := h.stored k ch hch
  exact alive_iff_chunkAt.mpr ⟨c, hc⟩

/--
What there is at a position is either the edge chunk or the chunk with that position.
-/
theorem Mapped.getChunk_cases (h : m.Mapped) (hpos : pos.IsInt)
    (hch : m.getChunk pos.x pos.z = some ch)
    : (¬ m.InBounds pos ∧ ch = m.edgeCh)
        ∨ (m.InBounds pos ∧ ch ≠ m.edgeCh ∧ ∃ c, m.chunkAt ch = some c ∧ c.pos = pos) := by
  by_cases hin : m.InBounds pos
  . right
    rw [getChunk_of_inBounds hin] at hch
    obtain ⟨hne, c, hc, hint, hindex, _⟩ := h.stored _ _ hch
    exact ⟨hin, hne, c, hc, (index_inj hint hpos).mp hindex⟩
  . left
    rw [getChunk_of_not_inBounds hin] at hch
    injection hch with hch
    exact ⟨hin, hch.symm⟩

theorem Mapped.alive_getChunk (h : m.Mapped) (hpos : pos.IsInt)
    (hch : m.getChunk pos.x pos.z = some ch) : m.heap.Alive ch := by
  cases h.getChunk_cases hpos hch with
  | inl hedge =>
    rw [hedge.right]
    exact h.edge
  | inr hin =>
    obtain ⟨_, _, c, hc, _⟩ := hin
    exact alive_iff_chunkAt.mpr ⟨c, hc⟩

theorem Mapped.getChunk_pos (h : m.Mapped) {k : Nat} (hch : m.chunks.lookup k = some ch)
    (hc : m.chunkAt ch = some c) : m.getChunk c.pos.x c.pos.z = some ch := by
  obtain ⟨_, c', hc', _, hindex, hin⟩ := h.stored k ch hch
  rw [hc] at hc'
  injection hc' with hc'
  subst hc'
  rw [getChunk_of_inBounds hin, hindex, hch]

theorem Mapped.isInt (h : m.Mapped) {k : Nat} (hch : m.chunks.lookup k = some ch)
    (hc : m.chunkAt ch = some c) : c.pos.IsInt := by
  obtain ⟨_, c', hc', hint, _⟩ := h.stored k ch hch
  rw [hc] at hc'
  injection hc' with hc'
  rw [hc']
  exact hint

theorem Mapped.index_eq (h : m.Mapped) {k : Nat} (hch : m.chunks.lookup k = some ch)
    (hc : m.chunkAt ch = some c) : index c.pos.x c.pos.z = k := by
  obtain ⟨_, c', hc', _, hindex, _⟩ := h.stored k ch hch
  rw [hc] at hc'
  injection hc' with hc'
  rw [hc']
  exact hindex

theorem Mapped.pos_eq (h : m.Mapped) {k : Nat} (hch : m.chunks.lookup k = some ch)
    (hc : m.chunkAt ch = some c) (hpos : pos.IsInt) (hget : m.getChunk pos.x pos.z = some ch)
    : c.pos = pos := by
  cases h.getChunk_cases hpos hget with
  | inl hedge => exact absurd hedge.right (h.stored k ch hch).left
  | inr hin =>
    obtain ⟨_, _, c', hc', hpos'⟩ := hin
    rw [hc] at hc'
    injection hc' with hc'
    rw [hc', hpos']

theorem Mapped.not_inBounds (h : m.Mapped) (hpos : pos.IsInt)
    (hget : m.getChunk pos.x pos.z = some m.edgeCh) : ¬ m.InBounds pos := by
  cases h.getChunk_cases hpos hget with
  | inl hedge => exact hedge.left
  | inr hin => exact absurd rfl hin.right.left

theorem Mapped.not_holds_edge (h : m.Mapped) : ¬ m.Holds pos m.edgeCh :=
  fun hedge => (h.stored _ _ hedge).left rfl

/--
A chunk is in the map under one key only.
-/
theorem Mapped.not_holds_of_ne (h : m.Mapped) {k : Nat} (hch : m.chunks.lookup k = some ch)
    (hk : k ≠ index pos.x pos.z) : ¬ m.Holds pos ch := by
  intro hholds
  obtain ⟨_, c, hc, _, hindex, _⟩ := h.stored _ _ hch
  exact hk (hindex.symm.trans (h.index_eq hholds hc))

theorem mapped_congr (hre : Relinked m m₁) (h : m.Mapped) : m₁.Mapped where
  edge := by
    rw [hre.edgeCh, hre.alive]
    exact h.edge
  stored := by
    unfold InBounds
    rw [hre.chunks, hre.edgeCh, hre.chunkAt, hre.world]
    exact h.stored

theorem sound_new (width depth : Int) (edge : Chunk) : (new width depth edge).Sound where
  edge := ⟨.new edge, Heap.get_alloc_next⟩
  stored := by
    intro k ch hch
    simp [new] at hch
  linked := by
    intro k ch c hch
    simp [new] at hch
  edgeLinked := by
    intro d nch hnch
    simp [neighbour, new, ChunkObject.new] at hnch

section Insert

/--
`m₁` is `m` with one more chunk in the map, which takes the place of the one that was there.
-/
structure Inserted (m m₁ : WorldMemory) (ch : Nat) (c : Chunk) : Prop where
  width : m₁.width = m.width
  depth : m₁.depth = m.depth
  edgeCh : m₁.edgeCh = m.edgeCh
  chunks : m₁.chunks = m.chunks.insert (index c.pos.x c.pos.z) ch
  new : ¬ m.heap.Alive ch
  chunkAt : m₁.chunkAt ch = some c
  chunkAt_of_ne : ∀ q, q ≠ ch → ¬ m.Holds c.pos q → m₁.chunkAt q = m.chunkAt q
  neighbour_of_ne : ∀ q, q ≠ ch → ¬ m.Holds c.pos q → m₁.neighbour q = m.neighbour q
  isInt : c.pos.IsInt
  inBounds : m.InBounds c.pos

namespace Inserted

theorem inBounds_iff (hi : Inserted m m₁ ch c) : m₁.InBounds pos ↔ m.InBounds pos := by
  unfold InBounds World.OutOfBounds world
  rw [hi.width, hi.depth]

theorem lookup_self (hi : Inserted m m₁ ch c)
    : m₁.chunks.lookup (index c.pos.x c.pos.z) = some ch := by
  rw [hi.chunks, AList.lookup_insert]

theorem lookup_of_ne (hi : Inserted m m₁ ch c) {k : Nat} (hk : k ≠ index c.pos.x c.pos.z)
    : m₁.chunks.lookup k = m.chunks.lookup k := by
  rw [hi.chunks, AList.lookup_insert_ne hk]

theorem getChunk_of_ne (hi : Inserted m m₁ ch c) (hpos : pos.IsInt) (hne : pos ≠ c.pos)
    : m₁.getChunk pos.x pos.z = m.getChunk pos.x pos.z := by
  by_cases hin : m.InBounds pos
  . have hk : index pos.x pos.z ≠ index c.pos.x c.pos.z := by
      rw [ne_eq, index_inj hpos hi.isInt]
      exact hne
    rw [getChunk_of_inBounds hin, getChunk_of_inBounds (hi.inBounds_iff.mpr hin), hi.lookup_of_ne hk]
  . rw [getChunk_of_not_inBounds hin, getChunk_of_not_inBounds (mt hi.inBounds_iff.mp hin), hi.edgeCh]

theorem ne_of_alive (hi : Inserted m m₁ ch c) {q : Nat} (hq : m.heap.Alive q) : q ≠ ch := by
  intro heq
  rw [heq] at hq
  exact hi.new hq

theorem mapped (hi : Inserted m m₁ ch c) (h : m.Mapped) : m₁.Mapped where
  edge := by
    have hedge := h.edge
    rw [alive_iff_chunkAt] at hedge ⊢
    rw [hi.edgeCh, hi.chunkAt_of_ne _ (hi.ne_of_alive h.edge) h.not_holds_edge]
    exact hedge
  stored := by
    intro k q hq
    rw [hi.edgeCh]
    by_cases hk : k = index c.pos.x c.pos.z
    . subst hk
      rw [hi.lookup_self] at hq
      injection hq with hq
      subst hq
      refine ⟨(hi.ne_of_alive h.edge).symm, c, hi.chunkAt, hi.isInt, rfl, ?_⟩
      exact hi.inBounds_iff.mpr hi.inBounds
    . rw [hi.lookup_of_ne hk] at hq
      obtain ⟨hne, c', hc', hint, hindex, hin⟩ := h.stored k q hq
      refine ⟨hne, c', ?_, hint, hindex, hi.inBounds_iff.mpr hin⟩
      rw [hi.chunkAt_of_ne q (hi.ne_of_alive (h.alive hq)) (h.not_holds_of_ne hq hk), hc']

theorem getChunk_self (hi : Inserted m m₁ ch c) (h : m.Mapped)
    : m₁.getChunk c.pos.x c.pos.z = some ch :=
  (hi.mapped h).getChunk_pos hi.lookup_self hi.chunkAt

theorem getChunk_eq_self_iff (hi : Inserted m m₁ ch c) (h : m.Mapped) (hpos : pos.IsInt)
    : m₁.getChunk pos.x pos.z = some ch ↔ pos = c.pos := by
  constructor
  . intro hch
    cases (hi.mapped h).getChunk_cases hpos hch with
    | inl hedge =>
      rw [hi.edgeCh] at hedge
      exact absurd hedge.right.symm (hi.ne_of_alive h.edge)
    | inr hin =>
      obtain ⟨_, _, c', hc', hpos'⟩ := hin
      rw [hi.chunkAt] at hc'
      injection hc' with hc'
      rw [← hpos', hc']
  . intro heq
    rw [heq]
    exact hi.getChunk_self h

theorem lookup_cases (hi : Inserted m m₁ ch c) (h : m.Mapped) {k q : Nat} {cq : Chunk}
    (hq : m₁.chunks.lookup k = some q) (hcq : m₁.chunkAt q = some cq)
    : (q = ch ∧ cq = c)
        ∨ (q ≠ ch ∧ ¬ m.Holds c.pos q ∧ m.chunks.lookup k = some q ∧ m.chunkAt q = some cq) := by
  by_cases hk : k = index c.pos.x c.pos.z
  . left
    subst hk
    rw [hi.lookup_self] at hq
    injection hq with hq
    subst hq
    rw [hi.chunkAt] at hcq
    injection hcq with hcq
    exact ⟨rfl, hcq.symm⟩
  . right
    rw [hi.lookup_of_ne hk] at hq
    have hne := hi.ne_of_alive (h.alive hq)
    have hholds : ¬ m.Holds c.pos q := h.not_holds_of_ne hq hk
    rw [hi.chunkAt_of_ne q hne hholds] at hcq
    exact ⟨hne, hholds, hq, hcq⟩

theorem linked (hi : Inserted m m₁ ch c) (h : m.Sound) (hset : NeighboursSet m₁ m₂ ch c.pos)
    {k q : Nat} {cq : Chunk} (hq : m₁.chunks.lookup k = some q) (hcq : m₁.chunkAt q = some cq)
    (d : Direction)
    : m₂.neighbour q d = m₁.getChunk (cq.pos.shift d).x (cq.pos.shift d).z := by
  have hmapped := hi.mapped h.toMapped
  rw [hset.neighbour]
  cases hi.lookup_cases h.toMapped hq hcq with
  | inl hself => rw [if_pos hself.left, hself.right]
  | inr hother =>
    obtain ⟨hne, hholds, hqm, hcqm⟩ := hother
    have hint := hmapped.isInt hq hcq
    rw [if_neg hne, hi.neighbour_of_ne q hne hholds, h.linked k q cq hqm hcqm]
    -- is the new chunk next to this one?
    by_cases hnext : c.pos = cq.pos.shift d
    . have hback : c.pos.shift d.opposite = cq.pos := by
        rw [hnext, ChunkPos.shift_opposite hint]
      rw [hback, if_pos (hmapped.getChunk_pos hq hcq), ← hnext, hi.getChunk_self h.toMapped]
    . have hback : m₁.getChunk (c.pos.shift d.opposite).x (c.pos.shift d.opposite).z ≠ some q := by
        intro hget
        have hpos := hmapped.pos_eq hq hcq (hi.isInt.shift _) hget
        exact hnext ((ChunkPos.shift_eq_iff hint hi.isInt d).mpr hpos).symm
      rw [if_neg hback, hi.getChunk_of_ne (hint.shift d) (Ne.symm hnext)]

theorem edgeLinked (hi : Inserted m m₁ ch c) (h : m.Sound) (hset : NeighboursSet m₁ m₂ ch c.pos)
    {d : Direction} (hnch : m₂.neighbour m₁.edgeCh d = some nch)
    : ∃ k cn, m₁.chunks.lookup k = some nch
        ∧ m₁.chunkAt nch = some cn
        ∧ ¬ m₁.InBounds (cn.pos.shift d.opposite) := by
  have hmapped := hi.mapped h.toMapped
  have hne := hi.ne_of_alive h.edge
  rw [hset.neighbour, hi.edgeCh, if_neg hne] at hnch
  split at hnch
  . next hnext =>
    injection hnch with hnch
    subst hnch
    refine ⟨_, c, hi.lookup_self, hi.chunkAt, ?_⟩
    rw [← hi.edgeCh] at hnext
    exact hmapped.not_inBounds (hi.isInt.shift _) hnext
  . next hnext =>
    rw [hi.neighbour_of_ne _ hne h.not_holds_edge] at hnch
    obtain ⟨k, cn, hk, hcn, hout⟩ := h.edgeLinked d nch hnch
    -- what the edge chunk pointed to has not been replaced, or it would point to the new chunk
    have hkne : k ≠ index c.pos.x c.pos.z := by
      intro heq
      have hpos := (index_inj (h.isInt hk hcn) hi.isInt).mp ((h.index_eq hk hcn).trans heq)
      rw [hpos] at hout
      apply hnext
      rw [getChunk_of_not_inBounds (mt hi.inBounds_iff.mp hout), hi.edgeCh]
    refine ⟨k, cn, ?_, ?_, mt hi.inBounds_iff.mp hout⟩
    . rw [hi.lookup_of_ne hkne, hk]
    . rw [hi.chunkAt_of_ne nch (hi.ne_of_alive (h.alive hk)) (h.not_holds_of_ne hk hkne), hcn]

theorem sound (hi : Inserted m m₁ ch c) (h : m.Sound)
    : ∃ m₂, m₁.setChunkNeighbours ch = .ok m₂ ∧ m₂.Sound ∧ Relinked m₁ m₂ := by
  have hmapped := hi.mapped h.toMapped
  have hnch (d : Direction) (nch : Nat)
      (hget : m₁.getChunk (c.pos.shift d).x (c.pos.shift d).z = some nch)
      : m₁.heap.Alive nch ∧ nch ≠ ch := by
    refine ⟨hmapped.alive_getChunk (hi.isInt.shift d) hget, ?_⟩
    intro heq
    rw [heq, hi.getChunk_eq_self_iff h.toMapped (hi.isInt.shift d)] at hget
    exact ChunkPos.shift_ne hi.isInt d hget
  obtain ⟨m₂, hm₂, hset⟩ := setChunkNeighbours_spec hi.chunkAt hnch
  have hre := hset.relinked
  refine ⟨m₂, hm₂, ?_, hre⟩
  refine { toMapped := mapped_congr hre hmapped, linked := ?_, edgeLinked := ?_ }
  . rw [hre.chunks, hre.chunkAt, hre.getChunk]
    intro k q cq hq hcq
    exact hi.linked h hset hq hcq
  . unfold InBounds
    rw [hre.chunks, hre.chunkAt, hre.edgeCh, hre.world]
    intro d nch
    exact hi.edgeLinked h hset

end Inserted

end Insert

section Edited

/--
Only what is inside of the chunks has changed.
-/
structure Edited (m m' : WorldMemory) : Prop where
  width : m'.width = m.width
  depth : m'.depth = m.depth
  edgeCh : m'.edgeCh = m.edgeCh
  chunks : m'.chunks = m.chunks
  next : m'.heap.next = m.heap.next
  pos : ∀ ch, (m'.chunkAt ch).map (·.pos) = (m.chunkAt ch).map (·.pos)
  neighbour : m'.neighbour = m.neighbour

variable {m' m'' : WorldMemory}

theorem Edited.refl (m : WorldMemory) : Edited m m :=
  ⟨rfl, rfl, rfl, rfl, rfl, fun _ => rfl, rfl⟩

theorem Edited.trans (h : Edited m m') (h' : Edited m' m'') : Edited m m'' where
  width := h'.width.trans h.width
  depth := h'.depth.trans h.depth
  edgeCh := h'.edgeCh.trans h.edgeCh
  chunks := h'.chunks.trans h.chunks
  next := h'.next.trans h.next
  pos := fun ch => (h'.pos ch).trans (h.pos ch)
  neighbour := h'.neighbour.trans h.neighbour

theorem Edited.symm (h : Edited m m') : Edited m' m where
  width := h.width.symm
  depth := h.depth.symm
  edgeCh := h.edgeCh.symm
  chunks := h.chunks.symm
  next := h.next.symm
  pos := fun ch => (h.pos ch).symm
  neighbour := h.neighbour.symm

theorem Edited.world (h : Edited m m') : m'.world = m.world := by
  unfold WorldMemory.world
  rw [h.width, h.depth, h.edgeCh, h.chunks]

theorem Edited.getChunk (h : Edited m m') : m'.getChunk = m.getChunk := by
  funext x z
  rw [WorldMemory.getChunk, WorldMemory.getChunk, h.world]

/--
A chunk is still there, at the same position.
-/
theorem Edited.chunkAt (h : Edited m m') (hc : m.chunkAt ch = some c)
    : ∃ c', m'.chunkAt ch = some c' ∧ c'.pos = c.pos := by
  have hpos := h.pos ch
  rw [hc] at hpos
  simpa using hpos

theorem Edited.alive (h : Edited m m') (ch : Nat) : m'.heap.Alive ch ↔ m.heap.Alive ch := by
  rw [alive_iff_chunkAt, alive_iff_chunkAt]
  constructor
  . rintro ⟨c, hc⟩
    obtain ⟨c', hc', _⟩ := h.symm.chunkAt hc
    exact ⟨c', hc'⟩
  . rintro ⟨c, hc⟩
    obtain ⟨c', hc', _⟩ := h.chunkAt hc
    exact ⟨c', hc'⟩

theorem Edited.inBounds (h : Edited m m') : m'.InBounds pos ↔ m.InBounds pos := by
  unfold InBounds
  rw [h.world]

theorem Edited.sound (he : Edited m m') (h : m.Sound) : m'.Sound where
  edge := by
    rw [he.edgeCh, he.alive]
    exact h.edge
  stored := by
    intro k ch hch
    rw [he.chunks] at hch
    obtain ⟨hne, c, hc, hint, hindex, hin⟩ := h.stored k ch hch
    obtain ⟨c', hc', hpos⟩ := he.chunkAt hc
    rw [he.edgeCh]
    rw [← hpos] at hint hindex hin
    exact ⟨hne, c', hc', hint, hindex, he.inBounds.mpr hin⟩
  linked := by
    intro k ch c hch hc d
    rw [he.chunks] at hch
    obtain ⟨c', hc', hpos⟩ := he.symm.chunkAt hc
    rw [he.neighbour, he.getChunk, ← hpos]
    exact h.linked k ch c' hch hc' d
  edgeLinked := by
    intro d nch hnch
    rw [he.edgeCh, he.neighbour] at hnch
    obtain ⟨k, c, hk, hc, hout⟩ := h.edgeLinked d nch hnch
    obtain ⟨c', hc', hpos⟩ := he.chunkAt hc
    rw [← hpos] at hout
    exact ⟨k, c', he.chunks ▸ hk, hc', mt he.inBounds.mp hout⟩

variable {f : Chunk → Chunk}

theorem editChunk_ok (halive : m.heap.Alive ch) : m.editChunk ch f = .ok (m.edit ch f) := by
  obtain ⟨obj, hobj⟩ := halive
  unfold editChunk
  rw [get_ok hobj]
  rfl

theorem chunkAt_edit (q : Nat)
    : (m.edit ch f).chunkAt q = if q = ch then (m.chunkAt q).map f else m.chunkAt q := by
  simp only [WorldMemory.chunkAt, edit, Heap.get_modify]
  split
  . simp [Function.comp_def]
  . rfl

theorem edited_edit (hf : ∀ c, m.chunkAt ch = some c → (f c).pos = c.pos) : Edited m (m.edit ch f) where
  width := rfl
  depth := rfl
  edgeCh := rfl
  chunks := rfl
  next := rfl
  pos := by
    intro q
    rw [chunkAt_edit]
    split
    . next hq =>
      subst hq
      cases hc : m.chunkAt q with
      | none => rfl
      | some c => simp [hf c hc]
    . rfl
  neighbour := by
    funext q d
    simp only [WorldMemory.neighbour, edit, Heap.get_modify]
    split
    . cases m.heap.get q with
      | none => rfl
      | some obj => rfl
    . rfl

end Edited

end WorldMemory

end HCraft
