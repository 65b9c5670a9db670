import HCraft.World.Access.Lemmas.Finishes
import HCraft.World.Lighting.Lemmas.LightChunk
import HCraft.World.Providers.Anvil.Lemmas.ChunkNbt

/-!
This module shows when a block that was written is read back, from memory and from disk.
-/

namespace HCraft

/--
The provider has chunks under their own positions.
-/
def ChunkStore.Right (store : ChunkStore) : Prop :=
  ∀ pos, ∀ c ∈ store.chunks pos, c.pos = pos

/--
What comes back from disk has the position and the blocks of what was saved.
-/
def Reloads (reload : Chunk → Chunk) : Prop :=
  ∀ c : Chunk, c.pos.IsInt → (reload c).pos = c.pos ∧ (reload c).getId = c.getId

/--
The chunk that `load_chunk` makes where none is in memory.
-/
def ChunkStore.source (store : ChunkStore) (gen : WorldGenerator) (pos : ChunkPos) : Chunk :=
  (store.chunks pos).getD (gen.generate (.new pos.x pos.z))

namespace WorldMemory

variable {m m' : WorldMemory} {p : BlockPos} {pos : ChunkPos} {ch : Nat} {c : Chunk} {gen : WorldGenerator}

theorem loadChunk_of_some (hin : m.InBounds pos) (hch : m.getChunk pos.x pos.z = some ch)
    (prov : Option Chunk) (gen : WorldGenerator)
    : m.loadChunk prov gen pos.x pos.z = .ok (ch, m) := by
  rw [getChunk_of_inBounds hin] at hch
  unfold loadChunk
  rw [if_neg hin, hch]

/--
What is not in memory comes from the provider or the generator.
-/
theorem loadChunk_of_none (h : m.Sound) (hpos : pos.IsInt) (hin : m.InBounds pos)
    (hch : m.getChunk pos.x pos.z = none) {store : ChunkStore}
    (hstore : ∀ c ∈ store.chunks pos, c.pos = pos) (gen : WorldGenerator)
    : ∃ ch m' c, m.loadChunk (store.chunks pos) gen pos.x pos.z = .ok (ch, m')
        ∧ m'.getChunk pos.x pos.z = some ch
        ∧ m'.chunkAt ch = some c
        ∧ c.getId = (store.source gen pos).getId := by
  have hfree := hch
  rw [getChunk_of_inBounds hin] at hfree
  unfold loadChunk ChunkStore.source
  rw [if_neg hin, hfree]
  cases hprov : store.chunks pos with
  | some c =>
    obtain ⟨ch, m', hadd, hloaded, _, hc⟩ :=
      addChunk_spec h (hstore c hprov) hpos hin hfree
    exact ⟨ch, m', c, hadd, hloaded.getChunk, hc, rfl⟩
  | none =>
    have hgen : (gen.generate (.new pos.x pos.z)).pos = pos := gen.pos_generate _
    obtain ⟨ch, m', hadd, hloaded, hnew, hc⟩ := addChunk_spec h hgen hpos hin hfree
    have hloaded' := hloaded.edited hnew Chunk.pos_lightChunk
    refine ⟨ch, m'.edit ch Chunk.lightChunk, (gen.generate (.new pos.x pos.z)).lightChunk, ?_,
      hloaded'.getChunk, ?_, ?_⟩
    . dsimp only
      rw [hadd]
      simp only [bind, Except.bind]
      rw [editChunk_ok (alive_iff_chunkAt.mpr ⟨_, hc⟩)]
      rfl
    . rw [chunkAt_edit, if_pos rfl, hc]
      rfl
    . funext x y z
      exact Chunk.getId_lightChunk _

section Save

variable (reload : Chunk → Chunk) (store : ChunkStore) {chs : List Nat}

/--
After the loop, every chunk is on disk, and nothing else has changed there.
-/
theorem saveChunks_spec (halive : ∀ ch ∈ chs, ∃ c, m.chunkAt ch = some c)
    : ∃ store', m.saveChunks reload chs store = .ok store'
        ∧ ∀ pos,
            ((∀ ch ∈ chs, ∀ c ∈ m.chunkAt ch, c.pos ≠ pos) → store'.chunks pos = store.chunks pos)
              ∧ ∀ c₀, (∃ ch ∈ chs, m.chunkAt ch = some c₀ ∧ c₀.pos = pos) →
                  (∀ ch ∈ chs, ∀ c ∈ m.chunkAt ch, c.pos = pos → c = c₀) →
                  store'.chunks pos = some (reload c₀) := by
  induction chs generalizing store with
  | nil => exact ⟨store, rfl, fun pos => ⟨fun _ => rfl, by simp⟩⟩
  | cons ch chs ih =>
    obtain ⟨c, hc⟩ := halive ch (by simp)
    obtain ⟨store', hsave, hstore'⟩ :=
      ih (store.saveChunk reload c) (fun ch hch => halive ch (by simp [hch]))
    refine ⟨store', ?_, ?_⟩
    . unfold saveChunks
      rw [get_of_chunkAt hc]
      exact hsave
    . intro pos
      obtain ⟨hother, hsaved⟩ := hstore' pos
      have hhead : (store.saveChunk reload c).chunks pos
          = if pos = c.pos then some (reload c) else store.chunks pos := by
        unfold ChunkStore.saveChunk
        simp [Function.update_apply]
      constructor
      . intro hnone
        have hne : pos ≠ c.pos := Ne.symm (hnone ch (by simp) c hc)
        rw [hother (fun ch hch => hnone ch (by simp [hch])), hhead, if_neg hne]
      . intro c₀ hc₀ hunique
        by_cases hlater : ∃ ch ∈ chs, m.chunkAt ch = some c₀ ∧ c₀.pos = pos
        . exact hsaved c₀ hlater (fun ch hch => hunique ch (by simp [hch]))
        . have hlast : ∀ ch ∈ chs, ∀ c ∈ m.chunkAt ch, c.pos ≠ pos := by
            intro ch hch c hc hpos
            have heq := hunique ch (by simp [hch]) c hc hpos
            exact hlater ⟨ch, hch, heq ▸ hc, heq ▸ hpos⟩
          obtain ⟨ch', hch', hchunk, hpos⟩ := hc₀
          rw [List.mem_cons] at hch'
          cases hch' with
          | inl heq =>
            rw [heq, hc] at hchunk
            injection hchunk with hchunk
            rw [hother hlast, hhead, hchunk, if_pos hpos.symm]
          | inr hmem => exact absurd ⟨ch', hmem, hchunk, hpos⟩ hlater

theorem mem_entries_iff : ch ∈ m.chunks.entries.map (·.2) ↔ ∃ k, m.chunks.lookup k = some ch := by
  rw [List.mem_map]
  constructor
  . rintro ⟨⟨k, ch'⟩, hmem, rfl⟩
    exact ⟨k, AList.mem_lookup_iff.mpr hmem⟩
  . rintro ⟨k, hk⟩
    exact ⟨⟨k, ch⟩, AList.mem_lookup_iff.mp hk, rfl⟩

theorem saveAll_spec (h : m.Mapped) (hpos : pos.IsInt) (hin : m.InBounds pos)
    : ∃ store', m.saveAll reload store = .ok store'
        ∧ store'.chunks pos
            =
          match (m.getChunk pos.x pos.z).bind m.chunkAt with
          | none => store.chunks pos
          | some c => some (reload c) := by
  have halive : ∀ ch ∈ m.chunks.entries.map (·.2), ∃ c, m.chunkAt ch = some c := by
    intro ch hch
    obtain ⟨k, hk⟩ := mem_entries_iff.mp hch
    exact alive_iff_chunkAt.mp (h.alive hk)
  obtain ⟨store', hsave, hstore'⟩ := saveChunks_spec reload store halive
  refine ⟨store', hsave, ?_⟩
  obtain ⟨hother, hsaved⟩ := hstore' pos
  -- a chunk of the map with this position is the one under its key
  have hself (ch : Nat) (hch : ch ∈ m.chunks.entries.map (·.2)) (c : Chunk) (hc : m.chunkAt ch = some c)
      (hcpos : c.pos = pos) : m.getChunk pos.x pos.z = some ch := by
    obtain ⟨k, hk⟩ := mem_entries_iff.mp hch
    rw [← hcpos]
    exact h.getChunk_pos hk hc
  cases hch : m.getChunk pos.x pos.z with
  | none =>
    apply hother
    intro ch hmem c hc hcpos
    rw [hself ch hmem c hc hcpos] at hch
    cases hch
  | some ch =>
    have hlookup := hch
    rw [getChunk_of_inBounds hin] at hlookup
    obtain ⟨c, hc⟩ := alive_iff_chunkAt.mp (h.alive hlookup)
    have hcpos : c.pos = pos := h.pos_eq hlookup hc hpos hch
    rw [Option.bind_some, hc]
    apply hsaved c ⟨ch, mem_entries_iff.mpr ⟨_, hlookup⟩, hc, hcpos⟩
    intro ch' hmem c' hc' hcpos'
    have hsame := hself ch' hmem c' hc' hcpos'
    rw [hch] at hsame
    injection hsame with hsame
    rw [← hsame, hc] at hc'
    injection hc' with hc'
    exact hc'.symm

end Save

section ReadsBack

/--
Once its chunk is loaded, the block at `p` is `id`.
-/
def ReadsBack (m : WorldMemory) (store : ChunkStore) (gen : WorldGenerator) (p : BlockPos) (id : UInt16)
    : Prop :=
  ∃ ch m', m.loadChunk (store.chunks p.chunkPos) gen p.chunkPos.x p.chunkPos.z = .ok (ch, m')
    ∧ m'.getId p = .ok id

variable {store : ChunkStore} {id : UInt16}

theorem readsBack_of_some (hin : m.InBounds p.chunkPos)
    (hch : m.getChunk p.chunkPos.x p.chunkPos.z = some ch) (hc : m.chunkAt ch = some c)
    : m.ReadsBack store gen p id ↔ c.getId p.bx p.y p.bz = id := by
  have hload := loadChunk_of_some hin hch (store.chunks p.chunkPos) gen
  have hget := getId_of_chunkAt hch hc
  constructor
  . rintro ⟨ch', m', hload', hget'⟩
    rw [hload] at hload'
    injection hload' with hload'
    injection hload' with _ hm
    rw [← hm, hget] at hget'
    injection hget'
  . intro hid
    exact ⟨ch, m, hload, hid ▸ hget⟩

theorem readsBack_of_none (h : m.Sound) (hin : m.InBounds p.chunkPos)
    (hch : m.getChunk p.chunkPos.x p.chunkPos.z = none)
    (hstore : ∀ c ∈ store.chunks p.chunkPos, c.pos = p.chunkPos)
    : m.ReadsBack store gen p id
        ↔
      (store.source gen p.chunkPos).getId p.bx p.y p.bz = id := by
  obtain ⟨ch, m', c, hload, hget, hc, hid⟩ :=
    loadChunk_of_none h p.isInt_chunkPos hin hch hstore gen
  have hget' := getId_of_chunkAt hget hc
  rw [hid] at hget'
  constructor
  . rintro ⟨ch', m'', hload', hget''⟩
    rw [hload] at hload'
    injection hload' with hload'
    injection hload' with _ hm
    rw [← hm, hget'] at hget''
    injection hget''
  . intro heq
    exact ⟨ch, m', hload, heq ▸ hget'⟩

/--
The block is read back from memory, and again after everything has been saved and the world has been
loaded anew.
-/
def ReadsBackAlways (m : WorldMemory) (store : ChunkStore) (reload : Chunk → Chunk)
    (gen : WorldGenerator) (p : BlockPos) (id : UInt16) : Prop :=
  m.ReadsBack store gen p id
    ∧ ∃ store', m.saveAll reload store = .ok store'
        ∧ ∀ edge, (new m.width m.depth edge).ReadsBack store' gen p id

variable {reload : Chunk → Chunk}

theorem inBounds_new (hin : m.InBounds pos) (edge : Chunk) : (new m.width m.depth edge).InBounds pos :=
  (inBounds_congr rfl rfl).mpr hin

theorem getChunk_new (hin : m.InBounds pos) (edge : Chunk)
    : (new m.width m.depth edge).getChunk pos.x pos.z = none := by
  rw [getChunk_of_inBounds (inBounds_new hin edge)]
  exact AList.lookup_empty _

/--
Saving and loading change nothing about what is read.
-/
theorem readsBackAlways_iff (h : m.Sound) (hin : m.InBounds p.chunkPos) (hstore : store.Right)
    (hreload : Reloads reload)
    : m.ReadsBackAlways store reload gen p id ↔ m.ReadsBack store gen p id := by
  constructor
  . exact fun hread => hread.left
  . intro hread
    obtain ⟨store', hsave, hsaved⟩ :=
      saveAll_spec reload store h.toMapped p.isInt_chunkPos hin
    refine ⟨hread, store', hsave, ?_⟩
    intro edge
    have hnew (store : ChunkStore) (hstore : ∀ c ∈ store.chunks p.chunkPos, c.pos = p.chunkPos)
        : (new m.width m.depth edge).ReadsBack store gen p id
            ↔
          (store.source gen p.chunkPos).getId p.bx p.y p.bz = id :=
      readsBack_of_none (sound_new m.width m.depth edge)
        (inBounds_new hin edge) (getChunk_new hin edge) hstore
    cases hch : m.getChunk p.chunkPos.x p.chunkPos.z with
    | none =>
      rw [hch, Option.bind_none] at hsaved
      dsimp only at hsaved
      have hsame : store'.source gen p.chunkPos = store.source gen p.chunkPos := by
        unfold ChunkStore.source
        rw [hsaved]
      rw [hnew store' (fun c hc => hstore _ c (hsaved ▸ hc)), hsame]
      exact (readsBack_of_none h hin hch (hstore _)).mp hread
    | some ch =>
      obtain ⟨c, hc⟩ := h.chunkAt_getChunk hch
      have hlookup := hch
      rw [getChunk_of_inBounds hin] at hlookup
      have hpos := h.pos_eq hlookup hc p.isInt_chunkPos hch
      obtain ⟨hrpos, hrid⟩ := hreload c (hpos ▸ p.isInt_chunkPos)
      rw [hch, Option.bind_some, hc] at hsaved
      have hsource : store'.source gen p.chunkPos = reload c := by
        unfold ChunkStore.source
        rw [hsaved]
        rfl
      have hright : ∀ c' ∈ store'.chunks p.chunkPos, c'.pos = p.chunkPos := by
        intro c' hc'
        rw [hsaved] at hc'
        injection hc' with hc'
        rw [← hc', hrpos, hpos]
      rw [hnew store' hright, hsource, hrid]
      exact (readsBack_of_some hin hch hc).mp hread

end ReadsBack

end WorldMemory

namespace Lighting

open Transition

/--
The write returns, its lighting calls included, and whatever lighting does afterwards, the block at `p`
is read back as `id`.
-/
def Kept (s : Lighting) (r : Except Fault Lighting) (store : ChunkStore) (reload : Chunk → Chunk)
    (gen : WorldGenerator) (p : BlockPos) (id : UInt16) : Prop :=
  ∃ s₁, r = .ok s₁
    ∧ s₁.Finishes s.calls
    ∧ ∀ as s₂, exec step (.ok s₁) as = some (.ok s₂) → s₂.mem.ReadsBackAlways store reload gen p id

/--
In the world with the block written, the lighting calls for `p` come to loaded chunks and known blocks
only.
-/
def WriteReady (s : Lighting) (prov : Option Chunk) (gen : WorldGenerator) (p : BlockPos) (id : UInt16)
    (f : Chunk → Chunk) : Prop :=
  ∀ mem, s.mem.write prov gen p id f = .ok (some mem) → mem.CallsReady mem.lightAt [p]

variable {s : Lighting} {p : BlockPos} {gen : WorldGenerator} {id id' : UInt16} {f : Chunk → Chunk}
  {store : ChunkStore} {reload : Chunk → Chunk}

theorem kept_of_air (h : s.mem.Sound) (hin : s.mem.InBounds p.chunkPos) (hstore : store.Right)
    (hreload : Reloads reload) (gen : WorldGenerator) (hid : id = 0)
    (hch : s.mem.getChunk p.chunkPos.x p.chunkPos.z = none)
    : Kept s (s.update (store.chunks p.chunkPos) gen p id f) store reload gen p id
        ↔
      (store.source gen p.chunkPos).getId p.bx p.y p.bz = 0 := by
  have hread (s₂ : Lighting) (hrelit : s.mem.Relit s₂.mem)
      : s₂.mem.ReadsBackAlways store reload gen p id
          ↔
        (store.source gen p.chunkPos).getId p.bx p.y p.bz = 0 := by
    have hsound := hrelit.edited.sound h
    have hin' := hrelit.edited.inBounds.mpr hin
    rw [WorldMemory.readsBackAlways_iff hsound hin' hstore hreload,
      WorldMemory.readsBack_of_none hsound hin' (hrelit.edited.getChunk ▸ hch) (hstore _), hid]
  constructor
  . rintro ⟨s₁, hset, _, hkept⟩
    rw [update_of_air hid hch] at hset
    injection hset with hset
    subst hset
    exact (hread s (.refl _)).mp (hkept [] s rfl)
  . intro hsource
    refine ⟨s, update_of_air hid hch, ⟨0, s, rfl, rfl⟩, ?_⟩
    intro as s₂ hexec
    exact (hread s₂ (relit_of_exec h hexec)).mpr hsource

theorem kept_of_written (h : s.mem.Sound) (hin : s.mem.InBounds p.chunkPos) (hstore : store.Right)
    (hreload : Reloads reload) (gen : WorldGenerator) (hpos : ∀ c : Chunk, (f c).pos = c.pos)
    (hf : ∀ c : Chunk, (f c).getId p.bx p.y p.bz = id')
    (hair : ¬ (id = 0 ∧ s.mem.getChunk p.chunkPos.x p.chunkPos.z = none))
    : Kept s (s.update (store.chunks p.chunkPos) gen p id f) store reload gen p id
        ↔
      id' = id ∧ s.WriteReady (store.chunks p.chunkPos) gen p id f := by
  obtain ⟨ch, mem, hloaded, hwrite⟩ := write_spec (f := f) h (hstore p.chunkPos) gen hair
  have hok : s.update (store.chunks p.chunkPos) gen p id f
      = .ok ({ s with mem := mem.edit ch f }.enqueue p) := by
    unfold update
    rw [hwrite]
    rfl
  obtain ⟨c, hc⟩ := hloaded.sound.chunkAt_getChunk hloaded.getChunk
  have hedited : mem.Edited (mem.edit ch f) := WorldMemory.edited_edit (fun c _ => hpos c)
  have hsound := hedited.sound hloaded.sound
  have hin' : (mem.edit ch f).InBounds p.chunkPos := by
    rw [hedited.inBounds, WorldMemory.inBounds_congr hloaded.width hloaded.depth]
    exact hin
  have hget : (mem.edit ch f).getChunk p.chunkPos.x p.chunkPos.z = some ch := by
    rw [hedited.getChunk, hloaded.getChunk]
  have hedit : (mem.edit ch f).chunkAt ch = some (f c) := by
    rw [WorldMemory.chunkAt_edit, if_pos rfl, hc]
    rfl
  -- whatever lighting does, what is read back is what `f` has put
  have hread (m : WorldMemory) (hrelit : (mem.edit ch f).Relit m)
      : m.ReadsBackAlways store reload gen p id ↔ id' = id := by
    obtain ⟨c', hc', hblocks⟩ := hrelit.chunkAt hedit
    have hid : c'.getId = (f c).getId := congrArg Blocks.getId hblocks
    have hin'' := hrelit.edited.inBounds.mpr hin'
    rw [WorldMemory.readsBackAlways_iff (hrelit.edited.sound hsound) hin'' hstore hreload,
      WorldMemory.readsBack_of_some hin'' (hrelit.edited.getChunk ▸ hget) hc', hid, hf]
  have hfinishes : ({ s with mem := mem.edit ch f }.enqueue p).Finishes s.calls
      ↔ s.WriteReady (store.chunks p.chunkPos) gen p id f := by
    have hcalls : ({ s with mem := mem.edit ch f }.enqueue p).calls = [p] ++ s.calls := rfl
    rw [finishes_iff hsound hcalls]
    unfold WriteReady
    rw [hwrite]
    constructor
    . intro hready mem' hmem'
      injection hmem' with hmem'
      injection hmem' with hmem'
      exact hmem' ▸ hready
    . exact fun hready => hready _ rfl
  constructor
  . rintro ⟨s₁, hset, hfinish, hkept⟩
    have hmem := hkept [] s₁ rfl
    rw [hok] at hset
    injection hset with hset
    rw [← hset] at hmem hfinish
    exact ⟨(hread _ (.refl _)).mp hmem, hfinishes.mp hfinish⟩
  . rintro ⟨heq, hready⟩
    refine ⟨_, hok, hfinishes.mpr hready, ?_⟩
    intro as s₂ hexec
    exact (hread _ (relit_of_exec hsound hexec)).mpr heq

theorem setIdAndMeta_shiftRight (hid : id.toNat < 4096) (val : UInt8)
    : (id <<< 4 ||| val.toUInt16) >>> 4 = id ||| (val >>> 4).toUInt16 := by
  have hshift : (val >>> (4 : UInt8)).toNat = val.toNat >>> 4 := UInt8.toNat_shiftRight val 4
  apply UInt16.toNat_inj.mp
  rw [Chunk.toNat_shiftRight_four, UInt16.toNat_or, UInt16.toNat_or, Chunk.toNat_shiftLeft_id hid,
    UInt8.toNat_toUInt16, UInt8.toNat_toUInt16, hshift]
  have hor : (id.toNat * 16 ||| val.toNat) >>> 4 = (id.toNat * 16) >>> 4 ||| val.toNat >>> 4 :=
    Nat.shiftRight_or_distrib
  simp only [Nat.shiftRight_eq_div_pow, Nat.reducePow] at hor ⊢
  rw [hor, Nat.mul_div_cancel _ (by omega)]

/--
Air is lost where nothing is loaded but would be, an id is lost where the meta is too large and has
other bits above its first four, and a write does not return where its lighting comes to a chunk that is
not loaded or to an unknown block.
-/
theorem kept_set_iff (h : Reachable s) (hin : s.mem.InBounds p.chunkPos) (hstore : store.Right)
    (hreload : Reloads reload) (gen : WorldGenerator) (hid : id.toNat < 4096) (val : UInt8)
    : (Kept s (s.setId (store.chunks p.chunkPos) gen p id) store reload gen p id
          ↔ ¬ (id = 0
                ∧ s.mem.getChunk p.chunkPos.x p.chunkPos.z = none
                ∧ (store.source gen p.chunkPos).getId p.bx p.y p.bz ≠ 0)
              ∧ s.WriteReady (store.chunks p.chunkPos) gen p id (·.setId p.bx p.y p.bz id))
        ∧ (Kept s (s.setIdAndMeta (store.chunks p.chunkPos) gen p id val) store reload gen p id
            ↔ (if id = 0 ∧ s.mem.getChunk p.chunkPos.x p.chunkPos.z = none then
                  (store.source gen p.chunkPos).getId p.bx p.y p.bz = 0
                else
                  id ||| (val >>> 4).toUInt16 = id)
                ∧ s.WriteReady (store.chunks p.chunkPos) gen p id
                  (·.setIdAndMeta p.bx p.y p.bz id val)) := by
  by_cases hair : id = 0 ∧ s.mem.getChunk p.chunkPos.x p.chunkPos.z = none
  . have hkept (f : Chunk → Chunk) :=
      kept_of_air (f := f) h.sound hin hstore hreload gen hair.left hair.right
    -- nothing is written
    have hready (f : Chunk → Chunk) : s.WriteReady (store.chunks p.chunkPos) gen p id f := by
      intro mem hmem
      rw [write_of_air hair.left hair.right] at hmem
      injection hmem with hmem
      cases hmem
    rw [if_pos hair]
    constructor
    . unfold setId
      rw [hkept, and_iff_left (hready _)]
      tauto
    . rw [and_iff_left (hready _)]
      exact hkept _
  . rw [if_neg hair]
    constructor
    . have hwritten (c : Chunk) : (c.setId p.bx p.y p.bz id).getId p.bx p.y p.bz = id := by
        unfold Chunk.setId
        rw [Chunk.getId_updateHeight, Chunk.getId_setType_self, Chunk.setId_shiftRight hid]
      have hkept := kept_of_written h.sound hin hstore hreload gen
        (fun _ => Chunk.pos_setId) hwritten hair
      unfold setId
      rw [hkept]
      tauto
    . apply kept_of_written h.sound hin hstore hreload gen (fun _ => Chunk.pos_setIdAndMeta) _ hair
      intro c
      unfold Chunk.setIdAndMeta
      rw [Chunk.getId_updateHeight, Chunk.getId_setType_self, setIdAndMeta_shiftRight hid]

section Stone

theorem reloads_chunkNbt
    : Reloads (fun c => ChunkNbt.addSections c (List.finRange 16) (ChunkNbt.loadHead c)) := by
  intro c hc
  have hx := hc.left
  have hz := hc.right
  constructor
  . rw [ChunkNbt.pos_addSections, ChunkNbt.pos_loadHead hx hz]
  . funext x y z
    exact ChunkNbt.getId_loaded x y z

def stone : WorldGenerator where
  generate := fun ch => ch.setId 0 0 0 1
  pos_generate := fun _ => Chunk.pos_setId

/--
Stone is put where a chunk has not been generated.
-/
theorem kept_set_stone
    : let p : BlockPos := ⟨0, 0, 0, by decide, by decide⟩
      let s : Lighting := { mem := .new 16 16 (.new 0 0), updates := [], calls := [] }
      let store : ChunkStore := { chunks := fun _ => none }
      let reload := fun c => ChunkNbt.addSections c (List.finRange 16) (ChunkNbt.loadHead c)
      (Kept s (s.setId (store.chunks p.chunkPos) .empty p 1) store reload .empty p 1
          ↔ ¬ ((1 : UInt16) = 0
                ∧ s.mem.getChunk p.chunkPos.x p.chunkPos.z = none
                ∧ (store.source .empty p.chunkPos).getId p.bx p.y p.bz ≠ 0)
              ∧ s.WriteReady (store.chunks p.chunkPos) .empty p 1 (·.setId p.bx p.y p.bz 1))
        ∧ (Kept s (s.setIdAndMeta (store.chunks p.chunkPos) .empty p 1 5) store reload .empty p 1
            ↔ (if (1 : UInt16) = 0 ∧ s.mem.getChunk p.chunkPos.x p.chunkPos.z = none then
                  (store.source .empty p.chunkPos).getId p.bx p.y p.bz = 0
                else
                  (1 : UInt16) ||| ((5 : UInt8) >>> 4).toUInt16 = 1)
                ∧ s.WriteReady (store.chunks p.chunkPos) .empty p 1
                  (·.setIdAndMeta p.bx p.y p.bz 1 5)) := by
  intro p s store reload
  have hpos : p.chunkPos = ⟨0, 0⟩ := by decide
  apply kept_set_iff (.new 16 16 (.new 0 0)) (hpos ▸ inBounds_new_iff.mpr rfl)
  . intro pos c hc
    cases hc
  . exact reloads_chunkNbt
  . decide

/--
Air is put where stone would be generated, and stone is what is there afterwards.
-/
theorem not_kept_set
    : ¬ ∀ (s : Lighting) (p : BlockPos) (store : ChunkStore) (reload : Chunk → Chunk)
        (gen : WorldGenerator) (id : UInt16), Reachable s → s.mem.InBounds p.chunkPos →
        store.Right → Reloads reload → id.toNat < 4096 →
        Kept s (s.setId (store.chunks p.chunkPos) gen p id) store reload gen p id := by
  intro h
  let p : BlockPos := ⟨0, 0, 0, by decide, by decide⟩
  let s : Lighting := { mem := .new 16 16 (.new 0 0), updates := [], calls := [] }
  let store : ChunkStore := { chunks := fun _ => none }
  have hpos : p.chunkPos = ⟨0, 0⟩ := by decide
  have hin : s.mem.InBounds p.chunkPos := hpos ▸ inBounds_new_iff.mpr rfl
  have hstore : store.Right := by
    intro pos c hc
    cases hc
  have hnone : s.mem.getChunk p.chunkPos.x p.chunkPos.z = none := by
    rw [WorldMemory.getChunk_of_inBounds hin]
    exact AList.lookup_empty _
  have hkept := h s p store _ stone 0 (.new 16 16 (.new 0 0)) hin hstore reloads_chunkNbt (by decide)
  have hair := (kept_of_air (s := s) (WorldMemory.sound_new 16 16 (.new 0 0)) hin hstore
    reloads_chunkNbt stone rfl hnone).mp hkept
  have hsource : (store.source stone p.chunkPos).getId p.bx p.y p.bz = 1 := by decide
  rw [hsource] at hair
  exact absurd hair (by decide)

end Stone

end Lighting

end HCraft
