import HCraft.World.Access.Lemmas.ReadBack
import HCraft.World.LoadFrom.Impl
import HCraft.World.Providers.Anvil.Lemmas.LevelDat
import HCraft.World.Providers.Anvil.Lemmas.Store

/-!
This module contains what is on the disk after `save_all`.
-/

namespace HCraft

namespace Disk

variable {δ : Type} {fs : FileSystem δ} {disk : Disk δ} {path path' : Bytes} {dir : WorldDir}

theorem dirAt_congr (h : fs.resolve path = fs.resolve path')
    : disk.dirAt fs path = disk.dirAt fs path' := by
  unfold dirAt
  rw [h]

theorem claims_iff : disk.claims fs path = true
    ↔
    ∃ dir, disk.dirAt fs path = some dir ∧ dir.hasRegion = true ∧ dir.levelDat.isSome = true := by
  unfold claims
  cases disk.dirAt fs path with
  | none => simp
  | some dir => simp

variable [DecidableEq δ]

theorem dirAt_set_self (dir : Option WorldDir) : (disk.set fs path dir).dirAt fs path = dir :=
  Function.update_self _ _ _

theorem dirAt_modify_self (h : disk.dirAt fs path = some dir) (f : WorldDir → WorldDir)
    : (disk.modify fs path f).dirAt fs path = some (f dir) := by
  unfold modify
  rw [dirAt_set_self, h]
  rfl

theorem set_dirAt : disk.set fs path (disk.dirAt fs path) = disk := by
  unfold set dirAt
  rw [Function.update_eq_self]

theorem createDirs_of_claimed (h : disk.dirAt fs path = some dir) (hregion : dir.hasRegion = true)
    : (disk.createDir fs path).createRegionDir fs path = disk := by
  have hcreate : disk.createDir fs path = disk := by
    unfold createDir
    rw [h]
    exact if_neg (by simp)
  have hsame : { dir with hasRegion := true } = dir := by
    cases dir
    dsimp only at hregion
    rw [hregion]
  rw [hcreate, createRegionDir, modify, h, Option.map_some, hsame, ← h, set_dirAt]

end Disk

namespace WorldSession

variable {δ : Type} {fs : FileSystem δ} {zl : ZlibFormats} {s s' s'' s₀ : WorldSession δ} {ch : Nat}
  {c : Chunk} {dir : WorldDir} {store store' : ChunkStore}

/--
The data that the region files have for a position.
-/
def dataAt (fs : FileSystem δ) (s : WorldSession δ) (pos : ChunkPos) : Option Bytes :=
  (s.disk.dirAt fs s.prov.wpath).bind (·.chunks (pos.x, pos.z))

theorem dataAt_of_dirAt (h : s.disk.dirAt fs s.prov.wpath = some dir) (pos : ChunkPos)
    : s.dataAt fs pos = dir.chunks (pos.x, pos.z) := by
  unfold dataAt
  rw [h]
  rfl

/--
`s'` is `s` after something was saved.
-/
structure Saved (s s' : WorldSession δ) : Prop where
  inf : s'.inf = s.inf
  gen : s'.gen = s.gen
  prov : s'.prov = s.prov
  mem : s'.mem = s.mem
  opened : ∀ f ∈ s'.opened, f ∈ s.opened ∨ f.wpath = s.prov.wpath

theorem Saved.refl (s : WorldSession δ) : Saved s s :=
  ⟨rfl, rfl, rfl, rfl, fun _ => .inl⟩

theorem Saved.trans (h : Saved s s') (h' : Saved s' s'') : Saved s s'' where
  inf := h'.inf.trans h.inf
  gen := h'.gen.trans h.gen
  prov := h'.prov.trans h.prov
  mem := h'.mem.trans h.mem
  opened := by
    intro f hf
    cases h'.opened f hf with
    | inl hmem => exact h.opened f hmem
    | inr hpath => exact .inr (h.prov ▸ hpath)

theorem saved_opening (s : WorldSession δ) (disk : Disk δ) (file : WorldFile)
    : Saved s { s with disk, opened := s.opening file } where
  inf := rfl
  gen := rfl
  prov := rfl
  mem := rfl
  opened := by
    intro f hf
    unfold opening at hf
    rw [List.mem_cons] at hf
    cases hf with
    | inl heq => exact .inr (heq ▸ rfl)
    | inr hmem => exact .inl hmem

/--
The directory of the world has room for its files.
-/
def Ready (fs : FileSystem δ) (s : WorldSession δ) : Prop :=
  ∃ dir, s.disk.dirAt fs s.prov.wpath = some dir ∧ dir.hasRegion = true

/--
The disk of `s` has the chunks of the store, where it has any, and otherwise what the disk of `s₀` has.
-/
def Tracks (fs : FileSystem δ) (zl : ZlibFormats) (s₀ s : WorldSession δ) (store : ChunkStore) : Prop :=
  ∀ pos, s.dataAt fs pos
    = match store.chunks pos with
      | none => s₀.dataAt fs pos
      | some c => (ChunkNbt.makeChunkData zl.zlib c).toOption

theorem tracks_refl (fs : FileSystem δ) (zl : ZlibFormats) (s : WorldSession δ)
    : Tracks fs zl s s { chunks := fun _ => none } :=
  fun _ => rfl

theorem tracks_saveChunk (h : Tracks fs zl s₀ s store)
    (hdata : ∀ pos, s'.dataAt fs pos
      = if pos = c.pos then (ChunkNbt.makeChunkData zl.zlib c).toOption else s.dataAt fs pos)
    : Tracks fs zl s₀ s' (store.saveChunk id c) := by
  intro pos
  unfold ChunkStore.saveChunk
  dsimp only
  rw [hdata, Function.update_apply]
  split
  . rfl
  . exact h pos

variable [DecidableEq δ]

theorem saveChunk_eq_ok (h : s.saveChunk fs zl c = .ok s')
    : ∃ data, ChunkNbt.makeChunkData zl.zlib c = .ok data
        ∧ s' =
            { s with
              disk := s.disk.modify fs s.prov.wpath (·.setChunk c.pos data)
              opened := s.opening (regionOf c.pos) } := by
  unfold saveChunk ProviderState.saveChunk at h
  obtain ⟨disk, hdisk, h⟩ := bind_eq_ok_iff.mp h
  obtain ⟨data, hdata, hdisk⟩ := bind_eq_ok_iff.mp hdisk
  injection h with h
  injection hdisk with hdisk
  exact ⟨data, hdata, by rw [← h, ← hdisk]⟩

theorem saveWorldData_eq_ok (h : s.saveWorldData fs zl = .ok s')
    : ∃ data, WorldData.save zl.gzip s.inf = .ok data
        ∧ s' =
            { s with
              disk := s.disk.modify fs s.prov.wpath (·.setLevelDat data)
              opened := s.opening .levelDat } := by
  unfold saveWorldData ProviderState.saveWorldData at h
  obtain ⟨disk, hdisk, h⟩ := bind_eq_ok_iff.mp h
  obtain ⟨data, hdata, hdisk⟩ := bind_eq_ok_iff.mp hdisk
  injection h with h
  injection hdisk with hdisk
  exact ⟨data, hdata, by rw [← h, ← hdisk]⟩

theorem saved_saveChunks {chs : List Nat} (h : saveChunks fs zl chs s = .ok s') : Saved s s' := by
  induction chs generalizing s with
  | nil =>
    injection h with h
    exact h ▸ .refl s
  | cons ch chs ih =>
    unfold saveChunks at h
    obtain ⟨obj, _, h⟩ := bind_eq_ok_iff.mp h
    obtain ⟨s₁, hs₁, h⟩ := bind_eq_ok_iff.mp h
    obtain ⟨data, _, heq⟩ := saveChunk_eq_ok hs₁
    exact (heq ▸ saved_opening s _ _).trans (ih h)

/--
The last file that is opened is level.dat.
-/
theorem saveAll_eq_ok (h : s.saveAll fs zl = .ok s')
    : Saved s s' ∧ ⟨s.prov.wpath, .levelDat⟩ ∈ s'.opened := by
  unfold saveAll at h
  obtain ⟨s₁, hs₁, h⟩ := bind_eq_ok_iff.mp h
  obtain ⟨data, _, heq⟩ := saveWorldData_eq_ok h
  have hsaved := saved_saveChunks hs₁
  refine ⟨hsaved.trans (heq ▸ saved_opening s₁ _ _), ?_⟩
  rw [heq, ← hsaved.prov]
  exact List.mem_cons_self

section Spec

/--
The region files keep the chunks of the directory: saving one there refines `setChunk`.
-/
theorem stores_setChunk {prov : AnvilWorldProvider} {pos : ChunkPos} {data : Bytes}
    (h : prov.Stores dir.chunks)
    (hlen : ∀ r file, prov.regions r = some file → file.length < 2 ^ 31)
    (hdata : data.length + 5 ≤ 255 * 4096)
    (hfit : ∀ prov', prov.saveChunk pos.x pos.z data = .ok prov' →
      ∀ r file, prov'.regions r = some file → file.length < 2 ^ 31)
    : ∃ prov', prov.saveChunk pos.x pos.z data = .ok prov'
        ∧ prov'.Stores (dir.setChunk pos data).chunks :=
  h.saveChunk hlen hdata hfit

theorem chunks_setChunk (dir : WorldDir) (pos pos' : ChunkPos) (data : Bytes)
    : (dir.setChunk pos data).chunks (pos'.x, pos'.z)
        =
      if pos' = pos then some data else dir.chunks (pos'.x, pos'.z) := by
  have hiff : (pos'.x, pos'.z) = (pos.x, pos.z) ↔ pos' = pos := by
    rw [Prod.mk.injEq, ChunkPos.mk.injEq]
  unfold WorldDir.setChunk
  dsimp only
  rw [Function.update_apply]
  simp only [hiff]

theorem saveChunk_spec (zl : ZlibFormats) (hready : s.Ready fs) (c : Chunk)
    : ∃ s', s.saveChunk fs zl c = .ok s'
        ∧ s'.Ready fs
        ∧ ∀ pos, s'.dataAt fs pos
            = if pos = c.pos then (ChunkNbt.makeChunkData zl.zlib c).toOption else s.dataAt fs pos := by
  obtain ⟨data, hmake, _⟩ := ChunkNbt.loadChunkData_makeChunkData zl.inflate_zlib c
  obtain ⟨dir, hdir, hregion⟩ := hready
  have hdir' : (s.disk.modify fs s.prov.wpath (·.setChunk c.pos data)).dirAt fs s.prov.wpath
      = some (dir.setChunk c.pos data) := Disk.dirAt_modify_self hdir _
  refine ⟨{ s with
      disk := s.disk.modify fs s.prov.wpath (·.setChunk c.pos data)
      opened := s.opening (regionOf c.pos) }, ?_, ⟨_, hdir', hregion⟩, ?_⟩
  . unfold saveChunk ProviderState.saveChunk
    rw [hmake]
    rfl
  . intro pos
    rw [dataAt_of_dirAt hdir', dataAt_of_dirAt hdir, chunks_setChunk, hmake]
    rfl

/--
The loop of `save_all` does to the disk what it does to a map of chunks.
-/
theorem saveChunks_tracks {chs : List Nat} (hready : s.Ready fs) (h : Tracks fs zl s₀ s store)
    (hsave : s.mem.saveChunks id chs store = .ok store')
    : ∃ s', saveChunks fs zl chs s = .ok s' ∧ s'.Ready fs ∧ Tracks fs zl s₀ s' store' := by
  induction chs generalizing s store with
  | nil =>
    injection hsave with hsave
    exact ⟨s, rfl, hready, hsave ▸ h⟩
  | cons ch chs ih =>
    unfold WorldMemory.saveChunks at hsave
    obtain ⟨obj, hobj, hsave⟩ := bind_eq_ok_iff.mp hsave
    obtain ⟨s₁, hs₁, hready₁, hdata⟩ := saveChunk_spec zl hready obj.chunk
    have hmem : s₁.mem = s.mem := by
      obtain ⟨data, _, heq⟩ := saveChunk_eq_ok hs₁
      rw [heq]
    rw [← hmem] at hsave
    obtain ⟨s', hs', hready', htracks⟩ := ih hready₁ (tracks_saveChunk h hdata) hsave
    refine ⟨s', ?_, hready', htracks⟩
    unfold saveChunks
    exact bind_eq_ok_iff.mpr ⟨obj, hobj, bind_eq_ok_iff.mpr ⟨s₁, hs₁, hs'⟩⟩

theorem saveWorldData_spec (zl : ZlibFormats) (hready : s.Ready fs) (hinf : s.inf.Storable)
    : ∃ s' data, s.saveWorldData fs zl = .ok s'
        ∧ s'.Ready fs
        ∧ (s'.disk.dirAt fs s'.prov.wpath).bind (·.levelDat) = some data
        ∧ WorldData.load zl.inflate (some data) = .ok s.inf
        ∧ ∀ pos, s'.dataAt fs pos = s.dataAt fs pos := by
  obtain ⟨data, hsave, hload⟩ := WorldData.load_save zl.inflate_gzip hinf
  obtain ⟨dir, hdir, hregion⟩ := hready
  have hdir' : (s.disk.modify fs s.prov.wpath (·.setLevelDat data)).dirAt fs s.prov.wpath
      = some (dir.setLevelDat data) := Disk.dirAt_modify_self hdir _
  refine ⟨{ s with
      disk := s.disk.modify fs s.prov.wpath (·.setLevelDat data)
      opened := s.opening .levelDat }, data, ?_, ⟨_, hdir', hregion⟩, ?_, hload, ?_⟩
  . unfold saveWorldData ProviderState.saveWorldData
    rw [hsave]
    rfl
  . dsimp only
    rw [hdir']
    rfl
  . intro pos
    rw [dataAt_of_dirAt hdir', dataAt_of_dirAt hdir]
    rfl

/--
What `save_all` leaves on the disk for a position.
-/
def savedAt (fs : FileSystem δ) (zl : ZlibFormats) (s : WorldSession δ) (pos : ChunkPos) : Option Bytes :=
  match (s.mem.getChunk pos.x pos.z).bind s.mem.chunkAt with
  | none => s.dataAt fs pos
  | some c => (ChunkNbt.makeChunkData zl.zlib c).toOption

/--
The disk has the chunks in memory, and all else that it had.
-/
theorem saveAll_spec (zl : ZlibFormats) (hready : s.Ready fs) (hm : s.mem.Mapped) (hinf : s.inf.Storable)
    : ∃ s' data, s.saveAll fs zl = .ok s'
        ∧ s'.Ready fs
        ∧ (s'.disk.dirAt fs s'.prov.wpath).bind (·.levelDat) = some data
        ∧ WorldData.load zl.inflate (some data) = .ok s.inf
        ∧ ∀ pos, pos.IsInt → s.mem.InBounds pos →
            s'.dataAt fs pos = s.savedAt fs zl pos := by
  have halive : ∀ ch ∈ s.mem.chunks.entries.map (·.2), ∃ c, s.mem.chunkAt ch = some c := by
    intro ch hch
    obtain ⟨k, hk⟩ := WorldMemory.mem_entries_iff.mp hch
    exact WorldMemory.alive_iff_chunkAt.mp (hm.alive hk)
  obtain ⟨store', hstore, _⟩ :=
    WorldMemory.saveChunks_spec id { chunks := fun _ => none } halive
  obtain ⟨s₁, hs₁, hready₁, htracks⟩ :=
    saveChunks_tracks hready (tracks_refl fs zl s) hstore
  have hinf₁ : s₁.inf = s.inf := (saved_saveChunks hs₁).inf
  obtain ⟨s', data, hs', hready', hlevel, hload, hdata⟩ :=
    saveWorldData_spec zl hready₁ (hinf₁ ▸ hinf)
  refine ⟨s', data, ?_, hready', hlevel, hinf₁ ▸ hload, ?_⟩
  . unfold saveAll
    exact bind_eq_ok_iff.mpr ⟨s₁, hs₁, hs'⟩
  . intro pos hpos hin
    obtain ⟨store'', hstore'', hchunk⟩ := WorldMemory.saveAll_spec id _ hm hpos hin
    have hsame : store' = store'' := Except.ok.inj (hstore.symm.trans hstore'')
    have hsaved := htracks pos
    rw [hsame, hchunk] at hsaved
    refine (hdata pos).trans (hsaved.trans ?_)
    unfold savedAt
    cases (s.mem.getChunk pos.x pos.z).bind s.mem.chunkAt with
    | none => rfl
    | some c => dsimp only [id]

end Spec

end WorldSession

end HCraft
