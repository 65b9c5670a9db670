import HCraft.Lib.Transition
import HCraft.World.LoadFrom.Lemmas.Save

/-!
This module contains what `load_from` makes of a path, and what stays true of the world that it loads.
-/

namespace HCraft

namespace Disk

variable {δ : Type} {fs : FileSystem δ} {zl : ZlibFormats} {disk : Disk δ} {path : Bytes}

/--
Every chunk in a region file is at its own position.
-/
def Right (zl : ZlibFormats) (disk : Disk δ) : Prop :=
  ∀ d dir pos data c, disk.dirs d = some dir → dir.chunks (ChunkPos.x pos, ChunkPos.z pos) = some data →
    ChunkNbt.loadChunkData zl.inflate data = .ok c → c.pos = pos

variable [DecidableEq δ]

theorem right_set {dir : Option WorldDir} (h : disk.Right zl)
    (hdir : ∀ dir' ∈ dir, ∀ pos data c, dir'.chunks (ChunkPos.x pos, ChunkPos.z pos) = some data →
      ChunkNbt.loadChunkData zl.inflate data = .ok c → c.pos = pos)
    : (disk.set fs path dir).Right zl := by
  intro d dir' pos data c hd
  unfold set at hd
  dsimp only at hd
  rw [Function.update_apply] at hd
  split at hd
  . exact hdir dir' hd pos data c
  . exact h d dir' pos data c hd

theorem right_modify {f : WorldDir → WorldDir} (h : disk.Right zl)
    (hf : ∀ dir, (f dir).chunks = dir.chunks) : (disk.modify fs path f).Right zl := by
  apply right_set h
  intro dir' hdir'
  obtain ⟨dir, hdir, heq⟩ := Option.map_eq_some_iff.mp hdir'
  intro pos data c hdata
  rw [← heq, hf] at hdata
  exact h _ dir pos data c hdir hdata

theorem right_setChunk {c : Chunk} {data : Bytes} (h : disk.Right zl)
    (hdata : ∀ c', ChunkNbt.loadChunkData zl.inflate data = .ok c' → c'.pos = c.pos)
    : (disk.modify fs path (·.setChunk c.pos data)).Right zl := by
  apply right_set h
  intro dir' hdir'
  obtain ⟨dir, hdir, heq⟩ := Option.map_eq_some_iff.mp hdir'
  intro pos data' c' hdata' hload
  rw [← heq, WorldSession.chunks_setChunk] at hdata'
  split at hdata'
  . next hpos =>
    injection hdata' with hdata'
    rw [hpos]
    exact hdata c' (hdata' ▸ hload)
  . exact h _ dir pos data' c' hdir hdata' hload

theorem right_openPath (h : disk.Right zl) (prov : ProviderState) (path : Bytes)
    : (prov.openPath fs disk path).2.Right zl := by
  have hcreated : (disk.createDir fs path).Right zl := by
    unfold createDir
    split
    . apply right_set h
      intro dir hdir pos data c hdata
      injection hdir with hdir
      rw [← hdir] at hdata
      cases hdata
    . exact h
  exact right_modify hcreated (fun dir => rfl)

end Disk

namespace WorldSession

variable {δ : Type} {fs : FileSystem δ} {zl : ZlibFormats} {disk : Disk δ} {path : Bytes}
  {wd : WorldData} {s s' : WorldSession δ} {pos : ChunkPos} {c : Chunk}

/--
What stays true of the world that has been loaded with the data `wd`.
-/
structure Inv (zl : ZlibFormats) (wd : WorldData) (s : WorldSession δ) : Prop where
  inf : s.inf = wd
  gen : s.gen = generatorOf wd.genName
  wpath : s.prov.wpath = pathFromName wd.name
  width : s.mem.width = wd.width
  depth : s.mem.depth = wd.depth
  sound : s.mem.Sound
  right : s.disk.Right zl
  opened : ∀ f ∈ s.opened, f.wpath = pathFromName wd.name

/--
Only the memory changes, and the files that are opened are files of the provider.
-/
theorem Inv.of_mem (h : s.Inv zl wd) {mem : WorldMemory} {opened : List OpenedFile}
    (hsound : mem.Sound) (hwidth : mem.width = s.mem.width) (hdepth : mem.depth = s.mem.depth)
    (hopened : ∀ f ∈ opened, f ∈ s.opened ∨ f.wpath = s.prov.wpath)
    : Inv zl wd { s with mem, opened } where
  inf := h.inf
  gen := h.gen
  wpath := h.wpath
  width := hwidth.trans h.width
  depth := hdepth.trans h.depth
  sound := hsound
  right := h.right
  opened := by
    intro f hf
    cases hopened f hf with
    | inl hmem => exact h.opened f hmem
    | inr hpath => exact hpath.trans h.wpath

theorem Inv.of_saved (h : s.Inv zl wd) (hsaved : Saved s s') (hright : s'.disk.Right zl)
    : s'.Inv zl wd where
  inf := hsaved.inf.trans h.inf
  gen := hsaved.gen.trans h.gen
  wpath := hsaved.prov ▸ h.wpath
  width := hsaved.mem ▸ h.width
  depth := hsaved.mem ▸ h.depth
  sound := hsaved.mem ▸ h.sound
  right := hright
  opened := by
    intro f hf
    cases hsaved.opened f hf with
    | inl hmem => exact h.opened f hmem
    | inr hpath => exact hpath.trans h.wpath

section Fetch

/--
What `load_chunk` has of the data on the disk.
-/
def fetch (zl : ZlibFormats) (data : Option Bytes) : Except LoadError (Option Chunk) :=
  AnvilWorldProvider.catchLoadError
    (match data with
    | none => .ok none
    | some data => (ChunkNbt.loadChunkData zl.inflate data).map some)

theorem pos_of_fetch (h : s.disk.Right zl) {prov : Option Chunk}
    (hfetch : fetch zl (s.dataAt fs pos) = .ok prov) : ∀ c ∈ prov, c.pos = pos := by
  intro c hc
  cases hdata : s.dataAt fs pos with
  | none =>
    rw [hdata] at hfetch
    injection hfetch with hfetch
    rw [← hfetch] at hc
    cases hc
  | some data =>
    obtain ⟨dir, hdir, hchunk⟩ := Option.bind_eq_some_iff.mp hdata
    rw [hdata] at hfetch
    unfold fetch at hfetch
    dsimp only at hfetch
    cases hload : ChunkNbt.loadChunkData zl.inflate data with
    | ok c' =>
      rw [hload] at hfetch
      injection hfetch with hfetch
      rw [← hfetch] at hc
      injection hc with hc
      exact h _ dir pos data c hdir hchunk (hc ▸ hload)
    | error err =>
      rw [hload] at hfetch
      cases err with
      | worldLoadError what =>
        injection hfetch with hfetch
        rw [← hfetch] at hc
        cases hc
      | fault fault => cases hfetch
      | badArrayNewLength => cases hfetch

theorem inBounds_of_none {m : WorldMemory} (h : m.getChunk pos.x pos.z = none) : m.InBounds pos := by
  by_contra hout
  rw [WorldMemory.getChunk_of_not_inBounds hout] at h
  cases h

/--
The chunk that is made where nothing is found on the disk.
-/
def generated (s : WorldSession δ) (pos : ChunkPos) : Chunk :=
  (s.gen.generate (.new pos.x pos.z)).lightChunk

/--
A chunk is found in memory, or the data on the disk, of which there may be none, decides.
-/
theorem loadChunk_eq_ok {ch : Nat} (h : s.loadChunk fs zl pos = .ok (ch, s'))
    : (s.mem.getChunk pos.x pos.z = some ch ∧ s' = s)
        ∨ (s.mem.getChunk pos.x pos.z = none
            ∧ ∃ prov, fetch zl (s.dataAt fs pos) = .ok prov) := by
  unfold loadChunk at h
  split at h
  . next ch' hch =>
    injection h with h
    injection h with hch' hs
    exact .inl ⟨hch' ▸ hch, hs.symm⟩
  . next hnone =>
    obtain ⟨prov, hfetch, _⟩ := bind_eq_ok_iff.mp h
    exact .inr ⟨hnone, prov, hfetch⟩

end Fetch

variable [DecidableEq δ]

theorem openPath_of_claimed {dir : WorldDir} (h : disk.dirAt fs path = some dir)
    (hregion : dir.hasRegion = true) (prov : ProviderState)
    : prov.openPath fs disk path = ({ isOpen := true, wpath := path }, disk) := by
  unfold ProviderState.openPath
  dsimp only
  rw [Disk.createDirs_of_claimed h hregion]

/--
The world that is made of a readable level.dat.
-/
def loaded (fs : FileSystem δ) (disk : Disk δ) (path : Bytes) (wd : WorldData) : WorldSession δ :=
  new fs wd (generatorOf wd.genName) { isOpen := false, wpath := path } disk

theorem loadFrom_eq (hclaims : disk.claims fs path = true)
    (hwd : WorldData.load zl.inflate ((disk.dirAt fs path).bind (·.levelDat)) = .ok wd)
    : loadFrom fs zl disk path = .ok (some (loaded fs disk path wd)) := by
  obtain ⟨dir, hdir, hregion, _⟩ := Disk.claims_iff.mp hclaims
  unfold loadFrom
  rw [if_neg (not_not.mpr hclaims), openPath_of_claimed hdir hregion]
  dsimp only [ProviderState.loadWorldData]
  rw [hwd]
  rfl

theorem of_loadFrom (h : loadFrom fs zl disk path = .ok (some s))
    (hwd : WorldData.load zl.inflate ((disk.dirAt fs path).bind (·.levelDat)) = .ok wd)
    : (∃ dir, disk.dirAt fs path = some dir ∧ dir.hasRegion = true) ∧ s = loaded fs disk path wd := by
  by_cases hclaims : disk.claims fs path = true
  . obtain ⟨dir, hdir, hregion, _⟩ := Disk.claims_iff.mp hclaims
    rw [loadFrom_eq hclaims hwd] at h
    exact ⟨⟨dir, hdir, hregion⟩, (Option.some.inj (Except.ok.inj h)).symm⟩
  . unfold loadFrom at h
    rw [if_pos hclaims] at h
    cases h

theorem disk_loaded {dir : WorldDir} (h : disk.dirAt fs (pathFromName wd.name) = some dir)
    (hregion : dir.hasRegion = true) : (loaded fs disk path wd).disk = disk := by
  unfold loaded new
  rw [openPath_of_claimed h hregion]

theorem getChunk_loaded (hin : (loaded fs disk path wd).mem.InBounds pos)
    : (loaded fs disk path wd).mem.getChunk pos.x pos.z = none := by
  rw [WorldMemory.getChunk_of_inBounds hin]
  exact AList.lookup_empty _

theorem inv_loaded (fs : FileSystem δ) (path : Bytes) (wd : WorldData) (h : disk.Right zl)
    : (loaded fs disk path wd).Inv zl wd where
  inf := rfl
  gen := rfl
  wpath := rfl
  width := rfl
  depth := rfl
  sound := WorldMemory.sound_new wd.width wd.depth _
  right := Disk.right_openPath h { isOpen := false, wpath := path } _
  opened := by
    intro f hf
    cases hf

omit [DecidableEq δ] in
theorem loadChunk_of_none (h : s.Inv zl wd) (hpos : pos.IsInt)
    (hnone : s.mem.getChunk pos.x pos.z = none) {prov : Option Chunk}
    (hfetch : fetch zl (s.dataAt fs pos) = .ok prov)
    : ∃ ch mem, s.loadChunk fs zl pos = .ok (ch, { s with mem, opened := s.opening (regionOf pos) })
        ∧ s.mem.Loaded mem pos ch
        ∧ mem.chunkAt ch = some (prov.getD (s.generated pos)) := by
  have hin := inBounds_of_none hnone
  have hfree := hnone
  rw [WorldMemory.getChunk_of_inBounds hin] at hfree
  have hload : ∃ ch mem, s.mem.loadChunk prov s.gen pos.x pos.z = .ok (ch, mem)
      ∧ s.mem.Loaded mem pos ch ∧ mem.chunkAt ch = some (prov.getD (s.generated pos)) := by
    cases prov with
    | none =>
      rw [Option.getD_none, generated]
      exact WorldMemory.loadChunk_of_gen h.sound hpos hin hfree s.gen
    | some c =>
      rw [Option.getD_some]
      exact WorldMemory.loadChunk_of_prov h.sound hpos hin hfree
        (pos_of_fetch h.right hfetch c rfl) s.gen
  obtain ⟨ch, mem, hload, hloaded, hchunk⟩ := hload
  refine ⟨ch, mem, ?_, hloaded, hchunk⟩
  unfold loadChunk
  rw [hnone]
  refine bind_eq_ok_iff.mpr ⟨prov, hfetch, ?_⟩
  rw [hload]

end WorldSession

end HCraft
