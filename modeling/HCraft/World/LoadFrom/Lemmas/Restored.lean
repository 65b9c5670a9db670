import HCraft.World.LoadFrom.Lemmas.Load

/-!
This module shows when a world is saved where it was loaded from.
-/

namespace HCraft

namespace Chunk

/--
What comes back of a chunk that is saved and loaded.
-/
def reloaded (c : Chunk) : Chunk :=
  ChunkNbt.addSections c (List.finRange 16) (ChunkNbt.loadHead c)

/--
The first column reaches into every section that there is.
-/
def SectionsReached (c : Chunk) : Prop :=
  ∀ i, (c.subs i).isSome → (i.val * 16 : Nat) < c.getHeight 0 0

/--
The heights are values of an `int`.
-/
def HeightsFit (c : Chunk) : Prop :=
  ∀ x z, -2 ^ 31 ≤ c.getHeight x z ∧ c.getHeight x z < 2 ^ 31

variable {c : Chunk}

theorem pos_reloaded (hpos : c.pos.IsInt) : c.reloaded.pos = c.pos := by
  unfold reloaded
  rw [ChunkNbt.pos_addSections, ChunkNbt.pos_loadHead hpos.left hpos.right]

theorem ext_iff {c' : Chunk} : c' = c
    ↔
    c'.pos = c.pos ∧ c'.subs = c.subs ∧ c'.biomes = c.biomes ∧ c'.hmap = c.hmap := by
  cases c
  cases c'
  exact Chunk.mk.injEq .. |>.to_iff

/--
A chunk comes back as it was, but for the height that the loader may raise.
-/
theorem reloaded_eq_iff (hpos : c.pos.IsInt) (hfit : c.HeightsFit)
    : c.reloaded = c ↔ c.SectionsReached := by
  rw [ext_iff]
  constructor
  . rintro ⟨_, _, _, hhmap⟩
    exact (ChunkNbt.hmap_loaded_iff hfit).mp hhmap
  . intro hreached
    refine ⟨pos_reloaded hpos, ChunkNbt.subs_loaded, ?_, (ChunkNbt.hmap_loaded_iff hfit).mpr hreached⟩
    unfold reloaded
    rw [ChunkNbt.biomes_addSections, ChunkNbt.biomes_loadHead]

end Chunk

namespace WorldSession

open Transition

variable {δ : Type} [DecidableEq δ] {fs : FileSystem δ} {zl : ZlibFormats} {disk : Disk δ}
  {path : Bytes} {wd : WorldData} {s s₀ s₁ s' : WorldSession δ} {pos : ChunkPos} {c : Chunk}

section Steps

theorem chunkAt_of_get_ok {m : WorldMemory} {ch : Nat} {obj : ChunkObject} (h : m.get ch = .ok obj)
    : m.chunkAt ch = some obj.chunk := by
  unfold WorldMemory.get at h
  split at h
  . cases h
  . next hobj =>
    injection h with h
    exact h ▸ WorldMemory.chunkAt_of_get hobj

theorem right_saveChunks {chs : List Nat} (h : s.disk.Right zl)
    (hchs : ∀ ch ∈ chs, ∀ c, s.mem.chunkAt ch = some c → c.pos.IsInt)
    (hsave : saveChunks fs zl chs s = .ok s') : s'.disk.Right zl := by
  induction chs generalizing s with
  | nil =>
    injection hsave with hsave
    exact hsave ▸ h
  | cons ch chs ih =>
    unfold saveChunks at hsave
    obtain ⟨obj, hobj, hsave⟩ := bind_eq_ok_iff.mp hsave
    obtain ⟨s₁, hs₁, hsave⟩ := bind_eq_ok_iff.mp hsave
    obtain ⟨data, hmake, heq⟩ := saveChunk_eq_ok hs₁
    obtain ⟨data', hmake', hload⟩ := ChunkNbt.loadChunkData_makeChunkData zl.inflate_zlib obj.chunk
    have hpos : obj.chunk.pos.IsInt := by
      apply hchs ch List.mem_cons_self
      exact chunkAt_of_get_ok hobj
    have hright : s₁.disk.Right zl := by
      rw [heq]
      apply Disk.right_setChunk h
      intro c' hc'
      rw [hmake] at hmake'
      rw [Except.ok.inj hmake', hload] at hc'
      rw [← Except.ok.inj hc']
      exact Chunk.pos_reloaded hpos
    have hmem : s₁.mem = s.mem := by rw [heq]
    apply ih hright _ hsave
    intro ch' hch' c hc
    exact hchs ch' (List.mem_cons_of_mem _ hch') c (hmem ▸ hc)

theorem right_saveAll (h : s.Inv zl wd) (hsave : s.saveAll fs zl = .ok s') : s'.disk.Right zl := by
  unfold saveAll at hsave
  obtain ⟨s₁, hs₁, hsave⟩ := bind_eq_ok_iff.mp hsave
  obtain ⟨data, _, heq⟩ := saveWorldData_eq_ok hsave
  have hright : s₁.disk.Right zl := by
    apply right_saveChunks h.right _ hs₁
    intro ch hch c hc
    obtain ⟨k, hk⟩ := WorldMemory.mem_entries_iff.mp hch
    exact h.sound.isInt hk hc
  rw [heq]
  exact Disk.right_modify hright (fun dir => rfl)

theorem inv_saveAll (h : s.Inv zl wd) (hsave : s.saveAll fs zl = .ok s') : s'.Inv zl wd :=
  h.of_saved (saveAll_eq_ok hsave).left (right_saveAll h hsave)

theorem ok_of_toOption {ε α : Type} {x : Except ε α} {a : α} (h : x.toOption = some a) : x = .ok a := by
  cases x with
  | error e => cases h
  | ok a' => exact congrArg Except.ok (Option.some.inj h)

/--
What a step of the server does. A chunk that is not in memory is loaded there, with its region file
opened if it is asked for.
-/
theorem step_cases {a : Action} (h : step fs zl s a = some s')
    : (s' = s)
        ∨ (∃ ch pos, ChunkPos.IsInt pos ∧ s.mem.getChunk pos.x pos.z = none
            ∧ s.loadChunk fs zl pos = .ok (ch, s'))
        ∨ (∃ ch f, s.mem.editChunk ch (Edit.apply f) = .ok s'.mem ∧ s' = { s with mem := s'.mem })
        ∨ s.saveAll fs zl = .ok s' := by
  cases a with
  | loadChunk pos hpos =>
    obtain ⟨⟨ch, s₁⟩, hload, heq⟩ := Option.map_eq_some_iff.mp h
    have hload := ok_of_toOption hload
    dsimp only at heq
    rw [heq] at hload
    cases loadChunk_eq_ok hload with
    | inl hsame => exact .inl hsame.right
    | inr hnone => exact .inr (.inl ⟨ch, pos, hpos, hnone.left, hload⟩)
  | edit ch f =>
    obtain ⟨mem, hedit, heq⟩ := Option.map_eq_some_iff.mp h
    rw [← heq]
    exact .inr (.inr (.inl ⟨ch, f, ok_of_toOption hedit, rfl⟩))
  | saveAll => exact .inr (.inr (.inr (ok_of_toOption h)))

omit [DecidableEq δ] in
theorem inv_loadChunk (h : s.Inv zl wd) (hpos : pos.IsInt)
    (hnone : s.mem.getChunk pos.x pos.z = none) {ch : Nat}
    (hload : s.loadChunk fs zl pos = .ok (ch, s')) : s'.Inv zl wd := by
  cases loadChunk_eq_ok hload with
  | inl hsame => exact hsame.right ▸ h
  | inr hfetched =>
    obtain ⟨_, prov, hfetch⟩ := hfetched
    obtain ⟨ch', mem, hload', hloaded, _⟩ := loadChunk_of_none h hpos hnone hfetch
    rw [hload'] at hload
    injection hload with hload
    injection hload with _ hs'
    rw [← hs']
    apply h.of_mem hloaded.sound hloaded.width hloaded.depth
    exact (saved_opening s s.disk _).opened

omit [DecidableEq δ] in
theorem inv_edit (h : s.Inv zl wd) {ch : Nat} (f : Edit) {mem : WorldMemory}
    (hedit : s.mem.editChunk ch f.apply = .ok mem) : Inv zl wd { s with mem } := by
  unfold WorldMemory.editChunk at hedit
  obtain ⟨obj, _, hedit⟩ := bind_eq_ok_iff.mp hedit
  injection hedit with hedit
  have hedited : s.mem.Edited mem := hedit ▸ WorldMemory.edited_edit (fun c _ => f.pos_apply c)
  exact h.of_mem (hedited.sound h.sound) hedited.width hedited.depth (fun _ => .inl)

theorem inv_step (h : s.Inv zl wd) {a : Action} (hstep : step fs zl s a = some s') : s'.Inv zl wd := by
  rcases step_cases hstep with hsame | ⟨ch, pos, hpos, hnone, hload⟩ | ⟨ch, f, hedit, heq⟩ | hsave
  . exact hsame ▸ h
  . exact inv_loadChunk h hpos hnone hload
  . rw [heq]
    exact inv_edit h f hedit
  . exact inv_saveAll h hsave

theorem inv_exec (h : s.Inv zl wd) {as : List Action} (hexec : exec (step fs zl) s as = some s')
    : s'.Inv zl wd :=
  exec_preserves (fun _ _ _ hI hstep => inv_step hI hstep) h hexec

theorem ready_step (h : s.Inv zl wd) (hwd : wd.Storable) (hready : s.Ready fs) {a : Action}
    (hstep : step fs zl s a = some s') : s'.Ready fs := by
  rcases step_cases hstep with hsame | ⟨ch, pos, hpos, hnone, hload⟩ | ⟨ch, f, hedit, heq⟩ | hsave
  . exact hsame ▸ hready
  . cases loadChunk_eq_ok hload with
    | inl hsame => exact hsame.right ▸ hready
    | inr hfetched =>
      obtain ⟨_, prov, hfetch⟩ := hfetched
      obtain ⟨ch', mem, hload', _⟩ := loadChunk_of_none h hpos hnone hfetch
      rw [hload'] at hload
      injection hload with hload
      injection hload with _ hs'
      exact hs' ▸ hready
  . rw [heq]
    exact hready
  . obtain ⟨s'', _, hsave', hready', _⟩ :=
      saveAll_spec zl hready h.sound.toMapped (h.inf ▸ hwd)
    rw [hsave'] at hsave
    exact Except.ok.inj hsave ▸ hready'

theorem ready_exec (h : s.Inv zl wd) (hwd : wd.Storable) (hready : s.Ready fs) {as : List Action}
    (hexec : exec (step fs zl) s as = some s') : s'.Ready fs :=
  (exec_preserves (I := fun s => s.Inv zl wd ∧ s.Ready fs)
    (fun _ _ _ hI hstep => ⟨inv_step hI.left hstep, ready_step hI.left hwd hI.right hstep⟩)
    ⟨h, hready⟩ hexec).right

end Steps

/--
`load_chunk` returns the chunk `c`.
-/
def Loads (fs : FileSystem δ) (zl : ZlibFormats) (s : WorldSession δ) (pos : ChunkPos) (c : Chunk)
    : Prop :=
  ∃ ch s', s.loadChunk fs zl pos = .ok (ch, s') ∧ s'.mem.chunkAt ch = some c

/--
The chunk at a position within the bounds of the world, if it is in memory.
-/
def InMemory (s : WorldSession δ) (pos : ChunkPos) (c : Chunk) : Prop :=
  pos.IsInt ∧ s.mem.InBounds pos ∧ (s.mem.getChunk pos.x pos.z).bind s.mem.chunkAt = some c

/--
All files that were opened are those of the directory at `path`, and so are those that `save_all` opens
now. The world that `load_from` then makes of this directory has the same data and the same chunks.
-/
def SavedWhereLoaded (fs : FileSystem δ) (zl : ZlibFormats) (path : Bytes) (s : WorldSession δ)
    : Prop :=
  ∃ s₁, s.saveAll fs zl = .ok s₁
    ∧ (∀ f ∈ s₁.opened, fs.resolve f.wpath = fs.resolve path)
    ∧ ∃ s₂, loadFrom fs zl s₁.disk path = .ok (some s₂)
        ∧ s₂.inf = s.inf
        ∧ ∀ pos c, pos.IsInt → s.mem.InBounds pos → s.Loads fs zl pos c → s₂.Loads fs zl pos c

section Loads

variable {ch : Nat}

omit [DecidableEq δ]

theorem loads_iff_of_some (hch : s.mem.getChunk pos.x pos.z = some ch)
    : s.Loads fs zl pos c ↔ s.mem.chunkAt ch = some c := by
  have hload : s.loadChunk fs zl pos = .ok (ch, s) := by
    unfold loadChunk
    rw [hch]
  constructor
  . rintro ⟨ch', s', hload', hc⟩
    rw [hload] at hload'
    injection hload' with hload'
    injection hload' with hch' hs'
    rw [hch', hs']
    exact hc
  . intro hc
    exact ⟨ch, s, hload, hc⟩

theorem loads_iff_of_none (h : s.Inv zl wd) (hpos : pos.IsInt)
    (hnone : s.mem.getChunk pos.x pos.z = none)
    : s.Loads fs zl pos c
        ↔
      ∃ prov, fetch zl (s.dataAt fs pos) = .ok prov ∧ c = prov.getD (s.generated pos) := by
  constructor
  . rintro ⟨ch, s', hload, hc⟩
    cases loadChunk_eq_ok hload with
    | inl hsame =>
      rw [hnone] at hsame
      cases hsame.left
    | inr hfetched =>
      obtain ⟨_, prov, hfetch⟩ := hfetched
      obtain ⟨ch', mem, hload', _, hchunk⟩ := loadChunk_of_none h hpos hnone hfetch
      rw [hload'] at hload
      injection hload with hload
      injection hload with hch' hs'
      rw [← hs', ← hch', hchunk] at hc
      exact ⟨prov, hfetch, (Option.some.inj hc).symm⟩
  . rintro ⟨prov, hfetch, heq⟩
    obtain ⟨ch, mem, hload, _, hchunk⟩ := loadChunk_of_none h hpos hnone hfetch
    exact ⟨ch, _, hload, heq ▸ hchunk⟩

theorem fetch_makeChunkData (zl : ZlibFormats) (c : Chunk)
    : fetch zl (ChunkNbt.makeChunkData zl.zlib c).toOption = .ok (some c.reloaded) := by
  obtain ⟨data, hmake, hload⟩ := ChunkNbt.loadChunkData_makeChunkData zl.inflate_zlib c
  rw [hmake]
  unfold fetch
  dsimp only [Except.toOption]
  rw [hload]
  rfl

theorem getChunk_of_inMemory (h : s.InMemory pos c)
    : ∃ ch, s.mem.getChunk pos.x pos.z = some ch ∧ s.mem.chunkAt ch = some c :=
  Option.bind_eq_some_iff.mp h.right.right

theorem isInt_of_inMemory (hinv : s.Inv zl wd) (h : s.InMemory pos c) : c.pos.IsInt := by
  obtain ⟨ch, hch, hc⟩ := getChunk_of_inMemory h
  rw [WorldMemory.getChunk_of_inBounds h.right.left] at hch
  exact hinv.sound.isInt hch hc

theorem loads_iff_of_inMemory (h : s₁.Inv zl wd) (hmem : s.InMemory pos c)
    (hnone : s₁.mem.getChunk pos.x pos.z = none) (hdata : s₁.dataAt fs pos = s.savedAt fs zl pos)
    {c' : Chunk} : s₁.Loads fs zl pos c' ↔ c' = c.reloaded := by
  have hfetch : fetch zl (s₁.dataAt fs pos) = .ok (some c.reloaded) := by
    rw [hdata, savedAt, hmem.right.right]
    exact fetch_makeChunkData zl c
  rw [loads_iff_of_none h hmem.left hnone, hfetch]
  constructor
  . rintro ⟨prov, hprov, hc'⟩
    rw [← Except.ok.inj hprov, Option.getD_some] at hc'
    exact hc'
  . intro hc'
    refine ⟨some c.reloaded, rfl, ?_⟩
    rw [Option.getD_some]
    exact hc'

theorem loads_iff_of_not_inMemory (h : s.Inv zl wd) (h₁ : s₁.Inv zl wd) (hpos : pos.IsInt)
    (hmem : s.mem.getChunk pos.x pos.z = none) (hnone : s₁.mem.getChunk pos.x pos.z = none)
    (hdata : s₁.dataAt fs pos = s.savedAt fs zl pos)
    : s₁.Loads fs zl pos c ↔ s.Loads fs zl pos c := by
  have hsame : s₁.dataAt fs pos = s.dataAt fs pos := by
    rw [hdata, savedAt, hmem]
    rfl
  have hgen : s₁.generated pos = s.generated pos := by
    unfold generated
    rw [h.gen, h₁.gen]
  rw [loads_iff_of_none h₁ hpos hnone, loads_iff_of_none h hpos hmem, hsame, hgen]

end Loads

section Restored

/--
What is loaded is what was saved, with the chunks in memory reloaded.
-/
theorem restored_of_same (h : s.Inv zl wd) (hwd : wd.Storable)
    (hresolve : fs.resolve (pathFromName wd.name) = fs.resolve path) (hready : s.Ready fs)
    : ∃ s₁ s₂, s.saveAll fs zl = .ok s₁
        ∧ loadFrom fs zl s₁.disk path = .ok (some s₂)
        ∧ s₂.Inv zl wd
        ∧ (∀ pos, s₂.mem.InBounds pos → s₂.mem.getChunk pos.x pos.z = none)
        ∧ ∀ pos, pos.IsInt → s.mem.InBounds pos →
            s₂.dataAt fs pos = s.savedAt fs zl pos := by
  obtain ⟨s₁, data, hs₁, hready₁, hlevel, hload, hdata⟩ :=
    saveAll_spec zl hready h.sound.toMapped (h.inf ▸ hwd)
  have hinv₁ := inv_saveAll h hs₁
  obtain ⟨dir, hdir, hregion⟩ := hready₁
  have hwpath : fs.resolve s₁.prov.wpath = fs.resolve path := hinv₁.wpath ▸ hresolve
  have hdir' : s₁.disk.dirAt fs path = some dir := Disk.dirAt_congr hwpath ▸ hdir
  rw [Disk.dirAt_congr hwpath] at hlevel
  have hclaims : s₁.disk.claims fs path = true := by
    rw [hdir'] at hlevel
    exact Disk.claims_iff.mpr ⟨dir, hdir', hregion, Option.isSome_of_eq_some hlevel⟩
  have hwd₁ : WorldData.load zl.inflate ((s₁.disk.dirAt fs path).bind (·.levelDat)) = .ok wd := by
    rw [hlevel, hload, h.inf]
  have hloaded := loadFrom_eq hclaims hwd₁
  have hnamed : s₁.disk.dirAt fs (pathFromName wd.name) = some dir := hinv₁.wpath ▸ hdir
  have hdisk : (loaded fs s₁.disk path wd).disk = s₁.disk := disk_loaded hnamed hregion
  refine ⟨s₁, _, hs₁, hloaded, inv_loaded fs path wd hinv₁.right, fun _ => getChunk_loaded, ?_⟩
  . intro pos hpos hin
    rw [← hdata pos hpos hin]
    unfold dataAt
    rw [hdisk, hinv₁.wpath]
    rfl

/--
A world is saved where it was loaded from unless its name leads to another directory, or else a chunk in
memory comes back with another height.
-/
theorem savedWhereLoaded_iff (hdisk : disk.Right zl)
    (hwd : WorldData.load zl.inflate ((disk.dirAt fs path).bind (·.levelDat)) = .ok wd)
    (hload : loadFrom fs zl disk path = .ok (some s₀)) {as : List Action}
    (hexec : exec (step fs zl) s₀ as = some s) (hfit : ∀ pos c, s.InMemory pos c → c.HeightsFit)
    : s.SavedWhereLoaded fs zl path
        ↔
      fs.resolve (pathFromName wd.name) = fs.resolve path
        ∧ ∀ pos c, s.InMemory pos c → c.SectionsReached := by
  have hstorable : wd.Storable := WorldData.returns_load _ _ _ hwd
  obtain ⟨⟨dir, hdir, hregion⟩, hs₀⟩ := of_loadFrom hload hwd
  have hinv₀ : s₀.Inv zl wd := hs₀ ▸ inv_loaded fs path wd hdisk
  have hinv := inv_exec hinv₀ hexec
  have hready (hresolve : fs.resolve (pathFromName wd.name) = fs.resolve path) : s.Ready fs := by
    have hnamed : disk.dirAt fs (pathFromName wd.name) = some dir := by
      rw [Disk.dirAt_congr hresolve, hdir]
    apply ready_exec hinv₀ hstorable _ hexec
    refine ⟨dir, ?_, hregion⟩
    rw [hinv₀.wpath, hs₀, disk_loaded hnamed hregion]
    exact hnamed
  constructor
  . rintro ⟨s₁, hs₁, hopened, s₂, hs₂, _, hchunks⟩
    have hresolve : fs.resolve (pathFromName wd.name) = fs.resolve path :=
      hinv.wpath ▸ hopened _ (saveAll_eq_ok hs₁).right
    refine ⟨hresolve, ?_⟩
    intro pos c hmem
    obtain ⟨s₁', s₂', hs₁', hs₂', hinv₂, hnone, hdata⟩ :=
      restored_of_same hinv hstorable hresolve (hready hresolve)
    rw [← Except.ok.inj (hs₁.symm.trans hs₁')] at hs₂'
    have hsame : s₂ = s₂' := Option.some.inj (Except.ok.inj (hs₂.symm.trans hs₂'))
    have hin₂ : s₂'.mem.InBounds pos :=
      (WorldMemory.inBounds_congr (hinv₂.width.trans hinv.width.symm)
        (hinv₂.depth.trans hinv.depth.symm)).mpr hmem.right.left
    obtain ⟨ch, hch, hc⟩ := getChunk_of_inMemory hmem
    have hloads := hchunks pos c hmem.left hmem.right.left ((loads_iff_of_some hch).mpr hc)
    rw [hsame, loads_iff_of_inMemory hinv₂ hmem (hnone pos hin₂)
      (hdata pos hmem.left hmem.right.left)] at hloads
    exact (Chunk.reloaded_eq_iff (isInt_of_inMemory hinv hmem) (hfit pos c hmem)).mp hloads.symm
  . rintro ⟨hresolve, hreached⟩
    obtain ⟨s₁, s₂, hs₁, hs₂, hinv₂, hnone, hdata⟩ :=
      restored_of_same hinv hstorable hresolve (hready hresolve)
    refine ⟨s₁, hs₁, ?_, s₂, hs₂, hinv₂.inf.trans hinv.inf.symm, ?_⟩
    . intro f hf
      rw [(inv_saveAll hinv hs₁).opened f hf, hresolve]
    . intro pos c hpos hin hloads
      have hin₂ : s₂.mem.InBounds pos :=
        (WorldMemory.inBounds_congr (hinv₂.width.trans hinv.width.symm)
          (hinv₂.depth.trans hinv.depth.symm)).mpr hin
      cases hch : s.mem.getChunk pos.x pos.z with
      | none =>
        exact (loads_iff_of_not_inMemory hinv hinv₂ hpos hch (hnone pos hin₂)
          (hdata pos hpos hin)).mpr hloads
      | some ch =>
        have hc := (loads_iff_of_some hch).mp hloads
        have hmem : s.InMemory pos c := by
          refine ⟨hpos, hin, ?_⟩
          rw [hch]
          exact hc
        apply (loads_iff_of_inMemory hinv₂ hmem (hnone pos hin₂) (hdata pos hpos hin)).mpr
        exact ((Chunk.reloaded_eq_iff (isInt_of_inMemory hinv hmem) (hfit pos c hmem)).mpr
          (hreached pos c hmem)).symm

end Restored

section Main

/--
Every path is a directory of its own.
-/
def plainFiles : FileSystem Bytes :=
  { resolve := fun path => path, canCreate := fun _ => true }

/--
A world of one chunk.
-/
def mainWorld : WorldData where
  name := ascii "Main"
  seed := 7
  genName := ascii "flatgrass"
  spawnPos := .ofBlockPos ⟨0, 66, 0⟩
  width := 16
  depth := 16

theorem storable_mainWorld : mainWorld.Storable where
  name := by decide
  genName := by decide
  spawnPos := ⟨0, 66, 0, rfl, by unfold WorldData.Fits; decide, by unfold WorldData.Fits; decide,
    by unfold WorldData.Fits; decide⟩
  width := by unfold WorldData.Fits; decide
  depth := by unfold WorldData.Fits; decide

/--
The chunk of the main world, with two sub-chunks.
-/
def mainChunk : Chunk :=
  ChunkNbt.sampleOps.foldl Chunk.call (.new 0 0)

/--
What zlib makes of its NBT.
-/
def compressedMain : Bytes :=
  [120, 156, 237, 219, 65, 75, 2, 65, 24, 6, 224, 207, 220, 90, 221, 160, 250, 15, 93, 251, 19, 69,
    80, 7, 131, 192, 83, 71, 177, 165, 68, 107, 5, 37, 170, 95, 223, 40, 253, 0, 33, 117, 140, 125,
    158, 211, 204, 101, 121, 217, 195, 240, 49, 204, 91, 69, 84, 113, 60, 168, 63, 234, 89, 55,
    138, 207, 199, 102, 17, 73, 90, 126, 255, 46, 203, 56, 185, 153, 52, 111, 117, 218, 116, 162,
    211, 114, 167, 209, 191, 175, 39, 47, 175, 203, 135, 209, 124, 245, 63, 146, 187, 248, 187, 98,
    11, 223, 0, 246, 172, 31, 189, 97, 61, 94, 78, 154, 247, 69, 149, 182, 71, 233, 132, 124, 90,
    159, 152, 179, 102, 60, 77, 39, 230, 69, 238, 128, 112, 88, 46, 115, 7, 0, 0, 0, 216, 141, 50,
    186, 215, 207, 207, 17, 189, 220, 65, 0, 128, 12, 202, 40, 110, 71, 203, 145, 81, 0, 0, 218,
    169, 140, 106, 253, 66, 96, 176, 122, 74, 100, 32, 0, 128, 118, 42, 163, 55, 156, 126, 25, 7,
    0, 160, 205, 86, 61, 130, 66, 143, 128, 195, 118, 149, 59, 0, 180, 67, 39, 119, 0, 0, 0, 246,
    74, 143, 96, 251, 220, 170, 0, 240, 127, 232, 17, 236, 192, 60, 119, 0, 0, 216, 152, 30, 193,
    238, 156, 229, 14, 0, 0, 155, 210, 35, 128, 131, 113, 158, 59, 0, 208, 102, 63, 6, 92, 42, 144]

def levelNbt : Bytes :=
  NbtTag.header 10 (ascii "") ++ (NbtTag.compound [(ascii "Data", mainWorld.makeData)]).payload

/--
What zlib makes of it in the gzip format.
-/
def compressedLevel : Bytes :=
  [31, 139, 8, 0, 0, 0, 0, 0, 0, 3, 61, 141, 221, 10, 130, 64, 16, 133, 143, 104, 254, 108, 4, 62,
    83, 73, 23, 145, 93, 36, 244, 119, 55, 224, 168, 11, 186, 202, 238, 102, 208, 187, 245, 110,
    173, 137, 13, 12, 124, 231, 124, 48, 35, 0, 129, 32, 35, 75, 62, 162, 145, 181, 145, 189, 2,
    14, 31, 15, 107, 169, 164, 149, 212, 202, 55, 151, 94, 140, 228, 200, 35, 183, 39, 234, 24, 65,
    78, 82, 197, 216, 212, 172, 88, 147, 237, 245, 175, 77, 170, 150, 108, 173, 201, 24, 31, 233,
    95, 93, 150, 147, 64, 0, 113, 38, 85, 246, 93, 193, 92, 98, 158, 200, 253, 201, 105, 216, 51,
    217, 167, 102, 3, 31, 97, 49, 208, 75, 221, 38, 185, 132, 187, 227, 237, 18, 30, 147, 17, 8,
    155, 157, 166, 202, 250, 88, 93, 101, 105, 27, 215, 165, 142, 51, 30, 102, 118, 251, 5, 221,
    123, 96, 108, 218, 0, 0, 0]

def mainSamples : List CodecSample :=
  [⟨levelNbt, compressedLevel⟩, ⟨ChunkNbt.nbtOf mainChunk, compressedMain⟩]

theorem sound_mainSamples : CodecSample.Sound mainSamples :=
  CodecSample.Sound.of_wires (by decide) (by decide)

def mainFormats : ZlibFormats where
  gzip := CodecSample.encode [⟨levelNbt, compressedLevel⟩]
  zlib := CodecSample.encode [⟨ChunkNbt.nbtOf mainChunk, compressedMain⟩]
  inflate := CodecSample.decode mainSamples
  inflate_gzip := CodecSample.decode_encode sound_mainSamples (by simp [mainSamples])
  inflate_zlib := CodecSample.decode_encode sound_mainSamples (by simp [mainSamples])

/--
The only directory is that of a world with a level.dat.
-/
def diskOf (path levelDat : Bytes) (chunks : Int × Int → Option Bytes) : Disk Bytes where
  dirs := fun d =>
    if d = path then some { levelDat := some levelDat, hasRegion := true, chunks } else none

theorem right_diskOf (path levelDat : Bytes) {chunks : Int × Int → Option Bytes}
    (h : ∀ pos data c, chunks (ChunkPos.x pos, ChunkPos.z pos) = some data →
      ChunkNbt.loadChunkData mainFormats.inflate data = .ok c → c.pos = pos)
    : (diskOf path levelDat chunks).Right mainFormats := by
  intro d dir pos data c hd hdata
  unfold diskOf at hd
  dsimp only at hd
  split at hd
  . injection hd with hd
    rw [← hd] at hdata
    exact h pos data c hdata
  . cases hd

theorem dirAt_diskOf (path levelDat : Bytes) (chunks : Int × Int → Option Bytes)
    : (diskOf path levelDat chunks).dirAt plainFiles path
        = some { levelDat := some levelDat, hasRegion := true, chunks } :=
  if_pos rfl

theorem loadFrom_diskOf (path : Bytes) (chunks : Int × Int → Option Bytes)
    : ∃ levelDat, WorldData.load mainFormats.inflate
            (((diskOf path levelDat chunks).dirAt plainFiles path).bind (·.levelDat)) = .ok mainWorld
        ∧ loadFrom plainFiles mainFormats (diskOf path levelDat chunks) path
            = .ok (some (loaded plainFiles (diskOf path levelDat chunks) path mainWorld)) := by
  obtain ⟨levelDat, _, hload⟩ := WorldData.load_save mainFormats.inflate_gzip storable_mainWorld
  have hdir := dirAt_diskOf path levelDat chunks
  have hwd : WorldData.load mainFormats.inflate
      (((diskOf path levelDat chunks).dirAt plainFiles path).bind (·.levelDat)) = .ok mainWorld := by
    rw [hdir]
    exact hload
  exact ⟨levelDat, hwd, loadFrom_eq (Disk.claims_iff.mpr ⟨_, hdir, rfl, rfl⟩) hwd⟩

omit [DecidableEq δ] in
theorem eq_zero_of_inMemory (h : s.Inv mainFormats mainWorld) (hmem : s.InMemory pos c)
    : pos = ⟨0, 0⟩ := by
  have hin := hmem.right.left
  unfold WorldMemory.InBounds World.OutOfBounds WorldMemory.world at hin
  dsimp only at hin
  rw [h.width, h.depth] at hin
  have hsize : mainWorld.width >>> (4 : Nat) = 1 ∧ mainWorld.depth >>> (4 : Nat) = 1 := by decide
  rw [hsize.left, hsize.right] at hin
  have hpos : mainWorld.width > -1 ∧ mainWorld.depth > -1 := by decide
  have hx : pos.x = 0 := by omega
  have hz : pos.z = 0 := by omega
  cases pos
  dsimp only at hx hz
  rw [hx, hz]

omit [DecidableEq δ] in
theorem inBounds_zero (h : s.Inv mainFormats mainWorld) : s.mem.InBounds ⟨0, 0⟩ := by
  unfold WorldMemory.InBounds World.OutOfBounds WorldMemory.world
  dsimp only
  rw [h.width, h.depth]
  decide

theorem isInt_zero : (⟨0, 0⟩ : ChunkPos).IsInt := by
  decide

theorem heightsFit_new : (Chunk.new 0 0).HeightsFit :=
  ChunkNbt.heights_fit (Chunk.heightmapOk_new 0 0)

theorem heightsFit_main : mainChunk.HeightsFit :=
  ChunkNbt.heights_fit (Chunk.HeightmapOk.calls (Chunk.heightmapOk_new 0 0)
    (by simp [ChunkNbt.sampleOps, Chunk.Op.Valid]))

theorem sectionsReached_main : mainChunk.SectionsReached := by
  unfold Chunk.SectionsReached
  decide +kernel

theorem pos_main : mainChunk.pos = ⟨0, 0⟩ := by
  decide +kernel

theorem reloaded_main : mainChunk.reloaded = mainChunk :=
  (Chunk.reloaded_eq_iff (pos_main ▸ isInt_zero) heightsFit_main).mpr sectionsReached_main

/--
The only chunk there is.
-/
def mainChunks (data : Bytes) (p : Int × Int) : Option Bytes :=
  if p = (0, 0) then some data else none

theorem right_mainChunks (path levelDat : Bytes) {data : Bytes}
    (hload : ChunkNbt.loadChunkData mainFormats.inflate data = .ok mainChunk)
    : (diskOf path levelDat (mainChunks data)).Right mainFormats := by
  apply right_diskOf
  intro pos data' c hdata' hc
  unfold mainChunks at hdata'
  by_cases hpos : (pos.x, pos.z) = (0, 0)
  . rw [if_pos hpos] at hdata'
    rw [← Option.some.inj hdata', hload] at hc
    rw [← Except.ok.inj hc, pos_main]
    have hx : pos.x = 0 := congrArg Prod.fst hpos
    have hz : pos.z = 0 := congrArg Prod.snd hpos
    cases pos
    dsimp only at hx hz
    rw [hx, hz]
  . rw [if_neg hpos] at hdata'
    cases hdata'

/--
The main world, whose only chunk is loaded.
-/
theorem savedWhereLoaded_iff_main
    : ∃ (disk : Disk Bytes) (s₀ s : WorldSession Bytes),
        loadFrom plainFiles mainFormats disk (ascii "worlds/Main") = .ok (some s₀)
          ∧ exec (step plainFiles mainFormats) s₀ [.loadChunk ⟨0, 0⟩ isInt_zero] = some s
          ∧ s.InMemory ⟨0, 0⟩ mainChunk
          ∧ (s.SavedWhereLoaded plainFiles mainFormats (ascii "worlds/Main")
              ↔
            plainFiles.resolve (pathFromName mainWorld.name) = plainFiles.resolve (ascii "worlds/Main")
              ∧ ∀ pos c, s.InMemory pos c → c.SectionsReached) := by
  obtain ⟨data, _, hload⟩ :=
    ChunkNbt.loadChunkData_makeChunkData mainFormats.inflate_zlib mainChunk
  have hload : ChunkNbt.loadChunkData mainFormats.inflate data = .ok mainChunk :=
    hload.trans (congrArg Except.ok reloaded_main)
  obtain ⟨levelDat, hwd, hs₀⟩ := loadFrom_diskOf (ascii "worlds/Main") (mainChunks data)
  have hright := right_mainChunks (ascii "worlds/Main") levelDat hload
  have hdir := dirAt_diskOf (ascii "worlds/Main") levelDat (mainChunks data)
  generalize diskOf (ascii "worlds/Main") levelDat (mainChunks data) = disk at hwd hs₀ hright hdir
  have hnamed : pathFromName mainWorld.name = ascii "worlds/Main" := by decide
  have hinv := inv_loaded plainFiles (ascii "worlds/Main") mainWorld hright
  have hnone := getChunk_loaded (inBounds_zero hinv)
  have hdisk : (loaded plainFiles disk (ascii "worlds/Main") mainWorld).disk = disk :=
    disk_loaded (hnamed ▸ hdir) rfl
  generalize loaded plainFiles disk (ascii "worlds/Main") mainWorld = s₀ at hs₀ hinv hnone hdisk
  have hdata : s₀.dataAt plainFiles ⟨0, 0⟩ = some data := by
    unfold dataAt
    rw [hdisk, hinv.wpath, hnamed, hdir]
    rfl
  have hfetch : fetch mainFormats (s₀.dataAt plainFiles ⟨0, 0⟩) = .ok (some mainChunk) := by
    unfold fetch
    rw [hdata]
    dsimp only
    rw [hload]
    rfl
  obtain ⟨ch, mem, hloadChunk, hloaded, hchunk⟩ := loadChunk_of_none hinv isInt_zero hnone hfetch
  have hinv' := inv_loadChunk hinv isInt_zero hnone hloadChunk
  have hexec : exec (step plainFiles mainFormats) s₀ [.loadChunk ⟨0, 0⟩ isInt_zero]
      = some { s₀ with mem, opened := s₀.opening (regionOf ⟨0, 0⟩) } := by
    refine exec_cons.mpr ⟨_, ?_, exec_nil _⟩
    change (s₀.loadChunk plainFiles mainFormats ⟨0, 0⟩).toOption.map (·.2) = _
    rw [hloadChunk]
    rfl
  have hmem : mem.getChunk 0 0 = some ch := hloaded.getChunk
  have hbind : (mem.getChunk 0 0).bind mem.chunkAt = some mainChunk := by
    rw [hmem, Option.bind_some, hchunk, Option.getD_some]
  refine ⟨disk, s₀, _, hs₀, hexec, ⟨isInt_zero, inBounds_zero hinv', hbind⟩, ?_⟩
  apply savedWhereLoaded_iff hright hwd hs₀ hexec
  intro pos c hc
  rw [eq_zero_of_inMemory hinv' hc] at hc
  rw [← Option.some.inj (hbind.symm.trans hc.right.right)]
  exact heightsFit_main

/--
A world that is copied to another directory is saved to the one that has its name.
-/
theorem not_savedWhereLoaded
    : ¬ ∀ (disk : Disk Bytes) (path : Bytes) (wd : WorldData) (s₀ s : WorldSession Bytes)
        (as : List Action), disk.Right mainFormats →
        WorldData.load mainFormats.inflate ((disk.dirAt plainFiles path).bind (·.levelDat)) = .ok wd →
        loadFrom plainFiles mainFormats disk path = .ok (some s₀) →
        exec (step plainFiles mainFormats) s₀ as = some s →
        (∀ pos c, s.InMemory pos c → c.HeightsFit) →
        s.SavedWhereLoaded plainFiles mainFormats path := by
  intro h
  let path := ascii "worlds/backup"
  obtain ⟨levelDat, hwd, hs₀⟩ := loadFrom_diskOf path (fun _ => none)
  have hright : (diskOf path levelDat (fun _ => none)).Right mainFormats := by
    apply right_diskOf
    intro pos data c hdata
    cases hdata
  have hfit : ∀ pos c,
      (loaded plainFiles (diskOf path levelDat (fun _ => none)) path mainWorld).InMemory pos c →
      c.HeightsFit := by
    intro pos c hmem
    obtain ⟨ch, hch, _⟩ := getChunk_of_inMemory hmem
    cases hch.symm.trans (getChunk_loaded hmem.right.left)
  obtain ⟨s₁, hs₁, hopened, _⟩ := h _ path mainWorld _ _ [] hright hwd hs₀ rfl hfit
  have hresolve : pathFromName mainWorld.name = path := hopened _ (saveAll_eq_ok hs₁).right
  exact absurd hresolve (by decide)

end Main

end WorldSession

end HCraft
