import HCraft.Util.Nbt.Lemmas.Strings
import HCraft.World.Providers.Anvil.LevelDat
import HCraft.World.Providers.Anvil.Lemmas.ChunkNbt

/-!
This module shows that the data of a world that was read from a level.dat is read again from the
level.dat it is saved as.
-/

namespace HCraft

theorem EntityPos.toInt_ofBlockPos {n : Int} (hlo : -2 ^ 31 ≤ n) (hhi : n < 2 ^ 31)
    : Coord.toInt (some (n : ℚ)) = n := by
  unfold Coord.toInt
  dsimp only
  rw [Rat.num_intCast, Rat.den_intCast, Int.natCast_one, Int.tdiv_one, if_pos ⟨hlo, hhi⟩]

namespace WorldData

open NbtTag NbtReader ChunkNbt

/--
What an `int` can be.
-/
def Fits (n : Int) : Prop :=
  -2 ^ 31 ≤ n ∧ n < 2 ^ 31

theorem fits_int32 (n : Nat) : Fits (Bin.int32 n) :=
  ⟨Bin.le_wrap32 n, Bin.wrap32_lt n⟩

/--
All of it can be written to a level.dat.
-/
structure Storable (wd : WorldData) : Prop where
  name : wd.name.length ≤ 65535 ∧ 0 ∉ wd.name
  genName : wd.genName.length ≤ 65535 ∧ 0 ∉ wd.genName
  spawnPos : ∃ x y z, wd.spawnPos = .ofBlockPos ⟨x, y, z⟩ ∧ Fits x ∧ Fits y ∧ Fits z
  width : Fits wd.width
  depth : Fits wd.depth

section Load

variable {tags : List (Bytes × NbtTag Unit)}

theorem read_of_get (h : ∀ tag ∈ tags, Read tag.2) {name : String} {t : NbtTag Unit}
    (ht : get tags name = some t) : Read t := by
  obtain ⟨tag, hfind, heq⟩ := Option.map_eq_some_iff.mp ht
  exact heq ▸ h tag (List.mem_of_find?_eq_some hfind)

theorem returns_asCompound {t : Option (NbtTag Unit)} (h : ∀ t' ∈ t, Read t')
    : Returns (asCompound t) (fun r => ∀ tags ∈ r, ∀ tag ∈ tags, Read tag.2) := by
  unfold asCompound
  split
  . apply returns_ok
    intro tags htags
    cases htags
  . next tags =>
    apply returns_ok
    intro tags' htags'
    injection htags' with htags'
    exact htags' ▸ (h _ rfl).returned
  . exact returns_error _

theorem returns_asString {t : Option (NbtTag Unit)} (h : ∀ t' ∈ t, Read t')
    : Returns (asString t) (fun val => val.length ≤ 65535 ∧ 0 ∉ val) := by
  unfold asString
  split
  . exact returns_error _
  . exact returns_ok (h _ rfl).returned
  . exact returns_error _

theorem returns_deref {α : Type} {p : Option α} {P : α → Prop} (h : ∀ a ∈ p, P a)
    : Returns (deref p) P := by
  cases p with
  | none => exact returns_error _
  | some a => exact returns_ok (h a rfl)

theorem returns_getInt (tags : List (Bytes × NbtTag Unit)) (name : String)
    : Returns (getInt tags name) Fits := by
  unfold getInt
  apply returns_bind
  intro n
  exact returns_ok (fits_int32 _)

theorem returns_loadBounds (data : List (Bytes × NbtTag Unit))
    : Returns (loadBounds data) (fun r => Fits r.1 ∧ Fits r.2) := by
  unfold loadBounds
  split
  . apply returns_bind
    intro hcs
    apply returns_bind
    intro hcc
    refine (returns_getInt hcc "Width").bind ?_
    intro width hwidth
    refine (returns_getInt hcc "Depth").bind ?_
    intro depth hdepth
    exact returns_ok ⟨hwidth, hdepth⟩
  . apply returns_ok
    unfold Fits
    decide

theorem returns_loadFromNbt (h : ∀ tag ∈ tags, Read tag.2)
    : Returns (loadFromNbt tags) Storable := by
  unfold loadFromNbt
  refine (returns_asCompound (fun t ht => read_of_get h ht)).bind ?_
  intro p hp
  refine (returns_deref hp).bind ?_
  intro data hdata
  refine (returns_asString (fun t ht => read_of_get hdata ht)).bind ?_
  intro name hname
  refine (returns_asString (fun t ht => read_of_get hdata ht)).bind ?_
  intro genName hgenName
  apply returns_bind
  intro seed
  refine (returns_getInt data "SpawnX").bind ?_
  intro x hx
  refine (returns_getInt data "SpawnY").bind ?_
  intro y hy
  refine (returns_getInt data "SpawnZ").bind ?_
  intro z hz
  refine (returns_loadBounds data).bind ?_
  rintro ⟨width, depth⟩ hbounds
  apply returns_ok
  exact ⟨hname, hgenName, ⟨x, y, z, rfl, hx, hy, hz⟩, hbounds.left, hbounds.right⟩

theorem returns_load (decompress : Bytes → Bytes) (levelDat : Option Bytes)
    : Returns (load decompress levelDat) Storable := by
  unfold load
  split
  . exact returns_error _
  . split
    . exact returns_error _
    . exact returns_error _
    . next hroot => exact returns_loadFromNbt (read_of_readRaw hroot)

end Load

section RoundTrip

variable {wd : WorldData}

theorem valid_makeData (h : wd.Storable)
    : (NbtTag.compound [(ascii "Data", wd.makeData)]).Valid := by
  have hbounds : [ascii "Width", ascii "Depth"].Nodup := by decide
  have hnames : [ascii "version", ascii "initialized", ascii "LevelName", ascii "generatorName",
      ascii "generatorVersion", ascii "RandomSeed", ascii "MapFeatures", ascii "SpawnX",
      ascii "SpawnY", ascii "SpawnZ", ascii "hCraft"].Nodup := by decide
  have hmake : wd.makeBounds.Valid :=
    ⟨hbounds, ⟨by decide, by decide⟩, trivial, ⟨by decide, by decide⟩, trivial, trivial⟩
  have hdata : wd.makeData.Valid :=
    ⟨hnames, ⟨by decide, by decide⟩, trivial, ⟨by decide, by decide⟩, trivial,
      ⟨by decide, by decide⟩, h.name, ⟨by decide, by decide⟩, h.genName,
      ⟨by decide, by decide⟩, trivial, ⟨by decide, by decide⟩, trivial,
      ⟨by decide, by decide⟩, trivial, ⟨by decide, by decide⟩, trivial,
      ⟨by decide, by decide⟩, trivial, ⟨by decide, by decide⟩, trivial,
      ⟨by decide, by decide⟩, hmake, trivial⟩
  exact ⟨List.nodup_singleton _, ⟨by decide, by decide⟩, hdata, trivial⟩

theorem length_payload_makeData (h : wd.Storable)
    : (header 10 (ascii "") ++ (NbtTag.compound [(ascii "Data", wd.makeData)]).payload).length
        < 2 ^ 28 := by
  have hname := h.name.left
  have hgenName := h.genName.left
  have hlen : ((ascii "").length, (ascii "Data").length, (ascii "version").length,
      (ascii "initialized").length, (ascii "LevelName").length, (ascii "generatorName").length)
        = (0, 4, 7, 11, 9, 13) := by decide
  have hlen' : ((ascii "generatorVersion").length, (ascii "RandomSeed").length,
      (ascii "MapFeatures").length, (ascii "SpawnX").length, (ascii "SpawnY").length,
      (ascii "SpawnZ").length) = (16, 10, 11, 6, 6, 6) := by decide
  have hlen'' : ((ascii "hCraft").length, (ascii "Width").length, (ascii "Depth").length)
      = (6, 5, 5) := by decide
  simp only [Prod.mk.injEq] at hlen hlen' hlen''
  simp only [makeData, makeBounds, putInt, payload, payloadTags, header, List.length_append,
    List.length_cons, List.length_nil, Bin.length_writeShortBe, Bin.length_writeIntBe,
    Bin.length_writeLongBe, hlen, hlen', hlen'']
  omega

theorem getInt_putInt {n : Int} (hn : Fits n) {tags : List (Bytes × NbtTag Unit)} {name : String}
    (h : get tags name = some (putInt n).erase) : getInt tags name = .ok n := by
  unfold getInt
  rw [h]
  exact congrArg Except.ok (ChunkNbt.int32_unsigned32 hn.left hn.right)

theorem get_makeData (wd : WorldData)
    : ∃ data hcc, asCompound (get (eraseTags [(ascii "Data", wd.makeData)]) "Data")
          = .ok (some data)
        ∧ get data "LevelName" = some (.string wd.name)
        ∧ get data "generatorName" = some (.string wd.genName)
        ∧ get data "RandomSeed" = some (.long wd.seed)
        ∧ get data "SpawnX" = some (putInt (Coord.toInt wd.spawnPos.x)).erase
        ∧ get data "SpawnY" = some (putInt (Coord.toInt wd.spawnPos.y)).erase
        ∧ get data "SpawnZ" = some (putInt (Coord.toInt wd.spawnPos.z)).erase
        ∧ get data "hCraft" = some (.compound hcc)
        ∧ get hcc "Width" = some (putInt wd.width).erase
        ∧ get hcc "Depth" = some (putInt wd.depth).erase :=
  ⟨_, _, rfl, rfl, rfl, rfl, rfl, rfl, rfl, rfl, rfl, rfl⟩

theorem loadBounds_eq {data hcc : List (Bytes × NbtTag Unit)} {width depth : Int}
    (h : get data "hCraft" = some (.compound hcc)) (hwidth : getInt hcc "Width" = .ok width)
    (hdepth : getInt hcc "Depth" = .ok depth) : loadBounds data = .ok (width, depth) := by
  unfold loadBounds
  rw [h]
  dsimp only [asCompound, deref, bind, Except.bind]
  rw [hwidth]
  dsimp only
  rw [hdepth]

theorem loadFromNbt_makeData (h : wd.Storable)
    : loadFromNbt (eraseTags [(ascii "Data", wd.makeData)]) = .ok wd := by
  obtain ⟨data, hcc, hdata, hname, hgenName, hseed, hx, hy, hz, hbounds, hwidth, hdepth⟩ :=
    get_makeData wd
  obtain ⟨x, y, z, hpos, hfx, hfy, hfz⟩ := h.spawnPos
  rw [hpos] at hx hy hz
  dsimp only [EntityPos.ofBlockPos] at hx hy hz
  rw [EntityPos.toInt_ofBlockPos hfx.left hfx.right] at hx
  rw [EntityPos.toInt_ofBlockPos hfy.left hfy.right] at hy
  rw [EntityPos.toInt_ofBlockPos hfz.left hfz.right] at hz
  have hbounds := loadBounds_eq hbounds (getInt_putInt h.width hwidth) (getInt_putInt h.depth hdepth)
  unfold loadFromNbt
  rw [hdata]
  dsimp only [deref, bind, Except.bind]
  rw [hname, hgenName, hseed]
  dsimp only [asString, asLong]
  rw [getInt_putInt hfx hx]
  dsimp only
  rw [getInt_putInt hfy hy]
  dsimp only
  rw [getInt_putInt hfz hz]
  dsimp only
  rw [hbounds]
  dsimp only
  rw [← hpos]

/--
What was read from some level.dat is read from the next one as well.
-/
theorem load_save {compress decompress : Bytes → Bytes}
    (hgzip : ∀ data, decompress (compress data) = data) (h : wd.Storable)
    : ∃ data, save compress wd = .ok data ∧ load decompress (some data) = .ok wd := by
  have hname : ValidName (ascii "") := ⟨by decide, by decide⟩
  obtain ⟨w, hwrite, hdata⟩ :=
    write_root hname (valid_makeData h) (length_payload_makeData h)
  have hraw := readRaw_root hname (valid_makeData h) hdata (hdata ▸ length_payload_makeData h)
  refine ⟨compress w.buf.data, ?_, ?_⟩
  . unfold save
    rw [hwrite]
    rfl
  . unfold load
    dsimp only
    rw [hgzip, hraw]
    exact loadFromNbt_makeData h

end RoundTrip

end WorldData

end HCraft
