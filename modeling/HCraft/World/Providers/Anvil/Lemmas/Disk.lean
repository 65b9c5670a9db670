import HCraft.Util.Nbt.Lemmas.Compressed
import HCraft.World.LoadFrom.Lemmas.Restored
import HCraft.World.Providers.Anvil.Disk
import HCraft.World.Providers.Anvil.Lemmas.Store
import Mathlib.Data.Option.Defs

/-!
This module contains what the world directory as a whole remembers: `load_chunk` undoes `save_chunk`,
through NBT, zlib and the sectors of the region files.
-/

namespace HCraft

/--
zlib, as far as it is documented: what is compressed comes back, is recognised as a whole stream, and
is not longer than `deflateBound` tells.
-/
structure ZlibCodec where
  compress : Bytes → Bytes
  inflater : Inflater
  decode : Bytes → Inflater.Decoded
  Of : Bytes → inflater.State → Prop
  documented : inflater.Documented decode Of
  init_compress : ∀ data, (inflater.init (compress data)).isSome
  decode_compress : ∀ data, decode (compress data) = ⟨data, .complete⟩
  length_compress : ∀ data, (compress data).length
    ≤ data.length + (data.length >>> 12) + (data.length >>> 14) + (data.length >>> 25) + 13

namespace ChunkNbt

theorem makeChunkData_eq (compress : Bytes → Bytes) (ch : Chunk)
    : makeChunkData compress ch = .ok (compress (nbtOf ch)) := by
  have hname : NbtTag.ValidName (ascii "") := ⟨by decide, by decide⟩
  obtain ⟨w, hwrite, hdata⟩ := NbtReader.write_root hname valid_makeLevel
    (@length_payload_makeLevel ch)
  unfold makeChunkData
  rw [hwrite]
  show Except.ok (compress w.buf.data) = _
  rw [hdata]
  rfl

theorem readRaw_nbtOf (ch : Chunk)
    : ∃ name root, NbtReader.readRaw (nbtOf ch) = .ok (name, root)
        ∧ loadChunkFromNbt root = .ok ch.reloaded := by
  have hname : NbtTag.ValidName (ascii "") := ⟨by decide, by decide⟩
  exact ⟨_, _, NbtReader.readRaw_root hname valid_makeLevel rfl (@length_payload_makeLevel ch),
    loadChunkFromNbt_makeLevel ch⟩

end ChunkNbt

namespace ZlibCodec

variable (zl : ZlibCodec)

/--
A chunk takes at most 255 sectors.
-/
theorem length_compress_nbtOf (ch : Chunk)
    : (zl.compress (ChunkNbt.nbtOf ch)).length + 5 ≤ 255 * 4096 := by
  have hnbt : (ChunkNbt.nbtOf ch).length < 200000 := @ChunkNbt.length_payload_makeLevel_lt ch
  have hlen := zl.length_compress (ChunkNbt.nbtOf ch)
  simp only [Nat.shiftRight_eq_div_pow] at hlen
  omega

/--
What is read of a chunk that has been compressed.
-/
theorem read_compress (ch : Chunk)
    : ∃ n, ∀ fuel, n ≤ fuel →
        (NbtReader.read zl.inflater fuel (zl.compress (ChunkNbt.nbtOf ch)) .zlib).map
            AnvilWorldProvider.finishLoad
          = some (.ok (some ch.reloaded)) := by
  have hnbt : (ChunkNbt.nbtOf ch).length < 200000 := @ChunkNbt.length_payload_makeLevel_lt ch
  have hdecode := zl.decode_compress (ChunkNbt.nbtOf ch)
  obtain ⟨s, hs⟩ := Option.isSome_iff_exists.mp (zl.init_compress (ChunkNbt.nbtOf ch))
  have hreaches : NbtReader.Reaches (zl.decode (zl.compress (ChunkNbt.nbtOf ch))) := by
    rw [hdecode]
    refine ⟨by simp, ?_⟩
    dsimp only
    omega
  obtain ⟨n, hread⟩ := NbtReader.readCompressed_of_reaches zl.documented hs hreaches
  rw [hdecode, if_pos rfl] at hread
  obtain ⟨name, root, hraw, hload⟩ := ChunkNbt.readRaw_nbtOf ch
  have hinflated : NbtReader.readInflated (ChunkNbt.nbtOf ch) = .ok (name, root) := by
    unfold NbtReader.readInflated
    dsimp only
    rw [if_neg, hraw]
    rw [NbtReader.int32_neg_iff (by omega)]
    omega
  refine ⟨n, ?_⟩
  intro fuel hfuel
  obtain ⟨k, rfl⟩ := Nat.exists_eq_add_of_le hfuel
  have hmono := NbtReader.readCompressed_mono hread k
  rw [NbtReader.read, hmono, Option.map_some]
  dsimp only
  rw [hinflated, AnvilWorldProvider.finishLoad, hload]
  rfl

end ZlibCodec

namespace AnvilWorldProvider

variable (zl : ZlibCodec)

/--
What the region files get of a chunk.
-/
def toSave (ch : Chunk) : Save :=
  ⟨ch.pos.x, ch.pos.z, zl.compress (ChunkNbt.nbtOf ch)⟩

theorem length_toSave (ch : Chunk) : (toSave zl ch).data.length + 5 ≤ 255 * 4096 :=
  zl.length_compress_nbtOf ch

theorem saveToDisk_eq (prov : AnvilWorldProvider) (ch : Chunk)
    : saveToDisk zl.compress prov ch
        =
      prov.saveChunk (toSave zl ch).x (toSave zl ch).z (toSave zl ch).data := by
  have hok {α β : Type} (a : α) (k : α → Except Fault β) : Except.ok a >>= k = k a := rfl
  rw [saveToDisk, ChunkNbt.makeChunkData_eq, hok, toSave]

theorem saveAllToDisk_eq (prov : AnvilWorldProvider) (chs : List Chunk)
    : prov.saveAllToDisk zl.compress chs = prov.saveAll (chs.map (toSave zl)) := by
  rw [saveAllToDisk, saveAll, funext₂ (saveToDisk_eq zl), List.foldlM_map]

theorem lastChunk_append_singleton (chs : List Chunk) (ch : Chunk)
    : lastChunk (chs ++ [ch]) = Function.update (lastChunk chs) (ch.pos.x, ch.pos.z) (some ch) := by
  rw [lastChunk, List.foldl_append, List.foldl_cons, List.foldl_nil]
  rfl

theorem mem_of_lastChunk {chs : List Chunk} {pos : Int × Int} {ch : Chunk}
    (h : lastChunk chs pos = some ch) : ch ∈ chs := by
  induction chs using List.reverseRecOn with
  | nil => cases h
  | append_singleton chs ch' ih =>
    rw [lastChunk_append_singleton, Function.update_apply] at h
    split at h
    . injection h with h
      simp [h]
    . exact List.mem_append_left _ (ih h)

theorem lastSaved_map (chs : List Chunk) (pos : Int × Int)
    : lastSaved (chs.map (toSave zl)) pos
        =
      (lastChunk chs pos).map (fun ch => zl.compress (ChunkNbt.nbtOf ch)) := by
  induction chs using List.reverseRecOn with
  | nil => rfl
  | append_singleton chs ch ih =>
    rw [List.map_append, List.map_singleton, lastSaved_append_singleton, lastChunk_append_singleton,
      Function.update_apply, Function.update_apply, ih]
    split
    . next hpos =>
      rw [if_pos (show pos = (ch.pos.x, ch.pos.z) from hpos), Option.map_some, toSave]
    . next hpos => rw [if_neg (show ¬ pos = (ch.pos.x, ch.pos.z) from hpos)]

/--
What comes back of a chunk: all of it, but for the height of the first column, which may be raised.
-/
structure RestoredFrom (ch' ch : Chunk) : Prop where
  pos : ch'.pos = ch.pos
  subs : ch'.subs = ch.subs
  biomes : ch'.biomes = ch.biomes
  height : ∀ x z, ¬ (x = 0 ∧ z = 0) → ch'.getHeight x z = ch.getHeight x z
  height_zero : ch.getHeight 0 0 ≤ ch'.getHeight 0 0

theorem restoredFrom_reloaded {ch : Chunk} (hpos : ch.pos.IsInt) (hfit : ch.HeightsFit)
    : RestoredFrom ch.reloaded ch where
  pos := Chunk.pos_reloaded hpos
  subs := ChunkNbt.subs_loaded
  biomes := by
    unfold Chunk.reloaded
    rw [ChunkNbt.biomes_addSections, ChunkNbt.biomes_loadHead]
  height := by
    intro x z hxz
    unfold Chunk.reloaded
    rw [ChunkNbt.getHeight_addSections hxz, ChunkNbt.getHeight_loadHead (hfit x z)]
  height_zero := by
    have hle := (@ChunkNbt.getHeight_addSections_zero ch (ChunkNbt.loadHead ch) (List.finRange 16)).1
    rwa [ChunkNbt.getHeight_loadHead (hfit 0 0)] at hle

/--
The world directory is a map from positions to chunks: whatever has been saved to it, `load_chunk` finds
nothing at a position where nothing was saved, and the last chunk saved there otherwise.
-/
theorem saveAllToDisk_refines {chs : List Chunk}
    (hint : ∀ ch ∈ chs, ch.pos.IsInt ∧ ch.HeightsFit)
    (hfit : ∀ k prov, empty.saveAllToDisk zl.compress (chs.take k) = .ok prov →
      ∀ r file, prov.regions r = some file → file.length < 2 ^ 31) (k : Nat)
    : ∃ prov, empty.saveAllToDisk zl.compress (chs.take k) = .ok prov
        ∧ ∀ x z, ∃ res n, Option.Rel RestoredFrom res (lastChunk (chs.take k) (x, z))
          ∧ ∀ fuel, n ≤ fuel → prov.loadFromDisk zl.inflater fuel x z = some (.ok res) := by
  have hlen : ∀ s ∈ chs.map (toSave zl), s.data.length + 5 ≤ 255 * 4096 := by
    intro s hs
    obtain ⟨ch, _, rfl⟩ := List.mem_map.mp hs
    exact length_toSave zl ch
  have hfiles : ∀ k prov, saveAll empty ((chs.map (toSave zl)).take k) = .ok prov →
      ∀ r file, prov.regions r = some file → file.length < 2 ^ 31 := by
    intro k prov hprov
    rw [← List.map_take, ← saveAllToDisk_eq] at hprov
    exact hfit k prov hprov
  obtain ⟨prov, hprov, hstores⟩ := stores_saveAll hlen hfiles k
  have hfile := hfiles k prov hprov
  rw [← List.map_take, ← saveAllToDisk_eq] at hprov
  refine ⟨prov, hprov, ?_⟩
  intro x z
  have hload := hstores.loadChunk hfile x z
  rw [← List.map_take, lastSaved_map] at hload
  cases hlast : lastChunk (chs.take k) (x, z) with
  | none =>
    refine ⟨none, 0, .none, ?_⟩
    intro fuel _
    rw [loadFromDisk, hload, hlast]
    rfl
  | some ch =>
    obtain ⟨n, hread⟩ := zl.read_compress ch
    obtain ⟨hpos, hheights⟩ := hint ch (List.mem_of_mem_take (mem_of_lastChunk hlast))
    refine ⟨some ch.reloaded, n, .some (restoredFrom_reloaded hpos hheights), ?_⟩
    intro fuel hfuel
    rw [loadFromDisk, hload, hlast]
    exact hread fuel hfuel

section Sample

open ChunkNbt Inflater

def decodeSample (data : Bytes) : Decoded :=
  ⟨CodecSample.decode samples data, .complete⟩

theorem length_samples
    : ∀ s ∈ samples, s.wire.length ≤ 300 ∧ 1360 ≤ s.plain.length := by
  simp only [samples, List.forall_mem_cons, length_nbtOf]
  have hwires : compressedSample.length ≤ 300 ∧ compressedNew.length ≤ 300
      ∧ compressedNew'.length ≤ 300 := by decide +kernel
  refine ⟨⟨hwires.1, by omega⟩, ⟨hwires.2.1, by omega⟩, ⟨hwires.2.2, by omega⟩, ?_⟩
  intro s hs
  cases hs

def sampleCodec : ZlibCodec where
  compress := CodecSample.encode samples
  inflater := ofDecode decodeSample
  decode := decodeSample
  Of := Stream.Of decodeSample
  documented := documented_ofDecode decodeSample
  init_compress _ := rfl
  decode_compress data := congrArg (Decoded.mk · .complete) (decode_encode_samples data)
  length_compress data := by
    cases CodecSample.encode_cases samples data with
    | inl hzero =>
      rw [hzero, List.length_cons]
      omega
    | inr hsample =>
      obtain ⟨s, hs, hplain, hwire⟩ := hsample
      have hlen := length_samples s hs
      rw [hwire, ← hplain]
      omega

/--
An empty chunk, another one in another region file, and blocks where the first one was.
-/
def savedChunks : List Chunk :=
  [.new 3 (-4), .new 0 0, sampleChunk]

theorem saveAllToDisk_refines_three
    : ∃ prov, empty.saveAllToDisk sampleCodec.compress (savedChunks.take 3) = .ok prov
        ∧ ∀ x z, ∃ res n, Option.Rel RestoredFrom res (lastChunk (savedChunks.take 3) (x, z))
          ∧ ∀ fuel, n ≤ fuel → prov.loadFromDisk sampleCodec.inflater fuel x z = some (.ok res) := by
  have hlen : ∀ s ∈ savedChunks.map (toSave sampleCodec), s.data.length + 5 ≤ 255 * 4096 := by
    intro s hs
    obtain ⟨ch, _, rfl⟩ := List.mem_map.mp hs
    exact length_toSave sampleCodec ch
  have hfew : (savedChunks.map (toSave sampleCodec)).length ≤ 45 := by
    rw [List.length_map]
    decide
  have hfit : ∀ k prov, empty.saveAllToDisk sampleCodec.compress (savedChunks.take k) = .ok prov →
      ∀ r file, prov.regions r = some file → file.length < 2 ^ 31 := by
    intro k prov h r file hr
    rw [saveAllToDisk_eq, List.map_take] at h
    exact saveAll_fits hlen hfew k prov h r file hr
  apply saveAllToDisk_refines sampleCodec _ hfit 3
  simp only [savedChunks, List.forall_mem_cons]
  refine ⟨⟨by decide, heights_fit (Chunk.heightmapOk_new 3 (-4))⟩,
    ⟨WorldSession.isInt_zero, WorldSession.heightsFit_new⟩,
    ⟨by rw [pos_sample]; decide, heights_fit heightmapOk_sample⟩, ?_⟩
  intro ch hch
  cases hch

end Sample

end AnvilWorldProvider

end HCraft
