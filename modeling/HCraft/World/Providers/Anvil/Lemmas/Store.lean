import HCraft.World.Providers.Anvil.Lemmas.SaveChunk
import Mathlib.Data.List.Induction

/-!
This module contains the proof that the region files are a map from chunk positions to chunk data.
-/

namespace HCraft

namespace AnvilWorldProvider

open Bin Slice Extents

section Region

variable {data : Bytes} {chunks : Fin 1024 → Option Bytes}

theorem layout_replicate {n : Nat} (h : 4096 ≤ n) : layout (List.replicate n 0) = fun _ => none := by
  funext i
  have hi := i.isLt
  rw [layout_eq_none, entryLoc, slice, List.drop_replicate, List.take_replicate,
    Nat.min_eq_left (by omega)]
  have hzero : List.replicate 3 0 = (writeIntBe 0).drop 1 := rfl
  rw [hzero, readLocation_writeIntBe (by omega)]

theorem regionFile_replicate {n : Nat} (h : 8192 ≤ n) (hn : 4096 ∣ n)
    : RegionFile (List.replicate n 0) (fun _ => none) := by
  have hlayout := layout_replicate (n := n) (by omega)
  constructor
  . rw [List.length_replicate]
    exact h
  . rw [hlayout]
    apply Stored.of_none
    rw [List.length_replicate]
    exact hn
  . intro i
    rw [hlayout]
    rfl

theorem regionFile_createEmptyRegion : RegionFile createEmptyRegion (fun _ => none) := by
  rw [createEmptyRegion, List.replicate_append_replicate]
  apply regionFile_replicate
  . omega
  . exact ⟨2, rfl⟩

theorem RegionFile.isSome_layout (h : RegionFile data chunks) {i : Fin 1024} {p : Bytes}
    (hp : chunks i = some p) : ∃ e, layout data i = some e := by
  rw [← Option.isSome_iff_exists, h.saved, hp]
  rfl

theorem RegionFile.layout_none (h : RegionFile data chunks) {i : Fin 1024} (hnone : chunks i = none)
    : layout data i = none := by
  rw [← Option.isNone_iff_eq_none, ← Option.not_isSome, h.saved, hnone]
  rfl

theorem RegionFile.saveInRegion_eq (h : RegionFile data chunks) (cx cz : Int) (p : Bytes)
    : AnvilWorldProvider.saveInRegion (.ofFile data) cx cz p
        =
      (let loc := unsigned32 (int32 (4096 * entryLoc data (index cx cz)))
      let fs := FStream.mk data (4 * cindex cx cz + 3 + 1) false
      if loc = 0 then
        .ok (AnvilWorldProvider.appendChunk fs cx cz p)
      else
        AnvilWorldProvider.overwriteChunk fs cx cz p (int32 loc) (entrySize data (index cx cz))) := by
  have hheader := h.header
  have hi := cindex_lt cx cz
  have hloc : readLocation (slice data (4 * cindex cx cz) 3) = entryLoc data (index cx cz) := by
    rw [Nat.mul_comm]
    rfl
  have hsize : (data.getD (4 * cindex cx cz + 3) 0).toNat = entrySize data (index cx cz) := by
    rw [Nat.mul_comm]
    rfl
  rw [AnvilWorldProvider.saveInRegion, FStream.ofFile, FStream.seek_good,
    FStream.read_good (by omega)]
  dsimp only
  rw [FStream.get_good (by omega), hloc, hsize, shiftLeft_12]

theorem RegionFile.saveInRegion_of_none (h : RegionFile data chunks) {cx cz : Int}
    (hnone : chunks (index cx cz) = none) (p : Bytes)
    : AnvilWorldProvider.saveInRegion (.ofFile data) cx cz p
        =
      .ok (AnvilWorldProvider.appendChunk (FStream.mk data (4 * cindex cx cz + 3 + 1) false)
        cx cz p) := by
  have hzero : unsigned32 (int32 (4096 * entryLoc data (index cx cz))) = 0 := by
    rw [layout_eq_none.mp (h.layout_none hnone), Nat.mul_zero, int32_eq_self (by omega),
      unsigned32_natCast (by omega)]
  rw [h.saveInRegion_eq]
  dsimp only
  rw [if_pos hzero]

/--
A save in a region file cannot fail, and changes the data of its chunk only.
-/
theorem RegionFile.saveInRegion (h : RegionFile data chunks) (hlen : data.length < 2 ^ 31)
    {cx cz : Int} {p : Bytes} (hp : p.length + 5 ≤ 255 * 4096)
    (hfit : ∀ fs, AnvilWorldProvider.saveInRegion (.ofFile data) cx cz p = .ok fs →
      fs.data.length < 2 ^ 31)
    : ∃ fs, AnvilWorldProvider.saveInRegion (.ofFile data) cx cz p = .ok fs
        ∧ RegionFile fs.data (Function.update chunks (index cx cz) (some p)) := by
  cases hcase : chunks (index cx cz) with
  | none =>
    rw [h.saveInRegion_of_none hcase]
    exact ⟨_, rfl, h.appendChunk hp hlen⟩
  | some old =>
    obtain ⟨e, he⟩ := h.isSome_layout hcase
    obtain ⟨_, hentry, hsize⟩ := layout_eq_some.mp he
    obtain ⟨hfirst, _, hstop⟩ := h.stored.inside _ (Set.mem_univ _) e he
    rw [Extent.stop, Nat.mul_add] at hstop
    have hloc : unsigned32 (int32 (4096 * e.loc)) = 4096 * e.loc := by
      rw [int32_eq_self (by omega), unsigned32_natCast (by omega)]
    rw [h.saveInRegion_eq] at hfit ⊢
    dsimp only at hfit ⊢
    rw [hentry, hloc, if_neg (by omega), int32_eq_self (by omega), hsize] at hfit ⊢
    generalize heq : AnvilWorldProvider.overwriteChunk _ cx cz p _ _ = res at hfit ⊢
    cases res with
    | error fault =>
      rw [overwriteChunk_eq h hlen he] at heq
      injection heq
    | ok fs => exact ⟨fs, rfl, h.overwriteChunk hlen he hp heq (hfit fs rfl)⟩

/--
A save makes the file at most as much longer as the chunks of the region take.
-/
theorem RegionFile.length_saveInRegion (h : RegionFile data chunks) (hlen : data.length < 2 ^ 31)
    {keys : List (Fin 1024)} (hkeys : ∀ k, (chunks k).isSome → k ∈ keys) {cx cz : Int} {p : Bytes}
    (hp : p.length + 5 ≤ 255 * 4096) {fs : FStream}
    (heq : AnvilWorldProvider.saveInRegion (.ofFile data) cx cz p = .ok fs)
    : fs.data.length ≤ data.length + 4096 * 255 * (keys.length + 1) := by
  have hsectors := sectors_lt hp
  cases hcase : chunks (index cx cz) with
  | none =>
    rw [h.saveInRegion_of_none hcase] at heq
    injection heq with heq
    rw [← heq, length_appendChunk hlen h.header, Nat.mul_succ]
    omega
  | some old =>
    obtain ⟨e, he⟩ := h.isSome_layout hcase
    obtain ⟨_, hentry, hsize⟩ := layout_eq_some.mp he
    obtain ⟨hfirst, _, hstop⟩ := h.stored.inside _ (Set.mem_univ _) e he
    rw [Extent.stop, Nat.mul_add] at hstop
    have hloc : unsigned32 (int32 (4096 * e.loc)) = 4096 * e.loc := by
      rw [int32_eq_self (by omega), unsigned32_natCast (by omega)]
    rw [h.saveInRegion_eq] at heq
    dsimp only at heq
    rw [hentry, hloc, if_neg (by omega), int32_eq_self (by omega), hsize] at heq
    exact h.length_overwriteChunk hlen hkeys he hp heq

theorem readIntBe_record {p : Bytes} (hp : p.length + 1 < 2 ^ 31)
    : readIntBe (record p) = some ((p.length + 1 : Nat) : Int) := by
  rw [record, List.append_assoc, List.append_assoc, readIntBe_writeIntBe (by omega),
    int32_eq_self (by omega)]

theorem slice_record (p : Bytes) : slice (record p) 5 p.length = p := by
  unfold slice record
  rw [List.append_assoc, List.drop_left' (by simp), List.take_left]

theorem chunkData_record {p : Bytes} (h : (record p).length < 2 ^ 31)
    : chunkData (record p) (record p).length = .ok (.zlib, p) := by
  have hlength : p.length + 5 ≤ (record p).length := by
    rw [record]
    simp only [List.length_append, length_writeIntBe, List.length_singleton]
    omega
  have htype : (record p)[4]? = some 2 := by
    rw [record, List.append_assoc, List.append_assoc,
      List.getElem?_append_right (by rw [length_writeIntBe])]
    rfl
  have hcompressed : wrap32 (((p.length + 1 : Nat) : Int) - 1) = p.length := by
    rw [wrap32_eq_self (by omega) (by omega)]
    omega
  rw [chunkData, if_neg (by omega), readIntBe_record (by omega), htype]
  dsimp only
  rw [hcompressed, show compressionStrategy 2 = some .zlib from rfl]
  dsimp only
  rw [if_neg (by omega), if_neg (by omega), Int.toNat_natCast, slice_record]

/--
A load from a region file finds what was saved last.
-/
theorem RegionFile.loadFromRegion (h : RegionFile data chunks) (hlen : data.length < 2 ^ 31)
    (x z : Int)
    : AnvilWorldProvider.loadFromRegion (.ofFile data) x z
        =
      .ok ((chunks (index x z)).map (fun p => (.zlib, p))) := by
  have hheader := h.header
  have hi := cindex_lt x z
  have hloc : readLocation (slice data (cindex x z * 4) 3) = entryLoc data (index x z) := rfl
  have hsize : (data.getD (cindex x z * 4 + 3) 0).toNat = entrySize data (index x z) := rfl
  rw [AnvilWorldProvider.loadFromRegion, FStream.ofFile, FStream.seek_good,
    FStream.read_good (by omega)]
  dsimp only
  rw [FStream.get_good (by omega), hloc, hsize, shiftLeft_12]
  dsimp only
  cases hcase : chunks (index x z) with
  | none =>
    have hnone := layout_eq_none.mp (h.layout_none hcase)
    rw [if_pos hnone]
    rfl
  | some p =>
    obtain ⟨e, he⟩ := h.isSome_layout hcase
    obtain ⟨hne, hentry, hsz⟩ := layout_eq_some.mp he
    obtain ⟨_, hpos, hstop⟩ := h.stored.inside _ (Set.mem_univ _) e he
    have hholds := h.stored.holds _ (Set.mem_univ _) e he
    rw [Extent.stop, Nat.mul_add] at hstop
    rw [contents, hcase, Option.map_some, Option.getD_some] at hholds
    have hrecord : (record p).length = 4096 * e.size := by
      rw [← hholds, length_slice_of_le hstop]
    rw [hentry] at hne ⊢
    rw [if_neg hne, int32_eq_self (by omega), FStream.seek_good, if_neg (by omega), hsz,
      Int.toNat_natCast, shiftLeft_12, FStream.read_good hstop, hholds]
    dsimp only
    rw [← hrecord, chunkData_record (by omega)]
    rfl

end Region

/--
The data of the chunks of a region.
-/
def regionChunks (chunks : Int × Int → Option Bytes) (r : Int × Int) (i : Fin 1024) : Option Bytes :=
  chunks (32 * r.1 + (i.val % 32 : Nat), 32 * r.2 + (i.val / 32 : Nat))

/--
The region files have the data of these chunks.
-/
structure Stores (prov : AnvilWorldProvider) (chunks : Int × Int → Option Bytes) : Prop where
  file : ∀ r file, prov.regions r = some file → RegionFile file (regionChunks chunks r)
  noFile : ∀ r, prov.regions r = none → regionChunks chunks r = fun _ => none

theorem regionChunks_index (chunks : Int × Int → Option Bytes) (x z : Int)
    : regionChunks chunks (x >>> (5 : Nat), z >>> (5 : Nat)) (index x z) = chunks (x, z) := by
  have hx : 32 * (x / (2 ^ 5 : Nat)) + ((cindex x z % 32 : Nat) : Int) = x := by
    rw [cindex_eq]
    omega
  have hz : 32 * (z / (2 ^ 5 : Nat)) + ((cindex x z / 32 : Nat) : Int) = z := by
    rw [cindex_eq]
    omega
  rw [regionChunks, Int.shiftRight_eq_div_pow, Int.shiftRight_eq_div_pow]
  dsimp only [index]
  rw [hx, hz]

theorem eq_index_iff {x z : Int} {r : Int × Int} {i : Fin 1024}
    : (32 * r.1 + ((i.val % 32 : Nat) : Int), 32 * r.2 + ((i.val / 32 : Nat) : Int)) = (x, z)
        ↔
      r = (x >>> (5 : Nat), z >>> (5 : Nat)) ∧ i = index x z := by
  have hi := i.isLt
  rw [Int.shiftRight_eq_div_pow, Int.shiftRight_eq_div_pow, Prod.ext_iff, Prod.ext_iff, Fin.ext_iff]
  dsimp only [index]
  rw [cindex_eq]
  omega

theorem regionChunks_update (chunks : Int × Int → Option Bytes) (x z : Int) (p : Bytes)
    (r : Int × Int)
    : regionChunks (Function.update chunks (x, z) (some p)) r
        =
      if r = (x >>> (5 : Nat), z >>> (5 : Nat)) then
        Function.update (regionChunks chunks r) (index x z) (some p)
      else
        regionChunks chunks r := by
  funext i
  have hiff := @eq_index_iff x z r i
  unfold regionChunks
  rw [Function.update_apply]
  split
  . next heq =>
    obtain ⟨hr, hi⟩ := hiff.mp heq
    rw [if_pos hr, hi, Function.update_self]
  . next hne =>
    split
    . next hr =>
      have hi : i ≠ index x z := fun hi => hne (hiff.mpr ⟨hr, hi⟩)
      rw [Function.update_of_ne hi]
    . rfl

theorem saveChunk_of_ok {prov : AnvilWorldProvider} {x z : Int} {p : Bytes} {fs : FStream}
    (h : saveInRegion
      (.ofFile ((prov.regions (x >>> (5 : Nat), z >>> (5 : Nat))).getD createEmptyRegion)) x z p
        = .ok fs)
    : prov.saveChunk x z p
        =
      .ok { regions :=
        Function.update prov.regions (x >>> (5 : Nat), z >>> (5 : Nat)) (some fs.data) } := by
  rw [AnvilWorldProvider.saveChunk, h]
  rfl

theorem Stores.file_getD {prov : AnvilWorldProvider} {chunks : Int × Int → Option Bytes}
    (h : prov.Stores chunks) {n : Nat} (hn : 8192 ≤ n)
    (hlen : ∀ r file, prov.regions r = some file → file.length ≤ n) (r : Int × Int)
    : RegionFile ((prov.regions r).getD createEmptyRegion) (regionChunks chunks r)
        ∧ ((prov.regions r).getD createEmptyRegion).length ≤ n := by
  cases hcase : prov.regions r with
  | none =>
    rw [h.noFile _ hcase, Option.getD_none]
    refine ⟨regionFile_createEmptyRegion, ?_⟩
    rw [createEmptyRegion, List.replicate_append_replicate, List.length_replicate]
    exact hn
  | some file => exact ⟨h.file _ file hcase, hlen _ file hcase⟩

/--
A save refines the update of the map of the chunks.
-/
theorem Stores.saveChunk {prov : AnvilWorldProvider} {chunks : Int × Int → Option Bytes}
    (h : prov.Stores chunks)
    (hlen : ∀ r file, prov.regions r = some file → file.length < 2 ^ 31) {x z : Int} {p : Bytes}
    (hp : p.length + 5 ≤ 255 * 4096)
    (hfit : ∀ prov', prov.saveChunk x z p = .ok prov' →
      ∀ r file, prov'.regions r = some file → file.length < 2 ^ 31)
    : ∃ prov', prov.saveChunk x z p = .ok prov'
        ∧ prov'.Stores (Function.update chunks (x, z) (some p)) := by
  have hle : ∀ r file, prov.regions r = some file → file.length ≤ 2 ^ 31 - 1 :=
    fun r file hr => Nat.le_sub_one_of_lt (hlen r file hr)
  obtain ⟨hregion, hshort⟩ := h.file_getD (by omega) hle (x >>> (5 : Nat), z >>> (5 : Nat))
  have hgrown : ∀ fs, saveInRegion (.ofFile
      ((prov.regions (x >>> (5 : Nat), z >>> (5 : Nat))).getD createEmptyRegion)) x z p = .ok fs →
      fs.data.length < 2 ^ 31 := by
    intro fs hfs
    apply hfit _ (saveChunk_of_ok hfs)
    apply Function.update_self
  obtain ⟨fs, hsave, hsaved⟩ := hregion.saveInRegion (by omega) hp hgrown
  refine ⟨_, saveChunk_of_ok hsave, ?_, ?_⟩
  . intro r file hr
    rw [regionChunks_update]
    dsimp only at hr
    rw [Function.update_apply] at hr
    split
    . next heq =>
      rw [if_pos heq] at hr
      injection hr with hr
      rw [← hr, heq]
      exact hsaved
    . next hne =>
      rw [if_neg hne] at hr
      exact h.file r file hr
  . intro r hr
    dsimp only at hr
    rw [Function.update_apply] at hr
    split at hr
    . injection hr
    . next hne =>
      rw [regionChunks_update, if_neg hne]
      exact h.noFile r hr

theorem Stores.loadChunk {prov : AnvilWorldProvider} {chunks : Int × Int → Option Bytes}
    (h : prov.Stores chunks)
    (hlen : ∀ r file, prov.regions r = some file → file.length < 2 ^ 31) (x z : Int)
    : prov.loadChunk x z = .ok ((chunks (x, z)).map (fun p => (.zlib, p))) := by
  rw [AnvilWorldProvider.loadChunk, ← regionChunks_index chunks x z]
  cases hcase : prov.regions (x >>> (5 : Nat), z >>> (5 : Nat)) with
  | none =>
    rw [h.noFile _ hcase]
    rfl
  | some file => exact (h.file _ file hcase).loadFromRegion (hlen _ file hcase) x z

/--
The length of a region file is a multiple of the sector length, and its chunks are in sectors of their
own inside of it, behind the header.
-/
structure WellFormed (file : Bytes) : Prop where
  aligned : 4096 ∣ file.length
  inside : ∀ i, entryLoc file i ≠ 0 →
    2 ≤ entryLoc file i ∧ 1 ≤ entrySize file i
      ∧ 4096 * (entryLoc file i + entrySize file i) ≤ file.length
  separate : ∀ i j, i ≠ j → entryLoc file i ≠ 0 → entryLoc file j ≠ 0 →
    entryLoc file i + entrySize file i ≤ entryLoc file j
      ∨ entryLoc file j + entrySize file j ≤ entryLoc file i

theorem RegionFile.wellFormed {data : Bytes} {chunks : Fin 1024 → Option Bytes}
    (h : RegionFile data chunks) : WellFormed data := by
  have hsome : ∀ i, entryLoc data i ≠ 0 →
      layout data i = some ⟨entryLoc data i, entrySize data i⟩ :=
    fun i hi => layout_eq_some.mpr ⟨hi, rfl, rfl⟩
  constructor
  . exact h.stored.aligned
  . intro i hi
    exact h.stored.inside i (Set.mem_univ i) _ (hsome i hi)
  . intro i j hij hi hj
    exact h.stored.separate i (Set.mem_univ i) j (Set.mem_univ j) hij _ _ (hsome i hi) (hsome j hj)

structure Save where
  x : Int
  z : Int
  data : Bytes

def empty : AnvilWorldProvider :=
  { regions := fun _ => none }

def saveAll (prov : AnvilWorldProvider) (saves : List Save) : Except Fault AnvilWorldProvider :=
  saves.foldlM (fun prov s => prov.saveChunk s.x s.z s.data) prov

/--
The data of the last save of each chunk.
-/
def lastSaved (saves : List Save) : Int × Int → Option Bytes :=
  saves.foldl (fun chunks s => Function.update chunks (s.x, s.z) (some s.data)) (fun _ => none)

theorem lastSaved_append_singleton (saves : List Save) (s : Save)
    : lastSaved (saves ++ [s]) = Function.update (lastSaved saves) (s.x, s.z) (some s.data) := by
  rw [lastSaved, List.foldl_append, List.foldl_cons, List.foldl_nil]
  rfl

theorem stores_empty : empty.Stores (fun _ => none) where
  file := by
    intro _ _ h
    injection h
  noFile := fun _ _ => rfl

theorem foldlM_append_singleton {α β ε : Type} {f : β → α → Except ε β} {xs : List α} {b b' : β}
    (h : xs.foldlM f b = .ok b') (x : α) : (xs ++ [x]).foldlM f b = f b' x := by
  rw [List.foldlM_append, h]
  simp only [List.foldlM_cons, List.foldlM_nil, bind, Except.bind]
  cases f b' x with
  | error err => rfl
  | ok v => rfl

theorem saveAll_append_singleton {prov prov' : AnvilWorldProvider} {saves : List Save}
    (h : saveAll prov saves = .ok prov') (s : Save)
    : saveAll prov (saves ++ [s]) = prov'.saveChunk s.x s.z s.data := by
  rw [saveAll] at h ⊢
  rw [foldlM_append_singleton h]

theorem isSome_lastSaved {saves : List Save} {r : Int × Int} {k : Fin 1024}
    (h : (regionChunks (lastSaved saves) r k).isSome) : k ∈ saves.map (fun s => index s.x s.z) := by
  induction saves using List.reverseRecOn with
  | nil => cases h
  | append_singleton saves s ih =>
    rw [lastSaved_append_singleton, regionChunks_update] at h
    rw [List.map_append, List.mem_append, List.map_singleton, List.mem_singleton]
    by_cases hk : k = index s.x s.z
    . exact Or.inr hk
    . left
      apply ih
      split at h
      . rw [Function.update_of_ne hk] at h
        exact h
      . exact h

theorem Stores.length_saveChunk {prov prov' : AnvilWorldProvider} {saves : List Save}
    (h : prov.Stores (lastSaved saves)) {n : Nat} (hn : 8192 ≤ n) (hn' : n < 2 ^ 31)
    (hlen : ∀ r file, prov.regions r = some file → file.length ≤ n) {x z : Int} {p : Bytes}
    (hp : p.length + 5 ≤ 255 * 4096) (hsave : prov.saveChunk x z p = .ok prov') {r : Int × Int}
    {file : Bytes} (hr : prov'.regions r = some file)
    : file.length ≤ n + 4096 * 255 * (saves.length + 1) := by
  obtain ⟨hregion, hshort⟩ := h.file_getD hn hlen (x >>> (5 : Nat), z >>> (5 : Nat))
  have hkeys : ∀ k, (regionChunks (lastSaved saves) (x >>> (5 : Nat), z >>> (5 : Nat)) k).isSome →
      k ∈ saves.map (fun s => index s.x s.z) := fun k => isSome_lastSaved
  unfold AnvilWorldProvider.saveChunk at hsave
  dsimp only at hsave
  cases hfs : AnvilWorldProvider.saveInRegion
      (.ofFile ((prov.regions (x >>> (5 : Nat), z >>> (5 : Nat))).getD createEmptyRegion)) x z p with
  | error fault =>
    rw [hfs] at hsave
    cases hsave
  | ok fs =>
    rw [hfs] at hsave
    injection hsave with hsave
    have hgrown := hregion.length_saveInRegion (by omega) hkeys hp hfs
    rw [List.length_map] at hgrown
    rw [← hsave] at hr
    dsimp only at hr
    rw [Function.update_apply] at hr
    split at hr
    . injection hr with hr
      exact hr ▸ Nat.le_trans hgrown (Nat.add_le_add_right hshort _)
    . have hother := hlen r file hr
      omega

theorem stores_saveAll {saves : List Save} (hlen : ∀ s ∈ saves, s.data.length + 5 ≤ 255 * 4096)
    (hfit : ∀ k prov, saveAll empty (saves.take k) = .ok prov →
      ∀ r file, prov.regions r = some file → file.length < 2 ^ 31) (k : Nat)
    : ∃ prov, saveAll empty (saves.take k) = .ok prov
        ∧ prov.Stores (lastSaved (saves.take k)) := by
  induction k with
  | zero =>
    rw [List.take_zero]
    exact ⟨empty, rfl, stores_empty⟩
  | succ k ih =>
    obtain ⟨prov, hprov, hstores⟩ := ih
    have hnext := hfit (k + 1)
    rw [List.take_add_one] at hnext ⊢
    cases hget : saves[k]? with
    | none =>
      rw [Option.toList_none, List.append_nil]
      exact ⟨prov, hprov, hstores⟩
    | some s =>
      rw [hget, Option.toList_some] at hnext
      rw [Option.toList_some, lastSaved_append_singleton]
      have hstep := saveAll_append_singleton hprov s
      rw [hstep] at hnext ⊢
      exact hstores.saveChunk (hfit k prov hprov) (hlen s (List.mem_of_getElem? hget)) hnext

theorem growth_le {len first most count k : Nat}
    (h : len ≤ first + most * (k * k) + most * (count + 1)) (hcount : count ≤ 2 * k)
    : len ≤ first + most * (k * k + 2 * k + 1) := by
  have hmul : most * (count + 1) ≤ most * (2 * k + 1) := Nat.mul_le_mul_left most (by omega)
  rw [Nat.add_assoc (k * k), Nat.mul_add]
  omega

/--
The files of at most 45 saves are never too long, whatever is saved.
-/
theorem saveAll_of_few {saves : List Save} (hlen : ∀ s ∈ saves, s.data.length + 5 ≤ 255 * 4096)
    (hfew : saves.length ≤ 45) (k : Nat)
    : ∃ prov, saveAll empty (saves.take k) = .ok prov
        ∧ prov.Stores (lastSaved (saves.take k))
        ∧ ∀ r file, prov.regions r = some file → file.length
          ≤ 8192 + 4096 * 255 * ((saves.take k).length * (saves.take k).length) := by
  induction k with
  | zero =>
    rw [List.take_zero]
    exact ⟨empty, rfl, stores_empty, fun _ _ hr => by cases hr⟩
  | succ k ih =>
    obtain ⟨prov, hprov, hstores, hfiles⟩ := ih
    rw [List.take_add_one]
    cases hget : saves[k]? with
    | none =>
      rw [Option.toList_none, List.append_nil]
      exact ⟨prov, hprov, hstores, hfiles⟩
    | some s =>
      have hk : k < saves.length := (List.getElem?_eq_some_iff.mp hget).1
      have hcount : (saves.take k).length = k := by
        rw [List.length_take]
        omega
      have hsquare : k * k ≤ 44 * 44 := Nat.mul_le_mul (by omega) (by omega)
      have hnext : (k + 1) * (k + 1) = k * k + 2 * k + 1 := by
        rw [Nat.add_mul, Nat.mul_add]
        omega
      have hs := hlen s (List.mem_of_getElem? hget)
      rw [hcount] at hfiles
      rw [Option.toList_some, lastSaved_append_singleton, saveAll_append_singleton hprov s,
        List.length_append, hcount, List.length_singleton, hnext]
      have hgrown : ∀ prov', prov.saveChunk s.x s.z s.data = .ok prov' →
          ∀ r file, prov'.regions r = some file →
            file.length ≤ 8192 + 4096 * 255 * (k * k + 2 * k + 1) := by
        intro prov' hsave r file hr
        have hle := hstores.length_saveChunk (by omega) (by omega) hfiles hs hsave hr
        exact growth_le hle (by omega)
      obtain ⟨prov', hsave, hstores'⟩ := hstores.saveChunk
        (fun r file hr => by have := hfiles r file hr; omega) hs
        (fun prov' hsave r file hr => by have := hgrown prov' hsave r file hr; omega)
      exact ⟨prov', hsave, hstores', hgrown prov' hsave⟩

theorem saveAll_fits {saves : List Save} (hlen : ∀ s ∈ saves, s.data.length + 5 ≤ 255 * 4096)
    (hfew : saves.length ≤ 45) (k : Nat) (prov : AnvilWorldProvider)
    (h : saveAll empty (saves.take k) = .ok prov) (r : Int × Int) (file : Bytes)
    (hr : prov.regions r = some file) : file.length < 2 ^ 31 := by
  obtain ⟨prov', hprov, _, hfiles⟩ := saveAll_of_few hlen hfew k
  rw [h] at hprov
  injection hprov with hprov
  have hle := hfiles r file (hprov ▸ hr)
  have hcount : (saves.take k).length ≤ 45 := Nat.le_trans (List.length_take_le' _ _) hfew
  have hsquare := Nat.mul_le_mul hcount hcount
  omega

/--
After any saves every region file is well formed, and each chunk loads with the data of its last save.
-/
theorem saveAll_refines {saves : List Save} (hlen : ∀ s ∈ saves, s.data.length + 5 ≤ 255 * 4096)
    (hfit : ∀ k prov, saveAll empty (saves.take k) = .ok prov →
      ∀ r file, prov.regions r = some file → file.length < 2 ^ 31) (k : Nat)
    : ∃ prov, saveAll empty (saves.take k) = .ok prov
        ∧ (∀ r file, prov.regions r = some file → WellFormed file)
        ∧ ∀ x z, prov.loadChunk x z
          = .ok ((lastSaved (saves.take k) (x, z)).map (fun data => (.zlib, data))) := by
  obtain ⟨prov, hprov, hstores⟩ := stores_saveAll hlen hfit k
  refine ⟨prov, hprov, ?_, ?_⟩
  . intro r file hr
    exact (hstores.file r file hr).wellFormed
  . intro x z
    exact hstores.loadChunk (hfit k prov hprov) x z

/--
Two chunks that share a region file, the first of which then takes more sectors than lie in front of the
second.
-/
def sampleSaves : List Save :=
  [⟨-1, 40, [1, 2, 3]⟩, ⟨-2, 40, [4]⟩, ⟨-1, 40, List.replicate 5000 7⟩, ⟨-2, 40, [5, 6]⟩]

theorem length_sampleSaves : ∀ s ∈ sampleSaves, s.data.length + 5 ≤ 255 * 4096 := by
  unfold sampleSaves
  simp only [List.forall_mem_cons, List.length_replicate, List.length_cons, List.length_nil]
  decide

theorem saveAll_refines_four
    : ∃ prov, saveAll empty (sampleSaves.take 4) = .ok prov
        ∧ (∀ r file, prov.regions r = some file → WellFormed file)
        ∧ ∀ x z, prov.loadChunk x z
          = .ok ((lastSaved (sampleSaves.take 4) (x, z)).map (fun data => (.zlib, data))) :=
  saveAll_refines length_sampleSaves (saveAll_fits length_sampleSaves (by decide)) 4

end AnvilWorldProvider

end HCraft
