import HCraft.Util.Nbt.Lemmas.Compressed
import HCraft.World.Providers.Anvil.Load

/-!
This module contains which region files are safe to load a chunk from.
-/

namespace HCraft

/--
The result is a chunk, no chunk, or the error that is meant for it.
-/
def Reported {α : Type} : Except LoadError α → Prop
  | .ok _ => True
  | .error (.fault _) => False
  | .error .badArrayNewLength => False
  | .error (.worldLoadError _) => True

@[simp]
theorem reported_ok {α : Type} (a : α) : Reported (.ok a) ↔ True := Iff.rfl

@[simp]
theorem reported_fault {α : Type} (fault : Fault)
    : Reported (.error (.fault fault) : Except LoadError α) ↔ False := Iff.rfl

namespace ChunkNbt

open NbtTag

/--
The tag is there, with a byte array of `n` bytes or more.
-/
def HasBytes (n : Nat) (tags : List (Bytes × NbtTag Unit)) (name : String) : Prop :=
  ∃ data, get tags name = some (.byteArray data) ∧ n ≤ data.length

def ProperSection : NbtTag Unit → Prop
  | .compound sect =>
    (∃ y, get sect "Y" = some (.byte y) ∧ y.toNat < 16)
      ∧ HasBytes 4096 sect "Blocks"
      ∧ (get sect "Add" = none ∨ HasBytes 2048 sect "Add")
      ∧ HasBytes 2048 sect "Data"
      ∧ HasBytes 2048 sect "BlockLight"
      ∧ HasBytes 2048 sect "SkyLight"
  | _ => False

def ProperLevel (level : List (Bytes × NbtTag Unit)) : Prop :=
  (∃ x, get level "xPos" = some (.int x))
    ∧ (∃ z, get level "zPos" = some (.int z))
    ∧ (∃ biomes, get level "Biomes" = some (.byteArray biomes) ∧ biomes.length ≤ 256)
    ∧ (∃ hmap, get level "HeightMap" = some (.intArray hmap) ∧ hmap.length ≤ 256)
    ∧ ∃ type sects, get level "Sections" = some (.list type sects) ∧ ∀ s ∈ sects, ProperSection s

/--
A tree without a level is reported; a level has all its tags, of the right kinds and lengths.
-/
def Proper (root : List (Bytes × NbtTag Unit)) : Prop :=
  match get root "Level" with
  | none => True
  | some (.compound level) => ProperLevel level
  | some _ => False

theorem ok_bind {α β : Type} (a : α) (f : α → Except LoadError β) : (.ok a >>= f) = f a := rfl

section Binds

variable {β : Type} {p : Prop} {tags : List (Bytes × NbtTag Unit)} {name : String}

theorem reported_asByte {f : UInt8 → Except LoadError β} {P : UInt8 → Prop}
    (hf : ∀ y, Reported (f y) ↔ P y ∧ p)
    : Reported (asByte (get tags name) >>= f)
        ↔ (∃ y, get tags name = some (.byte y) ∧ P y) ∧ p := by
  cases hget : get tags name with
  | none => simp [asByte, bind, Except.bind]
  | some tag =>
    cases tag with
    | byte y =>
      simp only [asByte, bind, Except.bind, hf, Option.some.injEq, NbtTag.byte.injEq]
      constructor
      . rintro ⟨hP, hp⟩
        exact ⟨⟨y, rfl, hP⟩, hp⟩
      . rintro ⟨⟨_, rfl, hP⟩, hp⟩
        exact ⟨hP, hp⟩
    | _ => simp [asByte, bind, Except.bind]

theorem reported_asInt {f : UInt32 → Except LoadError β} (hf : ∀ n, Reported (f n) ↔ p)
    : Reported (asInt (get tags name) >>= f) ↔ (∃ n, get tags name = some (.int n)) ∧ p := by
  cases hget : get tags name with
  | none => simp [asInt, bind, Except.bind]
  | some tag =>
    cases tag with
    | int n => simp [asInt, bind, Except.bind, hf]
    | _ => simp [asInt, bind, Except.bind]

theorem reported_firstBytes {n : Nat} {f : (Fin n → UInt8) → Except LoadError β}
    (hf : ∀ bytes, Reported (f bytes) ↔ p)
    : Reported (asByteArray (get tags name) >>= fun data => firstBytes n data >>= f)
        ↔ HasBytes n tags name ∧ p := by
  unfold HasBytes
  cases hget : get tags name with
  | none => simp [asByteArray, firstBytes, deref, bind, Except.bind]
  | some tag =>
    cases tag with
    | byteArray data =>
      simp only [asByteArray, firstBytes, deref, bind, Except.bind]
      by_cases hn : n ≤ data.length
      . simp [hn, hf]
      . simp [hn]
    | _ => simp [asByteArray, bind, Except.bind]

theorem reported_add {γ : Type} {f : γ → Except LoadError β}
    {g : (Fin 2048 → UInt8) → Except LoadError γ} {h : Except LoadError γ}
    (hg : ∀ add, Reported (g add >>= f) ↔ p) (hh : Reported (h >>= f) ↔ p)
    : Reported (asByteArray (get tags "Add") >>= fun add =>
          (if add.isSome then firstBytes 2048 add >>= g else h) >>= f)
        ↔ (get tags "Add" = none ∨ HasBytes 2048 tags "Add") ∧ p := by
  unfold HasBytes
  cases hget : get tags "Add" with
  | none =>
    rw [asByteArray, ok_bind]
    simpa using hh
  | some tag =>
    cases tag with
    | byteArray data =>
      rw [asByteArray, ok_bind]
      by_cases hn : 2048 ≤ data.length
      . simp only [firstBytes, deref, ok_bind, Option.isSome_some, if_true, dif_pos hn, hg]
        simp [hn]
      . simp only [firstBytes, deref, ok_bind, Option.isSome_some, if_true, dif_neg hn]
        simp [bind, Except.bind, hn]
    | _ => simp [asByteArray, bind, Except.bind]

theorem reported_rest {γ : Type} {f : γ → Except LoadError β}
    {g : (Fin 2048 → UInt8) → (Fin 2048 → UInt8) → (Fin 2048 → UInt8) → Except LoadError γ}
    (hg : ∀ data bl sl, Reported (g data bl sl >>= f) ↔ p)
    : Reported ((do
          let data ← firstBytes 2048 (← asByteArray (get tags "Data"))
          let bl ← firstBytes 2048 (← asByteArray (get tags "BlockLight"))
          let sl ← firstBytes 2048 (← asByteArray (get tags "SkyLight"))
          g data bl sl) >>= f)
        ↔ HasBytes 2048 tags "Data" ∧ HasBytes 2048 tags "BlockLight"
          ∧ HasBytes 2048 tags "SkyLight" ∧ p := by
  simp only [bind_assoc]
  apply reported_firstBytes
  intro data
  apply reported_firstBytes
  intro bl
  apply reported_firstBytes
  intro sl
  exact hg data bl sl

theorem reported_copyTo {α γ : Type} {n : Nat} {arr : Fin n → γ} {g : α → γ} {data : List α}
    {f : (Fin n → γ) → Except LoadError β} (hf : ∀ arr, Reported (f arr) ↔ p)
    : Reported (copyTo arr g data >>= f) ↔ data.length ≤ n ∧ p := by
  unfold copyTo
  by_cases hn : data.length > n
  . rw [if_pos hn]
    simp [bind, Except.bind, Nat.not_le_of_lt hn]
  . rw [if_neg hn]
    simp [bind, Except.bind, hf, Nat.le_of_not_lt hn]

theorem reported_loadSection {ch : Chunk} {tag : NbtTag Unit} {f : Chunk → Except LoadError β}
    (hf : ∀ ch, Reported (f ch) ↔ p)
    : Reported (loadSection ch tag >>= f) ↔ ProperSection tag ∧ p := by
  cases tag with
  | compound sect =>
    unfold loadSection ProperSection
    rw [asCompound, ok_bind, deref, ok_bind, bind_assoc, and_assoc]
    apply reported_asByte (P := fun y => y.toNat < 16)
    intro y
    by_cases hy : y.toNat < 16
    . rw [dif_pos hy, and_iff_right hy]
      simp only [and_assoc]
      rw [bind_assoc]
      simp only [bind_assoc (firstBytes 4096 _)]
      apply reported_firstBytes
      intro blocks
      rw [bind_assoc]
      apply reported_add
      . intro add
        apply reported_rest
        intro data bl sl
        exact hf _
      . apply reported_rest
        intro data bl sl
        exact hf _
    . rw [dif_neg hy]
      simp [bind, Except.bind, hy]
  | _ => simp [loadSection, ProperSection, asCompound, bind, Except.bind]

theorem reported_byteArray {n : Nat} {γ : Type} {arr : Fin n → γ} {g : UInt8 → γ}
    {f : (Fin n → γ) → Except LoadError β} (hf : ∀ arr, Reported (f arr) ↔ p)
    : Reported (asByteArray (get tags name) >>= fun data =>
          deref data >>= fun data => copyTo arr g data >>= f)
        ↔ (∃ data, get tags name = some (.byteArray data) ∧ data.length ≤ n) ∧ p := by
  cases hget : get tags name with
  | none => simp [asByteArray, deref, bind, Except.bind]
  | some tag =>
    cases tag with
    | byteArray data =>
      rw [asByteArray, ok_bind, deref, ok_bind, reported_copyTo hf]
      simp
    | _ => simp [asByteArray, bind, Except.bind]

theorem reported_intArray {n : Nat} {γ : Type} {arr : Fin n → γ} {g : UInt32 → γ}
    {f : (Fin n → γ) → Except LoadError β} (hf : ∀ arr, Reported (f arr) ↔ p)
    : Reported (asIntArray (get tags name) >>= fun data =>
          deref data >>= fun data => copyTo arr g data >>= f)
        ↔ (∃ data, get tags name = some (.intArray data) ∧ data.length ≤ n) ∧ p := by
  cases hget : get tags name with
  | none => simp [asIntArray, deref, bind, Except.bind]
  | some tag =>
    cases tag with
    | intArray data =>
      rw [asIntArray, ok_bind, deref, ok_bind, reported_copyTo hf]
      simp
    | _ => simp [asIntArray, bind, Except.bind]

end Binds

theorem reported_sections (sects : List (NbtTag Unit)) (ch : Chunk)
    : Reported (sects.foldlM loadSection ch) ↔ ∀ s ∈ sects, ProperSection s := by
  induction sects generalizing ch with
  | nil =>
    rw [List.foldlM_nil]
    exact iff_of_true trivial (by simp)
  | cons s sects ih =>
    rw [List.foldlM_cons, reported_loadSection ih, List.forall_mem_cons]

theorem reported_list {tags : List (Bytes × NbtTag Unit)} {name : String} (ch : Chunk)
    : Reported (asList (get tags name) >>= fun sects =>
          deref sects >>= fun sects => sects.foldlM loadSection ch)
        ↔ ∃ type sects, get tags name = some (.list type sects) ∧ ∀ s ∈ sects, ProperSection s := by
  cases hget : get tags name with
  | none => simp [asList, deref, bind, Except.bind]
  | some tag =>
    cases tag with
    | list type sects =>
      rw [asList, ok_bind, deref, ok_bind, reported_sections]
      simp
    | _ => simp [asList, bind, Except.bind]

theorem reported_loadChunkFromNbt (root : List (Bytes × NbtTag Unit))
    : Reported (loadChunkFromNbt root) ↔ Proper root := by
  unfold loadChunkFromNbt Proper
  cases hget : get root "Level" with
  | none =>
    rw [asCompound, ok_bind]
    exact Iff.rfl
  | some tag =>
    cases tag with
    | compound level =>
      rw [asCompound, ok_bind]
      dsimp only
      unfold ProperLevel
      apply reported_asInt
      intro cx
      apply reported_asInt
      intro cz
      apply reported_byteArray
      intro biomes
      apply reported_intArray
      intro hmap
      exact reported_list _
    | _ => simp [asCompound, bind, Except.bind]

end ChunkNbt

namespace AnvilWorldProvider

open Bin Slice Inflater NbtReader ChunkNbt

/--
The NBT reader is safe on the data, and so is the tree inside.
-/
def StreamSafe (zl : Inflater) (decode : Bytes → Decoded) (data : Bytes) : Prop :=
  zl.init data = none ∨ (Readable (decode data)
    ∧ ((decode data).ending = .complete →
      ∀ name root, readRaw (decode data).out = .ok (name, root) → Proper root))

/--
The sectors of a chunk, as far as the file has them: their header is there, and if it names a
compression type, then the length in it is that of data that is there as well.
-/
def SectorsSafe (zl : Inflater) (decode : Bytes → Decoded) (data : Bytes) : Prop :=
  ∃ n compressionType, readIntBe data = some n ∧ data[4]? = some compressionType
    ∧ (compressionStrategy compressionType = none
      ∨ (0 ≤ wrap32 (n - 1) ∧ 5 + wrap32 (n - 1) ≤ data.length
        ∧ StreamSafe zl decode (slice data 5 (wrap32 (n - 1)).toNat)))

/--
The header has no place for the chunk, or one of at least one sector.
-/
def RegionSafe (zl : Inflater) (decode : Bytes → Decoded) (file : Bytes) (x z : Int) : Prop :=
  let loc := readLocation (slice file (cindex x z * 4) 3)
  loc = 0 ∨ ∃ size, file[cindex x z * 4 + 3]? = some size ∧ size ≠ 0
    ∧ 0 ≤ int32 (loc <<< 12)
    ∧ SectorsSafe zl decode (slice file (int32 (loc <<< 12)).toNat (size.toNat <<< 12))

section Stream

variable {zl : Inflater} {decode : Bytes → Decoded} {Of : Bytes → zl.State → Prop} {data : Bytes}

theorem reported_finishLoad {r : Except NbtError (Bytes × List (Bytes × NbtTag Unit))}
    : Reported (finishLoad r)
        ↔
      (∀ fault, r ≠ .error (.fault fault)) ∧ ∀ name root, r = .ok (name, root) → Proper root := by
  match r with
  | .error (.readError what) => exact iff_of_true trivial ⟨nofun, nofun⟩
  | .error (.fault fault) => exact iff_of_false not_false fun h => h.left fault rfl
  | .ok (name, root) =>
    have hmap : Reported (finishLoad (.ok (name, root))) ↔ Reported (loadChunkFromNbt root) := by
      unfold finishLoad
      dsimp only
      cases loadChunkFromNbt root with
      | ok ch => exact Iff.rfl
      | error err => cases err <;> exact Iff.rfl
    rw [hmap, reported_loadChunkFromNbt]
    constructor
    . intro hproper
      refine ⟨nofun, ?_⟩
      intro name' root' heq
      injection heq with heq
      injection heq with _ heq
      exact heq ▸ hproper
    . exact fun h => h.right name root rfl

theorem readInflated_of_lt {out : Bytes} (h : out.length < 2 ^ 31)
    : readInflated out = readRaw out := by
  have hnonneg : ¬ int32 out.length < 0 :=
    fun hneg => (int32_neg_iff (Nat.le_of_lt h)).mp hneg h
  unfold readInflated
  dsimp only
  rw [if_neg hnonneg]

theorem streamSafe_iff (hz : zl.Documented decode Of) (data : Bytes)
    {st : NbtCompressionStrategy} (hst : st ≠ .raw)
    : (∃ fuel r, (NbtReader.read zl fuel data st).map finishLoad = some r ∧ Reported r)
        ↔ StreamSafe zl decode data := by
  have hread (fuel : Nat) : NbtReader.read zl fuel data st = readCompressed zl fuel data := by
    cases st with
    | raw => exact absurd rfl hst
    | gzip => rfl
    | zlib => rfl
  simp only [hread]
  unfold StreamSafe
  cases hs : zl.init data with
  | none =>
    simp only [true_or, iff_true]
    refine ⟨0, finishLoad (.error (.readError "zlib decompresion failed (inflateInit)")), ?_, ?_⟩
    . unfold readCompressed
      rw [hs]
      rfl
    . exact trivial
  | some s =>
    simp only [reduceCtorEq, false_or]
    by_cases hreaches : Reaches (decode data)
    . obtain ⟨fuel, hfuel⟩ := readCompressed_of_reaches hz hs hreaches
      have hresult : (∃ fuel r, (readCompressed zl fuel data).map finishLoad = some r ∧ Reported r)
          ↔ Reported (finishLoad (if (decode data).ending = .complete then
              readInflated (decode data).out
            else
              .error (.readError "zlib decompresion failed (inflate)"))) := by
        constructor
        . rintro ⟨fuel', r, hr, hreported⟩
          obtain ⟨r', hr', heq⟩ := Option.map_eq_some_iff.mp hr
          rw [← readCompressed_unique hr' hfuel, heq]
          exact hreported
        . intro hreported
          refine ⟨fuel, _, ?_, hreported⟩
          rw [hfuel]
          rfl
      rw [hresult, reported_finishLoad]
      unfold Readable
      cases hending : (decode data).ending with
      | complete =>
        simp only [if_true, forall_const]
        rw [readInflated_ne_fault_iff hreaches.right]
        constructor
        . rintro ⟨hok, hproper⟩
          refine ⟨hok, ?_⟩
          rw [readInflated_of_lt hok.left] at hproper
          exact hproper
        . rintro ⟨hok, hproper⟩
          refine ⟨hok, ?_⟩
          rw [readInflated_of_lt hok.left]
          exact hproper
      | truncated => exact absurd hending hreaches.left
      | corrupt =>
        simp only [reduceCtorEq, if_false]
        exact ⟨fun _ => ⟨hreaches.right, nofun⟩, fun _ => ⟨nofun, nofun⟩⟩
    . constructor
      . rintro ⟨fuel, r, hr, _⟩
        rw [readCompressed_eq_none hz hs hreaches] at hr
        cases hr
      . rintro ⟨hreadable, _⟩
        exact absurd (reaches_of_readable hreadable) hreaches

end Stream

section Region

variable {zl : Inflater} {decode : Bytes → Decoded} {Of : Bytes → zl.State → Prop}

/--
How `load_chunk` ends, once it has looked for the data of the chunk.
-/
def finishRead (zl : Inflater) (fuel : Nat)
    (r : Except LoadError (Option (NbtCompressionStrategy × Bytes)))
    : Option (Except LoadError (Option Chunk)) :=
  match r with
  | .error err => some (.error err)
  | .ok none => some (.ok none)
  | .ok (some (st, data)) => (NbtReader.read zl fuel data st).map finishLoad

def ReadSafe (zl : Inflater) (r : Except LoadError (Option (NbtCompressionStrategy × Bytes))) : Prop :=
  ∃ fuel r', finishRead zl fuel r = some r' ∧ Reported r'

theorem readSafe_error (err : LoadError)
    : ReadSafe zl (.error err) ↔ Reported (.error err : Except LoadError (Option Chunk)) := by
  constructor
  . rintro ⟨fuel, r', hr', hreported⟩
    injection hr' with hr'
    exact hr' ▸ hreported
  . exact fun hreported => ⟨0, _, rfl, hreported⟩

theorem readSafe_none : ReadSafe zl (.ok none) :=
  ⟨0, _, rfl, trivial⟩

theorem compressionStrategy_ne_raw {compressionType : UInt8} {st : NbtCompressionStrategy}
    (h : compressionStrategy compressionType = some st) : st ≠ .raw := by
  unfold compressionStrategy at h
  split at h
  . injection h with h
    simp [← h]
  . split at h
    . injection h with h
      simp [← h]
    . cases h

theorem readSafe_chunkData (hz : zl.Documented decode Of) {data : Bytes} {len : Nat}
    (hlen : data.length ≤ len)
    : ReadSafe zl ((chunkData data len).map some) ↔ SectorsSafe zl decode data := by
  unfold chunkData SectorsSafe
  by_cases hshort : len < 5
  . rw [if_pos hshort]
    have hnone : data[4]? = none := List.getElem?_eq_none (by omega)
    simp [Except.map, readSafe_error, hnone]
  . rw [if_neg hshort]
    cases hn : readIntBe data with
    | none => simp [Except.map, readSafe_error]
    | some n =>
      cases htype : data[4]? with
      | none => simp [Except.map, readSafe_error]
      | some compressionType =>
        simp only [Option.some.injEq, exists_and_left, exists_eq_left']
        cases hst : compressionStrategy compressionType with
        | none => exact iff_of_true ((readSafe_error _).mpr trivial) (.inl rfl)
        | some st =>
          simp only [reduceCtorEq, false_or]
          by_cases hout : wrap32 (n - 1) < 0 ∨ 5 + wrap32 (n - 1) > len
          . rw [if_pos hout]
            apply iff_of_false
            . exact fun h => (readSafe_error _).mp h
            . omega
          . rw [if_neg hout]
            by_cases hcut : 5 + wrap32 (n - 1) > data.length
            . rw [if_pos hcut]
              apply iff_of_false
              . exact fun h => (readSafe_error _).mp h
              . omega
            . rw [if_neg hcut]
              have hstream := streamSafe_iff hz (slice data 5 (wrap32 (n - 1)).toNat)
                (compressionStrategy_ne_raw hst)
              rw [← hstream]
              constructor
              . exact fun h => ⟨by omega, by omega, h⟩
              . exact fun h => h.right.right

theorem read_entry (file : Bytes) (pos : Nat)
    : (((FStream.ofFile file).seek (pos : Nat)).read 3).fst = slice file pos 3 := by
  unfold FStream.ofFile
  rw [FStream.seek_good]
  rfl

theorem get_entry {file : Bytes} {pos : Nat} {size : UInt8} (h : file[pos + 3]? = some size)
    : (((FStream.ofFile file).seek (pos : Nat)).read 3).snd.get
        = ((size.toNat : Int), .mk file (pos + 4) false) := by
  obtain ⟨hlt, heq⟩ := List.getElem?_eq_some_iff.mp h
  unfold FStream.ofFile
  rw [FStream.seek_good, FStream.read_good (by omega), FStream.get_good hlt,
    List.getD_eq_getElem _ _ hlt, heq]

theorem get_entry_none {file : Bytes} {pos : Nat} (h : file[pos + 3]? = none)
    : (((FStream.ofFile file).seek (pos : Nat)).read 3).snd.get.fst = -1 := by
  have hle := List.getElem?_eq_none_iff.mp h
  unfold FStream.ofFile
  rw [FStream.seek_good]
  unfold FStream.read
  simp only [Bool.false_eq_true, if_false]
  by_cases hfail : (slice file pos 3).length < 3
  . rw [decide_eq_true hfail]
    rfl
  . rw [decide_eq_false hfail]
    have hnil : slice file (pos + (slice file pos 3).length) 1 = [] := by
      apply List.eq_nil_of_length_eq_zero
      rw [length_slice]
      omega
    unfold FStream.get FStream.read
    simp only [Bool.false_eq_true, if_false]
    rw [hnil]

theorem readSafe_loadFromRegion (hz : zl.Documented decode Of) (file : Bytes) (x z : Int)
    : ReadSafe zl (loadFromRegion (.ofFile file) x z) ↔ RegionSafe zl decode file x z := by
  unfold loadFromRegion RegionSafe
  dsimp only
  rw [read_entry]
  by_cases hloc : readLocation (slice file (cindex x z * 4) 3) = 0
  . rw [if_pos hloc]
    exact iff_of_true readSafe_none (.inl hloc)
  . rw [if_neg hloc]
    simp only [hloc, false_or]
    cases hsize : file[cindex x z * 4 + 3]? with
    | none =>
      rw [get_entry_none hsize, if_pos (by decide)]
      simp [readSafe_error, Reported]
    | some size =>
      rw [get_entry hsize]
      dsimp only
      rw [if_neg (by omega)]
      simp only [Option.some.injEq, exists_eq_left', Int.toNat_natCast]
      generalize int32 (readLocation (slice file (cindex x z * 4) 3) <<< 12) = pos
      by_cases hneg : pos < 0
      . have hread : ((FStream.mk file (cindex x z * 4 + 4) false).seek pos).read
            (size.toNat <<< 12) = ([], .mk file (cindex x z * 4 + 4) true) := by
          simp [FStream.seek, FStream.read, hneg]
        rw [hread, readSafe_chunkData hz (Nat.zero_le _)]
        apply iff_of_false
        . rintro ⟨n, compressionType, hn, _⟩
          cases hn
        . omega
      . have hread : (((FStream.mk file (cindex x z * 4 + 4) false).seek pos).read
            (size.toNat <<< 12)).fst = slice file pos.toNat (size.toNat <<< 12) := by
          simp [FStream.seek, FStream.read, hneg]
        rw [hread, readSafe_chunkData hz (by rw [length_slice]; exact Nat.min_le_left ..)]
        constructor
        . intro hsafe
          refine ⟨?_, by omega, hsafe⟩
          rintro rfl
          obtain ⟨n, _, hn, _⟩ := hsafe
          cases hn
        . exact fun h => h.right.right

/--
Loading a chunk is reported, whatever the region files are, just in case the one that has the chunk
is safe.
-/
theorem loadFromDisk_reported_iff (hz : zl.Documented decode Of) (prov : AnvilWorldProvider)
    (x z : Int)
    : (∃ fuel r, loadFromDisk zl fuel prov x z = some r ∧ Reported r)
        ↔
      ∀ file, prov.regions (x >>> (5 : Nat), z >>> (5 : Nat)) = some file →
        RegionSafe zl decode file x z := by
  have hfinish (fuel : Nat) : loadFromDisk zl fuel prov x z = finishRead zl fuel (prov.loadChunk x z) :=
    rfl
  simp only [hfinish]
  unfold loadChunk
  cases prov.regions (x >>> (5 : Nat), z >>> (5 : Nat)) with
  | none => exact iff_of_true readSafe_none nofun
  | some file =>
    simp only [Option.some.injEq, forall_eq']
    exact readSafe_loadFromRegion hz file x z

end Region

/--
An empty compound with a checksum that is not its own.
-/
def damagedCompound : Bytes :=
  [120, 156, 227, 98, 96, 96, 0, 0, 0, 44, 0, 12]

/--
What zlib makes of it.
-/
def decodeDamaged (data : Bytes) : Decoded :=
  if data = damagedCompound then ⟨[10, 0, 0, 0], .corrupt⟩ else decodeEmptyCompound data

/--
It is stored as the first chunk of a region.
-/
def damagedRegion : Bytes :=
  [0, 0, 2, 1] ++ createEmptyRegion.drop 4 ++ [0, 0, 0, 13, 2] ++ damagedCompound
    ++ List.replicate 4079 0

theorem loadFromDisk_reported_iff_damaged
    : (∃ fuel r,
        loadFromDisk (ofDecode decodeDamaged) fuel ⟨fun _ => some damagedRegion⟩ 0 0 = some r
          ∧ Reported r)
        ↔
      ∀ file, (⟨fun _ => some damagedRegion⟩ : AnvilWorldProvider).regions
          ((0 : Int) >>> (5 : Nat), (0 : Int) >>> (5 : Nat)) = some file →
        RegionSafe (ofDecode decodeDamaged) decodeDamaged file 0 0 :=
  loadFromDisk_reported_iff (documented_ofDecode _) _ 0 0

set_option maxRecDepth 20000 in
example : loadFromDisk (ofDecode decodeDamaged) 2 ⟨fun _ => some damagedRegion⟩ 0 0
    = some (.error (.worldLoadError "corrupt NBT (zlib decompresion failed (inflate))")) := by
  rfl

/--
The header has a place of no sectors for the chunk.
-/
theorem not_loadFromDisk_reported
    : ¬ ∀ (zl : Inflater) (decode : Bytes → Decoded) (Of : Bytes → zl.State → Prop),
        zl.Documented decode Of →
          ∀ (prov : AnvilWorldProvider) (x z : Int),
            ∃ fuel r, loadFromDisk zl fuel prov x z = some r ∧ Reported r := by
  intro h
  obtain ⟨fuel, r, hr, hreported⟩ :=
    h _ _ _ (documented_ofDecode decodeEmptyCompound) ⟨fun _ => some [0, 0, 1, 0]⟩ 0 0
  have hload : (⟨fun _ => some [0, 0, 1, 0]⟩ : AnvilWorldProvider).loadChunk 0 0
      = .error (.fault .readOutside) := rfl
  rw [loadFromDisk, hload] at hr
  injection hr with hr
  rw [← hr] at hreported
  exact hreported

end AnvilWorldProvider

end HCraft
