import HCraft.Lib.Samples
import HCraft.Util.Nbt.Lemmas.RoundTrip
import HCraft.World.Chunk.Lemmas.Height
import HCraft.World.Providers.Anvil.Lemmas.Types

/-!
This module contains what becomes of a chunk that is saved and loaded.
-/

namespace HCraft

namespace ChunkNbt

open Chunk NbtTag

theorem firstBytes_ofFn {n : Nat} (f : Fin n → UInt8)
    : firstBytes n (some (List.ofFn f)) = .ok f := by
  unfold firstBytes deref
  dsimp only [bind, Except.bind]
  rw [dif_pos (Nat.le_of_eq List.length_ofFn.symm)]
  congr 1
  funext i
  exact List.getElem_ofFn _

theorem copyTo_ofFn {α β : Type} {n : Nat} (arr : Fin n → β) (f : α → β) (g : Fin n → α)
    : copyTo arr f (List.ofFn g) = .ok (fun i => f (g i)) := by
  unfold copyTo
  rw [if_neg (by rw [List.length_ofFn]; omega)]
  congr 1
  funext i
  rw [List.getElem?_ofFn, dif_pos i.isLt]
  rfl

/--
A section brings its sub-chunk back. Instantiating it has put a stone block in the first column.
-/
def addSection (ch : Chunk) (i : Fin 16) (sub : SubChunk) : Chunk :=
  (ch.setId 0 ⟨i.val * 16, by omega⟩ 0 1).setSub i sub

theorem get_makeSection (i : Fin 16) (sub : SubChunk)
    : ∃ sect, asCompound (some (makeSection i sub).erase) = .ok (some sect)
        ∧ asByte (get sect "Y") = .ok (UInt8.ofNat i.val)
        ∧ asByteArray (get sect "Blocks") = .ok (some (makeBlocks sub.types))
        ∧ asByteArray (get sect "Add") = .ok (some (makeAdd sub.types))
        ∧ asByteArray (get sect "Data") = .ok (some (makeData sub.types))
        ∧ asByteArray (get sect "BlockLight") = .ok (some (List.ofFn sub.bl))
        ∧ asByteArray (get sect "SkyLight") = .ok (some (List.ofFn sub.sl)) :=
  ⟨_, rfl, rfl, rfl, rfl, rfl, rfl, rfl⟩

theorem loadSection_makeSection (ch : Chunk) (i : Fin 16) (sub : SubChunk)
    : loadSection ch (makeSection i sub).erase = .ok (addSection ch i sub) := by
  obtain ⟨sect, hsect, hy, hblocks, hadd, hdata, hbl, hsl⟩ := get_makeSection i sub
  have hi : (UInt8.ofNat i.val).toNat = i.val := by
    rw [UInt8.toNat_ofNat']
    omega
  generalize UInt8.ofNat i.val = y at hy hi
  have hblocks' := @firstBytes_ofFn 4096 (fun i => ((sub.types i >>> 4) &&& (0xFF : UInt16)).toUInt8)
  have hadd' := @firstBytes_ofFn 2048 (fun i =>
    ((sub.types (even i) >>> 12) &&& (15 : UInt16)).toUInt8
      ||| (((sub.types (odd i) >>> 12) &&& (15 : UInt16)) <<< 4).toUInt8)
  have hdata' := @firstBytes_ofFn 2048 (fun i => (sub.types (even i) &&& (15 : UInt16)).toUInt8
      ||| ((sub.types (odd i) &&& (15 : UInt16)) <<< 4).toUInt8)
  unfold loadSection
  rw [hsect]
  dsimp only [bind, Except.bind, deref]
  rw [hy]
  dsimp only
  rw [dif_pos (by omega), hblocks]
  dsimp only
  rw [makeBlocks, hblocks', hadd]
  dsimp only
  rw [Option.isSome_some, if_pos rfl, makeAdd, makeNibbles, hadd']
  dsimp only
  rw [hdata]
  dsimp only
  rw [makeData, makeNibbles, hdata']
  dsimp only
  rw [hbl]
  dsimp only
  rw [firstBytes_ofFn, hsl]
  dsimp only
  rw [firstBytes_ofFn]
  dsimp only
  have htypes := fun types' => @load_makeTypes sub.types types' _ _ _ (fun _ => rfl) (fun _ => rfl)
    (fun _ => rfl)
  rw [htypes]
  rcases i with ⟨n, hn⟩
  dsimp only at hi
  subst hi
  rfl

section AddSection

variable {ch : Chunk} {i : Fin 16} {sub : SubChunk}

theorem updateHeight_eq (ch : Chunk) (x z : Fin 16) (y : Fin 256) (id : UInt16)
    : ∃ hmap, ch.updateHeight x y z id = { ch with hmap } := by
  unfold updateHeight recalcHeightAt setHeight
  split
  . split
    . exact ⟨_, rfl⟩
    . exact ⟨_, rfl⟩
  . split
    . exact ⟨_, rfl⟩
    . exact ⟨_, rfl⟩

theorem addSection_eq
    : ∃ hmap, addSection ch i sub
        = { ch with subs := Function.update ch.subs i (some sub), hmap } := by
  have hi : subIndex ⟨i.val * 16, by omega⟩ = i := by
    apply Fin.ext
    unfold subIndex
    dsimp only
    rw [Nat.shiftRight_eq_div_pow]
    omega
  unfold addSection setId
  obtain ⟨hmap, heq⟩ := updateHeight_eq
    (ch.setType 0 ⟨i.val * 16, by omega⟩ 0 (fun t => (t &&& (0x000F : UInt16)) ||| (1 : UInt16) <<< 4))
    0 0 ⟨i.val * 16, by omega⟩ 1
  refine ⟨hmap, ?_⟩
  rw [heq]
  unfold setType setSub
  dsimp only
  rw [hi, Function.update_idem]

theorem getHeight_addSection {x z : Fin 16}
    : (addSection ch i sub).getHeight x z
        =
      if (x = 0 ∧ z = 0) ∧ ch.getHeight 0 0 ≤ (i.val * 16 : Nat) then
        ((i.val * 16 : Nat) : Int) + 1
      else
        ch.getHeight x z := by
  unfold addSection setId updateHeight
  rw [getHeight_setSub, if_pos BlockInfo.blocksSky_one]
  have hheight : ∀ f, (ch.setType 0 ⟨i.val * 16, by omega⟩ 0 f).getHeight 0 0 = ch.getHeight 0 0 :=
    fun _ => rfl
  rw [hheight]
  split
  . next hle =>
    rw [getHeight_setHeight]
    by_cases hzero : x = 0 ∧ z = 0
    . rw [if_pos hzero, if_pos ⟨hzero, hle⟩]
    . rw [if_neg hzero, if_neg (fun h => hzero h.left)]
      rfl
  . next hlt =>
    rw [if_neg (fun h => hlt h.right)]
    rfl

end AddSection

/--
The sections of `ch`, in the order in which they are saved, added to another chunk.
-/
def addSections (ch : Chunk) (is : List (Fin 16)) (old : Chunk) : Chunk :=
  is.foldl
    (fun old i =>
      match ch.subs i with
      | none => old
      | some sub => addSection old i sub)
    old

section AddSections

variable {ch old : Chunk} {is : List (Fin 16)}

theorem foldlM_loadSection
    : (eraseVals (is.filterMap (fun i => (ch.subs i).map (makeSection i)))).foldlM loadSection old
        =
      .ok (addSections ch is old) := by
  induction is generalizing old with
  | nil => rfl
  | cons i is ih =>
    cases hsub : ch.subs i with
    | none =>
      rw [List.filterMap_cons_none (by rw [hsub]; rfl), ih]
      unfold addSections
      rw [List.foldl_cons, hsub]
    | some sub =>
      rw [List.filterMap_cons_some (b := makeSection i sub) (by rw [hsub]; rfl), eraseVals,
        List.foldlM_cons, loadSection_makeSection]
      dsimp only [bind, Except.bind]
      rw [ih]
      unfold addSections
      rw [List.foldl_cons, hsub]

theorem addSections_eq
    : ∃ hmap, addSections ch is old
        = { old with
          subs := fun i => if i ∈ is ∧ (ch.subs i).isSome then ch.subs i else old.subs i
          hmap } := by
  induction is generalizing old with
  | nil => exact ⟨old.hmap, by simp [addSections]⟩
  | cons i is ih =>
    unfold addSections
    rw [List.foldl_cons]
    cases hsub : ch.subs i with
    | none =>
      obtain ⟨hmap, heq⟩ := @ih old
      refine ⟨hmap, ?_⟩
      dsimp only
      rw [← addSections, heq]
      congr 1
      funext j
      by_cases hj : j = i
      . simp [hj, hsub]
      . simp [hj]
    | some sub =>
      obtain ⟨hmap, heq⟩ := @ih (addSection old i sub)
      obtain ⟨hmap', heq'⟩ := @addSection_eq old i sub
      refine ⟨hmap, ?_⟩
      dsimp only
      rw [← addSections, heq, heq']
      congr 1
      funext j
      by_cases hj : j = i
      . simp [hj, hsub]
      . simp [hj]

theorem pos_addSections : (addSections ch is old).pos = old.pos := by
  obtain ⟨hmap, heq⟩ := @addSections_eq ch old is
  rw [heq]

theorem biomes_addSections : (addSections ch is old).biomes = old.biomes := by
  obtain ⟨hmap, heq⟩ := @addSections_eq ch old is
  rw [heq]

theorem subs_addSections (i : Fin 16)
    : (addSections ch is old).subs i
        =
      if i ∈ is ∧ (ch.subs i).isSome then ch.subs i else old.subs i := by
  obtain ⟨hmap, heq⟩ := @addSections_eq ch old is
  rw [heq]

theorem getHeight_addSections {x z : Fin 16} (h : ¬ (x = 0 ∧ z = 0))
    : (addSections ch is old).getHeight x z = old.getHeight x z := by
  unfold addSections
  induction is generalizing old with
  | nil => rfl
  | cons i is ih =>
    rw [List.foldl_cons, ih]
    cases ch.subs i with
    | none => rfl
    | some sub =>
      dsimp only
      rw [getHeight_addSection, if_neg (fun h' => h h'.left)]

theorem getHeight_addSections_zero
    : old.getHeight 0 0 ≤ (addSections ch is old).getHeight 0 0
        ∧ ((addSections ch is old).getHeight 0 0 = old.getHeight 0 0
            ↔ ∀ i ∈ is, (ch.subs i).isSome → (i.val * 16 : Nat) < old.getHeight 0 0) := by
  unfold addSections
  induction is generalizing old with
  | nil => simp
  | cons i is ih =>
    rw [List.foldl_cons]
    cases hsub : ch.subs i with
    | none =>
      obtain ⟨hle, hiff⟩ := @ih old
      refine ⟨hle, ?_⟩
      dsimp only
      rw [hiff]
      simp [hsub]
    | some sub =>
      obtain ⟨hle, hiff⟩ := @ih (addSection old i sub)
      dsimp only
      rw [getHeight_addSection] at hle hiff
      by_cases hlow : old.getHeight 0 0 ≤ (i.val * 16 : Nat)
      . rw [if_pos ⟨⟨rfl, rfl⟩, hlow⟩] at hle
        refine ⟨by omega, ?_⟩
        constructor
        . omega
        . intro h
          have := h i (by simp) (by simp [hsub])
          omega
      . rw [if_neg (fun h => hlow h.right)] at hle hiff
        refine ⟨hle, ?_⟩
        rw [hiff]
        simp only [List.mem_cons, forall_eq_or_imp, hsub, Option.isSome_some, forall_const]
        constructor
        . intro h
          exact ⟨by omega, h⟩
        . intro h
          exact h.right

end AddSections

theorem int32_unsigned32 {n : Int} (hlo : -2 ^ 31 ≤ n) (hhi : n < 2 ^ 31)
    : Bin.int32 (UInt32.ofNat (Bin.unsigned32 n)).toNat = n := by
  have hlt : Bin.unsigned32 n < 2 ^ 32 := by
    unfold Bin.unsigned32
    omega
  rw [UInt32.toNat_ofNat', Nat.mod_eq_of_lt hlt]
  unfold Bin.int32 Bin.wrap32 Bin.unsigned32
  omega

/--
What the arrays and numbers of a level are read as.
-/
def loadHead (ch : Chunk) : Chunk :=
  { pos := ⟨Bin.int32 (UInt32.ofNat (Bin.unsigned32 ch.pos.x)).toNat,
      Bin.int32 (UInt32.ofNat (Bin.unsigned32 ch.pos.z)).toNat⟩
    subs := fun _ => none
    biomes := ch.biomes
    hmap := fun i => Bin.int32 (UInt32.ofNat (Bin.unsigned32 (ch.hmap i))).toNat }

section LoadHead

variable {ch : Chunk}

theorem pos_loadHead (hx : -2 ^ 31 ≤ ch.pos.x ∧ ch.pos.x < 2 ^ 31)
    (hz : -2 ^ 31 ≤ ch.pos.z ∧ ch.pos.z < 2 ^ 31)
    : (loadHead ch).pos = ch.pos := by
  unfold loadHead
  dsimp only
  rw [int32_unsigned32 hx.left hx.right, int32_unsigned32 hz.left hz.right]

theorem biomes_mk (pos : ChunkPos) (subs : Fin 16 → Option SubChunk) (biomes : Fin 256 → UInt8)
    (hmap : Fin 256 → Int) : (Chunk.mk pos subs biomes hmap).biomes = biomes := rfl

theorem biomes_loadHead : (loadHead ch).biomes = ch.biomes := by
  -- `rfl` would compare the chunks first, and with them the numbers
  rw [loadHead, biomes_mk]

theorem subs_loadHead (i : Fin 16) : (loadHead ch).subs i = none := by
  unfold loadHead
  dsimp only

theorem getHeight_loadHead {x z : Fin 16}
    (h : -2 ^ 31 ≤ ch.getHeight x z ∧ ch.getHeight x z < 2 ^ 31)
    : (loadHead ch).getHeight x z = ch.getHeight x z := by
  unfold loadHead getHeight
  dsimp only
  exact int32_unsigned32 h.left h.right

end LoadHead

theorem get_makeLevel (ch : Chunk)
    : ∃ level, asCompound (NbtTag.get (eraseTags [(ascii "Level", makeLevel ch)]) "Level")
          = .ok (some level)
        ∧ asInt (NbtTag.get level "xPos") = .ok (UInt32.ofNat (Bin.unsigned32 ch.pos.x))
        ∧ asInt (NbtTag.get level "zPos") = .ok (UInt32.ofNat (Bin.unsigned32 ch.pos.z))
        ∧ asByteArray (NbtTag.get level "Biomes") = .ok (some (List.ofFn ch.biomes))
        ∧ asIntArray (NbtTag.get level "HeightMap")
          = .ok (some (List.ofFn (fun i => UInt32.ofNat (Bin.unsigned32 (ch.hmap i)))))
        ∧ asList (NbtTag.get level "Sections") = .ok (some (eraseVals (makeSections ch))) :=
  ⟨_, rfl, rfl, rfl, rfl, rfl, rfl⟩

theorem loadChunkFromNbt_makeLevel (ch : Chunk)
    : loadChunkFromNbt (eraseTags [(ascii "Level", makeLevel ch)])
        =
      .ok (addSections ch (List.finRange 16) (loadHead ch)) := by
  obtain ⟨level, hlevel, hx, hz, hbiomes, hhmap, hsects⟩ := get_makeLevel ch
  unfold loadHead
  generalize UInt32.ofNat (Bin.unsigned32 ch.pos.x) = cx at hx ⊢
  generalize UInt32.ofNat (Bin.unsigned32 ch.pos.z) = cz at hz ⊢
  unfold loadChunkFromNbt
  rw [hlevel]
  dsimp only [bind, Except.bind]
  rw [hx]
  dsimp only
  rw [hz]
  dsimp only
  rw [hbiomes]
  dsimp only [deref]
  rw [copyTo_ofFn, hhmap]
  dsimp only
  rw [copyTo_ofFn, hsects]
  dsimp only
  unfold makeSections
  rw [foldlM_loadSection]
  rfl

section Size

variable {ch : Chunk}

theorem length_payload_makeSection (i : Fin 16) (sub : SubChunk)
    : (makeSection i sub).payload.length = 12360 := by
  have hy : (ascii "Y").length = 1 := by decide
  have hblocks : (ascii "Blocks").length = 6 := by decide
  have hadd : (ascii "Add").length = 3 := by decide
  have hdata : (ascii "Data").length = 4 := by decide
  have hbl : (ascii "BlockLight").length = 10 := by decide
  have hsl : (ascii "SkyLight").length = 8 := by decide
  simp only [makeSection, payload, payloadTags, header, List.length_append, List.length_cons,
    List.length_nil, Bin.length_writeShortBe, Bin.length_writeIntBe, length_makeBlocks, makeAdd,
    makeData, length_makeNibbles, List.length_ofFn, hy, hblocks, hadd, hdata, hbl, hsl]

theorem payloadVals_le {ts : List (NbtTag UInt8)} {n : Nat}
    (h : ∀ t ∈ ts, t.payload.length ≤ n)
    : (payloadVals ts).length ≤ ts.length * n := by
  induction ts with
  | nil => simp [payloadVals]
  | cons t ts ih =>
    have ht := h t (by simp)
    have hts := ih (fun t h' => h t (by simp [h']))
    rw [payloadVals, List.length_append, List.length_cons, Nat.add_mul, Nat.one_mul]
    omega

theorem of_mem_makeSections {t : NbtTag UInt8} (h : t ∈ makeSections ch)
    : ∃ i sub, t = makeSection i sub := by
  unfold makeSections at h
  rw [List.mem_filterMap] at h
  obtain ⟨i, _, hi⟩ := h
  rw [Option.map_eq_some_iff] at hi
  obtain ⟨sub, _, heq⟩ := hi
  exact ⟨i, sub, heq.symm⟩

theorem length_makeSections : (makeSections ch).length ≤ 16 := by
  have h := List.length_filterMap_le (fun i => (ch.subs i).map (makeSection i)) (List.finRange 16)
  rw [List.length_finRange] at h
  exact h

theorem validVals_of_forall {ts : List (NbtTag UInt8)} (h : ∀ t ∈ ts, t.Valid) : ValidVals ts := by
  induction ts with
  | nil => trivial
  | cons t ts ih => exact ⟨h t (by simp), ih (fun t h' => h t (by simp [h']))⟩

theorem valid_makeSection (i : Fin 16) (sub : SubChunk) : (makeSection i sub).Valid :=
  have hnames : [ascii "Y", ascii "Blocks", ascii "Add", ascii "Data", ascii "BlockLight",
      ascii "SkyLight"].Nodup := by decide
  ⟨hnames, ⟨by decide, by decide⟩, trivial, ⟨by decide, by decide⟩, trivial,
    ⟨by decide, by decide⟩, trivial, ⟨by decide, by decide⟩, trivial, ⟨by decide, by decide⟩,
    trivial, ⟨by decide, by decide⟩, trivial, trivial⟩

theorem valid_makeLevel : (NbtTag.compound [(ascii "Level", makeLevel ch)]).Valid := by
  have hsects : (NbtTag.list 10 (makeSections ch)).Valid := by
    constructor
    . intro t ht
      obtain ⟨i, sub, ht⟩ := of_mem_makeSections ht
      rw [ht]
      rfl
    . apply validVals_of_forall
      intro t ht
      obtain ⟨i, sub, ht⟩ := of_mem_makeSections ht
      rw [ht]
      exact valid_makeSection i sub
  have hnames : [ascii "xPos", ascii "zPos", ascii "Biomes", ascii "HeightMap",
      ascii "Sections"].Nodup := by decide
  have hlevel : (makeLevel ch).Valid :=
    ⟨hnames, ⟨by decide, by decide⟩, trivial, ⟨by decide, by decide⟩, trivial,
      ⟨by decide, by decide⟩, trivial, ⟨by decide, by decide⟩, trivial, ⟨by decide, by decide⟩,
      hsects, trivial⟩
  exact ⟨List.nodup_singleton _, ⟨by decide, by decide⟩, hlevel, trivial⟩

/--
The NBT that is compressed.
-/
def nbtOf (ch : Chunk) : Bytes :=
  NbtTag.header 10 (ascii "") ++ (NbtTag.compound [(ascii "Level", makeLevel ch)]).payload

theorem length_nbtOf (ch : Chunk)
    : (nbtOf ch).length = 1360 + (payloadVals (makeSections ch)).length := by
  have hroot : (ascii "").length = 0 := by decide
  have hlevel : (ascii "Level").length = 5 := by decide
  have hx : (ascii "xPos").length = 4 := by decide
  have hz : (ascii "zPos").length = 4 := by decide
  have hbiomes : (ascii "Biomes").length = 6 := by decide
  have hhmap : (ascii "HeightMap").length = 9 := by decide
  have hsects : (ascii "Sections").length = 8 := by decide
  simp only [nbtOf, makeLevel, payload, payloadTags, header, List.length_append, List.length_cons,
    List.length_nil, Bin.length_writeShortBe, Bin.length_writeIntBe, length_putAll,
    List.length_ofFn, hroot, hlevel, hx, hz, hbiomes, hhmap, hsects]
  omega

theorem length_payload_makeLevel_lt
    : (header 10 (ascii "") ++ (NbtTag.compound [(ascii "Level", makeLevel ch)]).payload).length
        < 200000 := by
  have hvals : (payloadVals (makeSections ch)).length ≤ 16 * 12360 := by
    have h := @payloadVals_le (makeSections ch) 12360 (by
      intro t ht
      obtain ⟨i, sub, ht⟩ := of_mem_makeSections ht
      exact ht ▸ Nat.le_of_eq (length_payload_makeSection i sub))
    exact Nat.le_trans h (Nat.mul_le_mul_right _ length_makeSections)
  have hlen := length_nbtOf ch
  unfold nbtOf at hlen
  omega

theorem length_payload_makeLevel
    : (header 10 (ascii "") ++ (NbtTag.compound [(ascii "Level", makeLevel ch)]).payload).length
        < 2 ^ 28 :=
  Nat.lt_trans length_payload_makeLevel_lt (by decide)

end Size

theorem top_le {ch : Chunk} {x z : Fin 16} {h : Int} (htop : ch.Top x z h) : h ≤ 256 := by
  cases htop with
  | inl hsome =>
    obtain ⟨y, _, _, hy⟩ := hsome
    omega
  | inr hnone => omega

theorem exists_hind (i : Fin 256) : ∃ x z, i = hind x z := by
  refine ⟨⟨i.val % 16, by omega⟩, ⟨i.val / 16, by omega⟩, ?_⟩
  apply Fin.ext
  unfold hind
  dsimp only
  rw [Nat.shiftLeft_eq, Nat.mul_comm, ← Nat.two_pow_add_eq_or_of_lt (by omega)]
  omega

section Heights

variable {ch ch' : Chunk}

theorem hmap_ext_iff : ch'.hmap = ch.hmap ↔ ∀ x z, ch'.getHeight x z = ch.getHeight x z := by
  constructor
  . intro h x z
    unfold getHeight
    rw [h]
  . intro h
    funext i
    obtain ⟨x, z, hi⟩ := exists_hind i
    rw [hi]
    exact h x z

theorem subs_loaded : (addSections ch (List.finRange 16) (loadHead ch)).subs = ch.subs := by
  funext i
  rw [subs_addSections, subs_loadHead]
  cases ch.subs i with
  | none => simp
  | some sub => simp

theorem hmap_loaded_iff (hfit : ∀ x z, -2 ^ 31 ≤ ch.getHeight x z ∧ ch.getHeight x z < 2 ^ 31)
    : (addSections ch (List.finRange 16) (loadHead ch)).hmap = ch.hmap
        ↔
      ∀ i, (ch.subs i).isSome → (i.val * 16 : Nat) < ch.getHeight 0 0 := by
  have hheight : ∀ x z, (loadHead ch).getHeight x z = ch.getHeight x z := by
    intro x z
    exact getHeight_loadHead (hfit x z)
  obtain ⟨_, hiff⟩ := @getHeight_addSections_zero ch (loadHead ch) (List.finRange 16)
  simp only [List.mem_finRange, forall_const, hheight] at hiff
  rw [hmap_ext_iff, ← hiff]
  constructor
  . intro h
    exact h 0 0
  . intro h x z
    by_cases hzero : x = 0 ∧ z = 0
    . rw [hzero.left, hzero.right]
      exact h
    . rw [getHeight_addSections hzero, hheight]

theorem heights_fit (hok : ch.HeightmapOk) (x z : Fin 16)
    : -2 ^ 31 ≤ ch.getHeight x z ∧ ch.getHeight x z < 2 ^ 31 := by
  have hlo := (hok x z).nonneg
  have hhi := top_le (hok x z)
  omega

theorem getId_loaded (x : Fin 16) (y : Fin 256) (z : Fin 16)
    : (addSections ch (List.finRange 16) (loadHead ch)).getId x y z = ch.getId x y z := by
  unfold getId
  rw [subs_loaded]

end Heights

section RoundTrip

variable {compress decompress : Bytes → Bytes} (hzlib : ∀ data, decompress (compress data) = data)

include hzlib

theorem loadChunkData_makeChunkData (ch : Chunk)
    : ∃ data, makeChunkData compress ch = .ok data
        ∧ loadChunkData decompress data
          = .ok (addSections ch (List.finRange 16) (loadHead ch)) := by
  have hname : ValidName (ascii "") := ⟨by decide, by decide⟩
  obtain ⟨w, hwrite, hdata⟩ := NbtReader.write_root hname valid_makeLevel
    (@length_payload_makeLevel ch)
  have hraw := NbtReader.readRaw_root hname valid_makeLevel hdata
    (hdata ▸ (@length_payload_makeLevel ch))
  refine ⟨compress w.buf.data, ?_, ?_⟩
  . unfold makeChunkData
    rw [hwrite]
    rfl
  . unfold loadChunkData
    rw [hzlib, hraw]
    exact loadChunkFromNbt_makeLevel ch

/--
The sub-chunks are the same in all that they hold.
-/
theorem loadChunkData_subs {ch : Chunk} (hx : -2 ^ 31 ≤ ch.pos.x ∧ ch.pos.x < 2 ^ 31)
    (hz : -2 ^ 31 ≤ ch.pos.z ∧ ch.pos.z < 2 ^ 31)
    : ∃ data ch', makeChunkData compress ch = .ok data
        ∧ loadChunkData decompress data = .ok ch'
        ∧ ch'.pos = ch.pos ∧ ch'.biomes = ch.biomes ∧ ch'.subs = ch.subs := by
  obtain ⟨data, hmake, hload⟩ := loadChunkData_makeChunkData hzlib ch
  refine ⟨data, _, hmake, hload, ?_, ?_, ?_⟩
  . rw [pos_addSections, pos_loadHead hx hz]
  . rw [biomes_addSections, biomes_loadHead]
  . exact subs_loaded

/--
The stone block that instantiates a section must stay below what is there.
-/
theorem loadChunkData_hmap_iff {ch : Chunk} (hok : ch.HeightmapOk)
    : ∃ data ch', makeChunkData compress ch = .ok data
        ∧ loadChunkData decompress data = .ok ch'
        ∧ (ch'.hmap = ch.hmap ∧ ch'.HeightmapOk
            ↔ ∀ i, (ch.subs i).isSome → (i.val * 16 : Nat) < ch.getHeight 0 0) := by
  obtain ⟨data, hmake, hload⟩ := loadChunkData_makeChunkData hzlib ch
  refine ⟨data, _, hmake, hload, ?_⟩
  rw [← hmap_loaded_iff (heights_fit hok)]
  constructor
  . intro h
    exact h.left
  . intro h
    exact ⟨h, hok.congr h getId_loaded⟩

end RoundTrip

section Sample

/--
Two sub-chunks with blocks and light, one of the blocks with an id that takes more than a byte. The first
column reaches both.
-/
def sampleOps : List Op :=
  [.setId 0 70 0 1, .setIdAndMeta 5 66 9 300 7, .setSkyLight 0 71 0 15, .setBlockLight 6 66 9 14,
    .setId 1 3 1 35]

def sampleChunk : Chunk :=
  sampleOps.foldl Chunk.call (.new 3 (-4))

/--
What zlib makes of the NBT of the sample.
-/
def compressedSample : Bytes :=
  [120, 156, 237, 219, 193, 74, 195, 64, 20, 5, 208, 87, 27, 77, 27, 65, 253, 7, 183, 254, 132, 34,
    232, 162, 130, 208, 149, 203, 210, 6, 45, 173, 166, 208, 34, 234, 183, 11, 53, 241, 11, 10,
    182, 157, 74, 206, 89, 77, 102, 17, 46, 89, 60, 134, 48, 183, 136, 40, 226, 120, 80, 190, 151,
    243, 110, 100, 31, 143, 213, 50, 34, 186, 245, 242, 171, 94, 174, 215, 235, 239, 60, 78, 110,
    166, 213, 107, 89, 239, 119, 162, 211, 114, 167, 209, 191, 47, 167, 207, 47, 171, 135, 209,
    162, 249, 30, 181, 187, 248, 187, 108, 11, 239, 0, 246, 172, 31, 189, 97, 57, 94, 77, 171, 183,
    101, 81, 63, 30, 213, 19, 242, 41, 154, 137, 57, 175, 198, 179, 122, 98, 94, 164, 14, 8, 135,
    229, 50, 117, 0, 0, 0, 128, 221, 200, 163, 123, 61, 153, 68, 244, 82, 7, 1, 0, 18, 200, 35,
    187, 29, 173, 70, 142, 2, 0, 208, 78, 121, 20, 191, 55, 4, 6, 205, 85, 34, 7, 2, 0, 104, 167,
    60, 122, 195, 217, 167, 227, 0, 0, 180, 89, 211, 35, 200, 244, 8, 56, 108, 87, 169, 3, 64, 59,
    116, 82, 7, 0, 0, 96, 175, 244, 8, 182, 207, 95, 21, 0, 254, 15, 61, 130, 29, 88, 164, 14, 0,
    0, 27, 211, 35, 216, 157, 179, 212, 1, 0, 96, 83, 122, 4, 112, 48, 206, 83, 7, 0, 218, 236, 7,
    141, 50, 46, 140]

/--
What zlib makes of the NBT of empty chunks.
-/
def compressedNew : Bytes :=
  [120, 156, 227, 98, 96, 224, 98, 96, 245, 73, 45, 75, 205, 97, 102, 96, 169, 8, 200, 47, 102, 0,
    2, 32, 179, 10, 202, 100, 103, 96, 115, 202, 204, 207, 77, 5, 114, 24, 25, 24, 71, 56, 224,
    102, 224, 244, 72, 205, 76, 207, 40, 241, 77, 44, 0, 133, 199, 40, 24, 5, 163, 96, 228, 2, 78,
    6, 142, 224, 212, 228, 146, 204, 252, 188, 98, 46, 136, 8, 0, 141, 93, 15, 210]

def compressedNew' : Bytes :=
  [120, 156, 227, 98, 96, 224, 98, 96, 245, 73, 45, 75, 205, 97, 102, 96, 169, 8, 200, 47, 102, 96,
    96, 96, 6, 50, 171, 128, 204, 255, 255, 255, 255, 97, 103, 96, 115, 202, 204, 207, 77, 5, 138,
    51, 50, 48, 142, 112, 192, 205, 192, 233, 145, 154, 153, 158, 81, 226, 155, 88, 0, 10, 143, 81,
    48, 10, 70, 193, 200, 5, 156, 12, 28, 193, 169, 201, 37, 153, 249, 121, 197, 92, 16, 17, 0, 63,
    243, 19, 206]

def samples : List CodecSample :=
  [⟨nbtOf sampleChunk, compressedSample⟩, ⟨nbtOf (.new 0 0), compressedNew⟩,
    ⟨nbtOf (.new 3 (-4)), compressedNew'⟩]

theorem sound_samples : CodecSample.Sound samples :=
  CodecSample.Sound.of_wires (by decide) (by decide)

theorem decode_encode_samples (data : Bytes)
    : CodecSample.decode samples (CodecSample.encode samples data) = data :=
  CodecSample.decode_encode sound_samples (List.Subset.refl _) data

theorem heightmapOk_sample : sampleChunk.HeightmapOk :=
  HeightmapOk.calls (heightmapOk_new 3 (-4)) (by simp [sampleOps, Op.Valid])

theorem pos_sample : sampleChunk.pos = ⟨3, -4⟩ := by
  decide +kernel

theorem loadChunkData_subs_sample
    : ∃ data ch', makeChunkData (CodecSample.encode samples) sampleChunk = .ok data
        ∧ loadChunkData (CodecSample.decode samples) data = .ok ch'
        ∧ ch'.pos = sampleChunk.pos ∧ ch'.biomes = sampleChunk.biomes
        ∧ ch'.subs = sampleChunk.subs :=
  loadChunkData_subs decode_encode_samples (by rw [pos_sample]; decide) (by rw [pos_sample]; decide)

theorem loadChunkData_hmap_iff_sample
    : ∃ data ch', makeChunkData (CodecSample.encode samples) sampleChunk = .ok data
        ∧ loadChunkData (CodecSample.decode samples) data = .ok ch'
        ∧ (ch'.hmap = sampleChunk.hmap ∧ ch'.HeightmapOk
            ↔ ∀ i, (sampleChunk.subs i).isSome → (i.val * 16 : Nat) < sampleChunk.getHeight 0 0) :=
  loadChunkData_hmap_iff decode_encode_samples heightmapOk_sample

end Sample

/--
A sub-chunk of air: its first column has the height 1 when it is loaded.
-/
theorem loadChunkData_hmap_air
    : ¬ ∀ (ch : Chunk) (data : Bytes) (ch' : Chunk), ch.HeightmapOk
        → makeChunkData (·) ch = .ok data → loadChunkData (·) data = .ok ch'
        → ch'.hmap = ch.hmap := by
  intro h
  have hok : ((Chunk.new 0 0).setMeta 0 0 0 0).HeightmapOk :=
    @HeightmapOk.call _ (heightmapOk_new 0 0) (.setMeta 0 0 0 0)
      (show (0 : UInt8).toNat < 16 by decide)
  obtain ⟨data, hmake, hload⟩ :=
    @loadChunkData_makeChunkData (·) (·) (fun _ => rfl) ((Chunk.new 0 0).setMeta 0 0 0 0)
  have hmap := h _ data _ hok hmake hload
  rw [hmap_loaded_iff (heights_fit hok)] at hmap
  exact absurd (hmap 0 rfl) (by decide)

end ChunkNbt

end HCraft
