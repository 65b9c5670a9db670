import HCraft.World.Providers.Anvil.Lemmas.Region

/-!
This module contains the proof that saving a chunk in a region file changes what is stored of that
chunk, and nothing else, wherever the sectors of the other chunks go.
-/

namespace HCraft

namespace AnvilWorldProvider

open Bin Slice Extents

/--
The sectors of the chunks that have been saved.
-/
def contents (chunks : Fin 1024 → Option Bytes) (i : Fin 1024) : Bytes :=
  ((chunks i).map record).getD []

/--
The file is well formed and has the data of these chunks.
-/
structure RegionFile (data : Bytes) (chunks : Fin 1024 → Option Bytes) : Prop where
  header : 8192 ≤ data.length
  stored : Stored 4096 2 data (layout data) Set.univ (contents chunks)
  saved : ∀ i, (layout data i).isSome = (chunks i).isSome

theorem contents_update (chunks : Fin 1024 → Option Bytes) (i : Fin 1024) (data : Bytes)
    : contents (Function.update chunks i (some data))
        =
      Function.update (contents chunks) i (record data) := by
  funext j
  unfold contents
  by_cases hji : j = i
  . rw [hji, Function.update_self, Function.update_self]
    rfl
  . rw [Function.update_of_ne hji, Function.update_of_ne hji]

theorem isSome_update {ι β : Type} [DecidableEq ι] {f : ι → Option β} {i j : ι} {b : β}
    : (Function.update f i (some b) j).isSome = (decide (j = i) || (f j).isSome) := by
  by_cases hji : j = i
  . simp [hji]
  . simp [hji]

def index (cx cz : Int) : Fin 1024 :=
  ⟨cindex cx cz, cindex_lt cx cz⟩

section Append

theorem write_record {data : Bytes} {pos : Nat} (hpos : pos ≤ data.length) (p : Bytes)
    : (((((FStream.mk data pos false).write (writeIntBe (p.length + 1))).put 2).write p).write
        (List.replicate (pad (p.length + 5)) 0))
        =
      FStream.mk (patch 0 data pos (record p)) (pos + 4096 * sectors p) false := by
  unfold FStream.put
  rw [FStream.write_write hpos, FStream.write_write hpos, FStream.write_write hpos,
    FStream.write_good, ← length_record]
  rfl

theorem appendChunk_eq {data : Bytes} {pos : Nat} (hlen : data.length < 2 ^ 31)
    (hheader : 8192 ≤ data.length) (cx cz : Int) (p : Bytes)
    : (appendChunk (FStream.mk data pos false) cx cz p).data
        =
      patch 0 (data ++ record p) (index cx cz * 4)
        ((writeIntBe (data.length / 4096)).drop 1 ++ [UInt8.ofNat (sectors p)]) := by
  have hpos : wrap32 data.length = data.length := wrap32_eq_self (by omega) (by omega)
  have hsector : unsigned32 ((data.length : Int) >>> (12 : Nat)) = data.length / 4096 := by
    rw [Int.shiftRight_eq_div_pow]
    unfold unsigned32
    omega
  have hi := cindex_lt cx cz
  unfold appendChunk
  simp only [FStream.seekEnd_good, FStream.tell_good, hpos, hsector]
  rw [write_record (Nat.le_refl _), patch_length, FStream.seek_good, FStream.put,
    FStream.write_write (by rw [List.length_append]; omega), Nat.mul_comm]
  rfl

theorem length_appendChunk {data : Bytes} {pos : Nat} (hlen : data.length < 2 ^ 31)
    (hheader : 8192 ≤ data.length) (cx cz : Int) (p : Bytes)
    : (appendChunk (FStream.mk data pos false) cx cz p).data.length
        =
      data.length + 4096 * sectors p := by
  have hi := cindex_lt cx cz
  have hslot : (index cx cz).val * 4 + 4 ≤ 4096 := by
    unfold index
    dsimp only
    omega
  have hs : ((writeIntBe (data.length / 4096)).drop 1 ++ [UInt8.ofNat (sectors p)]).length = 4 := rfl
  have hgrown : (data ++ record p).length = data.length + 4096 * sectors p := by
    rw [List.length_append, length_record]
  rw [appendChunk_eq hlen hheader, length_patch (by omega)]
  omega

theorem RegionFile.appendChunk {data : Bytes} {chunks : Fin 1024 → Option Bytes}
    (h : RegionFile data chunks) {cx cz : Int} {p : Bytes} (hp : p.length + 5 ≤ 255 * 4096)
    {pos : Nat} (hlen : data.length < 2 ^ 31)
    : RegionFile (AnvilWorldProvider.appendChunk (FStream.mk data pos false) cx cz p).data
        (Function.update chunks (index cx cz) (some p)) := by
  have hheader := h.header
  have hi := cindex_lt cx cz
  have hslot : (index cx cz).val * 4 + 4 ≤ 4096 := by
    unfold index
    dsimp only
    omega
  have hs : ((writeIntBe (data.length / 4096)).drop 1 ++ [UInt8.ofNat (sectors p)]).length = 4 := rfl
  have hgrown : (data ++ record p).length = data.length + (record p).length := List.length_append
  have hlayout : layout (data ++ record p) = layout data := by
    apply layout_congr
    rw [List.take_append_of_le_length (by omega)]
  have hstored := h.stored.append (by omega) (by omega) (index cx cz) (length_record p)
    (sectors_pos p)
  rw [Set.insert_eq_of_mem (Set.mem_univ _), ← contents_update] at hstored
  rw [appendChunk_eq hlen h.header]
  have hfinal := @layout_patch_entry (data ++ record p) (by omega) (index cx cz)
    (data.length / 4096) (sectors p) (by omega) (by omega) (sectors_lt hp)
  rw [hlayout] at hfinal
  constructor
  . rw [length_patch (by omega)]
    omega
  . rw [hfinal]
    apply hstored.patch_front
    . omega
    . omega
  . intro i
    rw [hfinal, isSome_update, isSome_update, h.saved]

end Append

section Overwrite

open overwriteChunk

/--
The chunks `toMove` collects.
-/
def inWay (hdr : Bytes) (sStart sEnd : Nat) (i : Fin 1024) : Bool :=
  entryLoc hdr i ≠ sStart ∧ sStart ≤ entryLoc hdr i ∧ entryLoc hdr i < sEnd

theorem inWay_iff {hdr : Bytes} {sStart sEnd : Nat} {i : Fin 1024}
    : inWay hdr sStart sEnd i = true
        ↔
      entryLoc hdr i ≠ sStart ∧ sStart ≤ entryLoc hdr i ∧ entryLoc hdr i < sEnd := by
  simp [inWay]

theorem layout_of_inWay {hdr : Bytes} {sStart sEnd : Nat} {i : Fin 1024} (hstart : 0 < sStart)
    (h : inWay hdr sStart sEnd i = true)
    : layout hdr i = some ⟨entryLoc hdr i, entrySize hdr i⟩ := by
  have := inWay_iff.mp h
  rw [layout_eq_some]
  exact ⟨by omega, rfl, rfl⟩

theorem shiftLeft_12 (n : Nat) : n <<< 12 = 4096 * n := by
  rw [Nat.shiftLeft_eq, Nat.mul_comm, show 2 ^ 12 = 4096 from rfl]

def moveOf (hdr data : Bytes) (i : Fin 1024) : MoveData :=
  ⟨i.val % 32, i.val >>> 5, slice data (4096 * entryLoc hdr i) (4096 * entrySize hdr i), 0⟩

theorem readSectors_good {data : Bytes} {pos loc size : Nat} (hlen : data.length < 2 ^ 31)
    (hpos : pos < 2 ^ 31) (hin : 4096 * loc + 4096 * size ≤ data.length)
    : readSectors (FStream.mk data pos false) loc size
        =
      (slice data (4096 * loc) (4096 * size), FStream.mk data pos false) := by
  have hppos : wrap32 pos = pos := wrap32_eq_self (by omega) (by omega)
  have hseek : int32 (4096 * loc) = (4096 * loc : Nat) := int32_eq_self (by omega)
  rw [readSectors, FStream.tell_good, hppos, shiftLeft_12, shiftLeft_12, hseek, FStream.seek_good,
    FStream.read_good hin]
  dsimp only
  rw [FStream.seek_good]

theorem toMove_eq {hdr data : Bytes} {pos : Nat} {is : List (Fin 1024)}
    (hin : ∀ i ∈ is, ∀ e, layout hdr i = some e → 4096 * e.stop ≤ data.length)
    (hlen : data.length < 2 ^ 31) (hpos : pos < 2 ^ 31) {sStart : Nat} (hstart : 0 < sStart)
    (sEnd : Nat)
    : toMove hdr sStart sEnd is (FStream.mk data pos false)
        =
      .ok ((is.filter (inWay hdr sStart sEnd)).map (moveOf hdr data), FStream.mk data pos false) := by
  induction is with
  | nil => rfl
  | cons i is ih =>
    have hrest := ih (fun j hj => hin j (List.mem_cons_of_mem i hj))
    rw [toMove, List.filter_cons, hrest]
    have hway := @inWay_iff hdr sStart sEnd i
    rw [← entryLoc]
    cases hcase : inWay hdr sStart sEnd i with
    | true =>
      have hway := hway.mp hcase
      have hstop := hin i List.mem_cons_self _ (layout_of_inWay hstart hcase)
      simp only [Extent.stop, Nat.mul_add] at hstop
      rw [if_neg (by omega), if_pos (by omega), if_pos rfl, ← entrySize,
        readSectors_good hlen hpos hstop]
      dsimp only
      rw [length_slice_of_le hstop, shiftLeft_12, if_neg (Nat.lt_irrefl _), hrest]
      rfl
    | false =>
      rw [hcase] at hway
      simp only [Bool.false_eq_true, false_iff, not_and_or, not_not] at hway
      rw [if_neg Bool.false_ne_true]
      split
      . rfl
      . rw [if_neg (by omega)]

theorem length_le_move (ks : List (Fin 1024)) (m : Fin 1024 → MoveData) {data : Bytes} {n : Nat}
    (hfit : (move (ks.map m) (FStream.mk data data.length false)).2.data.length < n)
    : data.length < n := by
  induction ks generalizing data with
  | nil => exact hfit
  | cons k ks ih =>
    rw [List.map_cons, move, FStream.write_good, patch_length, ← List.length_append] at hfit
    have := ih hfit
    rw [List.length_append] at this
    omega

theorem move_good (ks : List (Fin 1024)) (m : Fin 1024 → MoveData) (data : Bytes)
    : ∃ data', (move (ks.map m) (FStream.mk data data.length false)).2
        = FStream.mk data' data'.length false := by
  induction ks generalizing data with
  | nil => exact ⟨data, rfl⟩
  | cons k ks ih =>
    rw [List.map_cons, move, FStream.write_good, patch_length, ← List.length_append]
    apply ih

/--
The chunks of `ks` are appended one after another, and the header follows.
-/
theorem move_stored {ks : List (Fin 1024)} (hks : ks.Nodup) {m : Fin 1024 → MoveData}
    (hm : ∀ k ∈ ks, (m k).z <<< 5 ||| (m k).x = k) {data hdr : Bytes} {S : Set (Fin 1024)}
    {c : Fin 1024 → Bytes} (hstored : Stored 4096 2 data (layout hdr) S c)
    (hheader : 8192 ≤ data.length) (hhdr : hdr.length = 4096)
    (hdata : ∀ k ∈ ks, c k = (m k).data
      ∧ ∃ e, layout hdr k = some e ∧ 1 ≤ e.size ∧ (m k).data.length = 4096 * e.size)
    (hfit : (move (ks.map m) (FStream.mk data data.length false)).2.data.length < 2 ^ 31)
    : ∃ data', (move (ks.map m) (FStream.mk data data.length false)).2
          = FStream.mk data' data'.length false
        ∧ data.length ≤ data'.length
        ∧ (updateHeader hdr (move (ks.map m) (FStream.mk data data.length false)).1).length = 4096
        ∧ Stored 4096 2 data'
            (layout (updateHeader hdr (move (ks.map m) (FStream.mk data data.length false)).1))
            (S ∪ {k | k ∈ ks}) c
        ∧ ∀ i, (layout (updateHeader hdr
            (move (ks.map m) (FStream.mk data data.length false)).1) i).isSome
          = (layout hdr i).isSome := by
  induction ks generalizing data hdr S with
  | nil =>
    refine ⟨data, rfl, Nat.le_refl _, hhdr, ?_, fun _ => rfl⟩
    apply hstored.mono
    simp
  | cons k ks ih =>
    obtain ⟨hck, e, he, hsize, hdlen⟩ := hdata k List.mem_cons_self
    obtain ⟨hnotin, hnodup⟩ := List.nodup_cons.mp hks
    have hk := k.isLt
    have hgrown : (data ++ (m k).data).length = data.length + (m k).data.length :=
      List.length_append
    rw [List.map_cons, move, FStream.tell_good, FStream.write_good, patch_length, ← hgrown] at hfit ⊢
    dsimp only at hfit ⊢
    rw [updateHeader, hm k List.mem_cons_self]
    dsimp only
    -- the sectors of the first chunk, and its entry in the header
    have happend := hstored.append (by omega) (by omega) k hdlen hsize
    rw [← hck, Function.update_eq_self, hck] at happend
    have hshort := length_le_move ks m hfit
    have hentry : layout (patch 0 hdr (4 * k)
        ((writeIntBe (unsigned32 data.length >>> 12)).drop 1))
          = Function.update (layout hdr) k (some ⟨data.length / 4096, e.size⟩) := by
      rw [unsigned32_natCast (by omega), Nat.shiftRight_eq_div_pow, Nat.mul_comm]
      apply layout_patch_loc (by omega) he
      . omega
      . omega
    rw [← hentry] at happend
    have hrest : ∀ j ∈ ks, c j = (m j).data
        ∧ ∃ e', layout (patch 0 hdr (4 * k)
            ((writeIntBe (unsigned32 data.length >>> 12)).drop 1)) j = some e'
          ∧ 1 ≤ e'.size ∧ (m j).data.length = 4096 * e'.size := by
      intro j hj
      have hjk : j ≠ k := fun heq => hnotin (heq ▸ hj)
      rw [hentry, Function.update_of_ne hjk]
      exact hdata j (List.mem_cons_of_mem k hj)
    obtain ⟨data', hmove, hle, hlen, hstored', hsome⟩ := ih hnodup
      (fun j hj => hm j (List.mem_cons_of_mem k hj)) happend (by omega)
      (by rw [length_patch (by omega), length_location]; omega) hrest hfit
    refine ⟨data', hmove, by omega, hlen, ?_, ?_⟩
    . apply hstored'.mono
      intro j hj
      simp only [Set.mem_union, Set.mem_insert_iff, Set.mem_ofPred_eq, List.mem_cons] at hj ⊢
      tauto
    . intro i
      rw [hsome, hentry, isSome_update]
      by_cases hik : i = k
      . simp [hik, he]
      . simp [hik]

theorem layout_header (data : Bytes) : layout (slice data 0 4096) = layout data := by
  apply layout_congr
  rw [slice, List.drop_zero, List.take_take, Nat.min_self]

theorem moveOf_index (hdr data : Bytes) (k : Fin 1024)
    : (moveOf hdr data k).z <<< 5 ||| (moveOf hdr data k).x = k := by
  simp only [moveOf]
  rw [shiftLeft_or_eq_add (k := 5) (by omega), Nat.shiftRight_eq_div_pow]
  omega

/--
The chunks a chunk that needs more sectors than it has moves.
-/
def movedBy (data : Bytes) (e : Extent) (p : Bytes) : List (Fin 1024) :=
  if sectors p > e.size then
    (List.finRange 1024).filter (inWay (slice data 0 4096) e.loc (e.loc + sectors p))
  else
    []

/--
The state after the chunks have been moved: their new places, and the file.
-/
def moved (data : Bytes) (e : Extent) (p : Bytes) : List MoveData × FStream :=
  let written := patch 0 data (4096 * e.loc) (record p)
  move ((movedBy data e p).map (moveOf (slice data 0 4096) data))
    (FStream.mk written written.length false)

theorem rewrite_eq {data : Bytes} {pos : Nat} (cx cz : Int) (p : Bytes) {loc : Nat}
    (hloc : 4096 * loc ≤ data.length) (hdr : Bytes) (ms : List MoveData)
    : rewrite (FStream.mk data pos false) cx cz p (4096 * loc : Nat) hdr ms
        =
      (let written := patch 0 data (4096 * loc) (record p)
      let res := move ms (FStream.mk written written.length false)
      ((res.2.seek 0).write (updateHeader (patch 0 hdr (index cx cz * 4 + 3)
        [UInt8.ofNat (sectors p)]) res.1)).seekEnd) := by
  rw [rewrite, FStream.seek_good, write_record hloc]
  rfl

theorem overwriteChunk_eq {data : Bytes} {chunks : Fin 1024 → Option Bytes}
    (h : RegionFile data chunks) (hlen : data.length < 2 ^ 31) {cx cz : Int} {e : Extent}
    (he : layout data (index cx cz) = some e) {pos : Nat} (p : Bytes)
    : AnvilWorldProvider.overwriteChunk (FStream.mk data pos false) cx cz p (4096 * e.loc : Nat)
          e.size
        =
      .ok (((moved data e p).2.seek 0).write
        (updateHeader (patch 0 (slice data 0 4096) (index cx cz * 4 + 3)
          [UInt8.ofNat (sectors p)]) (moved data e p).1)).seekEnd := by
  have hheader := h.header
  obtain ⟨hfirst, hsize, hstop⟩ := h.stored.inside _ (Set.mem_univ _) e he
  rw [Extent.stop, Nat.mul_add] at hstop
  have hhdr : (slice data 0 4096).length = 4096 := length_slice_of_le (by omega)
  have hstart : ((4096 * e.loc : Nat) : Int) >>> (12 : Nat) = e.loc := by
    rw [Int.shiftRight_eq_div_pow]
    omega
  have hlayout := layout_header data
  have htoMove := @toMove_eq (slice data 0 4096) data 4096 (List.finRange 1024)
    (by
      intro i _ e' he'
      rw [hlayout] at he'
      exact (h.stored.inside i (Set.mem_univ i) e' he').2.2)
    hlen (by omega) e.loc (by omega) (e.loc + sectors p)
  have hzero : (FStream.mk data pos false).seek 0 = FStream.mk data 0 false := FStream.seek_good 0
  rw [AnvilWorldProvider.overwriteChunk, hzero, FStream.read_good (by omega), hstart]
  dsimp only
  rw [if_neg (by omega), moved, movedBy, ← sectors, ← Int.natCast_add, htoMove]
  split
  . next hgrows =>
    rw [if_pos (by omega)]
    simp only [bind, Except.bind]
    rw [rewrite_eq _ _ _ (by omega)]
  . next hfits =>
    rw [if_neg (by omega), Nat.zero_add, rewrite_eq _ _ _ (by omega)]
    rfl

theorem mem_movedBy {data : Bytes} {e : Extent} {p : Bytes} {k : Fin 1024}
    : k ∈ movedBy data e p
        ↔
      sectors p > e.size ∧ entryLoc (slice data 0 4096) k ≠ e.loc
        ∧ e.loc ≤ entryLoc (slice data 0 4096) k
        ∧ entryLoc (slice data 0 4096) k < e.loc + sectors p := by
  unfold movedBy
  split
  . next hgrows =>
    rw [List.mem_filter, inWay_iff]
    simp [hgrows]
  . next hfits => simp [hfits]

theorem layout_of_mem_movedBy {data : Bytes} {e : Extent} {p : Bytes} {k : Fin 1024}
    (hfirst : 1 ≤ e.loc) (hk : k ∈ movedBy data e p)
    : layout data k = some ⟨entryLoc (slice data 0 4096) k, entrySize (slice data 0 4096) k⟩ := by
  have hway := mem_movedBy.mp hk
  rw [← layout_header, layout_eq_some]
  exact ⟨by omega, rfl, rfl⟩

theorem nodup_movedBy (data : Bytes) (e : Extent) (p : Bytes) : (movedBy data e p).Nodup := by
  unfold movedBy
  split
  . apply List.Nodup.filter
    apply List.nodup_finRange
  . apply List.nodup_nil

theorem data_header_written (data hdr : Bytes) (pos : Nat)
    : (((FStream.mk data pos false).seek 0).write hdr).seekEnd.data = patch 0 data 0 hdr := by
  rw [show (FStream.mk data pos false).seek 0 = FStream.mk data 0 false from FStream.seek_good 0,
    FStream.write_good, FStream.seekEnd_good]

theorem RegionFile.overwriteChunk {data : Bytes} {chunks : Fin 1024 → Option Bytes}
    (h : RegionFile data chunks) (hlen : data.length < 2 ^ 31) {cx cz : Int} {e : Extent}
    (he : layout data (index cx cz) = some e) {p : Bytes} (hp : p.length + 5 ≤ 255 * 4096)
    {pos : Nat} {fs : FStream}
    (heq : AnvilWorldProvider.overwriteChunk (FStream.mk data pos false) cx cz p
      (4096 * e.loc : Nat) e.size = .ok fs)
    (hfit : fs.data.length < 2 ^ 31)
    : RegionFile fs.data (Function.update chunks (index cx cz) (some p)) := by
  rw [overwriteChunk_eq h hlen he] at heq
  injection heq with heq
  have hheader := h.header
  obtain ⟨hfirst, hsize, hstop⟩ := h.stored.inside _ (Set.mem_univ _) e he
  rw [Extent.stop, Nat.mul_add] at hstop
  have hhdr : (slice data 0 4096).length = 4096 := length_slice_of_le (by omega)
  have hlayout := layout_header data
  have hself : entryLoc (slice data 0 4096) (index cx cz) = e.loc := by
    rw [← hlayout] at he
    exact (layout_eq_some.mp he).2.1
  have hnotin : index cx cz ∉ movedBy data e p := by
    rw [mem_movedBy]
    simp [hself]
  -- what is neither moved nor the chunk itself leaves room for the new sectors
  have hfree : ∀ j ∈ {k | k ∉ movedBy data e p}, j ≠ index cx cz → ∀ e',
      layout data j = some e' → (⟨e.loc, sectors p⟩ : Extent).Separate e' := by
    intro j hj hji e' he'
    have hloc := (layout_eq_some.mp (hlayout ▸ he')).2.1
    have hsep := h.stored.separate _ (Set.mem_univ _) _ (Set.mem_univ j) hji.symm e e' he he'
    obtain ⟨_, hsize', _⟩ := h.stored.inside _ (Set.mem_univ j) e' he'
    rw [Set.mem_ofPred_eq, mem_movedBy, hloc] at hj
    unfold Extent.Separate Extent.stop at hsep ⊢
    dsimp only
    omega
  have hwritten := (h.stored.mono (Set.subset_univ {k | k ∉ movedBy data e p})).write
    (e := ⟨e.loc, sectors p⟩) 0 (length_record p) hfirst (sectors_pos p) (by dsimp only; omega) hfree
  have hentry := @layout_patch_size (slice data 0 4096) (by omega) (index cx cz) e (hlayout ▸ he)
    (sectors p) (sectors_lt hp)
  rw [← contents_update, ← hlayout, ← hentry] at hwritten
  dsimp only at hwritten
  -- the chunks that are moved
  have hdata : ∀ k ∈ movedBy data e p,
      contents (Function.update chunks (index cx cz) (some p)) k
          = (moveOf (slice data 0 4096) data k).data
        ∧ ∃ e', layout (patch 0 (slice data 0 4096) (index cx cz * 4 + 3)
            [UInt8.ofNat (sectors p)]) k = some e'
          ∧ 1 ≤ e'.size
          ∧ (moveOf (slice data 0 4096) data k).data.length = 4096 * e'.size := by
    intro k hk
    have hki : k ≠ index cx cz := fun heq => hnotin (heq ▸ hk)
    have hsome := layout_of_mem_movedBy (by omega) hk
    obtain ⟨_, hsize', hstop'⟩ := h.stored.inside k (Set.mem_univ k) _ hsome
    rw [Extent.stop, Nat.mul_add] at hstop'
    rw [contents_update, Function.update_of_ne hki, hentry, Function.update_of_ne hki, hlayout,
      hsome, ← h.stored.holds k (Set.mem_univ k) _ hsome]
    exact ⟨rfl, _, rfl, hsize', length_slice_of_le hstop'⟩
  have hwlen : (patch 0 data (4096 * e.loc) (record p)).length ≥ data.length := by
    rw [length_patch (by omega)]
    omega
  have hmoved : (moved data e p).2.data.length < 2 ^ 31 := by
    obtain ⟨data', hmove⟩ := move_good (movedBy data e p) (moveOf (slice data 0 4096) data)
      (patch 0 data (4096 * e.loc) (record p))
    rw [moved, hmove] at heq ⊢
    rw [← heq, data_header_written, length_patch (Nat.zero_le _)] at hfit
    dsimp only
    omega
  obtain ⟨data', hmove, hle, hhdr', hstored', hsome⟩ := move_stored (nodup_movedBy data e p)
    (fun k _ => moveOf_index _ _ k) hwritten (by omega) (by rw [length_patch (by omega), List.length_singleton]; omega) hdata hmoved
  rw [moved, hmove] at heq
  generalize updateHeader (patch 0 (slice data 0 4096) (index cx cz * 4 + 3)
    [UInt8.ofNat (sectors p)]) _ = hdr at heq hhdr' hstored' hsome
  rw [← heq, data_header_written]
  have hfinal : layout (patch 0 data' 0 hdr) = layout hdr := by
    apply layout_congr
    rw [patch_eq (Nat.zero_le _), List.take_zero, List.nil_append,
      List.take_append_of_le_length (by omega)]
  constructor
  . rw [length_patch (Nat.zero_le _)]
    omega
  . rw [hfinal]
    apply Stored.patch_front _ _ (by omega) (by omega)
    apply hstored'.mono
    intro k _
    by_cases hk : k ∈ movedBy data e p
    . exact Or.inr hk
    . exact Or.inl (Or.inr hk)
  . intro i
    rw [hfinal, hsome, hentry, isSome_update, isSome_update, hlayout, h.saved]

theorem entrySize_le (hdr : Bytes) (i : Fin 1024) : entrySize hdr i ≤ 255 := by
  have hlt := (hdr.getD (i * 4 + 3) 0).toNat_lt
  unfold entrySize
  omega

theorem length_updateHeader (ks : List (Fin 1024)) {m : Fin 1024 → MoveData}
    (hm : ∀ k ∈ ks, (m k).z <<< 5 ||| (m k).x = k) (fs : FStream) {hdr : Bytes}
    (hhdr : hdr.length = 4096)
    : (updateHeader hdr (move (ks.map m) fs).1).length = 4096 := by
  induction ks generalizing fs hdr with
  | nil => exact hhdr
  | cons k ks ih =>
    have hk := k.isLt
    rw [List.map_cons, move]
    dsimp only
    rw [updateHeader, hm k List.mem_cons_self]
    apply ih (fun j hj => hm j (List.mem_cons_of_mem k hj))
    rw [length_patch (by omega), length_location]
    omega

theorem length_move_le {ks : List (Fin 1024)} {m : Fin 1024 → MoveData} {n : Nat}
    (hm : ∀ k, (m k).data.length ≤ n) (data : Bytes)
    : (move (ks.map m) (FStream.mk data data.length false)).2.data.length
        ≤ data.length + n * ks.length := by
  induction ks generalizing data with
  | nil => exact Nat.le_refl _
  | cons k ks ih =>
    have hrest := ih (data ++ (m k).data)
    have hk := hm k
    have hgrown : (data ++ (m k).data).length = data.length + (m k).data.length :=
      List.length_append
    rw [List.map_cons, move, FStream.write_good, patch_length, ← List.length_append, List.length_cons,
      Nat.mul_succ]
    dsimp only
    omega

/--
The file gets longer by the sectors of the chunk and by those of the chunks that are moved.
-/
theorem RegionFile.length_overwriteChunk {data : Bytes} {chunks : Fin 1024 → Option Bytes}
    (h : RegionFile data chunks) (hlen : data.length < 2 ^ 31) {keys : List (Fin 1024)}
    (hkeys : ∀ k, (chunks k).isSome → k ∈ keys) {cx cz : Int} {e : Extent}
    (he : layout data (index cx cz) = some e) {p : Bytes} (hp : p.length + 5 ≤ 255 * 4096)
    {pos : Nat} {fs : FStream}
    (heq : AnvilWorldProvider.overwriteChunk (FStream.mk data pos false) cx cz p
      (4096 * e.loc : Nat) e.size = .ok fs)
    : fs.data.length ≤ data.length + 4096 * 255 * (keys.length + 1) := by
  rw [overwriteChunk_eq h hlen he] at heq
  injection heq with heq
  have hheader := h.header
  have hsectors := sectors_lt hp
  obtain ⟨_, _, hstop⟩ := h.stored.inside _ (Set.mem_univ _) e he
  rw [Extent.stop, Nat.mul_add] at hstop
  have hhdr : (slice data 0 4096).length = 4096 := length_slice_of_le (by omega)
  have hcount : (movedBy data e p).length ≤ keys.length := by
    apply List.Nodup.length_le_of_subset (nodup_movedBy data e p)
    intro k hk
    apply hkeys
    rw [← h.saved, layout_of_mem_movedBy (by omega) hk]
    rfl
  have hmoved : (moved data e p).2.data.length
      ≤ (patch 0 data (4096 * e.loc) (record p)).length + 4096 * 255 * (movedBy data e p).length := by
    apply length_move_le
    intro k
    have hsize := entrySize_le (slice data 0 4096) k
    unfold moveOf
    dsimp only
    rw [length_slice]
    omega
  rw [length_patch (by omega), length_record] at hmoved
  have hslot : (index cx cz).val * 4 + 3 < 4096 := by
    have hi := cindex_lt cx cz
    unfold index
    dsimp only
    omega
  have hfinal : (updateHeader (patch 0 (slice data 0 4096) (index cx cz * 4 + 3)
      [UInt8.ofNat (sectors p)]) (moved data e p).1).length = 4096 := by
    apply length_updateHeader _ (fun k _ => moveOf_index _ _ k)
    rw [length_patch (by omega), List.length_singleton]
    omega
  obtain ⟨data', hmove⟩ := move_good (movedBy data e p) (moveOf (slice data 0 4096) data)
    (patch 0 data (4096 * e.loc) (record p))
  have hfs : (moved data e p).2 = FStream.mk data' data'.length false := hmove
  rw [hfs] at heq hmoved
  dsimp only at hmoved
  rw [← heq, data_header_written, length_patch (Nat.zero_le _), hfinal]
  have hmul := Nat.mul_le_mul_left (4096 * 255) hcount
  omega

end Overwrite

end AnvilWorldProvider

end HCraft
