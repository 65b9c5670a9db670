import HCraft.Player.OnPlace.Impl
import HCraft.World.Access.Lemmas.ReadBack

/-!
This module contains when a placed block is the item that was held, and the heightmap stays right.
-/

namespace HCraft

namespace Chunk

open BlockInfo (blocksSky)

/--
The id and the meta of a block
-/
def getType (ch : Chunk) (x : Fin 16) (y : Fin 256) (z : Fin 16) : UInt16 :=
  (ch.getSub (subIndex y)).types (index x y z)

/--
What it means that `id` has been placed, or rejected.
-/
structure Stored (ch ch' : Chunk) (x : Fin 16) (y : Fin 256) (z : Fin 16) (id : UInt16) : Prop where
  placed : ch'.getType x y z = ch.getType x y z ∨ ch'.getId x y z = id
  others : ∀ x' y' z', ¬ (x' = x ∧ y' = y ∧ z' = z) → ch'.getId x' y' z' = ch.getId x' y' z'
  top : ch'.Top x z (ch'.getHeight x z)

/--
The height does not move when `id` comes to `y`.
-/
def Steady (ch : Chunk) (x : Fin 16) (y : Fin 256) (z : Fin 16) (id : UInt16) : Prop :=
  if blocksSky id then (y.val : Int) < ch.getHeight x z else ch.getHeight x z ≠ y.val + 1

/--
The id has twelve bits and the upper half of `val` none but those of the id; or what is written is
there already.
-/
def Keeps (ch : Chunk) (x : Fin 16) (y : Fin 256) (z : Fin 16) (id : UInt16) (val : UInt8) : Prop :=
  (id.toNat < 4096 ∧ id ||| (val >>> 4).toUInt16 = id)
    ∨ (ch.getType x y z = id <<< 4 ||| val.toUInt16 ∧ ch.Steady x y z id)

section Cell

variable {ch : Chunk} {x x' z z' : Fin 16} {y y' : Fin 256} {id : UInt16} {val : UInt8} {h h' : Int}

theorem Top.unique (htop : ch.Top x z h) (htop' : ch.Top x z h') : h = h' := by
  rcases htop with ⟨y, hb, hmax, rfl⟩ | ⟨hnone, rfl⟩
  . rcases htop' with ⟨y', hb', hmax', rfl⟩ | ⟨hnone', rfl⟩
    . have hle := hmax y' hb'
      have hle' := hmax' y hb
      omega
    . rw [hnone' y] at hb
      cases hb
  . rcases htop' with ⟨y', hb', _, rfl⟩ | ⟨_, rfl⟩
    . rw [hnone y'] at hb'
      cases hb'
    . rfl

theorem getType_shiftRight : ch.getType x y z >>> 4 = ch.getId x y z :=
  getId_eq.symm

theorem getSub_updateHeight {sy : Fin 16}
    : (ch.updateHeight x y z id).getSub sy = ch.getSub sy := by
  unfold updateHeight recalcHeightAt
  split
  . split
    . exact getSub_setHeight
    . rfl
  . split
    . exact getSub_setHeight
    . rfl

theorem getType_setIdAndMeta
    : (ch.setIdAndMeta x y z id val).getType x y z = id <<< 4 ||| val.toUInt16 := by
  rw [getType, setIdAndMeta, getSub_updateHeight, setType, getSub_setSub_self]
  exact Function.update_self _ _ _

theorem getId_setIdAndMeta
    : (ch.setIdAndMeta x y z id val).getId x y z = (id <<< 4 ||| val.toUInt16) >>> 4 := by
  rw [← getType_shiftRight, getType_setIdAndMeta]

theorem pack_shiftRight_iff
    : (id <<< 4 ||| val.toUInt16) >>> 4 = id
        ↔
      id.toNat < 4096 ∧ id ||| (val >>> 4).toUInt16 = id := by
  constructor
  . intro heq
    have hid : id.toNat < 4096 := heq ▸ shiftRight_lt (id <<< 4 ||| val.toUInt16)
    rw [Lighting.setIdAndMeta_shiftRight hid] at heq
    exact ⟨hid, heq⟩
  . rintro ⟨hid, heq⟩
    rw [Lighting.setIdAndMeta_shiftRight hid]
    exact heq

theorem findHeight_le {top : Nat} {htop : top ≤ 256} : ch.findHeight x z top htop ≤ top := by
  induction top with
  | zero => exact Nat.le_refl 0
  | succ top ih =>
    unfold findHeight
    split
    . exact Nat.le_refl _
    . exact Nat.le_succ_of_le ih

/--
The height stays where it is just when the column is `Steady`.
-/
theorem getHeight_updateHeight_iff
    : (ch.updateHeight x y z id).getHeight x z = ch.getHeight x z ↔ ch.Steady x y z id := by
  unfold updateHeight Steady recalcHeightAt
  split
  . split
    . next hle =>
      rw [getHeight_setHeight, if_pos ⟨rfl, rfl⟩]
      omega
    . next hlt =>
      simp only [true_iff]
      omega
  . split
    . next heq =>
      have hle := @findHeight_le ch x z y.val (Nat.le_of_lt y.isLt)
      rw [getHeight_setHeight, if_pos ⟨rfl, rfl⟩]
      apply iff_of_false
      . omega
      . exact not_not.mpr heq
    . next hne => exact iff_of_true rfl hne

end Cell

section Stored

variable {ch : Chunk} {x z : Fin 16} {y : Fin 256} {id : UInt16} {val : UInt8}

theorem getId_setIdAndMeta_of_same (h : ch.getType x y z = id <<< 4 ||| val.toUInt16)
    (x' : Fin 16) (y' : Fin 256) (z' : Fin 16)
    : (ch.setIdAndMeta x y z id val).getId x' y' z' = ch.getId x' y' z' := by
  by_cases hsame : x' = x ∧ y' = y ∧ z' = z
  . rw [hsame.1, hsame.2.1, hsame.2.2, getId_setIdAndMeta, ← h, getType_shiftRight]
  . exact getId_setIdAndMeta_of_ne hsame

theorem getHeight_setIdAndMeta_of_same
    : (ch.setIdAndMeta x y z id val).getHeight x z = ch.getHeight x z ↔ ch.Steady x y z id :=
  @getHeight_updateHeight_iff (ch.setType x y z (fun _ => id <<< 4 ||| val.toUInt16)) x z y id

theorem HeightmapOk.setIdAndMeta (hok : ch.HeightmapOk) (h : ch.Keeps x y z id val)
    : (ch.setIdAndMeta x y z id val).HeightmapOk := by
  rcases h with hid | ⟨hsame, hsteady⟩
  . apply hok.updateHeight
    . rfl
    . intro x' y' z'
      exact getId_setType (fun _ => pack_shiftRight_iff.mpr hid)
  . intro x' z'
    have hheight : (ch.setIdAndMeta x y z id val).getHeight x' z' = ch.getHeight x' z' := by
      by_cases hcolumn : x' = x ∧ z' = z
      . rw [hcolumn.1, hcolumn.2]
        exact getHeight_setIdAndMeta_of_same.mpr hsteady
      . exact getHeight_updateHeight_of_ne hcolumn
    rw [hheight]
    exact Top.congr (fun y' => getId_setIdAndMeta_of_same hsame x' y' z') (hok x' z')

theorem stored_iff (hok : ch.HeightmapOk)
    : Stored ch (ch.setIdAndMeta x y z id val) x y z id ↔ ch.Keeps x y z id val := by
  constructor
  . intro h
    by_cases hid : (id <<< 4 ||| val.toUInt16) >>> 4 = id
    . exact .inl (pack_shiftRight_iff.mp hid)
    . right
      -- the id is another one, so nothing may have changed
      have hsame : ch.getType x y z = id <<< 4 ||| val.toUInt16 := by
        rcases h.placed with hplaced | hplaced
        . rw [← hplaced, getType_setIdAndMeta]
        . rw [getId_setIdAndMeta] at hplaced
          exact absurd hplaced hid
      refine ⟨hsame, ?_⟩
      rw [← getHeight_setIdAndMeta_of_same]
      apply Top.unique h.top
      exact Top.congr (fun y' => getId_setIdAndMeta_of_same hsame x y' z) (hok x z)
  . intro h
    constructor
    . rcases h with hid | ⟨hsame, _⟩
      . right
        rw [getId_setIdAndMeta, pack_shiftRight_iff.mpr hid]
      . left
        rw [getType_setIdAndMeta, hsame]
    . intro x' y' z' hne
      exact getId_setIdAndMeta_of_ne hne
    . exact hok.setIdAndMeta h x z

end Stored

end Chunk

namespace Placing

open Transition

/--
`a` is no placement in the chunk, or it is one that has stored what it should.
-/
def Stores (r : Except Fault Placing) (a : PlaceAction) : Prop :=
  ∀ s x y z id val, r = .ok s → s.placement a = .ok (.set x y z id val) →
    s.found (x >>> (4 : Nat)) (z >>> (4 : Nat)) = true →
    ∃ s', s.act a = .ok s' ∧ Chunk.Stored s.ch s'.ch (low x) y (low z) id

/--
`a` is no placement in the chunk, or it is one of an id and a damage that fit.
-/
def Keeps (r : Except Fault Placing) (a : PlaceAction) : Prop :=
  ∀ s x y z id val, r = .ok s → s.placement a = .ok (.set x y z id val) →
    s.found (x >>> (4 : Nat)) (z >>> (4 : Nat)) = true →
    s.ch.Keeps (low x) y (low z) id val

/--
The slots are there that are used without a check, and the heightmap is right.
-/
structure Ready (s : Placing) : Prop where
  length_slots : s.inv.slots.length = 45
  curSlot : 0 ≤ s.curSlot ∧ s.curSlot ≤ 8
  heightmapOk : s.ch.HeightmapOk

section Step

variable {s s' : Placing} {a : PlaceAction}

theorem get_ok {win : Window} (hlen : win.slots.length = 45) {i : Int} (hi : 0 ≤ i ∧ i ≤ 44)
    : ∃ slot, win.get i = .ok slot := by
  have hlt : i.toNat < win.slots.length := by omega
  refine ⟨win.slots[i.toNat], ?_⟩
  rw [Window.get, if_neg (by omega), List.getElem?_eq_getElem hlt]

theorem onPlace_ok (h : s.Ready) (inRange : Int → Int → Int → Bool) (x y z : Int) (face : UInt8)
    : ∃ pl, s.onPlace inRange x y z face = .ok pl := by
  obtain ⟨slot, hslot⟩ := get_ok h.length_slots (i := 36 + s.curSlot)
    (by have := h.curSlot; omega)
  unfold onPlace
  split
  . exact ⟨_, rfl⟩
  . split
    . exact ⟨_, rfl⟩
    . split
      . exact ⟨_, rfl⟩
      . split
        . exact ⟨_, rfl⟩
        . rw [hslot]
          cases slot with
          | none => exact ⟨_, rfl⟩
          | some item => exact ⟨_, rfl⟩

theorem act_of_set {x z : Int} {y : Fin 256} {id : UInt16} {val : UInt8}
    (h : s.placement a = .ok (.set x y z id val))
    : s.act a = .ok { s with ch := setIdAndMeta s.found s.ch x y z id val } := by
  cases a with
  | place inRange x y z face =>
    have hset : s.onPlace inRange x y z face = _ := h
    unfold act
    dsimp only
    rw [hset]
    rfl
  | creative slot item => simp [placement] at h
  | held slot => simp [placement] at h
  | call op => simp [placement] at h

theorem stores_iff (h : s.Ready) : Stores (.ok s) a ↔ Keeps (.ok s) a := by
  constructor
  . intro hstores s' x y z id val heq hset hpos
    rw [Except.ok.injEq] at heq
    obtain ⟨s₁, hact, hstored⟩ := hstores s' x y z id val (by rw [heq]) hset hpos
    rw [act_of_set hset, Except.ok.injEq] at hact
    rw [← hact] at hstored
    dsimp only at hstored
    rw [setIdAndMeta, if_pos hpos] at hstored
    exact (Chunk.stored_iff (heq ▸ h.heightmapOk)).mp hstored
  . intro hkeeps s' x y z id val heq hset hpos
    rw [Except.ok.injEq] at heq
    refine ⟨_, act_of_set hset, ?_⟩
    dsimp only
    rw [setIdAndMeta, if_pos hpos]
    exact (Chunk.stored_iff (heq ▸ h.heightmapOk)).mpr
      (hkeeps s' x y z id val (by rw [heq]) hset hpos)

theorem ready_act (h : s.Ready) (hkeeps : Keeps (.ok s) a) : ∃ s', s.act a = .ok s' ∧ s'.Ready := by
  cases a with
  | creative slot item =>
    unfold act handleP10
    dsimp only
    split
    . exact ⟨s, rfl, h⟩
    . next hslot =>
      obtain ⟨old, hold⟩ := get_ok h.length_slots (i := slot) (by omega)
      rw [Window.set, hold]
      refine ⟨_, rfl, ?_, h.curSlot, h.heightmapOk⟩
      dsimp only [Window.put]
      rw [List.length_set]
      exact h.length_slots
  | held slot =>
    unfold act handleP09
    dsimp only
    refine ⟨_, rfl, ?_⟩
    split
    . exact h
    . next hslot => exact ⟨h.length_slots, by dsimp only; omega, h.heightmapOk⟩
  | place inRange x y z face =>
    obtain ⟨pl, hpl⟩ := onPlace_ok h inRange x y z face
    unfold act
    dsimp only
    rw [hpl]
    cases pl with
    | ignored => exact ⟨s, rfl, h⟩
    | disconnect => exact ⟨s, rfl, h⟩
    | set x' y' z' id val =>
      refine ⟨_, rfl, h.length_slots, h.curSlot, ?_⟩
      dsimp only
      unfold setIdAndMeta
      split
      . next hpos => exact h.heightmapOk.setIdAndMeta (hkeeps s x' y' z' id val rfl hpl hpos)
      . exact h.heightmapOk
  | call op => exact ⟨_, rfl, h.length_slots, h.curSlot, h.heightmapOk.call op.property⟩

end Step

theorem ready_new (found : Int → Int → Bool) (cx cz : Int) : (new found cx cz).Ready where
  length_slots := rfl
  curSlot := ⟨Int.le_refl 0, by dsimp only [new]; omega⟩
  heightmapOk := Chunk.heightmapOk_new cx cz

/--
In every run of a client, all placements store what they should just if all of them are of ids and
damages that fit.
-/
theorem stores_iff_keeps (found : Int → Int → Bool) (cx cz : Int) (as : List PlaceAction)
    : EachStep step Stores (.ok (new found cx cz)) as
        ↔
      EachStep step Keeps (.ok (new found cx cz)) as := by
  apply @eachStep_congr _ _ step (fun r => ∃ s, r = .ok s ∧ s.Ready)
  . rintro r a r' ⟨s, rfl, hready⟩ _
    exact stores_iff hready
  . rintro r a r' ⟨s, rfl, hready⟩ hkeeps hstep
    obtain ⟨s', hact, hready'⟩ := ready_act hready hkeeps
    rw [step, Option.some.injEq, hact] at hstep
    exact ⟨s', hstep.symm, hready'⟩
  . exact ⟨_, rfl, ready_new found cx cz⟩

/--
A client takes 4097 and places it, which stores stone.
-/
theorem not_stores_4097
    : ¬ EachStep step Stores (.ok (new (fun _ _ => true) 0 0))
        [.creative 36 { id := 4097, damage := 0, amount := 1 },
          .place (fun _ _ _ => true) 0 0 0 1] := by
  intro h
  obtain ⟨_, hrest⟩ := h _ rfl
  obtain ⟨hstores, _⟩ := hrest _ rfl
  obtain ⟨s', hact, hstored⟩ := hstores _ 0 1 0 4097 0 rfl rfl rfl
  rw [act_of_set rfl, Except.ok.injEq] at hact
  rw [← hact] at hstored
  rcases hstored.placed with hsame | hid
  . have htype := @Chunk.getType_setIdAndMeta (.new 0 0) 0 0 1 4097 0
    have hzero : (4097 : UInt16) <<< 4 ||| (0 : UInt8).toUInt16 = 0 := htype.symm.trans hsame
    exact absurd hzero (by decide)
  . have hid' := @Chunk.getId_setIdAndMeta (.new 0 0) 0 0 1 4097 0
    have hone : ((4097 : UInt16) <<< 4 ||| (0 : UInt8).toUInt16) >>> 4 = 4097 :=
      hid'.symm.trans hid
    exact absurd hone (by decide)

/--
In the memory of a world `set_id_and_meta` does the same to each of the chunks.
-/
theorem chunkAt_setIdAndMeta {s : Lighting} (h : s.mem.Sound) {p : BlockPos} {ch ch' : Nat}
    {c : Chunk} (hp : s.mem.getChunk p.chunkPos.x p.chunkPos.z = some ch')
    (hc : s.mem.chunkAt ch = some c) (prov : Option Chunk) (gen : WorldGenerator) (id : UInt16)
    (val : UInt8)
    : ∃ s', s.setIdAndMeta prov gen p id val = .ok s'
        ∧ s'.mem.chunkAt ch = some (setIdAndMeta (fun cx cz => s.mem.getChunk cx cz == some ch) c
            p.x p.y p.z id val) := by
  have halive := h.alive_getChunk p.isInt_chunkPos hp
  have hwrite : s.mem.write prov gen p id (·.setIdAndMeta p.bx p.y p.bz id val)
      = .ok (some (s.mem.edit ch' (·.setIdAndMeta p.bx p.y p.bz id val))) := by
    rw [WorldMemory.write, hp]
    dsimp only
    rw [WorldMemory.editChunk_ok halive]
    rfl
  refine ⟨{ s with mem := s.mem.edit ch' (·.setIdAndMeta p.bx p.y p.bz id val) }.enqueue p, ?_, ?_⟩
  . rw [Lighting.setIdAndMeta, Lighting.update, hwrite]
    rfl
  . rw [Lighting.enqueue, WorldMemory.chunkAt_edit, hc, setIdAndMeta]
    have hfound : (s.mem.getChunk (p.x >>> (4 : Nat)) (p.z >>> (4 : Nat)) == some ch) = true
        ↔ ch = ch' := by
      have hp' : s.mem.getChunk (p.x >>> (4 : Nat)) (p.z >>> (4 : Nat)) = some ch' := hp
      rw [hp', beq_iff_eq, Option.some.injEq]
      exact eq_comm
    by_cases heq : ch = ch'
    . rw [if_pos heq, if_pos (hfound.mpr heq)]
      rfl
    . rw [if_neg heq, if_neg (hfound.not.mpr heq)]

end Placing

end HCraft
