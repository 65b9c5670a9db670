import HCraft.Entity.Impl
import HCraft.Lib.Transition

/-!
This module contains when the lists of entities that the chunks keep say where the entities are.
-/

namespace HCraft

open Transition

variable {ω κ ε : Type} [DecidableEq ε] {worlds : ω → World κ}

@[simp]
theorem Pointer.ofOption_some {α : Type} {a : α} : ofOption (some a) = .to a := rfl

@[simp]
theorem Pointer.ofOption_none {α : Type} : (ofOption none : Pointer α) = .null := rfl

/--
The chunk that a position lies in, if it is loaded.
-/
def World.chunkAt (w : World κ) (pos : EntityPos) : Option κ :=
  w.getChunk pos.chunkPos.x pos.chunkPos.z

namespace Entities

variable {s : Entities ω κ ε} {e e' : ε} {ch ch' : κ}

/--
The entity is on the list of `ch` once, and on no other list.
-/
def OnlyIn (s : Entities ω κ ε) (e : ε) (ch : κ) : Prop :=
  (s.ents ch).count e = 1 ∧ ∀ ch', ch' ≠ ch → e ∉ s.ents ch'

theorem OnlyIn.mem (h : s.OnlyIn e ch) : e ∈ s.ents ch := by
  apply List.count_pos_iff.mp
  rw [h.left]
  omega

theorem OnlyIn.eq (h : s.OnlyIn e ch) (hmem : e ∈ s.ents ch') : ch' = ch := by
  by_contra hne
  exact h.right ch' hne hmem

theorem OnlyIn.congr {s' : Entities ω κ ε} (h : s.OnlyIn e ch)
    (hcount : ∀ ch', (s'.ents ch').count e = (s.ents ch').count e) : s'.OnlyIn e ch := by
  constructor
  . rw [hcount, h.left]
  . intro ch' hne hmem
    have hpos := List.count_pos_iff.mpr hmem
    rw [hcount] at hpos
    exact h.right ch' hne (List.count_pos_iff.mp hpos)

@[simp]
theorem entity_set_self {ent : Entity ω κ} : (s.set e ent).entity e = ent :=
  Function.update_self ..

@[simp]
theorem ents_set {ent : Entity ω κ} : (s.set e ent).ents = s.ents := rfl

variable [DecidableEq κ]

omit [DecidableEq ε] in
@[simp]
theorem entity_registerEntity : (s.registerEntity ch e).entity = s.entity := rfl

omit [DecidableEq ε] in
theorem mem_registerEntity
    : e' ∈ (s.registerEntity ch e).ents ch' ↔ e' ∈ s.ents ch' ∨ (ch' = ch ∧ e' = e) := by
  unfold registerEntity
  dsimp only
  by_cases hch : ch' = ch
  . rw [hch, Function.update_self, List.mem_append, List.mem_singleton]
    simp
  . rw [Function.update_of_ne hch]
    simp [hch]

theorem mem_deregisterEntity
    : e' ∈ (s.deregisterEntity ch e).ents ch' ↔ e' ∈ s.ents ch' ∧ ¬ (ch' = ch ∧ e' = e) := by
  unfold deregisterEntity
  dsimp only
  by_cases hch : ch' = ch
  . rw [hch, Function.update_self, List.mem_filter]
    simp
  . rw [Function.update_of_ne hch]
    simp [hch]

theorem count_registerEntity_self
    : ((s.registerEntity ch e).ents ch).count e = (s.ents ch).count e + 1 := by
  unfold registerEntity
  dsimp only
  rw [Function.update_self, List.count_append, List.count_singleton_self]

theorem count_registerEntity_of_ne (hne : e' ≠ e)
    : ((s.registerEntity ch e).ents ch').count e' = (s.ents ch').count e' := by
  unfold registerEntity
  dsimp only
  by_cases hch : ch' = ch
  . rw [hch, Function.update_self, List.count_append]
    simp [hne.symm]
  . rw [Function.update_of_ne hch]

theorem count_deregisterEntity_of_ne (hne : e' ≠ e)
    : ((s.deregisterEntity ch e).ents ch').count e' = (s.ents ch').count e' := by
  unfold deregisterEntity
  dsimp only
  by_cases hch : ch' = ch
  . rw [hch, Function.update_self, List.count_filter]
    simpa using hne
  . rw [Function.update_of_ne hch]

theorem onlyIn_registerEntity (h : ∀ ch', e ∉ s.ents ch') : (s.registerEntity ch e).OnlyIn e ch := by
  constructor
  . rw [count_registerEntity_self, List.count_eq_zero_of_not_mem (h ch)]
  . intro ch' hne hmem
    cases mem_registerEntity.mp hmem with
    | inl hmem => exact h ch' hmem
    | inr heq => exact hne heq.left

end Entities

namespace Scene

open Entities

variable {s s' : Scene ω κ ε} {e e' : ε} {ch ch' : κ}

/--
Each spawned entity whose position lies in a loaded chunk is on the list of this chunk once, and on
no other; a despawned entity is on no list.
-/
structure Tracked (worlds : ω → World κ) (s : Scene ω κ ε) : Prop where
  listed : ∀ e, s.phase e = .spawned →
    ∃ w, (s.mem.entity e).w = .to w ∧
      ∀ ch, (worlds w).chunkAt (s.mem.entity e).pos = some ch →
        (s.mem.entity e).currCh = .to ch ∧ s.mem.OnlyIn e ch
  gone : ∀ e, s.phase e = .despawned → ∀ ch, e ∉ s.mem.ents ch

/--
No call has had undefined behaviour, and the lists are right.
-/
def Right (worlds : ω → World κ) : Except Fault (Scene ω κ ε) → Prop
  | .error _ => False
  | .ok s => s.Tracked worlds

/--
What a call must not do: spawn an entity that is there already, move an entity to a loaded chunk
that does not have it on its list, despawn an entity that is in no loaded chunk, move or despawn an
entity that has never been spawned.
-/
def Keeps (worlds : ω → World κ) (s : Scene ω κ ε) : EntityCall ω ε → Prop
  | .spawn e w pos => (worlds w).chunkAt pos = none ∨ s.phase e ≠ .spawned
  | .move e pos =>
    match s.phase e with
    | .fresh => False
    | .spawned =>
      ∀ w ch, (s.mem.entity e).w = .to w → (worlds w).chunkAt pos = some ch → e ∈ s.mem.ents ch
    | .despawned => True
  | .despawn e =>
    match s.phase e with
    | .fresh => False
    | .spawned => (s.mem.entity e).currCh ≠ .null
    | .despawned => True

def KeepsOk (worlds : ω → World κ) : Except Fault (Scene ω κ ε) → EntityCall ω ε → Prop
  | .error _, _ => False
  | .ok s, c => s.Keeps worlds c

/--
Where an entity is. A spawned one is on the list of the chunk `home`.
-/
structure Placed (worlds : ω → World κ) (s : Scene ω κ ε) (e : ε) : Prop where
  fresh : s.phase e = .fresh →
    (s.mem.entity e).w = .unset ∧ (s.mem.entity e).currCh = .unset ∧ ∀ ch, e ∉ s.mem.ents ch
  spawned : s.phase e = .spawned →
    ∃ w home, (s.mem.entity e).w = .to w
      ∧ (s.mem.entity e).currCh = .ofOption ((worlds w).chunkAt (s.mem.entity e).pos)
      ∧ (∀ ch, (worlds w).chunkAt (s.mem.entity e).pos = some ch → ch = home)
      ∧ s.mem.OnlyIn e home
  despawned : s.phase e = .despawned →
    (s.mem.entity e).w = .null ∧ (s.mem.entity e).currCh = .null ∧ ∀ ch, e ∉ s.mem.ents ch

def AllPlaced (worlds : ω → World κ) : Except Fault (Scene ω κ ε) → Prop
  | .error _ => False
  | .ok s => ∀ e, s.Placed worlds e

theorem Placed.not_listed (h : s.Placed worlds e) (hphase : s.phase e ≠ .spawned)
    : ∀ ch, e ∉ s.mem.ents ch := by
  cases hp : s.phase e with
  | fresh => exact (h.fresh hp).right.right
  | spawned => exact absurd hp hphase
  | despawned => exact (h.despawned hp).right.right

theorem tracked_of_placed (h : ∀ e, s.Placed worlds e) : s.Tracked worlds := by
  constructor
  . intro e hphase
    obtain ⟨w, home, hw, hcurr, hhome, honly⟩ := (h e).spawned hphase
    refine ⟨w, hw, ?_⟩
    intro ch hch
    rw [hcurr, hch, hhome ch hch]
    exact ⟨rfl, honly⟩
  . intro e hphase
    exact ((h e).despawned hphase).right.right

/--
A call for one entity leaves the other ones where they are.
-/
theorem Placed.congr (h : s.Placed worlds e) (hphase : s'.phase e = s.phase e)
    (hentity : s'.mem.entity e = s.mem.entity e)
    (hcount : ∀ ch, (s'.mem.ents ch).count e = (s.mem.ents ch).count e) : s'.Placed worlds e := by
  have hmem (ch : κ) : e ∈ s'.mem.ents ch ↔ e ∈ s.mem.ents ch := by
    rw [← List.count_pos_iff, hcount, List.count_pos_iff]
  constructor
  . intro hfresh
    rw [hentity]
    simpa only [hmem] using h.fresh (hphase ▸ hfresh)
  . intro hspawned
    rw [hentity]
    obtain ⟨w, home, hw, hcurr, hhome, honly⟩ := h.spawned (hphase ▸ hspawned)
    exact ⟨w, home, hw, hcurr, hhome, honly.congr hcount⟩
  . intro hdespawned
    rw [hentity]
    simpa only [hmem] using h.despawned (hphase ▸ hdespawned)

variable [DecidableEq κ]

theorem call_spawn_of_some {w : ω} {pos : EntityPos} (hch : (worlds w).chunkAt pos = some ch)
    : s.call worlds (.spawn e w pos) = .ok {
        mem := (s.mem.set e { pos := pos, w := .to w, currCh := .to ch }).registerEntity ch e,
        phase := Function.update s.phase e .spawned } := by
  unfold World.chunkAt at hch
  unfold call Entities.spawn
  dsimp only
  rw [hch]

theorem call_spawn_of_none {w : ω} {pos : EntityPos} (hch : (worlds w).chunkAt pos = none)
    : s.call worlds (.spawn e w pos) = .ok s := by
  unfold World.chunkAt at hch
  unfold call Entities.spawn
  dsimp only
  rw [hch]

theorem call_move_of_to {w : ω} {pos : EntityPos} (hw : (s.mem.entity e).w = .to w)
    (hcurr : (s.mem.entity e).currCh = .ofOption ((worlds w).chunkAt (s.mem.entity e).pos))
    : s.call worlds (.move e pos) = .ok { s with
        mem := s.mem.set e { s.mem.entity e with
          pos := pos, currCh := .ofOption ((worlds w).chunkAt pos) } } := by
  have hmove : s.mem.move worlds e pos = .ok (s.mem.set e { s.mem.entity e with
      pos := pos, currCh := .ofOption ((worlds w).chunkAt pos) }) := by
    unfold Entities.move
    dsimp only
    rw [hw]
    dsimp only
    by_cases hcp : (s.mem.entity e).pos.chunkPos = pos.chunkPos
    . rw [if_neg (not_not_intro hcp)]
      have hsame : (worlds w).chunkAt pos = (worlds w).chunkAt (s.mem.entity e).pos := by
        unfold World.chunkAt
        rw [hcp]
      rw [hsame, ← hcurr, ← hw]
    . rw [if_pos hcp]
      rfl
  unfold call
  dsimp only
  rw [hmove]
  rfl

theorem call_move_of_null {pos : EntityPos} (hw : (s.mem.entity e).w = .null)
    : s.call worlds (.move e pos) = .ok s := by
  unfold call Entities.move
  dsimp only
  rw [hw]
  rfl

theorem call_move_of_unset {pos : EntityPos} (hw : (s.mem.entity e).w = .unset)
    : s.call worlds (.move e pos) = .error .uninitialised := by
  unfold call Entities.move
  dsimp only
  rw [hw]
  rfl

theorem call_despawn_of_unset (hcurr : (s.mem.entity e).currCh = .unset)
    : s.call worlds (.despawn e) = .error .uninitialised := by
  unfold call Entities.despawn
  dsimp only
  rw [hcurr]
  rfl

theorem call_despawn_of_spawned (hphase : s.phase e = .spawned)
    (hcurr : (s.mem.entity e).currCh = .to ch)
    : s.call worlds (.despawn e) = .ok {
        mem := (s.mem.deregisterEntity ch e).set e
          { s.mem.entity e with w := .null, currCh := .null },
        phase := Function.update s.phase e .despawned } := by
  unfold call Entities.despawn
  dsimp only
  rw [hcurr, hphase]
  rfl

theorem call_despawn_of_null (hphase : s.phase e = .spawned)
    (hcurr : (s.mem.entity e).currCh = .null)
    : s.call worlds (.despawn e)
        = .ok { s with phase := Function.update s.phase e .despawned } := by
  unfold call Entities.despawn
  dsimp only
  rw [hcurr, hphase]
  rfl

theorem call_despawn_again (hphase : s.phase e = .despawned)
    (hcurr : (s.mem.entity e).currCh = .null)
    : s.call worlds (.despawn e) = .ok s := by
  unfold call Entities.despawn
  dsimp only
  rw [hcurr, hphase]
  rfl

theorem allPlaced_spawn (h : ∀ e, s.Placed worlds e) {w : ω} {pos : EntityPos}
    (hkeeps : s.Keeps worlds (.spawn e w pos))
    : AllPlaced worlds (s.call worlds (.spawn e w pos)) := by
  cases hch : (worlds w).chunkAt pos with
  | none =>
    rw [call_spawn_of_none hch]
    exact h
  | some ch =>
    rw [call_spawn_of_some hch]
    have hphase : s.phase e ≠ .spawned := by
      cases hkeeps with
      | inl hnone => simp [hch] at hnone
      | inr hphase => exact hphase
    intro e'
    by_cases he : e' = e
    . subst he
      constructor
      . simp
      . intro _
        simp only [entity_registerEntity, entity_set_self]
        refine ⟨w, ch, rfl, ?_, ?_, ?_⟩
        . rw [hch]
          rfl
        . intro ch' hch'
          rw [hch] at hch'
          injection hch' with hch'
          exact hch'.symm
        . apply onlyIn_registerEntity
          exact (h e').not_listed hphase
      . simp
    . apply (h e').congr
      . exact Function.update_of_ne he ..
      . exact Function.update_of_ne he ..
      . intro ch'
        exact count_registerEntity_of_ne he

theorem allPlaced_move (h : ∀ e, s.Placed worlds e) {pos : EntityPos}
    (hkeeps : s.Keeps worlds (.move e pos)) : AllPlaced worlds (s.call worlds (.move e pos)) := by
  cases hphase : s.phase e with
  | fresh => simp [Keeps, hphase] at hkeeps
  | despawned =>
    rw [call_move_of_null ((h e).despawned hphase).left]
    exact h
  | spawned =>
    simp only [Keeps, hphase] at hkeeps
    obtain ⟨w, home, hw, hcurr, hhome, honly⟩ := (h e).spawned hphase
    rw [call_move_of_to hw hcurr]
    intro e'
    by_cases he : e' = e
    . subst he
      constructor
      . simp [hphase]
      . intro _
        simp only [entity_set_self]
        refine ⟨w, home, hw, rfl, ?_, honly⟩
        intro ch hch
        exact honly.eq (hkeeps w ch hw hch)
      . simp [hphase]
    . apply (h e').congr
      . rfl
      . exact Function.update_of_ne he ..
      . intro ch'
        rfl

theorem allPlaced_despawn (h : ∀ e, s.Placed worlds e) (hkeeps : s.Keeps worlds (.despawn e))
    : AllPlaced worlds (s.call worlds (.despawn e)) := by
  cases hphase : s.phase e with
  | fresh => simp [Keeps, hphase] at hkeeps
  | despawned =>
    rw [call_despawn_again hphase ((h e).despawned hphase).right.left]
    exact h
  | spawned =>
    simp only [Keeps, hphase] at hkeeps
    obtain ⟨w, home, hw, hcurr, hhome, honly⟩ := (h e).spawned hphase
    cases hch : (worlds w).chunkAt (s.mem.entity e).pos with
    | none =>
      rw [hch] at hcurr
      exact absurd hcurr hkeeps
    | some ch =>
      rw [hch, hhome ch hch] at hcurr
      rw [call_despawn_of_spawned hphase hcurr]
      intro e'
      by_cases he : e' = e
      . subst he
        constructor
        . simp
        . simp
        . intro _
          simp only [entity_set_self, ents_set, true_and]
          intro ch' hmem
          obtain ⟨hmem, hhere⟩ := mem_deregisterEntity.mp hmem
          exact hhere ⟨honly.eq hmem, rfl⟩
      . apply (h e').congr
        . exact Function.update_of_ne he ..
        . exact Function.update_of_ne he ..
        . intro ch'
          exact count_deregisterEntity_of_ne he

theorem not_right_spawn (h : ∀ e, s.Placed worlds e) {w : ω} {pos : EntityPos}
    (hkeeps : ¬ s.Keeps worlds (.spawn e w pos))
    : ¬ Right worlds (s.call worlds (.spawn e w pos)) := by
  simp only [Keeps, not_or, ne_eq, not_not] at hkeeps
  obtain ⟨ch, hch⟩ := Option.ne_none_iff_exists'.mp hkeeps.left
  obtain ⟨_, home, _, _, _, honly⟩ := (h e).spawned hkeeps.right
  rw [call_spawn_of_some hch]
  intro hright
  obtain ⟨w', hw', hlisted⟩ := hright.listed e (Function.update_self ..)
  simp only [entity_registerEntity, entity_set_self, Pointer.to.injEq] at hw' hlisted
  subst hw'
  -- the entity is on the list of `home`, and once more on that of `ch`
  have hadded := (hlisted ch hch).right
  have hhome := hadded.eq (mem_registerEntity.mpr (.inl honly.mem))
  have hcount := hadded.left
  have honce := honly.left
  rw [count_registerEntity_self, ents_set] at hcount
  rw [hhome] at honce
  omega

theorem not_right_move (h : ∀ e, s.Placed worlds e) {pos : EntityPos}
    (hkeeps : ¬ s.Keeps worlds (.move e pos)) : ¬ Right worlds (s.call worlds (.move e pos)) := by
  cases hphase : s.phase e with
  | fresh =>
    rw [call_move_of_unset ((h e).fresh hphase).left]
    exact not_false
  | despawned => simp [Keeps, hphase] at hkeeps
  | spawned =>
    simp only [Keeps, hphase, not_forall] at hkeeps
    obtain ⟨w, ch, hw, hch, hmem⟩ := hkeeps
    obtain ⟨w', home, hw', hcurr, _⟩ := (h e).spawned hphase
    rw [hw] at hw'
    injection hw' with hw'
    subst hw'
    rw [call_move_of_to hw hcurr]
    intro hright
    obtain ⟨w', hw', hlisted⟩ := hright.listed e hphase
    simp only [entity_set_self, hw, Pointer.to.injEq] at hw' hlisted
    subst hw'
    exact hmem (hlisted ch hch).right.mem

theorem not_right_despawn (h : ∀ e, s.Placed worlds e) (hkeeps : ¬ s.Keeps worlds (.despawn e))
    : ¬ Right worlds (s.call worlds (.despawn e)) := by
  cases hphase : s.phase e with
  | fresh =>
    rw [call_despawn_of_unset ((h e).fresh hphase).right.left]
    exact not_false
  | despawned => simp [Keeps, hphase] at hkeeps
  | spawned =>
    simp only [Keeps, hphase, ne_eq, not_not] at hkeeps
    obtain ⟨w, home, _, _, _, honly⟩ := (h e).spawned hphase
    rw [call_despawn_of_null hphase hkeeps]
    intro hright
    exact hright.gone e (Function.update_self ..) home honly.mem

end Scene

namespace Scene

/--
Two chunks next to each other, of an unbounded world.
-/
def twoChunks : World Nat where
  width := -1
  depth := -1
  edgeCh := 2
  chunks := fun x z => if (x, z) = (0, 0) then some 0 else if (x, z) = (1, 0) then some 1 else none

def blockAt (x : ℚ) : EntityPos :=
  ⟨some x, some 64, some 0, some 0, some 0, true⟩

variable {ω κ ε : Type} [DecidableEq κ] [DecidableEq ε] {worlds : ω → World κ}

/--
The lists are right throughout a run just in case no call does what it must not do.
-/
theorem tracked_iff (calls : List (EntityCall ω ε))
    : Always (step worlds) (Right worlds) (.ok (.new : Scene ω κ ε)) calls
        ↔
      EachStep (step worlds) (KeepsOk worlds) (.ok (.new : Scene ω κ ε)) calls := by
  apply always_iff_eachStep (I := AllPlaced worlds) (A := fun _ => True)
  . intro s h
    cases s with
    | error f => exact h
    | ok s => exact tracked_of_placed h
  . intro s c s' h _ hkeeps hstep
    cases s with
    | error f => exact h.elim
    | ok s =>
      injection hstep with hstep
      subst hstep
      cases c with
      | spawn e w pos => exact allPlaced_spawn h hkeeps
      | move e pos => exact allPlaced_move h hkeeps
      | despawn e => exact allPlaced_despawn h hkeeps
  . intro s c s' h _ hkeeps hstep
    cases s with
    | error f => exact h.elim
    | ok s =>
      injection hstep with hstep
      subst hstep
      cases c with
      | spawn e w pos => exact not_right_spawn h hkeeps
      | move e pos => exact not_right_move h hkeeps
      | despawn e => exact not_right_despawn h hkeeps
  . intro e
    constructor
    . intro _
      exact ⟨rfl, rfl, fun _ => List.not_mem_nil⟩
    . nofun
    . nofun
  . simp

/--
A step to the chunk next door is enough.
-/
theorem not_tracked
    : ¬ Always (step fun _ : Unit => twoChunks) (Right fun _ => twoChunks)
          (.ok (.new : Scene Unit Nat Unit))
          [.spawn () () (blockAt 0), .move () (blockAt 16)] := by
  intro h
  have hlast := h.last rfl
  obtain ⟨w, hw, hlisted⟩ := hlast.listed () (by decide)
  have hmem := (hlisted 1 (by decide)).right.mem
  revert hmem
  decide

end Scene

end HCraft
