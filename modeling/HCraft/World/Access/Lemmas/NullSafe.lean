import HCraft.World.Access.Lemmas.Frame

/-!
This module shows when the lighting manager stays clear of chunks that are not loaded and of blocks
that are not known.
-/

namespace HCraft

namespace WorldMemory

variable (m : WorldMemory) (v : LightCell → Nat)

/--
The block at `p` is opaque and does not have its light, where `v` is the light of the blocks.
-/
def Resets (p : BlockPos) : Prop :=
  ∃ cell sl, m.cell p = some cell ∧ m.opaqueLight cell = some sl ∧ sl ≠ v cell

/--
The positions that a call for `p` comes to: it goes on wherever it sets the light of an opaque block.
-/
inductive Touches (p : BlockPos) : BlockPos → Prop where
  | self : Touches p p
  | next {q r : BlockPos} (h : Touches p q) (hresets : m.Resets v q) (hr : r ∈ q.neighbours)
    : Touches p r

/--
A call for `p` comes to loaded chunks and known blocks only.
-/
def Contained (p : BlockPos) : Prop :=
  ∀ q, m.Touches v p q → Lighting.Ready m q

variable {m v} {v' : LightCell → Nat} {m' : WorldMemory} {p q r : BlockPos}

theorem Touches.trans (h : m.Touches v p q) (h' : m.Touches v q r) : m.Touches v p r := by
  induction h' with
  | self => exact h
  | next _ hresets hr ih => exact .next ih hresets hr

theorem Touches.mono (hresets : ∀ q, m.Resets v' q → m.Resets v q) (h : m.Touches v' p q)
    : m.Touches v p q := by
  induction h with
  | self => exact .self
  | next _ hq hr ih => exact .next ih (hresets _ hq) hr

theorem Contained.ready (h : m.Contained v p) : Lighting.Ready m p :=
  h p .self

theorem Contained.mono (hresets : ∀ q, m.Resets v' q → m.Resets v q) (h : m.Contained v p)
    : m.Contained v' p :=
  fun q hq => h q (hq.mono hresets)

theorem Contained.next (h : m.Contained v p) (hp : m.Resets v p) (hq : q ∈ p.neighbours)
    : m.Contained v q :=
  fun r hr => h r ((Touches.self.next hp hq).trans hr)

/--
Giving an opaque block its light makes less to do.
-/
theorem resets_of_update {c : LightCell} {sl : Nat} (hc : m.opaqueLight c = some sl)
    (h : m.Resets (Function.update v c sl) q) : m.Resets v q := by
  obtain ⟨cell, sl', hcell, hsl', hne⟩ := h
  by_cases heq : cell = c
  . subst heq
    rw [hc] at hsl'
    injection hsl' with hsl'
    rw [Function.update_self] at hne
    exact absurd hsl'.symm hne
  . rw [Function.update_of_ne heq] at hne
    exact ⟨cell, sl', hcell, hsl', hne⟩

theorem Relit.resets (h : m.Relit m') (q : BlockPos) : m'.Resets v q ↔ m.Resets v q := by
  unfold Resets
  rw [h.cell, h.opaqueLight]

theorem Relit.touches (h : m.Relit m') (hq : m.Touches v p q) : m'.Touches v p q := by
  induction hq with
  | self => exact .self
  | next _ hq hr ih => exact .next ih ((h.resets _).mpr hq) hr

theorem Relit.contained (h : m.Relit m') : m'.Contained v p ↔ m.Contained v p := by
  have htouches (q : BlockPos) : m'.Touches v p q ↔ m.Touches v p q :=
    ⟨h.symm.touches, h.touches⟩
  unfold Contained
  simp only [htouches, Lighting.ready_congr h]

end WorldMemory

namespace Lighting

open Transition

/--
What may happen to a world and its light. `set_id` and `set_id_and_meta` are a `write` (`val` is the
meta, where there is one) and an `enqueue`.
-/
inductive Op where
  | write (prov : Option Chunk) (gen : WorldGenerator) (p : BlockPos) (id : UInt16) (val : Option UInt8)
  | enqueue (p : BlockPos)
  | act (a : Action)

/--
What a `write` does to the chunk.
-/
def Op.set (p : BlockPos) (id : UInt16) : Option UInt8 → Chunk → Chunk
  | none, c => c.setId p.bx p.y p.bz id
  | some val, c => c.setIdAndMeta p.bx p.y p.bz id val

variable (s : Lighting)

def doWrite (prov : Option Chunk) (gen : WorldGenerator) (p : BlockPos) (id : UInt16)
    (val : Option UInt8) : Except Fault Lighting := do
  match ← s.mem.write prov gen p id (Op.set p id val) with
  | none => return s
  | some mem => return { s with mem }

/--
The calls that an `enqueue` or an item of the queue leads to are made before anything else happens.
-/
def stepOp : Except Fault Lighting → Op → Option (Except Fault Lighting)
  | .error _, _ => none
  | .ok s, .write prov gen p id val => if s.calls = [] then some (s.doWrite prov gen p id val) else none
  | .ok s, .enqueue p => if s.calls = [] then some (.ok (s.enqueue p)) else none
  | .ok s, .act a => s.act a

/--
The provider returns a chunk with the position it was asked for.
-/
def Op.Proper : Op → Prop
  | .write prov _ p _ _ => ∀ c ∈ prov, c.pos = p.chunkPos
  | _ => True

/--
What is enqueued, and what is looked at because the light of an item changes, is contained.
-/
def Careful : Except Fault Lighting → Op → Prop
  | .ok s, .enqueue p => s.mem.Contained s.mem.lightAt p
  | .ok s, .act (.work i) =>
    ∀ p ∈ s.updates[i]?, ∀ c ∈ s.mem.cell p,
      s.mem.rightLight s.mem.lightAt c ≠ s.mem.lightAt c →
        ∀ q ∈ p.neighbours,
          s.mem.Contained
            (Function.update s.mem.lightAt c (s.mem.rightLight s.mem.lightAt c)) q
  | _, _ => True

/--
All calls that are still to be made are contained.
-/
def CallsContained (r : Except Fault Lighting) : Prop :=
  ∃ s, r = .ok s ∧ s.mem.Sound ∧ ∀ p ∈ s.calls, s.mem.Contained s.mem.lightAt p

variable {s} {s' : Lighting} {r r' : Except Fault Lighting} {a : Action}

theorem contained_work (h : s.mem.Sound) {i : Nat} (hcareful : Careful (.ok s) (.act (.work i)))
    (hact : s.act (.work i) = some r) : CallsContained r := by
  unfold act at hact
  dsimp only at hact
  split at hact
  . next p hnone hitem =>
    injection hact with hact
    obtain ⟨s', hok, hrelit, habs⟩ :=
      calcSl_spec (s := { s with updates := s.updates.eraseIdx i }) (p := p) h
    refine ⟨s', hact ▸ hok, hrelit.edited.sound h, ?_⟩
    intro q hq
    rw [hrelit.contained]
    have hcalls : s'.abs.calls = s'.calls := rfl
    have hvalue : s'.abs.value = s'.mem.lightAt := rfl
    rw [← hcalls, habs] at hq
    rw [← hvalue, habs]
    unfold Relaxation.recompute at hq ⊢
    split at hq
    . rw [show Relaxation.State.calls _ = s.calls from rfl, hnone] at hq
      cases hq
    . next c hcell =>
      dsimp only
      split at hq
      . next hne =>
        rw [if_pos hne]
        have hmem : q ∈ p.neighbours ++ s.calls := hq
        rw [hnone, List.append_nil] at hmem
        exact hcareful p hitem c hcell hne q hmem
      . rw [show Relaxation.State.calls _ = s.calls from rfl, hnone] at hq
        cases hq
  . cases hact

/--
A call for a known block: it has its light, or it gets it and its neighbours are next.
-/
theorem call_spec (h : s.mem.Sound) {p : BlockPos} {calls : List BlockPos} (hnext : s.calls = p :: calls)
    (hp : Ready s.mem p)
    : ∃ s', s.act .call = some (.ok s')
        ∧ s.mem.Relit s'.mem
        ∧ ((¬ s.mem.Resets s.mem.lightAt p ∧ s'.calls = calls ∧ s'.mem.lightAt = s.mem.lightAt)
          ∨ ∃ cell sl, s.mem.cell p = some cell ∧ s.mem.opaqueLight cell = some sl
            ∧ sl ≠ s.mem.lightAt cell
            ∧ s'.calls = p.neighbours ++ calls
            ∧ s'.mem.lightAt = Function.update s.mem.lightAt cell sl) := by
  obtain ⟨cell, hcell, hknown⟩ := hp
  obtain ⟨s', hok, hrelit, habs⟩ := enqueueSlNoLock_spec (s := { s with calls }) h hcell hknown
  refine ⟨s', ?_, hrelit, ?_⟩
  . unfold act
    dsimp only
    rw [hnext]
    exact congrArg some hok
  . have hcalls : s'.abs.calls = s'.calls := rfl
    have hvalue : s'.abs.value = s'.mem.lightAt := rfl
    rw [← hcalls, ← hvalue]
    unfold Relaxation.enqueue at habs
    rw [show s.mem.relaxation.cell p = some cell from hcell] at habs
    dsimp only at habs
    split at habs
    . next hsl =>
      injection habs with habs
      left
      rw [← habs]
      refine ⟨?_, rfl, rfl⟩
      rintro ⟨cell', sl, hcell', hsl', _⟩
      rw [hcell] at hcell'
      injection hcell' with hcell'
      rw [← hcell', show s.mem.opaqueLight cell = none from hsl] at hsl'
      cases hsl'
    . next sl hsl =>
      split at habs
      . next hne =>
        injection habs with habs
        right
        rw [← habs]
        exact ⟨cell, sl, hcell, hsl, hne, rfl, rfl⟩
      . next heq =>
        injection habs with habs
        left
        rw [← habs]
        refine ⟨?_, rfl, rfl⟩
        rintro ⟨cell', sl', hcell', hsl', hne⟩
        rw [hcell] at hcell'
        injection hcell' with hcell'
        subst hcell'
        rw [show s.mem.opaqueLight cell = some sl from hsl] at hsl'
        injection hsl' with hsl'
        subst hsl'
        exact heq hne

theorem contained_call (h : s.mem.Sound) (hcalls : ∀ p ∈ s.calls, s.mem.Contained s.mem.lightAt p)
    (hact : s.act .call = some r) : CallsContained r := by
  cases hnext : s.calls with
  | nil =>
    unfold act at hact
    dsimp only at hact
    rw [hnext] at hact
    cases hact
  | cons p calls =>
    have hp : s.mem.Contained s.mem.lightAt p := hcalls p (by simp [hnext])
    have hrest (q : BlockPos) (hq : q ∈ calls) : s.mem.Contained s.mem.lightAt q :=
      hcalls q (by simp [hnext, hq])
    obtain ⟨s', hcall, hrelit, hcases⟩ := call_spec h hnext hp.ready
    rw [hcall] at hact
    injection hact with hact
    refine ⟨s', hact.symm, hrelit.edited.sound h, ?_⟩
    intro q hq
    rw [hrelit.contained]
    rcases hcases with ⟨_, hsame, hlight⟩ | ⟨cell, sl, hcell, hsl, hne, hmore, hlight⟩
    . rw [hlight]
      exact hrest q (hsame ▸ hq)
    . have hless (q : BlockPos) (hq : s.mem.Contained s.mem.lightAt q)
          : s.mem.Contained (Function.update s.mem.lightAt cell sl) q :=
        hq.mono (fun _ => WorldMemory.resets_of_update hsl)
      rw [hlight]
      rw [hmore, List.mem_append] at hq
      cases hq with
      | inl hmem => exact hless q (hp.next ⟨cell, sl, hcell, hsl, hne⟩ hmem)
      | inr hmem => exact hless q (hrest q hmem)

theorem sound_doWrite (h : s.mem.Sound) {prov : Option Chunk} {p : BlockPos}
    (hprov : ∀ c ∈ prov, c.pos = p.chunkPos) (gen : WorldGenerator) (id : UInt16) (val : Option UInt8)
    : ∃ s', s.doWrite prov gen p id val = .ok s' ∧ s'.mem.Sound ∧ s'.calls = s.calls := by
  have hpos (c : Chunk) : (Op.set p id val c).pos = c.pos := by
    cases val with
    | none => exact Chunk.pos_setId
    | some val => exact Chunk.pos_setIdAndMeta
  obtain ⟨w, hw, hsound⟩ := sound_write h hprov gen id hpos
  unfold doWrite
  rw [hw]
  cases w with
  | none => exact ⟨s, rfl, h, rfl⟩
  | some mem => exact ⟨_, rfl, hsound mem rfl, rfl⟩

theorem contained_step {op : Op} (h : CallsContained r) (hop : op.Proper ∧ Careful r op)
    (hstep : stepOp r op = some r') : CallsContained r' := by
  obtain ⟨s, hs, hsound, hcalls⟩ := h
  subst hs
  cases op with
  | write prov gen p id val =>
    dsimp only [stepOp] at hstep
    split at hstep
    . next hnone =>
      injection hstep with hstep
      obtain ⟨s', hok, hsound', hsame⟩ := sound_doWrite hsound hop.left gen id val
      refine ⟨s', hstep ▸ hok, hsound', ?_⟩
      rw [hsame, hnone]
      simp
    . cases hstep
  | enqueue p =>
    dsimp only [stepOp] at hstep
    split at hstep
    . next hnone =>
      injection hstep with hstep
      refine ⟨s.enqueue p, hstep.symm, hsound, ?_⟩
      intro q hq
      unfold enqueue at hq
      rw [hnone, List.mem_singleton] at hq
      rw [hq]
      exact hop.right
    . cases hstep
  | act a =>
    cases a with
    | work i => exact contained_work hsound hop.right hstep
    | call => exact contained_call hsound hcalls hstep

theorem Complete.contained {m : WorldMemory} (h : Complete m) (v : LightCell → Nat) (p : BlockPos)
    : m.Contained v p :=
  fun q _ => h.ready q

/--
A block that is put is a known one.
-/
def Op.Known : Op → Prop
  | .write _ _ _ id val => val = none ∧ BlockInfo.fromId id ≠ none
  | _ => True

/--
A known block is put into a chunk of a complete world.
-/
theorem Complete.edit {m : WorldMemory} (h : Complete m) {id : UInt16}
    (hid : BlockInfo.fromId id ≠ none) (ch : Nat) (x z : Fin 16) (y : Fin 256)
    : Complete (m.edit ch (·.setId x y z id)) := by
  have hedited : m.Edited (m.edit ch (·.setId x y z id)) :=
    WorldMemory.edited_edit (fun _ _ => Chunk.pos_setId)
  refine ⟨hedited.sound h.sound, ?_, ?_⟩
  . rw [hedited.getChunk]
    exact h.loaded
  . intro p cell hcell
    have hsame : (m.edit ch (·.setId x y z id)).cell p = m.cell p := by
      unfold WorldMemory.cell
      rw [hedited.getChunk]
    rw [hsame] at hcell
    have hknown := h.known p cell hcell
    obtain ⟨hch, hmk⟩ := WorldMemory.cell_eq_some hcell
    obtain ⟨c, hc⟩ := h.sound.chunkAt_getChunk hch
    unfold WorldMemory.Known at hknown ⊢
    rw [hmk] at hknown ⊢
    rw [WorldMemory.idAt_of_chunkAt hc, Option.bind_some] at hknown
    have hnew : (m.edit ch (·.setId x y z id)).chunkAt cell.ch
        = some (if cell.ch = ch then c.setId x y z id else c) := by
      rw [WorldMemory.chunkAt_edit, hc]
      split <;> rfl
    rw [WorldMemory.idAt_of_chunkAt hnew, Option.bind_some]
    -- the cell is in another chunk, or it is the block that is put or one beside it
    split
    . rw [Chunk.getId_setId (BlockInfo.toNat_lt_of_fromId hid)]
      split
      . exact hid
      . exact hknown
    . exact hknown

/--
A complete world in which known blocks are put stays complete.
-/
theorem complete_step {op : Op} (h : ∃ s, r = .ok s ∧ Complete s.mem) (hop : op.Known)
    (hstep : stepOp r op = some r')
    : Careful r op ∧ ∃ s', r' = .ok s' ∧ Complete s'.mem := by
  obtain ⟨s, hs, h⟩ := h
  subst hs
  cases op with
  | write prov gen p id val =>
    obtain ⟨hval, hid⟩ := hop
    subst hval
    refine ⟨trivial, ?_⟩
    dsimp only [stepOp] at hstep
    split at hstep
    . injection hstep with hstep
      -- every chunk is there, so the write has nothing to load
      obtain ⟨ch, hch⟩ := Option.ne_none_iff_exists'.mp (h.loaded _ p.isInt_chunkPos)
      have hdo : s.doWrite prov gen p id none
          = .ok { s with mem := s.mem.edit ch (·.setId p.bx p.y p.bz id) } := by
        unfold doWrite WorldMemory.write
        rw [hch]
        dsimp only
        rw [WorldMemory.editChunk_ok (h.sound.alive_getChunk p.isInt_chunkPos hch)]
        rfl
      exact ⟨_, hstep.symm.trans hdo, h.edit hid ch p.bx p.bz p.y⟩
    . cases hstep
  | enqueue p =>
    refine ⟨h.contained _ p, ?_⟩
    dsimp only [stepOp] at hstep
    split at hstep
    . injection hstep with hstep
      exact ⟨_, hstep.symm, h⟩
    . cases hstep
  | act a =>
    constructor
    . cases a with
      | work i => exact fun _ _ _ _ _ q _ => h.contained _ q
      | call => trivial
    . -- lighting leaves the blocks as they are
      obtain ⟨s', hs', hrelit, _⟩ := act_spec h.sound (fun p _ => h.ready p) hstep
      exact ⟨s', hs', h.relit hrelit⟩

theorem careful_of_complete (h : Complete s.mem) {ops : List Op} (hops : ∀ op ∈ ops, op.Known)
    : EachStep stepOp Careful (.ok s) ops :=
  eachStep_of_invariant (fun _ _ _ => complete_step) ⟨s, rfl, h⟩ hops

/--
A run of careful steps meets no fault, and no null pointer in particular.
-/
theorem never_null (h : s.mem.Sound) (hnone : s.calls = []) {ops : List Op}
    (hproper : ∀ op ∈ ops, op.Proper) (hcareful : EachStep stepOp Careful (.ok s) ops)
    : Always stepOp (fun r => ∃ s', r = .ok s') (.ok s) ops := by
  have hstart : CallsContained (.ok s) := ⟨s, rfl, h, by simp [hnone]⟩
  have halways := always_of_eachStep (fun _ _ _ => contained_step) hstart
    (hcareful.and_of_forall hproper)
  exact halways.mono (fun _ ⟨s', hs', _⟩ => ⟨s', hs'⟩)

def dugAt : BlockPos :=
  ⟨3, 70, 9, by decide, by decide⟩

/--
A stone is put and dug out again, and the hole is lit.
-/
def dug : List Op :=
  [.write none .empty dugAt 1 none, .enqueue dugAt, .act .call,
      .write none .empty dugAt 0 none, .enqueue dugAt, .act .call, .act (.work 0)]
    ++ List.replicate 6 (.act .call)

/--
The world has one chunk.
-/
theorem never_null_dug
    : ∃ ch m, (WorldMemory.new 16 16 (.new 0 0)).loadChunk (some (.new 0 0)) .empty 0 0 = .ok (ch, m)
        ∧ Always stepOp (fun r => ∃ s', r = .ok s') (.ok { mem := m, updates := [], calls := [] })
          dug := by
  have hair : BlockInfo.fromId 0 ≠ none := by nofun
  obtain ⟨ch, m, hload, hloaded, _, hcomplete⟩ := exists_complete (c := .new 0 0) rfl
    (fun _ _ _ => hair)
  have hput : Op.Known (.write none .empty dugAt 1 none) := ⟨rfl, by nofun⟩
  have htake : Op.Known (.write none .empty dugAt 0 none) := ⟨rfl, by nofun⟩
  have hknown : ∀ op ∈ dug, op.Known := by
    simp only [dug, List.forall_mem_append, List.forall_mem_cons]
    refine ⟨⟨hput, trivial, trivial, htake, trivial, trivial, trivial, List.forall_mem_nil _⟩, ?_⟩
    intro op hop
    rw [List.eq_of_mem_replicate hop]
    trivial
  have hproper : ∀ op ∈ dug, op.Proper := by
    simp only [dug, List.forall_mem_append, List.forall_mem_cons]
    refine ⟨⟨nofun, trivial, trivial, nofun, trivial, trivial, trivial, List.forall_mem_nil _⟩, ?_⟩
    intro op hop
    rw [List.eq_of_mem_replicate hop]
    trivial
  exact ⟨ch, m, hload, never_null hloaded.sound rfl hproper (careful_of_complete hcomplete hknown)⟩

example : ∀ loaded ∈ ((WorldMemory.new 16 16 (.new 0 0)).loadChunk (some (.new 0 0)) .empty 0 0).toOption,
    ((exec stepOp (.ok { mem := loaded.2, updates := [], calls := [] }) dug).bind Except.toOption).map
        (fun s => (s.updates.length, s.calls.length))
      = some (6, 0) := by
  decide +kernel

/--
An unknown block is put into the edge chunk.
-/
theorem not_never_null
    : ¬ ∀ (s : Lighting) (ops : List Op), s.mem.Sound → s.calls = [] → (∀ op ∈ ops, op.Proper) →
        Always stepOp (fun r => r ≠ .error .nullPointer) (.ok s) ops := by
  intro h
  let p : BlockPos := ⟨0, 5, 0, by decide, by decide⟩
  let s : Lighting := { mem := .new 0 0 (.new 0 0), updates := [], calls := [] }
  let mem : WorldMemory := s.mem.edit 0 (·.setId p.bx p.y p.bz 165)
  have hedge : s.mem.getChunk p.chunkPos.x p.chunkPos.z = some 0 :=
    WorldMemory.getChunk_of_not_inBounds (not_inBounds_new _ _)
  have hops : ∀ op ∈ [Op.write none .empty p 165 none, .enqueue p, .act .call], op.Proper := by
    intro op hop
    simp only [List.mem_cons, List.not_mem_nil, or_false] at hop
    rcases hop with h | h | h
    . rw [h]
      nofun
    . rw [h]
      trivial
    . rw [h]
      trivial
  have halways := h s _ (WorldMemory.sound_new 0 0 (.new 0 0)) rfl hops
  have hwrite : stepOp (.ok s) (.write none .empty p 165 none) = some (.ok { s with mem }) := by
    have hdo : s.doWrite none .empty p 165 none = .ok { s with mem } := by
      unfold doWrite WorldMemory.write
      rw [hedge]
      rfl
    exact congrArg some hdo
  have henqueue : stepOp (.ok { s with mem }) (.enqueue p) = some (.ok ({ s with mem }.enqueue p)) := rfl
  have hcall : stepOp (.ok ({ s with mem }.enqueue p)) (.act .call) = some (.error .nullPointer) := by
    have hget : mem.get 0
        = .ok { ChunkObject.new (.new 0 0) with chunk := (Chunk.new 0 0).setId p.bx p.y p.bz 165 } := rfl
    have hunknown : BlockInfo.fromId
        (((Chunk.new 0 0).setId p.bx p.y p.bz 165).getId p.bx p.y p.bz) = none := by decide
    have hfault : { s with mem }.enqueueSlNoLock p = .error .nullPointer := by
      have hedge' : mem.getChunk p.chunkPos.x p.chunkPos.z = some 0 := hedge
      unfold enqueueSlNoLock
      dsimp only
      rw [hedge']
      dsimp only
      rw [hget]
      simp only [bind, Except.bind]
      rw [hunknown]
    exact congrArg some hfault
  exact (((halways.right _ hwrite).right _ henqueue).right _ hcall) rfl

end Lighting

end HCraft
