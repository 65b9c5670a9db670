import HCraft.Lib.Transition
import HCraft.World.Lighting.Lemmas.Simulation
import HCraft.World.Memory.Lemmas.Load
import Mathlib.Data.Fintype.Prod
import Mathlib.Order.WellFounded

/-!
This module contains runs of the lighting manager: where all chunks are loaded they end, and when they
end the light is right.
-/

namespace HCraft

namespace Lighting

open Transition

variable {s s' : Lighting} {p : BlockPos}

theorem act_spec (h : s.mem.Sound) (hcalls : ∀ p ∈ s.calls, Ready s.mem p) {a : Action}
    {r : Except Fault Lighting} (hact : s.act a = some r)
    : ∃ s', r = .ok s' ∧ s.mem.Relit s'.mem ∧ s.mem.relaxation.Step s.abs s'.abs := by
  unfold act at hact
  cases a with
  | work i =>
    dsimp only at hact
    split at hact
    . next p hnone hitem =>
      injection hact with hact
      obtain ⟨hi, hp⟩ := List.getElem?_eq_some_iff.mp hitem
      obtain ⟨s', hs', hrelit, habs⟩ :=
        calcSl_spec (s := { s with updates := s.updates.eraseIdx i }) (p := p) h
      refine ⟨s', hact ▸ hs', hrelit, ?_⟩
      rw [habs, ← hp]
      exact .work s.abs i hi hnone
    . cases hact
  | call =>
    dsimp only at hact
    split at hact
    . cases hact
    . next p calls hnext =>
      injection hact with hact
      obtain ⟨cell, hcell, hknown⟩ := hcalls p (by simp [hnext])
      obtain ⟨s', hs', hrelit, habs⟩ :=
        enqueueSlNoLock_spec (s := { s with calls }) h hcell hknown
      refine ⟨s', hact ▸ hs', hrelit, ?_⟩
      exact .call s.abs s'.abs p calls hnext habs

/--
Whatever does not fault changes nothing but light.
-/
theorem relit_of_act (h : s.mem.Sound) {a : Action} (hact : s.act a = some (.ok s'))
    : s.mem.Relit s'.mem := by
  unfold act at hact
  cases a with
  | work i =>
    dsimp only at hact
    split at hact
    . next p _ _ =>
      injection hact with hact
      obtain ⟨s₁, hs₁, hrelit, _⟩ :=
        calcSl_spec (s := { s with updates := s.updates.eraseIdx i }) (p := p) h
      rw [hs₁] at hact
      injection hact with hact
      exact hact ▸ hrelit
    . cases hact
  | call =>
    dsimp only at hact
    split at hact
    . cases hact
    . next p calls _ =>
      injection hact with hact
      by_cases hready : Ready s.mem p
      . obtain ⟨cell, hcell, hknown⟩ := hready
        obtain ⟨s₁, hs₁, hrelit, _⟩ := enqueueSlNoLock_spec (s := { s with calls }) h hcell hknown
        rw [hs₁] at hact
        injection hact with hact
        exact hact ▸ hrelit
      . rw [enqueueSlNoLock_of_not_ready (s := { s with calls }) h hready] at hact
        cases hact

theorem relit_of_exec (h : s.mem.Sound) {as : List Action}
    (hexec : exec step (.ok s) as = some (.ok s')) : s.mem.Relit s'.mem := by
  induction as generalizing s with
  | nil =>
    injection hexec with hexec
    injection hexec with hexec
    exact hexec ▸ .refl _
  | cons a as ih =>
    obtain ⟨r, hact, hrest⟩ := exec_cons.mp hexec
    cases r with
    | error e =>
      cases as with
      | nil => cases hrest
      | cons a as =>
        obtain ⟨_, hnone, _⟩ := exec_cons.mp hrest
        cases hnone
    | ok s₁ =>
      have hrelit := relit_of_act h hact
      exact hrelit.trans (ih (hrelit.edited.sound h) hrest)

/--
As long as there is something to do, it can be done.
-/
theorem exists_act (h : s.updates ≠ [] ∨ s.calls ≠ []) : ∃ a r, s.act a = some r := by
  cases hcalls : s.calls with
  | nil =>
    cases hupdates : s.updates with
    | nil => simp [hcalls, hupdates] at h
    | cons p updates =>
      refine ⟨.work 0, { s with updates := s.updates.eraseIdx 0 }.calcSl p, ?_⟩
      simp only [act, hcalls, hupdates, List.getElem?_cons_zero]
  | cons p calls =>
    refine ⟨.call, { s with calls }.enqueueSlNoLock p, ?_⟩
    simp only [act, hcalls]

section Termination

/--
`get_chunk` returns a chunk for every coordinate, and all blocks in them are known.
-/
structure Complete (m : WorldMemory) : Prop where
  sound : m.Sound
  loaded : ∀ pos : ChunkPos, pos.IsInt → m.getChunk pos.x pos.z ≠ none
  known : ∀ p cell, m.cell p = some cell → m.Known cell

theorem Complete.ready {m : WorldMemory} (h : Complete m) (p : BlockPos) : Ready m p := by
  obtain ⟨ch, hch⟩ := Option.ne_none_iff_exists'.mp (h.loaded _ p.isInt_chunkPos)
  have hcell : m.cell p = some ⟨ch, p.bx, p.y, p.bz⟩ := by
    unfold WorldMemory.cell
    rw [hch]
    rfl
  exact ⟨_, hcell, h.known p _ hcell⟩

theorem Complete.relit {m m' : WorldMemory} (h : Complete m) (hr : m.Relit m') : Complete m' where
  sound := hr.edited.sound h.sound
  loaded := by
    rw [hr.edited.getChunk]
    exact h.loaded
  known := by
    rw [hr.cell, hr.known]
    exact h.known

/--
The blocks of all chunks there are.
-/
def cells (m : WorldMemory) : Finset LightCell :=
  (Finset.range m.heap.next ×ˢ (Finset.univ : Finset (Fin 16 × Fin 256 × Fin 16))).image
    (fun c => ⟨c.1, c.2.1, c.2.2.1, c.2.2.2⟩)

theorem mem_cells {m : WorldMemory} {cell : LightCell} (h : m.heap.Alive cell.ch)
    : cell ∈ cells m := by
  obtain ⟨obj, hobj⟩ := h
  unfold cells
  rw [Finset.mem_image]
  refine ⟨(cell.ch, cell.x, cell.y, cell.z), ?_, rfl⟩
  simp [Heap.lt_next hobj]

theorem lt_maxValue_iff {v : LightCell → Nat} {ns : List Neighbour} {k : Nat}
    : k < Neighbour.maxValue v ns ↔ ∃ n ∈ ns, k < n.value v := by
  induction ns with
  | nil => simp [Neighbour.maxValue]
  | cons n ns ih =>
    have hmax : Neighbour.maxValue v (n :: ns) = max (n.value v) (Neighbour.maxValue v ns) := rfl
    rw [hmax, lt_max_iff, ih, List.exists_mem_cons_iff]

theorem levelled (m : WorldMemory) : m.relaxation.Levelled := by
  intro k v v' hv cell
  have hvalue (n : Neighbour) : k < n.value v ↔ k < n.value v' := by
    cases n with
    | light sl => exact Iff.rfl
    | block ch x y z => exact hv _
  dsimp only [WorldMemory.relaxation, WorldMemory.rightLight]
  split
  . exact Iff.rfl
  . split
    . exact Iff.rfl
    . cases k with
      | zero => simp
      | succ k =>
        have hpred (n : Nat) : k + 1 ≤ n - 1 ↔ k + 1 < n := by omega
        rw [hpred, hpred, lt_maxValue_iff, lt_maxValue_iff]
        simp only [hvalue]

theorem bounded {m : WorldMemory} (h : m.Sound) : m.relaxation.Bounded (cells m) 15 where
  cell_mem := by
    intro p cell hcell
    unfold WorldMemory.relaxation WorldMemory.cell at hcell
    rw [Option.map_eq_some_iff] at hcell
    obtain ⟨ch, hch, hmk⟩ := hcell
    apply mem_cells
    rw [← hmk]
    exact h.alive_getChunk p.isInt_chunkPos hch
  levelled := levelled m
  rule_le := fun v cell hv => WorldMemory.rightLight_le hv cell
  fixed_le := fun cell sl hsl => WorldMemory.opaqueLight_le hsl

/--
One action after the other.
-/
def Next (s' s : Lighting) : Prop :=
  ∃ a, s.act a = some (.ok s')

theorem acc_next (h : Complete s.mem) : Acc Next s := by
  have hacc : Acc (fun t' t => s.mem.relaxation.Step t t') s.abs :=
    Relaxation.acc_step (bounded h.sound)
      (fun cell => Nat.le_of_lt_succ (WorldMemory.lightAt_lt cell))
  generalize hR : s.mem.relaxation = R at hacc
  generalize ht : s.abs = t at hacc
  induction hacc generalizing s with
  | intro t _ ih =>
    constructor
    intro s' hnext
    obtain ⟨a, hact⟩ := hnext
    obtain ⟨s'', hok, hrelit, hstep⟩ := act_spec h.sound (fun p _ => h.ready p) hact
    injection hok with hok
    subst hok
    rw [hR, ht] at hstep
    exact ih _ hstep (h.relit hrelit) (hrelit.relaxation.trans hR) rfl

/--
A run meets no fault, and it can go on until there is nothing left to do.
-/
theorem exec_spec (h : Complete s.mem) {as : List Action} {r : Except Fault Lighting}
    (hexec : exec step (.ok s) as = some r)
    : ∃ s', r = .ok s' ∧ Complete s'.mem := by
  induction as generalizing s with
  | nil =>
    injection hexec with hexec
    exact ⟨s, hexec.symm, h⟩
  | cons a as ih =>
    obtain ⟨r₁, hact, hrest⟩ := exec_cons.mp hexec
    obtain ⟨s₁, hok, hrelit, _⟩ := act_spec h.sound (fun p _ => h.ready p) hact
    subst hok
    exact ih (h.relit hrelit) hrest

/--
Whatever the light and the queue, propagation comes to an end: no run goes on forever, and one that has
come to its end has emptied the queue and made all calls.
-/
theorem propagation_terminates (h : Complete s.mem)
    : (∀ run : Nat → Lighting, run 0 = s → ¬ ∀ n, ∃ a, (run n).act a = some (.ok (run (n + 1))))
        ∧ ∀ as r, exec step (.ok s) as = some r →
            ∃ s', r = .ok s'
              ∧ ((s'.updates = [] ∧ s'.calls = []) ∨ ∃ a r', s'.act a = some r') := by
  constructor
  . intro run hrun hforever
    have hempty := acc_iff_isEmpty_descending_chain.mp (acc_next h)
    exact hempty.false ⟨run, hrun, hforever⟩
  . intro as r hexec
    obtain ⟨s', hok, _⟩ := exec_spec h hexec
    refine ⟨s', hok, ?_⟩
    by_cases hdone : s'.updates = [] ∧ s'.calls = []
    . exact .inl hdone
    . exact .inr (exists_act (by tauto))

theorem not_inBounds_new (edge : Chunk) (pos : ChunkPos)
    : ¬ (WorldMemory.new 0 0 edge).InBounds pos := by
  unfold WorldMemory.InBounds World.OutOfBounds WorldMemory.world WorldMemory.new
  simp only [Int.zero_shiftRight]
  omega

theorem complete_new : Complete (.new 0 0 (.new 0 0)) where
  sound := WorldMemory.sound_new 0 0 (.new 0 0)
  loaded := by
    intro pos _
    rw [WorldMemory.getChunk_of_not_inBounds (not_inBounds_new _ pos)]
    nofun
  known := by
    intro p cell hcell
    unfold WorldMemory.cell at hcell
    rw [WorldMemory.getChunk_of_not_inBounds (not_inBounds_new _ p.chunkPos)] at hcell
    injection hcell with hcell
    have hedge : (WorldMemory.new 0 0 (.new 0 0)).chunkAt 0 = some (.new 0 0) := rfl
    unfold WorldMemory.Known
    rw [← hcell]
    exact (congrArg (·.bind BlockInfo.fromId ≠ none) (WorldMemory.idAt_of_chunkAt hedge)).mpr
      (by rw [Option.bind_some]; exact (by nofun : BlockInfo.fromId 0 ≠ none))

theorem inBounds_new_iff {edge : Chunk} {pos : ChunkPos}
    : (WorldMemory.new 16 16 edge).InBounds pos ↔ pos = ⟨0, 0⟩ := by
  have hshift : (16 : Int) >>> (4 : Nat) = 1 := by decide
  unfold WorldMemory.InBounds World.OutOfBounds WorldMemory.world WorldMemory.new
  cases pos
  simp only [hshift, ChunkPos.mk.injEq]
  omega

/--
A world of one chunk that is loaded, and of its edge.
-/
theorem exists_complete {c : Chunk} (hpos : c.pos = ⟨0, 0⟩)
    (hknown : ∀ x y z, BlockInfo.fromId (c.getId x y z) ≠ none)
    : ∃ ch m, (WorldMemory.new 16 16 (.new 0 0)).loadChunk (some c) .empty 0 0 = .ok (ch, m)
        ∧ (WorldMemory.new 16 16 (.new 0 0)).Loaded m ⟨0, 0⟩ ch
        ∧ m.chunkAt ch = some c
        ∧ Complete m := by
  have hint : (⟨0, 0⟩ : ChunkPos).IsInt := by decide
  have hsound := WorldMemory.sound_new 16 16 (.new 0 0)
  obtain ⟨ch, m, hload, hloaded, hch⟩ :=
    WorldMemory.loadChunk_of_prov hsound hint (inBounds_new_iff.mpr rfl) rfl hpos .empty
  have hin {pos : ChunkPos} : m.InBounds pos ↔ pos = ⟨0, 0⟩ :=
    (WorldMemory.inBounds_congr hloaded.width hloaded.depth).trans inBounds_new_iff
  refine ⟨ch, m, hload, hloaded, hch, hloaded.sound, ?_, ?_⟩
  . intro pos _
    by_cases hpos' : m.InBounds pos
    . rw [hin.mp hpos', hloaded.getChunk]
      nofun
    . rw [WorldMemory.getChunk_of_not_inBounds hpos']
      nofun
  . intro p cell hcell
    obtain ⟨hch', hmk⟩ := WorldMemory.cell_eq_some hcell
    unfold WorldMemory.Known
    rw [hmk]
    by_cases hpos' : m.InBounds p.chunkPos
    . rw [hin.mp hpos', hloaded.getChunk] at hch'
      injection hch' with hch'
      rw [← hch', WorldMemory.idAt_of_chunkAt hch, Option.bind_some]
      exact hknown _ _ _
    . rw [WorldMemory.getChunk_of_not_inBounds hpos', hloaded.edgeCh] at hch'
      injection hch' with hch'
      have hedge : m.chunkAt cell.ch = some (.new 0 0) := by
        rw [← hch', hloaded.chunkAt _ hsound.edge]
        rfl
      rw [WorldMemory.idAt_of_chunkAt hedge, Option.bind_some]
      exact (by nofun : BlockInfo.fromId 0 ≠ none)

/--
A world of nothing but its edge, and a dark block in the open.
-/
theorem propagation_terminates_edge
    : let p : BlockPos := ⟨0, 5, 0, by decide, by decide⟩
      let s : Lighting := { mem := .new 0 0 (.new 0 0), updates := [p], calls := [] }
      (∀ run : Nat → Lighting, run 0 = s → ¬ ∀ n, ∃ a, (run n).act a = some (.ok (run (n + 1))))
        ∧ ∀ as r, exec step (.ok s) as = some r →
            ∃ s', r = .ok s'
              ∧ ((s'.updates = [] ∧ s'.calls = []) ∨ ∃ a r', s'.act a = some r') :=
  propagation_terminates complete_new

end Termination

end Lighting

end HCraft
