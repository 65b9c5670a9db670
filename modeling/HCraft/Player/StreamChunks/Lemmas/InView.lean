import HCraft.Player.StreamChunks.Lemmas.Held
import HCraft.World.AsyncGenerator.Lemmas.Posted

/-!
This module contains when the client ends up with the chunks in view: which joins and which late
requests the streaming of chunks copes with.
-/

namespace HCraft

open Transition StreamEvent

variable {ω κ : Type}

namespace Streaming

/--
No request of the player is pending.
-/
def Idle (s : Streaming ω κ) : Prop :=
  ∀ w, (s.agens w).Idle

def Near (s : Streaming ω κ) (cp : ChunkPos) : Prop :=
  InSquare s.pos.chunkPos s.viewDist cp

/--
The client holds the chunks of the world around the player.
-/
structure InView (w : ω) (s : Streaming ω κ) : Prop where
  visible : ∀ cp, cp ∈ s.visChunks ↔ s.Near cp
  held : ∀ cp, (held s.log cp).isSome ↔ s.Near cp
  chunk : ∀ cp ch, StreamEvent.held s.log cp = some ch
    → (s.agens w).w.getChunk cp.x cp.z = some ch

/--
Once the player has spawned and everything is done, the right chunks are in view.
-/
def Complete : Except AsyncGenerator.Crash (Streaming ω κ) → Prop
  | .error _ => False
  | .ok s =>
    s.disconnected = false → s.spawned → s.Idle → s.todo = [] → s.waiting = false
      → ∃ w, s.w = some w ∧ InView w s

/--
Worlds are joined when no request is pending, and other worlds when no chunk that stays in view is
visible. Requests are done while their chunks are in view, unless the view is about to be updated.
-/
def Timely : Except AsyncGenerator.Crash (Streaming ω κ) → Label ω κ → Prop
  | .ok s, .joinWorld w pos =>
    s.Idle ∧ (s.w ≠ some w → ∀ cp ∈ s.visChunks, ¬ InSquare pos.chunkPos s.viewDist cp)
  | .ok s, .proceed w r prov gen =>
    s.waiting = false → ∀ cp ch, s.Arrives cp ch (.proceed w r prov gen) → s.Near cp
  | _, _ => True

/--
How the chunks in view, the visible ones and what is left to do belong together.
-/
structure Aligned (w : ω) (s : Streaming ω κ) : Prop where
  kept : ∀ cp ∈ s.visChunks, s.Near cp ∨ .unload cp ∈ s.todo
  unload : ∀ cp, .unload cp ∈ s.todo → ¬ s.Near cp
  visit : ∀ cp, .visit cp ∈ s.todo → s.Near cp
  loaded : ∀ cp ch, .loaded cp ch ∈ s.todo → s.Near cp
  covered : ∀ cp, s.Near cp → cp ∈ s.visChunks ∨ (s.agens w).Pending cp.x cp.z
    ∨ .visit cp ∈ s.todo ∨ ∃ ch, .loaded cp ch ∈ s.todo

/--
What holds of a connected player in the world `w`. While `on_move` waits, the player is not where the
chunks have been streamed.
-/
structure View (w : ω) (s : Streaming ω κ) : Prop where
  chunk : ∀ cp ch, held s.log cp = some ch
    → .unload cp ∈ s.todo ∨ (s.agens w).w.getChunk cp.x cp.z = some ch
  loaded : ∀ cp ch, .loaded cp ch ∈ s.todo → (s.agens w).w.getChunk cp.x cp.z = some ch
  crossed : s.spawned → s.lastCp = s.pos.chunkPos
  joined : ¬ s.spawned → s.pos = s.spawnPos
  aligned : s.waiting = false → Aligned w s

structure Steady (s : Streaming ω κ) : Prop where
  posted : ∀ w, (s.agens w).Posted s.calls
  token : ∀ w, s.w = some w → ((s.agens w).toks s.genTok).isSome
  nowhere : s.w = none → ¬ s.spawned ∧ s.todo = []
  mirrored : s.Mirrored
  view : ∀ w, s.w = some w → s.disconnected = false → View w s

theorem Steady.complete {s : Streaming ω κ} (h : s.Steady) : Complete (.ok s) := by
  intro hlive hspawned hidle htodo hwaiting
  cases hw : s.w with
  | none => exact absurd hspawned (h.nowhere hw).1
  | some w =>
    have hview := h.view w hw hlive
    have haligned := hview.aligned hwaiting
    have hvisible (cp : ChunkPos) : cp ∈ s.visChunks ↔ s.Near cp := by
      constructor
      . intro hvis
        have hkept := haligned.kept cp hvis
        simpa [htodo] using hkept
      . intro hnear
        have hcovered := haligned.covered cp hnear
        have hnot : ¬ (s.agens w).Pending cp.x cp.z := by
          rintro ⟨r, req, hreq, hstage, _⟩
          exact hstage (hidle w r req hreq)
        simpa [htodo, hnot] using hcovered
    refine ⟨w, rfl, hvisible, ?_, ?_⟩
    . intro cp
      rw [← h.mirrored cp, hvisible]
    . intro cp ch hheld
      have hchunk := hview.chunk cp ch hheld
      simpa [htodo] using hchunk

section View

variable {w : ω} {s : Streaming ω κ} {agens : ω → AsyncGenerator κ Unit}

theorem View.streamChunks (sort : StdSort ChunkPos) (hw : s.w = some w) (hmirrored : s.Mirrored)
    (hchunk : ∀ cp ch, held s.log cp = some ch → s.Near cp
      → (s.agens w).w.getChunk cp.x cp.z = some ch)
    (hcrossed : s.spawned → s.lastCp = s.pos.chunkPos) (hjoined : ¬ s.spawned → s.pos = s.spawnPos)
    : View w (s.streamChunks sort) := by
  rw [streamChunks_of_joined sort hw]
  have hunload (cp : ChunkPos) (hvis : cp ∈ s.visChunks) (hnear : ¬ s.Near cp)
      : StreamTask.unload cp
          ∈ s.toUnload.map .unload ++ (s.toVisit sort).map (StreamTask.visit (κ := κ)) := by
    simpa using s.mem_toUnload.mpr ⟨hvis, hnear⟩
  constructor
  . intro cp ch hheld
    by_cases hnear : s.Near cp
    . exact .inr (hchunk cp ch hheld hnear)
    . exact .inl (hunload cp ((hmirrored cp).mpr (by rw [hheld]; rfl)) hnear)
  . intro cp ch hmem
    simp at hmem
  . exact hcrossed
  . exact hjoined
  . intro _
    constructor
    . intro cp hvis
      by_cases hnear : s.Near cp
      . exact .inl hnear
      . exact .inr (hunload cp hvis hnear)
    . intro cp hmem
      have hmem : cp ∈ s.toUnload := by simpa using hmem
      exact (s.mem_toUnload.mp hmem).2
    . intro cp hmem
      have hmem : cp ∈ s.toVisit sort := by simpa using hmem
      exact (s.mem_toVisit sort).mp hmem
    . intro cp ch hmem
      simp at hmem
    . intro cp hnear
      refine .inr (.inr (.inl ?_))
      simpa using (s.mem_toVisit sort).mpr hnear

/--
The generators go on, and nothing is lost.
-/
theorem View.extend (h : View w s)
    (hchunk : ∀ x z ch, (s.agens w).w.getChunk x z = some ch → (agens w).w.getChunk x z = some ch)
    (hpending : ∀ x z, (s.agens w).Pending x z → (agens w).Pending x z)
    : View w { s with agens } where
  chunk := by
    intro cp ch hheld
    exact (h.chunk cp ch hheld).imp_right (hchunk cp.x cp.z ch)
  loaded := fun cp ch hmem => hchunk cp.x cp.z ch (h.loaded cp ch hmem)
  crossed := h.crossed
  joined := h.joined
  aligned := by
    intro hwaiting
    have haligned := h.aligned hwaiting
    refine ⟨haligned.kept, haligned.unload, haligned.visit, haligned.loaded, ?_⟩
    intro cp hnear
    exact (haligned.covered cp hnear).imp_right (.imp_left (hpending cp.x cp.z))

/--
A chunk is sent. It was pending or the next thing to do.
-/
theorem View.arrive (h : View w s) (hlive : s.disconnected = false) {cp : ChunkPos} {ch : κ}
    {todo : List (StreamTask κ)}
    (hgetChunk : ∀ x z ch, (s.agens w).w.getChunk x z = some ch
      → (agens w).w.getChunk x z = some ch)
    (hpending : ∀ x z, (s.agens w).Pending x z
      → (agens w).Pending x z ∨ (x = cp.x ∧ z = cp.z))
    (htodo : ∀ task, task ∈ s.todo → task ∈ todo ∨ task = .loaded cp ch)
    (hrest : ∀ task, task ∈ todo → task ∈ s.todo)
    (hch : (s.agens w).w.getChunk cp.x cp.z = some ch) (hnear : s.waiting = false → s.Near cp)
    : View w ({ s with agens, todo }.onChunkLoaded ch cp) := by
  have hsends := sends_onChunkLoaded (s := { s with agens, todo }) hlive ch cp
  have hheld := held_sends hsends
  -- a player who spawns has been at the spawn position since he joined
  have hpos : (({ s with agens, todo } : Streaming ω κ).onChunkLoaded ch cp).pos = s.pos := by
    rw [onChunkLoaded_of_live (by exact hlive)]
    dsimp only
    split
    . next hspawns => exact (h.joined hspawns.1).symm
    . rfl
  have hnear' (c : ChunkPos)
      : (({ s with agens, todo } : Streaming ω κ).onChunkLoaded ch cp).Near c ↔ s.Near c := by
    rw [Near, hpos, onChunkLoaded_viewDist]
    rfl
  have hgone (c : ChunkPos) (hmem : StreamTask.unload c ∈ s.todo) : .unload c ∈ todo := by
    rcases htodo _ hmem with hmem | heq
    . exact hmem
    . cases heq
  constructor
  . intro c ch' hc
    rw [hheld] at hc
    rw [onChunkLoaded_todo, onChunkLoaded_agens]
    by_cases hcp : c = cp
    . rw [hcp, Function.update_self] at hc
      cases hc
      rw [hcp]
      exact .inr (hgetChunk _ _ _ hch)
    . rw [Function.update_of_ne hcp] at hc
      exact (h.chunk c ch' hc).imp (hgone c) (hgetChunk _ _ _)
  . intro c ch' hmem
    rw [onChunkLoaded_todo] at hmem
    rw [onChunkLoaded_agens]
    exact hgetChunk _ _ _ (h.loaded c ch' (hrest _ hmem))
  . intro hspawned
    rw [hpos]
    rw [onChunkLoaded_of_live (by exact hlive)] at hspawned ⊢
    dsimp only at hspawned ⊢
    split
    . next hspawns => rw [h.joined hspawns.1]
    . next hspawns =>
      simp only [hspawns, decide_false, Bool.or_false] at hspawned
      exact h.crossed hspawned
  . intro hspawned
    rw [hpos]
    rw [onChunkLoaded_of_live (by exact hlive)] at hspawned ⊢
    simp only [Bool.or_eq_true, not_or] at hspawned
    exact h.joined hspawned.1
  . intro hwaiting
    rw [onChunkLoaded_waiting] at hwaiting
    have haligned := h.aligned hwaiting
    constructor
    . intro c hc
      rw [hnear', onChunkLoaded_todo]
      rcases (hsends.2 c).mp hc with hcp | hc
      . rw [hcp]
        exact .inl (hnear hwaiting)
      . exact (haligned.kept c hc).imp_right (hgone c)
    . intro c hmem
      rw [onChunkLoaded_todo] at hmem
      rw [hnear']
      exact haligned.unload c (hrest _ hmem)
    . intro c hmem
      rw [onChunkLoaded_todo] at hmem
      rw [hnear']
      exact haligned.visit c (hrest _ hmem)
    . intro c ch' hmem
      rw [onChunkLoaded_todo] at hmem
      rw [hnear']
      exact haligned.loaded c ch' (hrest _ hmem)
    . intro c hc
      rw [hnear'] at hc
      rw [onChunkLoaded_todo, onChunkLoaded_agens, hsends.2]
      rcases haligned.covered c hc with hvis | hpend | hvisit | ⟨ch', hloaded⟩
      . exact .inl (.inr hvis)
      . rcases hpending _ _ hpend with hpend | ⟨hx, hz⟩
        . exact .inr (.inl hpend)
        . left
          left
          cases c
          cases cp
          rw [ChunkPos.mk.injEq]
          exact ⟨hx, hz⟩
      . rcases htodo _ hvisit with hvisit | heq
        . exact .inr (.inr (.inl hvisit))
        . cases heq
      . rcases htodo _ hloaded with hloaded | heq
        . exact .inr (.inr (.inr ⟨ch', hloaded⟩))
        . cases heq
          exact .inl (.inl rfl)

theorem View.unload (h : View w s) {cp : ChunkPos} {todo : List (StreamTask κ)}
    (htodo : s.todo = .unload cp :: todo)
    : View w { s with
        todo
        log := s.log ++ [.unloadChunk cp]
        visChunks := s.visChunks.filter (· ≠ cp) } := by
  have hrest (task : StreamTask κ) (hmem : task ∈ todo) : task ∈ s.todo := by simp [htodo, hmem]
  have hother (task : StreamTask κ) (hmem : task ∈ s.todo) (hne : task ≠ .unload cp)
      : task ∈ todo := by
    rw [htodo] at hmem
    exact (List.mem_cons.mp hmem).resolve_left hne
  constructor
  . intro c ch hheld
    rw [held_concat] at hheld
    by_cases hc : c = cp
    . simp [apply, hc] at hheld
    . simp only [apply, Function.update_of_ne hc] at hheld
      exact (h.chunk c ch hheld).imp_left (fun hmem => hother _ hmem (by simpa using hc))
  . exact fun c ch hmem => h.loaded c ch (hrest _ hmem)
  . exact h.crossed
  . exact h.joined
  . intro hwaiting
    have haligned := h.aligned hwaiting
    constructor
    . intro c hc
      simp only [List.mem_filter, decide_eq_true_eq] at hc
      apply (haligned.kept c hc.1).imp_right
      exact fun hmem => hother _ hmem (by simpa using hc.2)
    . exact fun c hmem => haligned.unload c (hrest _ hmem)
    . exact fun c hmem => haligned.visit c (hrest _ hmem)
    . exact fun c ch hmem => haligned.loaded c ch (hrest _ hmem)
    . intro c hnear
      -- the chunk that goes is not in view
      have hc : c ≠ cp := by
        rintro rfl
        exact haligned.unload c (by simp [htodo]) hnear
      rcases haligned.covered c hnear with hvis | hpend | hvisit | ⟨ch, hloaded⟩
      . left
        simpa using ⟨hvis, hc⟩
      . exact .inr (.inl hpend)
      . exact .inr (.inr (.inl (hother _ hvisit (by simp))))
      . exact .inr (.inr (.inr ⟨ch, hother _ hloaded (by simp)⟩))

/--
A chunk of the square has been looked at: it is visible, pending or there to be sent.
-/
theorem View.visit (h : View w s) {cp : ChunkPos} {todo more : List (StreamTask κ)}
    {calls : Nat} {sent : List (StreamEvent κ)}
    (htodo : s.todo = .visit cp :: todo)
    (hgetChunk : ∀ x z, (agens w).w.getChunk x z = (s.agens w).w.getChunk x z)
    (hpending : ∀ x z, (s.agens w).Pending x z → (agens w).Pending x z)
    (hmore : ∀ task ∈ more, ∃ ch, task = .loaded cp ch
      ∧ (s.agens w).w.getChunk cp.x cp.z = some ch)
    (hcp : cp ∈ s.visChunks ∨ (agens w).Pending cp.x cp.z ∨ ∃ ch, .loaded cp ch ∈ more)
    (hneutral : ∀ e ∈ sent, Neutral e)
    : View w { s with agens, calls, todo := more ++ todo, log := s.log ++ sent } := by
  have hrest (task : StreamTask κ) (hmem : task ∈ todo) : task ∈ s.todo := by simp [htodo, hmem]
  have hother (task : StreamTask κ) (hmem : task ∈ s.todo) (hne : task ≠ .visit cp)
      : task ∈ more ++ todo := by
    rw [htodo] at hmem
    exact List.mem_append_right more ((List.mem_cons.mp hmem).resolve_left hne)
  have hold (task : StreamTask κ) (hmem : task ∈ more ++ todo) (hne : ∀ ch, task ≠ .loaded cp ch)
      : task ∈ s.todo := by
    rcases List.mem_append.mp hmem with hmem | hmem
    . obtain ⟨ch, heq, _⟩ := hmore task hmem
      exact absurd heq (hne ch)
    . exact hrest task hmem
  constructor
  . intro c ch hheld
    rw [held_append hneutral] at hheld
    rw [hgetChunk]
    exact (h.chunk c ch hheld).imp_left (fun hmem => hother _ hmem (by simp))
  . intro c ch hmem
    rw [hgetChunk]
    rcases List.mem_append.mp hmem with hmem | hmem
    . obtain ⟨ch', heq, hch⟩ := hmore _ hmem
      cases heq
      exact hch
    . exact h.loaded c ch (hrest _ hmem)
  . exact h.crossed
  . exact h.joined
  . intro hwaiting
    have haligned := h.aligned hwaiting
    constructor
    . intro c hc
      exact (haligned.kept c hc).imp_right (fun hmem => hother _ hmem (by simp))
    . exact fun c hmem => haligned.unload c (hold _ hmem (by simp))
    . exact fun c hmem => haligned.visit c (hold _ hmem (by simp))
    . intro c ch hmem
      rcases List.mem_append.mp hmem with hmem | hmem
      . obtain ⟨ch', heq, _⟩ := hmore _ hmem
        cases heq
        exact haligned.visit cp (by simp [htodo])
      . exact haligned.loaded c ch (hrest _ hmem)
    . intro c hnear
      rcases haligned.covered c hnear with hvis | hpend | hvisit | ⟨ch, hloaded⟩
      . exact .inl hvis
      . exact .inr (.inl (hpending _ _ hpend))
      . by_cases hc : c = cp
        . rw [hc]
          rcases hcp with hvis | hpend | ⟨ch, hmem⟩
          . exact .inl hvis
          . exact .inr (.inl hpend)
          . exact .inr (.inr (.inr ⟨ch, List.mem_append_left todo hmem⟩))
        . exact .inr (.inr (.inl (hother _ hvisit (by simpa using hc))))
      . exact .inr (.inr (.inr ⟨ch, hother _ hloaded (by simp)⟩))

theorem View.onMove (h : View w s) (pos : EntityPos) : View w (s.onMove pos) := by
  unfold Streaming.onMove
  split
  . exact h
  . next hspawned =>
    rw [not_or, not_not] at hspawned
    dsimp only
    split
    . exact ⟨h.chunk, h.loaded, fun _ => rfl, fun hnot => absurd hspawned.2 hnot,
        fun hwaiting => by cases hwaiting⟩
    . next hsame =>
      rw [not_not, h.crossed hspawned.2] at hsame
      refine ⟨h.chunk, h.loaded, fun _ => ?_, fun hnot => absurd hspawned.2 hnot, ?_⟩
      . rw [h.crossed hspawned.2, hsame]
      . intro hwaiting
        have haligned := h.aligned hwaiting
        have hnear (c : ChunkPos) : InSquare pos.chunkPos s.viewDist c ↔ s.Near c := by
          rw [hsame]
          rfl
        refine ⟨?_, ?_, ?_, ?_, ?_⟩
        . exact fun c hc => (haligned.kept c hc).imp_left (hnear c).mpr
        . exact fun c hmem hc => haligned.unload c hmem ((hnear c).mp hc)
        . exact fun c hmem => (hnear c).mpr (haligned.visit c hmem)
        . exact fun c ch hmem => (hnear c).mpr (haligned.loaded c ch hmem)
        . exact fun c hc => haligned.covered c ((hnear c).mp hc)

theorem View.rehash (h : View w s) {visChunks : List ChunkPos} (hperm : visChunks.Perm s.visChunks)
    : View w { s with visChunks } := by
  refine ⟨h.chunk, h.loaded, h.crossed, h.joined, ?_⟩
  intro hwaiting
  have haligned := h.aligned hwaiting
  refine ⟨?_, haligned.unload, haligned.visit, haligned.loaded, ?_⟩
  . exact fun c hc => haligned.kept c (hperm.mem_iff.mp hc)
  . exact fun c hnear => (haligned.covered c hnear).imp_left hperm.mem_iff.mpr

end View

section Steady

variable {s : Streaming ω κ}

theorem Steady.onMove (h : s.Steady) (pos : EntityPos) : (s.onMove pos).Steady := by
  have hview : ∀ w, s.w = some w → s.disconnected = false → View w (s.onMove pos) :=
    fun w hw hlive => (h.view w hw hlive).onMove pos
  unfold Streaming.onMove at hview ⊢
  split at hview
  . next hnot =>
    rw [if_pos hnot]
    exact h
  . next hspawned =>
    rw [if_neg hspawned]
    dsimp only at hview ⊢
    split at hview
    . next hne =>
      rw [if_pos hne]
      exact ⟨h.posted, h.token, h.nowhere, h.mirrored, hview⟩
    . next heq =>
      rw [if_neg heq]
      exact ⟨h.posted, h.token, h.nowhere, h.mirrored, hview⟩

/--
The pass of `stream_chunks` begins. Chunks of another world are not in view.
-/
theorem Steady.streamChunks (sort : StdSort ChunkPos) {w : ω} (hw : s.w = some w)
    (hposted : ∀ w, (s.agens w).Posted s.calls) (htoken : ((s.agens w).toks s.genTok).isSome)
    (hmirrored : s.Mirrored)
    (hchunk : s.disconnected = false → ∀ cp ch, held s.log cp = some ch → s.Near cp
      → (s.agens w).w.getChunk cp.x cp.z = some ch)
    (hcrossed : s.disconnected = false → s.spawned → s.lastCp = s.pos.chunkPos)
    (hjoined : s.disconnected = false → ¬ s.spawned → s.pos = s.spawnPos)
    : (s.streamChunks sort).Steady := by
  have hview (hlive : s.disconnected = false) : View w (s.streamChunks sort) :=
    View.streamChunks sort hw hmirrored (hchunk hlive) (hcrossed hlive) (hjoined hlive)
  rw [streamChunks_of_joined sort hw] at hview ⊢
  refine ⟨hposted, ?_, ?_, hmirrored, ?_⟩
  . intro w' hw'
    cases hw.symm.trans hw'
    exact htoken
  . intro hnowhere
    cases hw.symm.trans hnowhere
  . intro w' hw' hlive
    cases hw.symm.trans hw'
    exact hview hlive

theorem Steady.lock (h : s.Steady) (sort : StdSort ChunkPos) (htodo : s.todo = [])
    : Steady ({ s with waiting := false }.streamChunks sort) := by
  rcases Option.eq_none_or_eq_some s.w with hw | ⟨w, hw⟩
  . have heq : ({ s with waiting := false } : Streaming ω κ).streamChunks sort
        = { s with waiting := false } := by
      simp only [Streaming.streamChunks, hw]
    rw [heq]
    refine ⟨h.posted, h.token, h.nowhere, h.mirrored, ?_⟩
    intro w hw'
    cases hw.symm.trans hw'
  . apply Steady.streamChunks sort (s := { s with waiting := false }) hw h.posted (h.token w hw)
      h.mirrored _ (fun hlive => (h.view w hw hlive).crossed)
      (fun hlive => (h.view w hw hlive).joined)
    intro hlive cp ch hheld _
    simpa [htodo] using (h.view w hw hlive).chunk cp ch hheld

variable [DecidableEq ω]

theorem forall_setAgen {P : ω → AsyncGenerator κ Unit → Prop} {w : ω} {agen : AsyncGenerator κ Unit}
    (hw : P w agen) (hother : ∀ w', P w' (s.agens w')) (w' : ω) : P w' ((s.setAgen w agen).agens w') :=
  (Function.forall_update_iff s.agens (p := P)).mpr ⟨hw, fun w' _ => hother w'⟩ w'

theorem Steady.setAgen (h : s.Steady) {w' : ω} {agen : AsyncGenerator κ Unit}
    (hposted : agen.Posted s.calls) (hextends : (s.agens w').Extends agen)
    (hpending : s.w = some w' → ∀ x z, (s.agens w').Pending x z → agen.Pending x z)
    : (s.setAgen w' agen).Steady := by
  have hlater := forall_setAgen (P := fun w agen => (s.agens w).Extends agen) hextends
    (fun w => .refl (s.agens w))
  constructor
  . exact forall_setAgen (P := fun _ agen => agen.Posted s.calls) hposted h.posted
  . exact fun w hw => (hlater w).toks s.genTok (h.token w hw)
  . exact h.nowhere
  . exact h.mirrored
  . intro w hw hlive
    apply (h.view w hw hlive).extend (hlater w).getChunk
    exact forall_setAgen
      (P := fun w agen => s.w = some w → ∀ x z, (s.agens w).Pending x z → agen.Pending x z)
      hpending (fun _ _ _ _ hpend => hpend) w hw

theorem Steady.freeGenTok (h : s.Steady) (hidle : s.Idle)
    : ∃ agens, s.freeGenTok = .ok { s with agens }
        ∧ ∀ w, (agens w).Posted s.calls ∧ (agens w).w = (s.agens w).w := by
  cases hw : s.w with
  | none =>
    refine ⟨s.agens, ?_, fun w => ⟨h.posted w, rfl⟩⟩
    simp only [Streaming.freeGenTok, hw]
    rw [← hw]
  | some prevW =>
    obtain ⟨agen, hfree, hposted, hworld, _⟩ := (h.posted prevW).freeToken (hidle prevW) s.genTok
    refine ⟨(s.setAgen prevW agen).agens, ?_, ?_⟩
    . simp only [Streaming.freeGenTok, hw, hfree, Streaming.setAgen]
    . exact forall_setAgen (P := fun w agen => agen.Posted s.calls ∧ agen.w = (s.agens w).w)
        ⟨hposted, hworld⟩ (fun w => ⟨h.posted w, rfl⟩)

theorem Steady.joinWorld (h : s.Steady) (sort : StdSort ChunkPos) {w : ω} {pos : EntityPos}
    (htodo : s.todo = []) (hidle : s.Idle)
    (hother : s.w ≠ some w → ∀ cp ∈ s.visChunks, ¬ InSquare pos.chunkPos s.viewDist cp)
    : ∃ t, s.joinWorld sort w pos = .ok t ∧ t.Steady := by
  obtain ⟨agens, hfree, hagens⟩ := h.freeGenTok hidle
  have hjoined : ∀ w', (Function.update agens w (agens w).makeToken w').Posted s.calls
      ∧ (Function.update agens w (agens w).makeToken w').w = (s.agens w').w :=
    (Function.forall_update_iff agens
      (p := fun w agen => agen.Posted s.calls ∧ agen.w = (s.agens w).w)).mpr
      ⟨⟨(hagens w).1.makeToken, (hagens w).2⟩, fun w' _ => hagens w'⟩
  have htoken : ((Function.update agens w (agens w).makeToken w).toks (agens w).nextTok).isSome := by
    simp [AsyncGenerator.makeToken]
  let u : Streaming ω κ :=
    { s with
      agens := Function.update agens w (agens w).makeToken
      w := some w
      spawned := false
      spawnPos := pos
      pos
      genTok := (agens w).nextTok }
  refine ⟨u.streamChunks sort, by rw [Streaming.joinWorld, hfree]; rfl, ?_⟩
  apply Steady.streamChunks sort (s := u) rfl (fun w' => (hjoined w').1) htoken h.mirrored _
    (fun _ hspawned => by cases hspawned) (fun _ _ => rfl)
  intro hlive cp ch hheld hnear
  rw [(hjoined w).2]
  by_cases hw : s.w = some w
  . have hchunk := (h.view w hw hlive).chunk cp ch hheld
    simpa [htodo] using hchunk
  . have hvis : cp ∈ s.visChunks := (h.mirrored cp).mpr (by rw [hheld]; rfl)
    exact absurd hnear (hother hw cp hvis)

theorem Steady.visit (h : s.Steady) {w : ω} (hw : s.w = some w) {cp : ChunkPos}
    {todo : List (StreamTask κ)} (htodo : s.todo = .visit cp :: todo)
    {res : Except AsyncGenerator.Crash (Streaming ω κ)} (htask : s.doTask = some res)
    (hmirrored : ∀ t, res = .ok t → t.Mirrored)
    : ∃ t, res = .ok t ∧ t.Steady := by
  have hsomewhere : ¬ s.w = none := by simp [hw]
  by_cases hvis : cp ∈ s.visChunks
  . rw [doTask_visible htodo hvis] at htask
    cases htask
    refine ⟨_, rfl, h.posted, h.token, fun hnone => absurd hnone hsomewhere, h.mirrored, ?_⟩
    intro w' hw' hlive
    have hview := @View.visit _ _ w' s s.agens (h.view w' hw' hlive) cp todo [] s.calls [] htodo
      (fun _ _ => rfl) (fun _ _ hpend => hpend) (by simp) (.inl hvis) (by simp)
    simpa using hview
  . obtain ⟨agen, hgen, hposted, hworld, htoks, hpending, hhere⟩ :=
      @AsyncGenerator.Posted.generateWhole _ _ _ _ (h.posted w) ⟨s.genTok, cp.x, cp.z, ()⟩
        (h.token w hw)
    rw [doTask_visit htodo hvis hw hgen] at htask
    cases htask
    refine ⟨_, rfl, ?_, ?_, fun hnone => absurd hnone hsomewhere, hmirrored _ rfl, ?_⟩
    . exact forall_setAgen (P := fun _ agen => agen.Posted (s.calls + 1)) hposted
        (fun w => (h.posted w).mono (Nat.le_succ s.calls))
    . intro w' hw'
      cases hw.symm.trans hw'
      dsimp only
      rw [setAgen_agens_self, htoks]
      exact h.token w hw
    . intro w' hw' hlive
      cases hw.symm.trans hw'
      apply (h.view w hw hlive).visit htodo
      . rw [setAgen_agens_self, hworld]
        exact fun _ _ => rfl
      . rw [setAgen_agens_self]
        exact hpending
      . intro task htask
        rw [Option.mem_toList, Option.map_eq_some_iff] at htask
        obtain ⟨ch, hch, heq⟩ := htask
        exact ⟨ch, heq.symm, hch⟩
      . rw [setAgen_agens_self]
        cases hch : (s.agens w).w.getChunk cp.x cp.z with
        | none => exact .inr (.inl (hhere hch))
        | some ch => exact .inr (.inr ⟨ch, by simp⟩)
      . simp [Neutral]

theorem Steady.task (h : s.Steady) {res : Except AsyncGenerator.Crash (Streaming ω κ)}
    (htask : s.doTask = some res) (hmirrored : ∀ t, res = .ok t → t.Mirrored)
    : ∃ t, res = .ok t ∧ t.Steady := by
  cases htodo : s.todo with
  | nil => simp [doTask, htodo] at htask
  | cons task todo =>
    obtain ⟨w, hw⟩ : ∃ w, s.w = some w := by
      rcases Option.eq_none_or_eq_some s.w with hw | hw
      . rw [(h.nowhere hw).2] at htodo
        cases htodo
      . exact hw
    cases task with
    | unload cp =>
      rw [doTask_unload htodo] at htask
      cases htask
      refine ⟨_, rfl, h.posted, h.token, ?_, hmirrored _ rfl, ?_⟩
      . simp [hw]
      . exact fun w hw hlive => (h.view w hw hlive).unload htodo
    | visit cp => exact h.visit hw htodo htask hmirrored
    | loaded cp ch =>
      rw [doTask_loaded htodo] at htask
      cases htask
      refine ⟨_, rfl, ?_, ?_, ?_, hmirrored _ rfl, ?_⟩
      . simpa using h.posted
      . simpa using h.token
      . simp [hw]
      . intro w' hw' hlive
        rw [onChunkLoaded_w] at hw'
        rw [onChunkLoaded_disconnected] at hlive
        have hview := h.view w' hw' hlive
        have hmem : .loaded cp ch ∈ s.todo := by simp [htodo]
        apply @View.arrive _ _ w' s s.agens hview hlive cp ch todo
        . exact fun _ _ _ hch => hch
        . exact fun _ _ hpend => .inl hpend
        . intro task htask
          rw [htodo] at htask
          exact (List.mem_cons.mp htask).symm
        . intro task htask
          simp [htodo, htask]
        . exact hview.loaded cp ch hmem
        . exact fun hwaiting => (hview.aligned hwaiting).loaded cp ch hmem

theorem Steady.proceed (h : s.Steady) {w : ω} {r : Nat} {prov : Option κ} {gen : κ}
    (sort : StdSort ChunkPos) {res : Except AsyncGenerator.Crash (Streaming ω κ)}
    (hnear : s.waiting = false → ∀ cp ch, s.Arrives cp ch (.proceed w r prov gen) → s.Near cp)
    (hstep : step sort (.ok s) (.proceed w r prov gen) = some res)
    (hmirrored : ∀ t, res = .ok t → t.Mirrored)
    : ∃ t, res = .ok t ∧ t.Steady := by
  cases hreq : (s.agens w).requests r with
  | none => simp [step, hreq] at hstep
  | some req =>
    cases hproceed : (s.agens w).proceed r req prov gen with
    | none => simp [step, hreq, hproceed] at hstep
    | some result =>
      by_cases hstage : ∃ ch, req.stage = .loaded ch
      . obtain ⟨ch, hstage⟩ := hstage
        obtain ⟨hch, agen, hok, hposted, hextends, hpending⟩ :=
          (h.posted w).proceed_loaded hreq hstage hproceed
        rw [hok] at hproceed
        simp only [step, hreq, hproceed, hstage, Option.some.injEq] at hstep
        have hgone (hw : ¬ s.w = some w) : (s.setAgen w agen).Steady :=
          h.setAgen hposted hextends (fun heq => absurd heq hw)
        by_cases hw : s.w = some w
        . rw [callback, if_pos (by exact hw)] at hstep
          rw [← hstep] at hmirrored ⊢
          refine ⟨_, rfl, ?_, ?_, ?_, hmirrored _ rfl, ?_⟩
          . rw [onChunkLoaded_agens, onChunkLoaded_calls]
            exact forall_setAgen (P := fun _ agen => agen.Posted s.calls) hposted h.posted
          . intro w' hw'
            rw [onChunkLoaded_w] at hw'
            cases hw.symm.trans hw'
            rw [onChunkLoaded_agens, onChunkLoaded_genTok, setAgen_agens_self]
            exact hextends.toks s.genTok (h.token w hw)
          . intro hnowhere
            rw [onChunkLoaded_w] at hnowhere
            cases hw.symm.trans hnowhere
          . intro w' hw' hlive
            rw [onChunkLoaded_w] at hw'
            rw [onChunkLoaded_disconnected] at hlive
            cases hw.symm.trans hw'
            apply @View.arrive _ _ w s (s.setAgen w agen).agens (h.view w hw hlive) hlive
              ⟨req.ctx.x, req.ctx.z⟩ ch s.todo
            . rw [setAgen_agens_self]
              exact hextends.getChunk
            . rw [setAgen_agens_self]
              exact hpending
            . exact fun _ hmem => .inl hmem
            . exact fun _ hmem => hmem
            . exact hch
            . exact fun hwaiting => hnear hwaiting _ ch ⟨hlive, hw, req, hreq, hstage, rfl⟩
        . rw [callback, if_neg (by exact hw)] at hstep
          exact ⟨_, hstep.symm, hgone hw⟩
      . simp only [not_exists] at hstage
        obtain ⟨agen, hok, hposted, hextends, hpending⟩ :=
          (h.posted w).proceed hreq hstage hproceed
        rw [hok] at hproceed
        have hres : res = .ok (s.setAgen w agen) := by
          simp only [step, hreq, hproceed] at hstep
          exact (Option.some.inj hstep).symm
        exact ⟨_, hres, h.setAgen hposted hextends (fun _ => hpending)⟩

theorem Steady.step (h : s.Steady) (sort : StdSort ChunkPos) {l : Label ω κ}
    {res : Except AsyncGenerator.Crash (Streaming ω κ)} (htimely : Timely (.ok s) l)
    (hstep : step sort (.ok s) l = some res) : ∃ t, res = .ok t ∧ t.Steady := by
  have hmirrored (t : Streaming ω κ) (hres : res = .ok t) : t.Mirrored := by
    rw [hres] at hstep
    exact h.mirrored.step sort hstep
  cases l with
  | joinWorld w pos =>
    simp only [Streaming.step] at hstep
    split at hstep
    . next htodo =>
      rw [List.isEmpty_iff] at htodo
      obtain ⟨t, hjoin, ht⟩ := h.joinWorld sort htodo htimely.1 htimely.2
      rw [hjoin] at hstep
      exact ⟨t, (Option.some.inj hstep).symm, ht⟩
    . cases hstep
  | onMove pos =>
    simp only [Streaming.step] at hstep
    split at hstep
    . cases hstep
    . cases hstep
      exact ⟨_, rfl, h.onMove pos⟩
  | lock =>
    simp only [Streaming.step] at hstep
    split at hstep
    . next hlock =>
      rw [List.isEmpty_iff] at hlock
      cases hstep
      exact ⟨_, rfl, h.lock sort hlock.2⟩
    . cases hstep
  | task => exact h.task hstep hmirrored
  | proceed w r prov gen => exact h.proceed sort htimely hstep hmirrored
  | loadChunk w x z prov gen =>
    cases hstep
    refine ⟨_, rfl, h.setAgen ((h.posted w).loadChunk x z prov gen) ?_ (fun _ _ _ hpend => hpend)⟩
    exact ⟨fun _ htok => htok, fun _ _ _ hch => World.getChunk_loadChunk_of_some hch x z prov gen⟩
  | rehash visChunks =>
    simp only [Streaming.step] at hstep
    split at hstep
    . next hperm =>
      cases hstep
      refine ⟨_, rfl, h.posted, h.token, h.nowhere, hmirrored _ rfl, ?_⟩
      exact fun w hw hlive => (h.view w hw hlive).rehash hperm
    . cases hstep
  | disconnect =>
    cases hstep
    refine ⟨_, rfl, h.posted, h.token, h.nowhere, h.mirrored, ?_⟩
    intro w hw hlive
    cases hlive

end Steady

/--
The request that goes on is for a chunk in view.
-/
def InTime : Except AsyncGenerator.Crash (Streaming ω κ) → Label ω κ → Prop
  | .ok s, .proceed w r _ _ =>
    ∀ req ∈ (s.agens w).requests r, InSquare s.pos.chunkPos s.viewDist ⟨req.ctx.x, req.ctx.z⟩
  | _, _ => True

instance (res : Except AsyncGenerator.Crash (Streaming ω κ)) (l : Label ω κ)
    : Decidable (InTime res l) := by
  unfold InTime
  split <;> infer_instance

def Label.isJoinWorld : Label ω κ → Bool
  | .joinWorld _ _ => true
  | _ => false

theorem timely_of_inTime {res : Except AsyncGenerator.Crash (Streaming ω κ)} {l : Label ω κ}
    (h : l.isJoinWorld = false ∧ InTime res l) : Timely res l := by
  cases res with
  | error crash => trivial
  | ok s =>
    cases l with
    | joinWorld w pos => cases h.left
    | proceed w r prov gen =>
      rintro _ cp ch ⟨_, _, req, hreq, _, hcp⟩
      exact hcp ▸ h.right req hreq
    | _ => trivial

/--
The player goes to a chunk that has to be generated.
-/
def leaving : List (Label Unit Unit) :=
  [.task, .task, .onMove (standAt 16), .lock, .task, .task] ++ List.replicate 4 (.proceed () 1 none ())

example : (exec (step .insertion) (.ok (init 0 fun _ => ground))
      (.joinWorld () (standAt 0) :: leaving)).map sentIn
    = some [.generate ⟨0, 0⟩, .chunkData ⟨0, 0⟩ (), .spawn (standAt 0), .unloadChunk ⟨0, 0⟩,
      .generate ⟨1, 0⟩, .chunkData ⟨1, 0⟩ ()] := by
  decide +kernel

/--
The chunk the player has left comes after he has gone back.
-/
def returning : List (Label Unit Unit) :=
  [.joinWorld () (standAt 0), .task, .task, .onMove (standAt 16), .lock, .task, .task,
    .onMove (standAt 0), .lock, .task, .task] ++ List.replicate 4 (.proceed () 1 none ())

def endOf : Option (Except AsyncGenerator.Crash (Streaming Unit Unit)) → Option (Streaming Unit Unit)
  | some (.ok s) => some s
  | _ => none

def returned : Streaming Unit Unit :=
  (endOf (exec (step .insertion) (.ok (init 0 fun _ => ground)) returning)).getD
    (init 0 fun _ => ground)

theorem exec_returning
    : exec (step .insertion) (.ok (init 0 fun _ => ground)) returning = some (.ok returned) := by
  have hsome : (endOf (exec (step .insertion) (.ok (init 0 fun _ => ground)) returning)).isSome := by
    decide +kernel
  unfold returned
  generalize exec (step .insertion) (.ok (init 0 fun _ => ground)) returning = res at hsome
  rcases res with _ | _ | s
  . cases hsome
  . cases hsome
  . rfl

theorem idle_returned : returned.Idle := by
  intro w r req hreq
  match r with
  | 0 | 1 | 2 =>
    cases hreq
    rfl
  | r + 3 =>
    cases hreq

end Streaming

end HCraft
