import HCraft.Lib.Transition
import HCraft.Player.StreamChunks.Lemmas.Steps
import HCraft.World.AsyncGenerator.Lemmas.Posted

/-!
This module contains what one pass of `stream_chunks` does when no request gets in between: which
chunks it unloads, which it asks for and in what order, and which are visible afterwards.
-/

namespace HCraft

open Transition

variable {ω κ : Type}

def StreamEvent.unloaded : StreamEvent κ → Option ChunkPos
  | .unloadChunk cp => some cp
  | _ => none

def StreamEvent.generated : StreamEvent κ → Option ChunkPos
  | .generate cp => some cp
  | _ => none

namespace Streaming

/--
A player in the world `w`, with a connection and a token for its generator.
-/
structure Ready (w : ω) (s : Streaming ω κ) : Prop where
  joined : s.w = some w
  live : s.disconnected = false
  token : (s.agens w).TokenValid s.genTok

/--
From `s` to `t`, `stream_chunks` has gone through the chunks `cps`.
-/
structure Visited (w : ω) (cps : List ChunkPos) (s t : Streaming ω κ) : Prop where
  world : (t.agens w).w = (s.agens w).w
  log : ∃ sent, t.log = s.log ++ sent ∧ sent.filterMap StreamEvent.unloaded = []
    ∧ sent.filterMap StreamEvent.generated = cps.filter (· ∉ s.visChunks)
  visChunks : ∀ cp, cp ∈ t.visChunks
    ↔ cp ∈ s.visChunks ∨ (cp ∈ cps ∧ ((s.agens w).w.getChunk cp.x cp.z).isSome)

variable {w : ω} {s t u : Streaming ω κ}

theorem Visited.nil (s : Streaming ω κ) : Visited w [] s s where
  world := rfl
  log := ⟨[], by simp⟩
  visChunks := by simp

theorem Visited.cons {cp : ChunkPos} {cps : List ChunkPos} (hfirst : Visited w [cp] s t)
    (hrest : Visited w cps t u) (hnew : cp ∉ cps) : Visited w (cp :: cps) s u where
  world := hrest.world.trans hfirst.world
  log := by
    obtain ⟨sent, hsent, hunl, hgen⟩ := hfirst.log
    obtain ⟨sent', hsent', hunl', hgen'⟩ := hrest.log
    refine ⟨sent ++ sent', ?_, ?_, ?_⟩
    . rw [hsent', hsent, List.append_assoc]
    . rw [List.filterMap_append, hunl, hunl', List.append_nil]
    . -- the first chunk is not among the others, so it does not matter to them that it got visible
      have hsame : cps.filter (· ∉ t.visChunks) = cps.filter (· ∉ s.visChunks) := by
        apply List.filter_congr
        intro c hc
        have hne : c ≠ cp := fun h => hnew (h ▸ hc)
        simp [hfirst.visChunks, hne]
      rw [List.filterMap_append, hgen, hgen', hsame, ← List.filter_append, List.singleton_append]
  visChunks := by
    intro c
    rw [hrest.visChunks, hfirst.visChunks, hfirst.world]
    simp only [List.mem_cons]
    tauto

section Task

variable (sort : StdSort ChunkPos) [DecidableEq ω]

theorem exec_task {n : Nat} {res : Except AsyncGenerator.Crash (Streaming ω κ)}
    (htask : s.doTask = some (.ok t))
    (hrest : exec (step sort) (.ok t) (List.replicate n .task) = some res)
    : exec (step sort) (.ok s) (List.replicate (n + 1) .task) = some res :=
  exec_cons.mpr ⟨_, htask, hrest⟩

theorem exec_unload {cps : List ChunkPos} {todo : List (StreamTask κ)}
    (htodo : s.todo = cps.map .unload ++ todo)
    : exec (step sort) (.ok s) (List.replicate cps.length .task) = some (.ok { s with
        todo
        log := s.log ++ cps.map .unloadChunk
        visChunks := s.visChunks.filter (· ∉ cps) }) := by
  induction cps generalizing s with
  | nil =>
    simp only [List.map_nil, List.nil_append] at htodo
    simp [← htodo]
  | cons cp cps ih =>
    apply exec_task sort (doTask_unload htodo)
    rw [ih rfl]
    simp [List.filter_filter, Bool.and_comm]

theorem Ready.exec_visit (h : s.Ready w) {cp : ChunkPos} {todo : List (StreamTask κ)}
    (htodo : s.todo = .visit cp :: todo)
    : ∃ n t, exec (step sort) (.ok s) (List.replicate n .task) = some (.ok t)
        ∧ t.todo = todo ∧ t.Ready w ∧ Visited w [cp] s t := by
  by_cases hvis : cp ∈ s.visChunks
  . refine ⟨1, _, exec_task sort (doTask_visible htodo hvis) rfl, rfl, ?_, ?_⟩
    . exact ⟨h.joined, h.live, h.token⟩
    . refine ⟨rfl, ⟨[], by simp [hvis]⟩, ?_⟩
      intro c
      simp only [List.mem_singleton, iff_self_or]
      rintro ⟨rfl, _⟩
      exact hvis
  . obtain ⟨agen, hgen, hworld, htoks, htokens⟩ :=
      @AsyncGenerator.TokenValid.generateWhole _ _ _ ⟨s.genTok, cp.x, cp.z, ()⟩ h.token s.calls
    have htoken : agen.TokenValid s.genTok := by
      rw [AsyncGenerator.TokenValid, htoks, htokens]
      exact h.token
    have htask := doTask_visit htodo hvis h.joined hgen
    have hworld' : Function.update s.agens w agen w = agen := Function.update_self w agen s.agens
    cases hch : (s.agens w).w.getChunk cp.x cp.z with
    | none =>
      rw [hch] at htask
      refine ⟨1, _, exec_task sort htask rfl, rfl, ?_, ?_, ⟨[.generate cp], ?_⟩, ?_⟩
      . exact ⟨h.joined, h.live, by simpa [setAgen] using htoken⟩
      . simpa [setAgen] using hworld
      . simp [StreamEvent.unloaded, StreamEvent.generated, hvis]
      . intro c
        simp only [setAgen, List.mem_singleton, iff_self_or]
        rintro ⟨rfl, hsome⟩
        rw [hch] at hsome
        cases hsome
    | some ch =>
      rw [hch] at htask
      have hloaded := doTask_loaded (s := { s.setAgen w agen with
        calls := s.calls + 1
        log := s.log ++ [.generate cp]
        todo := .loaded cp ch :: todo }) rfl
      rw [onChunkLoaded_of_live (by exact h.live)] at hloaded
      refine ⟨2, _, exec_task sort htask (exec_task sort hloaded rfl), rfl, ?_, ?_, ?_, ?_⟩
      . exact ⟨h.joined, h.live, by simpa [setAgen] using htoken⟩
      . simpa [setAgen] using hworld
      . refine ⟨_, List.append_assoc _ _ _, ?_, ?_⟩
        . simp only [List.filterMap_append, List.filterMap_cons, StreamEvent.unloaded]
          split
          . rfl
          . rfl
        . simp only [List.filterMap_append, List.filterMap_cons, StreamEvent.generated]
          split
          . simp [StreamEvent.generated, hvis]
          . simp [hvis]
      . intro c
        simp only [setAgen, List.mem_insert_iff, List.mem_singleton]
        constructor
        . rintro (rfl | hc)
          . exact .inr ⟨rfl, by rw [hch]; rfl⟩
          . exact .inl hc
        . rintro (hc | ⟨rfl, _⟩)
          . exact .inr hc
          . exact .inl rfl

theorem Ready.exec_visits {cps : List ChunkPos} {s : Streaming ω κ} (h : s.Ready w)
    (htodo : s.todo = cps.map .visit) (hnodup : cps.Nodup)
    : ∃ n t, exec (step sort) (.ok s) (List.replicate n .task) = some (.ok t)
        ∧ t.todo = [] ∧ Visited w cps s t := by
  induction cps generalizing s with
  | nil => exact ⟨0, s, rfl, htodo, .nil s⟩
  | cons cp cps ih =>
    rw [List.nodup_cons] at hnodup
    obtain ⟨n, t, hexec, htodo', hready, hfirst⟩ := h.exec_visit sort htodo
    obtain ⟨m, u, hexec', hdone, hrest⟩ := ih hready htodo' hnodup.2
    refine ⟨n + m, u, ?_, hdone, hfirst.cons hrest hnodup.1⟩
    rw [List.replicate_add, exec_append]
    exact ⟨_, hexec, hexec'⟩

end Task

/--
What a pass around the position that the player has in `s` leaves behind in `t`.
-/
structure Streamed (w : ω) (s t : Streaming ω κ) : Prop where
  done : t.todo = []
  log : ∃ (unloads : List ChunkPos) (sent : List (StreamEvent κ)),
    t.log = s.log ++ unloads.map .unloadChunk ++ sent
      ∧ unloads.Nodup
      ∧ (∀ cp, cp ∈ unloads ↔ cp ∈ s.visChunks ∧ ¬ InSquare s.pos.chunkPos s.viewDist cp)
      ∧ sent.filterMap StreamEvent.unloaded = []
      ∧ (sent.filterMap StreamEvent.generated).Nodup
      ∧ (∀ cp, cp ∈ sent.filterMap StreamEvent.generated
          ↔ InSquare s.pos.chunkPos s.viewDist cp ∧ cp ∉ s.visChunks)
      ∧ (sent.filterMap StreamEvent.generated).Pairwise
          (fun a b => dist2 s.pos.chunkPos a ≤ dist2 s.pos.chunkPos b)
  visChunks : ∀ cp, cp ∈ t.visChunks
    ↔ InSquare s.pos.chunkPos s.viewDist cp
        ∧ (cp ∈ s.visChunks ∨ ((s.agens w).w.getChunk cp.x cp.z).isSome)

variable [DecidableEq ω]

theorem streamChunks_spec (sort : StdSort ChunkPos) (w : ω) (s : Streaming ω κ)
    (hready : s.Ready w) (hset : s.visChunks.Nodup)
    (hsmall : 2 * (s.viewDist * s.viewDist) < 2 ^ 31)
    : ∃ n t, exec (step sort) (.ok (s.streamChunks sort)) (List.replicate n .task) = some (.ok t)
        ∧ Streamed w s t := by
  rw [streamChunks_of_joined sort hready.joined]
  have hunload := exec_unload sort (s := { s with
    todo := s.toUnload.map .unload ++ (s.toVisit sort).map .visit }) rfl
  have hready' : Ready w { s with
      todo := (s.toVisit sort).map .visit
      log := s.log ++ s.toUnload.map .unloadChunk
      visChunks := s.visChunks.filter (· ∉ s.toUnload) } :=
    ⟨hready.joined, hready.live, hready.token⟩
  obtain ⟨n, t, hexec, hdone, hvisited⟩ := hready'.exec_visits sort rfl (nodup_sort_inSight sort)
  have hkept (cp : ChunkPos) : cp ∈ s.visChunks.filter (· ∉ s.toUnload)
      ↔ cp ∈ s.visChunks ∧ InSquare s.pos.chunkPos s.viewDist cp := by
    rw [List.mem_filter, decide_eq_true_iff, mem_toUnload]
    tauto
  obtain ⟨sent, hsent, hunloaded, hgenerated⟩ := hvisited.log
  have hnew : (s.toVisit sort).filter (· ∉ s.visChunks.filter (· ∉ s.toUnload))
      = (s.toVisit sort).filter (· ∉ s.visChunks) := by
    apply List.filter_congr
    intro cp hcp
    rw [mem_toVisit] at hcp
    simp only [hkept, hcp, and_true]
  rw [hnew] at hgenerated
  refine ⟨s.toUnload.length + n, t, ?_, hdone, ?_, ?_⟩
  . rw [List.replicate_add, exec_append]
    exact ⟨_, hunload, hexec⟩
  . refine ⟨s.toUnload, sent, hsent, hset.filter _, fun cp => s.mem_toUnload, hunloaded, ?_⟩
    rw [hgenerated]
    refine ⟨(nodup_sort_inSight sort).filter _, ?_, (sorted_sort_inSight sort hsmall).filter _⟩
    intro cp
    rw [List.mem_filter, mem_toVisit, decide_eq_true_iff]
  . intro cp
    rw [hvisited.visChunks, hkept, mem_toVisit]
    tauto

/--
One chunk has to go, one is visible already and one is loaded.
-/
def standing : Streaming Unit Unit :=
  let w : World Unit := ⟨-1, -1, (), fun x z => if x = 1 ∧ z = 0 then some () else none⟩
  { init 1 (fun _ : Unit => w) with
    agens := fun _ => (AsyncGenerator.init w).makeToken
    w := some ()
    genTok := 1
    visChunks := [⟨5, 0⟩, ⟨0, 0⟩] }

theorem streamChunks_spec_standing
    : ∃ n t, exec (step .insertion) (.ok (standing.streamChunks .insertion))
          (List.replicate n .task) = some (.ok t)
        ∧ Streamed () standing t :=
  streamChunks_spec .insertion () standing
    ⟨rfl, rfl, ⟨0, 1, by simp [standing, AsyncGenerator.makeToken, AsyncGenerator.init],
      by simp [standing, AsyncGenerator.makeToken, AsyncGenerator.init]⟩⟩
    (by decide) (by decide)

end Streaming

end HCraft
