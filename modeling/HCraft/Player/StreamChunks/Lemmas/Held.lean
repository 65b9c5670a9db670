import HCraft.Lib.Transition
import HCraft.Player.StreamChunks.Lemmas.Steps
import Mathlib.Data.List.Induction

/-!
This module contains what the client makes of the packets it has got: which chunks it holds, and that
this is what the server keeps in `vis_chunks`.
-/

namespace HCraft

open Transition

variable {ω κ : Type}

namespace StreamEvent

/--
What the client holds after the packet.
-/
def apply (held : ChunkPos → Option κ) : StreamEvent κ → ChunkPos → Option κ
  | .unloadChunk cp => Function.update held cp none
  | .chunkData cp ch => Function.update held cp (some ch)
  | .spawn _ | .generate _ => held

def held (log : List (StreamEvent κ)) : ChunkPos → Option κ :=
  log.foldl apply (fun _ => none)

def Neutral : StreamEvent κ → Prop
  | .spawn _ | .generate _ => True
  | _ => False

/--
Between two packets with the chunk of a position there is one that unloads it.
-/
def SentOnce (log : List (StreamEvent κ)) : Prop :=
  ∀ before between after cp ch ch',
    log = before ++ .chunkData cp ch :: (between ++ .chunkData cp ch' :: after)
      → .unloadChunk cp ∈ between

variable {log sent : List (StreamEvent κ)} {e : StreamEvent κ} {cp : ChunkPos}

theorem held_concat (log : List (StreamEvent κ)) (e : StreamEvent κ)
    : held (log ++ [e]) = e.apply (held log) := by
  rw [held, List.foldl_append]
  rfl

theorem Neutral.apply_eq (h : e.Neutral) (held : ChunkPos → Option κ) : e.apply held = held := by
  cases e with
  | unloadChunk | chunkData => cases h
  | spawn | generate => rfl

theorem held_append (hneutral : ∀ e ∈ sent, Neutral e) : held (log ++ sent) = held log := by
  induction sent generalizing log with
  | nil => rw [List.append_nil]
  | cons e sent ih =>
    rw [List.append_cons, ih (fun e he => hneutral e (by simp [he])), held_concat]
    exact (hneutral e (by simp)).apply_eq _

theorem isSome_apply {held : ChunkPos → Option κ} (h : (held cp).isSome) (he : e ≠ .unloadChunk cp)
    : (e.apply held cp).isSome := by
  cases e with
  | unloadChunk c =>
    have hne : cp ≠ c := fun hc => he (by rw [hc])
    simpa [apply, hne] using h
  | chunkData c ch =>
    by_cases hc : cp = c
    . simp [apply, hc]
    . simpa [apply, hc] using h
  | spawn | generate => exact h

theorem isSome_held_append (h : (held log cp).isSome) (hkept : .unloadChunk cp ∉ sent)
    : (held (log ++ sent) cp).isSome := by
  induction sent generalizing log with
  | nil => rwa [List.append_nil]
  | cons e sent ih =>
    rw [List.mem_cons, not_or] at hkept
    rw [List.append_cons]
    apply ih _ hkept.2
    rw [held_concat]
    exact isSome_apply h (Ne.symm hkept.1)

theorem unloadChunk_mem_of_held_eq_none {before after : List (StreamEvent κ)} {ch : κ}
    (h : held (before ++ .chunkData cp ch :: after) cp = none) : .unloadChunk cp ∈ after := by
  by_contra hkept
  have hsome : (held (before ++ [.chunkData cp ch]) cp).isSome := by
    simp [held_concat, apply]
  have hlater := isSome_held_append hsome hkept
  rw [← List.append_cons, h] at hlater
  cases hlater

/--
What the client holds was sent and not unloaded since.
-/
theorem exists_chunkData_of_held (h : (held log cp).isSome)
    : ∃ before ch after, log = before ++ .chunkData cp ch :: after ∧ .unloadChunk cp ∉ after := by
  induction log using List.reverseRecOn with
  | nil => cases h
  | append_singleton log e ih =>
    rw [held_concat] at h
    have hearlier (h : (held log cp).isSome) (he : e ≠ .unloadChunk cp)
        : ∃ before ch after, log ++ [e] = before ++ .chunkData cp ch :: after
            ∧ .unloadChunk cp ∉ after := by
      obtain ⟨before, ch, after, hlog, hkept⟩ := ih h
      refine ⟨before, ch, after ++ [e], by simp [hlog], ?_⟩
      simp [hkept, Ne.symm he]
    cases e with
    | unloadChunk c =>
      by_cases hc : cp = c
      . simp [apply, hc] at h
      . apply hearlier
        . simpa [apply, hc] using h
        . simp [Ne.symm hc]
    | chunkData c ch =>
      by_cases hc : cp = c
      . exact ⟨log, ch, [], by rw [hc], by simp⟩
      . apply hearlier
        . simpa [apply, hc] using h
        . simp
    | spawn pos => exact hearlier h (by simp)
    | generate c => exact hearlier h (by simp)

theorem sentOnce_concat
    : SentOnce (log ++ [e])
        ↔
      SentOnce log ∧ ∀ cp ch, e = .chunkData cp ch → held log cp = none := by
  constructor
  . intro honce
    constructor
    . intro before between after cp ch ch' hlog
      apply honce before between (after ++ [e]) cp ch ch'
      simp [hlog]
    . rintro cp ch rfl
      by_contra hsome
      obtain ⟨before, ch', after, hlog, hkept⟩ :=
        exists_chunkData_of_held (Option.isSome_iff_ne_none.mpr hsome)
      apply hkept
      apply honce before after [] cp ch' ch
      simp [hlog]
  . rintro ⟨honce, hnone⟩ before between after cp ch ch' hlog
    rw [← List.cons_append, ← List.append_assoc] at hlog
    induction after using List.reverseRecOn with
    | nil =>
      obtain ⟨hbefore, hlast⟩ := List.append_inj' hlog rfl
      injection hlast with hlast
      have hnone := hnone cp ch' hlast
      rw [hbefore] at hnone
      exact unloadChunk_mem_of_held_eq_none hnone
    | append_singleton after _ =>
      rw [← List.cons_append, ← List.append_assoc] at hlog
      apply honce before between after cp ch ch'
      rw [(List.append_inj' hlog rfl).1]
      simp

theorem sentOnce_append (hneutral : ∀ e ∈ sent, Neutral e)
    : SentOnce (log ++ sent) ↔ SentOnce log := by
  induction sent generalizing log with
  | nil => rw [List.append_nil]
  | cons e sent ih =>
    rw [List.append_cons, ih (fun e he => hneutral e (by simp [he])), sentOnce_concat,
      and_iff_left_iff_imp]
    rintro _ cp ch rfl
    exact absurd (hneutral (.chunkData cp ch) (by simp)) id

end StreamEvent

namespace Streaming

open StreamEvent

variable {s t : Streaming ω κ} {l : Label ω κ} {cp : ChunkPos} {ch : κ}

/--
The step has `on_chunk_loaded` send the chunk.
-/
def Arrives (s : Streaming ω κ) (cp : ChunkPos) (ch : κ) : Label ω κ → Prop
  | .task => s.disconnected = false ∧ ∃ todo, s.todo = .loaded cp ch :: todo
  | .proceed w r _ _ =>
    s.disconnected = false ∧ s.w = some w
      ∧ ∃ req, (s.agens w).requests r = some req ∧ req.stage = .loaded ch
          ∧ cp = ⟨req.ctx.x, req.ctx.z⟩
  | _ => False

/--
The step sends no chunk and unloads none.
-/
def Quiet (s t : Streaming ω κ) : Prop :=
  (∃ sent, t.log = s.log ++ sent ∧ ∀ e ∈ sent, e.Neutral)
    ∧ ∀ cp, cp ∈ t.visChunks ↔ cp ∈ s.visChunks

theorem Quiet.of_eq (hlog : t.log = s.log) (hvis : t.visChunks = s.visChunks) : Quiet s t :=
  ⟨⟨[], by simp [hlog]⟩, by simp [hvis]⟩

def Unloads (cp : ChunkPos) (s t : Streaming ω κ) : Prop :=
  t.log = s.log ++ [.unloadChunk cp] ∧ ∀ c, c ∈ t.visChunks ↔ c ∈ s.visChunks ∧ c ≠ cp

def Sends (cp : ChunkPos) (ch : κ) (s t : Streaming ω κ) : Prop :=
  (∃ sent, t.log = s.log ++ .chunkData cp ch :: sent ∧ ∀ e ∈ sent, e.Neutral)
    ∧ ∀ c, c ∈ t.visChunks ↔ c = cp ∨ c ∈ s.visChunks

theorem sends_onChunkLoaded (h : s.disconnected = false) (ch : κ) (cp : ChunkPos)
    : Sends cp ch s (s.onChunkLoaded ch cp) := by
  rw [onChunkLoaded_of_live h]
  refine ⟨⟨_, rfl, ?_⟩, ?_⟩
  . intro e he
    split at he
    . rw [List.mem_singleton] at he
      rw [he]
      trivial
    . cases he
  . intro c
    exact List.mem_insert_iff

theorem quiet_onMove (pos : EntityPos) : Quiet s (s.onMove pos) := by
  unfold onMove
  split
  . exact .of_eq rfl rfl
  . dsimp only
    split
    . exact .of_eq rfl rfl
    . exact .of_eq rfl rfl

theorem onChunkLoaded_of_not_live (h : ¬ s.disconnected = false) (ch : κ) (cp : ChunkPos)
    : s.onChunkLoaded ch cp = s :=
  onChunkLoaded_of_disconnected (by simpa using h) ch cp

/--
What the client holds is what the server takes it to hold.
-/
def Mirrored (s : Streaming ω κ) : Prop :=
  ∀ cp, cp ∈ s.visChunks ↔ (held s.log cp).isSome

theorem Mirrored.quiet (h : s.Mirrored) (hquiet : Quiet s t) : t.Mirrored := by
  obtain ⟨⟨sent, hlog, hneutral⟩, hvis⟩ := hquiet
  intro c
  rw [hlog, held_append hneutral, hvis, h]

theorem Mirrored.unload (h : s.Mirrored) (hunload : Unloads cp s t) : t.Mirrored := by
  obtain ⟨hlog, hvis⟩ := hunload
  intro c
  rw [hlog, held_concat, hvis, h]
  by_cases hc : c = cp
  . simp [apply, hc]
  . simp [apply, hc]

theorem held_sends (h : Sends cp ch s t)
    : held t.log = Function.update (held s.log) cp (some ch) := by
  obtain ⟨⟨sent, hlog, hneutral⟩, _⟩ := h
  rw [hlog, List.append_cons, held_append hneutral, held_concat]
  rfl

theorem Mirrored.send (h : s.Mirrored) (hsend : Sends cp ch s t) : t.Mirrored := by
  intro c
  rw [held_sends hsend, hsend.2, h]
  by_cases hc : c = cp
  . simp [hc]
  . simp [hc]

theorem sentOnce_sends (h : s.Mirrored) (hsend : Sends cp ch s t)
    : SentOnce t.log ↔ SentOnce s.log ∧ cp ∉ s.visChunks := by
  obtain ⟨⟨sent, hlog, hneutral⟩, _⟩ := hsend
  rw [hlog, List.append_cons, sentOnce_append hneutral, sentOnce_concat, h cp,
    Option.not_isSome_iff_eq_none]
  constructor
  . exact fun ⟨honce, hnone⟩ => ⟨honce, hnone cp ch rfl⟩
  . rintro ⟨honce, hnone⟩
    refine ⟨honce, ?_⟩
    rintro c ch' he
    injection he with hc
    rw [← hc]
    exact hnone

variable (sort : StdSort ChunkPos) [DecidableEq ω] {res : Except AsyncGenerator.Crash (Streaming ω κ)}

theorem step_of_arrives (h : s.Arrives cp ch l) (hstep : step sort (.ok s) l = some res)
    : ∃ t, res = .ok t ∧ Sends cp ch s t := by
  cases l with
  | task =>
    obtain ⟨hlive, todo, htodo⟩ := h
    rw [step, doTask_loaded htodo] at hstep
    injection hstep with hstep
    exact ⟨_, hstep.symm, sends_onChunkLoaded (s := { s with todo }) hlive ch cp⟩
  | proceed w r prov gen =>
    obtain ⟨hlive, hw, req, hreq, hstage, hcp⟩ := h
    simp only [step, hreq, AsyncGenerator.proceed, hstage, callback, setAgen, hw, if_true] at hstep
    injection hstep with hstep
    rw [hcp]
    exact ⟨_, hstep.symm, sends_onChunkLoaded (by exact hlive) ch _⟩
  | joinWorld | onMove | lock | loadChunk | rehash | disconnect => cases h

theorem quiet_joinWorld {w : ω} {pos : EntityPos} (h : s.joinWorld sort w pos = .ok t)
    : Quiet s t := by
  unfold joinWorld at h
  split at h
  . injection h
  . next s' hfree =>
    injection h with h
    rw [← h]
    rcases freeGenTok_cases hfree with ⟨_, rfl⟩ | ⟨_, _, _, _, rfl⟩
    . exact .of_eq (streamChunks_log sort) (streamChunks_visChunks sort)
    . exact .of_eq (streamChunks_log sort) (streamChunks_visChunks sort)

theorem quiet_visit {todo : List (StreamTask κ)} (htodo : s.todo = .visit cp :: todo)
    (h : s.doTask = some (.ok t)) : Quiet s t := by
  simp only [doTask, htodo] at h
  split at h
  . cases h
    exact .of_eq rfl rfl
  . split at h
    . injection h
    . split at h
      . cases h
      . cases h
        refine ⟨⟨[.generate cp], rfl, ?_⟩, fun _ => Iff.rfl⟩
        intro e he
        rw [List.mem_singleton] at he
        rw [he]
        trivial

theorem step_of_not_arrives (h : ∀ cp ch, ¬ s.Arrives cp ch l)
    (hstep : step sort (.ok s) l = some (.ok t)) : Quiet s t ∨ ∃ cp, Unloads cp s t := by
  cases l with
  | joinWorld w pos =>
    simp only [step] at hstep
    split at hstep
    . injection hstep with hstep
      exact .inl (quiet_joinWorld sort hstep)
    . injection hstep
  | onMove pos =>
    simp only [step] at hstep
    split at hstep
    . injection hstep
    . cases hstep
      exact .inl (quiet_onMove pos)
  | lock =>
    simp only [step] at hstep
    split at hstep
    . cases hstep
      exact .inl (.of_eq (streamChunks_log sort) (streamChunks_visChunks sort))
    . injection hstep
  | task =>
    rw [step] at hstep
    cases htodo : s.todo with
    | nil => simp [doTask, htodo] at hstep
    | cons task todo =>
      cases task with
      | unload cp =>
        rw [doTask_unload htodo] at hstep
        cases hstep
        refine .inr ⟨cp, rfl, ?_⟩
        intro c
        rw [List.mem_filter, decide_eq_true_iff]
      | visit cp => exact .inl (quiet_visit htodo hstep)
      | loaded cp ch =>
        rw [doTask_loaded htodo, onChunkLoaded_of_not_live] at hstep
        . cases hstep
          exact .inl (.of_eq rfl rfl)
        . exact fun hlive => h cp ch ⟨hlive, todo, htodo⟩
  | proceed w r prov gen =>
    simp only [step] at hstep
    split at hstep
    . injection hstep
    . next req hreq =>
      split at hstep
      . injection hstep
      . cases hstep
      . next agen hproceed =>
        split at hstep
        . next ch hstage =>
          have hquiet : (s.setAgen w agen).callback w ch req.ctx.x req.ctx.z = s.setAgen w agen := by
            unfold callback
            split
            . next hw =>
              apply onChunkLoaded_of_not_live
              exact fun hlive => h _ ch ⟨hlive, hw, req, hreq, hstage, rfl⟩
            . rfl
          cases hstep
          rw [hquiet]
          exact .inl (.of_eq rfl rfl)
        . cases hstep
          exact .inl (.of_eq rfl rfl)
  | loadChunk w x z prov gen =>
    cases hstep
    exact .inl (.of_eq rfl rfl)
  | rehash visChunks =>
    simp only [step] at hstep
    split at hstep
    . next hperm =>
      cases hstep
      exact .inl ⟨⟨[], by simp⟩, fun _ => hperm.mem_iff⟩
    . injection hstep
  | disconnect =>
    cases hstep
    exact .inl (.of_eq rfl rfl)

theorem Mirrored.step (h : s.Mirrored) (hstep : step sort (.ok s) l = some (.ok t))
    : t.Mirrored := by
  by_cases harrives : ∃ cp ch, s.Arrives cp ch l
  . obtain ⟨cp, ch, harrives⟩ := harrives
    obtain ⟨_, hres, hsend⟩ := step_of_arrives sort harrives hstep
    cases hres
    exact h.send hsend
  . simp only [not_exists] at harrives
    rcases step_of_not_arrives sort harrives hstep with hquiet | ⟨cp, hunload⟩
    . exact h.quiet hquiet
    . exact h.unload hunload

theorem sentOnce_of_not_arrives (h : SentOnce s.log) (harrives : ∀ cp ch, ¬ s.Arrives cp ch l)
    (hstep : step sort (.ok s) l = some (.ok t)) : SentOnce t.log := by
  rcases step_of_not_arrives sort harrives hstep with ⟨⟨sent, hlog, hneutral⟩, _⟩ | ⟨cp, hlog, _⟩
  . rw [hlog, sentOnce_append hneutral]
    exact h
  . rw [hlog, sentOnce_concat]
    exact ⟨h, fun c ch he => by cases he⟩

/--
No chunk has been sent twice without an unload in between.
-/
def NotTwice : Except AsyncGenerator.Crash (Streaming ω κ) → Prop
  | .error _ => True
  | .ok s => SentOnce s.log

/--
If the step has `on_chunk_loaded` send a chunk, then the chunk is not visible.
-/
def SendsNew : Except AsyncGenerator.Crash (Streaming ω κ) → Label ω κ → Prop
  | .error _, _ => True
  | .ok s, l => ∀ cp ch, s.Arrives cp ch l → cp ∉ s.visChunks

section Crossing

def ground : World Unit :=
  ⟨-1, -1, (), fun x z => if x = 0 ∧ z = 0 then some () else none⟩

def standAt (x : ℚ) : EntityPos :=
  ⟨some x, some 64, some 0, some 0, some 0, true⟩

/--
From one chunk to the next and back and once more, before the first request is done.
-/
def crossing : List (Label Unit Unit) :=
  let request (r : Nat) : List (Label Unit Unit) := List.replicate 4 (.proceed () r none ())
  [.joinWorld () (standAt 0), .task, .task, .onMove (standAt 16), .lock, .task, .task,
    .onMove (standAt 0), .lock, .task, .task, .onMove (standAt 16), .lock, .task, .task]
    ++ request 1 ++ request 3

def sentIn : Except AsyncGenerator.Crash (Streaming Unit Unit) → List (StreamEvent Unit)
  | .error _ => []
  | .ok s => s.log

end Crossing

end Streaming

end HCraft
