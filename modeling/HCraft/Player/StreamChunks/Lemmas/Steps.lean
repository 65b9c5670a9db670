import HCraft.Player.StreamChunks.Impl
import Mathlib.Data.List.Nodup
import Mathlib.Tactic.Linarith

/-!
This module contains the square of chunks around a player, and what each function does to his state.
-/

namespace HCraft

section Square

variable {me : ChunkPos} {r : Int}

theorem mem_inSight {cp : ChunkPos} : cp ∈ inSight me r ↔ InSquare me r cp := by
  unfold inSight InSquare
  simp only [List.mem_flatMap, List.mem_map, List.mem_range]
  constructor
  . rintro ⟨i, hi, j, hj, rfl⟩
    dsimp only
    omega
  . intro h
    refine ⟨(cp.x - (me.x - r)).toNat, by omega, (cp.z - (me.z - r)).toNat, by omega, ?_⟩
    rw [Int.toNat_of_nonneg (by omega), Int.toNat_of_nonneg (by omega)]
    cases cp
    simp only [ChunkPos.mk.injEq]
    omega

theorem nodup_inSight (me : ChunkPos) (r : Int) : (inSight me r).Nodup := by
  unfold inSight
  rw [List.nodup_flatMap]
  constructor
  . intro i _
    apply List.nodup_range.map
    intro j j' h
    simp only [ChunkPos.mk.injEq] at h
    omega
  . apply List.nodup_range.imp
    intro i i' hne cp hi hi'
    simp only [List.mem_map] at hi hi'
    obtain ⟨j, _, hj⟩ := hi
    obtain ⟨j', _, hj'⟩ := hi'
    rw [← hj'] at hj
    simp only [ChunkPos.mk.injEq] at hj
    omega

theorem closer_weakOrder (me : ChunkPos) : WeakOrder (closer me) :=
  WeakOrder.of_key (fun cp => Bin.wrap32 (dist2 me cp))

theorem sq_le_of_between {a r : Int} (hlo : -r ≤ a) (hhi : a ≤ r) : a * a ≤ r * r := by
  have hprod : 0 ≤ (r - a) * (r + a) := Int.mul_nonneg (by omega) (by omega)
  linarith only [hprod]

theorem wrap32_dist2 {cp : ChunkPos} (hsmall : 2 * (r * r) < 2 ^ 31) (hin : InSquare me r cp)
    : Bin.wrap32 (dist2 me cp) = dist2 me cp := by
  unfold InSquare at hin
  have hx : (cp.x - me.x) * (cp.x - me.x) ≤ r * r := sq_le_of_between (by omega) (by omega)
  have hz : (cp.z - me.z) * (cp.z - me.z) ≤ r * r := sq_le_of_between (by omega) (by omega)
  have hx0 : 0 ≤ (cp.x - me.x) * (cp.x - me.x) := mul_self_nonneg _
  have hz0 : 0 ≤ (cp.z - me.z) * (cp.z - me.z) := mul_self_nonneg _
  unfold dist2
  apply Bin.wrap32_eq_self
  . omega
  . omega

end Square

section Sorted

variable (sort : StdSort ChunkPos) {me : ChunkPos} {r : Int}

theorem mem_sort_inSight {cp : ChunkPos}
    : cp ∈ sort.sort (closer me) (inSight me r) ↔ InSquare me r cp := by
  rw [sort.mem_sort (closer_weakOrder me), mem_inSight]

theorem nodup_sort_inSight : (sort.sort (closer me) (inSight me r)).Nodup := by
  rw [sort.nodup_sort (closer_weakOrder me)]
  exact nodup_inSight me r

theorem sorted_sort_inSight (hsmall : 2 * (r * r) < 2 ^ 31)
    : (sort.sort (closer me) (inSight me r)).Pairwise (fun a b => dist2 me a ≤ dist2 me b) := by
  apply (sort.sorted (closer_weakOrder me) (inSight me r)).imp_of_mem
  intro a b ha hb hle
  rw [mem_sort_inSight] at ha hb
  unfold closer at hle
  rw [wrap32_dist2 hsmall ha, wrap32_dist2 hsmall hb, decide_eq_false_iff_not] at hle
  omega

end Sorted

namespace Streaming

variable {ω κ : Type} {s : Streaming ω κ}

/--
Whether this is the chunk the player waits for to spawn.
-/
def Spawns (s : Streaming ω κ) (cp : ChunkPos) : Prop :=
  ¬ s.spawned ∧ cp = s.spawnPos.chunkPos

instance (cp : ChunkPos) : Decidable (s.Spawns cp) :=
  inferInstanceAs (Decidable (_ ∧ _))

theorem onChunkLoaded_of_disconnected (h : s.disconnected = true) (ch : κ) (cp : ChunkPos)
    : s.onChunkLoaded ch cp = s := by
  rw [onChunkLoaded, if_pos h]

theorem onChunkLoaded_of_live (h : s.disconnected = false) (ch : κ) (cp : ChunkPos)
    : s.onChunkLoaded ch cp =
      { s with
        spawned := s.spawned || decide (s.Spawns cp)
        pos := if s.Spawns cp then s.spawnPos else s.pos
        lastCp := if s.Spawns cp then s.spawnPos.chunkPos else s.lastCp
        visChunks := s.visChunks.insert cp
        log := s.log ++ .chunkData cp ch :: if s.Spawns cp then [.spawn s.spawnPos] else [] } := by
  by_cases hspawns : s.Spawns cp
  . have h' : ¬ s.spawned ∧ cp = s.spawnPos.chunkPos := hspawns
    simp only [onChunkLoaded, h, if_pos h', hspawns]
    simp
  . have h' : ¬ (¬ s.spawned ∧ cp = s.spawnPos.chunkPos) := hspawns
    simp only [onChunkLoaded, h, if_neg h', hspawns]
    simp

section OnChunkLoaded

variable (ch : κ) (cp : ChunkPos)

/--
Whether connected or not, only the player and what he sees change.
-/
theorem onChunkLoaded_frame
    : ∃ spawned pos lastCp visChunks log,
        s.onChunkLoaded ch cp = { s with spawned, pos, lastCp, visChunks, log } := by
  unfold onChunkLoaded
  split
  . exact ⟨_, _, _, _, _, rfl⟩
  . dsimp only
    split
    . exact ⟨_, _, _, _, _, rfl⟩
    . exact ⟨_, _, _, _, _, rfl⟩

@[simp]
theorem onChunkLoaded_viewDist : (s.onChunkLoaded ch cp).viewDist = s.viewDist := by
  obtain ⟨_, _, _, _, _, heq⟩ := s.onChunkLoaded_frame ch cp
  rw [heq]

@[simp]
theorem onChunkLoaded_disconnected : (s.onChunkLoaded ch cp).disconnected = s.disconnected := by
  obtain ⟨_, _, _, _, _, heq⟩ := s.onChunkLoaded_frame ch cp
  rw [heq]

@[simp]
theorem onChunkLoaded_agens : (s.onChunkLoaded ch cp).agens = s.agens := by
  obtain ⟨_, _, _, _, _, heq⟩ := s.onChunkLoaded_frame ch cp
  rw [heq]

@[simp]
theorem onChunkLoaded_calls : (s.onChunkLoaded ch cp).calls = s.calls := by
  obtain ⟨_, _, _, _, _, heq⟩ := s.onChunkLoaded_frame ch cp
  rw [heq]

@[simp]
theorem onChunkLoaded_w : (s.onChunkLoaded ch cp).w = s.w := by
  obtain ⟨_, _, _, _, _, heq⟩ := s.onChunkLoaded_frame ch cp
  rw [heq]

@[simp]
theorem onChunkLoaded_genTok : (s.onChunkLoaded ch cp).genTok = s.genTok := by
  obtain ⟨_, _, _, _, _, heq⟩ := s.onChunkLoaded_frame ch cp
  rw [heq]

@[simp]
theorem onChunkLoaded_todo : (s.onChunkLoaded ch cp).todo = s.todo := by
  obtain ⟨_, _, _, _, _, heq⟩ := s.onChunkLoaded_frame ch cp
  rw [heq]

@[simp]
theorem onChunkLoaded_waiting : (s.onChunkLoaded ch cp).waiting = s.waiting := by
  obtain ⟨_, _, _, _, _, heq⟩ := s.onChunkLoaded_frame ch cp
  rw [heq]

end OnChunkLoaded

section StreamChunks

variable (sort : StdSort ChunkPos) (s)

def toUnload : List ChunkPos :=
  s.visChunks.filter (fun cp => ¬ InSquare s.pos.chunkPos s.viewDist cp)

def toVisit : List ChunkPos :=
  sort.sort (closer s.pos.chunkPos) (HCraft.inSight s.pos.chunkPos s.viewDist)

theorem mem_toUnload {cp : ChunkPos}
    : cp ∈ s.toUnload ↔ cp ∈ s.visChunks ∧ ¬ InSquare s.pos.chunkPos s.viewDist cp := by
  rw [toUnload, List.mem_filter, decide_eq_true_iff]

theorem mem_toVisit {cp : ChunkPos}
    : cp ∈ s.toVisit sort ↔ InSquare s.pos.chunkPos s.viewDist cp :=
  mem_sort_inSight sort

variable {s}

@[simp]
theorem streamChunks_log : (s.streamChunks sort).log = s.log := by
  unfold streamChunks
  split
  . rfl
  . rfl

@[simp]
theorem streamChunks_visChunks : (s.streamChunks sort).visChunks = s.visChunks := by
  unfold streamChunks
  split
  . rfl
  . rfl

theorem streamChunks_of_joined {w : ω} (h : s.w = some w)
    : s.streamChunks sort =
      { s with todo := s.toUnload.map .unload ++ (s.toVisit sort).map .visit } := by
  rw [streamChunks, h]
  rfl

end StreamChunks

@[simp]
theorem setAgen_agens_self [DecidableEq ω] (w : ω) (agen : AsyncGenerator κ Unit)
    : (s.setAgen w agen).agens w = agen :=
  Function.update_self ..

theorem freeGenTok_cases [DecidableEq ω] {t : Streaming ω κ} (h : s.freeGenTok = .ok t)
    : (s.w = none ∧ t = s)
        ∨ ∃ w agen, s.w = some w ∧ (s.agens w).freeToken s.genTok = .ok agen
            ∧ t = s.setAgen w agen := by
  unfold freeGenTok at h
  split at h
  . next hw =>
    injection h with h
    exact .inl ⟨hw, h.symm⟩
  . next w hw =>
    split at h
    . injection h
    . next agen hfree =>
      injection h with h
      exact .inr ⟨w, agen, hw, hfree, h.symm⟩

section Task

variable [DecidableEq ω] {cp : ChunkPos} {todo : List (StreamTask κ)}

theorem doTask_unload (htodo : s.todo = .unload cp :: todo)
    : s.doTask = some (.ok { s with
        todo
        log := s.log ++ [.unloadChunk cp]
        visChunks := s.visChunks.filter (· ≠ cp) }) := by
  simp only [doTask, htodo]

theorem doTask_visible (htodo : s.todo = .visit cp :: todo) (hvis : cp ∈ s.visChunks)
    : s.doTask = some (.ok { s with todo }) := by
  simp only [doTask, htodo, if_pos hvis]

theorem doTask_visit {w : ω} {ch : Option κ} {agen : AsyncGenerator κ Unit}
    (htodo : s.todo = .visit cp :: todo) (hvis : cp ∉ s.visChunks) (hw : s.w = some w)
    (hgen : (s.agens w).generateWhole s.calls ⟨s.genTok, cp.x, cp.z, ()⟩ = .ok (ch, agen))
    : s.doTask = some (.ok { s.setAgen w agen with
        calls := s.calls + 1
        log := s.log ++ [.generate cp]
        todo := (ch.map (.loaded cp)).toList ++ todo }) := by
  simp only [doTask, htodo, if_neg hvis, hw, hgen]

theorem doTask_loaded {ch : κ} (htodo : s.todo = .loaded cp ch :: todo)
    : s.doTask = some (.ok ({ s with todo }.onChunkLoaded ch cp)) := by
  simp only [doTask, htodo]

end Task

end Streaming

end HCraft
