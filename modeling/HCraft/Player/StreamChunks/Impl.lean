import HCraft.Entity.Impl
import HCraft.Lib.Sort
import HCraft.World.AsyncGenerator.Impl

/-!
This module contains how a player gets the chunks around him: the calls of `join_world` and `on_move`,
which stream chunks, next to the generation requests that the player has made and that call
`on_chunk_loaded` when they are done.
-/

namespace HCraft

open AsyncGenerator (Crash)

/--
The chunks at most `r` away in both directions.
-/
def InSquare (me : ChunkPos) (r : Int) (cp : ChunkPos) : Prop :=
  cp.x ≥ me.x - r ∧ cp.x ≤ me.x + r ∧ cp.z ≥ me.z - r ∧ cp.z ≤ me.z + r

instance (me : ChunkPos) (r : Int) (cp : ChunkPos) : Decidable (InSquare me r cp) :=
  inferInstanceAs (Decidable (_ ∧ _))

def inSight (me : ChunkPos) (r : Int) : List ChunkPos :=
  let side := List.range (2 * r + 1).toNat
  side.flatMap (fun (i : Nat) => side.map (fun (j : Nat) => ⟨me.x - r + i, me.z - r + j⟩))

def dist2 (me cp : ChunkPos) : Int :=
  (cp.x - me.x) * (cp.x - me.x) + (cp.z - me.z) * (cp.z - me.z)

def closer (me a b : ChunkPos) : Bool :=
  Bin.wrap32 (dist2 me a) < Bin.wrap32 (dist2 me b)

/--
What a call of `stream_chunks` still has to do.
-/
inductive StreamTask (κ : Type) where
  | unload (cp : ChunkPos)
  | visit (cp : ChunkPos)
  /-- `generate` has returned the chunk -/
  | loaded (cp : ChunkPos) (ch : κ)

inductive StreamEvent (κ : Type) where
  | unloadChunk (cp : ChunkPos)
  | chunkData (cp : ChunkPos) (ch : κ)
  /-- the packets that spawn the player -/
  | spawn (pos : EntityPos)
  /-- a call of `generate` -/
  | generate (cp : ChunkPos)
  deriving DecidableEq

/--
A player, the generators of the worlds and the call of `stream_chunks` that holds `w_mtx`. `waiting` is
set while `on_move` waits for it. No function reads `log`.
-/
structure Streaming (ω κ : Type) where
  viewDist : Int
  disconnected : Bool
  agens : ω → AsyncGenerator κ Unit
  calls : Nat
  w : Option ω
  genTok : Int
  spawned : Bool
  pos : EntityPos
  spawnPos : EntityPos
  lastCp : ChunkPos
  visChunks : List ChunkPos
  todo : List (StreamTask κ)
  waiting : Bool
  log : List (StreamEvent κ)

namespace Streaming

variable {ω κ : Type}

def init (viewDist : Int) (worlds : ω → World κ) : Streaming ω κ :=
  let pos : EntityPos := ⟨some 0, some 0, some 0, some 0, some 0, false⟩
  { viewDist, disconnected := false, agens := fun w => .init (worlds w), calls := 0, w := none,
    genTok := 0, spawned := false, pos, spawnPos := pos, lastCp := ⟨0, 0⟩, visChunks := [],
    todo := [], waiting := false, log := [] }

section Functions

variable (sort : StdSort ChunkPos) (s : Streaming ω κ)

def onChunkLoaded (ch : κ) (cp : ChunkPos) : Streaming ω κ :=
  if s.disconnected then
    s
  else
    let s := { s with log := s.log ++ [.chunkData cp ch], visChunks := s.visChunks.insert cp }
    if ¬ s.spawned ∧ cp = s.spawnPos.chunkPos then
      { s with
        spawned := true
        pos := s.spawnPos
        lastCp := s.spawnPos.chunkPos
        log := s.log ++ [.spawn s.spawnPos] }
    else
      s

def streamChunks : Streaming ω κ :=
  match s.w with
  | none => s
  | some _ =>
    let mePos := s.pos.chunkPos
    let toUnload := s.visChunks.filter (fun cp => ¬ InSquare mePos s.viewDist cp)
    let inSight := sort.sort (closer mePos) (inSight mePos s.viewDist)
    { s with todo := toUnload.map .unload ++ inSight.map .visit }

variable [DecidableEq ω]

def setAgen (w : ω) (agen : AsyncGenerator κ Unit) : Streaming ω κ :=
  { s with agens := Function.update s.agens w agen }

/--
The next thing that `stream_chunks` does.
-/
def doTask : Option (Except Crash (Streaming ω κ)) :=
  match s.todo with
  | [] => none
  | .unload cp :: todo =>
    some (.ok { s with
      todo
      log := s.log ++ [.unloadChunk cp]
      visChunks := s.visChunks.filter (· ≠ cp) })
  | .visit cp :: todo =>
    if cp ∈ s.visChunks then
      some (.ok { s with todo })
    else
      match s.w with
      | none => none
      | some w =>
        match (s.agens w).generateWhole s.calls ⟨s.genTok, cp.x, cp.z, ()⟩ with
        | .error crash => some (.error crash)
        | .ok (ch, agen) =>
          some (.ok { s.setAgen w agen with
            calls := s.calls + 1
            log := s.log ++ [.generate cp]
            todo := (ch.map (.loaded cp)).toList ++ todo })
  | .loaded cp ch :: todo => some (.ok ({ s with todo }.onChunkLoaded ch cp))

/--
What the callback does that `stream_chunks` gives to `generate`.
-/
def callback (w : ω) (ch : κ) (x z : Int) : Streaming ω κ :=
  if s.w = some w then s.onChunkLoaded ch ⟨x, z⟩ else s

def freeGenTok : Except Crash (Streaming ω κ) :=
  match s.w with
  | none => .ok s
  | some prevW =>
    match (s.agens prevW).freeToken s.genTok with
    | .error crash => .error crash
    | .ok agen => .ok (s.setAgen prevW agen)

def joinWorld (w : ω) (pos : EntityPos) : Except Crash (Streaming ω κ) :=
  match s.freeGenTok with
  | .error crash => .error crash
  | .ok s =>
    .ok ({ s.setAgen w (s.agens w).makeToken with
      w := some w
      spawned := false
      spawnPos := pos
      pos := pos
      genTok := (s.agens w).nextTok }.streamChunks sort)

/--
Up to the call of `stream_chunks`.
-/
def onMove (pos : EntityPos) : Streaming ω κ :=
  if s.disconnected ∨ ¬ s.spawned then
    s
  else
    let cp := pos.chunkPos
    if cp ≠ s.lastCp then
      { s with pos, lastCp := cp, waiting := true }
    else
      { s with pos }

end Functions

inductive Label (ω κ : Type) where
  | joinWorld (w : ω) (pos : EntityPos)
  | onMove (pos : EntityPos)
  /-- `on_move` gets the mutex -/
  | lock
  | task
  /-- a request of the player goes on -/
  | proceed (w : ω) (r : Nat) (prov : Option κ) (gen : κ)
  /-- somebody else has a chunk loaded -/
  | loadChunk (w : ω) (x z : Int) (prov : Option κ) (gen : κ)
  /-- the visible chunks come in another order -/
  | rehash (visChunks : List ChunkPos)
  | disconnect

variable (sort : StdSort ChunkPos) [DecidableEq ω]

/--
One step; `none` if it is not next.
-/
def step : Except Crash (Streaming ω κ) → Label ω κ → Option (Except Crash (Streaming ω κ))
  | .error _, _ => none
  | .ok s, .joinWorld w pos => if s.todo.isEmpty then some (s.joinWorld sort w pos) else none
  | .ok s, .onMove pos => if s.waiting then none else some (.ok (s.onMove pos))
  | .ok s, .lock =>
    if s.waiting ∧ s.todo.isEmpty then
      some (.ok ({ s with waiting := false }.streamChunks sort))
    else
      none
  | .ok s, .task => s.doTask
  | .ok s, .proceed w r prov gen =>
    match (s.agens w).requests r with
    | none => none
    | some req =>
      match (s.agens w).proceed r req prov gen with
      | none => none
      | some (.error crash) => some (.error crash)
      | some (.ok agen) =>
        match req.stage with
        | .loaded ch => some (.ok ((s.setAgen w agen).callback w ch req.ctx.x req.ctx.z))
        | _ => some (.ok (s.setAgen w agen))
  | .ok s, .loadChunk w x z prov gen =>
    let agen := s.agens w
    some (.ok (s.setAgen w { agen with w := (agen.w.loadChunk x z prov gen).2 }))
  | .ok s, .rehash visChunks =>
    if visChunks.Perm s.visChunks then some (.ok { s with visChunks }) else none
  | .ok s, .disconnect => some (.ok { s with disconnected := true })

end Streaming

end HCraft
