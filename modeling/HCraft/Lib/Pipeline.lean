/-!
This module contains pipelines: stages with a state of their own, each of which works on what the one
before it hands on.
-/

universe u v w

namespace Pipeline

/--
What a stage does with what it is given.
-/
inductive Handed (σ : Type u) (γ : Type v) (ε : Type w) where
  | on (s : σ) (out : γ)
  | stop (s : σ) (why : ε)

variable {σ : Type u} {γ : Type v} {ε : Type w} (run : σ → γ → Handed σ γ ε)

/--
The stages after they have worked on `c`, and what the last one hands on, unless one of them stops.
-/
def feed : List σ → γ → List σ × Except ε γ
  | [], c => ([], .ok c)
  | s :: rest, c =>
    match run s c with
    | .on s' out => (s' :: (feed rest out).1, (feed rest out).2)
    | .stop s' why => (s' :: rest, .error why)

variable {run} {s s' : σ} {rest : List σ} {c out : γ} {why : ε}

theorem feed_of_on (h : run s c = .on s' out)
    : feed run (s :: rest) c = (s' :: (feed run rest out).1, (feed run rest out).2) := by
  rw [feed, h]

theorem feed_of_stop (h : run s c = .stop s' why)
    : feed run (s :: rest) c = (s' :: rest, .error why) := by
  rw [feed, h]

/--
A stage makes the same of two things.
-/
theorem feed_congr {t : σ} {c' : γ} (h : run s c = run t c')
    : feed run (s :: rest) c = feed run (t :: rest) c' := by
  rw [feed, feed, h]

theorem feed_of_forall (h : ∀ s ∈ rest, ∀ c, run s c = .on s c) (c : γ)
    : feed run rest c = (rest, .ok c) := by
  induction rest with
  | nil => rfl
  | cons s rest ih =>
    rw [feed_of_on (h s List.mem_cons_self c), ih (fun s hs => h s (List.mem_cons_of_mem _ hs))]

end Pipeline
