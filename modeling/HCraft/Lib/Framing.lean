import Mathlib.Data.List.Basic

/-!
This module contains framers: a stream is a sequence of frames, and the bytes at its head tell
where the first one ends.
-/

universe u v

/--
What the bytes at the head of a stream say.
-/
inductive Framing.Head (ε : Type v) where
  /-- too few bytes to tell -/
  | more
  /-- the first frame takes `n` bytes, which need not be there yet -/
  | frame (n : Nat)
  /-- no frame can start like this -/
  | stop (reason : ε)
  deriving DecidableEq, Repr

/--
The result of cutting a stream into frames.
-/
structure Framing.Split (α : Type u) (ε : Type v) where
  frames : List (List α)
  rest : List α
  stop : Option ε

/--
The first pieces of a stream are a beginning of it.
-/
theorem Framing.flatten_take_prefix {α : Type u} (pieces : List (List α)) (k : Nat)
    : (pieces.take k).flatten <+: pieces.flatten := by
  refine ⟨(pieces.drop k).flatten, ?_⟩
  rw [← List.flatten_append, List.take_append_drop]

structure Framer (α : Type u) (ε : Type v) where
  head : List α → Framing.Head ε
  frame_pos : ∀ {s n}, head s = .frame n → 0 < n
  append_of_ne_more : ∀ {s}, head s ≠ .more → ∀ t, head (s ++ t) = head s
  take_of_frame : ∀ {s n}, head s = .frame n → head (s.take n) = .frame n
  head_nil : head [] = .more

namespace Framer

open Framing

variable {α : Type u} {ε : Type v} (F : Framer α ε)

def split (s : List α) : Split α ε :=
  match _hs:F.head s with
  | .more => ⟨[], s, none⟩
  | .stop reason => ⟨[], s, some reason⟩
  | .frame n =>
    if _hn:n ≤ s.length then
      let tail := split (s.drop n)
      ⟨s.take n :: tail.frames, tail.rest, tail.stop⟩
    else
      ⟨[], s, none⟩
termination_by s.length
decreasing_by
  have := F.frame_pos _hs
  rw [List.length_drop]
  omega

/--
`f` is exactly one frame.
-/
def IsFrame (f : List α) : Prop :=
  F.head f = .frame f.length

/--
`s` is a proper prefix of a frame.
-/
def Partial (s : List α) : Prop :=
  match F.head s with
  | .more => True
  | .stop _ => False
  | .frame n => s.length < n

theorem split_of_more {s : List α} (h : F.head s = .more) : F.split s = ⟨[], s, none⟩ := by
  unfold split
  split
  . rfl
  . next hs => rw [h] at hs; contradiction
  . next hs => rw [h] at hs; contradiction

theorem split_of_stop {s : List α} {reason : ε} (h : F.head s = .stop reason)
    : F.split s = ⟨[], s, some reason⟩ := by
  unfold split
  split
  . next hs => rw [h] at hs; contradiction
  . next hs =>
    rw [h] at hs
    injection hs with hs
    rw [hs]
  . next hs => rw [h] at hs; contradiction

theorem split_of_frame {s : List α} {n : Nat} (h : F.head s = .frame n) (hn : n ≤ s.length)
    : F.split s
        =
      ⟨s.take n :: (F.split (s.drop n)).frames, (F.split (s.drop n)).rest,
        (F.split (s.drop n)).stop⟩ := by
  rw [split]
  split
  . next hs => rw [h] at hs; contradiction
  . next hs => rw [h] at hs; contradiction
  . next hs =>
    rw [h] at hs
    injection hs with hs
    subst hs
    simp [hn]

theorem split_of_partial {s : List α} (h : F.Partial s) : F.split s = ⟨[], s, none⟩ := by
  unfold Partial at h
  split at h
  . next hs => exact F.split_of_more hs
  . contradiction
  . next hs =>
    unfold split
    split
    . rfl
    . next hs' => rw [hs] at hs'; contradiction
    . next hs' =>
      rw [hs] at hs'
      injection hs' with hs'
      subst hs'
      rw [dif_neg (by omega)]

theorem partial_nil : F.Partial [] := by
  simp [Partial, F.head_nil]

theorem split_frame_append {f : List α} (hf : F.IsFrame f) (s : List α)
    : F.split (f ++ s)
        =
      ⟨f :: (F.split s).frames, (F.split s).rest, (F.split s).stop⟩ := by
  have hhead : F.head (f ++ s) = .frame f.length := by
    rw [F.append_of_ne_more _ s]
    . exact hf
    . rw [hf]
      simp
  rw [F.split_of_frame hhead (by simp)]
  simp

theorem split_flatten_append {fs : List (List α)} (hfs : ∀ f ∈ fs, F.IsFrame f) (s : List α)
    : F.split (fs.flatten ++ s)
        =
      ⟨fs ++ (F.split s).frames, (F.split s).rest, (F.split s).stop⟩ := by
  induction fs with
  | nil => rfl
  | cons f fs ih =>
    rw [List.flatten_cons, List.append_assoc, F.split_frame_append (hfs f (by simp))]
    rw [ih (fun g hg => hfs g (by simp [hg]))]
    rfl

/--
A stream is its frames followed by what the cut left over.
-/
theorem split_spec (s : List α)
    : s = (F.split s).frames.flatten ++ (F.split s).rest
        ∧ (∀ f ∈ (F.split s).frames, F.IsFrame f)
        ∧ (match (F.split s).stop with
          | none => F.Partial (F.split s).rest
          | some reason => F.head (F.split s).rest = .stop reason) := by
  induction hlen : s.length using Nat.strongRecOn generalizing s with
  | ind len ih =>
    cases hs : F.head s with
    | more =>
      rw [F.split_of_more hs]
      simp [Partial, hs]
    | stop reason =>
      rw [F.split_of_stop hs]
      simp [hs]
    | frame n =>
      have hpos := F.frame_pos hs
      by_cases hn : n ≤ s.length
      . rw [F.split_of_frame hs hn]
        have hdrop : (s.drop n).length < len := by
          rw [List.length_drop]
          omega
        obtain ⟨heq, hframes, hrest⟩ := ih _ hdrop (s.drop n) rfl
        have htake : F.IsFrame (s.take n) := by
          rw [IsFrame, F.take_of_frame hs, List.length_take, Nat.min_eq_left hn]
        refine ⟨?_, ?_, hrest⟩
        . simp only [List.flatten_cons, List.append_assoc]
          rw [← heq, List.take_append_drop]
        . intro f hf
          cases List.mem_cons.mp hf with
          | inl h => rw [h]; exact htake
          | inr h => exact hframes f h
      . have hpart : F.Partial s := by
          simp only [Partial, hs]
          omega
        rw [F.split_of_partial hpart]
        simp [hpart]

/--
Bytes that arrive later leave the frames found so far alone.
-/
theorem split_append (s t : List α)
    : F.split (s ++ t)
        =
      ⟨(F.split s).frames ++ (F.split ((F.split s).rest ++ t)).frames,
        (F.split ((F.split s).rest ++ t)).rest, (F.split ((F.split s).rest ++ t)).stop⟩ := by
  obtain ⟨heq, hframes, _⟩ := F.split_spec s
  rw [heq, List.append_assoc, F.split_flatten_append hframes, ← heq]

/--
Once a stream stops it stays stopped, for the same reason.
-/
theorem split_stop_append {s : List α} {reason : ε} (h : (F.split s).stop = some reason)
    (t : List α) : (F.split (s ++ t)).stop = some reason := by
  obtain ⟨_, _, hrest⟩ := F.split_spec s
  rw [h] at hrest
  have hhead : F.head ((F.split s).rest ++ t) = .stop reason := by
    rw [F.append_of_ne_more]
    . exact hrest
    . rw [hrest]
      simp
  rw [F.split_append, F.split_of_stop hhead]

/--
What is cut off a frame is a proper prefix of it, and recognised as one.
-/
theorem partial_of_prefix {s f : List α} (hf : F.IsFrame f) (hpre : s <+: f)
    (hlen : s.length < f.length) : F.Partial s := by
  rcases hpre with ⟨t, rfl⟩
  unfold Partial
  cases hs : F.head s with
  | more => trivial
  | frame n =>
    have := F.append_of_ne_more (s := s) (by simp [hs]) t
    rw [hf, hs] at this
    injection this with this
    dsimp
    omega
  | stop reason =>
    have := F.append_of_ne_more (s := s) (by simp [hs]) t
    rw [hf, hs] at this
    injection this

/--
Every beginning of a sequence of frames is cut into some of them and a proper prefix of the next.
-/
theorem split_of_prefix {fs : List (List α)} (hfs : ∀ f ∈ fs, F.IsFrame f) {s : List α}
    (hpre : s <+: fs.flatten)
    : ∃ before after rest,
        fs = before ++ after
          ∧ F.split s = ⟨before, rest, none⟩
          ∧ s = before.flatten ++ rest
          ∧ rest <+: after.flatten
          ∧ ∀ f ∈ after.head?, rest.length < f.length := by
  induction fs generalizing s with
  | nil =>
    have hnil : s = [] := by simpa using hpre
    subst hnil
    exact ⟨[], [], [], rfl, F.split_of_partial F.partial_nil, rfl, by simp, by simp⟩
  | cons f fs ih =>
    have hf := hfs f (by simp)
    rw [List.flatten_cons] at hpre
    by_cases hlen : s.length < f.length
    . have hsf : s <+: f :=
        List.prefix_of_prefix_length_le hpre (List.prefix_append f _) (by omega)
      refine ⟨[], f :: fs, s, rfl, ?_, rfl, by simpa using hpre, by simpa using hlen⟩
      exact F.split_of_partial (F.partial_of_prefix hf hsf hlen)
    . have hfs' : f <+: s :=
        List.prefix_of_prefix_length_le (List.prefix_append f _) hpre (by omega)
      rcases hfs' with ⟨t, rfl⟩
      have htail : t <+: fs.flatten := (List.prefix_append_right_inj f).mp hpre
      obtain ⟨before, after, rest, heq, hsplit, hst, hrest, hlast⟩ :=
        ih (fun g hg => hfs g (by simp [hg])) htail
      refine ⟨f :: before, after, rest, by rw [heq]; rfl, ?_, ?_, hrest, hlast⟩
      . rw [F.split_frame_append hf, hsplit]
      . rw [hst, List.flatten_cons, List.append_assoc]

end Framer
