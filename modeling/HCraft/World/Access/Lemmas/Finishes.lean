import HCraft.World.Access.Lemmas.NullSafe

/-!
This module shows when the lighting calls that a write makes before it returns come to their end.
-/

namespace HCraft

/--
The calls, followed in the order in which they are made, come to loaded chunks and known blocks only:
where a call gives an opaque block its light, those for its neighbours are next. `v` is the light of
the blocks.
-/
inductive WorldMemory.CallsReady (m : WorldMemory) : (LightCell → Nat) → List BlockPos → Prop where
  | nil {v : LightCell → Nat} : CallsReady m v []
  | pass {v : LightCell → Nat} {p : BlockPos} {calls : List BlockPos} (hp : Lighting.Ready m p)
    (hkeeps : ¬ m.Resets v p) (hcalls : CallsReady m v calls) : CallsReady m v (p :: calls)
  | reset {v : LightCell → Nat} {p : BlockPos} {calls : List BlockPos} {cell : LightCell} {sl : Nat}
    (hp : Lighting.Ready m p) (hcell : m.cell p = some cell) (hsl : m.opaqueLight cell = some sl)
    (hne : sl ≠ v cell) (hcalls : CallsReady m (Function.update v cell sl) (p.neighbours ++ calls))
    : CallsReady m v (p :: calls)

namespace WorldMemory

variable {m m' : WorldMemory} {v : LightCell → Nat} {calls : List BlockPos}

theorem Relit.callsReady (h : m.Relit m') (hcalls : m.CallsReady v calls) : m'.CallsReady v calls := by
  induction hcalls with
  | nil => exact .nil
  | pass hp hkeeps _ ih =>
    exact .pass ((Lighting.ready_congr h).mpr hp) (mt (h.resets _).mp hkeeps) ih
  | reset hp hcell hsl hne _ ih =>
    exact .reset ((Lighting.ready_congr h).mpr hp) (h.cell ▸ hcell) (h.opaqueLight ▸ hsl) hne ih

theorem Relit.callsReady_iff (h : m.Relit m') : m'.CallsReady v calls ↔ m.CallsReady v calls :=
  ⟨h.symm.callsReady, h.callsReady⟩

end WorldMemory

namespace Lighting

open Transition

/--
All calls are made but the last ones, `rest`.
-/
def Finishes (s : Lighting) (rest : List BlockPos) : Prop :=
  ∃ n s', exec step (.ok s) (.replicate n .call) = some (.ok s') ∧ s'.calls = rest

variable {s s' : Lighting} {calls rest : List BlockPos}

theorem Finishes.of_call (hact : s.act .call = some (.ok s')) (h : s'.Finishes rest)
    : s.Finishes rest := by
  obtain ⟨n, s₂, hexec, hrest⟩ := h
  refine ⟨n + 1, s₂, ?_, hrest⟩
  rw [List.replicate_succ]
  exact exec_cons.mpr ⟨.ok s', hact, hexec⟩

theorem finishes_of_callsReady {m : WorldMemory} {v : LightCell → Nat} (h : m.CallsReady v calls)
    (hrelit : m.Relit s.mem) (hsound : s.mem.Sound) (hv : s.mem.lightAt = v)
    (hcalls : s.calls = calls ++ rest) : s.Finishes rest := by
  -- the light has changed since `m`, but only as `v` says
  induction h generalizing s with
  | nil => exact ⟨0, s, rfl, hcalls⟩
  | @pass v p calls hp hkeeps _ ih =>
    rw [List.cons_append] at hcalls
    obtain ⟨s', hact, hrelit', hcases⟩ := call_spec hsound hcalls ((ready_congr hrelit).mpr hp)
    have hkeeps' := mt (hrelit.resets p).mp hkeeps
    rw [← hv] at hkeeps'
    rcases hcases with ⟨_, hsame, hlight⟩ | ⟨cell, sl, hcell, hsl, hne, _⟩
    . apply Finishes.of_call hact
      exact ih (hrelit.trans hrelit') (hrelit'.edited.sound hsound) (hlight.trans hv) hsame
    . exact absurd ⟨cell, sl, hcell, hsl, hne⟩ hkeeps'
  | @reset v p calls cell sl hp hcell hsl hne _ ih =>
    rw [List.cons_append] at hcalls
    obtain ⟨s', hact, hrelit', hcases⟩ := call_spec hsound hcalls ((ready_congr hrelit).mpr hp)
    have hcell' : s.mem.cell p = some cell := by rw [hrelit.cell, hcell]
    have hsl' : s.mem.opaqueLight cell = some sl := by rw [hrelit.opaqueLight, hsl]
    rcases hcases with ⟨hkeeps, _⟩ | ⟨cell₁, sl₁, hcell₁, hsl₁, _, hmore, hlight⟩
    . exact absurd ⟨cell, sl, hcell', hsl', hv ▸ hne⟩ hkeeps
    . rw [hcell'] at hcell₁
      injection hcell₁ with hcell₁
      subst hcell₁
      rw [hsl'] at hsl₁
      injection hsl₁ with hsl₁
      subst hsl₁
      apply Finishes.of_call hact
      apply ih (hrelit.trans hrelit') (hrelit'.edited.sound hsound)
      . rw [hlight, hv]
      . rw [hmore, List.append_assoc]

theorem callsReady_of_finishes (hsound : s.mem.Sound) (hcalls : s.calls = calls ++ rest)
    (h : s.Finishes rest) : s.mem.CallsReady s.mem.lightAt calls := by
  obtain ⟨n, s₂, hexec, hrest⟩ := h
  induction n generalizing s calls with
  | zero =>
    injection hexec with hexec
    injection hexec with hexec
    rw [hexec, hrest] at hcalls
    have hnil : calls = [] := by simpa using hcalls.symm
    rw [hnil]
    exact .nil
  | succ n ih =>
    cases calls with
    | nil => exact .nil
    | cons p calls =>
      rw [List.cons_append] at hcalls
      rw [List.replicate_succ] at hexec
      obtain ⟨r, hstep, hexec⟩ := exec_cons.mp hexec
      have hact : s.act .call = some r := hstep
      by_cases hp : Ready s.mem p
      . obtain ⟨s', hact', hrelit, hcases⟩ := call_spec hsound hcalls hp
        rw [hact'] at hact
        injection hact with hact
        subst hact
        have hsound' := hrelit.edited.sound hsound
        rcases hcases with ⟨hkeeps, hsame, hlight⟩ | ⟨cell, sl, hcell, hsl, hne, hmore, hlight⟩
        . have hready := ih hsound' hsame hexec
          rw [hrelit.callsReady_iff, hlight] at hready
          exact .pass hp hkeeps hready
        . rw [← List.append_assoc] at hmore
          have hready := ih hsound' hmore hexec
          rw [hrelit.callsReady_iff, hlight] at hready
          exact .reset hp hcell hsl hne hready
      . -- the call dereferences a null pointer, and nothing comes after it
        have hfault : r = .error .nullPointer := by
          have hcall := enqueueSlNoLock_of_not_ready (s := { s with calls := calls ++ rest }) hsound hp
          unfold act at hact
          dsimp only at hact
          rw [hcalls] at hact
          injection hact with hact
          rw [← hact]
          exact hcall
        rw [hfault] at hexec
        cases n with
        | zero => cases hexec
        | succ n =>
          obtain ⟨_, hnone, _⟩ := exec_cons.mp hexec
          cases hnone

theorem finishes_iff (hsound : s.mem.Sound) (hcalls : s.calls = calls ++ rest)
    : s.Finishes rest ↔ s.mem.CallsReady s.mem.lightAt calls :=
  ⟨callsReady_of_finishes hsound hcalls,
    fun h => finishes_of_callsReady h (.refl _) hsound rfl hcalls⟩

end Lighting

end HCraft
