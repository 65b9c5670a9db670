import HCraft.Lib.Transition

/-!
This module contains forward simulations: what the runs of one transition system show of themselves
is accepted by another one.
-/

universe u v w

namespace Transition

variable {S : Type u} {L : Type v} {T : Type w} {α : Type}
variable {step : S → L → Option S} {spec : T → α → Option T} {f : S → L → Option α}

/--
A step that shows nothing keeps the relation, one that shows an event is matched by a step of the
specification.
-/
def Matches (spec : T → α → Option T) (R : S → T → Prop) (s' : S) (t : T) : Option α → Prop
  | none => R s' t
  | some e => ∃ t', spec t e = some t' ∧ R s' t'

/--
Everything the good runs show is accepted.
-/
theorem accepted_of_simulation {R : S → T → Prop} {C : S → L → Prop}
    (hstep : ∀ s l s' t, R s t → C s l → step s l = some s' → Matches spec R s' t (f s l))
    {s : S} {t : T} {ls : List L} (hR : R s t) (hC : EachStep step C s ls)
    : ∃ t', exec spec t (history step f s ls) = some t' := by
  induction ls generalizing s t with
  | nil => exact ⟨t, rfl⟩
  | cons l ls ih =>
    cases hs : step s l with
    | none =>
      rw [history, hs]
      exact ⟨t, rfl⟩
    | some s' =>
      obtain ⟨hl, hrest⟩ := hC s' hs
      have hmatch := hstep s l s' t hR hl hs
      rw [history_cons hs]
      cases hf : f s l with
      | none =>
        rw [hf] at hmatch
        exact ih hmatch hrest
      | some e =>
        rw [hf] at hmatch
        obtain ⟨t', hspec, hR'⟩ := hmatch
        obtain ⟨t'', haccept⟩ := ih hR' hrest
        exact ⟨t'', exec_cons.mpr ⟨t', hspec, haccept⟩⟩

end Transition
