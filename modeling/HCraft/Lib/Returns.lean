/-!
This module contains postconditions of computations that may fail.
-/

universe u v

variable {ε : Type u} {α β : Type v} {P : α → Prop} {Q : β → Prop}

/--
Whatever the computation returns satisfies `P`.
-/
def Returns (x : Except ε α) (P : α → Prop) : Prop :=
  ∀ a, x = .ok a → P a

theorem returns_ok {a : α} (h : P a) : Returns (.ok a : Except ε α) P := by
  intro b hb
  injection hb with hb
  exact hb ▸ h

theorem returns_error (e : ε) : Returns (.error e : Except ε α) P := by
  intro b hb
  injection hb

theorem returns_trivial (x : Except ε α) : Returns x (fun _ => True) :=
  fun _ _ => trivial

theorem Returns.mono {Q : α → Prop} {x : Except ε α} (hx : Returns x P) (hPQ : ∀ a, P a → Q a)
    : Returns x Q :=
  fun a ha => hPQ a (hx a ha)

theorem Returns.bind {x : Except ε α} {f : α → Except ε β} (hx : Returns x P)
    (hf : ∀ a, P a → Returns (f a) Q) : Returns (x >>= f) Q := by
  cases x with
  | error e => exact returns_error e
  | ok a => exact hf a (hx a rfl)

theorem returns_bind {x : Except ε α} {f : α → Except ε β} (hf : ∀ a, Returns (f a) Q)
    : Returns (x >>= f) Q := by
  cases x with
  | error e => exact returns_error e
  | ok a => exact hf a

theorem bind_eq_ok_iff {x : Except ε α} {f : α → Except ε β} {b : β}
    : x >>= f = .ok b ↔ ∃ a, x = .ok a ∧ f a = .ok b := by
  cases x with
  | error e =>
    constructor
    . intro h
      cases h
    . rintro ⟨a, ha, _⟩
      cases ha
  | ok a =>
    constructor
    . intro h
      exact ⟨a, rfl, h⟩
    . rintro ⟨a', ha, h⟩
      cases ha
      exact h

theorem returns_pure_iff {a : α} : Returns (pure a : Except ε α) P ↔ P a :=
  ⟨fun h => h a rfl, returns_ok⟩

theorem returns_bind_iff {x : Except ε α} {f : α → Except ε β}
    : Returns (x >>= f) Q ↔ ∀ a, x = .ok a → Returns (f a) Q := by
  constructor
  . intro h a ha b hb
    exact h b (bind_eq_ok_iff.mpr ⟨a, ha, hb⟩)
  . intro h b hb
    obtain ⟨a, ha, hb⟩ := bind_eq_ok_iff.mp hb
    exact h a ha b hb

theorem returns_map_iff {f : α → β} {x : Except ε α}
    : Returns (f <$> x) Q ↔ ∀ a, x = .ok a → Q (f a) := by
  rw [← bind_pure_comp, returns_bind_iff]
  simp only [returns_pure_iff]

theorem returns_map {f : α → β} {x : Except ε α} (hx : Returns x (fun a => Q (f a)))
    : Returns (x.map f) Q := by
  cases x with
  | error e => exact returns_error e
  | ok a => exact returns_ok (hx a rfl)

theorem returns_ite {c : Prop} [Decidable c] {x y : Except ε α} (hx : Returns x P)
    (hy : Returns y P) : Returns (if c then x else y) P := by
  split
  . exact hx
  . exact hy

theorem returns_ite_iff {c : Prop} [Decidable c] {x y : Except ε α}
    : Returns (if c then x else y) P ↔ (c → Returns x P) ∧ (¬ c → Returns y P) := by
  split
  . next h => simp [h]
  . next h => simp [h]

/--
The computation returns something.
-/
def Succeeds (x : Except ε α) : Prop :=
  ∃ a, x = .ok a

theorem succeeds_ok (a : α) : Succeeds (.ok a : Except ε α) :=
  ⟨a, rfl⟩

theorem not_succeeds_error (e : ε) : ¬ Succeeds (.error e : Except ε α) := by
  rintro ⟨a, ha⟩
  cases ha

theorem Succeeds.bind {x : Except ε α} {f : α → Except ε β} (hx : Succeeds x)
    (hf : ∀ a, Succeeds (f a)) : Succeeds (x >>= f) := by
  rcases hx with ⟨a, rfl⟩
  exact hf a

theorem succeeds_bind_iff {x : Except ε α} {f : α → Except ε β} {p : Prop}
    (hf : ∀ a, x = .ok a → (Succeeds (f a) ↔ p)) : Succeeds (x >>= f) ↔ Succeeds x ∧ p := by
  cases x with
  | error e =>
    constructor
    . intro h
      exact absurd h (not_succeeds_error e)
    . intro h
      exact absurd h.1 (not_succeeds_error e)
  | ok a =>
    rw [and_iff_right (succeeds_ok a)]
    exact hf a rfl

theorem succeeds_bind {x : Except ε α} {f : α → Except ε β} {p : Prop} (hx : Succeeds x)
    (hf : ∀ a, x = .ok a → (Succeeds (f a) ↔ p)) : Succeeds (x >>= f) ↔ p := by
  rw [succeeds_bind_iff hf, and_iff_right hx]

/--
The computation does not fail with `e`.
-/
def Avoids (x : Except ε α) (e : ε) : Prop :=
  x ≠ .error e

@[simp]
theorem avoids_ok (a : α) (e : ε) : Avoids (.ok a : Except ε α) e := by
  intro h
  cases h

@[simp]
theorem avoids_pure (a : α) (e : ε) : Avoids (pure a : Except ε α) e :=
  avoids_ok a e

@[simp]
theorem avoids_error_iff {e e' : ε} : Avoids (.error e' : Except ε α) e ↔ e' ≠ e := by
  simp [Avoids]

@[simp]
theorem avoids_bind_iff {x : Except ε α} {f : α → Except ε β} {e : ε}
    : Avoids (x >>= f) e ↔ Avoids x e ∧ ∀ a, x = .ok a → Avoids (f a) e := by
  cases x with
  | error e' =>
    constructor
    . intro h
      exact ⟨fun he => h (by cases he; rfl), fun a ha => by cases ha⟩
    . intro h he
      exact h.1 (by cases he; rfl)
  | ok a =>
    constructor
    . intro h
      refine ⟨fun he => (by cases he), fun a' ha => ?_⟩
      injection ha with ha
      exact ha ▸ h
    . intro h
      exact h.2 a rfl

@[simp]
theorem avoids_map_iff {f : α → β} {x : Except ε α} {e : ε} : Avoids (f <$> x) e ↔ Avoids x e := by
  rw [← bind_pure_comp, avoids_bind_iff]
  simp

@[simp]
theorem avoids_ite_iff {c : Prop} [Decidable c] {x y : Except ε α} {e : ε}
    : Avoids (if c then x else y) e ↔ (c → Avoids x e) ∧ (¬ c → Avoids y e) := by
  split
  . next h => simp [h]
  . next h => simp [h]
