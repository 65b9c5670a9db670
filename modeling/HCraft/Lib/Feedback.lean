import Mathlib.Data.List.Basic

/-!
This module contains ciphers with a register that the ciphertext is fed back to.
-/

universe u v

/--
`mask` and `unmask` are one symbol on its way out and on its way in.
-/
structure Feedback (ρ : Type u) (α : Type v) where
  mask : ρ → α → α
  unmask : ρ → α → α
  shift : ρ → α → ρ

namespace Feedback

variable {ρ : Type u} {α : Type v} (fb : Feedback ρ α)

/--
A symbol comes in as it went out.
-/
def Inverts : Prop :=
  ∀ r a, fb.unmask r (fb.mask r a) = a

/--
The ciphertext, and the register behind it.
-/
def encrypt (r : ρ) : List α → ρ × List α
  | [] => (r, [])
  | p :: ps =>
    let c := fb.mask r p
    let res := encrypt (fb.shift r c) ps
    (res.1, c :: res.2)

def decrypt (r : ρ) : List α → ρ × List α
  | [] => (r, [])
  | c :: cs =>
    let res := decrypt (fb.shift r c) cs
    (res.1, fb.unmask r c :: res.2)

/--
One text after the other, by the same register.
-/
def encryptAll (r : ρ) : List (List α) → ρ × List (List α)
  | [] => (r, [])
  | ps :: rest =>
    let res := fb.encrypt r ps
    let more := encryptAll res.1 rest
    (more.1, res.2 :: more.2)

/--
The first byte of what a block cipher makes of the register masks the next byte of the text.
-/
def ofBlocks (first : List UInt8 → UInt8) : Feedback (List UInt8) UInt8 where
  mask r p := p ^^^ first r
  unmask r c := c ^^^ first r
  shift r c := r.drop 1 ++ [c]

theorem inverts_ofBlocks (first : List UInt8 → UInt8) : (ofBlocks first).Inverts := by
  intro r p
  show (p ^^^ first r) ^^^ first r = p
  rw [UInt8.xor_assoc, UInt8.xor_self, UInt8.xor_zero]

@[simp]
theorem length_encrypt (r : ρ) (ps : List α) : (fb.encrypt r ps).2.length = ps.length := by
  induction ps generalizing r with
  | nil => rfl
  | cons p ps ih => simp [encrypt, ih]

@[simp]
theorem length_decrypt (r : ρ) (cs : List α) : (fb.decrypt r cs).2.length = cs.length := by
  induction cs generalizing r with
  | nil => rfl
  | cons c cs ih => simp [decrypt, ih]

theorem encrypt_append (r : ρ) (ps qs : List α)
    : fb.encrypt r (ps ++ qs)
        =
      ((fb.encrypt (fb.encrypt r ps).1 qs).1,
        (fb.encrypt r ps).2 ++ (fb.encrypt (fb.encrypt r ps).1 qs).2) := by
  induction ps generalizing r with
  | nil => rfl
  | cons p ps ih => simp [encrypt, ih]

/--
Both ends are left with the same register.
-/
theorem decrypt_encrypt (h : fb.Inverts) (r : ρ) (ps : List α)
    : fb.decrypt r (fb.encrypt r ps).2 = ((fb.encrypt r ps).1, ps) := by
  induction ps generalizing r with
  | nil => rfl
  | cons p ps ih => simp [encrypt, decrypt, ih, h r p]

theorem encryptAll_flatten (r : ρ) (pss : List (List α))
    : ((fb.encryptAll r pss).1, (fb.encryptAll r pss).2.flatten) = fb.encrypt r pss.flatten := by
  induction pss generalizing r with
  | nil => rfl
  | cons ps pss ih =>
    rw [List.flatten_cons, encrypt_append, ← ih]
    rfl

theorem take_encryptAll (r : ρ) (pss : List (List α)) (k : Nat)
    : (fb.encryptAll r pss).2.take k = (fb.encryptAll r (pss.take k)).2 := by
  induction pss generalizing r k with
  | nil => simp [encryptAll]
  | cons ps pss ih =>
    cases k with
    | zero => rfl
    | succ k =>
      rw [encryptAll, List.take_succ_cons, List.take_succ_cons, ih, encryptAll]

/--
The texts do not have to be cut where they were put together.
-/
theorem decrypt_flatten_encryptAll (h : fb.Inverts) (r : ρ) (pss : List (List α))
    : (fb.decrypt r (fb.encryptAll r pss).2.flatten).2 = pss.flatten := by
  have hencrypt := congrArg Prod.snd (fb.encryptAll_flatten r pss)
  dsimp only at hencrypt
  rw [hencrypt, fb.decrypt_encrypt h]

end Feedback
