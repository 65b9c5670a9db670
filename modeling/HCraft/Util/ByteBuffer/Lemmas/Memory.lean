import HCraft.Lib.Transition
import HCraft.Util.ByteBuffer.Memory

/-!
This module contains when `byte_buffer` stays inside its block of memory, and that it has the contents
of an idealised buffer then.
-/

namespace HCraft

open Slice
open Transition

namespace ByteBuffer

namespace Memory

variable {buf buf' : Memory} {n : Nat} {arr : Bytes}

structure Sound (buf : Memory) : Prop where
  pos_le : buf.pos ≤ buf.len
  len_le : buf.len ≤ buf.cap
  length_eq : buf.data.length = buf.cap
  cap_lt : buf.cap < 2 ^ 32

theorem sound_new (initCap : UInt32) : (new initCap).Sound where
  pos_le := Nat.le_refl 0
  len_le := Nat.zero_le _
  length_eq := List.length_replicate
  cap_lt := initCap.toNat_lt

theorem putValue_eq (buf : Memory) (val : Value) : buf.putValue val = buf.put val.encode := by
  cases val with
  | _ => rfl

/--
The block grows, and nothing else changes.
-/
structure Grown (buf buf' : Memory) : Prop where
  sound : buf'.Sound
  len_eq : buf'.len = buf.len
  pos_eq : buf'.pos = buf.pos
  cap_le : buf.cap ≤ buf'.cap
  contents_eq : buf'.contents = buf.contents

theorem Sound.grown (h : buf.Sound) : Grown buf buf :=
  ⟨h, rfl, rfl, Nat.le_refl _, rfl⟩

theorem extend_data (h : buf.Sound) {newCap : Nat} (hmore : buf.cap < newCap)
    : (buf.extend newCap).data = buf.data ++ List.replicate (newCap - buf.cap) none := by
  unfold extend
  rw [if_neg (by omega)]
  dsimp only
  rw [patch_eq (Nat.zero_le _), List.take_zero, List.nil_append, Nat.zero_add,
    List.take_of_length_le (Nat.le_of_eq h.length_eq), List.drop_replicate, h.length_eq]

theorem grown_extend (h : buf.Sound) {newCap : Nat} (hlt : newCap < 2 ^ 32)
    : Grown buf (buf.extend newCap) := by
  by_cases hmore : buf.cap < newCap
  . have hdata := extend_data h hmore
    have hcap : (buf.extend newCap).cap = newCap := by
      unfold extend
      rw [if_neg (by omega)]
    have hlen : (buf.extend newCap).len = buf.len := by
      unfold extend
      rw [if_neg (by omega)]
    have hpos : (buf.extend newCap).pos = buf.pos := by
      unfold extend
      rw [if_neg (by omega)]
    have hle := h.len_le
    have heq := h.length_eq
    constructor
    . constructor
      . rw [hpos, hlen]
        exact h.pos_le
      . rw [hlen, hcap]
        omega
      . rw [hdata, hcap, List.length_append, List.length_replicate]
        omega
      . rw [hcap]
        exact hlt
    . exact hlen
    . exact hpos
    . rw [hcap]
      omega
    . rw [contents, hdata, hlen, List.take_append_of_le_length (by omega)]
      rfl
  . have heq : buf.extend newCap = buf := if_pos (by omega)
    rw [heq]
    exact h.grown

theorem grown_ensureCap (h : buf.Sound) (n : Nat) : Grown buf (buf.ensureCap n) := by
  unfold ensureCap
  split
  . exact grown_extend h (Nat.mod_lt _ (by omega))
  . exact h.grown

/--
What `ENSURE_CAP` lets the capacity grow to, but for the number of bytes that are added. The product
wraps around.
-/
def grownCap (buf : Memory) : Nat :=
  buf.cap * 15 % 2 ^ 32 / 10

/--
There is room for `n` bytes, or the block will grow as far as it has to: neither sum wraps around, and
the product has not left too little.
-/
def Room (buf : Memory) (n : Nat) : Prop :=
  buf.pos + n ≤ buf.cap
    ∨ (buf.len + n < 2 ^ 32 ∧ buf.grownCap + n < 2 ^ 32 ∧ buf.pos ≤ buf.grownCap)

theorem le_cap_ensureCap_iff (h : buf.Sound) (hn : buf.pos + n < 2 ^ 32)
    : buf.pos + n ≤ (buf.ensureCap n).cap ↔ buf.Room n := by
  have hpos := h.pos_le
  have hlen := h.len_le
  have hcap := h.cap_lt
  have hgrown : buf.grownCap < 2 ^ 31 := by
    unfold grownCap
    omega
  unfold Room
  by_cases hroom : buf.pos + n ≤ buf.cap
  . apply iff_of_true _ (.inl hroom)
    exact Nat.le_trans hroom (grown_ensureCap h n).cap_le
  . rw [or_iff_right hroom]
    unfold ensureCap
    have hgrow : buf.cap * 15 % 2 ^ 32 / 10 = buf.grownCap := rfl
    rw [hgrow]
    by_cases hsum : buf.len + n < 2 ^ 32
    . rw [Nat.mod_eq_of_lt hsum, if_pos (by omega)]
      unfold extend
      split
      . omega
      . dsimp only
        omega
    . -- the check does not see that there are too many bytes
      have hmod : (buf.len + n) % 2 ^ 32 = buf.len + n - 2 ^ 32 := by omega
      rw [hmod, if_neg (by omega)]
      omega

section Store

theorem store_of_le (h : buf.Sound) (hle : buf.pos + arr.length ≤ buf.cap)
    : ∃ buf', buf.store arr = .ok buf' ∧ buf'.Sound
        ∧ buf'.contents = patch none buf.contents buf.pos (arr.map some)
        ∧ buf'.pos = buf.pos + arr.length := by
  have hpos := h.pos_le
  have hlen := h.len_le
  have hcap := h.cap_lt
  have heq := h.length_eq
  unfold store
  rw [if_pos (by omega), Nat.mod_eq_of_lt (by omega)]
  have hmax : (if buf.pos + arr.length > buf.len then buf.pos + arr.length else buf.len)
      = max buf.len (buf.pos + arr.length) := by
    split
    . omega
    . omega
  dsimp only
  rw [hmax]
  refine ⟨_, rfl, ?_, ?_, rfl⟩
  . constructor
    . dsimp only
      omega
    . dsimp only
      omega
    . dsimp only
      rw [length_patch (by omega), List.length_map]
      omega
    . exact hcap
  . have htake := @take_patch _ none buf.data (arr.map some) buf.pos buf.len hpos (by omega)
    rw [List.length_map] at htake
    exact htake

theorem store_of_not_le (h : buf.Sound) (hle : ¬ buf.pos + arr.length ≤ buf.cap)
    : buf.store arr = .error .writeOutside := by
  unfold store
  rw [if_neg (by rw [h.length_eq]; exact hle)]

theorem put_of_room (h : buf.Sound) (hn : buf.pos + arr.length < 2 ^ 32) (hroom : buf.Room arr.length)
    : ∃ buf', buf.put arr = .ok buf' ∧ buf'.Sound
        ∧ buf'.contents = patch none buf.contents buf.pos (arr.map some)
        ∧ buf'.pos = buf.pos + arr.length := by
  have hgrown := grown_ensureCap h arr.length
  have hle := (le_cap_ensureCap_iff h hn).mpr hroom
  rw [← hgrown.pos_eq] at hle
  obtain ⟨buf', heq, hsound, hcontents, hpos⟩ := store_of_le hgrown.sound hle
  refine ⟨buf', heq, hsound, ?_, ?_⟩
  . rw [hcontents, hgrown.contents_eq, hgrown.pos_eq]
  . rw [hpos, hgrown.pos_eq]

theorem put_of_not_room (h : buf.Sound) (hn : buf.pos + arr.length < 2 ^ 32)
    (hroom : ¬ buf.Room arr.length) : buf.put arr = .error .writeOutside := by
  have hgrown := grown_ensureCap h arr.length
  apply store_of_not_le hgrown.sound
  rw [hgrown.pos_eq, le_cap_ensureCap_iff h hn]
  exact hroom

end Store

/--
`ByteBuffer` is what is left of a buffer without the bytes behind its contents.
-/
def toByteBuffer (buf : Memory) : ByteBuffer :=
  { data := buf.contents.map (·.getD 0), cap := buf.cap, pos := buf.pos }

theorem Sound.length_contents (h : buf.Sound) : buf.contents.length = buf.len := by
  have hlen := h.len_le
  have heq := h.length_eq
  rw [contents, List.length_take]
  omega

theorem toByteBuffer_ensureCap (h : buf.Sound) (n : Nat)
    : (buf.ensureCap n).toByteBuffer = buf.toByteBuffer.ensureCap n := by
  have hlen : buf.toByteBuffer.data.length = buf.len := by
    rw [toByteBuffer, List.length_map, h.length_contents]
  have hgrown := grown_ensureCap h n
  have hcap : (buf.ensureCap n).cap = (buf.toByteBuffer.ensureCap n).cap := by
    have hself : buf.toByteBuffer.cap = buf.cap := rfl
    unfold ensureCap ByteBuffer.ensureCap extend ByteBuffer.extend
    rw [hlen, hself]
    split
    . split
      . rfl
      . rfl
    . rfl
  have hrest : buf.toByteBuffer.ensureCap n
      = { buf.toByteBuffer with cap := (buf.toByteBuffer.ensureCap n).cap } := by
    unfold ByteBuffer.ensureCap ByteBuffer.extend
    split
    . split
      . rfl
      . rfl
    . rfl
  rw [hrest, ← hcap]
  unfold toByteBuffer
  rw [hgrown.contents_eq, hgrown.pos_eq]

/--
`put_bytes` of a buffer with its block is that of a `ByteBuffer`.
-/
theorem toByteBuffer_put (h : buf.Sound) (hn : buf.pos + arr.length < 2 ^ 32)
    : (buf.put arr).map toByteBuffer = buf.toByteBuffer.putBytes arr := by
  have hgrown := grown_ensureCap h arr.length
  have hensure := toByteBuffer_ensureCap h arr.length
  unfold ByteBuffer.putBytes
  rw [← hensure]
  by_cases hroom : buf.Room arr.length
  . have hle := (le_cap_ensureCap_iff h hn).mpr hroom
    rw [← hgrown.pos_eq] at hle
    rw [if_pos (by exact hle)]
    obtain ⟨buf', heq, hsound, hcontents, hpos⟩ := store_of_le hgrown.sound hle
    have hcap : buf'.cap = (buf.ensureCap arr.length).cap := by
      unfold store at heq
      split at heq
      . injection heq with heq
        rw [← heq]
      . cases heq
    rw [put, heq]
    show Except.ok (toByteBuffer buf') = _
    unfold toByteBuffer
    rw [hcontents, hpos, hcap, map_patch, List.map_map]
    congr 3
    exact (List.map_id _).symm ▸ rfl
  . have hle := mt (le_cap_ensureCap_iff h hn).mp hroom
    rw [← hgrown.pos_eq] at hle
    rw [if_neg (by exact hle), put_of_not_room h hn hroom]
    rfl

end Memory

section Runs

variable {buf : Memory} {ideal : Ideal} {c : Call}

/--
No store was outside of the block, and the contents are those of the idealised buffer.
-/
def Holds : Except Fault Memory × Ideal → Prop
  | (.error _, _) => False
  | (.ok buf, ideal) =>
    (buf.pos ≤ buf.len ∧ buf.len ≤ buf.cap)
      ∧ buf.contents = ideal.data.map some ∧ buf.pos = ideal.pos

/--
The block has room for what is put, or can grow so far.
-/
def HasRoom : Except Fault Memory × Ideal → Call → Prop
  | (.ok buf, _), .put val => buf.Room val.encode.length
  | _, _ => True

def Simulates : Except Fault Memory × Ideal → Prop
  | (.error _, _) => False
  | (.ok buf, ideal) => buf.Sound ∧ buf.contents = ideal.data.map some ∧ buf.pos = ideal.pos

theorem holds_of_simulates {s : Except Fault Memory × Ideal} (h : Simulates s) : Holds s := by
  obtain ⟨r, ideal⟩ := s
  cases r with
  | error _ => exact h
  | ok buf => exact ⟨⟨h.1.pos_le, h.1.len_le⟩, h.2⟩

theorem Memory.Grown.simulates {buf' : Memory} (hgrown : buf.Grown buf')
    (h : Simulates (.ok buf, ideal)) : Simulates (.ok buf', ideal) := by
  refine ⟨hgrown.sound, ?_, ?_⟩
  . rw [hgrown.contents_eq, h.2.1]
  . rw [hgrown.pos_eq, h.2.2]

theorem simulates_seek (h : Simulates (.ok buf, ideal)) {npos : Nat} (hle : npos ≤ buf.len)
    : Simulates (.ok (buf.seek npos), { ideal with pos := npos }) :=
  ⟨⟨hle, h.1.len_le, h.1.length_eq, h.1.cap_lt⟩, h.2.1, rfl⟩

theorem length_of_simulates (h : Simulates (.ok buf, ideal)) : ideal.data.length = buf.len := by
  have hlen := h.1.length_contents
  rw [h.2.1, List.length_map] at hlen
  exact hlen

theorem simulates_put (h : Simulates (.ok buf, ideal)) {val : Value}
    (hallowed : buf.Allowed (.put val)) (hroom : buf.Room val.encode.length)
    : Simulates (buf.call (.put val), ideal.call (.put val)) := by
  obtain ⟨hsound, hcontents, hpos⟩ := h
  have hlt : buf.pos + val.encode.length < 2 ^ 32 :=
    Nat.lt_of_le_of_lt (Nat.le_max_right _ _) hallowed
  obtain ⟨buf', heq, hsound', hcontents', hpos'⟩ := Memory.put_of_room hsound hlt hroom
  have hcall : buf.call (.put val) = .ok buf' := (buf.putValue_eq val).trans heq
  have hle : ideal.pos ≤ (ideal.data.map some).length := by
    rw [← hcontents, ← hpos, hsound.length_contents]
    exact hsound.pos_le
  rw [hcall]
  refine ⟨hsound', ?_, ?_⟩
  . rw [hcontents', hcontents, hpos, Ideal.call, map_patch, patch_eq hle, patch_eq hle]
  . rw [hpos', hpos, Ideal.call]

theorem simulates_call (h : Simulates (.ok buf, ideal)) (hallowed : buf.Allowed c)
    (hroom : HasRoom (.ok buf, ideal) c) : Simulates (buf.call c, ideal.call c) := by
  cases c with
  | put val => exact simulates_put h hallowed hroom
  | seek npos => exact simulates_seek h hallowed
  | seekToEnd =>
    have hend := simulates_seek h (Nat.le_refl buf.len)
    rw [← length_of_simulates h] at hend
    rw [Memory.call, Memory.seekToEnd, ← length_of_simulates h]
    exact hend
  | seekToBeg => exact simulates_seek h (Nat.zero_le _)
  | reset => exact ⟨⟨Nat.le_refl 0, Nat.zero_le _, h.1.length_eq, h.1.cap_lt⟩, rfl, rfl⟩
  | extend newCap => exact (Memory.grown_extend h.1 newCap.toNat_lt).simulates h

theorem not_holds_call (h : Simulates (.ok buf, ideal)) (hallowed : buf.Allowed c)
    (hroom : ¬ HasRoom (.ok buf, ideal) c) : ¬ Holds (buf.call c, ideal.call c) := by
  cases c with
  | put val =>
    have hlt : buf.pos + val.encode.length < 2 ^ 32 :=
      Nat.lt_of_le_of_lt (Nat.le_max_right _ _) hallowed
    have hcall : buf.call (.put val) = .error .writeOutside :=
      (buf.putValue_eq val).trans (Memory.put_of_not_room h.1 hlt hroom)
    rw [hcall]
    exact not_false
  | seek npos => exact absurd trivial hroom
  | seekToEnd => exact absurd trivial hroom
  | seekToBeg => exact absurd trivial hroom
  | reset => exact absurd trivial hroom
  | extend newCap => exact absurd trivial hroom

theorem simulates_new (initCap : UInt32) : Simulates (.ok (.new initCap), .new) :=
  ⟨Memory.sound_new initCap, rfl, rfl⟩

theorem step_eq_some {s s' : Except Fault Memory × Ideal} (hstep : step s c = some s')
    : ∃ buf ideal, s = (.ok buf, ideal) ∧ buf.Allowed c ∧ s' = (buf.call c, ideal.call c) := by
  obtain ⟨r, ideal⟩ := s
  cases r with
  | error _ => cases hstep
  | ok buf =>
    simp only [step] at hstep
    split at hstep
    . next hallowed =>
      injection hstep with hstep
      exact ⟨buf, ideal, rfl, hallowed, hstep.symm⟩
    . cases hstep

/--
A buffer is like an idealised one throughout a run just in case it always has room.
-/
theorem holds_iff_hasRoom (initCap : UInt32) (calls : List Call)
    : Always step Holds (.ok (.new initCap), .new) calls
        ↔
      EachStep step HasRoom (.ok (.new initCap), .new) calls := by
  apply always_iff_eachStep (I := Simulates) (A := fun _ => True)
  . intro s h
    exact holds_of_simulates h
  . intro s c s' h _ hroom hstep
    obtain ⟨buf, ideal, rfl, hallowed, rfl⟩ := step_eq_some hstep
    exact simulates_call h hallowed hroom
  . intro s c s' h _ hroom hstep
    obtain ⟨buf, ideal, rfl, hallowed, rfl⟩ := step_eq_some hstep
    exact not_holds_call h hallowed hroom
  . exact simulates_new initCap
  . simp

theorem not_holds_of_length {arr : Bytes} (harr : arr.length = 2 ^ 32 - 40)
    : ¬ Always step Holds (.ok (.new 32), .new) [.put (.bytes arr)] := by
  intro h
  have hlen : (Value.bytes arr).encode.length = 2 ^ 32 - 40 := harr
  have hallowed : (Memory.new 32).Allowed (.put (.bytes arr)) := by
    show max 0 (0 + (Value.bytes arr).encode.length) < 2 ^ 32
    rw [hlen]
    decide
  have hroom : ¬ HasRoom (.ok (.new 32), .new) (.put (.bytes arr)) := by
    show ¬ (Memory.new 32).Room (Value.bytes arr).encode.length
    rw [hlen]
    unfold Memory.Room
    decide
  apply not_holds_call (simulates_new 32) hallowed hroom
  exact (h.2 _ (if_pos hallowed)).first

/--
A buffer of the default capacity and almost 4 GiB that are put at once: the new capacity wraps around.
-/
theorem not_holds_wrapped
    : ¬ Always step Holds (.ok (.new 32), .new)
          [.put (.bytes (List.replicate (2 ^ 32 - 40) 0))] :=
  not_holds_of_length List.length_replicate

end Runs

end ByteBuffer

end HCraft
