import HCraft.Lib.Slice
import HCraft.Util.Binary
import HCraft.Util.Fault

/-!
This module contains `byte_buffer`.
-/

namespace HCraft

open Slice

/--
The first `len` bytes of the block, `data`, have been written.
-/
structure ByteBuffer where
  data : Bytes
  cap : Nat
  pos : Nat

namespace ByteBuffer

def new : ByteBuffer :=
  { data := [], cap := 32, pos := 0 }

def seek (buf : ByteBuffer) (pos : Nat) : ByteBuffer :=
  { buf with pos }

def extend (buf : ByteBuffer) (newCap : Nat) : ByteBuffer :=
  if buf.cap ≥ newCap then buf else { buf with cap := newCap }

def ensureCap (buf : ByteBuffer) (n : Nat) : ByteBuffer :=
  if (buf.data.length + n) % 2 ^ 32 > buf.cap then
    buf.extend ((buf.cap * 15 % 2 ^ 32 / 10 + n) % 2 ^ 32)
  else
    buf

def putBytes (buf : ByteBuffer) (arr : Bytes) : Except Fault ByteBuffer :=
  let buf := buf.ensureCap arr.length
  if buf.pos + arr.length ≤ buf.cap then
    .ok { buf with data := patch 0 buf.data buf.pos arr, pos := buf.pos + arr.length }
  else
    .error .writeOutside

def putByte (buf : ByteBuffer) (val : UInt8) : Except Fault ByteBuffer :=
  buf.putBytes [val]

def putShortBe (buf : ByteBuffer) (val : Nat) : Except Fault ByteBuffer :=
  buf.putBytes (Bin.writeShortBe val)

def putIntBe (buf : ByteBuffer) (val : Nat) : Except Fault ByteBuffer :=
  buf.putBytes (Bin.writeIntBe val)

def putLongBe (buf : ByteBuffer) (val : Nat) : Except Fault ByteBuffer :=
  buf.putBytes (Bin.writeLongBe val)

/--
The cursor is inside the written bytes, and these are inside the block.
-/
def Fits (buf : ByteBuffer) : Prop :=
  buf.pos ≤ buf.data.length ∧ buf.data.length ≤ buf.cap

theorem ensureCap_spec {buf : ByteBuffer} (h : buf.Fits) {n : Nat}
    (hn : buf.data.length + n ≤ 2 ^ 28 + 8)
    : ∃ cap, buf.ensureCap n = { buf with cap } ∧ buf.data.length + n ≤ cap := by
  obtain ⟨hpos, hcap⟩ := h
  unfold ensureCap extend
  rw [@Nat.mod_eq_of_lt (buf.data.length + n) _ (by omega)]
  split
  . next hmore =>
    have hcap15 : buf.cap * 15 % 2 ^ 32 = buf.cap * 15 := Nat.mod_eq_of_lt (by omega)
    have hsum : (buf.cap * 15 / 10 + n) % 2 ^ 32 = buf.cap * 15 / 10 + n :=
      Nat.mod_eq_of_lt (by omega)
    rw [hcap15, hsum]
    split
    . next hless => omega
    . refine ⟨_, rfl, ?_⟩
      omega
  . next henough =>
    refine ⟨buf.cap, rfl, ?_⟩
    omega

theorem putBytes_spec {buf : ByteBuffer} (h : buf.Fits) {arr : Bytes}
    (hn : buf.data.length + arr.length ≤ 2 ^ 28 + 8)
    : ∃ buf', buf.putBytes arr = .ok buf' ∧ buf'.Fits
        ∧ buf'.data = patch 0 buf.data buf.pos arr
        ∧ buf'.pos = buf.pos + arr.length := by
  obtain ⟨cap, heq, hle⟩ := ensureCap_spec h hn
  obtain ⟨hpos, hcap⟩ := h
  unfold putBytes
  rw [heq]
  dsimp only
  rw [if_pos (by omega)]
  refine ⟨_, rfl, ?_, rfl, rfl⟩
  unfold Fits
  dsimp only
  rw [length_patch hpos]
  omega

/--
The cursor is behind the last byte.
-/
def AtEnd (buf : ByteBuffer) : Prop :=
  buf.pos = buf.data.length ∧ buf.data.length ≤ buf.cap

theorem atEnd_new : new.AtEnd := by
  unfold AtEnd new
  simp

theorem AtEnd.putBytes {buf : ByteBuffer} (h : buf.AtEnd) {arr : Bytes}
    (hn : buf.data.length + arr.length ≤ 2 ^ 28 + 8)
    : ∃ buf', buf.putBytes arr = .ok buf' ∧ buf'.AtEnd ∧ buf'.data = buf.data ++ arr := by
  obtain ⟨hpos, hcap⟩ := h
  obtain ⟨buf', heq, hfits, hdata, hpos'⟩ := @putBytes_spec _ ⟨Nat.le_of_eq hpos, hcap⟩ arr hn
  rw [hpos, Slice.patch_length] at hdata
  refine ⟨buf', heq, ⟨?_, hfits.right⟩, hdata⟩
  rw [hpos', hdata, hpos, List.length_append]

end ByteBuffer

end HCraft
