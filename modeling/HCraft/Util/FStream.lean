import HCraft.Lib.Slice
import HCraft.Util.Binary

/-!
This module contains the `std::fstream` operations the program uses on a file that is open. A stream
that has failed ignores whatever comes after.
-/

namespace HCraft

open Slice

structure FStream where
  data : Bytes
  pos : Nat
  fail : Bool

namespace FStream

def ofFile (data : Bytes) : FStream :=
  { data, pos := 0, fail := false }

/--
`seekg` and `seekp`, which move the same position.
-/
def seek (fs : FStream) (pos : Int) : FStream :=
  if fs.fail then
    fs
  else if pos < 0 then
    { fs with fail := true }
  else
    { fs with pos := pos.toNat }

def seekEnd (fs : FStream) : FStream :=
  if fs.fail then fs else { fs with pos := fs.data.length }

def tell (fs : FStream) : Int :=
  if fs.fail then -1 else fs.pos

def write (fs : FStream) (s : Bytes) : FStream :=
  if fs.fail then
    fs
  else
    { fs with data := patch 0 fs.data fs.pos s, pos := fs.pos + s.length }

def put (fs : FStream) (b : UInt8) : FStream :=
  fs.write [b]

/--
Returns the bytes that have been read, fewer than `n` at the end of the file.
-/
def read (fs : FStream) (n : Nat) : Bytes × FStream :=
  if fs.fail then
    ([], fs)
  else
    let s := slice fs.data fs.pos n
    (s, { fs with pos := fs.pos + s.length, fail := s.length < n })

def get (fs : FStream) : Int × FStream :=
  match fs.read 1 with
  | (b :: _, fs) => (b.toNat, fs)
  | ([], fs) => (-1, fs)

variable {data : Bytes} {pos : Nat}

@[simp]
theorem seek_good (target : Nat) : (mk data pos false).seek target = mk data target false := by
  simp [seek]

@[simp]
theorem seekEnd_good : (mk data pos false).seekEnd = mk data data.length false := rfl

@[simp]
theorem tell_good : (mk data pos false).tell = pos := rfl

@[simp]
theorem write_good (s : Bytes)
    : (mk data pos false).write s = mk (patch 0 data pos s) (pos + s.length) false := rfl

theorem write_write (hpos : pos ≤ data.length) (s t : Bytes)
    : ((mk data pos false).write s).write t = (mk data pos false).write (s ++ t) := by
  simp only [write_good, patch_patch hpos, List.length_append, Nat.add_assoc]

theorem read_good {n : Nat} (hn : pos + n ≤ data.length)
    : (mk data pos false).read n = (slice data pos n, mk data (pos + n) false) := by
  have hlen := length_slice_of_le hn
  simp [read, hlen]

theorem get_good (hpos : pos < data.length)
    : (mk data pos false).get = (((data.getD pos 0).toNat : Int), mk data (pos + 1) false) := by
  have hslice : slice data pos 1 = [data.getD pos 0] := by
    unfold slice
    rw [List.drop_eq_getElem_cons hpos, List.getD_eq_getElem _ _ hpos]
    rfl
  rw [get, read_good hpos, hslice]

end FStream

end HCraft
