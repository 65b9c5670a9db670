/-!
This module contains the table of the blocks.
-/

namespace HCraft

inductive BlockState where
  | solid
  | fluid
  deriving DecidableEq, Repr

structure BlockInfo where
  id : UInt16
  opacity : Nat
  isOpaque : Bool
  state : BlockState
  deriving DecidableEq, Repr

namespace BlockInfo

/--
`BT_INVALID`
-/
def btInvalid : UInt16 :=
  0xFFFF

def invalid : BlockInfo :=
  { id := btInvalid, opacity := 15, isOpaque := true, state := .solid }

def blockList : List BlockInfo :=
  [
    ⟨0x00, 0, false, .solid⟩, ⟨0x01, 15, true, .solid⟩, ⟨0x02, 15, true, .solid⟩,
    ⟨0x03, 15, true, .solid⟩, ⟨0x04, 15, true, .solid⟩, ⟨0x05, 15, true, .solid⟩,
    ⟨0x06, 0, false, .solid⟩, ⟨0x07, 15, true, .solid⟩, ⟨0x08, 3, true, .fluid⟩,
    ⟨0x09, 3, true, .fluid⟩, ⟨0x0A, 0, false, .fluid⟩, ⟨0x0B, 0, false, .fluid⟩,
    ⟨0x0C, 15, true, .solid⟩, ⟨0x0D, 15, true, .solid⟩, ⟨0x0E, 15, true, .solid⟩,
    ⟨0x0F, 15, true, .solid⟩, ⟨0x10, 15, true, .solid⟩, ⟨0x11, 15, true, .solid⟩,
    ⟨0x12, 1, true, .solid⟩, ⟨0x13, 15, true, .solid⟩, ⟨0x14, 0, false, .solid⟩,
    ⟨0x15, 15, true, .solid⟩, ⟨0x16, 15, true, .solid⟩, ⟨0x17, 15, true, .solid⟩,
    ⟨0x18, 15, true, .solid⟩, ⟨0x19, 15, true, .solid⟩, ⟨0x1A, 0, false, .solid⟩,
    ⟨0x1B, 0, false, .solid⟩, ⟨0x1C, 0, false, .solid⟩, ⟨0x1D, 0, true, .solid⟩,
    ⟨0x1E, 0, false, .solid⟩, ⟨0x1F, 0, false, .solid⟩, ⟨0x20, 0, false, .solid⟩,
    ⟨0x21, 0, true, .solid⟩, ⟨0x22, 0, false, .solid⟩, ⟨0x23, 15, true, .solid⟩,
    ⟨0x24, 0, false, .solid⟩, ⟨0x25, 0, false, .solid⟩, ⟨0x26, 0, false, .solid⟩,
    ⟨0x27, 0, false, .solid⟩, ⟨0x28, 0, false, .solid⟩, ⟨0x29, 15, true, .solid⟩,
    ⟨0x2A, 15, true, .solid⟩, ⟨0x2B, 15, true, .solid⟩, ⟨0x2C, 15, true, .solid⟩,
    ⟨0x2D, 15, true, .solid⟩, ⟨0x2E, 15, true, .solid⟩, ⟨0x2F, 15, true, .solid⟩,
    ⟨0x30, 15, true, .solid⟩, ⟨0x31, 15, true, .solid⟩, ⟨0x32, 0, false, .solid⟩,
    ⟨0x33, 0, false, .solid⟩, ⟨0x34, 15, false, .solid⟩, ⟨0x35, 15, true, .solid⟩,
    ⟨0x36, 15, false, .solid⟩, ⟨0x37, 0, false, .solid⟩, ⟨0x38, 15, true, .solid⟩,
    ⟨0x39, 15, true, .solid⟩, ⟨0x3A, 15, true, .solid⟩, ⟨0x3B, 0, false, .solid⟩,
    ⟨0x3C, 15, true, .solid⟩, ⟨0x3D, 15, true, .solid⟩, ⟨0x3E, 15, true, .solid⟩,
    ⟨0x3F, 0, false, .solid⟩, ⟨0x40, 0, false, .solid⟩, ⟨0x41, 0, false, .solid⟩,
    ⟨0x42, 0, false, .solid⟩, ⟨0x43, 15, true, .solid⟩, ⟨0x44, 0, false, .solid⟩,
    ⟨0x45, 0, false, .solid⟩, ⟨0x46, 0, false, .solid⟩, ⟨0x47, 0, true, .solid⟩,
    ⟨0x48, 0, false, .solid⟩, ⟨0x49, 15, true, .solid⟩, ⟨0x4A, 15, true, .solid⟩,
    ⟨0x4B, 0, false, .solid⟩, ⟨0x4C, 0, false, .solid⟩, ⟨0x4D, 0, false, .solid⟩,
    ⟨0x4E, 15, false, .solid⟩, ⟨0x4F, 15, true, .solid⟩, ⟨0x50, 15, true, .solid⟩,
    ⟨0x51, 0, false, .solid⟩, ⟨0x52, 15, true, .solid⟩, ⟨0x53, 0, false, .solid⟩,
    ⟨0x54, 15, true, .solid⟩, ⟨0x55, 0, false, .solid⟩, ⟨0x56, 15, true, .solid⟩,
    ⟨0x57, 15, true, .solid⟩, ⟨0x58, 15, true, .solid⟩, ⟨0x59, 15, true, .solid⟩,
    ⟨0x5A, 0, false, .solid⟩, ⟨0x5B, 15, true, .solid⟩, ⟨0x5C, 0, true, .solid⟩,
    ⟨0x5D, 15, true, .solid⟩, ⟨0x5E, 15, true, .solid⟩, ⟨0x5F, 0, true, .solid⟩,
    ⟨0x60, 0, true, .solid⟩, ⟨0x61, 15, true, .solid⟩, ⟨0x62, 15, true, .solid⟩,
    ⟨0x63, 15, true, .solid⟩, ⟨0x64, 15, true, .solid⟩, ⟨0x65, 0, true, .solid⟩,
    ⟨0x66, 0, true, .solid⟩, ⟨0x67, 15, true, .solid⟩, ⟨0x68, 0, true, .solid⟩,
    ⟨0x69, 0, true, .solid⟩, ⟨0x6A, 0, true, .solid⟩, ⟨0x6B, 0, true, .solid⟩,
    ⟨0x6C, 15, true, .solid⟩, ⟨0x6D, 15, true, .solid⟩, ⟨0x6E, 15, true, .solid⟩,
    ⟨0x6F, 0, true, .solid⟩, ⟨0x70, 15, true, .solid⟩, ⟨0x71, 0, true, .solid⟩,
    ⟨0x72, 15, true, .solid⟩, ⟨0x73, 0, true, .solid⟩, ⟨0x74, 0, true, .solid⟩,
    ⟨0x75, 0, true, .solid⟩, ⟨0x76, 0, true, .solid⟩, ⟨0x77, 0, true, .solid⟩,
    ⟨0x78, 15, true, .solid⟩, ⟨0x79, 15, true, .solid⟩, ⟨0x7A, 0, true, .solid⟩,
    ⟨0x7B, 15, true, .solid⟩, ⟨0x7C, 15, true, .solid⟩, ⟨0x7D, 15, true, .solid⟩,
    ⟨0x7E, 15, true, .solid⟩, ⟨0x7F, 0, true, .solid⟩, ⟨0x80, 15, true, .solid⟩,
    ⟨0x81, 15, true, .solid⟩, ⟨0x82, 0, true, .solid⟩, ⟨0x83, 0, true, .solid⟩,
    ⟨0x84, 0, true, .solid⟩, ⟨0x85, 15, true, .solid⟩, ⟨0x86, 15, true, .solid⟩,
    ⟨0x87, 15, true, .solid⟩, ⟨0x88, 15, true, .solid⟩, ⟨0x89, 15, true, .solid⟩,
    ⟨0x8A, 0, true, .solid⟩, ⟨0x8B, 0, true, .solid⟩, ⟨0x8C, 0, true, .solid⟩,
    ⟨0x8D, 0, true, .solid⟩, ⟨0x8E, 0, true, .solid⟩, ⟨0x8F, 0, true, .solid⟩,
    ⟨0x90, 0, true, .solid⟩, ⟨0x91, 0, true, .solid⟩, ⟨0x92, 0, true, .solid⟩,
    ⟨0x93, 0, true, .solid⟩, ⟨0x94, 0, true, .solid⟩, ⟨0x95, 0, true, .solid⟩,
    ⟨0x96, 0, true, .solid⟩, ⟨0x97, 0, true, .solid⟩, ⟨0x98, 15, true, .solid⟩,
    ⟨0x99, 15, true, .solid⟩, ⟨0x9A, 0, true, .solid⟩, ⟨0x9B, 15, true, .solid⟩,
    ⟨0x9C, 15, true, .solid⟩, ⟨0x9D, 0, true, .solid⟩, ⟨0x9E, 15, true, .solid⟩,
    ⟨0x9F, 15, true, .solid⟩, ⟨0xA0, 0, true, .solid⟩, ⟨0xA1, 1, true, .solid⟩,
    ⟨0xA2, 15, true, .solid⟩, ⟨0xA3, 15, true, .solid⟩, ⟨0xA4, 15, true, .solid⟩, .invalid,
    .invalid, .invalid, .invalid, .invalid, ⟨0xAA, 15, true, .solid⟩, ⟨0xAB, 0, true, .solid⟩,
    ⟨0xAC, 15, true, .solid⟩, ⟨0xAD, 15, true, .solid⟩, ⟨0xAE, 15, true, .solid⟩
  ]

def fromId (id : UInt16) : Option BlockInfo :=
  match blockList[id.toNat]? with
  | none => none
  | some binf => if binf.id = btInvalid then none else some binf

/--
The check that `chunk` makes wherever it looks for what ends a column.
-/
def blocksSky (id : UInt16) : Bool :=
  match fromId id with
  | none => false
  | some binf => binf.isOpaque && binf.state == .solid

theorem blocksSky_iff {id : UInt16}
    : blocksSky id = true
        ↔
      ∃ binf, fromId id = some binf ∧ binf.isOpaque = true ∧ binf.state = .solid := by
  unfold blocksSky
  cases fromId id with
  | none => simp
  | some binf => simp

theorem toNat_lt_of_fromId {id : UInt16} (h : fromId id ≠ none) : id.toNat < 4096 := by
  apply Nat.lt_of_not_le
  intro hid
  have hlen : blockList.length = 175 := rfl
  apply h
  unfold fromId
  rw [List.getElem?_eq_none (by omega)]

theorem blocksSky_zero : blocksSky 0 = false := rfl

theorem blocksSky_one : blocksSky 1 = true := rfl

end BlockInfo

end HCraft
