import HCraft.Util.Fault

/-!
This module contains windows, and how items are added to their slots.
-/

namespace HCraft

/--
Amounts are taken not to overflow.
-/
structure SlotItem where
  id : UInt16
  damage : UInt16
  amount : Int
  deriving DecidableEq

structure AddRange where
  start : Int
  stop : Int

/--
A slot that is `none` holds a null pointer.
-/
structure Window where
  wid : UInt8
  slots : List (Option SlotItem)
  addRanges : List AddRange

/--
The values of `i` in the loop over a range
-/
def AddRange.indices (r : AddRange) : List Int :=
  (List.range (r.stop + 1 - r.start).toNat).map (fun (k : Nat) => r.start + k)

/--
`_items_compatible`
-/
def SlotItem.compatible (a : Option SlotItem) (b : SlotItem) : Bool :=
  match a with
  | none => true
  | some a => a.id == b.id && a.damage == b.damage

namespace Window

def new (wid : UInt8) (slotCount : Nat) : Window :=
  { wid, slots := List.replicate slotCount none, addRanges := [] }

def pushAddRange (win : Window) (start stop : Int) : Window :=
  { win with addRanges := win.addRanges ++ [{ start, stop }] }

def get (win : Window) (i : Int) : Except Fault (Option SlotItem) :=
  if i < 0 then
    .error .readOutside
  else
    match win.slots[i.toNat]? with
    | none => .error .readOutside
    | some slot => .ok slot

def put (win : Window) (i : Int) (slot : Option SlotItem) : Window :=
  { win with slots := win.slots.set i.toNat slot }

def set (win : Window) (i : Int) (item : Option SlotItem) : Except Fault Window := do
  let _ ← win.get i
  return win.put i item

/--
How many items go to the slot, which may be more than there are or than there is room for.
-/
def tryAdd (win : Window) (i : Int) (it : SlotItem) (count : Int)
    : Except Fault (Int × Window) := do
  match ← win.get i with
  | none => return (count, win.put i (some { it with amount := count }))
  | some slot =>
    if !SlotItem.compatible (some slot) it then
      return (0, win)
    else
      let maxStack := 64
      let room := maxStack - slot.amount
      let toAdd := if count > room then count else room
      return (toAdd, win.put i (some { slot with amount := slot.amount + toAdd }))

/--
The loop over the slots of all ranges, left with the `goto` once nothing is left.
-/
def addTo (win : Window) (it : SlotItem) : List Int → Int → Except Fault (Int × Window)
  | [], left => return (left, win)
  | i :: is, left => do
    let (added, win) ← win.tryAdd i it left
    let left := left - added
    if left = 0 then return (left, win) else win.addTo it is left

/--
The slots that are tried, in order.
-/
def tried (win : Window) : List Int :=
  win.addRanges.flatMap AddRange.indices

def add (win : Window) (it : SlotItem) : Except Fault (Int × Window) :=
  win.addTo it win.tried it.amount

/--
The inventory of a player
-/
def inventory : Window :=
  ((new 0 45).pushAddRange 36 44).pushAddRange 9 35

end Window

end HCraft
