import HCraft.Inv.Window.Impl
import Mathlib.Algebra.BigOperators.Group.List.Basic
import Mathlib.Algebra.Ring.Int.Defs

/-!
This module contains when adding an item to a window conserves items and keeps stacks small.
-/

namespace HCraft

namespace SlotItem

/--
The items of the kind of `it` in a slot
-/
def held (it : SlotItem) : Option SlotItem → Int
  | none => 0
  | some slot => if compatible (some slot) it then slot.amount else 0

end SlotItem

namespace Window

def total (win : Window) (it : SlotItem) : Int :=
  (win.slots.map it.held).sum

/--
Stack sizes in `[0, 64]`
-/
def Stacked (win : Window) : Prop :=
  ∀ slot, some slot ∈ win.slots → 0 ≤ slot.amount ∧ slot.amount ≤ 64

def Inside (win : Window) (i : Int) : Prop :=
  0 ≤ i ∧ i < win.slots.length

/--
Another kind of item is in the slot.
-/
def Other (win : Window) (it : SlotItem) (i : Int) : Prop :=
  ∃ slot, win.get i = .ok slot ∧ SlotItem.compatible slot it = false

/--
What it means to add an item, where `left` of it are not added.
-/
structure Added (win : Window) (it : SlotItem) (left : Int) (win' : Window) : Prop where
  left_nonneg : 0 ≤ left
  left_le : left ≤ it.amount
  total_eq : win'.total it = win.total it + (it.amount - left)
  stacked : win'.Stacked
  get_of_not_mem : ∀ i, i ∉ win.tried → win'.get i = win.get i
  get_of_other : ∀ i, win.Other it i → win'.get i = win.get i
  full : 0 < left → ∀ i ∈ win.tried,
    win.Other it i ∨ ∃ slot, win'.get i = .ok (some slot) ∧ slot.amount = 64

/--
The first slot that takes the item takes all of it. Nothing to add is only tried on one slot.
-/
def Fits (win : Window) (it : SlotItem) : List Int → Int → Prop
  | [], _ => True
  | i :: is, count =>
    match win.get i with
    | .error _ => False
    | .ok none => count ≤ 64
    | .ok (some slot) =>
      if SlotItem.compatible (some slot) it then
        slot.amount + count = 64
      else
        count = 0 ∨ win.Fits it is count

section Slots

variable {win : Window} {it : SlotItem} {i : Int}

theorem get_of_inside (h : win.Inside i) : ∃ slot, win.get i = .ok slot := by
  obtain ⟨hnonneg, hlt⟩ := h
  have hlt' : i.toNat < win.slots.length := by omega
  refine ⟨win.slots[i.toNat], ?_⟩
  rw [get, if_neg (by omega), List.getElem?_eq_getElem hlt']

theorem get_eq_ok_iff {slot : Option SlotItem}
    : win.get i = .ok slot ↔ 0 ≤ i ∧ win.slots[i.toNat]? = some slot := by
  unfold get
  split
  . next hneg =>
    simp only [reduceCtorEq, false_iff, not_and]
    omega
  . next hnonneg =>
    have : 0 ≤ i := by omega
    cases win.slots[i.toNat]? with
    | none => simp
    | some slot' => simp [this]

theorem mem_of_get {slot : Option SlotItem} (h : win.get i = .ok slot) : slot ∈ win.slots :=
  List.mem_of_getElem? (get_eq_ok_iff.mp h).2

theorem Stacked.of_get {slot : SlotItem} (h : win.Stacked) (hget : win.get i = .ok (some slot))
    : 0 ≤ slot.amount ∧ slot.amount ≤ 64 :=
  h slot (mem_of_get hget)

theorem get_put_self {slot slot' : Option SlotItem} (h : win.get i = .ok slot)
    : (win.put i slot').get i = .ok slot' := by
  rw [get_eq_ok_iff] at h ⊢
  obtain ⟨hi, hslot⟩ := h
  refine ⟨hi, ?_⟩
  rw [put, List.getElem?_set_self (List.getElem?_eq_some_iff.mp hslot).1]

theorem get_put_ne {j : Int} {slot slot' : Option SlotItem} (h : win.get i = .ok slot) (hne : j ≠ i)
    : (win.put i slot').get j = win.get j := by
  have hi := (get_eq_ok_iff.mp h).1
  unfold get
  split
  . rfl
  . rw [put, List.getElem?_set_ne (by omega)]

theorem inside_put {j : Int} {slot : Option SlotItem} : (win.put i slot).Inside j ↔ win.Inside j := by
  rw [Inside, Inside, put, List.length_set]

theorem sum_map_set {α : Type} (f : α → Int) {xs : List α} {k : Nat} {x y : α} (h : xs[k]? = some x)
    : ((xs.set k y).map f).sum = (xs.map f).sum + (f y - f x) := by
  induction xs generalizing k with
  | nil => cases h
  | cons z xs ih =>
    cases k with
    | zero =>
      rw [List.getElem?_cons_zero, Option.some.injEq] at h
      rw [List.set_cons_zero, List.map_cons, List.map_cons, List.sum_cons, List.sum_cons, h]
      omega
    | succ k =>
      rw [List.getElem?_cons_succ] at h
      rw [List.set_cons_succ, List.map_cons, List.map_cons, List.sum_cons, List.sum_cons, ih h]
      omega

theorem total_put {slot slot' : Option SlotItem} (h : win.get i = .ok slot)
    : (win.put i slot').total it = win.total it + (it.held slot' - it.held slot) :=
  sum_map_set it.held (get_eq_ok_iff.mp h).2

theorem stacked_put {slot : SlotItem} (h : win.Stacked) (hslot : 0 ≤ slot.amount ∧ slot.amount ≤ 64)
    : (win.put i (some slot)).Stacked := by
  intro slot' hmem
  rcases List.mem_or_eq_of_mem_set hmem with hmem | heq
  . exact h slot' hmem
  . rw [Option.some.injEq] at heq
    rw [heq]
    exact hslot

end Slots

section TryAdd

variable {win : Window} {it : SlotItem} {i count : Int}

theorem tryAdd_none (h : win.get i = .ok none)
    : win.tryAdd i it count = .ok (count, win.put i (some { it with amount := count })) := by
  rw [tryAdd, h]
  rfl

theorem tryAdd_other {slot : SlotItem} (h : win.get i = .ok (some slot))
    (hother : SlotItem.compatible (some slot) it = false)
    : win.tryAdd i it count = .ok (0, win) := by
  rw [tryAdd, h]
  dsimp only [bind, Except.bind]
  rw [hother]
  rfl

theorem tryAdd_same {slot : SlotItem} (h : win.get i = .ok (some slot))
    (hsame : SlotItem.compatible (some slot) it = true)
    : win.tryAdd i it count
        = .ok (max count (64 - slot.amount),
            win.put i (some { slot with amount := slot.amount + max count (64 - slot.amount) })) := by
  have hmax : (if count > 64 - slot.amount then count else 64 - slot.amount)
      = max count (64 - slot.amount) := by
    split
    . omega
    . omega
  rw [tryAdd, h]
  dsimp only [bind, Except.bind]
  rw [hsame, hmax]
  rfl

end TryAdd

section Run

variable {win : Window} {it : SlotItem} {is : List Int} {count : Int}

theorem not_stacked_of_get {i : Int} {slot : SlotItem} (h : win.get i = .ok (some slot))
    (hslot : slot.amount < 0 ∨ 64 < slot.amount) : ¬ win.Stacked := by
  intro hst
  have := hst.of_get h
  omega

/--
Once more was added than there was, the loop goes on with a negative number, which ends as the
result or in an empty slot.
-/
theorem addTo_of_neg (hin : ∀ i ∈ is, win.Inside i) (hst : win.Stacked) (hneg : count < 0)
    : ∃ left win', win.addTo it is count = .ok (left, win') ∧ (left < 0 ∨ ¬ win'.Stacked) := by
  induction is generalizing win count with
  | nil => exact ⟨count, win, rfl, .inl hneg⟩
  | cons i is ih =>
    obtain ⟨slot, hslot⟩ := get_of_inside (hin i List.mem_cons_self)
    have hrest := fun j hj => hin j (List.mem_cons_of_mem i hj)
    unfold addTo
    cases slot with
    | none =>
      rw [tryAdd_none hslot]
      dsimp only [bind, Except.bind]
      rw [Int.sub_self, if_pos rfl]
      refine ⟨0, _, rfl, .inr ?_⟩
      apply not_stacked_of_get (get_put_self hslot)
      exact .inl hneg
    | some slot =>
      have hamount := hst.of_get hslot
      cases hsame : SlotItem.compatible (some slot) it with
      | false =>
        rw [tryAdd_other hslot hsame]
        dsimp only [bind, Except.bind]
        rw [Int.sub_zero, if_neg (by omega)]
        exact ih hrest hst hneg
      | true =>
        rw [tryAdd_same hslot hsame]
        dsimp only [bind, Except.bind]
        rw [if_neg (by omega)]
        apply ih
        . exact fun j hj => inside_put.mpr (hrest j hj)
        . exact stacked_put hst ⟨by dsimp only; omega, by dsimp only; omega⟩
        . omega

/--
One slot of `is` takes `count` items.
-/
def Takes (win : Window) (it : SlotItem) (is : List Int) (count : Int) (win' : Window) : Prop :=
  ∃ i ∈ is, ∃ slot slot', win.get i = .ok slot ∧ SlotItem.compatible slot it = true
    ∧ SlotItem.compatible (some slot') it = true ∧ slot'.amount = it.held slot + count
    ∧ slot'.amount ≤ 64 ∧ win' = win.put i (some slot')

theorem addTo_of_fits (hin : ∀ i ∈ is, win.Inside i) (h : win.Fits it is count)
    : (win.addTo it is count = .ok (count, win) ∧ (count = 0 ∨ ∀ i ∈ is, win.Other it i))
        ∨ ∃ win', win.addTo it is count = .ok (0, win') ∧ win.Takes it is count win' := by
  induction is with
  | nil => exact .inl ⟨rfl, .inr (by simp)⟩
  | cons i is ih =>
    obtain ⟨slot, hslot⟩ := get_of_inside (hin i List.mem_cons_self)
    have hrest := fun j hj => hin j (List.mem_cons_of_mem i hj)
    unfold addTo
    unfold Fits at h
    rw [hslot] at h
    cases slot with
    | none =>
      right
      rw [tryAdd_none hslot]
      dsimp only [bind, Except.bind] at h ⊢
      rw [Int.sub_self, if_pos rfl]
      refine ⟨_, rfl, i, List.mem_cons_self, none, _, hslot, rfl, ?_, ?_, h, rfl⟩
      . simp [SlotItem.compatible]
      . simp [SlotItem.held]
    | some slot =>
      dsimp only at h
      cases hsame : SlotItem.compatible (some slot) it with
      | false =>
        rw [hsame, if_neg (by simp)] at h
        rw [tryAdd_other hslot hsame]
        dsimp only [bind, Except.bind]
        rw [Int.sub_zero]
        have hother : win.Other it i := ⟨some slot, hslot, hsame⟩
        by_cases hzero : count = 0
        . rw [if_pos hzero]
          exact .inl ⟨rfl, .inl hzero⟩
        . rw [if_neg hzero]
          rcases ih hrest (h.resolve_left hzero) with ⟨hrun, hall⟩ | ⟨win', hrun, j, hj, htakes⟩
          . refine .inl ⟨hrun, .inr ?_⟩
            rw [List.forall_mem_cons]
            exact ⟨hother, hall.resolve_left hzero⟩
          . exact .inr ⟨win', hrun, j, List.mem_cons_of_mem i hj, htakes⟩
      | true =>
        rw [hsame, if_pos rfl] at h
        right
        have hmax : max count (64 - slot.amount) = count := by omega
        rw [tryAdd_same hslot hsame, hmax]
        dsimp only [bind, Except.bind]
        rw [Int.sub_self, if_pos rfl]
        refine ⟨_, rfl, i, List.mem_cons_self, some slot, { slot with amount := slot.amount + count },
          hslot, hsame, hsame, ?_, by dsimp only; omega, rfl⟩
        simp [SlotItem.held, hsame]

theorem addTo_of_not_fits (hin : ∀ i ∈ is, win.Inside i) (hst : win.Stacked)
    (h : ¬ win.Fits it is count)
    : ∃ left win', win.addTo it is count = .ok (left, win') ∧ (left < 0 ∨ ¬ win'.Stacked) := by
  induction is with
  | nil => exact absurd trivial h
  | cons i is ih =>
    obtain ⟨slot, hslot⟩ := get_of_inside (hin i List.mem_cons_self)
    have hrest := fun j hj => hin j (List.mem_cons_of_mem i hj)
    unfold addTo
    unfold Fits at h
    rw [hslot] at h
    cases slot with
    | none =>
      rw [tryAdd_none hslot]
      dsimp only [bind, Except.bind] at h ⊢
      rw [Int.sub_self, if_pos rfl]
      exact ⟨0, _, rfl, .inr (not_stacked_of_get (get_put_self hslot) (.inr (by dsimp only; omega)))⟩
    | some slot =>
      have hamount := hst.of_get hslot
      dsimp only at h
      cases hsame : SlotItem.compatible (some slot) it with
      | false =>
        rw [hsame, if_neg (by simp), not_or] at h
        rw [tryAdd_other hslot hsame]
        dsimp only [bind, Except.bind]
        rw [Int.sub_zero, if_neg h.1]
        exact ih hrest h.2
      | true =>
        rw [hsame, if_pos rfl] at h
        rw [tryAdd_same hslot hsame]
        dsimp only [bind, Except.bind]
        by_cases hmore : 64 < slot.amount + count
        . -- all of it goes to a slot that has no room for it
          have hmax : max count (64 - slot.amount) = count := by omega
          rw [hmax, Int.sub_self, if_pos rfl]
          exact ⟨0, _, rfl, .inr (not_stacked_of_get (get_put_self hslot) (.inr hmore))⟩
        . rw [if_neg (by omega)]
          apply addTo_of_neg
          . exact fun j hj => inside_put.mpr (hrest j hj)
          . exact stacked_put hst ⟨by dsimp only; omega, by dsimp only; omega⟩
          . omega

end Run

section Added

variable {win win' : Window} {it : SlotItem}

theorem Added.refl (hst : win.Stacked) (hn : 0 ≤ it.amount)
    (hfull : it.amount = 0 ∨ ∀ i ∈ win.tried, win.Other it i) : win.Added it it.amount win where
  left_nonneg := hn
  left_le := Int.le_refl _
  total_eq := by rw [Int.sub_self, Int.add_zero]
  stacked := hst
  get_of_not_mem := fun _ _ => rfl
  get_of_other := fun _ _ => rfl
  full := by
    intro hpos i hi
    exact .inl (hfull.resolve_left (by omega) i hi)

theorem added_of_takes (hst : win.Stacked) (hn : 0 ≤ it.amount)
    (h : win.Takes it win.tried it.amount win') : win.Added it 0 win' := by
  obtain ⟨i, hi, slot, slot', hslot, hsame, hsame', hamount, hle, rfl⟩ := h
  have hheld : 0 ≤ it.held slot := by
    cases slot with
    | none => exact Int.le_refl 0
    | some slot =>
      rw [SlotItem.held, if_pos hsame]
      exact (hst.of_get hslot).1
  constructor
  . exact Int.le_refl 0
  . exact hn
  . rw [total_put hslot, SlotItem.held, if_pos hsame']
    omega
  . exact stacked_put hst ⟨by omega, hle⟩
  . intro j hj
    exact get_put_ne hslot (fun heq => hj (heq ▸ hi))
  . rintro j ⟨other, hother, hne⟩
    apply get_put_ne hslot
    rintro rfl
    rw [hslot, Except.ok.injEq] at hother
    rw [← hother, hsame] at hne
    cases hne
  . intro hpos
    omega

/--
Items are added as they should be if the first slot that takes the item takes all of it.
-/
theorem add_iff (win : Window) (it : SlotItem) (hin : ∀ i ∈ win.tried, win.Inside i)
    (hst : win.Stacked) (hn : 0 ≤ it.amount)
    : ∃ left win', win.add it = .ok (left, win')
        ∧ (win.Added it left win' ↔ win.Fits it win.tried it.amount) := by
  by_cases hfits : win.Fits it win.tried it.amount
  . rcases addTo_of_fits hin hfits with ⟨hrun, hfull⟩ | ⟨win', hrun, htakes⟩
    . exact ⟨_, _, hrun, iff_of_true (Added.refl hst hn hfull) hfits⟩
    . exact ⟨_, _, hrun, iff_of_true (added_of_takes hst hn htakes) hfits⟩
  . obtain ⟨left, win', hrun, hbad⟩ := addTo_of_not_fits hin hst hfits
    refine ⟨left, win', hrun, iff_of_false ?_ hfits⟩
    intro hadded
    rcases hbad with hneg | hnot
    . have := hadded.left_nonneg
      omega
    . exact hnot hadded.stacked

/--
Stacks of two kinds, one of which has room for just four more.
-/
def filled : Window :=
  ((inventory.put 36 (some { id := 3, damage := 0, amount := 20 })).put 37
      (some { id := 1, damage := 0, amount := 60 })).put 38
    (some { id := 1, damage := 0, amount := 10 })

theorem stacked_inventory : inventory.Stacked := by
  simp [Stacked, inventory, new, pushAddRange]

theorem stacked_filled : filled.Stacked :=
  stacked_put (stacked_put (stacked_put stacked_inventory (by decide)) (by decide)) (by decide)

theorem add_iff_filled
    : ∃ left win', filled.add { id := 1, damage := 0, amount := 4 } = .ok (left, win')
        ∧ (filled.Added { id := 1, damage := 0, amount := 4 } left win'
            ↔
          filled.Fits { id := 1, damage := 0, amount := 4 } filled.tried 4) :=
  add_iff filled { id := 1, damage := 0, amount := 4 }
    (by unfold Inside; decide +kernel) stacked_filled (by decide)

example : (filled.add { id := 1, damage := 0, amount := 4 }).map
      (fun res => (res.1, res.2.get 37, res.2.get 38))
    = .ok (0, .ok (some { id := 1, damage := 0, amount := 64 }),
      .ok (some { id := 1, damage := 0, amount := 10 })) := by
  rfl

/--
An inventory with 60 items in its first slot
-/
def sixty : Window :=
  inventory.put 36 (some { id := 1, damage := 0, amount := 60 })

theorem not_added_sixty
    : ∃ win', sixty.add { id := 1, damage := 0, amount := 10 } = .ok (0, win')
        ∧ win'.get 36 = .ok (some { id := 1, damage := 0, amount := 70 })
        ∧ ¬ sixty.Added { id := 1, damage := 0, amount := 10 } 0 win' := by
  refine ⟨sixty.put 36 (some { id := 1, damage := 0, amount := 70 }), by rfl, by rfl, ?_⟩
  intro hadded
  exact not_stacked_of_get (i := 36) rfl (.inr (by decide)) hadded.stacked

end Added

end Window

end HCraft
