import QueueWatch.SlotTable.Key

/-!
# Slots and probing

The entries of a table stand in an array of slots that is used as a ring. Every key has a home slot,
given by its hash. An entry that finds its home occupied moves on to the next slot, and so on; this
walk is probing. An entry can therefore be found by walking from its home until an empty slot.

Removing an entry leaves a gap that would cut such walks short. `closeGap` mends this: it walks on
behind the gap and moves every entry back into it that was on its way through it, until it meets an
empty slot. An entry at `index` came through `gap` exactly if its home does not lie behind `gap` and
up to `index`, counted along the ring (`cameThrough`).

No walk is longer than the ring.
-/

namespace QueueWatch

/-- A ring of slots; each is empty or holds an entry. -/
abbrev Slots (n : Nat) (β : Type) := Array (Option (Key n × β))

/-- How the walk for a key ends. -/
inductive Probe (β : Type) where
  /-- The slot holds the key, with this value. -/
  | found (index : Nat) (value : β)
  /-- The slot is the first empty one. -/
  | vacant (index : Nat)
  /-- Every slot is occupied, and none holds the key. -/
  | full
  deriving DecidableEq, Repr

/-- The slot behind a slot. -/
def nextSlot (capacity index : Nat) : Nat :=
  (index + 1) % capacity

/-- The slot where the walk for a key begins. -/
def home {n : Nat} (hash : Key n → UInt64) (capacity : Nat) (key : Key n) : Nat :=
  (hash key).toNat % capacity

namespace Slots

variable {n : Nat} {β : Type}

def ofCapacity (capacity : Nat) : Slots n β :=
  Array.replicate capacity none

/-- The entry in a slot. -/
def occupant? (slots : Slots n β) (index : Nat) : Option (Key n × β) :=
  slots[index]?.join

/-- Walks on from a slot for at most the given number of steps. -/
def probeFrom (slots : Slots n β) (key : Key n) (index : Nat) : Nat → Probe β
  | 0 => .full
  | steps + 1 =>
      match slots.occupant? index with
      | none => .vacant index
      | some (other, value) =>
          if other = key then .found index value
          else slots.probeFrom key (nextSlot slots.size index) steps

/-- Walks for a key from its home. -/
def probe (slots : Slots n β) (hash : Key n → UInt64) (key : Key n) : Probe β :=
  slots.probeFrom key (home hash slots.size key) slots.size

/-- The first empty slot from a slot on, within the given number of steps. -/
def vacancyFrom? (slots : Slots n β) (index : Nat) : Nat → Option Nat
  | 0 => none
  | steps + 1 =>
      match slots.occupant? index with
      | none => some index
      | some _ => slots.vacancyFrom? (nextSlot slots.size index) steps

/-- Puts an entry whose key no slot holds into the first empty slot from its home on. -/
def place (hash : Key n → UInt64) (slots : Slots n β) (entry : Key n × β) : Slots n β :=
  match slots.vacancyFrom? (home hash slots.size entry.1) slots.size with
  | some index => slots.setIfInBounds index (some entry)
  | none => slots

/-- The entries in the order of their slots. -/
def entries (slots : Slots n β) : List (Key n × β) :=
  slots.toList.filterMap id

/-- The entries in a ring of another capacity, placed in the order of their slots. -/
def rehash (slots : Slots n β) (hash : Key n → UInt64) (capacity : Nat) : Slots n β :=
  slots.entries.foldl (place hash) (ofCapacity capacity)

/-- Whether an entry at `index` with the given home came through the slot `gap`. The walk from the
home to `index` may pass the end of the array or not. -/
def cameThrough (home gap index : Nat) : Bool :=
  (index < home && (home ≤ gap || gap ≤ index)) || (home ≤ gap && gap ≤ index)

/-- Closes the gap at an empty slot, where the walk has come to `index` and may take the given
number of further steps. -/
def closeGapFrom (hash : Key n → UInt64) (slots : Slots n β) (gap index : Nat) :
    Nat → Slots n β
  | 0 => slots
  | steps + 1 =>
      let index := nextSlot slots.size index
      match slots.occupant? index with
      | none => slots
      | some (key, value) =>
          if cameThrough (home hash slots.size key) gap index then
            let moved := (slots.setIfInBounds gap (some (key, value))).setIfInBounds index none
            closeGapFrom hash moved index index steps
          else closeGapFrom hash slots gap index steps

/-- Closes the gap that the removal of an entry has left at a slot. -/
def closeGap (hash : Key n → UInt64) (slots : Slots n β) (gap : Nat) : Slots n β :=
  closeGapFrom hash slots gap gap slots.size

@[simp] theorem size_ofCapacity (capacity : Nat) :
    (ofCapacity capacity : Slots n β).size = capacity := by
  simp [ofCapacity]

@[simp] theorem size_place (hash : Key n → UInt64) (slots : Slots n β) (entry : Key n × β) :
    (slots.place hash entry).size = slots.size := by
  unfold place
  split <;> simp

theorem size_foldl_place (hash : Key n → UInt64) (slots : Slots n β)
    (entries : List (Key n × β)) : (entries.foldl (place hash) slots).size = slots.size := by
  induction entries generalizing slots with
  | nil => rfl
  | cons e es ih => rw [List.foldl_cons, ih, size_place]

@[simp] theorem size_rehash (slots : Slots n β) (hash : Key n → UInt64) (capacity : Nat) :
    (slots.rehash hash capacity).size = capacity := by
  rw [rehash, size_foldl_place, size_ofCapacity]

theorem size_closeGapFrom (hash : Key n → UInt64) (slots : Slots n β) (gap index steps : Nat) :
    (closeGapFrom hash slots gap index steps).size = slots.size := by
  induction steps generalizing slots gap index with
  | zero => rfl
  | succ steps ih =>
      rw [closeGapFrom]
      split
      · rfl
      · split
        · rw [ih]
          simp
        · exact ih ..

@[simp] theorem size_closeGap (hash : Key n → UInt64) (slots : Slots n β) (gap : Nat) :
    (slots.closeGap hash gap).size = slots.size :=
  size_closeGapFrom ..

end Slots

end QueueWatch
