import QueueWatch.SlotTable.LoadFactor
import QueueWatch.SlotTable.Slots

/-!
# Slot tables

A slot table maps keys to values. Keys are known by a binary form of fixed width, which an encoder
produces and a hasher turns into a number; collisions are resolved by probing. The capacity is a
power of two. It is doubled whenever the number of entries reaches the threshold that the load
factor sets, so that a slot is always empty, and it never shrinks.

The order of the entries is that of their slots.
-/

namespace QueueWatch

/-- A map from keys with a binary form of `n` bytes to values. -/
structure SlotTable (κ : Type) (n : Nat) (β : Type) where
  encoder : κ → Key n
  hasher : Key n → UInt64
  loadFactor : LoadFactor
  slots : Slots n β
  /-- The number of entries at which the table grows. It is set when slots are allocated. -/
  threshold : Nat
  /-- The number of entries. -/
  size : Nat

namespace SlotTable

variable {κ β : Type} {n : Nat}

/-- The least power of two that is at least the given number. -/
def nextPowerOfTwo (n : Nat) : Nat :=
  if n ≤ 1 then 1 else 2 ^ (Nat.log2 (n - 1) + 1)

/-- The capacity of a table for which none is given. -/
def standardCapacity : Nat := 8

/-- The empty table with at least the given capacity. -/
def withHasher (capacity : Nat) (loadFactor : LoadFactor) (encoder : κ → Key n)
    (hasher : Key n → UInt64) : SlotTable κ n β where
  encoder := encoder
  hasher := hasher
  loadFactor := loadFactor
  slots := .ofCapacity (nextPowerOfTwo (max 2 capacity))
  threshold := loadFactor.threshold (nextPowerOfTwo (max 2 capacity))
  size := 0

/-- The empty table with at least the given capacity, hashed by folding. -/
def withCapacity (capacity : Nat) (loadFactor : LoadFactor) (encoder : κ → Key n) :
    SlotTable κ n β :=
  withHasher capacity loadFactor encoder foldHash

/-- The empty table of the standard capacity and load factor. -/
def empty (encoder : κ → Key n) : SlotTable κ n β :=
  withCapacity standardCapacity .standard encoder

def capacity (t : SlotTable κ n β) : Nat :=
  t.slots.size

def isEmpty (t : SlotTable κ n β) : Bool :=
  t.size = 0

def encode (t : SlotTable κ n β) (key : κ) : Key n :=
  t.encoder key

def probe (t : SlotTable κ n β) (key : Key n) : Probe β :=
  t.slots.probe t.hasher key

def getKey? (t : SlotTable κ n β) (key : Key n) : Option β :=
  match t.probe key with
  | .found _ value => some value
  | .vacant _ | .full => none

def double (t : SlotTable κ n β) : SlotTable κ n β :=
  { t with
    slots := t.slots.rehash t.hasher (t.capacity * 2)
    threshold := t.loadFactor.threshold (t.capacity * 2) }

/-- Doubles the capacity until the number of entries is below the threshold, at most as often as
given. -/
def growWithin (t : SlotTable κ n β) : Nat → SlotTable κ n β
  | 0 => t
  | rounds + 1 => if t.size < t.threshold then t else t.double.growWithin rounds

/-- Doubles the capacity until the number of entries is below the threshold. The load factor and the
number of entries bound how often that is. -/
def grow (t : SlotTable κ n β) : SlotTable κ n β :=
  t.growWithin (t.loadFactor.shift + Nat.log2 t.size + 1)

/-- Stores a value under a key, and gives the value that it replaces. -/
def insertKey (t : SlotTable κ n β) (key : Key n) (value : β) : Option β × SlotTable κ n β :=
  match t.probe key with
  | .found index old =>
      (some old, { t with slots := t.slots.setIfInBounds index (some (key, value)) })
  | .vacant index =>
      let slots := t.slots.setIfInBounds index (some (key, value))
      (none, { t with slots, size := t.size + 1 }.grow)
  | .full => (none, t)

/-- Changes the value of a key, if the table holds the key. -/
def modifyKey (t : SlotTable κ n β) (key : Key n) (change : β → β) : SlotTable κ n β :=
  match t.probe key with
  | .found index value =>
      { t with slots := t.slots.setIfInBounds index (some (key, change value)) }
  | .vacant _ | .full => t

/-- Removes a key, and gives its value. -/
def eraseKey (t : SlotTable κ n β) (key : Key n) : Option β × SlotTable κ n β :=
  match t.probe key with
  | .found index value =>
      let slots := Slots.closeGap t.hasher (t.slots.setIfInBounds index none) index
      (some value, { t with slots, size := t.size - 1 })
  | .vacant _ | .full => (none, t)

def get? (t : SlotTable κ n β) (key : κ) : Option β :=
  t.getKey? (t.encode key)

def contains (t : SlotTable κ n β) (key : κ) : Bool :=
  (t.get? key).isSome

def insert (t : SlotTable κ n β) (key : κ) (value : β) : Option β × SlotTable κ n β :=
  t.insertKey (t.encode key) value

def modify (t : SlotTable κ n β) (key : κ) (change : β → β) : SlotTable κ n β :=
  t.modifyKey (t.encode key) change

def erase (t : SlotTable κ n β) (key : κ) : Option β × SlotTable κ n β :=
  t.eraseKey (t.encode key)

/-- Removes all entries and keeps the capacity. -/
def clear (t : SlotTable κ n β) : SlotTable κ n β :=
  if t.size = 0 then t else { t with slots := .ofCapacity t.capacity, size := 0 }

/-- The entries in the order of their slots. -/
def entries (t : SlotTable κ n β) : List (Key n × β) :=
  t.slots.entries

/-- Changes every value, given its key. -/
def mapValues (t : SlotTable κ n β) (change : Key n → β → β) : SlotTable κ n β :=
  { t with slots := t.slots.map fun slot => slot.map fun (key, value) => (key, change key value) }

/-- A short description: the number of entries, the capacity and the load factor. -/
def describe (t : SlotTable κ n β) : String :=
  "FixedKeyTable \x7b len: " ++ toString t.size ++ ", capacity: " ++ toString t.capacity ++
    ", load_factor: " ++ t.loadFactor.toSingle.general ++ ", .. \x7d"

theorem le_nextPowerOfTwo (n : Nat) : n ≤ nextPowerOfTwo n := by
  unfold nextPowerOfTwo
  split
  · assumption
  · have := Nat.lt_log2_self (n := n - 1)
    omega

theorem nextPowerOfTwo_eq_two_pow (n : Nat) : ∃ k, nextPowerOfTwo n = 2 ^ k := by
  unfold nextPowerOfTwo
  split
  · exact ⟨0, rfl⟩
  · exact ⟨_, rfl⟩

/-- Half of the least power of two is below the number, so no smaller one would do. -/
theorem nextPowerOfTwo_lt (n : Nat) (h : 2 ≤ n) : nextPowerOfTwo n < 2 * n := by
  unfold nextPowerOfTwo
  split
  · omega
  · have := Nat.log2_self_le (n := n - 1) (by omega)
    rw [Nat.pow_succ]
    omega

@[simp] theorem capacity_withHasher (capacity : Nat) (f : LoadFactor) (encoder : κ → Key n)
    (hasher : Key n → UInt64) :
    (withHasher capacity f encoder hasher : SlotTable κ n β).capacity =
      nextPowerOfTwo (max 2 capacity) := by
  simp [withHasher, SlotTable.capacity]

@[simp] theorem capacity_double (t : SlotTable κ n β) : t.double.capacity = t.capacity * 2 := by
  simp [double, capacity]

@[simp] theorem size_double (t : SlotTable κ n β) : t.double.size = t.size := rfl

@[simp] theorem threshold_double (t : SlotTable κ n β) :
    t.double.threshold = t.loadFactor.threshold (t.capacity * 2) := rfl

@[simp] theorem encoder_growWithin (t : SlotTable κ n β) (rounds : Nat) :
    (t.growWithin rounds).encoder = t.encoder := by
  induction rounds generalizing t with
  | zero => rfl
  | succ rounds ih =>
      rw [growWithin]
      split
      · rfl
      · exact ih _

@[simp] theorem encoder_insertKey (t : SlotTable κ n β) (key : Key n) (value : β) :
    (t.insertKey key value).2.encoder = t.encoder := by
  unfold insertKey
  split <;> simp [grow]

@[simp] theorem encoder_eraseKey (t : SlotTable κ n β) (key : Key n) :
    (t.eraseKey key).2.encoder = t.encoder := by
  unfold eraseKey
  split <;> rfl

@[simp] theorem encoder_modifyKey (t : SlotTable κ n β) (key : Key n) (change : β → β) :
    (t.modifyKey key change).encoder = t.encoder := by
  unfold modifyKey
  split <;> rfl

@[simp] theorem encoder_clear (t : SlotTable κ n β) : t.clear.encoder = t.encoder := by
  unfold clear
  split <;> rfl

@[simp] theorem capacity_eraseKey (t : SlotTable κ n β) (key : Key n) :
    (t.eraseKey key).2.capacity = t.capacity := by
  unfold eraseKey
  split <;> simp [capacity]

@[simp] theorem capacity_modifyKey (t : SlotTable κ n β) (key : Key n) (change : β → β) :
    (t.modifyKey key change).capacity = t.capacity := by
  unfold modifyKey
  split <;> simp [capacity]

@[simp] theorem capacity_clear (t : SlotTable κ n β) : t.clear.capacity = t.capacity := by
  unfold clear
  split <;> simp [capacity]

@[simp] theorem capacity_mapValues (t : SlotTable κ n β) (change : Key n → β → β) :
    (t.mapValues change).capacity = t.capacity := by
  simp [mapValues, capacity]

end SlotTable

end QueueWatch
