import QueueWatch.Proofs.SlotTable.Invariant

/-!
# Values do not show in the slots

In which slot an entry stands depends on keys: on its own, and on those of the entries that were
there before. No operation looks at a value. So it makes no difference whether the values of a table
are changed before an operation or after it (`SlotTable.insertKey_mapValues`,
`SlotTable.eraseKey_mapValues`), and tables that differ in values only have the same keys in the
same slots for ever.

This is so for every table, and nothing is assumed of its slots. In a well-formed table each key is
stored once, so to change the value of one key is to change all values by a function that leaves the
others (`WellFormed.modifyKey_eq_mapValues`). A value that is changed right after it was stored might
as well have been stored as it is then (`WellFormed.modifyKey_insertKey`).
-/

namespace QueueWatch

variable {n : Nat} {β : Type}

/-- An entry with its value changed. -/
def changeEntry (change : Key n → β → β) (e : Key n × β) : Key n × β :=
  (e.1, change e.1 e.2)

/-- Changes the value of one key. -/
def changeAt (key : Key n) (f : β → β) : Key n → β → β :=
  fun other value => if other = key then f value else value

theorem changeEntry_changeAt_of_ne {key : Key n} {e : Key n × β} (h : e.1 ≠ key) (f : β → β) :
    changeEntry (changeAt key f) e = e := by
  rw [changeEntry, changeAt, if_neg h]

/-- The end of a walk, with the value that it found changed. -/
def Probe.map (change : β → β) : Probe β → Probe β
  | .found index value => .found index (change value)
  | .vacant index => .vacant index
  | .full => .full

namespace Slots

variable (change : Key n → β → β) (slots : Slots n β) (hash : Key n → UInt64)

/-- The slots with every value changed. -/
def mapValues : Slots n β :=
  slots.map (Option.map (changeEntry change))

@[simp] theorem size_mapValues : (mapValues change slots).size = slots.size :=
  Array.size_map

@[simp] theorem occupant?_mapValues (i : Nat) :
    (mapValues change slots).occupant? i = (slots.occupant? i).map (changeEntry change) := by
  rw [occupant?, occupant?, mapValues, Array.getElem?_map]
  cases slots[i]? <;> rfl

theorem mapValues_write (i : Nat) (slot : Option (Key n × β)) :
    mapValues change (slots.setIfInBounds i slot) =
      (mapValues change slots).setIfInBounds i (slot.map (changeEntry change)) :=
  Array.map_setIfInBounds

theorem probeFrom_mapValues (key : Key n) (index steps : Nat) :
    (mapValues change slots).probeFrom key index steps =
      (slots.probeFrom key index steps).map (change key) := by
  induction steps generalizing index with
  | zero => rfl
  | succ steps ih =>
      rw [probeFrom, probeFrom, occupant?_mapValues, size_mapValues]
      cases slots.occupant? index with
      | none => rfl
      | some e =>
          rcases e with ⟨other, value⟩
          by_cases hkey : other = key
          · simp [changeEntry, hkey, Probe.map]
          · simp [changeEntry, hkey, ih]

theorem probe_mapValues (key : Key n) :
    (mapValues change slots).probe hash key = (slots.probe hash key).map (change key) := by
  rw [probe, probe, size_mapValues, probeFrom_mapValues]

theorem vacancyFrom?_mapValues (index steps : Nat) :
    (mapValues change slots).vacancyFrom? index steps = slots.vacancyFrom? index steps := by
  induction steps generalizing index with
  | zero => rfl
  | succ steps ih =>
      rw [vacancyFrom?, vacancyFrom?, occupant?_mapValues, size_mapValues]
      cases slots.occupant? index with
      | none => rfl
      | some e => exact ih _

theorem place_mapValues (e : Key n × β) :
    (mapValues change slots).place hash (changeEntry change e) =
      mapValues change (slots.place hash e) := by
  have hkey : (changeEntry change e).1 = e.1 := rfl
  rw [place, place, hkey, vacancyFrom?_mapValues, size_mapValues]
  cases slots.vacancyFrom? (home hash slots.size e.1) slots.size with
  | none => rfl
  | some index => exact (mapValues_write change slots index (some e)).symm

theorem foldl_place_mapValues (es : List (Key n × β)) :
    (es.map (changeEntry change)).foldl (place hash) (mapValues change slots) =
      mapValues change (es.foldl (place hash) slots) := by
  induction es generalizing slots with
  | nil => rfl
  | cons e es ih => rw [List.map_cons, List.foldl_cons, List.foldl_cons, place_mapValues, ih]

theorem entries_mapValues :
    (mapValues change slots).entries = slots.entries.map (changeEntry change) := by
  rw [entries, entries, mapValues, Array.toList_map, List.filterMap_map, List.map_filterMap]
  rfl

theorem mapValues_ofCapacity (capacity : Nat) :
    mapValues change (ofCapacity capacity) = ofCapacity capacity :=
  Array.map_replicate

theorem rehash_mapValues (capacity : Nat) :
    (mapValues change slots).rehash hash capacity =
      mapValues change (slots.rehash hash capacity) := by
  rw [rehash, rehash, entries_mapValues, ← foldl_place_mapValues, mapValues_ofCapacity]

theorem closeGapFrom_mapValues (gap index steps : Nat) :
    (mapValues change slots).closeGapFrom hash gap index steps =
      mapValues change (slots.closeGapFrom hash gap index steps) := by
  induction steps generalizing slots gap index with
  | zero => rfl
  | succ steps ih =>
      rw [closeGapFrom, closeGapFrom, occupant?_mapValues, size_mapValues]
      cases slots.occupant? (nextSlot slots.size index) with
      | none => rfl
      | some e =>
          rcases e with ⟨key, value⟩
          by_cases hthrough : cameThrough (home hash slots.size key) gap (nextSlot slots.size index)
          · simp only [Option.map_some, changeEntry, if_pos hthrough]
            rw [← ih, mapValues_write, mapValues_write]
            rfl
          · simp only [Option.map_some, changeEntry, if_neg hthrough]
            exact ih slots gap (nextSlot slots.size index)

theorem closeGap_mapValues (gap : Nat) :
    (mapValues change slots).closeGap hash gap = mapValues change (slots.closeGap hash gap) := by
  rw [closeGap, closeGap, size_mapValues, closeGapFrom_mapValues]

section

variable {slots} {key : Key n}

theorem ext_occupant? {slots' : Slots n β} (hsize : slots.size = slots'.size)
    (h : ∀ i, slots.occupant? i = slots'.occupant? i) : slots = slots' :=
  Array.ext hsize fun i hi hi' => by
    rw [← occupant?_eq_getElem hi, ← occupant?_eq_getElem hi', h]

/-- Where another key is stored, or none, there is nothing to change. -/
theorem map_changeAt_of_ne {i : Nat} (h : slots.key? i ≠ some key) (f : β → β) :
    (slots.occupant? i).map (changeEntry (changeAt key f)) = slots.occupant? i := by
  cases hi : slots.occupant? i with
  | none => rfl
  | some e =>
      have hne : e.1 ≠ key := fun heq => h (heq ▸ key?_of_occupant? hi)
      rw [Option.map_some, changeEntry_changeAt_of_ne hne]

theorem mapValues_changeAt_of_absent (h : ∀ i, slots.key? i ≠ some key) (f : β → β) :
    mapValues (changeAt key f) slots = slots :=
  ext_occupant? (size_mapValues ..) fun i =>
    (occupant?_mapValues ..).trans (map_changeAt_of_ne (h i) f)

/-- A key is stored in one slot only. -/
theorem Distinct.mapValues_changeAt (h : slots.Distinct) {i : Nat} {value : β}
    (hi : slots.occupant? i = some (key, value)) (f : β → β) :
    mapValues (changeAt key f) slots = slots.setIfInBounds i (some (key, f value)) := by
  have hlt := lt_size_of_occupant? hi
  refine ext_occupant? ((size_mapValues ..).trans (Array.size_setIfInBounds ..).symm) fun j => ?_
  rw [occupant?_mapValues, occupant?_write hlt]
  split
  · next hij =>
      rw [← hij, hi, Option.map_some, changeEntry, changeAt, if_pos rfl]
  · next hij =>
      exact map_changeAt_of_ne (fun hj => hij (h i j key (key?_of_occupant? hi) hj)) f

end

end Slots

namespace SlotTable

variable {κ : Type} (change : Key n → β → β) (t : SlotTable κ n β)

theorem size_mapValues : (t.mapValues change).size = t.size := rfl

theorem slots_mapValues : (t.mapValues change).slots = Slots.mapValues change t.slots := rfl

theorem entries_mapValues :
    (t.mapValues change).entries = t.entries.map (changeEntry change) :=
  Slots.entries_mapValues change t.slots

theorem probe_mapValues (key : Key n) :
    (t.mapValues change).probe key = (t.probe key).map (change key) :=
  Slots.probe_mapValues change t.slots t.hasher key

theorem getKey?_mapValues (key : Key n) :
    (t.mapValues change).getKey? key = (t.getKey? key).map (change key) := by
  rw [getKey?, getKey?, probe_mapValues]
  cases t.probe key <;> rfl

theorem double_mapValues : (t.mapValues change).double = t.double.mapValues change := by
  rw [double, double, capacity_mapValues, slots_mapValues]
  exact congrArg
    (fun slots => { t with slots, threshold := t.loadFactor.threshold (t.capacity * 2) })
    (Slots.rehash_mapValues ..)

theorem threshold_mapValues : (t.mapValues change).threshold = t.threshold := rfl

theorem growWithin_mapValues (rounds : Nat) :
    (t.mapValues change).growWithin rounds = (t.growWithin rounds).mapValues change := by
  induction rounds generalizing t with
  | zero => rfl
  | succ rounds ih =>
      rw [growWithin, growWithin, threshold_mapValues, size_mapValues, double_mapValues, ih]
      by_cases hroom : t.size < t.threshold
      · rw [if_pos hroom, if_pos hroom]
      · rw [if_neg hroom, if_neg hroom]

theorem grow_mapValues : (t.mapValues change).grow = t.grow.mapValues change :=
  growWithin_mapValues ..

/-- A write to a slot of a table, before values are changed or after. -/
theorem mapValues_write (index size : Nat) (slot : Option (Key n × β)) :
    ({ t with
        slots := (Slots.mapValues change t.slots).setIfInBounds index
          (slot.map (changeEntry change))
        size } : SlotTable κ n β) =
      mapValues { t with slots := t.slots.setIfInBounds index slot, size } change :=
  congrArg (fun slots => ({ t with slots, size } : SlotTable κ n β))
    (Slots.mapValues_write change t.slots index slot).symm

theorem insertKey_mapValues (key : Key n) (value : β) :
    (t.mapValues change).insertKey key (change key value) =
      ((t.insertKey key value).1.map (change key), (t.insertKey key value).2.mapValues change) := by
  rw [insertKey, insertKey, probe_mapValues]
  cases t.probe key with
  | found index old =>
      exact congrArg (some (change key old), ·)
        (mapValues_write change t index t.size (some (key, value)))
  | vacant index =>
      apply congrArg (none, ·)
      rw [← grow_mapValues]
      exact congrArg grow (mapValues_write change t index (t.size + 1) (some (key, value)))
  | full => rfl

theorem eraseKey_mapValues (key : Key n) :
    (t.mapValues change).eraseKey key =
      ((t.eraseKey key).1.map (change key), (t.eraseKey key).2.mapValues change) := by
  rw [eraseKey, eraseKey, probe_mapValues]
  cases t.probe key with
  | found index old =>
      have hslots : Slots.closeGap t.hasher
          ((Slots.mapValues change t.slots).setIfInBounds index none) index =
          Slots.mapValues change (Slots.closeGap t.hasher (t.slots.setIfInBounds index none)
            index) := by
        rw [← Slots.closeGap_mapValues, Slots.mapValues_write]
        rfl
      exact congrArg
        (fun slots =>
          ((some (change key old), { t with slots, size := t.size - 1 }) :
            Option β × SlotTable κ n β))
        hslots
  | vacant index => rfl
  | full => rfl

/-- The value of a key is changed in one way and all values in another, whichever comes first, if
the two ways agree for this key. -/
theorem modifyKey_mapValues {key : Key n} {f g : β → β}
    (hfg : ∀ value, f (change key value) = change key (g value)) :
    (t.mapValues change).modifyKey key f = (t.modifyKey key g).mapValues change := by
  rw [modifyKey, modifyKey, probe_mapValues]
  cases t.probe key with
  | found index old =>
      dsimp only [Probe.map]
      rw [hfg]
      exact mapValues_write change t index t.size (some (key, g old))
  | vacant index => rfl
  | full => rfl

/-! ### One value -/

variable {t}

/-- To change a value that is stored is to store it changed. -/
theorem modifyKey_eq_insertKey {key : Key n} {old : β} (hget : t.getKey? key = some old)
    (f : β → β) : t.modifyKey key f = (t.insertKey key (f old)).2 := by
  unfold getKey? at hget
  rw [modifyKey, insertKey]
  split at hget
  · cases hget
    rfl
  · cases hget
  · cases hget

/-- In a well-formed table, to change the value of a key is to leave all other values. -/
theorem WellFormed.modifyKey_eq_mapValues (h : t.WellFormed) (key : Key n) (f : β → β) :
    t.modifyKey key f = t.mapValues (changeAt key f) := by
  cases hget : t.getKey? key with
  | none =>
      have habsent := h.getKey?_eq_none_iff.1 hget
      rw [modifyKey_of_getKey?_eq_none hget]
      exact congrArg (fun slots => { t with slots })
        (Slots.mapValues_changeAt_of_absent habsent f).symm
  | some old =>
      obtain ⟨i, hi⟩ := h.getKey?_eq_some_iff.1 hget
      rw [SlotTable.modifyKey, SlotTable.probe, h.chained.probe_of_occupant? hi]
      exact congrArg (fun slots => { t with slots })
        (h.chained.distinct.mapValues_changeAt hi f).symm

/-- A value that is changed as soon as it is stored. -/
theorem WellFormed.modifyKey_insertKey (h : t.WellFormed) {key : Key n}
    (hget : t.getKey? key = none) (value : β) (f : β → β) :
    (t.insertKey key value).2.modifyKey key f = (t.insertKey key (f value)).2 := by
  have hsame : t.mapValues (changeAt key f) = t := by
    rw [← h.modifyKey_eq_mapValues, modifyKey_of_getKey?_eq_none hget]
  have hinsert := insertKey_mapValues (changeAt key f) t key value
  rw [hsame, changeAt, if_pos rfl] at hinsert
  rw [(h.insertKey key value).2.1.modifyKey_eq_mapValues, hinsert]

end SlotTable

end QueueWatch
