import QueueWatch.Proofs.SlotTable.Gap
import QueueWatch.Proofs.SlotTable.Rehash
import QueueWatch.SlotTable.Basic

/-!
# The invariant of a slot table

A table is consistent if its ring is chained, its size is the number of its entries, its capacity is
a power of two that is at least two, and the threshold that it keeps is the one that the load factor
sets for this capacity. It is well-formed if moreover its size is below its threshold; then a slot
is empty, so that probing tells whether a key is stored (`WellFormed.getKey?_eq_some_iff`). Growing
makes a consistent table well-formed, and every operation keeps a table well-formed.

What an operation does is said by what `getKey?` finds afterwards; the entries are, up to their
order, what `getKey?` finds (`WellFormed.entries_perm`).
-/

namespace QueueWatch

namespace SlotTable

open Slots

variable {κ β : Type} {n : Nat} {t : SlotTable κ n β}

/-- The slots of a table are in order, however many of them are occupied. -/
structure Consistent (t : SlotTable κ n β) : Prop where
  chained : Chained t.hasher t.slots
  length_entries : t.entries.length = t.size
  capacity_eq : ∃ k, t.capacity = 2 ^ (k + 1)
  threshold_eq : t.threshold = t.loadFactor.threshold t.capacity

/-- A consistent table that has no need to grow. -/
structure WellFormed (t : SlotTable κ n β) : Prop extends Consistent t where
  size_lt : t.size < t.threshold

theorem Consistent.capacity_pos (h : Consistent t) : 0 < t.capacity := by
  obtain ⟨k, hk⟩ := h.capacity_eq
  rw [hk]
  exact Nat.two_pow_pos _

theorem Consistent.threshold_le (h : Consistent t) : t.threshold ≤ t.capacity := by
  rw [h.threshold_eq]
  exact t.loadFactor.threshold_le h.capacity_pos

/-- The threshold is still right if only the slots change and stay as many as they are. -/
theorem Consistent.threshold_eq_of_size_eq (h : Consistent t) {slots : Slots n β}
    (hsize : slots.size = t.slots.size) : t.threshold = t.loadFactor.threshold slots.size := by
  rw [hsize]
  exact h.threshold_eq

theorem WellFormed.length_entries_lt (h : WellFormed t) :
    t.slots.entries.length < t.slots.size :=
  calc t.slots.entries.length = t.size := h.length_entries
    _ < t.threshold := h.size_lt
    _ ≤ t.slots.size := h.threshold_le

theorem WellFormed.exists_vacant (h : WellFormed t) :
    ∃ i, i < t.slots.size ∧ t.slots.occupant? i = none :=
  Slots.exists_vacant h.length_entries_lt

/-! ### Growing -/

theorem length_entries_le (t : SlotTable κ n β) : t.slots.entries.length ≤ t.capacity * 2 := by
  have hle : t.slots.entries.length ≤ t.slots.toList.length := List.length_filterMap_le ..
  calc t.slots.entries.length ≤ t.slots.toList.length := hle
    _ = t.capacity := Array.length_toList
    _ ≤ t.capacity * 2 := Nat.le_mul_of_pos_right _ Nat.two_pos

theorem Consistent.double (h : Consistent t) :
    Consistent t.double ∧ t.double.entries.Perm t.entries := by
  obtain ⟨hchained, hperm⟩ := h.chained.distinct.rehash t.hasher (length_entries_le t)
  obtain ⟨k, hk⟩ := h.capacity_eq
  refine ⟨⟨hchained, ?_, ⟨k + 1, ?_⟩, ?_⟩, hperm⟩
  · exact hperm.length_eq.trans h.length_entries
  · rw [capacity_double, hk]
    rfl
  · rw [threshold_double, capacity_double]
    rfl

theorem Consistent.growWithin (h : Consistent t) (rounds : Nat) :
    Consistent (t.growWithin rounds) ∧ (t.growWithin rounds).entries.Perm t.entries := by
  induction rounds generalizing t with
  | zero => exact ⟨h, List.Perm.refl _⟩
  | succ rounds ih =>
      rw [SlotTable.growWithin]
      split
      · exact ⟨h, List.Perm.refl _⟩
      · obtain ⟨hdouble, hperm⟩ := h.double
        obtain ⟨hgrown, hperm'⟩ := ih hdouble
        exact ⟨hgrown, hperm'.trans hperm⟩

/-- Doubling stops below the threshold, if it is allowed to go on until there is enough room. -/
theorem Consistent.size_lt_threshold_growWithin (h : Consistent t) (rounds : Nat)
    (hroom : t.size < t.loadFactor.threshold (t.capacity * 2 ^ rounds)) :
    (t.growWithin rounds).size < (t.growWithin rounds).threshold := by
  induction rounds generalizing t with
  | zero =>
      rw [Nat.pow_zero, Nat.mul_one, ← h.threshold_eq] at hroom
      exact hroom
  | succ rounds ih =>
      rw [SlotTable.growWithin]
      split
      · assumption
      · refine ih h.double.1 ?_
        rw [capacity_double, Nat.mul_assoc, ← Nat.pow_succ']
        exact hroom

/-- As often as a table may be doubled is often enough. -/
theorem size_lt_threshold_rounds (h : 0 < t.capacity) :
    t.size < t.loadFactor.threshold
      (t.capacity * 2 ^ (t.loadFactor.shift + Nat.log2 t.size + 1)) := by
  refine t.loadFactor.lt_threshold h ?_
  calc (t.size + 1) * 2 ^ t.loadFactor.shift
      ≤ 2 ^ (Nat.log2 t.size + 1) * 2 ^ t.loadFactor.shift :=
        Nat.mul_le_mul_right _ Nat.lt_log2_self
    _ = 2 ^ (t.loadFactor.shift + Nat.log2 t.size + 1) := by
        rw [← Nat.pow_add]
        congr 1
        omega

theorem Consistent.grow (h : Consistent t) :
    WellFormed t.grow ∧ t.grow.entries.Perm t.entries := by
  obtain ⟨hgrown, hperm⟩ := h.growWithin (t.loadFactor.shift + Nat.log2 t.size + 1)
  have hroom := h.size_lt_threshold_growWithin _ (size_lt_threshold_rounds h.capacity_pos)
  exact ⟨⟨hgrown, hroom⟩, hperm⟩

/-! ### Looking a key up -/

/-- Looking a key up finds what is stored under it. -/
theorem WellFormed.getKey?_eq_some_iff (h : WellFormed t) {key : Key n} {value : β} :
    t.getKey? key = some value ↔ t.slots.Stores key value := by
  constructor
  · intro hget
    have hends := ends_probe t.hasher (show 0 < t.slots.size from h.capacity_pos) key
    unfold getKey? SlotTable.probe at hget
    split at hget
    · rename_i i v hprobe
      rw [hprobe] at hends
      obtain rfl : v = value := by simpa using hget
      exact ⟨i, hends⟩
    · cases hget
    · cases hget
  · intro hx
    rcases hx with ⟨i, hi⟩
    rw [getKey?, SlotTable.probe, h.chained.probe_of_occupant? hi]

theorem WellFormed.getKey?_eq_none_iff (h : WellFormed t) {key : Key n} :
    t.getKey? key = none ↔ ∀ i, t.slots.key? i ≠ some key := by
  rw [← not_exists, exists_key?_iff_exists_stores, Option.eq_none_iff_forall_ne_some, not_exists]
  exact forall_congr' fun value => not_congr h.getKey?_eq_some_iff

/-- A table finds `found` if that is what is stored. -/
theorem WellFormed.getKey?_eq (h : WellFormed t) (found : Key n → Option β)
    (hfound : ∀ key value, t.slots.Stores key value ↔ found key = some value) (key : Key n) :
    t.getKey? key = found key := by
  refine Option.ext fun value => ?_
  rw [h.getKey?_eq_some_iff]
  exact hfound key value

theorem WellFormed.mem_entries (h : WellFormed t) {key : Key n} {value : β} :
    (key, value) ∈ t.entries ↔ t.getKey? key = some value :=
  Slots.mem_entries.trans h.getKey?_eq_some_iff.symm

theorem WellFormed.nodup_keys (h : WellFormed t) : (t.entries.map Prod.fst).Nodup :=
  h.chained.distinct.nodup_keys

/-- The entries are what the table finds. -/
theorem WellFormed.entries_perm (h : WellFormed t) {es : List (Key n × β)} (hes : es.Nodup)
    (hmem : ∀ key value, t.getKey? key = some value ↔ (key, value) ∈ es) : t.entries.Perm es :=
  h.chained.distinct.entries_perm hes fun key value =>
    h.getKey?_eq_some_iff.symm.trans (hmem key value)

/-! ### The operations -/

theorem wellFormed_withHasher (capacity : Nat) (f : LoadFactor) (encoder : κ → Key n)
    (hasher : Key n → UInt64) :
    WellFormed (withHasher capacity f encoder hasher : SlotTable κ n β) where
  chained := chained_ofCapacity hasher _
  length_entries := by
    rw [SlotTable.entries, withHasher, entries_ofCapacity]
    rfl
  capacity_eq := by
    rw [capacity_withHasher, nextPowerOfTwo, if_neg (by omega)]
    exact ⟨_, rfl⟩
  threshold_eq := by
    rw [capacity_withHasher]
    rfl
  size_lt := f.one_le_threshold _

theorem getKey?_withHasher (capacity : Nat) (f : LoadFactor) (encoder : κ → Key n)
    (hasher : Key n → UInt64) (key : Key n) :
    (withHasher capacity f encoder hasher : SlotTable κ n β).getKey? key = none := by
  refine (wellFormed_withHasher capacity f encoder hasher).getKey?_eq (fun _ => none)
    (fun k v => ?_) key
  simp [withHasher, not_stores_ofCapacity]

/-- Only values change if every slot keeps its key. -/
theorem WellFormed.congr (h : WellFormed t) {slots : Slots n β} (hsize : slots.size = t.slots.size)
    (hkey : ∀ i, slots.key? i = t.slots.key? i) : WellFormed { t with slots } where
  chained := h.chained.congr hsize hkey
  length_entries := by
    have hchained := h.chained.congr hsize hkey
    have hkeys : (slots.entries.map Prod.fst).Perm (t.slots.entries.map Prod.fst) := by
      rw [List.perm_ext_iff_of_nodup hchained.distinct.nodup_keys h.chained.distinct.nodup_keys]
      intro key
      rw [← exists_key?_iff_mem_keys, ← exists_key?_iff_mem_keys]
      exact exists_congr fun i => by rw [hkey]
    have hlength := hkeys.length_eq
    rw [List.length_map, List.length_map] at hlength
    exact hlength.trans h.length_entries
  capacity_eq := by
    obtain ⟨k, hk⟩ := h.capacity_eq
    exact ⟨k, hsize.trans hk⟩
  threshold_eq := h.threshold_eq_of_size_eq hsize
  size_lt := h.size_lt

/-- Writing a value under the key that a slot holds. -/
theorem WellFormed.write_same (h : WellFormed t) {i : Nat} {key : Key n}
    (hi : t.slots.key? i = some key) (value : β) :
    WellFormed { t with slots := t.slots.setIfInBounds i (some (key, value)) } ∧
      ∀ k, getKey? { t with slots := t.slots.setIfInBounds i (some (key, value)) } k =
        if key = k then some value else t.getKey? k := by
  have hlt := lt_size_of_key? hi
  have hkey : ∀ j, Slots.key? (t.slots.setIfInBounds i (some (key, value))) j =
      t.slots.key? j := by
    intro j
    rw [key?_write hlt]
    split
    · rename_i hij
      rw [← hij, hi]
      rfl
    · rfl
  have hwell := h.congr (by simp) hkey
  refine ⟨hwell, hwell.getKey?_eq _ fun k v => ?_⟩
  rw [h.chained.distinct.stores_write_same hi]
  split
  · simp
  · exact h.getKey?_eq_some_iff.symm

/-- A key that is not stored is put into the empty slot that its walk finds. -/
theorem WellFormed.fill (h : WellFormed t) {key : Key n} (hget : t.getKey? key = none) (value : β) :
    ∃ i, t.probe key = .vacant i ∧
      Consistent { t with
        slots := t.slots.setIfInBounds i (some (key, value)), size := t.size + 1 } ∧
      (Slots.entries (t.slots.setIfInBounds i (some (key, value)))).Perm
        ((key, value) :: t.slots.entries) := by
  have habsent := h.getKey?_eq_none_iff.1 hget
  obtain ⟨i, hprobe, hi, hvacant, hwalk⟩ := probe_of_absent t.hasher habsent h.exists_vacant
  have hchained := h.chained.write hi hwalk habsent value
  have hperm := h.chained.distinct.entries_write hchained.distinct hi hvacant habsent
  obtain ⟨k, hk⟩ := h.capacity_eq
  have hsize : (t.slots.setIfInBounds i (some (key, value))).size = t.slots.size :=
    Array.size_setIfInBounds ..
  refine ⟨i, hprobe, ⟨hchained, ?_, ⟨k, hsize.trans hk⟩, h.threshold_eq_of_size_eq hsize⟩, hperm⟩
  exact hperm.length_eq.trans (congrArg (· + 1) h.length_entries)

/-- Storing a value gives the value that it replaces, and changes what is found for its key. -/
theorem WellFormed.insertKey (h : WellFormed t) (key : Key n) (value : β) :
    (t.insertKey key value).1 = t.getKey? key ∧ WellFormed (t.insertKey key value).2 ∧
      ∀ k, (t.insertKey key value).2.getKey? k = if key = k then some value else t.getKey? k := by
  cases hget : t.getKey? key with
  | some old =>
      obtain ⟨i, hi⟩ := h.getKey?_eq_some_iff.1 hget
      rw [SlotTable.insertKey, SlotTable.probe, h.chained.probe_of_occupant? hi]
      exact ⟨rfl, h.write_same (key?_of_occupant? hi) value⟩
  | none =>
      obtain ⟨i, hprobe, hadded, hperm⟩ := h.fill hget value
      obtain ⟨hgrown, hperm'⟩ := hadded.grow
      rw [SlotTable.insertKey, hprobe]
      refine ⟨rfl, hgrown, hgrown.getKey?_eq _ fun k v => ?_⟩
      rw [← Slots.mem_entries (e := (k, v))]
      change (k, v) ∈ SlotTable.entries _ ↔ _
      rw [(hperm'.trans hperm).mem_iff, List.mem_cons]
      change _ ∨ (k, v) ∈ t.entries ↔ _
      rw [h.mem_entries]
      split
      · rename_i hkey
        subst hkey
        simp [hget, eq_comm]
      · rename_i hkey
        simp [Ne.symm hkey]

theorem modifyKey_of_getKey?_eq_none {key : Key n} (h : t.getKey? key = none) (change : β → β) :
    t.modifyKey key change = t := by
  unfold getKey? at h
  unfold SlotTable.modifyKey
  cases hprobe : t.probe key with
  | found i value => simp [hprobe] at h
  | vacant i => rfl
  | full => rfl

theorem eraseKey_of_getKey?_eq_none {key : Key n} (h : t.getKey? key = none) :
    t.eraseKey key = (none, t) := by
  unfold getKey? at h
  unfold SlotTable.eraseKey
  cases hprobe : t.probe key with
  | found i value => simp [hprobe] at h
  | vacant i => rfl
  | full => rfl

/-- Changing a value changes what is found for its key, if it is stored. -/
theorem WellFormed.modifyKey (h : WellFormed t) (key : Key n) (change : β → β) :
    WellFormed (t.modifyKey key change) ∧
      ∀ k, (t.modifyKey key change).getKey? k =
        if key = k then (t.getKey? k).map change else t.getKey? k := by
  cases hget : t.getKey? key with
  | some old =>
      obtain ⟨i, hi⟩ := h.getKey?_eq_some_iff.1 hget
      rw [SlotTable.modifyKey, SlotTable.probe, h.chained.probe_of_occupant? hi]
      obtain ⟨hwell, hfound⟩ := h.write_same (key?_of_occupant? hi) (change old)
      refine ⟨hwell, fun k => (hfound k).trans ?_⟩
      split
      · rename_i hkey
        rw [← hkey, hget]
        rfl
      · rfl
  | none =>
      rw [modifyKey_of_getKey?_eq_none hget]
      refine ⟨h, fun k => ?_⟩
      split
      · rename_i hkey
        rw [← hkey, hget]
        rfl
      · rfl

/-- Removing a key gives its value, and takes that key away only. -/
theorem WellFormed.eraseKey (h : WellFormed t) (key : Key n) :
    (t.eraseKey key).1 = t.getKey? key ∧ WellFormed (t.eraseKey key).2 ∧
      ∀ k, (t.eraseKey key).2.getKey? k = if key = k then none else t.getKey? k := by
  cases hget : t.getKey? key with
  | none =>
      rw [eraseKey_of_getKey?_eq_none hget]
      refine ⟨rfl, h, fun k => ?_⟩
      split
      · rename_i hkey
        rw [← hkey, hget]
      · rfl
  | some old =>
      obtain ⟨i, hi⟩ := h.getKey?_eq_some_iff.1 hget
      rw [SlotTable.eraseKey, SlotTable.probe, h.chained.probe_of_occupant? hi]
      obtain ⟨hchained, hperm, hstores⟩ := h.chained.closeGap hi h.exists_vacant
      have hlength := hperm.length_eq.symm.trans h.length_entries
      rw [List.length_cons] at hlength
      have hsize := h.size_lt
      obtain ⟨k, hk⟩ := h.capacity_eq
      have hwell : WellFormed { t with
          slots := closeGap t.hasher (t.slots.setIfInBounds i none) i, size := t.size - 1 } := by
        have hslots : (closeGap t.hasher (t.slots.setIfInBounds i none) i).size = t.slots.size := by
          rw [size_closeGap, Array.size_setIfInBounds]
        refine ⟨⟨hchained, ?_, ⟨k, hslots.trans hk⟩, h.threshold_eq_of_size_eq hslots⟩, ?_⟩
        · exact Nat.eq_sub_of_add_eq hlength
        · exact Nat.lt_of_le_of_lt (Nat.sub_le ..) hsize
      refine ⟨rfl, hwell, hwell.getKey?_eq _ fun k v => ?_⟩
      rw [hstores, ← h.getKey?_eq_some_iff]
      split
      · rename_i hkey
        simp [hkey]
      · rename_i hkey
        simp [Ne.symm hkey]

theorem WellFormed.clear (h : WellFormed t) :
    WellFormed t.clear ∧ ∀ k, t.clear.getKey? k = none := by
  unfold SlotTable.clear
  split
  · rename_i hsize
    refine ⟨h, fun k => ?_⟩
    have hnil : t.entries = [] := List.eq_nil_of_length_eq_zero (h.length_entries.trans hsize)
    refine Option.eq_none_iff_forall_ne_some.2 fun v hv => ?_
    simpa [hnil] using h.mem_entries.2 hv
  · obtain ⟨k, hk⟩ := h.capacity_eq
    have hwell : WellFormed { t with slots := (ofCapacity t.capacity : Slots n β), size := 0 } := by
      have hslots : (ofCapacity t.capacity : Slots n β).size = t.slots.size := size_ofCapacity ..
      refine ⟨⟨chained_ofCapacity .., ?_, ⟨k, hslots.trans hk⟩,
        h.threshold_eq_of_size_eq hslots⟩, Nat.zero_lt_of_lt h.size_lt⟩
      rw [SlotTable.entries, entries_ofCapacity]
      rfl
    refine ⟨hwell, hwell.getKey?_eq (fun _ => none) fun k v => ?_⟩
    simp [not_stores_ofCapacity]

/-- Changing every value changes what is found for every key. -/
theorem WellFormed.mapValues (h : WellFormed t) (change : Key n → β → β) :
    WellFormed (t.mapValues change) ∧
      ∀ k, (t.mapValues change).getKey? k = (t.getKey? k).map (change k) := by
  have hentry : ∀ i, (t.mapValues change).slots.occupant? i =
      (t.slots.occupant? i).map fun e => (e.1, change e.1 e.2) := by
    intro i
    rw [SlotTable.mapValues, occupant?, occupant?, Array.getElem?_map]
    cases t.slots[i]? <;> rfl
  have hkey : ∀ i, (t.mapValues change).slots.key? i = t.slots.key? i := by
    intro i
    rw [key?, key?, hentry, Option.map_map]
    rfl
  have hwell : WellFormed (t.mapValues change) := h.congr (by simp) hkey
  refine ⟨hwell, hwell.getKey?_eq _ fun k v => ?_⟩
  simp only [Stores, hentry, Option.map_eq_some_iff, h.getKey?_eq_some_iff]
  constructor
  · intro hx
    rcases hx with ⟨i, e, hi, heq⟩
    obtain ⟨rfl, rfl⟩ := Prod.mk.inj heq
    exact ⟨e.2, ⟨i, hi⟩, rfl⟩
  · intro hx
    rcases hx with ⟨w, ⟨i, hi⟩, rfl⟩
    exact ⟨i, (k, w), hi, rfl⟩

end SlotTable

end QueueWatch
