import QueueWatch.Proofs.SlotTable.Entries
import QueueWatch.Proofs.SlotTable.Ring

/-!
# Chains of entries

A ring is chained if no key stands in two slots and the walk from the home of a stored key to its
slot meets no empty slot, so that every empty slot lies behind the key (`Reachable.vacant_behind`).
In such a ring probing finds every stored key (`Chained.probe_of_occupant?`), and for any other key
it finds the empty slot where the key belongs, if there is an empty slot (`probe_of_absent`).
Filling that slot keeps the ring chained (`Chained.write`), and so does every change of values alone
(`Chained.congr`).
-/

namespace QueueWatch

theorem home_lt {n : Nat} (hash : Key n → UInt64) {capacity : Nat} (h : 0 < capacity)
    (key : Key n) : home hash capacity key < capacity :=
  Nat.mod_lt _ h

namespace Slots

variable {n : Nat} {β : Type} {hash : Key n → UInt64} {slots : Slots n β} {key : Key n}

/-- No slot from `start` on and before `stop` is empty. -/
def Unbroken (slots : Slots n β) (start stop : Nat) : Prop :=
  ∀ j < slots.size, distance slots.size start j < distance slots.size start stop →
    slots.key? j ≠ none

/-- Every key can be reached from its home. -/
def Reachable (hash : Key n → UInt64) (slots : Slots n β) : Prop :=
  ∀ i key, slots.key? i = some key → slots.Unbroken (home hash slots.size key) i

instance (hash : Key n → UInt64) (slots : Slots n β) : Decidable (Reachable hash slots) :=
  decidable_of_iff
    (∀ i < slots.size, ∀ key ∈ slots.key? i, ∀ j < slots.size,
      distance slots.size (home hash slots.size key) j <
        distance slots.size (home hash slots.size key) i → slots.key? j ≠ none)
    ⟨fun h i key hi => h i (lt_size_of_key? hi) key hi, fun h i _ key hi => h i key hi⟩

/-- Every key stands in one slot only and can be reached from its home. -/
structure Chained (hash : Key n → UInt64) (slots : Slots n β) : Prop where
  distinct : slots.Distinct
  unbroken : ∀ i key, slots.key? i = some key → slots.Unbroken (home hash slots.size key) i

theorem Chained.reachable (h : Chained hash slots) : Reachable hash slots :=
  h.unbroken

/-- The walk to a key comes to no empty slot before. -/
theorem Reachable.vacant_behind (h : Reachable hash slots) {i j : Nat}
    (hi : slots.key? i = some key) (hj : j < slots.size) (hnone : slots.key? j = none) :
    distance slots.size (home hash slots.size key) i <
      distance slots.size (home hash slots.size key) j := by
  have hhome := home_lt hash (Nat.zero_lt_of_lt hj) key
  have hle : ¬ distance slots.size (home hash slots.size key) j <
      distance slots.size (home hash slots.size key) i := fun hless => h i key hi j hj hless hnone
  refine Nat.lt_of_le_of_ne (Nat.le_of_not_lt hle) fun heq => ?_
  exact ne_of_key? hnone hi (eq_of_distance_eq hhome (lt_size_of_key? hi) hj heq).symm

/-! ### The walk for a key -/

/-- The first `count` slots from `start` on hold other keys. -/
def Passed (slots : Slots n β) (key : Key n) (start count : Nat) : Prop :=
  ∀ j < slots.size, distance slots.size start j < count →
    ∃ other, other ≠ key ∧ slots.key? j = some other

theorem Passed.unbroken {start stop : Nat}
    (h : slots.Passed key start (distance slots.size start stop)) : slots.Unbroken start stop := by
  intro j hj hlt
  obtain ⟨other, -, hother⟩ := h j hj hlt
  simp [hother]

theorem Passed.succ {start index : Nat} (hstart : start < slots.size) (hindex : index < slots.size)
    (h : slots.Passed key start (distance slots.size start index)) {other : Key n}
    (hne : other ≠ key) (hother : slots.key? index = some other) :
    slots.Passed key start (distance slots.size start index + 1) := by
  intro j hj hlt
  rcases Nat.lt_succ_iff_lt_or_eq.1 hlt with hlt | heq
  · exact h j hj hlt
  · rw [eq_of_distance_eq hstart hj hindex heq]
    exact ⟨other, hne, hother⟩

/-- What the end of the walk for a key says about the slots. -/
def Ends (slots : Slots n β) (key : Key n) (start : Nat) : Probe β → Prop
  | .found i value => slots.occupant? i = some (key, value)
  | .vacant i =>
      i < slots.size ∧ slots.occupant? i = none ∧
        slots.Passed key start (distance slots.size start i)
  | .full => slots.Passed key start slots.size

/-- The walk ends as it says, where `count` slots have been passed and `index` is the next one. -/
theorem ends_probeFrom {start : Nat} (hstart : start < slots.size) (steps : Nat) :
    ∀ index count, count + steps = slots.size →
      (0 < steps → index < slots.size ∧ distance slots.size start index = count) →
      slots.Passed key start count → slots.Ends key start (slots.probeFrom key index steps) := by
  induction steps with
  | zero =>
      intro index count hcount _ hpassed
      rw [probeFrom]
      rwa [show count = slots.size by omega] at hpassed
  | succ steps ih =>
      intro index count hcount hindex hpassed
      obtain ⟨hlt, rfl⟩ := hindex (Nat.succ_pos _)
      rw [probeFrom]
      split
      · rename_i hvacant
        exact ⟨hlt, hvacant, hpassed⟩
      · rename_i other value hentry
        split
        · rename_i heq
          subst heq
          exact hentry
        · rename_i hne
          have hpassed := hpassed.succ hstart hlt hne (key?_of_occupant? hentry)
          refine ih _ _ (by omega) (fun hsteps => ⟨nextSlot_lt hlt, ?_⟩) hpassed
          refine distance_nextSlot hstart hlt ?_
          intro hclosed
          have hback := distance_cases slots.size start index
          have hnext := nextSlot_cases hlt
          omega

theorem ends_probe (hash : Key n → UInt64) (hsize : 0 < slots.size) (key : Key n) :
    slots.Ends key (home hash slots.size key) (slots.probe hash key) := by
  refine ends_probeFrom (home_lt hash hsize key) _ _ 0 (by omega) ?_ ?_
  · intro _
    exact ⟨home_lt hash hsize key, distance_self ..⟩
  · intro j _ hlt
    exact absurd hlt (Nat.not_lt_zero _)

/-- Probing finds a stored key. -/
theorem Chained.probe_of_occupant? (h : Chained hash slots) {i : Nat} {value : β}
    (hi : slots.occupant? i = some (key, value)) : slots.probe hash key = .found i value := by
  have hlt := lt_size_of_occupant? hi
  have hkey := key?_of_occupant? hi
  have hhome := home_lt hash (Nat.zero_lt_of_lt hlt) key
  have hends := ends_probe hash (Nat.zero_lt_of_lt hlt) key
  cases hprobe : slots.probe hash key with
  | found j w =>
      rw [hprobe] at hends
      obtain rfl := h.distinct j i key (key?_of_occupant? hends) hkey
      rw [show slots.occupant? j = some (key, w) from hends] at hi
      simpa using hi
  | vacant j =>
      rw [hprobe] at hends
      obtain ⟨hj, hvacant, hpassed⟩ := hends
      have hbehind := h.reachable.vacant_behind hkey hj (key?_eq_none_iff.2 hvacant)
      obtain ⟨other, hne, hother⟩ := hpassed i hlt hbehind
      rw [hkey] at hother
      exact absurd (Option.some.inj hother).symm hne
  | full =>
      rw [hprobe] at hends
      obtain ⟨other, hne, hother⟩ := hends i hlt (distance_lt hhome hlt)
      rw [hkey] at hother
      exact absurd (Option.some.inj hother).symm hne

/-- Probing for a key that is not stored finds the empty slot where it belongs. -/
theorem probe_of_absent (hash : Key n → UInt64) (habsent : ∀ i, slots.key? i ≠ some key)
    (hvacant : ∃ i, i < slots.size ∧ slots.occupant? i = none) :
    ∃ i, slots.probe hash key = .vacant i ∧ i < slots.size ∧ slots.occupant? i = none ∧
      slots.Unbroken (home hash slots.size key) i := by
  obtain ⟨e, he, hnone⟩ := hvacant
  have hsize := Nat.zero_lt_of_lt he
  have hends := ends_probe hash hsize key
  cases hprobe : slots.probe hash key with
  | found i value =>
      rw [hprobe] at hends
      exact absurd (key?_of_occupant? hends) (habsent i)
  | vacant i =>
      rw [hprobe] at hends
      obtain ⟨hi, hentry, hpassed⟩ := hends
      exact ⟨i, rfl, hi, hentry, hpassed.unbroken⟩
  | full =>
      rw [hprobe] at hends
      obtain ⟨other, -, hother⟩ := hends e he (distance_lt (home_lt hash hsize key) he)
      rw [key?_eq_none_iff.2 hnone] at hother
      cases hother

/-! ### Changes that keep a ring chained -/

/-- Only the keys matter. -/
theorem Chained.congr {slots' : Slots n β} (h : Chained hash slots)
    (hsize : slots'.size = slots.size) (hkey : ∀ i, slots'.key? i = slots.key? i) :
    Chained hash slots' where
  distinct i j key hi hj := by
    rw [hkey] at hi hj
    exact h.distinct i j key hi hj
  unbroken i key hi := by
    intro j hj hlt
    rw [hsize] at hj hlt
    rw [hkey] at hi ⊢
    exact h.unbroken i key hi j hj hlt

/-- A new key can be put where an unbroken walk from its home ends. -/
theorem Chained.write (h : Chained hash slots) {i : Nat} (hi : i < slots.size)
    (hwalk : slots.Unbroken (home hash slots.size key) i)
    (habsent : ∀ j, slots.key? j ≠ some key) (value : β) :
    Chained hash (slots.setIfInBounds i (some (key, value))) where
  distinct := by
    intro j k other hj hk
    rw [key?_write hi] at hj hk
    split at hj <;> split at hk
    · omega
    · obtain rfl : key = other := by simpa using hj
      exact absurd hk (habsent k)
    · obtain rfl : key = other := by simpa using hk
      exact absurd hj (habsent j)
    · exact h.distinct j k other hj hk
  unbroken := by
    intro j other hj k hk hlt
    rw [Array.size_setIfInBounds] at hk hlt
    rw [key?_write hi] at hj ⊢
    split
    · simp
    · split at hj
      · rename_i hij
        subst hij
        obtain rfl : key = other := by simpa using hj
        exact hwalk k hk hlt
      · exact h.unbroken j other hj k hk hlt

theorem chained_ofCapacity (hash : Key n → UInt64) (capacity : Nat) :
    Chained hash (ofCapacity capacity : Slots n β) where
  distinct := distinct_ofCapacity capacity
  unbroken i key hi := by
    obtain ⟨value, hi⟩ := key?_eq_some_iff.1 hi
    exact absurd ⟨i, hi⟩ (not_stores_ofCapacity capacity key value)

end Slots

end QueueWatch
