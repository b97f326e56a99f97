import Mathlib.Algebra.Order.Floor.Semifield
import Mathlib.Data.Rat.Floor
import Mathlib.Tactic.Ring
import QueueWatch.Proofs.SlotTable.Refinement

/-!
# How the slots of a table are laid out

Whatever calls have been made to a table, its slots are laid out as `Layout` says: the number of
entries is below the threshold, which the load factor sets, and every slot on the way from the home
of an entry to the entry is occupied.

A walk along the ring has no end of its own. It ends because there is an empty slot, so within as
many steps as there are slots (`exists_endsAfter`), and a walk that is allowed more steps comes to
the same end (`probeFrom_of_endsAfter`, `vacancyFrom?_of_endsAfter`). This goes for the walk for a
key, and for the walk that places an entry while the table grows.
-/

namespace QueueWatch

/-- The slot that a walk from `start` has come to after some steps. -/
def slotAfter (capacity start steps : Nat) : Nat :=
  (start + steps) % capacity

section

variable {c s t : Nat}

theorem slotAfter_zero (hs : s < c) : slotAfter c s 0 = s :=
  Nat.mod_eq_of_lt hs

theorem slotAfter_succ (c s steps : Nat) :
    slotAfter c s (steps + 1) = slotAfter c (nextSlot c s) steps := by
  rw [slotAfter, slotAfter, nextSlot, Nat.mod_add_mod, Nat.add_right_comm, Nat.add_assoc]

theorem slotAfter_lt (hs : s < c) (steps : Nat) : slotAfter c s steps < c :=
  Nat.mod_lt _ (Nat.zero_lt_of_lt hs)

theorem slotAfter_distance (hs : s < c) (ht : t < c) : slotAfter c s (distance c s t) = t := by
  unfold slotAfter
  rcases distance_cases c s t with ⟨hle, hd⟩ | ⟨hlt, hd⟩
  · rw [hd, Nat.add_sub_cancel' hle, Nat.mod_eq_of_lt ht]
  · rw [hd, Nat.add_sub_cancel' (Nat.le_add_left_of_le hs.le), Nat.add_mod_right,
      Nat.mod_eq_of_lt ht]

theorem distance_slotAfter (hs : s < c) {steps : Nat} (hsteps : steps < c) :
    distance c s (slotAfter c s steps) = steps := by
  unfold slotAfter
  rcases Nat.lt_or_ge (s + steps) c with hin | hout
  · rw [Nat.mod_eq_of_lt hin, distance, if_pos (Nat.le_add_right s steps), Nat.add_sub_cancel_left]
  · have hback : s + steps - c < s := by omega
    rw [Nat.mod_eq_sub_mod hout, Nat.mod_eq_of_lt (hback.trans hs), distance,
      if_neg (Nat.not_le.2 hback), Nat.sub_add_cancel hout, Nat.add_sub_cancel_left]

end

/-- The end of a walk for a key, by the slot where it ends. -/
def Probe.ofSlot {n : Nat} {β : Type} (index : Nat) : Option (Key n × β) → Probe β
  | none => .vacant index
  | some (_, value) => .found index value

namespace Slots

variable {n : Nat} {β : Type} {hash : Key n → UInt64} {slots : Slots n β} {key : Key n}

/-- The walk from `start` to the first slot of a kind takes a number of steps. -/
structure EndsAfter (slots : Slots n β) (kind : Option (Key n × β) → Prop) (start steps : Nat) :
    Prop where
  last : kind (slots.occupant? (slotAfter slots.size start steps))
  before : ∀ j < steps, ¬kind (slots.occupant? (slotAfter slots.size start j))

/-- The walk for a key ends at a slot that is empty or holds the key. -/
def Settles (key : Key n) (slot : Option (Key n × β)) : Prop :=
  ∀ e ∈ slot, e.1 = key

theorem settles_none (key : Key n) : Settles (β := β) key none := by
  intro e he
  cases he

/-- If an empty slot ends the walk and there is one, the walk does not go round the ring. -/
theorem exists_endsAfter (kind : Option (Key n × β) → Prop) (hkind : kind none) {start : Nat}
    (hstart : start < slots.size) (hvacant : ∃ i, i < slots.size ∧ slots.occupant? i = none) :
    ∃ steps < slots.size, slots.EndsAfter kind start steps := by
  classical
  rcases hvacant with ⟨i, hi, hnone⟩
  have hthere :
      kind (slots.occupant? (slotAfter slots.size start (distance slots.size start i))) := by
    rw [slotAfter_distance hstart hi, hnone]
    exact hkind
  have hsome : ∃ steps, kind (slots.occupant? (slotAfter slots.size start steps)) := ⟨_, hthere⟩
  refine ⟨Nat.find hsome, ?_, Nat.find_spec hsome, fun j hj => Nat.find_min hsome hj⟩
  exact (Nat.find_min' hsome hthere).trans_lt (distance_lt hstart hi)

theorem EndsAfter.next {kind : Option (Key n × β) → Prop} {start steps : Nat}
    (h : slots.EndsAfter kind start (steps + 1)) :
    slots.EndsAfter kind (nextSlot slots.size start) steps := by
  constructor
  · rw [← slotAfter_succ]
    exact h.last
  · intro j hj
    rw [← slotAfter_succ]
    exact h.before (j + 1) (Nat.succ_lt_succ hj)

/-- The walk for a key ends where it should, however many steps it is allowed beyond. -/
theorem probeFrom_of_endsAfter {start steps bound : Nat} (hstart : start < slots.size)
    (h : slots.EndsAfter (Settles key) start steps) (hbound : steps < bound) :
    slots.probeFrom key start bound =
      .ofSlot (slotAfter slots.size start steps)
        (slots.occupant? (slotAfter slots.size start steps)) := by
  induction steps generalizing start bound with
  | zero =>
      obtain ⟨bound, rfl⟩ := Nat.exists_eq_add_one_of_ne_zero hbound.ne_bot
      have hlast := h.last
      rw [slotAfter_zero hstart] at hlast ⊢
      rw [probeFrom]
      cases hslot : slots.occupant? start with
      | none => rfl
      | some e =>
          rw [hslot] at hlast
          have hkey : e.1 = key := hlast e rfl
          simp only [hkey, if_true]
          rfl
  | succ steps ih =>
      obtain ⟨bound, rfl⟩ := Nat.exists_eq_add_one_of_ne_zero hbound.ne_bot
      have hfirst := h.before 0 (Nat.succ_pos steps)
      rw [slotAfter_zero hstart] at hfirst
      rw [probeFrom, slotAfter_succ,
        ← ih (nextSlot_lt hstart) h.next (Nat.lt_of_succ_lt_succ hbound)]
      cases hslot : slots.occupant? start with
      | none =>
          rw [hslot] at hfirst
          exact absurd (settles_none key) hfirst
      | some e =>
          have hkey : e.1 ≠ key := by
            intro hkey
            apply hfirst
            intro e' he'
            rw [hslot] at he'
            cases he'
            exact hkey
          simp only [hkey, if_false]

/-- So does the walk for an empty slot. -/
theorem vacancyFrom?_of_endsAfter {start steps bound : Nat} (hstart : start < slots.size)
    (h : slots.EndsAfter (· = none) start steps) (hbound : steps < bound) :
    slots.vacancyFrom? start bound = some (slotAfter slots.size start steps) := by
  induction steps generalizing start bound with
  | zero =>
      obtain ⟨bound, rfl⟩ := Nat.exists_eq_add_one_of_ne_zero hbound.ne_bot
      have hlast := h.last
      rw [slotAfter_zero hstart] at hlast ⊢
      rw [vacancyFrom?, hlast]
  | succ steps ih =>
      obtain ⟨bound, rfl⟩ := Nat.exists_eq_add_one_of_ne_zero hbound.ne_bot
      have hfirst := h.before 0 (Nat.succ_pos steps)
      rw [slotAfter_zero hstart] at hfirst
      rw [vacancyFrom?, slotAfter_succ,
        ← ih (nextSlot_lt hstart) h.next (Nat.lt_of_succ_lt_succ hbound)]
      cases hslot : slots.occupant? start with
      | none => exact absurd hslot hfirst
      | some e => rfl

/-- The slots on the way from the home of an entry to the entry are occupied. -/
theorem Chained.exists_way (h : Chained hash slots) {i : Nat} {e : Key n × β}
    (hi : slots.occupant? i = some e) :
    ∃ steps < slots.size, slotAfter slots.size (home hash slots.size e.1) steps = i ∧
      ∀ j ≤ steps,
        slots.occupant? (slotAfter slots.size (home hash slots.size e.1) j) ≠ none := by
  have hlt := lt_size_of_occupant? hi
  have hhome := home_lt hash (Nat.zero_lt_of_lt hlt) e.1
  have hdistance := distance_lt hhome hlt
  have hend := slotAfter_distance hhome hlt
  refine ⟨_, hdistance, hend, ?_⟩
  intro j hj
  rcases Nat.lt_or_eq_of_le hj with hj | rfl
  · intro hnone
    refine h.unbroken i e.1 (key?_of_occupant? hi) _ (slotAfter_lt hhome j) ?_
      (key?_eq_none_iff.2 hnone)
    rwa [distance_slotAfter hhome (hj.trans hdistance)]
  · rw [hend, hi]
    exact Option.some_ne_none e

/-! ### Placing entries -/

/-- The walk for an empty slot ends before it is back at the home of the entry. -/
def Finds (hash : Key n → UInt64) (ring : Slots n β) (e : Key n × β) : Prop :=
  ∃ steps < ring.size, ring.EndsAfter (· = none) (home hash ring.size e.1) steps ∧
    ∀ bound > steps, ring.vacancyFrom? (home hash ring.size e.1) bound =
      some (slotAfter ring.size (home hash ring.size e.1) steps)

/-- Entries that are placed one after the other all find an empty slot. -/
def Places (hash : Key n → UInt64) (ring : Slots n β) : List (Key n × β) → Prop
  | [] => True
  | e :: rest => Finds hash ring e ∧ Places hash (place hash ring e) rest

theorem finds_of_vacant (hash : Key n → UInt64)
    (hvacant : ∃ i, i < slots.size ∧ slots.occupant? i = none) (e : Key n × β) :
    Finds hash slots e := by
  rcases hvacant with ⟨i, hi, hnone⟩
  have hhome := home_lt hash (Nat.zero_lt_of_lt hi) e.1
  rcases exists_endsAfter (· = none) rfl hhome ⟨i, hi, hnone⟩ with ⟨steps, hsteps, hends⟩
  refine ⟨steps, hsteps, hends, ?_⟩
  intro bound hbound
  exact vacancyFrom?_of_endsAfter hhome hends hbound

theorem places_of_finds (es : List (Key n × β)) (ring : Slots n β)
    (h : ∀ done e rest, es = done ++ e :: rest → Finds hash (done.foldl (place hash) ring) e) :
    Places hash ring es := by
  induction es generalizing ring with
  | nil => trivial
  | cons e es ih =>
      refine ⟨h [] e es rfl, ih (place hash ring e) ?_⟩
      intro done e' rest heq
      exact h (e :: done) e' rest (congrArg (e :: ·) heq)

/-- A ring into which some of the entries of another one have been placed has an empty slot for the
next one. -/
theorem Distinct.places (h : slots.Distinct) (hash : Key n → UInt64) {capacity : Nat}
    (hroom : slots.entries.length ≤ capacity) :
    Places hash (ofCapacity capacity) slots.entries := by
  refine places_of_finds slots.entries (ofCapacity capacity) ?_
  intro done e rest heq
  obtain ⟨-, hvacant, -⟩ := h.foldl_place_of_entries_eq hash hroom heq
  exact finds_of_vacant hash hvacant e

end Slots

/-- The share of the slots that may be occupied, as a number. -/
def LoadFactor.value (f : LoadFactor) : ℚ :=
  f.mantissa / 2 ^ f.shift

theorem LoadFactor.threshold_eq_floor (f : LoadFactor) (capacity : Nat) :
    f.threshold capacity = max 1 ⌊(capacity : ℚ) * f.value⌋₊ := by
  have hfloor := Nat.floor_div_eq_div (K := ℚ) (capacity * f.mantissa) (2 ^ f.shift)
  push_cast at hfloor
  rw [LoadFactor.threshold, LoadFactor.value, ← mul_div_assoc, hfloor]

theorem LoadFactor.two_pow_mul_value (f : LoadFactor) (k : ℕ) :
    ((2 ^ k : ℕ) : ℚ) * f.value = f.mantissa * (2 : ℚ) ^ ((k : ℤ) - f.shift) := by
  rw [LoadFactor.value, zpow_sub₀ two_ne_zero, zpow_natCast, zpow_natCast]
  push_cast
  ring

namespace SlotTable

open Slots

variable {κ β : Type} {n : Nat} {t : SlotTable κ n β}

/-! ### Calls -/

theorem hasher_loadFactor_growWithin (t : SlotTable κ n β) (rounds : Nat) :
    (t.growWithin rounds).hasher = t.hasher ∧ (t.growWithin rounds).loadFactor = t.loadFactor := by
  induction rounds generalizing t with
  | zero => exact ⟨rfl, rfl⟩
  | succ rounds ih =>
      rw [growWithin]
      split
      · exact ⟨rfl, rfl⟩
      · exact ih t.double

theorem hasher_loadFactor_insertKey (t : SlotTable κ n β) (key : Key n) (value : β) :
    (t.insertKey key value).2.hasher = t.hasher ∧
      (t.insertKey key value).2.loadFactor = t.loadFactor := by
  unfold insertKey
  split
  · exact ⟨rfl, rfl⟩
  · exact hasher_loadFactor_growWithin _ _
  · exact ⟨rfl, rfl⟩

theorem hasher_loadFactor_modifyKey (t : SlotTable κ n β) (key : Key n) (change : β → β) :
    (t.modifyKey key change).hasher = t.hasher ∧
      (t.modifyKey key change).loadFactor = t.loadFactor := by
  unfold modifyKey
  split <;> exact ⟨rfl, rfl⟩

theorem hasher_loadFactor_eraseKey (t : SlotTable κ n β) (key : Key n) :
    (t.eraseKey key).2.hasher = t.hasher ∧ (t.eraseKey key).2.loadFactor = t.loadFactor := by
  unfold eraseKey
  split <;> exact ⟨rfl, rfl⟩

theorem hasher_loadFactor_clear (t : SlotTable κ n β) :
    t.clear.hasher = t.hasher ∧ t.clear.loadFactor = t.loadFactor := by
  unfold SlotTable.clear
  split <;> exact ⟨rfl, rfl⟩

/-- No call breaks the invariant, and none changes the hasher or the load factor. -/
theorem WellFormed.call (h : t.WellFormed) (c : TableCall κ n β) :
    (t.call c).2.WellFormed ∧ (t.call c).2.hasher = t.hasher ∧
      (t.call c).2.loadFactor = t.loadFactor := by
  cases c with
  | insert key value =>
      exact ⟨(h.insertKey _ value).2.1, hasher_loadFactor_insertKey t _ value⟩
  | insertKey key value =>
      exact ⟨(h.insertKey key value).2.1, hasher_loadFactor_insertKey t key value⟩
  | modify key change =>
      exact ⟨(h.modifyKey _ change).1, hasher_loadFactor_modifyKey t _ change⟩
  | modifyKey key change =>
      exact ⟨(h.modifyKey key change).1, hasher_loadFactor_modifyKey t key change⟩
  | erase key => exact ⟨(h.eraseKey _).2.1, hasher_loadFactor_eraseKey t _⟩
  | eraseKey key => exact ⟨(h.eraseKey key).2.1, hasher_loadFactor_eraseKey t key⟩
  | clear => exact ⟨h.clear.1, hasher_loadFactor_clear t⟩
  | mapValues change => exact ⟨(h.mapValues change).1, rfl, rfl⟩
  | get | getKey | contains | entries | size | isEmpty => exact ⟨h, rfl, rfl⟩

theorem WellFormed.run (h : t.WellFormed) (cs : List (TableCall κ n β)) :
    (t.run cs).2.WellFormed ∧ (t.run cs).2.hasher = t.hasher ∧
      (t.run cs).2.loadFactor = t.loadFactor := by
  induction cs generalizing t with
  | nil => exact ⟨h, rfl, rfl⟩
  | cons c cs ih =>
      rcases h.call c with ⟨hnext, hhasher, hfactor⟩
      rcases ih hnext with ⟨hlast, hhasher', hfactor'⟩
      exact ⟨hlast, hhasher'.trans hhasher, hfactor'.trans hfactor⟩

/-! ### The layout -/

/-- How the entries of a table with the given hasher and load factor lie in its slots. The threshold
comes from a product that has the mantissa of the load factor, so it needs no rounding. -/
structure Layout (hasher : Key n → UInt64) (f : LoadFactor) (t : SlotTable κ n β) : Prop where
  capacity_eq : ∃ k, t.capacity = 2 ^ (k + 1)
  size_eq : t.size = t.slots.toList.countP Option.isSome
  threshold_eq : t.threshold = max 1 ⌊(t.capacity : ℚ) * f.value⌋₊
  product_eq : ∀ k : ℕ, t.capacity = 2 ^ k →
    (t.capacity : ℚ) * f.value = f.mantissa * (2 : ℚ) ^ ((k : ℤ) - f.shift)
  size_lt : t.size < t.threshold
  threshold_le : t.threshold ≤ t.capacity
  vacant : ∃ i < t.capacity, t.slots.occupant? i = none
  distinct : ∀ i j e e', t.slots.occupant? i = some e → t.slots.occupant? j = some e' →
    e.1 = e'.1 → i = j
  way : ∀ i e, t.slots.occupant? i = some e →
    ∃ steps < t.capacity, slotAfter t.capacity (home hasher t.capacity e.1) steps = i ∧
      ∀ j ≤ steps, t.slots.occupant? (slotAfter t.capacity (home hasher t.capacity e.1) j) ≠ none

theorem WellFormed.layout (h : t.WellFormed) : Layout t.hasher t.loadFactor t where
  capacity_eq := h.capacity_eq
  size_eq := by
    rw [← h.length_entries, SlotTable.entries, Slots.entries, List.length_filterMap_eq_countP]
    rfl
  threshold_eq := by rw [h.threshold_eq, LoadFactor.threshold_eq_floor]
  product_eq k hk := by rw [hk, LoadFactor.two_pow_mul_value]
  size_lt := h.size_lt
  threshold_le := h.threshold_le
  vacant := h.exists_vacant
  distinct i j e e' hi hj hkey := by
    have hj' : t.slots.key? j = some e'.1 := key?_of_occupant? hj
    rw [← hkey] at hj'
    exact h.chained.distinct i j e.1 (key?_of_occupant? hi) hj'
  way _ _ hi := h.chained.exists_way hi

/-- The walk for a key ends, whether the key is stored or not. -/
theorem WellFormed.exists_endsAfter_probe (h : t.WellFormed) (key : Key n) :
    ∃ steps < t.capacity,
      t.slots.EndsAfter (Settles key) (home t.hasher t.capacity key) steps ∧
        ∀ bound > steps,
          t.slots.probeFrom key (home t.hasher t.capacity key) bound = t.probe key := by
  have hhome := home_lt t.hasher h.capacity_pos key
  rcases exists_endsAfter (Settles key) (settles_none key) hhome h.exists_vacant with
    ⟨steps, hsteps, hends⟩
  refine ⟨steps, hsteps, hends, ?_⟩
  intro bound hbound
  rw [probeFrom_of_endsAfter hhome hends hbound]
  exact (probeFrom_of_endsAfter hhome hends hsteps).symm

theorem Consistent.iterate_double (h : t.Consistent) (rounds : Nat) :
    (SlotTable.double^[rounds] t).Consistent ∧ (SlotTable.double^[rounds] t).hasher = t.hasher := by
  induction rounds with
  | zero => exact ⟨h, rfl⟩
  | succ rounds ih =>
      rw [Function.iterate_succ_apply']
      exact ⟨ih.1.double.1, ih.2⟩

theorem Consistent.places (h : t.Consistent) :
    Places t.hasher (ofCapacity (t.capacity * 2)) t.entries :=
  h.chained.distinct.places t.hasher (length_entries_le t)

/-- After any calls to a new table its slots are laid out as they should be. So the walk for any key
ends within as many steps as there are slots, and its bound does not matter. While the table grows
to make room for a new entry, doubling its slots as often as it may, each entry that is placed finds
an empty slot within as many steps as there are slots then. -/
theorem layout_run (capacity : Nat) (f : LoadFactor) (encoder : κ → Key n)
    (hasher : Key n → UInt64) (cs : List (TableCall κ n β)) :
    let t := ((withHasher capacity f encoder hasher : SlotTable κ n β).run cs).2
    Layout hasher f t ∧
    (∀ key, ∃ steps < t.capacity,
      t.slots.EndsAfter (Settles key) (home hasher t.capacity key) steps ∧
        ∀ bound > steps, t.slots.probeFrom key (home hasher t.capacity key) bound = t.probe key) ∧
    (∀ key value index, t.probe key = .vacant index → ∀ rounds,
      let filled : SlotTable κ n β :=
        { t with
          slots := t.slots.setIfInBounds index (some (key, value))
          size := t.size + 1 }
      let grown := double^[rounds] filled
      Places hasher (ofCapacity (grown.capacity * 2)) grown.entries) := by
  intro t
  have hrun : t.WellFormed ∧ t.hasher = hasher ∧ t.loadFactor = f :=
    (wellFormed_withHasher capacity f encoder hasher).run cs
  clear_value t
  rcases hrun with ⟨hwell, rfl, rfl⟩
  refine ⟨hwell.layout, hwell.exists_endsAfter_probe, ?_⟩
  intro key value index hprobe rounds filled grown
  have habsent : t.getKey? key = none := by
    rw [getKey?, hprobe]
  rcases hwell.fill habsent value with ⟨i, hi, hfilled, _⟩
  obtain rfl : index = i := Probe.vacant.inj (hprobe.symm.trans hi)
  rcases hfilled.iterate_double rounds with ⟨hgrown, hhasher⟩
  have hplaces := hgrown.places
  rw [hhasher] at hplaces
  exact hplaces

end SlotTable

end QueueWatch
