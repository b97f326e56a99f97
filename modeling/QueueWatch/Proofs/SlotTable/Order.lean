import QueueWatch.Proofs.SlotTable.Capacity

/-!
# The order of keys with a common home

Keys with a common home stand one behind another on the walk from there, and a lookup meets them in
that order. `MetFirst` says which of two keys is met first.

A table that grows places its entries anew, in the order of their slots. An entry that is placed
comes to stand behind all those with its home that have been placed before
(`Distinct.metFirst_rehash`). So two keys keep their order, unless the walk from their old home
passes the end of the array between them: then the later one has the lower slot, is placed first,
and is met first from then on (`Chained.orderKept_rehash`). A table that already holds a key doubles
only once when it grows (`WellFormed.insertKey_eq_double`), so there is no second doubling that
could turn them back.
-/

namespace QueueWatch

namespace Slots

variable {n : Nat} {β : Type} {hash : Key n → UInt64} {slots : Slots n β} {a b : Key n}
  {rel : Nat → Nat → Prop}

/-- The slots of two keys are related. -/
def Stand (slots : Slots n β) (rel : Nat → Nat → Prop) (a b : Key n) : Prop :=
  ∃ i j, slots.key? i = some a ∧ slots.key? j = some b ∧ rel i j

/-- On the walk from the home of `a`, the key `a` is met before `b`. -/
def MetFirst (hash : Key n → UInt64) (slots : Slots n β) (a b : Key n) : Prop :=
  let start := home hash slots.size a
  slots.Stand (fun i j => distance slots.size start i < distance slots.size start j) a b

/-- The walk from the home of `a` comes to `a` before the end of the array, and to `b` behind it. -/
def SplitByEnd (hash : Key n → UInt64) (slots : Slots n β) (a b : Key n) : Prop :=
  let start := home hash slots.size a
  slots.Stand (fun i j => j < start ∧ start ≤ i) a b

/-- Two keys with a common home in both rings are met in the same order in both, unless the end of
the array comes between them in the old ring. Then they are met the other way round. -/
def OrderKeptUnlessSplit (hash : Key n → UInt64) (old new : Slots n β) : Prop :=
  ∀ a b, home hash old.size a = home hash old.size b → home hash new.size a = home hash new.size b →
    old.MetFirst hash a b →
    (new.MetFirst hash a b ↔ ¬ old.SplitByEnd hash a b) ∧
      (new.MetFirst hash b a ↔ old.SplitByEnd hash a b)

instance [∀ i j, Decidable (rel i j)] : Decidable (slots.Stand rel a b) :=
  decidable_of_iff
    (∃ i < slots.size, ∃ j < slots.size, slots.key? i = some a ∧ slots.key? j = some b ∧ rel i j)
    ⟨fun ⟨i, _, j, _, h⟩ => ⟨i, j, h⟩,
      fun ⟨i, j, hi, hj, h⟩ => ⟨i, lt_size_of_key? hi, j, lt_size_of_key? hj, hi, hj, h⟩⟩

instance : Decidable (MetFirst hash slots a b) :=
  inferInstanceAs (Decidable (slots.Stand _ a b))

instance : Decidable (SplitByEnd hash slots a b) :=
  inferInstanceAs (Decidable (slots.Stand _ a b))

theorem Distinct.stand_iff (h : slots.Distinct) {i j : Nat} (hi : slots.key? i = some a)
    (hj : slots.key? j = some b) : slots.Stand rel a b ↔ rel i j := by
  constructor
  · rintro ⟨i', j', hi', hj', hrel⟩
    obtain rfl := h i i' a hi hi'
    obtain rfl := h j j' b hj hj'
    exact hrel
  · exact fun hrel => ⟨i, j, hi, hj, hrel⟩

/-- Of two keys with a common home, only one is met first. -/
theorem MetFirst.asymm (h : slots.MetFirst hash a b) (hdistinct : slots.Distinct)
    (hhome : home hash slots.size a = home hash slots.size b) : ¬ slots.MetFirst hash b a := by
  intro h'
  obtain ⟨i, j, hi, hj, hlt⟩ := h
  have hlt' := (hdistinct.stand_iff hj hi).1 h'
  rw [← hhome] at hlt'
  exact Nat.lt_asymm hlt hlt'

theorem MetFirst.ne (h : slots.MetFirst hash a b) (hdistinct : slots.Distinct) : a ≠ b := by
  rintro rfl
  exact h.asymm hdistinct rfl h

/-- Placing entries leaves the order of the others as it is. -/
theorem MetFirst.foldl_place (h : slots.MetFirst hash a b) (es : List (Key n × β)) :
    MetFirst hash (es.foldl (place hash) slots) a b := by
  obtain ⟨i, j, hi, hj, hlt⟩ := h
  refine ⟨i, j, key?_foldl_place hi es, key?_foldl_place hj es, ?_⟩
  rwa [size_foldl_place]

/-- On the walk from its home, a key of the ring is met before a key that is placed later. -/
theorem Chained.metFirst_place (h : Chained hash slots) (ha : ∃ i, slots.key? i = some a)
    (hb : ∀ i, slots.key? i ≠ some b)
    (hvacant : ∃ i, i < slots.size ∧ slots.occupant? i = none) (value : β) :
    (slots.place hash (b, value)).MetFirst hash a b := by
  obtain ⟨i, hi⟩ := ha
  obtain ⟨j, hj, hnone, -, hplace⟩ := place_eq_write hash hb hvacant value
  rw [← key?_eq_none_iff] at hnone
  rw [hplace]
  refine ⟨i, j, ?_, ?_, ?_⟩
  · rw [key?_write hj, if_neg (ne_of_key? hnone hi), hi]
  · rw [key?_write hj, if_pos rfl]
    rfl
  · -- The walk to `a` meets no empty slot, so the one that `b` is put into lies behind `a`.
    rw [Array.size_setIfInBounds]
    exact h.reachable.vacant_behind hi hj hnone

/-- In a ring of another capacity, a key is met before those that have had higher slots. -/
theorem Distinct.metFirst_rehash (h : slots.Distinct) (hash : Key n → UInt64) {capacity : Nat}
    (hroom : slots.entries.length ≤ capacity) {i j : Nat} (hij : i < j)
    (hi : slots.key? i = some a) (hj : slots.key? j = some b) :
    (slots.rehash hash capacity).MetFirst hash a b := by
  obtain ⟨v, hi⟩ := key?_eq_some_iff.1 hi
  obtain ⟨w, hj⟩ := key?_eq_some_iff.1 hj
  obtain ⟨done, rest, heq, hdone⟩ := exists_entries_eq hij hi hj
  obtain ⟨hchained, hvacant, hperm, hb⟩ := h.foldl_place_of_entries_eq hash hroom heq
  have ha := (hperm.map Prod.fst).mem_iff.2 (List.mem_map_of_mem hdone)
  rw [Slots.rehash, heq, List.foldl_append, List.foldl_cons]
  have hplaced := hchained.metFirst_place (exists_key?_iff_mem_keys.2 ha) hb hvacant w
  exact hplaced.foldl_place rest

theorem Chained.orderKept_rehash (h : Chained hash slots) {capacity : Nat}
    (hroom : slots.entries.length ≤ capacity) :
    OrderKeptUnlessSplit hash slots (slots.rehash hash capacity) := by
  rintro a b hold hnew ⟨i, j, hi, hj, hlt⟩
  have hdistinct := (h.distinct.rehash hash hroom).1.distinct
  have hsplit : slots.SplitByEnd hash a b ↔ j < i :=
    (h.distinct.stand_iff hi hj).trans (passes_end_iff hlt)
  rw [hsplit]
  rcases Nat.lt_trichotomy i j with hij | rfl | hji
  · have hmet := h.distinct.metFirst_rehash hash hroom hij hi hj
    exact ⟨iff_of_true hmet (Nat.lt_asymm hij),
      iff_of_false (hmet.asymm hdistinct hnew) (Nat.lt_asymm hij)⟩
  · exact absurd hlt (Nat.lt_irrefl _)
  · have hmet := h.distinct.metFirst_rehash hash hroom hji hj hi
    exact ⟨iff_of_false (hmet.asymm hdistinct hnew.symm) (not_not.2 hji), iff_of_true hmet hji⟩

end Slots

/-- Above the least threshold, a doubled capacity has at least twice the threshold. -/
theorem LoadFactor.two_mul_threshold_le (f : LoadFactor) {capacity : Nat}
    (h : 1 < f.threshold capacity) : 2 * f.threshold capacity ≤ f.threshold (capacity * 2) := by
  unfold threshold at h ⊢
  have hdouble := Nat.mul_div_le_mul_div_assoc 2 (capacity * f.mantissa) (2 ^ f.shift)
  rw [← Nat.mul_assoc, Nat.mul_comm 2 capacity] at hdouble
  omega

namespace SlotTable

open Slots

variable {κ β : Type} {n : Nat} {t : SlotTable κ n β}

/-- Only a new key makes a table grow. -/
theorem getKey?_eq_none_of_grows {key : Key n} {value : β}
    (hgrows : (t.insertKey key value).2.capacity ≠ t.capacity) : t.getKey? key = none := by
  by_contra hfound
  obtain ⟨old, hold⟩ := Option.ne_none_iff_exists'.1 hfound
  exact hgrows (resize_insertKey_of_getKey?_eq_some hold value).2

/-- A table that already holds a key is doubled at most once to make room for another. -/
theorem WellFormed.insertKey_eq_double (h : t.WellFormed) (hsize : 0 < t.size) {key : Key n}
    {value : β} (hgrows : (t.insertKey key value).2.capacity ≠ t.capacity) :
    ∃ index, t.probe key = .vacant index ∧
      t.insertKey key value = (none, double (t.withEntry index (key, value))) := by
  obtain ⟨index, k, hprobe, hk, hinsert⟩ :=
    h.insertKey_eq_iterate_double (getKey?_eq_none_of_grows hgrows) value
  rw [hinsert, capacity_iterate_double, capacity_withEntry] at hgrows
  have hpos : k ≠ 0 := by
    rintro rfl
    exact hgrows (Nat.mul_one _)
  have hfull : ¬ t.size + 1 < t.loadFactor.threshold t.capacity := fun hroom =>
    hpos (hk.eq_zero hroom)
  have hbelow : t.size < t.loadFactor.threshold t.capacity := h.threshold_eq ▸ h.size_lt
  have hmany : 1 < t.loadFactor.threshold t.capacity := by omega
  have hdouble := t.loadFactor.two_mul_threshold_le hmany
  have hone := hk.least 1 (by rw [Nat.pow_one]; omega)
  obtain rfl : k = 1 := by omega
  exact ⟨index, hprobe, hinsert⟩

/-- When a new key makes a table grow, it keeps the order of the keys with a common home, except for
those between which the end of the array comes. -/
theorem WellFormed.orderKept_insertKey (h : t.WellFormed) {key : Key n} {value : β}
    (hgrows : (t.insertKey key value).2.capacity ≠ t.capacity) :
    ∃ index, t.probe key = .vacant index ∧
      OrderKeptUnlessSplit t.hasher (t.withEntry index (key, value)).slots
        (t.insertKey key value).2.slots := by
  obtain ⟨index, hprobe, hfilled, hperm⟩ := h.fill (getKey?_eq_none_of_grows hgrows) value
  refine ⟨index, hprobe, ?_⟩
  rcases Nat.eq_zero_or_pos t.size with hzero | hpos
  · -- There is only one key, and no key is met before itself.
    have hnil : t.slots.entries = [] :=
      List.eq_nil_of_length_eq_zero (h.length_entries.trans hzero)
    have hsingle : ∀ i other, (t.withEntry index (key, value)).slots.key? i = some other →
        other = key := by
      intro i other hi
      have hmem := exists_key?_iff_mem_keys.1 ⟨i, hi⟩
      have hkeys := hperm.map Prod.fst
      rw [hnil] at hkeys
      exact List.mem_singleton.1 (hkeys.mem_iff.1 hmem)
    intro a b _ _ hmet
    have hne := hmet.ne hfilled.chained.distinct
    obtain ⟨i, j, hi, hj, -⟩ := hmet
    exact absurd ((hsingle i a hi).trans (hsingle j b hj).symm) hne
  · obtain ⟨_, hprobe', hdouble⟩ := h.insertKey_eq_double hpos hgrows
    obtain rfl := Probe.vacant.inj (hprobe.symm.trans hprobe')
    rw [hdouble]
    exact hfilled.chained.orderKept_rehash (length_entries_le (t.withEntry index (key, value)))

/-- After any calls to a new table, suppose that storing a value makes the table grow. Two keys with
a common home in the full ring and in the new one are then met in the same order as before exactly
if the walk from the old home did not pass the end of the array between them. If it did, they are
met the other way round. The new key may be one of the two. -/
theorem order_run (capacity : Nat) (f : LoadFactor) (encoder : κ → Key n)
    (hasher : Key n → UInt64) (cs : List (TableCall κ n β)) :
    let t := ((withHasher capacity f encoder hasher : SlotTable κ n β).run cs).2
    (∀ key value, (t.insertKey key value).2.capacity ≠ t.capacity →
      ∃ index, t.probe key = .vacant index ∧
        OrderKeptUnlessSplit hasher (t.withEntry index (key, value)).slots
          (t.insertKey key value).2.slots) ∧
    ∀ key value, (t.insert key value).2.capacity ≠ t.capacity →
      ∃ index, t.probe (t.encode key) = .vacant index ∧
        OrderKeptUnlessSplit hasher (t.withEntry index (t.encode key, value)).slots
          (t.insert key value).2.slots := by
  intro t
  have hrun : t.WellFormed ∧ t.hasher = hasher ∧ t.loadFactor = f :=
    (wellFormed_withHasher capacity f encoder hasher).run cs
  clear_value t
  obtain ⟨hwell, rfl, rfl⟩ := hrun
  exact ⟨fun _ _ => hwell.orderKept_insertKey, fun _ _ => hwell.orderKept_insertKey⟩

/-- A table with two pairs of keys that have a common home. The last key makes it grow and is put
into the first slot, past the end of the array. The two keys of the one pair keep their order, and
those of the other pair change places. -/
theorem order_run_pairs :
    let hasher : Key 1 → UInt64 := fun key => (key.toList.headD 0).toUInt64
    let calls : List (TableCall (Key 1) 1 Nat) :=
      [.insert #v[1] 10, .insert #v[9] 90, .insert #v[7] 70]
    let t := ((withHasher 4 ⟨1, 0, by decide, by decide⟩ id hasher).run calls).2
    let filled := (t.withEntry 0 (#v[15], 150)).slots
    let grown := (t.insertKey #v[15] 150).2
    t.capacity = 4 ∧ grown.capacity = 8 ∧
      filled.MetFirst hasher #v[1] #v[9] ∧ grown.slots.MetFirst hasher #v[1] #v[9] ∧
      filled.MetFirst hasher #v[7] #v[15] ∧ grown.slots.MetFirst hasher #v[15] #v[7] := by
  intro hasher calls t filled grown
  have hgrows : grown.capacity ≠ t.capacity := by decide +kernel
  have hindex : t.probe #v[15] = .vacant 0 := by decide +kernel
  obtain ⟨index, hprobe, hkept⟩ : ∃ index, t.probe #v[15] = .vacant index ∧
      OrderKeptUnlessSplit hasher (t.withEntry index (#v[15], 150)).slots grown.slots :=
    (order_run 4 ⟨1, 0, by decide, by decide⟩ id hasher calls).1 #v[15] 150 hgrows
  obtain rfl : index = 0 := Probe.vacant.inj (hprobe.symm.trans hindex)
  have hone : filled.MetFirst hasher #v[1] #v[9] := by decide +kernel
  have hseven : filled.MetFirst hasher #v[7] #v[15] := by decide +kernel
  have hkept1 := hkept #v[1] #v[9] (by decide +kernel) (by decide +kernel) hone
  have hkept7 := hkept #v[7] #v[15] (by decide +kernel) (by decide +kernel) hseven
  exact ⟨by decide +kernel, by decide +kernel, hone, hkept1.1.2 (by decide +kernel), hseven,
    hkept7.2.2 (by decide +kernel)⟩

/-- Growing does not keep the order of all keys with a common home. The second of these two stands
in the first slot, past the end of the array, and is met first when the table has grown. -/
theorem not_metFirst_past_end :
    let hasher : Key 1 → UInt64 := fun key => (key.toList.headD 0).toUInt64
    let calls : List (TableCall (Key 1) 1 Nat) :=
      [.insert #v[7] 70, .insert #v[15] 150, .insert #v[1] 10]
    let t := ((withHasher 4 ⟨1, 0, by decide, by decide⟩ id hasher).run calls).2
    let filled := (t.withEntry 2 (#v[2], 20)).slots
    let grown := (t.insertKey #v[2] 20).2
    t.probe #v[2] = .vacant 2 ∧ grown.capacity = 2 * t.capacity ∧
      home hasher filled.size #v[7] = home hasher filled.size #v[15] ∧
      home hasher grown.slots.size #v[7] = home hasher grown.slots.size #v[15] ∧
      filled.MetFirst hasher #v[7] #v[15] ∧ ¬ grown.slots.MetFirst hasher #v[7] #v[15] := by
  decide +kernel

end SlotTable

end QueueWatch
