import QueueWatch.Proofs.SlotTable.Chain

/-!
# Rings of another capacity

Placing an entry is probing for its key and filling the empty slot that is found
(`place_eq_write`). Placing entries with different keys one after the other therefore gives a
chained ring that holds just these entries, as long as there is room (`Chained.foldl_place`), and so
a ring keeps its entries in any capacity that has room for them (`Distinct.rehash`). An entry that
has been placed stays where it is while others are placed (`key?_foldl_place`).
-/

namespace QueueWatch

namespace Slots

variable {n : Nat} {β : Type} {hash : Key n → UInt64} {slots : Slots n β} {key : Key n}

/-- The walk for a key that is not stored is the walk for an empty slot. -/
theorem probeFrom_eq_of_absent (habsent : ∀ i, slots.key? i ≠ some key) (index steps : Nat) :
    slots.probeFrom key index steps =
      match slots.vacancyFrom? index steps with
      | some i => .vacant i
      | none => .full := by
  induction steps generalizing index with
  | zero => rfl
  | succ steps ih =>
      rw [probeFrom, vacancyFrom?]
      cases hentry : slots.occupant? index with
      | none => rfl
      | some e =>
          have hne : e.1 ≠ key := by
            rintro rfl
            exact habsent index (key?_of_occupant? hentry)
          simp only [if_neg hne]
          exact ih _

/-- An entry with a new key is put where an unbroken walk from its home ends. -/
theorem place_eq_write (hash : Key n → UInt64) (habsent : ∀ i, slots.key? i ≠ some key)
    (hvacant : ∃ i, i < slots.size ∧ slots.occupant? i = none) (value : β) :
    ∃ i, i < slots.size ∧ slots.occupant? i = none ∧
      slots.Unbroken (home hash slots.size key) i ∧
      place hash slots (key, value) = slots.setIfInBounds i (some (key, value)) := by
  obtain ⟨i, hprobe, hi, hnone, hwalk⟩ := probe_of_absent hash habsent hvacant
  refine ⟨i, hi, hnone, hwalk, ?_⟩
  rw [probe, probeFrom_eq_of_absent habsent] at hprobe
  rw [place]
  split at hprobe
  · rename_i j hj
    obtain rfl : j = i := by simpa using hprobe
    rw [hj]
  · cases hprobe

theorem occupant?_of_vacancyFrom? {index steps i : Nat}
    (h : slots.vacancyFrom? index steps = some i) : slots.occupant? i = none := by
  induction steps generalizing index with
  | zero => cases h
  | succ steps ih =>
      rw [vacancyFrom?] at h
      split at h
      · next hvacant =>
          obtain rfl : index = i := by simpa using h
          exact hvacant
      · exact ih h

/-- Placing an entry leaves the others where they are. -/
theorem key?_place {i : Nat} (hi : slots.key? i = some key) (e : Key n × β) :
    (slots.place hash e).key? i = some key := by
  unfold place
  split
  · next j hj =>
      have hvacant := key?_eq_none_iff.2 (occupant?_of_vacancyFrom? hj)
      by_cases hlt : j < slots.size
      · rw [key?_write hlt, if_neg (ne_of_key? hvacant hi), hi]
      · rwa [Array.setIfInBounds_eq_of_size_le (Nat.le_of_not_lt hlt)]
  · exact hi

theorem key?_foldl_place {i : Nat} (hi : slots.key? i = some key) (es : List (Key n × β)) :
    Slots.key? (es.foldl (place hash) slots) i = some key := by
  induction es generalizing slots with
  | nil => exact hi
  | cons e es ih => exact ih (key?_place hi e)

/-- Filling an empty slot with a new key adds one entry. -/
theorem Distinct.entries_write (h : slots.Distinct) {i : Nat} {value : β}
    (h' : Distinct (slots.setIfInBounds i (some (key, value)))) (hi : i < slots.size)
    (hvacant : slots.occupant? i = none) (habsent : ∀ j, slots.key? j ≠ some key) :
    (Slots.entries (slots.setIfInBounds i (some (key, value)))).Perm
      ((key, value) :: slots.entries) := by
  refine h'.entries_perm (List.nodup_cons.2 ⟨?_, List.Nodup.of_map Prod.fst h.nodup_keys⟩) ?_
  · intro hmem
    obtain ⟨j, hj⟩ := mem_entries.1 hmem
    exact habsent j (key?_of_occupant? hj)
  · intro k v
    rw [stores_write_vacant hi hvacant, List.mem_cons, mem_entries]
    exact or_congr_left eq_comm

/-- Entries with different new keys can be placed one after the other while there is room. -/
theorem Chained.foldl_place (es : List (Key n × β)) :
    ∀ slots : Slots n β, Chained hash slots → (es.map Prod.fst).Nodup →
      (∀ e ∈ es, ∀ i, slots.key? i ≠ some e.1) →
      slots.entries.length + es.length ≤ slots.size →
      Chained hash (es.foldl (place hash) slots) ∧
        (Slots.entries (es.foldl (place hash) slots)).Perm (es ++ slots.entries) := by
  induction es with
  | nil =>
      intro slots h _ _ _
      exact ⟨h, List.Perm.refl _⟩
  | cons e es ih =>
      intro slots h hnodup hnew hroom
      rw [List.map_cons, List.nodup_cons] at hnodup
      rw [List.length_cons] at hroom
      have habsent := hnew e List.mem_cons_self
      obtain ⟨i, hi, hvacant, hwalk, hplace⟩ :=
        place_eq_write hash habsent (exists_vacant (by omega)) e.2
      have hchained := h.write hi hwalk habsent e.2
      have hentries := h.distinct.entries_write hchained.distinct hi hvacant habsent
      have hnew' : ∀ e' ∈ es, ∀ j,
          Slots.key? (slots.setIfInBounds i (some (e.1, e.2))) j ≠ some e'.1 := by
        intro e' he' j
        rw [key?_write hi]
        split
        · intro heq
          have hsame : e.1 = e'.1 := by simpa using heq
          exact hnodup.1 (hsame ▸ List.mem_map_of_mem he')
        · exact hnew e' (List.mem_cons_of_mem _ he') j
      rw [List.foldl_cons, hplace]
      obtain ⟨hchained', hperm⟩ := ih _ hchained hnodup.2 hnew'
        (by rw [hentries.length_eq, List.length_cons, Array.size_setIfInBounds]; omega)
      refine ⟨hchained', hperm.trans ?_⟩
      exact (hentries.append_left es).trans List.perm_middle

theorem entries_ofCapacity (capacity : Nat) : (ofCapacity capacity : Slots n β).entries = [] := by
  refine List.eq_nil_iff_forall_not_mem.2 fun e he => ?_
  exact not_stores_ofCapacity capacity e.1 e.2 (mem_entries.1 he)

/-- Entries with different keys can be placed into an empty ring that has room for them. -/
theorem chained_foldl_place_ofCapacity (hash : Key n → UInt64) {es : List (Key n × β)}
    (hnodup : (es.map Prod.fst).Nodup) {capacity : Nat} (hroom : es.length ≤ capacity) :
    Chained hash (es.foldl (place hash) (ofCapacity capacity)) ∧
      (Slots.entries (es.foldl (place hash) (ofCapacity capacity))).Perm es := by
  have hnew : ∀ e ∈ es, ∀ i, (ofCapacity capacity : Slots n β).key? i ≠ some e.1 := by
    intro e _ i hi
    obtain ⟨value, hi⟩ := key?_eq_some_iff.1 hi
    exact not_stores_ofCapacity capacity e.1 value ⟨i, hi⟩
  obtain ⟨hchained, hperm⟩ := Chained.foldl_place es _ (chained_ofCapacity hash capacity) hnodup
    hnew (by rw [entries_ofCapacity, size_ofCapacity]; simpa using hroom)
  rw [entries_ofCapacity, List.append_nil] at hperm
  exact ⟨hchained, hperm⟩

/-- A ring keeps its entries in any capacity that has room for them. -/
theorem Distinct.rehash (h : slots.Distinct) (hash : Key n → UInt64) {capacity : Nat}
    (hroom : slots.entries.length ≤ capacity) :
    Chained hash (slots.rehash hash capacity) ∧
      (slots.rehash hash capacity).entries.Perm slots.entries :=
  chained_foldl_place_ofCapacity hash h.nodup_keys hroom

/-- The ring into which an entry is placed is chained and has an empty slot. It holds the entries
that stand before it in the list, and not its key. -/
theorem Distinct.foldl_place_of_entries_eq (h : slots.Distinct) (hash : Key n → UInt64)
    {capacity : Nat} (hroom : slots.entries.length ≤ capacity) {done rest : List (Key n × β)}
    {e : Key n × β} (heq : slots.entries = done ++ e :: rest) :
    let ring := done.foldl (place hash) (ofCapacity capacity)
    Chained hash ring ∧ (∃ i, i < ring.size ∧ Slots.occupant? ring i = none) ∧
      (Slots.entries ring).Perm done ∧ ∀ i, Slots.key? ring i ≠ some e.1 := by
  intro ring
  have hnodup := h.nodup_keys
  rw [heq, List.map_append, List.map_cons, List.nodup_append] at hnodup
  obtain ⟨hdone, -, hapart⟩ := hnodup
  rw [heq, List.length_append, List.length_cons] at hroom
  obtain ⟨hchained, hperm⟩ :=
    chained_foldl_place_ofCapacity hash hdone (show done.length ≤ capacity by omega)
  refine ⟨hchained, exists_vacant ?_, hperm, ?_⟩
  · rw [hperm.length_eq, size_foldl_place, size_ofCapacity]
    omega
  · intro i hi
    have hmem := (hperm.map Prod.fst).mem_iff.1 (exists_key?_iff_mem_keys.1 ⟨i, hi⟩)
    exact hapart e.1 hmem e.1 List.mem_cons_self rfl

end Slots

end QueueWatch
