import Mathlib.Data.List.Nodup
import QueueWatch.SlotTable.Slots

/-!
# What the slots hold

A slot holds an entry or is empty. `key?` is the key in a slot, `Stores` says that some slot holds
an entry. Writing one slot changes nothing about the others (`occupant?_write`).

The entries of a ring are the stored ones (`mem_entries`), in the order of their slots
(`exists_entries_eq`). If no key stands in two slots, they are known up to their order by what is
stored, and fewer of them than slots leave a slot empty (`exists_vacant`).
-/

namespace QueueWatch

namespace Slots

variable {n : Nat} {β : Type} {slots : Slots n β}

/-- The key in a slot. -/
def key? (slots : Slots n β) (index : Nat) : Option (Key n) :=
  (slots.occupant? index).map Prod.fst

/-- Some slot holds the entry. -/
def Stores (slots : Slots n β) (key : Key n) (value : β) : Prop :=
  ∃ i, slots.occupant? i = some (key, value)

/-- No key stands in two slots. -/
def Distinct (slots : Slots n β) : Prop :=
  ∀ i j key, slots.key? i = some key → slots.key? j = some key → i = j

theorem occupant?_eq_getElem {i : Nat} (hi : i < slots.size) : slots.occupant? i = slots[i] := by
  rw [occupant?, Array.getElem?_eq_getElem hi]
  rfl

theorem lt_size_of_occupant? {i : Nat} {e : Key n × β} (h : slots.occupant? i = some e) :
    i < slots.size := by
  obtain ⟨h, -⟩ := Array.getElem?_eq_some_iff.1 (Option.join_eq_some_iff.1 h)
  exact h

theorem key?_of_occupant? {i : Nat} {key : Key n} {value : β}
    (h : slots.occupant? i = some (key, value)) : slots.key? i = some key := by
  rw [key?, h]
  rfl

theorem key?_eq_none_iff {i : Nat} : slots.key? i = none ↔ slots.occupant? i = none :=
  Option.map_eq_none_iff

theorem key?_eq_some_iff {i : Nat} {key : Key n} :
    slots.key? i = some key ↔ ∃ value, slots.occupant? i = some (key, value) := by
  simp [key?]

theorem lt_size_of_key? {i : Nat} {key : Key n} (h : slots.key? i = some key) : i < slots.size := by
  obtain ⟨value, h⟩ := key?_eq_some_iff.1 h
  exact lt_size_of_occupant? h

theorem ne_of_key? {i j : Nat} {key : Key n} (hi : slots.key? i = none)
    (hj : slots.key? j = some key) : i ≠ j := by
  rintro rfl
  rw [hi] at hj
  cases hj

theorem exists_key?_iff_exists_stores {key : Key n} :
    (∃ i, slots.key? i = some key) ↔ ∃ value, slots.Stores key value := by
  simp only [key?_eq_some_iff, Stores]
  exact exists_comm

/-! ### Writing a slot -/

@[simp] theorem occupant?_write {i : Nat} (hi : i < slots.size) (slot : Option (Key n × β))
    (j : Nat) :
    Slots.occupant? (slots.setIfInBounds i slot) j = if i = j then slot else slots.occupant? j := by
  rw [occupant?, Array.getElem?_setIfInBounds]
  by_cases h : i = j
  · subst h
    simp [hi]
  · simp [h, occupant?]

theorem key?_write {i : Nat} (hi : i < slots.size) (slot : Option (Key n × β)) (j : Nat) :
    Slots.key? (slots.setIfInBounds i slot) j =
      if i = j then slot.map Prod.fst else slots.key? j := by
  rw [key?, occupant?_write hi]
  split <;> rfl

/-- After a write, the stored entries are the written one and those of the other slots. -/
theorem stores_write {i : Nat} (hi : i < slots.size) {slot : Option (Key n × β)} {key : Key n}
    {value : β} :
    Stores (slots.setIfInBounds i slot) key value ↔
      slot = some (key, value) ∨ ∃ j, j ≠ i ∧ slots.occupant? j = some (key, value) := by
  simp only [Stores, occupant?_write hi]
  constructor
  · intro hx
    rcases hx with ⟨j, hj⟩
    split at hj
    · exact .inl hj
    · rename_i hne
      exact .inr ⟨j, Ne.symm hne, hj⟩
  · intro hx
    rcases hx with h | ⟨j, hne, hj⟩
    · exact ⟨i, by rw [if_pos rfl, h]⟩
    · exact ⟨j, by rw [if_neg (Ne.symm hne), hj]⟩

/-- Writing an empty slot adds an entry. -/
theorem stores_write_vacant {i : Nat} (hi : i < slots.size) (hvacant : slots.occupant? i = none)
    {e : Key n × β} {key : Key n} {value : β} :
    Stores (slots.setIfInBounds i (some e)) key value ↔
      e = (key, value) ∨ slots.Stores key value := by
  rw [stores_write hi, Option.some.injEq]
  refine or_congr_right ⟨fun ⟨j, _, hj⟩ => ⟨j, hj⟩, fun ⟨j, hj⟩ => ⟨j, ?_, hj⟩⟩
  rintro rfl
  simp [hvacant] at hj

/-- Emptying a slot takes its key away, and no other. -/
theorem Distinct.stores_write_none (h : slots.Distinct) {i : Nat} {gone : Key n}
    (hgone : slots.key? i = some gone) {key : Key n} {value : β} :
    Stores (slots.setIfInBounds i none) key value ↔ key ≠ gone ∧ slots.Stores key value := by
  rw [stores_write (lt_size_of_key? hgone)]
  constructor
  · intro hx
    rcases hx with h' | ⟨j, hne, hj⟩
    · cases h'
    · refine ⟨?_, j, hj⟩
      rintro rfl
      exact hne (h j i _ (key?_of_occupant? hj) hgone)
  · intro hx
    rcases hx with ⟨hne, j, hj⟩
    refine .inr ⟨j, ?_, hj⟩
    rintro rfl
    rw [key?_of_occupant? hj] at hgone
    exact hne (Option.some.inj hgone)

theorem Distinct.write_none (h : slots.Distinct) {i : Nat} (hi : i < slots.size) :
    Distinct (slots.setIfInBounds i none) := by
  intro j k key hj hk
  rw [key?_write hi] at hj hk
  split at hj <;> split at hk <;> try contradiction
  exact h j k key hj hk

/-- Writing a value under the key that a slot holds changes the value of that key only. -/
theorem Distinct.stores_write_same (h : slots.Distinct) {i : Nat} {k : Key n}
    (hk : slots.key? i = some k) {v : β} {key : Key n} {value : β} :
    Stores (slots.setIfInBounds i (some (k, v))) key value ↔
      if k = key then v = value else slots.Stores key value := by
  rw [stores_write (lt_size_of_key? hk)]
  split
  · rename_i hkey
    subst hkey
    constructor
    · intro hx
      rcases hx with h' | ⟨j, hne, hj⟩
      · simpa using h'
      · exact absurd (h j i _ (key?_of_occupant? hj) hk) hne
    · rintro rfl
      exact .inl rfl
  · rename_i hkey
    constructor
    · intro hx
      rcases hx with h' | ⟨j, hne, hj⟩
      · simp [hkey] at h'
      · exact ⟨j, hj⟩
    · intro hx
      rcases hx with ⟨j, hj⟩
      refine .inr ⟨j, ?_, hj⟩
      rintro rfl
      rw [key?_of_occupant? hj] at hk
      exact hkey (Option.some.inj hk).symm

/-! ### The list of entries -/

theorem mem_entries {e : Key n × β} : e ∈ slots.entries ↔ slots.Stores e.1 e.2 := by
  simp only [entries, List.mem_filterMap, id_eq, Stores, occupant?, Option.join_eq_some_iff]
  constructor
  · intro hx
    rcases hx with ⟨slot, hmem, rfl⟩
    obtain ⟨i, hi, hslot⟩ := List.getElem_of_mem hmem
    refine ⟨i, ?_⟩
    rw [Array.getElem?_eq_some_iff]
    exact ⟨by simpa using hi, by simpa using hslot⟩
  · intro hx
    rcases hx with ⟨i, hi⟩
    exact ⟨some e, Array.mem_toList_iff.2 (Array.mem_of_getElem? hi), rfl⟩

theorem toList_eq_of_occupant? {i : Nat} {e : Key n × β} (hi : slots.occupant? i = some e) :
    slots.toList = slots.toList.take i ++ some e :: slots.toList.drop (i + 1) := by
  have hslot := (occupant?_eq_getElem (lt_size_of_occupant? hi)).symm.trans hi
  rw [← hslot, ← Array.getElem_toList, List.getElem_cons_drop, List.take_append_drop]

/-- The entries are listed in the order of their slots. -/
theorem exists_entries_eq {i j : Nat} (hij : i < j) {e e' : Key n × β}
    (hi : slots.occupant? i = some e) (hj : slots.occupant? j = some e') :
    ∃ done rest, slots.entries = done ++ e' :: rest ∧ e ∈ done := by
  refine ⟨(slots.toList.take j).filterMap id, (slots.toList.drop (j + 1)).filterMap id, ?_, ?_⟩
  · calc slots.entries
        = (slots.toList.take j ++ some e' :: slots.toList.drop (j + 1)).filterMap id :=
          congrArg (List.filterMap id) (toList_eq_of_occupant? hj)
      _ = _ := List.filterMap_append
  · refine List.mem_filterMap.2 ⟨some e, List.mem_of_getElem? (i := i) ?_, rfl⟩
    rw [List.getElem?_take_of_lt hij, Array.getElem?_toList]
    exact Option.join_eq_some_iff.1 hi

theorem exists_key?_iff_mem_keys {key : Key n} :
    (∃ i, slots.key? i = some key) ↔ key ∈ slots.entries.map Prod.fst := by
  rw [exists_key?_iff_exists_stores, List.mem_map]
  constructor
  · intro hx
    rcases hx with ⟨value, hvalue⟩
    exact ⟨(key, value), mem_entries.2 hvalue, rfl⟩
  · intro hx
    rcases hx with ⟨e, he, rfl⟩
    exact ⟨e.2, mem_entries.1 he⟩

/-- If no key stands in two slots, no key is listed twice. -/
theorem Distinct.nodup_keys (h : slots.Distinct) : (slots.entries.map Prod.fst).Nodup := by
  rw [List.nodup_iff_pairwise_ne, List.pairwise_map, entries, List.pairwise_filterMap,
    List.pairwise_iff_getElem]
  intro i j hi hj hij a ha b hb hab
  have hslot : ∀ (k : Nat) (hk : k < slots.toList.length) (e : Key n × β),
      id slots.toList[k] = some e → slots.key? k = some e.1 := by
    intro k hk e he
    exact key?_of_occupant? ((occupant?_eq_getElem hk).trans he)
  exact Nat.ne_of_lt hij (h i j b.1 (by rw [hslot i hi a ha, hab]) (hslot j hj b hb))

/-- What is stored determines the entries up to their order. -/
theorem Distinct.entries_perm (h : slots.Distinct) {es : List (Key n × β)} (hes : es.Nodup)
    (hmem : ∀ key value, slots.Stores key value ↔ (key, value) ∈ es) : slots.entries.Perm es := by
  rw [List.perm_ext_iff_of_nodup (List.Nodup.of_map Prod.fst h.nodup_keys) hes]
  intro hx
  rcases hx with ⟨key, value⟩
  rw [mem_entries]
  exact hmem key value

/-- A ring with fewer entries than slots has an empty slot. -/
theorem exists_vacant (h : slots.entries.length < slots.size) :
    ∃ i, i < slots.size ∧ slots.occupant? i = none := by
  by_contra hfull
  simp only [not_exists, not_and] at hfull
  have hall : ∀ slot ∈ slots.toList, (id slot).isSome = true := by
    intro slot hmem
    obtain ⟨i, hi, hslot⟩ := List.getElem_of_mem hmem
    have hlt : i < slots.size := by simpa using hi
    have hne : slots.occupant? i ≠ none := hfull i hlt
    rw [occupant?_eq_getElem hlt] at hne
    rw [← hslot]
    exact Option.isSome_iff_ne_none.2 hne
  have hlength : slots.entries.length = slots.size := by
    rw [entries, List.length_filterMap_eq_countP, List.countP_eq_length.2 hall,
      Array.length_toList]
  omega

/-- A ring whose slots are all empty stores nothing. -/
theorem not_stores_ofCapacity (capacity : Nat) (key : Key n) (value : β) :
    ¬ (ofCapacity capacity : Slots n β).Stores key value := by
  intro hx
  rcases hx with ⟨i, hi⟩
  simp only [ofCapacity, occupant?, Option.join_eq_some_iff, Array.getElem?_replicate] at hi
  split at hi <;> simp at hi

theorem distinct_ofCapacity (capacity : Nat) : (ofCapacity capacity : Slots n β).Distinct := by
  intro i j key hi
  obtain ⟨value, hi⟩ := key?_eq_some_iff.1 hi
  exact absurd ⟨i, hi⟩ (not_stores_ofCapacity capacity key value)

end Slots

end QueueWatch
