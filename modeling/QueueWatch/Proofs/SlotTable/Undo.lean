import QueueWatch.Proofs.SlotTable.Capacity

/-!
# Taking an insertion back

A new key is put into an empty slot. If the table does not grow, nothing else changes, and to remove
the key empties that slot again. Closing the gap then goes on through the entries behind it, but
none of them came through a slot that was empty before, so all of them stay
(`Slots.Chained.closeGap_eq_self`). The table is the one from before the insertion, slot by slot
(`SlotTable.erase_insert_run`).
-/

namespace QueueWatch

namespace Slots

variable {n : Nat} {β : Type} {hash : Key n → UInt64} {slots : Slots n β} {gap index : Nat}

/-- In a chained ring no entry came through an empty slot. -/
theorem Chained.not_cameThrough (h : Chained hash slots) (hgap : gap < slots.size)
    (hvacant : slots.key? gap = none) {key : Key n} (hkey : slots.key? index = some key) :
    ¬ cameThrough (home hash slots.size key) gap index = true := by
  have hhome := home_lt hash (Nat.zero_lt_of_lt hgap) key
  rw [cameThrough_iff hhome hgap (lt_size_of_key? hkey) (ne_of_key? hvacant hkey)]
  exact Nat.lt_asymm (h.reachable.vacant_behind hkey hgap hvacant)

theorem Chained.closeGapFrom_eq_self (h : Chained hash slots) (hgap : gap < slots.size)
    (hvacant : slots.key? gap = none) (index steps : Nat) :
    Slots.closeGapFrom hash slots gap index steps = slots := by
  induction steps generalizing index with
  | zero => rfl
  | succ steps ih =>
      rw [Slots.closeGapFrom]
      dsimp only
      split
      · rfl
      · next key value hentry =>
          rw [if_neg (h.not_cameThrough hgap hvacant (key?_of_occupant? hentry))]
          exact ih _

/-- In a chained ring there is nothing to close at an empty slot. -/
theorem Chained.closeGap_eq_self (h : Chained hash slots) (hgap : gap < slots.size)
    (hvacant : slots.key? gap = none) : Slots.closeGap hash slots gap = slots :=
  h.closeGapFrom_eq_self hgap hvacant gap slots.size

/-- An empty slot that is filled and emptied again. -/
theorem write_none_write (hindex : index < slots.size) (hvacant : slots.occupant? index = none)
    (e : Key n × β) :
    (slots.setIfInBounds index (some e)).setIfInBounds index none = slots := by
  have hslot := (occupant?_eq_getElem hindex).symm.trans hvacant
  rw [Array.setIfInBounds_setIfInBounds, Array.setIfInBounds_def, dif_pos hindex, ← hslot,
    Array.set_getElem_self]

end Slots

namespace SlotTable

open Slots

variable {κ β : Type} {n : Nat} {t : SlotTable κ n β}

/-- A new key that does not make the table grow is put into an empty slot, and that is all. -/
theorem WellFormed.insertKey_eq_withEntry (h : t.WellFormed) {key : Key n} {value : β}
    (hget : t.getKey? key = none) (hcapacity : (t.insertKey key value).2.capacity = t.capacity) :
    ∃ index, index < t.capacity ∧ t.slots.occupant? index = none ∧
      t.insertKey key value = (none, t.withEntry index (key, value)) := by
  rcases h.insertKey_eq_iterate_double hget value with ⟨index, k, hprobe, -, hinsert⟩
  rw [hinsert, capacity_iterate_double, capacity_withEntry] at hcapacity
  have hk : k = 0 := by
    have hone : 2 ^ k = 1 :=
      Nat.eq_of_mul_eq_mul_left h.capacity_pos (by rw [hcapacity, Nat.mul_one])
    exact (Nat.pow_eq_one.1 hone).resolve_left (by decide)
  rw [hk] at hinsert
  have hends := ends_probe t.hasher (show 0 < t.slots.size from h.capacity_pos) key
  rw [show t.slots.probe t.hasher key = .vacant index from hprobe] at hends
  exact ⟨index, hends.1, hends.2.1, hinsert⟩

theorem WellFormed.eraseKey_insertKey (h : t.WellFormed) {key : Key n} {value : β}
    (hget : t.getKey? key = none) (hcapacity : (t.insertKey key value).2.capacity = t.capacity) :
    (t.insertKey key value).2.eraseKey key = (some value, t) := by
  have hwell := (h.insertKey key value).2.1
  rcases h.insertKey_eq_withEntry hget hcapacity with ⟨index, hindex, hvacant, hinsert⟩
  rw [hinsert] at hwell ⊢
  have hentry : (t.withEntry index (key, value)).slots.occupant? index = some (key, value) :=
    (occupant?_write hindex _ index).trans (if_pos rfl)
  rw [SlotTable.eraseKey, SlotTable.probe, hwell.chained.probe_of_occupant? hentry]
  simp only [withEntry, write_none_write hindex hvacant,
    h.chained.closeGap_eq_self hindex (key?_eq_none_iff.2 hvacant), Nat.add_sub_cancel]

/-- After any calls to a new table, if a new key does not make the table grow, then removing it
gives its value, and the table as it was: its slots, and with them the order of the entries, its
size, its capacity and its threshold. -/
theorem erase_insert_run (capacity : Nat) (f : LoadFactor) (encoder : κ → Key n)
    (hasher : Key n → UInt64) (cs : List (TableCall κ n β)) :
    let t := ((withHasher capacity f encoder hasher : SlotTable κ n β).run cs).2
    (∀ key value, t.getKey? key = none → (t.insertKey key value).2.capacity = t.capacity →
      (t.insertKey key value).2.eraseKey key = (some value, t)) ∧
    ∀ key value, t.get? key = none → (t.insert key value).2.capacity = t.capacity →
      (t.insert key value).2.erase key = (some value, t) := by
  intro t
  have hwell : t.WellFormed := ((wellFormed_withHasher capacity f encoder hasher).run cs).1
  clear_value t
  refine ⟨fun _ _ => hwell.eraseKey_insertKey, ?_⟩
  intro key value hget hcapacity
  have hencode : (t.insert key value).2.encode key = t.encode key :=
    congrFun (encoder_insertKey t (t.encode key) value) key
  rw [SlotTable.erase, hencode]
  exact hwell.eraseKey_insertKey hget hcapacity

/-- In a table with two entries behind one that went on past the end of the ring, a new key has the
last slot as its home and is put into the first one. When it is removed, the entries in the next two
slots stay. -/
theorem erase_insert_run_wrapped :
    let calls : List (TableCall (Key 1) 1 Nat) :=
      [.insert #v[7] 70, .insert #v[1] 10, .insert #v[9] 90]
    let wrapped := ((withHasher 8 ⟨1, 0, by decide, by decide⟩ id
      fun key => key[0].toUInt64).run calls).2
    wrapped.slots = #[none, some (#v[1], 10), some (#v[9], 90), none, none, none, none,
        some (#v[7], 70)] ∧
      (wrapped.insert #v[15] 150).2.slots[0]? = some (some (#v[15], 150)) ∧
      wrapped.get? #v[15] = none ∧
      (wrapped.insert #v[15] 150).2.capacity = wrapped.capacity ∧
      (wrapped.insert #v[15] 150).2.erase #v[15] = (some 150, wrapped) := by
  intro calls wrapped
  have hget : wrapped.get? #v[15] = none := by decide +kernel
  have hcapacity : (wrapped.insert #v[15] 150).2.capacity = wrapped.capacity := by decide +kernel
  have hrun := erase_insert_run 8 ⟨1, 0, by decide, by decide⟩ id (fun key => key[0].toUInt64) calls
  exact ⟨by decide +kernel, by decide +kernel, hget, hcapacity, hrun.2 #v[15] 150 hget hcapacity⟩

end SlotTable

end QueueWatch
