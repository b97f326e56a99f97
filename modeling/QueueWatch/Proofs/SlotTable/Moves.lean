import Mathlib.Data.Set.Function
import QueueWatch.Proofs.SlotTable.Chain

/-!
# Moving entries back

An entry is moved by swapping it with an empty slot, so the entries of the ring stay the same up to
their order (`entries_moveBack`). After several moves there is a slot for the entry from each
occupied slot, and `MovedBack` says that these are all the entries there are, and that those that
have moved are nearer to their homes. Moves one after the other make such a move again
(`MovedBack.trans`).
-/

namespace QueueWatch

namespace Slots

variable {n : Nat} {β : Type} {hash : Key n → UInt64} {slots slots' slots'' : Slots n β}
variable {gap i : Nat} {e : Key n × β}

/-- Emptying a slot takes its entry away. -/
theorem entries_write_none (hi : slots.occupant? i = some e) :
    slots.entries.Perm (e :: entries (slots.setIfInBounds i none)) := by
  rw [entries, entries, Array.toList_setIfInBounds, List.set_eq_take_append_cons_drop,
    if_pos (by simpa using lt_size_of_occupant? hi)]
  conv_lhs => rw [toList_eq_of_occupant? hi]
  rw [List.filterMap_append, List.filterMap_append, List.filterMap_cons_some (by rfl),
    List.filterMap_cons_none (by rfl)]
  exact List.perm_middle

/-- The ring after the entry at `i` has been moved into the gap. -/
def moveBack (slots : Slots n β) (gap i : Nat) (e : Key n × β) : Slots n β :=
  (slots.setIfInBounds gap (some e)).setIfInBounds i none

@[simp] theorem size_moveBack (slots : Slots n β) (gap i : Nat) (e : Key n × β) :
    (slots.moveBack gap i e).size = slots.size := by
  simp [moveBack]

theorem occupant?_moveBack (hgap : gap < slots.size) (hi : i < slots.size) (e : Key n × β)
    (j : Nat) : (slots.moveBack gap i e).occupant? j =
      if i = j then none else if gap = j then some e else slots.occupant? j := by
  rw [moveBack, occupant?_write (by simpa using hi), occupant?_write hgap]

theorem key?_moveBack (hgap : gap < slots.size) (hi : i < slots.size) (e : Key n × β) (j : Nat) :
    (slots.moveBack gap i e).key? j =
      if i = j then none else if gap = j then some e.1 else slots.key? j := by
  rw [key?, occupant?_moveBack hgap hi, key?]
  split
  · rfl
  · split <;> rfl

/-- To move an entry into an empty slot is to swap the two slots. -/
theorem moveBack_eq_swap (hgap : gap < slots.size) (hvacant : slots.key? gap = none)
    (hi : i < slots.size) (hentry : slots.occupant? i = some e) :
    slots.moveBack gap i e = slots.swap gap i := by
  rw [key?_eq_none_iff, occupant?_eq_getElem hgap] at hvacant
  rw [occupant?_eq_getElem hi] at hentry
  rw [moveBack, Array.swap_def, Array.setIfInBounds_def, dif_pos (by simpa using hi), hvacant]
  simp only [Array.setIfInBounds_def, dif_pos hgap, hentry]

theorem entries_moveBack (hgap : gap < slots.size) (hvacant : slots.key? gap = none)
    (hentry : slots.occupant? i = some e) :
    (slots.moveBack gap i e).entries.Perm slots.entries := by
  have hi := lt_size_of_occupant? hentry
  rw [moveBack_eq_swap hgap hvacant hi hentry]
  exact (Array.swap_perm hgap hi).toList.filterMap id

/-- The rings have the same entries, and each stands where it was or nearer to its home. The entry
that stood in slot `i` stands in slot `move i`. -/
structure MovedBack (hash : Key n → UInt64) (move : Nat → Nat) (slots slots' : Slots n β) :
    Prop where
  size_eq : slots'.size = slots.size
  lands : ∀ i e, slots.occupant? i = some e → slots'.occupant? (move i) = some e
  comes : ∀ k e, slots'.occupant? k = some e → ∃ i, slots.occupant? i = some e ∧ move i = k
  injOn : Set.InjOn move {i | slots.occupant? i ≠ none}
  back : ∀ i e, slots.occupant? i = some e →
    move i = i ∨ distance slots.size (home hash slots.size e.1) (move i) <
      distance slots.size (home hash slots.size e.1) i

theorem MovedBack.refl (hash : Key n → UInt64) (slots : Slots n β) :
    MovedBack hash id slots slots where
  size_eq := rfl
  lands _ _ hi := hi
  comes k _ hk := ⟨k, hk, rfl⟩
  injOn := Function.injective_id.injOn
  back _ _ _ := .inl rfl

theorem MovedBack.trans {move move' : Nat → Nat} (h : MovedBack hash move slots slots')
    (h' : MovedBack hash move' slots' slots'') : MovedBack hash (move' ∘ move) slots slots'' where
  size_eq := h'.size_eq.trans h.size_eq
  lands i e hi := h'.lands (move i) e (h.lands i e hi)
  comes k e hk := by
    obtain ⟨j, hj, rfl⟩ := h'.comes k e hk
    obtain ⟨i, hi, rfl⟩ := h.comes j e hj
    exact ⟨i, hi, rfl⟩
  injOn := by
    refine h'.injOn.comp h.injOn fun i hi => ?_
    obtain ⟨e, he⟩ := Option.ne_none_iff_exists'.1 hi
    exact Option.ne_none_iff_exists'.2 ⟨e, h.lands i e he⟩
  back i e hi := by
    have hback := h'.back (move i) e (h.lands i e hi)
    rw [h.size_eq] at hback
    rw [Function.comp_apply]
    rcases h.back i e hi with hstays | hnearer
    · rwa [hstays] at hback ⊢
    · rcases hback with hstays | hnearer'
      · rw [hstays]
        exact .inr hnearer
      · exact .inr (hnearer'.trans hnearer)

/-- Moving one entry back. -/
theorem movedBack_moveBack (hgap : gap < slots.size) (hvacant : slots.key? gap = none)
    (hentry : slots.occupant? i = some e)
    (hback : distance slots.size (home hash slots.size e.1) gap <
      distance slots.size (home hash slots.size e.1) i) :
    MovedBack hash (fun j => if j = i then gap else j) slots (slots.moveBack gap i e) := by
  have hi := lt_size_of_occupant? hentry
  have hslot := occupant?_moveBack hgap hi e
  have hne : ∀ {j e'}, slots.occupant? j = some e' → j ≠ gap := fun hj =>
    (ne_of_key? hvacant (key?_of_occupant? hj)).symm
  constructor
  case size_eq => simp
  case lands =>
    intro j e' hj
    split
    · next hji =>
        rw [hslot, if_neg (hne hentry), if_pos rfl, ← hentry, ← hji, hj]
    · next hji => rw [hslot, if_neg (Ne.symm hji), if_neg (Ne.symm (hne hj)), hj]
  case comes =>
    intro k e' hk
    rw [hslot] at hk
    split at hk
    · cases hk
    · next hik =>
        split at hk
        · next hgk => exact ⟨i, hentry.trans hk, by rw [if_pos rfl, hgk]⟩
        · exact ⟨k, hk, if_neg (Ne.symm hik)⟩
  case injOn =>
    intro j hj k hk hjk
    obtain ⟨_, hj⟩ := Option.ne_none_iff_exists'.1 hj
    obtain ⟨_, hk⟩ := Option.ne_none_iff_exists'.1 hk
    have hjgap := hne hj
    have hkgap := hne hk
    dsimp only at hjk
    split at hjk <;> split at hjk <;> omega
  case back =>
    intro j e' hj
    split
    · next hji =>
        subst hji
        rw [hentry, Option.some.injEq] at hj
        rw [← hj]
        exact .inr hback
    · exact .inl rfl

/-- Moves put no key into two slots. -/
theorem MovedBack.distinct {move : Nat → Nat} (h : MovedBack hash move slots slots')
    (hdistinct : slots.Distinct) : slots'.Distinct := by
  intro i j key hi hj
  obtain ⟨_, hi⟩ := key?_eq_some_iff.1 hi
  obtain ⟨_, hj⟩ := key?_eq_some_iff.1 hj
  obtain ⟨i', hi', rfl⟩ := h.comes i _ hi
  obtain ⟨j', hj', rfl⟩ := h.comes j _ hj
  rw [hdistinct i' j' key (key?_of_occupant? hi') (key?_of_occupant? hj')]

end Slots

end QueueWatch
