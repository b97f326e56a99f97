import Mathlib.Data.Nat.Find
import QueueWatch.Proofs.SlotTable.Moves

/-!
# Closing a gap

Emptying a slot of a ring breaks the walks to keys at that slot, and only there. While a gap is
being closed, the ring is `Mending`: the gap is the only empty slot that a walk from the home of an
entry to its slot can meet, and the entries whose walk does meet it are still ahead of the slot that
has been reached. An entry that came through the gap is moved into it, which leaves a gap where the
entry was (`Mending.move`); any other entry stays (`Mending.skip`). At the first empty slot nothing
that came through the gap can be left, so every key can be reached again (`Mending.reachable`).

A second empty slot makes sure that the walk comes to an end before it is back at the gap. It ends
at the next empty slot behind the gap, well within the steps that it may take; `closeGapUntil` is
the walk that also tells where it ended. Nothing beyond that slot is touched (`closeGap_repairs`).
-/

namespace QueueWatch

namespace Slots

variable {n : Nat} {β : Type} {hash : Key n → UInt64} {slots : Slots n β} {gap index stop : Nat}

/-! ### The next empty slot -/

/-- The first empty slot behind a slot. -/
structure NextVacant (slots : Slots n β) (index stop : Nat) : Prop where
  stop_lt : stop < slots.size
  ne : stop ≠ index
  vacant : slots.key? stop = none
  occupied : ∀ j < slots.size, Between slots.size index stop j → slots.key? j ≠ none

theorem exists_nextVacant {e : Nat} (he : e < slots.size) (hne : e ≠ index)
    (hvacant : slots.key? e = none) : ∃ stop, slots.NextVacant index stop := by
  classical
  have hsome : ∃ steps stop, stop < slots.size ∧ stop ≠ index ∧ slots.key? stop = none ∧
      distance slots.size index stop = steps :=
    ⟨_, e, he, hne, hvacant, rfl⟩
  obtain ⟨stop, hlt, hstop, hnone, hsteps⟩ := Nat.find_spec hsome
  refine ⟨stop, hlt, hstop, hnone, ?_⟩
  rintro j hj ⟨hjne, hless⟩ hjnone
  rw [hsteps] at hless
  exact Nat.find_min hsome hless ⟨j, hj, hjne, hjnone, rfl⟩

theorem NextVacant.eq_nextSlot (h : slots.NextVacant index stop) (hindex : index < slots.size)
    (hvacant : slots.key? (nextSlot slots.size index) = none) :
    stop = nextSlot slots.size index := by
  by_contra hne
  exact h.occupied _ (nextSlot_lt hindex) (between_nextSlot hindex h.stop_lt h.ne hne) hvacant

theorem NextVacant.step (h : slots.NextVacant index stop) (hindex : index < slots.size)
    (hne : stop ≠ nextSlot slots.size index) :
    slots.NextVacant (nextSlot slots.size index) stop where
  stop_lt := h.stop_lt
  ne := hne
  vacant := h.vacant
  occupied j hj hbetween := h.occupied j hj (hbetween.of_nextSlot hindex h.stop_lt h.ne hj)

/-- Filling the gap does not change where the next empty slot is. -/
theorem NextVacant.moveBack {i : Nat} {e : Key n × β} (h : slots.NextVacant i stop)
    (hgap : gap < slots.size) (hi : i < slots.size) (hstop : stop ≠ gap) :
    (slots.moveBack gap i e).NextVacant i stop where
  stop_lt := by simpa using h.stop_lt
  ne := h.ne
  vacant := by
    rw [key?_moveBack hgap hi, if_neg h.ne.symm, if_neg hstop.symm, h.vacant]
  occupied := by
    intro j hj hbetween
    rw [size_moveBack] at hj hbetween
    rw [key?_moveBack hgap hi, if_neg hbetween.1.symm]
    split
    · exact Option.some_ne_none e.1
    · exact h.occupied j hj hbetween

/-! ### The walk behind the gap -/

/-- The walks are broken at `gap` only, and repaired up to `index`. -/
structure Mending (hash : Key n → UInt64) (slots : Slots n β) (gap index : Nat) : Prop where
  gap_lt : gap < slots.size
  index_lt : index < slots.size
  vacant : slots.key? gap = none
  passed : ∀ j < slots.size, j ≠ gap →
    distance slots.size gap j ≤ distance slots.size gap index → slots.key? j ≠ none
  unbroken : ∀ i key, slots.key? i = some key → ∀ j < slots.size, j ≠ gap →
    distance slots.size (home hash slots.size key) j <
      distance slots.size (home hash slots.size key) i → slots.key? j ≠ none
  ahead : ∀ i key, slots.key? i = some key →
    distance slots.size (home hash slots.size key) gap <
      distance slots.size (home hash slots.size key) i →
    distance slots.size gap index < distance slots.size gap i

theorem Mending.home_lt (h : Mending hash slots gap index) (key : Key n) :
    home hash slots.size key < slots.size :=
  QueueWatch.home_lt hash (Nat.zero_lt_of_lt h.gap_lt) key

/-- The walk does not come back to the gap. -/
theorem Mending.nextSlot_ne (h : Mending hash slots gap index) {e : Nat} (he : e < slots.size)
    (hne : e ≠ gap) (hvacant : slots.key? e = none) : nextSlot slots.size index ≠ gap := by
  intro hclosed
  have hgap := h.gap_lt
  have hindex := h.index_lt
  have hnext := nextSlot_cases hindex
  have hback := distance_cases slots.size gap index
  have hlt := distance_lt hgap he
  exact h.passed e he hne (by omega) hvacant

/-- If the walk meets an empty slot, no entry came through the gap. -/
theorem Mending.reachable (h : Mending hash slots gap index)
    (hne : nextSlot slots.size index ≠ gap)
    (hnext : slots.key? (nextSlot slots.size index) = none) : Reachable hash slots := by
  intro i key hi j hj hlt
  by_cases hjgap : j = gap
  · subst hjgap
    -- The walk to `i` would have met the gap and then the empty slot behind `index`.
    have hilt := lt_size_of_key? hi
    have hahead := h.ahead i key hi hlt
    have hstep := distance_nextSlot h.gap_lt h.index_lt hne
    have hwhole := distance_add (h.home_lt key) h.gap_lt hilt (Nat.le_of_lt hlt)
    have hnextlt := nextSlot_lt h.index_lt
    have hnextne := ne_of_key? hnext hi
    have hstrict : distance slots.size j (nextSlot slots.size index) ≠
        distance slots.size j i :=
      fun heq => hnextne (eq_of_distance_eq h.gap_lt hnextlt hilt heq)
    have hvia := distance_cases slots.size (home hash slots.size key) j
    have hvia' := distance_cases slots.size j (nextSlot slots.size index)
    have hdirect := distance_cases slots.size (home hash slots.size key)
      (nextSlot slots.size index)
    have hend := distance_lt (h.home_lt key) hilt
    have hhome := h.home_lt key
    exact absurd hnext (h.unbroken i key hi _ hnextlt hne (by omega))
  · exact h.unbroken i key hi j hj hjgap hlt

/-- An entry that did not come through the gap stays. -/
theorem Mending.skip (h : Mending hash slots gap index)
    (hne : nextSlot slots.size index ≠ gap) {key : Key n}
    (hkey : slots.key? (nextSlot slots.size index) = some key)
    (hstays : ¬ distance slots.size (home hash slots.size key) gap <
      distance slots.size (home hash slots.size key) (nextSlot slots.size index)) :
    Mending hash slots gap (nextSlot slots.size index) where
  gap_lt := h.gap_lt
  index_lt := nextSlot_lt h.index_lt
  vacant := h.vacant
  unbroken := h.unbroken
  passed := by
    intro j hj hjgap hle
    rw [distance_nextSlot h.gap_lt h.index_lt hne] at hle
    rcases Nat.lt_or_eq_of_le hle with hlt | heq
    · exact h.passed j hj hjgap (Nat.le_of_lt_succ hlt)
    · rw [← distance_nextSlot h.gap_lt h.index_lt hne] at heq
      rw [eq_of_distance_eq h.gap_lt hj (nextSlot_lt h.index_lt) heq, hkey]
      simp
  ahead := by
    intro i other hi hlt
    have hilt := lt_size_of_key? hi
    have hahead := h.ahead i other hi hlt
    have hstep := distance_nextSlot h.gap_lt h.index_lt hne
    have hother : nextSlot slots.size index ≠ i := by
      rintro rfl
      rw [hkey] at hi
      cases hi
      exact hstays hlt
    have hstrict : distance slots.size gap (nextSlot slots.size index) ≠
        distance slots.size gap i :=
      fun heq => hother (eq_of_distance_eq h.gap_lt (nextSlot_lt h.index_lt) hilt heq)
    omega

/-- An entry that came through the gap is moved into it and leaves a gap behind. -/
theorem Mending.move (h : Mending hash slots gap index) {i : Nat} {e : Key n × β}
    (hi : slots.key? i = some e.1)
    (hcame : distance slots.size (home hash slots.size e.1) gap <
      distance slots.size (home hash slots.size e.1) i) :
    Mending hash (slots.moveBack gap i e) i i := by
  have hilt := lt_size_of_key? hi
  have hkey := key?_moveBack h.gap_lt hilt e
  constructor
  case gap_lt => simpa using hilt
  case index_lt => simpa using hilt
  case vacant => rw [hkey, if_pos rfl]
  case passed =>
    intro j hj hjne hle
    rw [size_moveBack] at hj hle
    rw [distance_self] at hle
    exact absurd (distance_pos hilt (Ne.symm hjne)) (Nat.not_lt.2 hle)
  case unbroken =>
    intro j key hj k hk hkne hlt
    rw [size_moveBack] at hk hlt
    rw [hkey] at hj ⊢
    rw [if_neg (Ne.symm hkne)]
    split
    · simp
    · split at hj
      · cases hj
      · split at hj
        · rename_i hkgap _ hgapj
          subst hgapj
          obtain rfl : e.1 = key := by simpa using hj
          exact h.unbroken i e.1 hi k hk (Ne.symm hkgap) (Nat.lt_trans hlt hcame)
        · rename_i hkgap _ _
          exact h.unbroken j key hj k hk (Ne.symm hkgap) hlt
  case ahead =>
    intro j key hj _
    rw [size_moveBack, distance_self]
    exact distance_pos hilt (ne_of_key? (by rw [hkey, if_pos rfl]) hj)

/-- Emptying a slot breaks the walks to keys there only. -/
theorem Reachable.mending (h : Reachable hash slots) {key : Key n}
    (hgap : slots.key? gap = some key) :
    Mending hash (slots.setIfInBounds gap none) gap gap := by
  have hlt := lt_size_of_key? hgap
  have hkey := key?_write hlt (none : Option (Key n × β))
  constructor
  case gap_lt => simpa using hlt
  case index_lt => simpa using hlt
  case vacant =>
    rw [hkey, if_pos rfl]
    rfl
  case passed =>
    intro j hj hne hle
    rw [Array.size_setIfInBounds, distance_self] at hle
    exact absurd (distance_pos hlt (Ne.symm hne)) (Nat.not_lt.2 hle)
  case unbroken =>
    intro i other hi j hj hne hless
    rw [Array.size_setIfInBounds] at hj hless
    rw [hkey, if_neg (Ne.symm hne)]
    rw [hkey] at hi
    split at hi
    · cases hi
    · exact h i other hi j hj hless
  case ahead =>
    intro i other hi _
    rw [Array.size_setIfInBounds, distance_self]
    exact distance_pos hlt (ne_of_key? (by rw [hkey, if_pos rfl]; rfl) hi)

/-! ### Where the walk ends -/

/-- Closes a gap, and tells at which empty slot the walk ended. It tells none if the walk came to no
empty slot within the given number of further steps. -/
def closeGapUntil (hash : Key n → UInt64) (slots : Slots n β) (gap index : Nat) :
    Nat → Slots n β × Option Nat
  | 0 => (slots, none)
  | steps + 1 =>
      let index := nextSlot slots.size index
      match slots.occupant? index with
      | none => (slots, some index)
      | some (key, value) =>
          if cameThrough (home hash slots.size key) gap index then
            closeGapUntil hash (slots.moveBack gap index (key, value)) index index steps
          else closeGapUntil hash slots gap index steps

theorem closeGapUntil_fst (hash : Key n → UInt64) (slots : Slots n β) (gap index steps : Nat) :
    (closeGapUntil hash slots gap index steps).1 = closeGapFrom hash slots gap index steps := by
  induction steps generalizing slots gap index with
  | zero => rfl
  | succ steps ih =>
      rw [closeGapUntil, closeGapFrom]
      cases slots.occupant? (nextSlot slots.size index) with
      | none => rfl
      | some e =>
          dsimp only
          split
          · exact ih ..
          · exact ih ..

/-- What closing a gap makes of a ring, where `touched` says which slots it may change. -/
structure Repaired (hash : Key n → UInt64) (touched : Nat → Prop) (slots closed : Slots n β) :
    Prop where
  reachable : Reachable hash closed
  perm : closed.entries.Perm slots.entries
  movedBack : ∃ move, MovedBack hash move slots closed
  kept : ∀ j < slots.size, ¬ touched j → closed.occupant? j = slots.occupant? j

variable {touched touched' : Nat → Prop} {closed : Slots n β}

theorem Repaired.mono (h : Repaired hash touched slots closed)
    (hless : ∀ j < slots.size, touched j → touched' j) : Repaired hash touched' slots closed where
  reachable := h.reachable
  perm := h.perm
  movedBack := h.movedBack
  kept j hj huntouched := h.kept j hj fun htouched => huntouched (hless j hj htouched)

/-- A ring in which an entry has been moved into the gap first. -/
theorem Repaired.of_moveBack {i : Nat} {e : Key n × β}
    (h : Repaired hash touched (slots.moveBack gap i e) closed) (hgap : gap < slots.size)
    (hvacant : slots.key? gap = none) (hentry : slots.occupant? i = some e)
    (hback : distance slots.size (home hash slots.size e.1) gap <
      distance slots.size (home hash slots.size e.1) i)
    (htouchedGap : touched gap) (htouched : touched i) : Repaired hash touched slots closed where
  reachable := h.reachable
  perm := h.perm.trans (entries_moveBack hgap hvacant hentry)
  movedBack := by
    obtain ⟨move, hmove⟩ := h.movedBack
    exact ⟨_, (movedBack_moveBack hgap hvacant hentry hback).trans hmove⟩
  kept := by
    intro j hj huntouched
    have hjgap : gap ≠ j := fun heq => huntouched (heq ▸ htouchedGap)
    have hji : i ≠ j := fun heq => huntouched (heq ▸ htouched)
    rw [h.kept j (by simpa using hj) huntouched,
      occupant?_moveBack hgap (lt_size_of_occupant? hentry), if_neg hji, if_neg hjgap]

/-- Closing the gap makes every key reachable again and ends at the next empty slot. It touches the
gap and what lies before that slot. -/
theorem Mending.closeGapUntil (steps : Nat) :
    ∀ (slots : Slots n β) (gap index : Nat), Mending hash slots gap index →
      slots.NextVacant index stop → stop ≠ gap → distance slots.size index stop ≤ steps →
      ∃ closed, closeGapUntil hash slots gap index steps = (closed, some stop) ∧
        Repaired hash (fun j => j = gap ∨ Between slots.size index stop j) slots closed := by
  induction steps with
  | zero =>
      intro slots gap index h hstop hgap hsteps
      have hpos := distance_pos h.index_lt hstop.ne.symm
      omega
  | succ steps ih =>
      intro slots gap index h hstop hgap hsteps
      have hnext := h.nextSlot_ne hstop.stop_lt hgap hstop.vacant
      have hlt := nextSlot_lt h.index_lt
      have hstep := distance_nextSlot_left h.index_lt hstop.stop_lt hstop.ne.symm
      rw [Slots.closeGapUntil]
      split
      · next hempty =>
          rw [← key?_eq_none_iff] at hempty
          rw [hstop.eq_nextSlot h.index_lt hempty]
          exact ⟨slots, rfl, h.reachable hnext hempty, .refl _, ⟨id, .refl hash slots⟩,
            fun _ _ _ => rfl⟩
      · next key value hentry =>
          have hkey := key?_of_occupant? hentry
          have hcame := cameThrough_iff (h.home_lt key) h.gap_lt hlt (Ne.symm hnext)
          have hne := ne_of_key? hstop.vacant hkey
          have hstop' := hstop.step h.index_lt hne
          have hbetween := between_nextSlot h.index_lt hstop.stop_lt hstop.ne hne
          split
          · next hthrough =>
              have hback := hcame.1 hthrough
              obtain ⟨closed, hclosed, hrepaired⟩ := ih _ _ _
                (h.move (e := (key, value)) hkey hback) (hstop'.moveBack h.gap_lt hlt hgap) hne
                (by rw [size_moveBack]; omega)
              refine ⟨closed, hclosed, (hrepaired.mono ?_).of_moveBack h.gap_lt h.vacant hentry
                hback (.inl rfl) (.inr hbetween)⟩
              intro j hj htouched
              rw [size_moveBack] at hj htouched
              rcases htouched with rfl | hlater
              · exact .inr hbetween
              · exact .inr (hlater.of_nextSlot h.index_lt hstop.stop_lt hstop.ne hj)
          · next hstays =>
              obtain ⟨closed, hclosed, hrepaired⟩ := ih _ _ _
                (h.skip hnext hkey fun hlt => hstays (hcame.2 hlt)) hstop' hgap (by omega)
              refine ⟨closed, hclosed, hrepaired.mono fun j hj htouched => ?_⟩
              exact htouched.imp_right fun hlater =>
                hlater.of_nextSlot h.index_lt hstop.stop_lt hstop.ne hj

/-! ### Emptying a slot -/

/-- Emptying a slot and closing the gap, if another slot is empty. -/
theorem Reachable.closeGap (h : Reachable hash slots) {e : Key n × β}
    (hgap : slots.occupant? gap = some e)
    (hvacant : ∃ v, v < slots.size ∧ slots.occupant? v = none) :
    let emptied : Slots n β := slots.setIfInBounds gap none
    ∃ stop, emptied.NextVacant gap stop ∧
      closeGapUntil hash emptied gap gap emptied.size =
        (Slots.closeGap hash emptied gap, some stop) ∧
      Repaired hash (fun j => j = gap ∨ Between emptied.size gap stop j) emptied
        (Slots.closeGap hash emptied gap) := by
  intro emptied
  obtain ⟨v, hv, hnone⟩ := hvacant
  have hkey := key?_of_occupant? (show slots.occupant? gap = some (e.1, e.2) from hgap)
  rw [← key?_eq_none_iff] at hnone
  have hne := ne_of_key? hnone hkey
  have hempty : emptied.key? v = none := by
    rw [key?_write (lt_size_of_key? hkey), if_neg hne.symm, hnone]
  obtain ⟨stop, hstop⟩ := exists_nextVacant (by simpa [emptied] using hv) hne hempty
  have hmending := h.mending hkey
  obtain ⟨closed, hclosed, hrepaired⟩ := hmending.closeGapUntil emptied.size emptied gap gap hstop
    hstop.ne (distance_lt hmending.gap_lt hstop.stop_lt).le
  have hfst := closeGapUntil_fst hash emptied gap gap emptied.size
  rw [hclosed] at hfst
  obtain rfl : closed = Slots.closeGap hash emptied gap := hfst
  exact ⟨stop, hstop, hclosed, hrepaired⟩

/-- Emptying a slot and closing the gap takes the key of the slot away and keeps the ring chained,
if another slot is empty. -/
theorem Chained.closeGap (h : Chained hash slots) {e : Key n × β}
    (hgap : slots.occupant? gap = some e)
    (hvacant : ∃ v, v < slots.size ∧ slots.occupant? v = none) :
    let closed := closeGap hash (slots.setIfInBounds gap none) gap
    Chained hash closed ∧ slots.entries.Perm (e :: closed.entries) ∧
      ∀ other value, closed.Stores other value ↔ other ≠ e.1 ∧ slots.Stores other value := by
  intro closed
  have hkey : slots.key? gap = some e.1 := key?_of_occupant? hgap
  obtain ⟨_, -, -, hrepaired⟩ := h.reachable.closeGap hgap hvacant
  obtain ⟨move, hmove⟩ := hrepaired.movedBack
  have hdistinct := hmove.distinct (h.distinct.write_none (lt_size_of_key? hkey))
  refine ⟨⟨hdistinct, hrepaired.reachable⟩,
    (entries_write_none hgap).trans (hrepaired.perm.symm.cons e), fun other value => ?_⟩
  have hmem := hrepaired.perm.mem_iff (a := (other, value))
  rw [mem_entries, mem_entries] at hmem
  exact hmem.trans (h.distinct.stores_write_none hkey)

/-- An entry is removed from a ring of any size in which every key can be reached, whatever keys
there are and however often, and then at least two slots are empty. The walk that closes the gap
ends at the next empty slot behind it, before it runs out of steps. Every key that is left can be
reached again, the entries that are left are those from before, no slot from that empty one on to
the gap is changed, and an entry that has moved stands between its home and its old slot. -/
theorem closeGap_repairs (hash : Key n → UInt64) (slots : Slots n β) (gap : Nat) (e : Key n × β)
    (hreachable : Reachable hash slots) (hentry : slots.occupant? gap = some e) :
    let emptied : Slots n β := slots.setIfInBounds gap none
    let closed := closeGap hash emptied gap
    (∃ u < slots.size, ∃ v < slots.size, u ≠ v ∧ emptied.occupant? u = none ∧
      emptied.occupant? v = none) →
    ∃ stop move, emptied.NextVacant gap stop ∧
      closeGapUntil hash emptied gap gap emptied.size = (closed, some stop) ∧
      Reachable hash closed ∧
      slots.entries.Perm (e :: emptied.entries) ∧ closed.entries.Perm emptied.entries ∧
      (∀ j < slots.size, distance slots.size gap stop ≤ distance slots.size gap j →
        closed.occupant? j = emptied.occupant? j) ∧
      MovedBack hash move emptied closed := by
  intro emptied closed htwo
  have hgap := lt_size_of_occupant? hentry
  have hsize : emptied.size = slots.size := by simp [emptied]
  have hvacant : ∃ v, v < slots.size ∧ slots.occupant? v = none := by
    obtain ⟨u, hu, v, hv, hne, hunone, hvnone⟩ := htwo
    rw [occupant?_write hgap] at hunone hvnone
    by_cases hugap : gap = u
    · rw [if_neg (by omega)] at hvnone
      exact ⟨v, hv, hvnone⟩
    · rw [if_neg hugap] at hunone
      exact ⟨u, hu, hunone⟩
  obtain ⟨stop, hstop, hclosed, hrepaired⟩ := hreachable.closeGap hentry hvacant
  obtain ⟨move, hmove⟩ := hrepaired.movedBack
  refine ⟨stop, move, hstop, hclosed, hrepaired.reachable, entries_write_none hentry,
    hrepaired.perm, ?_, hmove⟩
  intro j hj hbeyond
  refine hrepaired.kept j (hsize.symm ▸ hj) ?_
  rintro (rfl | ⟨-, hless⟩)
  · have hpos := distance_pos hgap hstop.ne.symm
    rw [distance_self] at hbeyond
    omega
  · rw [hsize] at hless
    omega

/-- A removal from the last slot of a ring, in front of two entries that went on past its end and
one that is at home between them. The two move back, one of them past the end, and the other one
stays. -/
theorem closeGap_repairs_wrapped :
    let hash : Key 1 → UInt64 := fun key => (key.toList.headD 0).toUInt64
    let ring : Slots 1 Nat := #[some (#v[15], 1), some (#v[1], 2), some (#v[23], 3), none, none,
      none, none, some (#v[7], 0)]
    let closed := closeGap hash (ring.setIfInBounds 7 none) 7
    Reachable hash ring ∧
      closed = #[some (#v[23], 3), some (#v[1], 2), none, none, none, none, none,
        some (#v[15], 1)] ∧
      Reachable hash closed ∧
      ∃ stop, closeGapUntil hash (ring.setIfInBounds 7 none) 7 7 8 = (closed, some stop) := by
  intro hash ring closed
  have hreachable : Reachable hash ring := by decide +kernel
  obtain ⟨stop, _, -, hclosed, hagain, -⟩ := closeGap_repairs hash ring 7 (#v[7], 0) hreachable rfl
    ⟨3, by decide, 4, by decide, by decide, rfl, rfl⟩
  exact ⟨hreachable, by decide +kernel, hagain, stop, hclosed⟩

end Slots

end QueueWatch
