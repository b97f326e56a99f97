import Mathlib.Data.Finset.Card
import QueueWatch.Proofs.SlotTable.Refinement
import QueueWatch.Proofs.SlotTable.Layout

/-!
# Which slots are occupied

Where an entry stands depends on what was stored and removed before it. Which slots are occupied
does not: in a chained ring with an empty slot it depends on the keys alone, and more keys occupy
more slots (`Chained.occupied_of_keys`).

The reason is a count. Suppose a slot is occupied in one ring and empty in another that has the same
keys, and look at the occupied slots of the first ring up to this one, back to the nearest empty
slot. The keys in this arc have their homes in it, since no walk crosses an empty slot. In the other
ring they have to stand in the arc as well, since none of their walks goes beyond its end, but its
end is empty there, which leaves one slot too few.

So a table has the slots occupied that linear probing would fill with its keys, in any order, in an
empty ring of its capacity (`SlotTable.occupied_run`), and removals leave no trace.
-/

namespace QueueWatch

/-- The slots from which fewer than `count` steps lead to a slot. -/
def arc (capacity stop count : Nat) : Finset Nat :=
  (Finset.range capacity).filter fun i => distance capacity i stop < count

theorem mem_arc {c stop count i : Nat} :
    i ∈ arc c stop count ↔ i < c ∧ distance c i stop < count := by
  rw [arc, Finset.mem_filter, Finset.mem_range]

/-- A walk to `u` that begins farther from it than `t` leads through `t`. -/
theorem distance_add_of_le {c s t u : Nat} (hs : s < c) (ht : t < c)
    (h : distance c t u ≤ distance c s u) :
    distance c s t + distance c t u = distance c s u := by
  have := distance_cases c s t
  have := distance_cases c s u
  have := distance_cases c t u
  omega

namespace Slots

variable {n : Nat} {β : Type} {hash : Key n → UInt64} {slots slots' : Slots n β} {key : Key n}

/-- The slots that hold an entry, in order. -/
def occupied (slots : Slots n β) : List Nat :=
  (List.range slots.size).filter fun i => (slots.occupant? i).isSome

/-- The nearest empty slot before a slot: every slot behind it, up to the given one, is occupied. -/
theorem exists_nearest_vacant (hvacant : ∃ e, e < slots.size ∧ slots.occupant? e = none)
    (i : Nat) : ∃ e, e < slots.size ∧ slots.key? e = none ∧
      ∀ j ∈ arc slots.size i (distance slots.size e i), slots.key? j ≠ none := by
  classical
  have hsome : ∃ steps e,
      e < slots.size ∧ slots.key? e = none ∧ distance slots.size e i = steps := by
    rcases hvacant with ⟨e, he, hnone⟩
    exact ⟨_, e, he, key?_eq_none_iff.2 hnone, rfl⟩
  rcases Nat.find_spec hsome with ⟨e, he, hnone, hsteps⟩
  refine ⟨e, he, hnone, ?_⟩
  intro j hj hj'
  rw [mem_arc, hsteps] at hj
  exact Nat.find_min hsome hj.2 ⟨j, hj.1, hj', rfl⟩

/-- No walk to an entry crosses an empty slot, so an entry behind it has its home behind it. -/
theorem Chained.home_mem_arc (h : Chained hash slots) {i j e : Nat} (hi : i < slots.size)
    (he : e < slots.size) (hnone : slots.key? e = none)
    (hj : j ∈ arc slots.size i (distance slots.size e i)) (hkey : slots.key? j = some key) :
    home hash slots.size key ∈ arc slots.size i (distance slots.size e i) := by
  rw [mem_arc] at hj ⊢
  have hhome := home_lt hash (Nat.zero_lt_of_lt hi) key
  refine ⟨hhome, Nat.lt_of_not_le fun hfar => ?_⟩
  -- The home lies before the empty slot, so the walk from there to `j` meets it.
  have hempty := distance_add_of_le hhome he hfar
  have hentry := distance_add_of_le hhome hj.1 (hj.2.le.trans hfar)
  have hbehind := h.reachable.vacant_behind hkey he hnone
  omega

/-- No walk to an entry crosses an empty slot, so an entry whose home lies before it stands before
it. -/
theorem Chained.mem_arc_of_home (h : Chained hash slots) {i j count : Nat} (hi : i < slots.size)
    (hnone : slots.key? i = none) (hkey : slots.key? j = some key)
    (hhome : home hash slots.size key ∈ arc slots.size i count) :
    j ∈ (arc slots.size i count).erase i := by
  rw [mem_arc] at hhome
  have hj := lt_size_of_key? hkey
  have hrest := distance_add hhome.1 hj hi (h.reachable.vacant_behind hkey hi hnone).le
  rw [Finset.mem_erase, mem_arc]
  exact ⟨(ne_of_key? hnone hkey).symm, hj, by omega⟩

/-- A slot that is occupied in a ring is occupied in every ring of the same capacity that has all of
its keys. -/
theorem Chained.occupied_of_keys (h : Chained hash slots) (h' : Chained hash slots')
    (hsize : slots'.size = slots.size) (hvacant : ∃ e, e < slots.size ∧ slots.occupant? e = none)
    (hkeys : ∀ j key, slots.key? j = some key → ∃ k, slots'.key? k = some key) {i : Nat}
    (hi : slots.key? i ≠ none) : slots'.key? i ≠ none := by
  intro hempty
  rcases Option.ne_none_iff_exists'.1 hi with ⟨_, hkey⟩
  have hlt := lt_size_of_key? hkey
  rcases exists_nearest_vacant hvacant i with ⟨e, he, hnone, hfull⟩
  have hmoves : ∀ j ∈ arc slots.size i (distance slots.size e i),
      ∃ k ∈ (arc slots.size i (distance slots.size e i)).erase i,
        ∃ key, slots.key? j = some key ∧ slots'.key? k = some key := by
    intro j hj
    rcases Option.ne_none_iff_exists'.1 (hfull j hj) with ⟨key, hjkey⟩
    rcases hkeys j key hjkey with ⟨k, hkkey⟩
    have hhome := h.home_mem_arc hlt he hnone hj hjkey
    rw [← hsize] at hhome hlt
    have hk := h'.mem_arc_of_home hlt hempty hkkey hhome
    rw [hsize] at hk
    exact ⟨k, hk, key, hjkey, hkkey⟩
  choose! move hmove hsame using hmoves
  have hinj : Set.InjOn move (arc slots.size i (distance slots.size e i)) := by
    intro j hj k hk hjk
    rcases hsame j hj with ⟨key, hjkey, hmoved⟩
    rcases hsame k hk with ⟨key', hkkey, hmoved'⟩
    rw [hjk, hmoved', Option.some.injEq] at hmoved
    subst hmoved
    exact h.distinct j k key' hjkey hkkey
  have hcard := Finset.card_le_card_of_injOn move hmove hinj
  have hend : i ∈ arc slots.size i (distance slots.size e i) := by
    refine mem_arc.2 ⟨hlt, ?_⟩
    rw [distance_self]
    refine distance_pos he ?_
    rintro rfl
    exact hi hnone
  exact Nat.not_lt.2 hcard (Finset.card_erase_lt_of_mem hend)

/-- Rings with the same keys have the same slots occupied. -/
theorem Chained.occupied_eq (h : Chained hash slots) (h' : Chained hash slots')
    (hsize : slots'.size = slots.size) (hvacant : ∃ e, e < slots.size ∧ slots.occupant? e = none)
    (hvacant' : ∃ e, e < slots'.size ∧ slots'.occupant? e = none)
    (hkeys : ∀ key, (∃ i, slots.key? i = some key) ↔ ∃ i, slots'.key? i = some key) :
    slots.occupied = slots'.occupied := by
  rw [occupied, occupied, hsize]
  apply List.filter_congr
  intro i _
  rw [Bool.eq_iff_iff, Option.isSome_iff_ne_none, Option.isSome_iff_ne_none, ← key?_eq_none_iff.ne,
    ← key?_eq_none_iff.ne]
  constructor
  · exact h.occupied_of_keys h' hsize hvacant fun j key hj => (hkeys key).1 ⟨j, hj⟩
  · exact h'.occupied_of_keys h hsize.symm hvacant' fun j key hj => (hkeys key).2 ⟨j, hj⟩

/-- Placing entries in an empty ring fills the slots that are occupied in any ring with the same
keys. -/
theorem Chained.occupied_eq_placed (h : Chained hash slots)
    (hroom : slots.entries.length < slots.size) {es : List (Key n × β)}
    (hes : (es.map Prod.fst).Perm (slots.entries.map Prod.fst)) :
    (entries (es.foldl (place hash) (ofCapacity slots.size))).Perm es ∧
      slots.occupied = occupied (es.foldl (place hash) (ofCapacity slots.size)) := by
  have hlength : es.length = slots.entries.length := by simpa using hes.length_eq
  have hnodup : (es.map Prod.fst).Nodup := hes.nodup_iff.2 h.distinct.nodup_keys
  have hnew : ∀ e ∈ es, ∀ i, (ofCapacity slots.size : Slots n β).key? i ≠ some e.1 := by
    intro e _ i hi
    rcases key?_eq_some_iff.1 hi with ⟨value, hi⟩
    exact not_stores_ofCapacity slots.size e.1 value ⟨i, hi⟩
  have hfits : (ofCapacity slots.size : Slots n β).entries.length + es.length ≤
      (ofCapacity slots.size : Slots n β).size := by
    rw [entries_ofCapacity, size_ofCapacity, List.length_nil, Nat.zero_add, hlength]
    exact hroom.le
  rcases Chained.foldl_place es _ (chained_ofCapacity hash slots.size) hnodup hnew hfits with
    ⟨hplaced, hperm⟩
  rw [entries_ofCapacity, List.append_nil] at hperm
  have hsize : (es.foldl (place hash) (ofCapacity slots.size)).size = slots.size := by
    rw [size_foldl_place, size_ofCapacity]
  refine ⟨hperm, h.occupied_eq hplaced hsize (exists_vacant hroom) (exists_vacant ?_) ?_⟩
  · rw [hperm.length_eq, hlength, hsize]
    exact hroom
  · intro key
    rw [exists_key?_iff_mem_keys, exists_key?_iff_mem_keys, ← hes.mem_iff,
      (hperm.map Prod.fst).mem_iff]

end Slots

namespace SlotTable

open Slots

variable {κ β : Type} {n : Nat} {t : SlotTable κ n β}

theorem WellFormed.mem_keys (h : t.WellFormed) {key : Key n} :
    key ∈ t.entries.map Prod.fst ↔ t.getKey? key ≠ none := by
  rw [Ne, h.getKey?_eq_none_iff, not_forall_not]
  exact exists_key?_iff_mem_keys.symm

/-- Removing a key leaves the other keys. -/
theorem WellFormed.keys_eraseKey (h : t.WellFormed) (key : Key n) :
    ((t.eraseKey key).2.entries.map Prod.fst).Perm
      ((t.entries.map Prod.fst).filter (· ≠ key)) := by
  rcases h.eraseKey key with ⟨-, herased, hfound⟩
  rw [List.perm_ext_iff_of_nodup herased.nodup_keys (h.nodup_keys.filter _)]
  intro k
  rw [List.mem_filter, h.mem_keys, herased.mem_keys, hfound]
  split
  · next hkey => simp [hkey]
  · next hkey => simp [Ne.symm hkey]

/-- After any calls to a table, the slots are occupied that are filled by placing entries with the
same keys, in any order, in an empty ring of the same capacity. So once a key is removed, the slots
are occupied that would be if it had never been there. -/
theorem occupied_run (capacity : Nat) (f : LoadFactor) (encoder : κ → Key n)
    (hasher : Key n → UInt64) (cs : List (TableCall κ n β)) :
    let t := ((withHasher capacity f encoder hasher : SlotTable κ n β).run cs).2
    (∀ es : List (Key n × β), (es.map Prod.fst).Perm (t.entries.map Prod.fst) →
      let placed := es.foldl (place hasher) (ofCapacity t.capacity)
      placed.entries.Perm es ∧ t.slots.occupied = placed.occupied) ∧
    ∀ (key : Key n) (es : List (Key n × β)),
      (es.map Prod.fst).Perm ((t.entries.map Prod.fst).filter (· ≠ key)) →
        let placed := es.foldl (place hasher) (ofCapacity t.capacity)
        placed.entries.Perm es ∧ (t.eraseKey key).2.slots.occupied = placed.occupied := by
  intro t
  have hrun : t.WellFormed ∧ t.hasher = hasher ∧ t.loadFactor = f :=
    (wellFormed_withHasher capacity f encoder hasher).run cs
  clear_value t
  rcases hrun with ⟨hwell, rfl, -⟩
  constructor
  · intro es hes
    exact hwell.chained.occupied_eq_placed hwell.length_entries_lt hes
  · intro key es hes
    have herased := (hwell.eraseKey key).2.1
    have hhasher := (hasher_loadFactor_eraseKey t key).1
    have hcapacity : (t.eraseKey key).2.slots.size = t.capacity := capacity_eraseKey t key
    have hplaced := herased.chained.occupied_eq_placed herased.length_entries_lt
      (hes.trans (hwell.keys_eraseKey key).symm)
    rw [hhasher, hcapacity] at hplaced
    exact hplaced

/-- Some keys are removed, and one of them is stored again. -/
def crowdedCalls : List (TableCall (Key 1) 1 Nat) :=
  [.insert #v[1] 10, .insert #v[2] 20, .insert #v[3] 30, .insert #v[4] 40, .erase #v[1],
    .erase #v[3], .insert #v[3] 60]

/-- A table in which every key has the last slot as its home, so that the entries go on at the start
of the ring. -/
def crowded : SlotTable (Key 1) 1 Nat :=
  ((withHasher 8 ⟨1, 0, by decide, by decide⟩ id fun _ => 7).run crowdedCalls).2

theorem occupied_run_crowded :
    crowded.slots = #[some (#v[4], 40), some (#v[3], 60), none, none, none, none, none,
        some (#v[2], 20)] ∧
      crowded.slots.occupied =
        occupied ([(#v[2], 0), (#v[3], 0), (#v[4], 0)].foldl (place fun _ => 7)
          (ofCapacity crowded.capacity)) ∧
      (crowded.eraseKey #v[2]).2.slots.occupied =
        occupied ([(#v[3], 0), (#v[4], 0)].foldl (place fun _ => 7)
          (ofCapacity crowded.capacity)) := by
  have hrun := occupied_run 8 ⟨1, 0, by decide, by decide⟩ id (fun _ => 7) crowdedCalls
  refine ⟨by decide +kernel, (hrun.1 _ ?_).2, (hrun.2 #v[2] _ ?_).2⟩
  · decide +kernel
  · decide +kernel

end SlotTable

end QueueWatch
