import Mathlib.Data.List.Forall2
import QueueWatch.Proofs.SlotTable.Invariant
import Std.Data.ExtTreeMap

/-!
# Slot tables as finite maps

Whatever calls are made to a table, it answers like a finite map from binary keys to values that
gets the same calls: the table `Represents` the map when it begins empty, and every call keeps it so
and gets the same answer (`Represents.call`). Entries are listed in the order of their slots, which
the map does not know, so listings agree up to their order. Nothing depends on the hasher, on the
load factor, or on when the table grows.
-/

namespace QueueWatch

/-- A call to a table. A key is given as such or in its binary form. -/
inductive TableCall (κ : Type) (n : Nat) (β : Type) where
  | insert (key : κ) (value : β)
  | insertKey (key : Key n) (value : β)
  | get (key : κ)
  | getKey (key : Key n)
  | modify (key : κ) (change : β → β)
  | modifyKey (key : Key n) (change : β → β)
  | contains (key : κ)
  | erase (key : κ)
  | eraseKey (key : Key n)
  | clear
  | entries
  | mapValues (change : Key n → β → β)
  | size
  | isEmpty

/-- The answer to a call. -/
inductive TableReply (n : Nat) (β : Type) where
  | value (found : Option β)
  | answer (yes : Bool)
  | count (size : Nat)
  | listing (entries : List (Key n × β))
  | done

/-- Answers agree if they are equal; the order of a listing does not matter. -/
inductive TableReply.Agrees {n : Nat} {β : Type} : TableReply n β → TableReply n β → Prop where
  | same (r : TableReply n β) : Agrees r r
  | listing {es es' : List (Key n × β)} (h : es.Perm es') : Agrees (.listing es) (.listing es')

namespace SlotTable

variable {κ β : Type} {n : Nat}

/-- Makes one call. Changing a value gives the value from before, and changing all values lists the
entries that are changed. -/
def call (t : SlotTable κ n β) : TableCall κ n β → TableReply n β × SlotTable κ n β
  | .insert key value => (.value (t.insert key value).1, (t.insert key value).2)
  | .insertKey key value => (.value (t.insertKey key value).1, (t.insertKey key value).2)
  | .get key => (.value (t.get? key), t)
  | .getKey key => (.value (t.getKey? key), t)
  | .modify key change => (.value (t.get? key), t.modify key change)
  | .modifyKey key change => (.value (t.getKey? key), t.modifyKey key change)
  | .contains key => (.answer (t.contains key), t)
  | .erase key => (.value (t.erase key).1, (t.erase key).2)
  | .eraseKey key => (.value (t.eraseKey key).1, (t.eraseKey key).2)
  | .clear => (.done, t.clear)
  | .entries => (.listing t.entries, t)
  | .mapValues change => (.listing t.entries, t.mapValues change)
  | .size => (.count t.size, t)
  | .isEmpty => (.answer t.isEmpty, t)

/-- Makes one call after the other. -/
def run (t : SlotTable κ n β) : List (TableCall κ n β) → List (TableReply n β) × SlotTable κ n β
  | [] => ([], t)
  | c :: cs => ((t.call c).1 :: ((t.call c).2.run cs).1, ((t.call c).2.run cs).2)

end SlotTable

/-- A finite map from binary keys to values. -/
abbrev FiniteMap (n : Nat) (β : Type) := Std.ExtTreeMap (Key n) β

namespace FiniteMap

variable {κ β : Type} {n : Nat}

/-- The call as a finite map answers it. -/
def call (encoder : κ → Key n) (m : FiniteMap n β) :
    TableCall κ n β → TableReply n β × FiniteMap n β
  | .insert key value => (.value m[encoder key]?, m.insert (encoder key) value)
  | .insertKey key value => (.value m[key]?, m.insert key value)
  | .get key => (.value m[encoder key]?, m)
  | .getKey key => (.value m[key]?, m)
  | .modify key change => (.value m[encoder key]?, m.modify (encoder key) change)
  | .modifyKey key change => (.value m[key]?, m.modify key change)
  | .contains key => (.answer (m.contains (encoder key)), m)
  | .erase key => (.value m[encoder key]?, m.erase (encoder key))
  | .eraseKey key => (.value m[key]?, m.erase key)
  | .clear => (.done, ∅)
  | .entries => (.listing m.toList, m)
  | .mapValues change => (.listing m.toList, m.map change)
  | .size => (.count m.size, m)
  | .isEmpty => (.answer m.isEmpty, m)

def run (encoder : κ → Key n) (m : FiniteMap n β) :
    List (TableCall κ n β) → List (TableReply n β) × FiniteMap n β
  | [] => ([], m)
  | c :: cs =>
      ((m.call encoder c).1 :: ((m.call encoder c).2.run encoder cs).1,
        ((m.call encoder c).2.run encoder cs).2)

end FiniteMap

namespace SlotTable

variable {κ β : Type} {n : Nat} {t : SlotTable κ n β} {m : FiniteMap n β}

/-- The table is in order and finds what the map finds. -/
structure Represents (t : SlotTable κ n β) (m : FiniteMap n β) : Prop where
  wellFormed : WellFormed t
  getKey?_eq : ∀ key, t.getKey? key = m[key]?

theorem Represents.entries_perm (h : Represents t m) : t.entries.Perm m.toList := by
  refine h.wellFormed.entries_perm ?_ fun key value => ?_
  · refine List.Nodup.of_map Prod.fst ?_
    rw [Std.ExtTreeMap.map_fst_toList_eq_keys]
    exact Std.ExtTreeMap.nodup_keys
  · rw [h.getKey?_eq, Std.ExtTreeMap.mem_toList_iff_getElem?_eq_some]

theorem Represents.size_eq (h : Represents t m) : t.size = m.size := by
  rw [← h.wellFormed.length_entries, h.entries_perm.length_eq, Std.ExtTreeMap.length_toList]

theorem Represents.insertKey (h : Represents t m) (key : Key n) (value : β) :
    Represents (t.insertKey key value).2 (m.insert key value) := by
  obtain ⟨-, hwell, hfound⟩ := h.wellFormed.insertKey key value
  refine ⟨hwell, fun k => ?_⟩
  rw [hfound, Std.ExtTreeMap.getElem?_insert, h.getKey?_eq]
  simp only [Std.LawfulEqCmp.compare_eq_iff_eq]

theorem Represents.modifyKey (h : Represents t m) (key : Key n) (change : β → β) :
    Represents (t.modifyKey key change) (m.modify key change) := by
  obtain ⟨hwell, hfound⟩ := h.wellFormed.modifyKey key change
  refine ⟨hwell, fun k => ?_⟩
  rw [hfound, Std.ExtTreeMap.getElem?_modify, h.getKey?_eq]
  simp only [Std.LawfulEqCmp.compare_eq_iff_eq]
  split
  · rename_i hkey
    rw [hkey]
  · rfl

theorem Represents.eraseKey (h : Represents t m) (key : Key n) :
    Represents (t.eraseKey key).2 (m.erase key) := by
  obtain ⟨-, hwell, hfound⟩ := h.wellFormed.eraseKey key
  refine ⟨hwell, fun k => ?_⟩
  rw [hfound, Std.ExtTreeMap.getElem?_erase, h.getKey?_eq]
  simp only [Std.LawfulEqCmp.compare_eq_iff_eq]

theorem Represents.clear (h : Represents t m) : Represents t.clear ∅ := by
  obtain ⟨hwell, hfound⟩ := h.wellFormed.clear
  refine ⟨hwell, fun k => ?_⟩
  rw [hfound, Std.ExtTreeMap.getElem?_empty]

theorem Represents.mapValues (h : Represents t m) (change : Key n → β → β) :
    Represents (t.mapValues change) (m.map change) := by
  obtain ⟨hwell, hfound⟩ := h.wellFormed.mapValues change
  refine ⟨hwell, fun k => ?_⟩
  rw [hfound, Std.ExtTreeMap.getElem?_map, h.getKey?_eq]

/-- A table gives the answer that the map gives, and goes on representing it. -/
theorem Represents.call (h : Represents t m) (c : TableCall κ n β) :
    (t.call c).1.Agrees (m.call t.encoder c).1 ∧ Represents (t.call c).2 (m.call t.encoder c).2 ∧
      (t.call c).2.encoder = t.encoder := by
  cases c with
  | insert key value =>
      refine ⟨?_, h.insertKey _ value, encoder_insertKey ..⟩
      simp only [SlotTable.call, FiniteMap.call, SlotTable.insert, encode,
        (h.wellFormed.insertKey _ value).1, h.getKey?_eq]
      exact .same _
  | insertKey key value =>
      refine ⟨?_, h.insertKey key value, encoder_insertKey ..⟩
      simp only [SlotTable.call, FiniteMap.call, (h.wellFormed.insertKey key value).1,
        h.getKey?_eq]
      exact .same _
  | get key =>
      refine ⟨?_, h, rfl⟩
      simp only [SlotTable.call, FiniteMap.call, SlotTable.get?, encode, h.getKey?_eq]
      exact .same _
  | getKey key =>
      refine ⟨?_, h, rfl⟩
      simp only [SlotTable.call, FiniteMap.call, h.getKey?_eq]
      exact .same _
  | modify key change =>
      refine ⟨?_, h.modifyKey _ change, encoder_modifyKey ..⟩
      simp only [SlotTable.call, FiniteMap.call, SlotTable.get?, encode, h.getKey?_eq]
      exact .same _
  | modifyKey key change =>
      refine ⟨?_, h.modifyKey key change, encoder_modifyKey ..⟩
      simp only [SlotTable.call, FiniteMap.call, h.getKey?_eq]
      exact .same _
  | contains key =>
      refine ⟨?_, h, rfl⟩
      simp only [SlotTable.call, FiniteMap.call, SlotTable.contains, SlotTable.get?, encode,
        h.getKey?_eq, Std.ExtTreeMap.contains_eq_isSome_getElem?]
      exact .same _
  | erase key =>
      refine ⟨?_, h.eraseKey _, encoder_eraseKey ..⟩
      simp only [SlotTable.call, FiniteMap.call, SlotTable.erase, encode,
        (h.wellFormed.eraseKey _).1, h.getKey?_eq]
      exact .same _
  | eraseKey key =>
      refine ⟨?_, h.eraseKey key, encoder_eraseKey ..⟩
      simp only [SlotTable.call, FiniteMap.call, (h.wellFormed.eraseKey key).1, h.getKey?_eq]
      exact .same _
  | clear => exact ⟨.same _, h.clear, encoder_clear _⟩
  | entries => exact ⟨.listing h.entries_perm, h, rfl⟩
  | mapValues change => exact ⟨.listing h.entries_perm, h.mapValues change, rfl⟩
  | size =>
      refine ⟨?_, h, rfl⟩
      simp only [SlotTable.call, FiniteMap.call, h.size_eq]
      exact .same _
  | isEmpty =>
      refine ⟨?_, h, rfl⟩
      simp only [SlotTable.call, FiniteMap.call, SlotTable.isEmpty, h.size_eq,
        Std.ExtTreeMap.isEmpty_eq_size_beq_zero]
      exact .same _

/-- A table that represents a map answers like the map, call after call. -/
theorem Represents.run (h : Represents t m) (cs : List (TableCall κ n β)) :
    List.Forall₂ TableReply.Agrees (t.run cs).1 (m.run t.encoder cs).1 ∧
      Represents (t.run cs).2 (m.run t.encoder cs).2 := by
  induction cs generalizing t m with
  | nil => exact ⟨.nil, h⟩
  | cons c cs ih =>
      obtain ⟨hagrees, hnext, hencoder⟩ := h.call c
      obtain ⟨hrest, hlast⟩ := ih hnext
      rw [hencoder] at hrest hlast
      exact ⟨.cons hagrees hrest, hlast⟩

/-- A table answers every sequence of calls like a finite map, and holds exactly the entries of that
map afterwards, each of them once. -/
theorem run_agrees_with_finiteMap (capacity : Nat) (f : LoadFactor) (encoder : κ → Key n)
    (hasher : Key n → UInt64) (cs : List (TableCall κ n β)) :
    List.Forall₂ TableReply.Agrees ((withHasher capacity f encoder hasher).run cs).1
        (FiniteMap.run encoder ∅ cs).1 ∧
      ((withHasher capacity f encoder hasher).run cs).2.entries.Perm
        (FiniteMap.run encoder ∅ cs).2.toList ∧
      (((withHasher capacity f encoder hasher).run cs).2.entries.map Prod.fst).Nodup ∧
      ((withHasher capacity f encoder hasher).run cs).2.size =
        (FiniteMap.run encoder ∅ cs).2.size := by
  have hstart : Represents (withHasher capacity f encoder hasher) (∅ : FiniteMap n β) :=
    ⟨wellFormed_withHasher .., fun key => by
      rw [getKey?_withHasher, Std.ExtTreeMap.getElem?_empty]⟩
  obtain ⟨hagrees, hlast⟩ := hstart.run cs
  exact ⟨hagrees, hlast.entries_perm, hlast.wellFormed.nodup_keys, hlast.size_eq⟩

end SlotTable

end QueueWatch
