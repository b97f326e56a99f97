import QueueWatch.Proofs.Number.Doubling
import QueueWatch.Proofs.SlotTable.Layout

/-!
# The capacity of a table

A table that a new key leaves with too little room is doubled until there is room. One doubling need
not be enough: with a small load factor the threshold, which is rounded down, stays the same for
many of them. The loop ends all the same, and after the fewest doublings that make room
(`WellFormed.insertKey_eq_iterate_double`). No other call changes the capacity
(`WellFormed.call_cases`).

So the capacity after any calls is the initial one after the fewest doublings that make room for the
largest size that the table has had (`capacity_run`). When it grew, and what was removed in between,
does not show.
-/

namespace QueueWatch

namespace SlotTable

open Slots

variable {κ β : Type} {n : Nat} {t : SlotTable κ n β}

/-! ### Doubling -/

theorem capacity_iterate_double (t : SlotTable κ n β) (k : Nat) :
    (double^[k] t).capacity = t.capacity * 2 ^ k := by
  induction k with
  | zero => exact (Nat.mul_one _).symm
  | succ k ih =>
      rw [Function.iterate_succ_apply', capacity_double, ih, Nat.pow_succ, Nat.mul_assoc]

theorem size_iterate_double (t : SlotTable κ n β) (k : Nat) : (double^[k] t).size = t.size := by
  induction k with
  | zero => rfl
  | succ k ih => rw [Function.iterate_succ_apply', size_double, ih]

theorem loadFactor_iterate_double (t : SlotTable κ n β) (k : Nat) :
    (double^[k] t).loadFactor = t.loadFactor := by
  induction k with
  | zero => rfl
  | succ k ih =>
      rw [Function.iterate_succ_apply']
      exact ih

theorem threshold_iterate_double (h : t.threshold = t.loadFactor.threshold t.capacity) (k : Nat) :
    (double^[k] t).threshold = t.loadFactor.threshold (t.capacity * 2 ^ k) := by
  cases k with
  | zero => rw [Nat.pow_zero, Nat.mul_one, Function.iterate_zero_apply, h]
  | succ k =>
      rw [Function.iterate_succ_apply', threshold_double, loadFactor_iterate_double,
        capacity_iterate_double, Nat.pow_succ, Nat.mul_assoc]

/-- A table that is doubled again and again has too little room until it has been doubled `k`
times. -/
structure GrowsIn (t : SlotTable κ n β) (k : Nat) : Prop where
  before : ∀ i < k, (double^[i] t).threshold ≤ (double^[i] t).size
  after : (double^[k] t).size < (double^[k] t).threshold

theorem growsIn_of_fewestDoublings (hthreshold : t.threshold = t.loadFactor.threshold t.capacity)
    {k : Nat} (h : FewestDoublings (t.size < t.loadFactor.threshold ·) t.capacity k) :
    t.GrowsIn k where
  before i hi := by
    rw [size_iterate_double, threshold_iterate_double hthreshold]
    exact Nat.le_of_not_lt fun hroom => Nat.not_le.2 hi (h.least i hroom)
  after := by
    rw [size_iterate_double, threshold_iterate_double hthreshold]
    exact h.reached

/-- A table is doubled as long as there is too little room, if it may be doubled so often. -/
theorem growWithin_eq_iterate_double (hthreshold : t.threshold = t.loadFactor.threshold t.capacity)
    (rounds : Nat) (h : t.size < t.loadFactor.threshold (t.capacity * 2 ^ rounds)) :
    ∃ k, FewestDoublings (t.size < t.loadFactor.threshold ·) t.capacity k ∧
      t.growWithin rounds = double^[k] t := by
  induction rounds generalizing t with
  | zero =>
      rw [Nat.pow_zero, Nat.mul_one] at h
      exact ⟨0, .zero h, rfl⟩
  | succ rounds ih =>
      rw [growWithin, hthreshold]
      split
      · next hroom => exact ⟨0, .zero hroom, rfl⟩
      · next hroom =>
          have hdouble : t.double.threshold = t.loadFactor.threshold t.double.capacity := by
            rw [threshold_double, capacity_double]
          rw [Nat.pow_succ', ← Nat.mul_assoc, ← capacity_double] at h
          rcases ih hdouble h with ⟨k, hk, hgrown⟩
          rw [capacity_double] at hk
          exact ⟨k + 1, hk.succ hroom, hgrown⟩

/-! ### Calls -/

/-- The table with a new entry in a slot, before it grows. -/
def withEntry (t : SlotTable κ n β) (index : Nat) (entry : Key n × β) : SlotTable κ n β :=
  { t with slots := t.slots.setIfInBounds index (some entry), size := t.size + 1 }

theorem capacity_withEntry (t : SlotTable κ n β) (index : Nat) (entry : Key n × β) :
    (t.withEntry index entry).capacity = t.capacity :=
  Array.size_setIfInBounds ..

theorem Consistent.threshold_withEntry (h : t.Consistent) (index : Nat) (entry : Key n × β) :
    (t.withEntry index entry).threshold =
      t.loadFactor.threshold (t.withEntry index entry).capacity :=
  h.threshold_eq_of_size_eq (Array.size_setIfInBounds ..)

/-- A key that is not stored is put into an empty slot, and then the table is doubled as often as it
has to be. -/
theorem WellFormed.insertKey_eq_iterate_double (h : t.WellFormed) {key : Key n}
    (hget : t.getKey? key = none) (value : β) :
    ∃ index k, t.probe key = .vacant index ∧
      FewestDoublings (t.size + 1 < t.loadFactor.threshold ·) t.capacity k ∧
      t.insertKey key value = (none, double^[k] (t.withEntry index (key, value))) := by
  rcases h.fill hget value with ⟨index, hprobe, _, _⟩
  have hcapacity := capacity_withEntry t index (key, value)
  have hthreshold := h.threshold_withEntry index (key, value)
  rcases growWithin_eq_iterate_double hthreshold _
    (size_lt_threshold_rounds (hcapacity ▸ h.capacity_pos)) with ⟨k, hk, hgrown⟩
  rw [hcapacity] at hk
  refine ⟨index, k, hprobe, hk, ?_⟩
  rw [SlotTable.insertKey, hprobe, ← hgrown]
  rfl

/-- A key that is stored is given another value. -/
theorem resize_insertKey_of_getKey?_eq_some {key : Key n} {old : β} (h : t.getKey? key = some old)
    (value : β) : (t.insertKey key value).2.size ≤ t.size ∧
      (t.insertKey key value).2.capacity = t.capacity := by
  unfold getKey? at h
  unfold insertKey
  cases hprobe : t.probe key with
  | found index found => exact ⟨Nat.le_refl _, Array.size_setIfInBounds ..⟩
  | vacant index => simp [hprobe] at h
  | full => exact ⟨Nat.le_refl _, rfl⟩

theorem size_eraseKey_le (t : SlotTable κ n β) (key : Key n) :
    (t.eraseKey key).2.size ≤ t.size := by
  unfold eraseKey
  split
  · exact Nat.sub_le ..
  · exact Nat.le_refl _
  · exact Nat.le_refl _

theorem size_modifyKey_le (t : SlotTable κ n β) (key : Key n) (change : β → β) :
    (t.modifyKey key change).size ≤ t.size := by
  unfold modifyKey
  split <;> exact Nat.le_refl _

theorem size_clear_le (t : SlotTable κ n β) : t.clear.size ≤ t.size := by
  unfold clear
  split
  · exact Nat.le_refl _
  · exact Nat.zero_le _

/-- The call stores a key that the table does not hold. -/
def Adds (t : SlotTable κ n β) : TableCall κ n β → Prop
  | .insert key _ => t.get? key = none
  | .insertKey key _ => t.getKey? key = none
  | _ => False

/-- A table after a call that adds no key. -/
def Kept (t t' : SlotTable κ n β) : Prop :=
  t'.size ≤ t.size ∧ t'.capacity = t.capacity

/-- A table after a call that adds a key. -/
def Grown (t t' : SlotTable κ n β) : Prop :=
  t'.size = t.size + 1 ∧ ∃ k,
    FewestDoublings (t.size + 1 < t.loadFactor.threshold ·) t.capacity k ∧
      t'.capacity = t.capacity * 2 ^ k

theorem WellFormed.insertKey_cases (h : t.WellFormed) (key : Key n) (value : β) :
    t.getKey? key = none ∧ t.Grown (t.insertKey key value).2 ∨
      t.getKey? key ≠ none ∧ t.Kept (t.insertKey key value).2 := by
  cases hget : t.getKey? key with
  | none =>
      rcases h.insertKey_eq_iterate_double hget value with ⟨index, k, _, hk, hinsert⟩
      rw [hinsert]
      refine .inl ⟨rfl, size_iterate_double .., k, hk, ?_⟩
      rw [capacity_iterate_double, capacity_withEntry]
  | some old =>
      exact .inr ⟨Option.some_ne_none old, resize_insertKey_of_getKey?_eq_some hget value⟩

/-- A call that adds a key makes the table larger by one and doubles it as often as it has to be.
Every other call leaves the capacity as it is. -/
theorem WellFormed.call_cases (h : t.WellFormed) (c : TableCall κ n β) :
    t.Adds c ∧ t.Grown (t.call c).2 ∨ ¬ t.Adds c ∧ t.Kept (t.call c).2 := by
  cases c with
  | insert key value => exact h.insertKey_cases (t.encode key) value
  | insertKey key value => exact h.insertKey_cases key value
  | modify key change => exact .inr ⟨id, size_modifyKey_le .., capacity_modifyKey ..⟩
  | modifyKey key change => exact .inr ⟨id, size_modifyKey_le .., capacity_modifyKey ..⟩
  | erase key => exact .inr ⟨id, size_eraseKey_le .., capacity_eraseKey ..⟩
  | eraseKey key => exact .inr ⟨id, size_eraseKey_le .., capacity_eraseKey ..⟩
  | clear => exact .inr ⟨id, size_clear_le t, capacity_clear t⟩
  | mapValues change => exact .inr ⟨id, Nat.le_refl _, capacity_mapValues t change⟩
  | get | getKey | contains | entries | size | isEmpty => exact .inr ⟨id, Nat.le_refl _, rfl⟩

/-! ### The largest size -/

/-- The largest size that a table has while calls are made to it. -/
def peak (t : SlotTable κ n β) : List (TableCall κ n β) → Nat
  | [] => t.size
  | c :: cs => max t.size ((t.call c).2.peak cs)

theorem size_le_peak (t : SlotTable κ n β) (cs : List (TableCall κ n β)) : t.size ≤ t.peak cs := by
  cases cs with
  | nil => exact Nat.le_refl _
  | cons c cs => exact Nat.le_max_left ..

/-- A table whose capacity has come from an initial one, and which has had at most `peak`
entries. -/
structure GrownFor (f : LoadFactor) (initial peak : Nat) (t : SlotTable κ n β) : Prop where
  wellFormed : t.WellFormed
  loadFactor_eq : t.loadFactor = f
  size_le : t.size ≤ peak
  capacity_eq : ∃ k, FewestDoublings (peak < f.threshold ·) initial k ∧
    t.capacity = initial * 2 ^ k

variable {f : LoadFactor} {initial p : Nat}

theorem GrownFor.call (h : GrownFor f initial p t) (c : TableCall κ n β) :
    GrownFor f initial (max p (t.call c).2.size) (t.call c).2 := by
  rcases h.wellFormed.call c with ⟨hwell, -, hfactor⟩
  rcases h.capacity_eq with ⟨k, hk, hcapacity⟩
  refine ⟨hwell, hfactor.trans h.loadFactor_eq, Nat.le_max_right .., ?_⟩
  have hsize := h.size_le
  rcases h.wellFormed.call_cases c with ⟨-, hsize', j, hj, hcapacity'⟩ | ⟨-, hsize', hcapacity'⟩
  · rw [h.loadFactor_eq, hcapacity] at hj
    rw [hcapacity', hcapacity, hsize']
    refine ⟨k + j, ?_, by rw [Nat.pow_add, Nat.mul_assoc]⟩
    -- Below an earlier peak there is room already, and above it the new size is the peak.
    rcases Nat.lt_or_ge p (t.size + 1) with hnew | hold
    · rw [Nat.max_eq_right hnew.le]
      exact hk.add (fun c hc => Nat.lt_of_lt_of_le hnew hc.le) hj
    · rw [Nat.max_eq_left hold]
      have hroom : j = 0 := hj.eq_zero (Nat.lt_of_le_of_lt hold hk.reached)
      rwa [hroom]
  · rw [Nat.max_eq_left (hsize'.trans hsize)]
    exact ⟨k, hk, hcapacity'.trans hcapacity⟩

theorem GrownFor.run (h : GrownFor f initial p t) (cs : List (TableCall κ n β)) :
    GrownFor f initial (max p (t.peak cs)) (t.run cs).2 := by
  induction cs generalizing t p with
  | nil =>
      rw [peak, Nat.max_eq_left h.size_le]
      exact h
  | cons c cs ih =>
      have hlast := ih (h.call c)
      have hpeak := size_le_peak (t.call c).2 cs
      rw [Nat.max_assoc, Nat.max_eq_right hpeak] at hlast
      rw [peak, ← Nat.max_assoc, Nat.max_eq_left h.size_le]
      exact hlast

/-- The capacity depends on the initial capacity and on the peak. -/
theorem GrownFor.capacity_unique {t' : SlotTable κ n β} (h : GrownFor f initial p t)
    (h' : GrownFor f initial p t') : t.capacity = t'.capacity := by
  rcases h.capacity_eq with ⟨k, hk, hcapacity⟩
  rcases h'.capacity_eq with ⟨k', hk', hcapacity'⟩
  rw [hcapacity, hcapacity', hk.unique hk']

theorem isLeast_nextPowerOfTwo {m : Nat} (hm : 2 ≤ m) :
    IsLeast {c | m ≤ c ∧ ∃ j, c = 2 ^ j} (nextPowerOfTwo m) := by
  refine ⟨⟨le_nextPowerOfTwo m, nextPowerOfTwo_eq_two_pow m⟩, ?_⟩
  rintro _ ⟨hle, j, rfl⟩
  have hlt := nextPowerOfTwo_lt m hm
  rcases nextPowerOfTwo_eq_two_pow m with ⟨i, hi⟩
  rw [hi] at hlt ⊢
  have hij : 2 ^ i < 2 ^ (j + 1) :=
    calc 2 ^ i < 2 * m := hlt
      _ ≤ 2 * 2 ^ j := Nat.mul_le_mul_left 2 hle
      _ = 2 ^ (j + 1) := Nat.pow_succ'.symm
  exact Nat.pow_le_pow_right (by decide)
    (Nat.le_of_lt_succ ((Nat.pow_lt_pow_iff_right (by decide)).1 hij))

theorem grownFor_withHasher (capacity : Nat) (f : LoadFactor) (encoder : κ → Key n)
    (hasher : Key n → UInt64) :
    GrownFor f (nextPowerOfTwo (max 2 capacity)) 0
      (withHasher capacity f encoder hasher : SlotTable κ n β) where
  wellFormed := wellFormed_withHasher ..
  loadFactor_eq := rfl
  size_le := Nat.le_refl 0
  capacity_eq :=
    ⟨0, .zero (f.one_le_threshold _), (capacity_withHasher ..).trans (Nat.mul_one _).symm⟩

/-- After any calls to a new table, the loop that makes room for a new key ends. The capacity is the
least power of two that the initial one allows, doubled until there is room for the largest size
that the table has had, and no more often. So only new keys change the capacity, and none does while
the size stays within the peak. -/
theorem capacity_run (capacity : Nat) (f : LoadFactor) (encoder : κ → Key n)
    (hasher : Key n → UInt64) (cs : List (TableCall κ n β)) :
    let start : SlotTable κ n β := withHasher capacity f encoder hasher
    let t := (start.run cs).2
    (∀ key value, t.getKey? key = none → ∃ index k, t.probe key = .vacant index ∧
      (t.withEntry index (key, value)).GrowsIn k ∧
      t.insertKey key value = (none, double^[k] (t.withEntry index (key, value)))) ∧
    (∃ c₀ k, IsLeast {c | max 2 capacity ≤ c ∧ ∃ j, c = 2 ^ j} c₀ ∧
      FewestDoublings (fun c => start.peak cs < max 1 ⌊(c : ℚ) * f.value⌋₊) c₀ k ∧
      t.capacity = c₀ * 2 ^ k) ∧
    (∀ c, ¬ t.Adds c → (t.call c).2.capacity = t.capacity) ∧
    ∀ later, t.peak later ≤ start.peak cs → (t.run later).2.capacity = t.capacity := by
  intro start t
  have hgrown : GrownFor f (nextPowerOfTwo (max 2 capacity)) (start.peak cs) t := by
    have hrun := (grownFor_withHasher capacity f encoder hasher).run cs
    rwa [Nat.zero_max] at hrun
  clear_value t
  refine ⟨?_, ?_, ?_, ?_⟩
  · intro key value hget
    rcases hgrown.wellFormed.insertKey_eq_iterate_double hget value with
      ⟨index, k, hprobe, hk, hinsert⟩
    have hthreshold := hgrown.wellFormed.threshold_withEntry index (key, value)
    refine ⟨index, k, hprobe, growsIn_of_fewestDoublings hthreshold ?_, hinsert⟩
    rw [capacity_withEntry]
    exact hk
  · rcases hgrown.capacity_eq with ⟨k, hk, hcapacity⟩
    simp only [LoadFactor.threshold_eq_floor] at hk
    exact ⟨_, k, isLeast_nextPowerOfTwo (Nat.le_max_left 2 capacity), hk, hcapacity⟩
  · intro c hc
    rcases hgrown.wellFormed.call_cases c with ⟨hadds, -⟩ | ⟨-, -, hcapacity⟩
    · exact absurd hadds hc
    · exact hcapacity
  · intro later hpeak
    have hlater := hgrown.run later
    rw [Nat.max_eq_left hpeak] at hlater
    exact hlater.capacity_unique hgrown

/-- In a table of which a quarter may be occupied, three keys are stored and all are removed again.
The first key takes two doublings, of which the first does not raise the threshold. The same calls
once more find the capacity that they need. -/
theorem capacity_run_quarter :
    let quarter : SlotTable (Key 1) 1 Nat :=
      withHasher 0 ⟨1, 2, by decide, by decide⟩ id fun _ => 7
    let calls : List (TableCall (Key 1) 1 Nat) :=
      [.insert #v[1] 10, .insert #v[2] 20, .insert #v[3] 30, .erase #v[2], .clear]
    (∃ k, (quarter.withEntry 1 (#v[1], 10)).GrowsIn k ∧
      quarter.insertKey #v[1] 10 = (none, double^[k] (quarter.withEntry 1 (#v[1], 10)))) ∧
    (quarter.insertKey #v[1] 10).2.capacity = 8 ∧
    (quarter.run calls).2.size = 0 ∧
    (quarter.run calls).2.capacity = 16 ∧
    ((quarter.run calls).2.call .clear).2.capacity = 16 ∧
    ((quarter.run calls).2.run calls).2.capacity = 16 := by
  intro quarter calls
  have hfirst := capacity_run 0 ⟨1, 2, by decide, by decide⟩ id (fun _ => 7)
    ([] : List (TableCall (Key 1) 1 Nat))
  have hrun := capacity_run 0 ⟨1, 2, by decide, by decide⟩ id (fun _ => 7) calls
  have hcapacity : (quarter.run calls).2.capacity = 16 := by decide +kernel
  have hprobe : quarter.probe #v[1] = .vacant 1 := by decide +kernel
  refine ⟨?_, by decide +kernel, by decide +kernel, hcapacity, ?_, ?_⟩
  · rcases hfirst.1 #v[1] 10 (by decide +kernel) with ⟨index, k, hindex, hgrows, hinsert⟩
    obtain rfl : 1 = index := Probe.vacant.inj (hprobe.symm.trans hindex)
    exact ⟨k, hgrows, hinsert⟩
  · exact (hrun.2.2.1 .clear id).trans hcapacity
  · exact (hrun.2.2.2 calls (by decide +kernel)).trans hcapacity

end SlotTable

end QueueWatch
