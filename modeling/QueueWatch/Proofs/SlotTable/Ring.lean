import QueueWatch.SlotTable.Slots

/-!
# Distances along the ring

`distance c s t` counts the steps from slot `s` to slot `t` in a ring of `c` slots. A slot lies on
the walk from `s` to `t` if it is nearer to `s` than `t` is, so that statements about walks need no
remainders: for slots of the ring, `distance` is a difference that passes the end at most once
(`distance_cases`).

An entry came through a gap exactly if the gap lies on the walk from its home to its slot
(`cameThrough_iff`).
-/

namespace QueueWatch

/-- How many steps lead from one slot to another along the ring. -/
def distance (capacity start target : Nat) : Nat :=
  if start ≤ target then target - start else target + capacity - start

section

variable {c s t u i j : Nat}

theorem nextSlot_cases (hi : i < c) :
    i + 1 = c ∧ nextSlot c i = 0 ∨ i + 1 < c ∧ nextSlot c i = i + 1 := by
  unfold nextSlot
  rcases Nat.lt_or_ge (i + 1) c with h | h
  · exact .inr ⟨h, Nat.mod_eq_of_lt h⟩
  · have hc : i + 1 = c := by omega
    rw [hc, Nat.mod_self]
    exact .inl ⟨rfl, rfl⟩

theorem distance_cases (c s t : Nat) :
    s ≤ t ∧ distance c s t = t - s ∨ t < s ∧ distance c s t = t + c - s := by
  unfold distance
  split <;> omega

theorem nextSlot_lt (hi : i < c) : nextSlot c i < c := by
  have := nextSlot_cases hi
  omega

theorem distance_lt (hs : s < c) (ht : t < c) : distance c s t < c := by
  have := distance_cases c s t
  omega

@[simp] theorem distance_self (c s : Nat) : distance c s s = 0 := by
  simp [distance]

theorem distance_pos (hs : s < c) (h : s ≠ t) : 0 < distance c s t := by
  have := distance_cases c s t
  omega

/-- A slot is known by its distance from another one. -/
theorem eq_of_distance_eq (hs : s < c) (ht : t < c) (hu : u < c)
    (h : distance c s t = distance c s u) : t = u := by
  have := distance_cases c s t
  have := distance_cases c s u
  omega

/-- One step further on, unless that closes the ring. -/
theorem distance_nextSlot (hs : s < c) (hi : i < c) (h : nextSlot c i ≠ s) :
    distance c s (nextSlot c i) = distance c s i + 1 := by
  have := nextSlot_cases hi
  have := distance_cases c s i
  have := distance_cases c s (nextSlot c i)
  omega

/-- Starting one step later is one step less. -/
theorem distance_nextSlot_left (hi : i < c) (ht : t < c) (h : i ≠ t) :
    distance c (nextSlot c i) t + 1 = distance c i t := by
  have := nextSlot_cases hi
  have := distance_cases c i t
  have := distance_cases c (nextSlot c i) t
  omega

/-- A walk through `t` to `u` consists of the walk to `t` and the walk from `t`. -/
theorem distance_add (hs : s < c) (ht : t < c) (hu : u < c)
    (h : distance c s t ≤ distance c s u) :
    distance c s t + distance c t u = distance c s u := by
  have := distance_cases c s t
  have := distance_cases c s u
  have := distance_cases c t u
  omega

/-- Of two slots on a walk, the later one has the lower number exactly if the walk passes the end of
the array between them. -/
theorem passes_end_iff (h : distance c s t < distance c s u) : u < s ∧ s ≤ t ↔ u < t := by
  have := distance_cases c s t
  have := distance_cases c s u
  omega

/-- A slot lies behind `i` and before `t`. -/
def Between (c i t j : Nat) : Prop :=
  j ≠ i ∧ distance c i j < distance c i t

theorem between_nextSlot (hi : i < c) (ht : t < c) (h : t ≠ i) (hnext : t ≠ nextSlot c i) :
    Between c i t (nextSlot c i) := by
  have := nextSlot_cases hi
  have := distance_cases c i (nextSlot c i)
  have := distance_cases c i t
  constructor <;> omega

/-- What lies behind the next slot lies behind this one. -/
theorem Between.of_nextSlot (hi : i < c) (ht : t < c) (h : t ≠ i) (hj : j < c)
    (hbetween : Between c (nextSlot c i) t j) : Between c i t j := by
  obtain ⟨-, hless⟩ := hbetween
  have hstep := distance_nextSlot_left hi ht h.symm
  -- The walk from the next slot comes to `i` last of all.
  have hlast : j ≠ i := by
    rintro rfl
    have := nextSlot_cases hj
    have := distance_cases c (nextSlot c j) j
    have := distance_lt hj ht
    omega
  have hstep' := distance_nextSlot_left hi hj hlast.symm
  exact ⟨hlast, by omega⟩

/-- An entry came through a gap exactly if the walk from its home to its slot meets the gap. -/
theorem Slots.cameThrough_iff (hs : s < c) (hj : j < c) (hi : i < c) (h : j ≠ i) :
    cameThrough s j i = true ↔ distance c s j < distance c s i := by
  have := distance_cases c s j
  have := distance_cases c s i
  simp only [cameThrough, Bool.or_eq_true, Bool.and_eq_true, decide_eq_true_eq]
  omega

end

end QueueWatch
