import QueueWatch.Number.Power

/-!
# Doubling until there is enough

A buffer or a ring of slots that is too small is doubled, again and again. `FewestDoublings` says
how often that is without a word about the loop: after so many doublings there is enough, and after
fewer there is not. A loop that doubles only what is not enough makes the fewest doublings
(`FewestDoublings.zero`, `FewestDoublings.succ`). If more is asked for later and the loop goes on
where it stopped, all its doublings together are again the fewest (`FewestDoublings.add`), so the
stops in between do not show.
-/

namespace QueueWatch

/-- A capacity is enough when it has been doubled `k` times, and not before. -/
structure FewestDoublings (enough : Nat → Prop) (capacity k : Nat) : Prop where
  reached : enough (capacity * 2 ^ k)
  least : ∀ i, enough (capacity * 2 ^ i) → k ≤ i

namespace FewestDoublings

variable {enough more : Nat → Prop} {c k j : Nat}

theorem zero (h : enough c) : FewestDoublings enough c 0 where
  reached := by rwa [Nat.pow_zero, Nat.mul_one]
  least _ _ := Nat.zero_le _

theorem succ (hc : ¬ enough c) (h : FewestDoublings enough (c * 2) k) :
    FewestDoublings enough c (k + 1) where
  reached := by
    rw [Nat.pow_succ', ← Nat.mul_assoc]
    exact h.reached
  least i hi := by
    cases i with
    | zero =>
        rw [Nat.pow_zero, Nat.mul_one] at hi
        exact absurd hi hc
    | succ i =>
        rw [Nat.pow_succ', ← Nat.mul_assoc] at hi
        exact Nat.succ_le_succ (h.least i hi)

theorem unique (h : FewestDoublings enough c k) (h' : FewestDoublings enough c j) : k = j :=
  Nat.le_antisymm (h.least j h'.reached) (h'.least k h.reached)

theorem eq_zero (h : FewestDoublings enough c k) (hc : enough c) : k = 0 :=
  h.unique (zero hc)

/-- What is enough for more is enough for less, so whoever wants more later goes on from there. -/
theorem add (h : FewestDoublings enough c k) (hless : ∀ c, more c → enough c)
    (h' : FewestDoublings more (c * 2 ^ k) j) : FewestDoublings more c (k + j) where
  reached := by
    rw [Nat.pow_add, ← Nat.mul_assoc]
    exact h'.reached
  least i hi := by
    obtain ⟨i, rfl⟩ := Nat.exists_eq_add_of_le (h.least i (hless _ hi))
    rw [Nat.pow_add, ← Nat.mul_assoc] at hi
    exact Nat.add_le_add_left (h'.least i hi) k

end FewestDoublings

end QueueWatch
