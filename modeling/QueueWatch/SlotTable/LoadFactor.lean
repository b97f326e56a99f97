import QueueWatch.Number.Shortest

/-!
# Load factors

A load factor is the share of the slots of a table that may be occupied, an exact fraction above
zero and at most one whose denominator is a power of two. `LoadFactor.threshold` is the number of
entries at which a table of a given capacity has to grow. It is at most the capacity
(`threshold_le`), so a table that stays below it has an empty slot.
-/

namespace QueueWatch

/-- The fraction `mantissa / 2 ^ shift`. -/
structure LoadFactor where
  mantissa : Nat
  shift : Nat
  mantissa_pos : 0 < mantissa
  le_one : mantissa ≤ 2 ^ shift

/-- Why a number is no load factor: it is not above zero, or above one, or no number. -/
structure LoadFactorError where
  given : Single
  deriving DecidableEq, Repr

def LoadFactorError.message (e : LoadFactorError) : String :=
  "load factor must be within (0, 1], got " ++ e.given.positional

namespace LoadFactor

/-- The load factor that a number of single precision is. -/
def ofSingle (x : Single) : Except LoadFactorError LoadFactor :=
  match x with
  | .finite false mantissa exponent =>
      if h : 0 < mantissa ∧ exponent ≤ 0 ∧ mantissa ≤ 2 ^ (-exponent).toNat then
        .ok ⟨mantissa, (-exponent).toNat, h.1, h.2.2⟩
      else .error ⟨x⟩
  | _ => .error ⟨x⟩

def toSingle (f : LoadFactor) : Single :=
  .finite false f.mantissa (-f.shift)

/-- The load factor of a table for which none is given: the number of single precision that is
nearest to 0.65. -/
def standard : LoadFactor :=
  ⟨10905190, 24, by decide, by decide⟩

/-- The number of entries at which a table of the given capacity grows. -/
def threshold (f : LoadFactor) (capacity : Nat) : Nat :=
  max 1 (capacity * f.mantissa / 2 ^ f.shift)

theorem one_le_threshold (f : LoadFactor) (capacity : Nat) : 1 ≤ f.threshold capacity :=
  Nat.le_max_left ..

/-- No table has to hold more entries than it has slots. -/
theorem threshold_le (f : LoadFactor) {capacity : Nat} (h : 0 < capacity) :
    f.threshold capacity ≤ capacity := by
  refine Nat.max_le.2 ⟨h, Nat.div_le_of_le_mul ?_⟩
  rw [Nat.mul_comm (2 ^ f.shift)]
  exact Nat.mul_le_mul_left _ f.le_one

/-- Doubling often enough makes room for any number of entries. -/
theorem lt_threshold (f : LoadFactor) {capacity n k : Nat} (hc : 0 < capacity)
    (hk : (n + 1) * 2 ^ f.shift ≤ 2 ^ k) : n < f.threshold (capacity * 2 ^ k) := by
  have hle : (n + 1) * 2 ^ f.shift ≤ capacity * 2 ^ k * f.mantissa :=
    calc (n + 1) * 2 ^ f.shift ≤ 2 ^ k := hk
      _ ≤ capacity * 2 ^ k := Nat.le_mul_of_pos_left _ hc
      _ ≤ capacity * 2 ^ k * f.mantissa := Nat.le_mul_of_pos_right _ f.mantissa_pos
  have hdiv : n + 1 ≤ capacity * 2 ^ k * f.mantissa / 2 ^ f.shift :=
    (Nat.le_div_iff_mul_le (Nat.two_pow_pos _)).2 hle
  exact Nat.lt_of_lt_of_le (Nat.lt_of_succ_le hdiv) (Nat.le_max_right ..)

end LoadFactor

end QueueWatch
