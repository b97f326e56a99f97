import QueueWatch.Number.Power

/-!
# Unsigned numbers in text

Settings and socket specs hold unsigned numbers of a fixed width: decimal digits, which a plus sign
may precede. `parseUnsigned` reads one and says why a text is not one. Characters are judged from
left to right, so of two faults the one that comes first is reported; a character that is no digit
comes before the overflow that it would belong to.
-/

namespace QueueWatch

/-- Why a text is not an unsigned number. -/
inductive UnsignedError where
  | empty
  | invalidDigit
  | tooLarge
  deriving DecidableEq, Repr

def UnsignedError.message : UnsignedError → String
  | .empty => "cannot parse integer from empty string"
  | .invalidDigit => "invalid digit found in string"
  | .tooLarge => "number too large to fit in target type"

def digitValue? (c : Char) : Option Nat :=
  if '0' ≤ c ∧ c ≤ '9' then some (c.toNat - '0'.toNat) else none

/-- The value of digits that continue a number whose digits so far have the value `value`, where the
whole has to stay below `2 ^ bits`. -/
def unsignedFrom (bits value : Nat) : List Char → Except UnsignedError Nat
  | [] => .ok value
  | c :: rest =>
      match digitValue? c with
      | none => .error .invalidDigit
      | some d =>
          if 10 * value + d < 2 ^ bits then unsignedFrom bits (10 * value + d) rest
          else .error .tooLarge

/-- Reads an unsigned number of at most `bits` bits. -/
def parseUnsigned (bits : Nat) : List Char → Except UnsignedError Nat
  | [] => .error .empty
  | ['+'] => .error .invalidDigit
  | '+' :: digits => unsignedFrom bits 0 digits
  | digits => unsignedFrom bits 0 digits

theorem unsignedFrom_lt {bits value n : Nat} {s : List Char} (hv : value < 2 ^ bits)
    (h : unsignedFrom bits value s = .ok n) : n < 2 ^ bits := by
  induction s generalizing value with
  | nil =>
      simp only [unsignedFrom, Except.ok.injEq] at h
      omega
  | cons c rest ih =>
      simp only [unsignedFrom] at h
      split at h
      · simp at h
      · split at h
        · next hlt => exact ih hlt h
        · simp at h

theorem parseUnsigned_lt {bits n : Nat} {s : List Char} (h : parseUnsigned bits s = .ok n) :
    n < 2 ^ bits := by
  unfold parseUnsigned at h
  split at h
  · simp at h
  · simp at h
  · exact unsignedFrom_lt (Nat.two_pow_pos bits) h
  · exact unsignedFrom_lt (Nat.two_pow_pos bits) h

end QueueWatch
