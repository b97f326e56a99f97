import Mathlib.Data.Nat.Digits.Defs
import Mathlib.Tactic.Ring
import QueueWatch.Proofs.Number.Printed

/-!
# Decimal numbers in columns

The value of decimal digits is positional (`decimalValue`). The reader knows no positions: it goes
through the bytes from the left and keeps the value of the digits so far. It stops at a byte that is
no digit, and at a digit with which the value does not fit into 64 bits any more. Since the value
only grows with further digits, a number is lost by this only if it does not fit as a whole
(`decimalValueFrom_eq`).

`SaysDecimal` says for each answer of the reader which bytes it is the answer to, without a word
about the reading. Every row of bytes has one answer, and that is what the reader gives
(`decodeDecimal_eq_iff`).
-/

namespace QueueWatch

/-! ## Digits and their value -/

/-- A byte is a decimal digit. -/
def IsDigit (b : UInt8) : Prop :=
  48 ≤ b ∧ b ≤ 57

/-- The value of decimal digits: the last one counts once, the one before it ten times, and so
on. -/
def decimalValue (digits : List UInt8) : Nat :=
  Nat.ofDigits 10 (digits.reverse.map fun b => b.toNat - 48)

instance (b : UInt8) : Decidable (IsDigit b) :=
  inferInstanceAs (Decidable (_ ∧ _))

theorem decimalDigit?_of_isDigit {b : UInt8} (h : IsDigit b) :
    decimalDigit? b = some (b.toNat - 48) :=
  if_pos h

theorem decimalDigit?_of_not_isDigit {b : UInt8} (h : ¬ IsDigit b) : decimalDigit? b = none :=
  if_neg h

theorem decimalValue_nil : decimalValue [] = 0 :=
  rfl

/-- In front of other digits, digits count as much more as these have places. -/
theorem ofDigits_reverse_append (base : Nat) (digitValue : UInt8 → Nat) (left right : List UInt8) :
    Nat.ofDigits base ((left ++ right).reverse.map digitValue) =
      Nat.ofDigits base (left.reverse.map digitValue) * base ^ right.length +
        Nat.ofDigits base (right.reverse.map digitValue) := by
  rw [List.reverse_append, List.map_append, Nat.ofDigits_append, List.length_map,
    List.length_reverse, Nat.mul_comm, Nat.add_comm]

theorem decimalValue_append (left right : List UInt8) :
    decimalValue (left ++ right) =
      decimalValue left * 10 ^ right.length + decimalValue right :=
  ofDigits_reverse_append ..

theorem decimalValue_cons (b : UInt8) (rest : List UInt8) :
    decimalValue (b :: rest) = (b.toNat - 48) * 10 ^ rest.length + decimalValue rest := by
  rw [← List.singleton_append, decimalValue_append]
  rfl

theorem decimalValue_replicate_zero (count : Nat) :
    decimalValue (List.replicate count 48) = 0 := by
  induction count with
  | zero => rfl
  | succ count ih =>
      rw [List.replicate_succ, decimalValue_cons, ih]
      simp

/-! ## Reading -/

/-- Digits are read if the value that they continue fits with all of them. -/
theorem decimalValueFrom_eq {value : Nat} {digits : List UInt8} (hvalue : value < 2 ^ 64)
    (hdigits : ∀ b ∈ digits, IsDigit b) :
    decimalValueFrom value digits =
      if value * 10 ^ digits.length + decimalValue digits < 2 ^ 64 then
        .ok (value * 10 ^ digits.length + decimalValue digits)
      else .error .overflow := by
  induction digits generalizing value with
  | nil => simp [decimalValueFrom, decimalValue_nil, hvalue]
  | cons b rest ih =>
      rw [List.forall_mem_cons] at hdigits
      have hwhole : value * 10 ^ (b :: rest).length + decimalValue (b :: rest) =
          (10 * value + (b.toNat - 48)) * 10 ^ rest.length + decimalValue rest := by
        rw [decimalValue_cons, List.length_cons]
        ring
      simp only [decimalValueFrom, decimalDigit?_of_isDigit hdigits.1]
      rw [hwhole]
      split
      · next hroom => exact ih hroom hdigits.2
      · next hroom =>
          -- What does not fit now does not fit with the rest of the digits either.
          have hgrows := Nat.le_mul_of_pos_right (10 * value + (b.toNat - 48))
            (Nat.pow_pos (n := rest.length) (by decide : 0 < 10))
          rw [if_neg (by omega)]

theorem decimalValueFrom_zero_eq {digits : List UInt8} (h : ∀ b ∈ digits, IsDigit b) :
    decimalValueFrom 0 digits =
      if decimalValue digits < 2 ^ 64 then .ok (decimalValue digits) else .error .overflow := by
  rw [decimalValueFrom_eq (Nat.two_pow_pos 64) h, Nat.zero_mul, Nat.zero_add]

/-! ## The answer to bytes -/

/-- The answer to bytes, if they are taken as a decimal number. -/
def SaysDecimal (bytes : List UInt8) : Except NumberError UInt64 → Prop
  | .ok n => bytes ≠ [] ∧ (∀ b ∈ bytes, IsDigit b) ∧ decimalValue bytes = n.toNat
  | .error .empty => bytes = []
  | .error (.invalidDigit b) =>
      ∃ digits rest, bytes = digits ++ b :: rest ∧ (∀ d ∈ digits, IsDigit d) ∧ ¬ IsDigit b ∧
        decimalValue digits < 2 ^ 64
  | .error .overflow =>
      ∃ digits, digits <+: bytes ∧ (∀ d ∈ digits, IsDigit d) ∧ 2 ^ 64 ≤ decimalValue digits
  | .error (.invalidLength _) => False

theorem SaysDecimal.decodeDecimal_eq {bytes : List UInt8} {answer : Except NumberError UInt64}
    (h : SaysDecimal bytes answer) : decodeDecimal bytes = answer := by
  match answer with
  | .ok n =>
      obtain ⟨hne, hdigits, hvalue⟩ := h
      rw [decodeDecimal, if_neg hne, decimalValueFrom_zero_eq hdigits, hvalue,
        if_pos n.toNat_lt]
      exact congrArg Except.ok UInt64.ofNat_toNat
  | .error .empty => exact if_pos h
  | .error (.invalidDigit b) =>
      obtain ⟨digits, rest, rfl, hdigits, hb, hvalue⟩ := h
      rw [decodeDecimal, if_neg (List.append_ne_nil_of_right_ne_nil _ (List.cons_ne_nil b rest)),
        decimalValueFrom_append, decimalValueFrom_zero_eq hdigits, if_pos hvalue]
      simp only [Except.bind, decimalValueFrom, decimalDigit?_of_not_isDigit hb, Except.map]
  | .error .overflow =>
      obtain ⟨digits, ⟨rest, rfl⟩, hdigits, hvalue⟩ := h
      have hne : digits ++ rest ≠ [] := by
        refine List.append_ne_nil_of_left_ne_nil ?_ rest
        rintro rfl
        exact absurd hvalue (by decide)
      rw [decodeDecimal, if_neg hne, decimalValueFrom_append, decimalValueFrom_zero_eq hdigits,
        if_neg (Nat.not_lt.2 hvalue)]
      rfl
  | .error (.invalidLength _) => exact h.elim

/-- Bytes are digits, or they begin with digits and a byte behind them that is none. -/
theorem digits_or_exists_not_isDigit (bytes : List UInt8) :
    (∀ b ∈ bytes, IsDigit b) ∨
      ∃ digits b rest, bytes = digits ++ b :: rest ∧ (∀ d ∈ digits, IsDigit d) ∧ ¬ IsDigit b := by
  induction bytes with
  | nil => exact .inl (by simp)
  | cons b rest ih =>
      by_cases hb : IsDigit b
      · rcases ih with hrest | ⟨digits, c, rest, rfl, hdigits, hc⟩
        · exact .inl (List.forall_mem_cons.2 ⟨hb, hrest⟩)
        · exact .inr ⟨b :: digits, c, rest, rfl, List.forall_mem_cons.2 ⟨hb, hdigits⟩, hc⟩
      · exact .inr ⟨[], b, rest, rfl, by simp, hb⟩

theorem exists_saysDecimal (bytes : List UInt8) : ∃ answer, SaysDecimal bytes answer := by
  by_cases hnil : bytes = []
  · exact ⟨.error .empty, hnil⟩
  rcases digits_or_exists_not_isDigit bytes with hdigits | ⟨digits, b, rest, rfl, hdigits, hb⟩
  · rcases Nat.lt_or_ge (decimalValue bytes) (2 ^ 64) with hfits | hlarge
    · exact ⟨.ok (UInt64.ofNat (decimalValue bytes)), hnil, hdigits,
        (UInt64.toNat_ofNat_of_lt' hfits).symm⟩
    · exact ⟨.error .overflow, bytes, List.prefix_refl bytes, hdigits, hlarge⟩
  · rcases Nat.lt_or_ge (decimalValue digits) (2 ^ 64) with hfits | hlarge
    · exact ⟨.error (.invalidDigit b), digits, rest, rfl, hdigits, hb, hfits⟩
    · exact ⟨.error .overflow, digits, List.prefix_append digits _, hdigits, hlarge⟩

/-- The reader gives the one answer there is. -/
theorem decodeDecimal_eq_iff {bytes : List UInt8} {answer : Except NumberError UInt64} :
    decodeDecimal bytes = answer ↔ SaysDecimal bytes answer := by
  constructor
  · rintro rfl
    obtain ⟨answer, h⟩ := exists_saysDecimal bytes
    rwa [h.decodeDecimal_eq]
  · exact SaysDecimal.decodeDecimal_eq

/-- The digits of a number with zeros before them are read as the number. -/
theorem decodeDecimal_padded (zeros : Nat) (n : UInt64) :
    decodeDecimal (List.replicate zeros 48 ++ decimalText n.toNat) = .ok n := by
  obtain ⟨hne, hdigits, hvalue⟩ := decodeDecimal_eq_iff.1 (decodeDecimal_text n)
  refine decodeDecimal_eq_iff.2 ⟨List.append_ne_nil_of_right_ne_nil _ hne, ?_, ?_⟩
  · intro b hb
    rcases List.mem_append.1 hb with hb | hb
    · rw [List.eq_of_mem_replicate hb]
      decide
    · exact hdigits b hb
  · rw [decimalValue_append, decimalValue_replicate_zero, Nat.zero_mul, Nat.zero_add, hvalue]

/-- What decoding a decimal column answers, for all bytes. It is a number exactly if there are
digits and nothing else and their value fits into 64 bits; otherwise it is what is at fault first,
where an overflow is at fault at the digit that causes it. So the digits of every number of 64 bits
are read as this number, with zeros before them or not. -/
theorem decodeDecimal_answers (bytes : List UInt8) :
    (∀ n, decodeDecimal bytes = .ok n ↔
      bytes ≠ [] ∧ (∀ b ∈ bytes, IsDigit b) ∧ decimalValue bytes = n.toNat) ∧
    (decodeDecimal bytes = .error .empty ↔ bytes = []) ∧
    (∀ b, decodeDecimal bytes = .error (.invalidDigit b) ↔
      ∃ digits rest, bytes = digits ++ b :: rest ∧ (∀ d ∈ digits, IsDigit d) ∧ ¬ IsDigit b ∧
        decimalValue digits < 2 ^ 64) ∧
    (decodeDecimal bytes = .error .overflow ↔
      ∃ digits, digits <+: bytes ∧ (∀ d ∈ digits, IsDigit d) ∧ 2 ^ 64 ≤ decimalValue digits) ∧
    (∀ length, decodeDecimal bytes ≠ .error (.invalidLength length)) ∧
    ∀ (zeros : Nat) (n : UInt64),
      decodeDecimal (List.replicate zeros 48 ++ decimalText n.toNat) = .ok n := by
  refine ⟨fun _ => ?_, ?_, fun _ => ?_, ?_, fun _ => ?_, decodeDecimal_padded⟩
  · exact decodeDecimal_eq_iff
  · exact decodeDecimal_eq_iff
  · exact decodeDecimal_eq_iff
  · exact decodeDecimal_eq_iff
  · exact decodeDecimal_eq_iff.not.2 id

example : decodeDecimal "18446744073709551616x".toUTF8.toList = .error .overflow := by
  decide +kernel

end QueueWatch
