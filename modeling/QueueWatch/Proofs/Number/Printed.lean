import Mathlib.Algebra.Ring.Nat
import Mathlib.Tactic.IntervalCases
import QueueWatch.Number.Column

/-!
# Printed numbers

The kernel prints a number in hexadecimal with a fixed count of digits (`HexCase.text`) or in
decimal (`decimalText`). Decoding undoes both: `decodeHex_text`, `decodeDecimal_text`. Both readers
go through the digits from the left, so a text that grows by a digit at its right end is read by
reading what was there before and then one more digit (`hexValueFrom_append`,
`decimalValueFrom_append`).
-/

namespace QueueWatch

/-- The byte of a hexadecimal digit. -/
def HexCase.digit (case : HexCase) (d : Nat) : UInt8 :=
  if d < 10 then 48 + d.toUInt8 else case.ten + (d - 10).toUInt8

/-- The last `width` hexadecimal digits of a number, with leading zeros. -/
def HexCase.text (case : HexCase) : Nat → Nat → List UInt8
  | 0, _ => []
  | width + 1, n => case.text width (n / 16) ++ [case.digit (n % 16)]

/-- The decimal digits of a number. -/
def decimalText (n : Nat) : List UInt8 :=
  (Nat.toDigits 10 n).map Char.toUInt8

/-! ## Hexadecimal -/

theorem HexCase.digit?_digit (case : HexCase) {d : Nat} (h : d < 16) :
    case.digit? (case.digit d) = some d := by
  interval_cases d <;> cases case <;> rfl

theorem hexValueFrom_append (case : HexCase) (value : Nat) (left right : List UInt8) :
    hexValueFrom case value (left ++ right) =
      (hexValueFrom case value left).bind fun v => hexValueFrom case v right := by
  induction left generalizing value with
  | nil => rfl
  | cons b left ih =>
      rw [List.cons_append, hexValueFrom, hexValueFrom]
      cases case.digit? b with
      | none => rfl
      | some d => exact ih (16 * value + d)

theorem HexCase.length_text (case : HexCase) (width n : Nat) :
    (case.text width n).length = width := by
  induction width generalizing n with
  | zero => rfl
  | succ width ih => rw [text, List.length_append, ih, List.length_singleton]

theorem hexValueFrom_text (case : HexCase) (width n : Nat) :
    hexValueFrom case 0 (case.text width n) = .ok (n % 16 ^ width) := by
  induction width generalizing n with
  | zero => rw [Nat.pow_zero, Nat.mod_one, HexCase.text, hexValueFrom]
  | succ width ih =>
      have hvalue : 16 * (n / 16 % 16 ^ width) + n % 16 = n % 16 ^ (width + 1) := by
        rw [Nat.pow_succ', Nat.mod_mul]
        omega
      rw [HexCase.text, hexValueFrom_append, ih]
      simp only [Except.bind, hexValueFrom, case.digit?_digit (Nat.mod_lt n (by omega)), hvalue]

/-- Decoding gives back a number that was printed with enough digits for it. -/
theorem decodeHex_text (case : HexCase) {width n : Nat} (hpos : 0 < width) (hwidth : width ≤ 8)
    (heven : width % 2 = 0) (hn : n < 16 ^ width) :
    decodeHex case (case.text width n) = .ok n.toUInt64 := by
  have hlength := case.length_text width n
  have hne : case.text width n ≠ [] := List.ne_nil_of_length_pos (by omega)
  have hfits : ¬ (8 < (case.text width n).length ∨ (case.text width n).length % 2 = 1) := by omega
  rw [decodeHex, if_neg hne, if_neg hfits, hexValueFrom_text, Nat.mod_eq_of_lt hn]
  rfl

theorem HexCase.le_of_mem_text {case : HexCase} {width n : Nat} {b : UInt8}
    (h : b ∈ case.text width n) : 48 ≤ b := by
  induction width generalizing n with
  | zero => cases h
  | succ width ih =>
      rcases List.mem_append.1 h with h | h
      · exact ih h
      · have hd := Nat.mod_lt n (by omega : 0 < 16)
        rw [List.mem_singleton.1 h]
        generalize n % 16 = d at hd
        interval_cases d <;> cases case <;> decide

/-! ## Decimal -/

theorem decimalDigit?_digitChar {d : Nat} (h : d < 10) :
    decimalDigit? (Nat.digitChar d).toUInt8 = some d := by
  interval_cases d <;> rfl

theorem decimalValueFrom_append (value : Nat) (left right : List UInt8) :
    decimalValueFrom value (left ++ right) =
      (decimalValueFrom value left).bind fun v => decimalValueFrom v right := by
  induction left generalizing value with
  | nil => rfl
  | cons b left ih =>
      rw [List.cons_append, decimalValueFrom, decimalValueFrom]
      cases decimalDigit? b with
      | none => rfl
      | some d =>
          simp only
          split
          · exact ih (10 * value + d)
          · rfl

theorem decimalText_of_lt {n : Nat} (h : n < 10) : decimalText n = [(Nat.digitChar n).toUInt8] := by
  rw [decimalText, Nat.toDigits_of_lt_base h, List.map_singleton]

theorem decimalText_of_le {n : Nat} (h : 10 ≤ n) :
    decimalText n = decimalText (n / 10) ++ [(Nat.digitChar (n % 10)).toUInt8] := by
  rw [decimalText, Nat.toDigits_of_base_le (by omega) h, List.map_append, List.map_singleton,
    decimalText]

theorem decimalValueFrom_text {n : Nat} (h : n < 2 ^ 64) :
    decimalValueFrom 0 (decimalText n) = .ok n := by
  induction n using Nat.strongRecOn with
  | ind n ih =>
      rcases Nat.lt_or_ge n 10 with hlt | hge
      · rw [decimalText_of_lt hlt, decimalValueFrom, decimalDigit?_digitChar hlt]
        simp only [Nat.mul_zero, Nat.zero_add, if_pos h, decimalValueFrom]
      · have hdigit := decimalDigit?_digitChar (Nat.mod_lt n (by omega : 0 < 10))
        rw [decimalText_of_le hge, decimalValueFrom_append, ih (n / 10) (by omega) (by omega)]
        simp only [Except.bind, decimalValueFrom, hdigit, Nat.div_add_mod, if_pos h]

theorem decimalText_ne_nil (n : Nat) : decimalText n ≠ [] := by
  rcases Nat.lt_or_ge n 10 with h | h
  · simp [decimalText_of_lt h]
  · simp [decimalText_of_le h]

/-- Decoding gives back a number of 64 bits that was printed in decimal. -/
theorem decodeDecimal_text (n : UInt64) : decodeDecimal (decimalText n.toNat) = .ok n := by
  rw [decodeDecimal, if_neg (decimalText_ne_nil n.toNat), decimalValueFrom_text n.toNat_lt]
  exact congrArg Except.ok UInt64.ofNat_toNat

theorem decimal_of_mem_text {n : Nat} {b : UInt8} (h : b ∈ decimalText n) : 48 ≤ b ∧ b ≤ 57 := by
  have hdigit : ∃ d < 10, b = (Nat.digitChar d).toUInt8 := by
    induction n using Nat.strongRecOn with
    | ind n ih =>
        rcases Nat.lt_or_ge n 10 with hlt | hge
        · rw [decimalText_of_lt hlt] at h
          exact ⟨n, hlt, List.mem_singleton.1 h⟩
        · rw [decimalText_of_le hge] at h
          rcases List.mem_append.1 h with h | h
          · exact ih (n / 10) (by omega) h
          · exact ⟨n % 10, Nat.mod_lt n (by omega), List.mem_singleton.1 h⟩
  rcases hdigit with ⟨d, hd, rfl⟩
  interval_cases d <;> decide

end QueueWatch
