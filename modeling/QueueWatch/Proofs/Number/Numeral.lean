import Mathlib.Data.List.Basic
import QueueWatch.Number.Unsigned

/-!
# Numerals in text

A numeral is a row of decimal digits with a plus sign before it or none, and it stands for the value
of the digits, which has to fit (`IsNumeral`). Reading goes through the digits from the left and
stops when what it has read so far does not fit. Since the value only grows, no numeral is lost by
this, and numerals are exactly what is read (`parseUnsigned_eq_ok_iff`).
-/

namespace QueueWatch

/-! ## Digits -/

theorem le_ofDigitChars (value : Nat) (s : List Char) : value ≤ Nat.ofDigitChars 10 s value := by
  rw [Nat.ofDigitChars_eq_ofDigitChars_zero]
  have hpos : 1 ≤ 10 ^ s.length := Nat.one_le_pow _ _ (by decide)
  calc value = 1 * value := (Nat.one_mul value).symm
    _ ≤ 10 ^ s.length * value := Nat.mul_le_mul_right value hpos
    _ ≤ 10 ^ s.length * value + Nat.ofDigitChars 10 s 0 := Nat.le_add_right _ _

/-- Digits that do not begin with zero have a value with as many digits. -/
theorem pow_le_ofDigitChars {c : Char} {s : List Char} (hc : c.isDigit) (hzero : c ≠ '0') :
    10 ^ s.length ≤ Nat.ofDigitChars 10 (c :: s) 0 := by
  have hpos : 1 ≤ c.toNat - '0'.toNat := by
    have hne : c.toNat ≠ '0'.toNat := fun h => hzero (Char.toNat_inj.1 h)
    have hle : '0'.toNat ≤ c.toNat := (Char.isDigit_iff_toNat.1 hc).1
    omega
  rw [Nat.ofDigitChars_cons, Nat.ofDigitChars_eq_ofDigitChars_zero, Nat.mul_zero, Nat.zero_add]
  calc 10 ^ s.length = 10 ^ s.length * 1 := (Nat.mul_one _).symm
    _ ≤ 10 ^ s.length * (c.toNat - '0'.toNat) := Nat.mul_le_mul_left _ hpos
    _ ≤ _ := Nat.le_add_right _ _

/-- A number whose digits begin with zero is zero. -/
theorem toDigits_eq_of_head? {n : Nat} (h : (Nat.toDigits 10 n).head? = some '0') :
    Nat.toDigits 10 n = ['0'] := by
  induction n using Nat.strongRecOn with
  | ind n ih =>
      rcases Nat.lt_or_ge n 10 with hlt | hge
      · rw [Nat.toDigits_of_lt_base hlt] at h ⊢
        rw [List.head?_cons, Option.some.injEq] at h
        rw [h]
      · rw [Nat.toDigits_of_base_le (by decide) hge,
          List.head?_append_of_ne_nil _ Nat.toDigits_ne_nil] at h
        have hzero : n / 10 = 0 := by
          rw [← Nat.ofDigitChars_ten_toDigits (n := n / 10), ih (n / 10) (by omega) h]
          rfl
        omega

/-! ## Numerals -/

/-- A text stands for a number of at most `bits` bits. -/
def IsNumeral (bits : Nat) (text : List Char) (n : Nat) : Prop :=
  ∃ digits, (text = digits ∨ text = '+' :: digits) ∧ digits ≠ [] ∧ (∀ c ∈ digits, c.isDigit) ∧
    n = Nat.ofDigitChars 10 digits 0 ∧ n < 2 ^ bits

theorem IsNumeral.lt {bits n : Nat} {text : List Char} (h : IsNumeral bits text n) :
    n < 2 ^ bits := by
  rcases h with ⟨_, _, _, _, _, hlt⟩
  exact hlt

theorem IsNumeral.isDigit_or_eq {bits n : Nat} {text : List Char} (h : IsNumeral bits text n) :
    ∀ c ∈ text, c.isDigit ∨ c = '+' := by
  rcases h with ⟨digits, rfl | rfl, _, hdigits, _⟩ <;> intro c hc
  · exact Or.inl (hdigits c hc)
  · exact (List.mem_cons.1 hc).elim Or.inr fun hc => Or.inl (hdigits c hc)

theorem digitValue?_eq (c : Char) :
    digitValue? c = if c.isDigit then some (c.toNat - '0'.toNat) else none := by
  simp [digitValue?, Char.isDigit, Char.le_def]

theorem unsignedFrom_eq_ok_iff {bits value n : Nat} {s : List Char} (hvalue : value < 2 ^ bits) :
    unsignedFrom bits value s = .ok n ↔
      (∀ c ∈ s, c.isDigit) ∧ n = Nat.ofDigitChars 10 s value ∧ n < 2 ^ bits := by
  induction s generalizing value with
  | nil =>
      rw [unsignedFrom, Except.ok.injEq, Nat.ofDigitChars_nil]
      constructor
      · rintro rfl
        exact ⟨by simp, rfl, hvalue⟩
      · exact fun h => h.2.1.symm
  | cons c s ih =>
      rw [unsignedFrom, digitValue?_eq, Nat.ofDigitChars_cons, List.forall_mem_cons]
      by_cases hc : c.isDigit
      · rw [if_pos hc]
        by_cases hroom : 10 * value + (c.toNat - '0'.toNat) < 2 ^ bits
        · simp only [if_pos hroom, ih hroom, hc, true_and]
        · have hlarge := le_ofDigitChars (10 * value + (c.toNat - '0'.toNat)) s
          simp only [if_neg hroom, reduceCtorEq, false_iff]
          rintro ⟨_, rfl, hn⟩
          omega
      · simp [hc]

/-- What is read is what is a numeral. -/
theorem parseUnsigned_eq_ok_iff {bits n : Nat} {s : List Char} :
    parseUnsigned bits s = .ok n ↔ IsNumeral bits s n := by
  have hplus : ¬ '+'.isDigit = true := by decide
  have hdigits := fun digits => unsignedFrom_eq_ok_iff (n := n) (s := digits) (Nat.two_pow_pos bits)
  cases s with
  | nil => simp [parseUnsigned, IsNumeral]
  | cons c rest =>
      by_cases hc : c = '+'
      · subst hc
        cases rest with
        | nil => simp [parseUnsigned, IsNumeral, hplus]
        | cons d rest =>
            have hread : parseUnsigned bits ('+' :: d :: rest) = unsignedFrom bits 0 (d :: rest) :=
              rfl
            rw [hread, hdigits]
            constructor
            · exact fun h => ⟨d :: rest, Or.inr rfl, List.cons_ne_nil d rest, h⟩
            · rintro ⟨digits, rfl | htext, _, h⟩
              · exact absurd (h.1 '+' List.mem_cons_self) hplus
              · rw [List.tail_eq_of_cons_eq htext]
                exact h
      · have hread : parseUnsigned bits (c :: rest) = unsignedFrom bits 0 (c :: rest) := by
          unfold parseUnsigned
          split <;> simp_all
        rw [hread, hdigits]
        constructor
        · exact fun h => ⟨c :: rest, Or.inl rfl, List.cons_ne_nil c rest, h⟩
        · rintro ⟨digits, rfl | htext, _, h⟩
          · exact h
          · exact absurd (List.head_eq_of_cons_eq htext) hc

theorem isNumeral_toDigits {bits n : Nat} (h : n < 2 ^ bits) :
    IsNumeral bits (Nat.toDigits 10 n) n :=
  ⟨_, Or.inl rfl, Nat.toDigits_ne_nil,
    fun _ hc => Nat.isDigit_of_mem_toDigits (by decide) (by decide) hc,
    Nat.ofDigitChars_ten_toDigits.symm, h⟩

end QueueWatch
