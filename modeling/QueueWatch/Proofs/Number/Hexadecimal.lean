import Mathlib.Data.List.Induction
import QueueWatch.Proofs.Number.Decimal

/-!
# Hexadecimal numbers in columns

Sixteen bytes are the digits of a case (`HexCase.IsDigit`), and the value of digits is positional
(`HexCase.value`). Reading goes through the bytes from the left and stops at the first one that is
no digit. If there is none, it ends with the value of all of them (`hexValueFrom_eq`).

A number has one text of a given width. So digits that were read are what is printed for their value
(`HexCase.text_value`), which is the other direction of `hexValueFrom_text`. Two digits stand for a
byte, and the digits of a word for its bytes (`HexCase.value_eq_ofDigits`).
-/

namespace QueueWatch

/-! ## Digits and their value -/

namespace HexCase

/-- A byte is a decimal digit or one of the six letters of the case. -/
def IsDigit (case : HexCase) (b : UInt8) : Prop :=
  QueueWatch.IsDigit b ∨ case.ten ≤ b ∧ b < case.ten + 6

instance (case : HexCase) : DecidablePred case.IsDigit := fun _ =>
  inferInstanceAs (Decidable (_ ∨ _))

/-- The value of a digit; the first letter counts ten. -/
def digitValue (case : HexCase) (b : UInt8) : Nat :=
  if QueueWatch.IsDigit b then b.toNat - 48 else b.toNat - case.ten.toNat + 10

/-- The value of hexadecimal digits: the last one counts once, the one before it sixteen times, and
so on. -/
def value (case : HexCase) (digits : List UInt8) : Nat :=
  Nat.ofDigits 16 (digits.reverse.map case.digitValue)

variable {case : HexCase} {b : UInt8}

theorem digit?_of_isDigit (h : case.IsDigit b) : case.digit? b = some (case.digitValue b) := by
  rw [digit?, digitValue]
  by_cases hb : QueueWatch.IsDigit b
  · rw [decimalDigit?_of_isDigit hb, if_pos hb]
  · rw [decimalDigit?_of_not_isDigit hb, if_neg hb]
    exact if_pos (h.resolve_left hb)

theorem digit?_of_not_isDigit (h : ¬ case.IsDigit b) : case.digit? b = none := by
  rw [IsDigit, not_or] at h
  rw [digit?, decimalDigit?_of_not_isDigit h.1]
  exact if_neg h.2

theorem digitValue_lt (h : case.IsDigit b) : case.digitValue b < 16 :=
  digit?_lt (digit?_of_isDigit h)

/-- A digit is printed for its value. -/
theorem digit_digitValue (h : case.IsDigit b) : case.digit (case.digitValue b) = b := by
  rw [digit, digitValue]
  apply UInt8.toNat_inj.1
  by_cases hb : QueueWatch.IsDigit b
  · have hlow : 48 ≤ b.toNat := hb.1
    have hhigh : b.toNat ≤ 57 := hb.2
    have hzero : (48 : UInt8).toNat = 48 := rfl
    rw [if_pos hb, if_pos (by omega), UInt8.toNat_add, hzero, Nat.toUInt8_eq, UInt8.toNat_ofNat']
    omega
  · have hletter := h.resolve_left hb
    have hlow : case.ten.toNat ≤ b.toNat := hletter.1
    have hhigh : b.toNat < (case.ten + 6).toNat := hletter.2
    have hten : (case.ten + 6).toNat = case.ten.toNat + 6 := by cases case <;> rfl
    have hbyte := b.toNat_lt
    rw [if_neg hb, if_neg (by omega), UInt8.toNat_add, Nat.toUInt8_eq, UInt8.toNat_ofNat']
    omega

theorem value_nil : case.value [] = 0 :=
  rfl

theorem value_append (left right : List UInt8) :
    case.value (left ++ right) = case.value left * 16 ^ right.length + case.value right :=
  ofDigits_reverse_append ..

theorem value_singleton (b : UInt8) : case.value [b] = case.digitValue b :=
  Nat.ofDigits_singleton ..

theorem value_lt {digits : List UInt8} (h : ∀ b ∈ digits, case.IsDigit b) :
    case.value digits < 16 ^ digits.length := by
  have hdigits : ∀ d ∈ digits.reverse.map case.digitValue, d < 16 := by
    intro d hd
    rcases List.mem_map.1 hd with ⟨b, hb, rfl⟩
    exact digitValue_lt (h b (List.mem_reverse.1 hb))
  have hlt := Nat.ofDigits_lt_base_pow_length (by decide : 1 < 16) hdigits
  rwa [List.length_map, List.length_reverse] at hlt

/-- What is printed for the value of digits, as wide as they are, are these digits. -/
theorem text_value {digits : List UInt8} (h : ∀ b ∈ digits, case.IsDigit b) :
    case.text digits.length (case.value digits) = digits := by
  induction digits using List.reverseRecOn with
  | nil => rfl
  | append_singleton init b ih =>
      rcases List.forall_mem_append.1 h with ⟨hinit, hb⟩
      rw [List.forall_mem_singleton] at hb
      have hdigit := digitValue_lt hb
      have hvalue : case.value (init ++ [b]) = 16 * case.value init + case.digitValue b := by
        rw [value_append, value_singleton, List.length_singleton, Nat.pow_one, Nat.mul_comm]
      have hfront : case.value (init ++ [b]) / 16 = case.value init := by omega
      have hlast : case.value (init ++ [b]) % 16 = case.digitValue b := by omega
      rw [List.length_append, List.length_singleton, text, hfront, hlast, ih hinit,
        digit_digitValue hb]

end HexCase

/-! ## Reading -/

/-- Digits are read as the value that they continue, and other bytes up to the first that is no
digit. -/
theorem hexValueFrom_eq (case : HexCase) (value : Nat) (bytes : List UInt8) :
    hexValueFrom case value bytes =
      match bytes.find? (¬ case.IsDigit ·) with
      | some b => .error (.invalidDigit b)
      | none => .ok (value * 16 ^ bytes.length + case.value bytes) := by
  induction bytes generalizing value with
  | nil => simp [hexValueFrom, HexCase.value_nil]
  | cons b rest ih =>
      by_cases hb : case.IsDigit b
      · have hvalue : (16 * value + case.digitValue b) * 16 ^ rest.length + case.value rest =
            value * 16 ^ (b :: rest).length + case.value (b :: rest) := by
          rw [← List.singleton_append, HexCase.value_append, HexCase.value_singleton,
            List.length_append, List.length_singleton]
          ring
        simp only [hexValueFrom, HexCase.digit?_of_isDigit hb]
        rw [ih, hvalue, List.find?_cons_of_neg (by simpa using hb)]
      · simp only [hexValueFrom, HexCase.digit?_of_not_isDigit hb]
        rw [List.find?_cons_of_pos (by simpa using hb)]

/-- In a width that numbers are printed in, nothing but a byte that is no digit can be at fault. -/
theorem decodeHex_eq (case : HexCase) {bytes : List UInt8} (hpos : 0 < bytes.length)
    (hwidth : bytes.length ≤ 8) (heven : bytes.length % 2 = 0) :
    decodeHex case bytes =
      match bytes.find? (¬ case.IsDigit ·) with
      | some b => .error (.invalidDigit b)
      | none => .ok (case.value bytes).toUInt64 := by
  have hfits : ¬ (8 < bytes.length ∨ bytes.length % 2 = 1) := by omega
  rw [decodeHex, if_neg (List.ne_nil_of_length_pos hpos), if_neg hfits, hexValueFrom_eq,
    Nat.zero_mul, Nat.zero_add]
  cases bytes.find? (¬ case.IsDigit ·) <;> rfl

/-! ## Pairs of digits -/

/-- The bytes for which pairs of hexadecimal digits stand. -/
def HexCase.encodedBytes (case : HexCase) : List UInt8 → List Nat
  | [] => []
  | [_] => []
  | first :: second :: rest => case.value [first, second] :: case.encodedBytes rest

theorem HexCase.two_mul_length_encodedBytes (case : HexCase) {digits : List UInt8}
    (h : digits.length % 2 = 0) : 2 * (case.encodedBytes digits).length = digits.length := by
  fun_induction encodedBytes case digits with
  | case1 => rfl
  | case2 => cases h
  | case3 first second rest ih =>
      simp only [List.length_cons] at h ⊢
      have hrest := ih (by omega)
      omega

theorem HexCase.encodedBytes_lt {case : HexCase} {digits : List UInt8}
    (h : ∀ b ∈ digits, case.IsDigit b) : ∀ n ∈ case.encodedBytes digits, n < 256 := by
  fun_induction encodedBytes case digits with
  | case1 => simp
  | case2 => simp
  | case3 first second rest ih =>
      simp only [List.forall_mem_cons] at h
      have hpair : case.value [first, second] < 16 ^ 2 := value_lt (by simp [h.1, h.2.1])
      exact List.forall_mem_cons.2 ⟨hpair, ih h.2.2⟩

/-- Two hexadecimal digits make one digit to the base 256. -/
theorem HexCase.value_eq_ofDigits (case : HexCase) {digits : List UInt8}
    (h : digits.length % 2 = 0) :
    case.value digits = Nat.ofDigits 256 (case.encodedBytes digits).reverse := by
  fun_induction encodedBytes case digits with
  | case1 => rfl
  | case2 => cases h
  | case3 first second rest ih =>
      simp only [List.length_cons] at h
      have hrest : rest.length % 2 = 0 := by omega
      have hpower : 16 ^ rest.length = 256 ^ (case.encodedBytes rest).length := by
        rw [← case.two_mul_length_encodedBytes hrest, Nat.pow_mul]
      have hsplit : first :: second :: rest = [first, second] ++ rest := rfl
      rw [hsplit, value_append, ih hrest, List.reverse_cons, Nat.ofDigits_append,
        Nat.ofDigits_singleton, List.length_reverse, hpower, Nat.add_comm, Nat.mul_comm]

end QueueWatch
