import QueueWatch.Number.Power

/-!
# Numbers in table columns

The kernel prints the numbers of its tables in two ways: in hexadecimal with a fixed, even number of
digits of one case, and in decimal. `decodeHex` and `decodeDecimal` read them from bytes. A failure
names its cause: no bytes at all, a length that no printed value has, the first byte that is no
digit, or a value that does not fit into 64 bits.
-/

namespace QueueWatch

/-- Why bytes are not a number. -/
inductive NumberError where
  | empty
  | invalidLength (length : Nat)
  | invalidDigit (byte : UInt8)
  | overflow
  deriving DecidableEq, Repr

/-- A byte as two lower-case hexadecimal digits. -/
def hexByte (b : UInt8) : String :=
  String.ofList [Nat.digitChar (b.toNat / 16), Nat.digitChar (b.toNat % 16)]

def NumberError.message : NumberError → String
  | .empty => "cannot decode a zero-length value"
  | .invalidLength n =>
      "cannot decode hex value of length " ++ toString n ++ ": expected an even length of at most 8"
  | .invalidDigit b => "invalid digit byte 0x" ++ hexByte b
  | .overflow => "decimal value does not fit into 64 bits"

/-- The case of the hexadecimal digits above nine. -/
inductive HexCase where
  | upper
  | lower
  deriving DecidableEq, Repr

/-- The byte of the digit ten. -/
def HexCase.ten : HexCase → UInt8
  | .upper => 65
  | .lower => 97

def decimalDigit? (b : UInt8) : Option Nat :=
  if 48 ≤ b ∧ b ≤ 57 then some (b.toNat - 48) else none

def HexCase.digit? (case : HexCase) (b : UInt8) : Option Nat :=
  match decimalDigit? b with
  | some d => some d
  | none => if case.ten ≤ b ∧ b < case.ten + 6 then some (b.toNat - case.ten.toNat + 10) else none

/-- The value of hexadecimal digits that continue a number whose digits so far have the value
`value`. -/
def hexValueFrom (case : HexCase) (value : Nat) : List UInt8 → Except NumberError Nat
  | [] => .ok value
  | b :: rest =>
      match case.digit? b with
      | some d => hexValueFrom case (16 * value + d) rest
      | none => .error (.invalidDigit b)

/-- Reads an even number of hexadecimal digits, at most eight. -/
def decodeHex (case : HexCase) (bytes : List UInt8) : Except NumberError UInt64 :=
  if bytes = [] then .error .empty
  else if 8 < bytes.length ∨ bytes.length % 2 = 1 then .error (.invalidLength bytes.length)
  else (hexValueFrom case 0 bytes).map Nat.toUInt64

/-- The value of decimal digits that continue a number whose digits so far have the value `value`.
Bytes are judged in order: a byte that is no digit is reported unless the digits before it already
overflow. -/
def decimalValueFrom (value : Nat) : List UInt8 → Except NumberError Nat
  | [] => .ok value
  | b :: rest =>
      match decimalDigit? b with
      | none => .error (.invalidDigit b)
      | some d =>
          if 10 * value + d < 2 ^ 64 then decimalValueFrom (10 * value + d) rest
          else .error .overflow

/-- Reads a decimal number of at most 64 bits. Leading zeros are allowed, signs are not. -/
def decodeDecimal (bytes : List UInt8) : Except NumberError UInt64 :=
  if bytes = [] then .error .empty
  else (decimalValueFrom 0 bytes).map Nat.toUInt64

theorem decimalDigit?_lt {b : UInt8} {d : Nat} (h : decimalDigit? b = some d) : d < 10 := by
  unfold decimalDigit? at h
  split at h
  · next hb =>
      have h57 : b.toNat ≤ 57 := hb.2
      simp only [Option.some.injEq] at h
      omega
  · simp at h

theorem HexCase.digit?_lt {case : HexCase} {b : UInt8} {d : Nat} (h : case.digit? b = some d) :
    d < 16 := by
  unfold HexCase.digit? at h
  split at h
  · next d' hd =>
      have := decimalDigit?_lt hd
      simp only [Option.some.injEq] at h
      omega
  · split at h
    · next hb =>
        have hlt : b.toNat < (case.ten + 6).toNat := hb.2
        have hten : (case.ten + 6).toNat = case.ten.toNat + 6 := by cases case <;> rfl
        simp only [Option.some.injEq] at h
        omega
    · simp at h

end QueueWatch
