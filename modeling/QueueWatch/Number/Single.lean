import QueueWatch.Number.Power

/-!
# Numbers of single precision

A number of single precision is an exact value `mantissa * 2 ^ exponent` with a mantissa below
`2 ^ 24` and an exponent from -149 to 104, an infinity, or not a number. `Single.ofFraction` rounds
a fraction to the nearest one; of two that are equally near it takes the one with the even mantissa.
`Single.parse?` reads decimal text: it takes the value of the text exactly and rounds once.

All arithmetic is on natural numbers and integers, so values can be reasoned about exactly.
-/

namespace QueueWatch

/-- A number of single precision. A finite one with a mantissa below `2 ^ 23` has the exponent -149,
so every value has one form. -/
inductive Single where
  | nan
  | infinity (negative : Bool)
  | finite (negative : Bool) (mantissa : Nat) (exponent : Int)
  deriving DecidableEq, Repr

namespace Single

/-- The nearest natural number to `num / den`, a tie going to the even one. -/
def roundHalfEven (num den : Nat) : Nat :=
  let quotient := num / den
  let twice := 2 * (num % den)
  if twice < den then quotient
  else if den < twice then quotient + 1
  else quotient + quotient % 2

/-- The numerator and the denominator of `num / den / 2 ^ exponent`. -/
def scale (num den : Nat) (exponent : Int) : Nat × Nat :=
  (num * 2 ^ (-exponent).toNat, den * 2 ^ exponent.toNat)

/-- The exponent of the greatest power of two that is at most `num / den`. -/
def magnitude (num den : Nat) : Int :=
  let estimate : Int := (Nat.log2 num : Int) - (Nat.log2 den : Int)
  let (n, d) := scale num den estimate
  if n < d then estimate - 1 else estimate

/-- Rounds the fraction `num / den`, where `den` is positive. -/
def ofFraction (negative : Bool) (num den : Nat) : Single :=
  if num = 0 then .finite negative 0 (-149)
  else
    let exponent := max (-149) (magnitude num den - 23)
    let (n, d) := scale num den exponent
    let rounded := roundHalfEven n d
    let (mantissa, exponent) :=
      if rounded = 2 ^ 24 then (2 ^ 23, exponent + 1) else (rounded, exponent)
    if 104 < exponent then .infinity negative else .finite negative mantissa exponent

/-- The value of `digits * 10 ^ exponent`, where `digits` has `count` digits and does not begin with
a zero. Values that are certain to be infinite or zero are not computed. -/
def ofDecimal (negative : Bool) (digits count : Nat) (exponent : Int) : Single :=
  if 40 < count + exponent then .infinity negative
  else if count + exponent < -46 then .finite negative 0 (-149)
  else ofFraction negative (digits * 10 ^ exponent.toNat) (10 ^ (-exponent).toNat)

/-- The digits at the start of a text, and the text behind them. -/
def digitRun (s : List Char) : List Char × List Char :=
  s.span Char.isDigit

def digitsValue (s : List Char) : Nat :=
  s.foldl (fun value c => 10 * value + (c.toNat - '0'.toNat)) 0

/-- The exponent that a text holds: a letter `e` of either case, a sign if need be, and digits; the
empty text stands for the exponent zero. -/
def exponent? : List Char → Option Int
  | [] => some 0
  | e :: rest =>
      if e = 'e' ∨ e = 'E' then
        let (negative, digits) : Bool × List Char :=
          match rest with
          | '-' :: digits => (true, digits)
          | '+' :: digits => (false, digits)
          | digits => (false, digits)
        if digits ≠ [] ∧ digits.all Char.isDigit then
          some (if negative then -(digitsValue digits : Int) else digitsValue digits)
        else none
      else none

/-- Reads a text without a sign: a decimal number with or without point and exponent, the name of
infinity, or that of no number. -/
def parseUnsigned? (negative : Bool) (s : List Char) : Option Single :=
  let name := s.map Char.toLower
  if name = "nan".toList then some .nan
  else if name = "inf".toList ∨ name = "infinity".toList then some (.infinity negative)
  else
    let (whole, rest) := digitRun s
    let (fraction, rest) : List Char × List Char :=
      match rest with
      | '.' :: tail => digitRun tail
      | rest => ([], rest)
    if whole = [] ∧ fraction = [] then none
    else
      (exponent? rest).map fun exponent =>
        let digits := (whole ++ fraction).dropWhile (· == '0')
        if digits = [] then .finite negative 0 (-149)
        else ofDecimal negative (digitsValue digits) digits.length (exponent - fraction.length)

def parse? (s : String) : Option Single :=
  match s.toList with
  | '-' :: rest => parseUnsigned? true rest
  | '+' :: rest => parseUnsigned? false rest
  | rest => parseUnsigned? false rest

end Single

end QueueWatch
