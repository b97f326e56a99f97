import QueueWatch.Number.Single

/-!
# Shortest decimal text

A number of single precision is written with the fewest decimal digits that read back as the same
number. The numbers that read back form an interval around the value: it ends half way to the two
neighbours, and its ends belong to it exactly if the mantissa is even. Decimal grids are tried from
the coarsest on. On each the only candidates are the two points around the value; the first grid
with a candidate inside the interval wins, and of two candidates the nearer one, the upper one on a
tie.

The digits are found once (`shortest`), and a layout writes them: `positional` always with a point
position, `general` with an exponent where the number is too small or too large for that.
-/

namespace QueueWatch.Single

/-- The decimal number `digits * 10 ^ exponent`. -/
structure Decimal where
  digits : Nat
  exponent : Int
  deriving DecidableEq, Repr

/-- A positive value and the interval of the numbers that round to it, all in units of
`1 / denominator`. -/
structure Neighbourhood where
  low : Nat
  value : Nat
  high : Nat
  denominator : Nat
  closed : Bool

/-- The neighbourhood of `mantissa * 2 ^ exponent`. The lower neighbour of a power of two is half as
far away as the upper one, unless both are subnormal. -/
def neighbourhood (mantissa : Nat) (exponent : Int) : Neighbourhood :=
  let quarter := exponent - 2
  let unit := 2 ^ quarter.toNat
  let below := if mantissa = 2 ^ 23 ∧ -149 < exponent then 1 else 2
  { low := (4 * mantissa - below) * unit
    value := 4 * mantissa * unit
    high := (4 * mantissa + 2) * unit
    denominator := 2 ^ (-quarter).toNat
    closed := mantissa % 2 = 0 }

/-- Whether `num / den` lies in the interval. -/
def Neighbourhood.contains (n : Neighbourhood) (num den : Nat) : Bool :=
  let point := num * n.denominator
  if n.closed then n.low * den ≤ point && point ≤ n.high * den
  else n.low * den < point && point < n.high * den

/-- The point of the grid `10 ^ exponent` that writes the value, if the grid has one. -/
def Neighbourhood.onGrid? (n : Neighbourhood) (exponent : Int) : Option Nat :=
  let step := 10 ^ exponent.toNat
  let den := 10 ^ (-exponent).toNat
  let lower := n.value * den / (n.denominator * step)
  let upper := lower + 1
  let lowerFits := n.contains (lower * step) den
  let upperFits := n.contains (upper * step) den
  let upperIsNearer :=
    upper * step * n.denominator + lower * step * n.denominator ≤ 2 * n.value * den
  if upperFits && (!lowerFits || upperIsNearer) then some upper
  else if lowerFits then some lower
  else none

/-- The first hit on `count` grids, from `10 ^ exponent` down. -/
def Neighbourhood.firstHit (n : Neighbourhood) (exponent : Int) : Nat → Decimal
  | 0 => ⟨0, exponent⟩
  | count + 1 =>
      match n.onGrid? exponent with
      | some digits => ⟨digits, exponent⟩
      | none => n.firstHit (exponent - 1) count

/-- The shortest decimal number that reads back as `mantissa * 2 ^ exponent`. Grids finer than the
value's own last place are never needed: it lies on them. -/
def shortest (mantissa : Nat) (exponent : Int) : Decimal :=
  (neighbourhood mantissa exponent).firstHit 39 (39 + 150)

def decimalDigits (n : Nat) : List Char :=
  Nat.toDigits 10 n

/-- Writes a decimal number with its point in place and at least `places` digits behind it. -/
def Decimal.positional (d : Decimal) (places : Nat) : List Char :=
  let digits := decimalDigits d.digits
  let point : Int := digits.length + d.exponent
  let whole := if point ≤ 0 then ['0'] else
    digits.take point.toNat ++ List.replicate (point - digits.length).toNat '0'
  let fraction := List.replicate (-point).toNat '0' ++ digits.drop point.toNat
  let fraction := fraction ++ List.replicate (places - fraction.length) '0'
  if fraction = [] then whole else whole ++ '.' :: fraction

/-- Writes a decimal number with one digit before the point and an exponent. -/
def Decimal.scientific (d : Decimal) : List Char :=
  let digits := decimalDigits d.digits
  let power : Int := digits.length + d.exponent - 1
  let fraction := digits.drop 1
  digits.take 1 ++ (if fraction = [] then [] else '.' :: fraction) ++ 'e' :: (toString power).toList

/-- The text of a number whose decimal digits `write` lays out. Zero has the digit zero. -/
def layOut (write : Decimal → List Char) : Single → String
  | .nan => "NaN"
  | .infinity negative => if negative then "-inf" else "inf"
  | .finite negative mantissa exponent =>
      let digits := if mantissa = 0 then ⟨0, 0⟩ else shortest mantissa exponent
      String.ofList ((if negative then ['-'] else []) ++ write digits)

/-- The text of a number with its point always in place. -/
def positional : Single → String :=
  layOut (·.positional 0)

/-- The text of a number with a fraction of at least one digit; numbers below `10 ^ -4` and from
`10 ^ 16` on are written with an exponent. -/
def general : Single → String :=
  layOut fun d =>
    let point : Int := (decimalDigits d.digits).length + d.exponent
    if d.digits ≠ 0 ∧ (point < -3 ∨ 16 < point) then d.scientific else d.positional 1

end QueueWatch.Single
