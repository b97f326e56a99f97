/-!
# UTF-8

`units` reads bytes as UTF-8. It gives one entry per unit of the text: a character, or `none` for a
maximal run of bytes that begins a character and cannot go on to finish it. `decode?` accepts bytes
without such runs, `decodeLossy` shows every one of them as U+FFFD, so that it never fails and keeps
all that can be read.

The reader carries the character it is in the middle of (`Pending`), and it takes the bytes one at a
time: no position and no look-ahead are needed.
-/

namespace QueueWatch.Text.Utf8

/-- A character whose first bytes have been read: its value so far, how many more bytes it needs,
and the range in which the next one has to lie. -/
structure Pending where
  value : Nat
  missing : Nat
  low : UInt8
  high : UInt8

/-- What a byte at the start of a character says. -/
inductive Lead where
  /-- The byte is a character by itself. -/
  | single (c : Char)
  /-- The byte begins a longer character. -/
  | opens (pending : Pending)
  /-- No character begins with this byte. -/
  | invalid

/-- The byte at the start of a character. The ranges of the second byte exclude overlong forms,
surrogates and values above U+10FFFF. -/
def Lead.ofByte (b : UInt8) : Lead :=
  let n := b.toNat
  if n < 0x80 then .single (Char.ofNat n)
  else if n < 0xC2 then .invalid
  else if n < 0xE0 then .opens ⟨n - 0xC0, 1, 0x80, 0xBF⟩
  else if n = 0xE0 then .opens ⟨0, 2, 0xA0, 0xBF⟩
  else if n = 0xED then .opens ⟨0xD, 2, 0x80, 0x9F⟩
  else if n < 0xF0 then .opens ⟨n - 0xE0, 2, 0x80, 0xBF⟩
  else if n = 0xF0 then .opens ⟨0, 3, 0x90, 0xBF⟩
  else if n < 0xF4 then .opens ⟨n - 0xF0, 3, 0x80, 0xBF⟩
  else if n = 0xF4 then .opens ⟨4, 3, 0x80, 0x8F⟩
  else .invalid

/-- The units from a byte on that starts a character, where `go` reads the bytes behind it. -/
def startUnits (go : Option Pending → List (Option Char)) (b : UInt8) : List (Option Char) :=
  match Lead.ofByte b with
  | .single c => some c :: go none
  | .opens pending => go (some pending)
  | .invalid => none :: go none

/-- The units of the bytes that follow the bytes of `pending`. -/
def unitsFrom : Option Pending → List UInt8 → List (Option Char)
  | none, [] => []
  | some _, [] => [none]
  | none, b :: rest => startUnits (unitsFrom · rest) b
  | some p, b :: rest =>
      if p.low ≤ b ∧ b ≤ p.high then
        let value := p.value * 64 + b.toNat % 64
        if p.missing ≤ 1 then some (Char.ofNat value) :: unitsFrom none rest
        else unitsFrom (some ⟨value, p.missing - 1, 0x80, 0xBF⟩) rest
      else none :: startUnits (unitsFrom · rest) b

/-- The characters of the bytes, with `none` for each maximal run that is no character. -/
def units (bytes : List UInt8) : List (Option Char) :=
  unitsFrom none bytes

/-- The text of bytes that are UTF-8 throughout. -/
def decode? (bytes : List UInt8) : Option String :=
  ((units bytes).mapM id).map String.ofList

/-- The text of any bytes, with U+FFFD for each maximal run that is no character. -/
def decodeLossy (bytes : List UInt8) : String :=
  String.ofList ((units bytes).map fun unit => unit.getD '\uFFFD')

def encode (s : String) : List UInt8 :=
  s.toUTF8.toList

end QueueWatch.Text.Utf8
