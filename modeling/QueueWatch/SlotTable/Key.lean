import QueueWatch.Number.Power

/-!
# Keys of fixed width

A slot table knows its keys by their binary form, `n` bytes. `foldHash` folds such a key into one
word: it takes four bytes at a time, the first one highest, pads the last group with zeros, and
mixes every group into the hash so far.
-/

namespace QueueWatch

/-- A key as `n` bytes. -/
abbrev Key (n : Nat) := Vector UInt8 n

/-- Four bytes as a word, the first one highest. -/
def word (a b c d : UInt8) : UInt32 :=
  UInt32.ofNat (a.toNat * 2 ^ 24 + b.toNat * 2 ^ 16 + c.toNat * 2 ^ 8 + d.toNat)

/-- Mixes a group of four bytes into a hash. The high half of the group reaches the low half of the
hash, which is what a small table looks at. -/
def mixWord (hash part : UInt32) : UInt32 :=
  hash ^^^ (part ^^^ (part >>> 16))

/-- Mixes bytes into a hash. -/
def foldHashFrom (hash : UInt32) : List UInt8 → UInt32
  | [] => hash
  | [a] => mixWord hash (word a 0 0 0)
  | [a, b] => mixWord hash (word a b 0 0)
  | [a, b, c] => mixWord hash (word a b c 0)
  | a :: b :: c :: d :: rest => foldHashFrom (mixWord hash (word a b c d)) rest

def foldHash {n : Nat} (key : Key n) : UInt64 :=
  (foldHashFrom 0 key.toList).toUInt64

end QueueWatch
