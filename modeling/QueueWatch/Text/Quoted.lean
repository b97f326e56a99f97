import QueueWatch.Text.Shown

/-!
# Quoted text

A text in double quotes, for messages that show a value exactly. Characters that show stand for
themselves; the others, the quote and the backslash are escaped. An apostrophe needs no escape
between double quotes.
-/

namespace QueueWatch.Text

/-- The number of a character in lower-case hexadecimal, without leading zeros, between braces. -/
def escapeByNumber (c : Char) : List Char :=
  "\\u\x7b".toList ++ Nat.toDigits 16 c.toNat ++ ['\x7d']

/-- The quoted form of one character. -/
def escape (c : Char) : List Char :=
  if c = '\x00' then ['\\', '0']
  else if c = '\t' then ['\\', 't']
  else if c = '\n' then ['\\', 'n']
  else if c = '\r' then ['\\', 'r']
  else if c = '"' ∨ c = '\\' then ['\\', c]
  else if shows c then [c]
  else escapeByNumber c

def quote (s : String) : String :=
  String.ofList ('"' :: s.toList.flatMap escape ++ ['"'])

end QueueWatch.Text
