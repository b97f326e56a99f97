/-!
# Splitting text into tokens

A token handler consumes the tokens of an input one after the other. It has a state of its own, it
is told when the input is complete, and it can refuse a token or the completion with an error;
what it did to its state before that stays done.

`Splitter.split` hands over the tokens of an input that is there as a whole. A token ends at a
delimiter; bytes behind the last delimiter are a token as well, unless there are none. A splitter
can skip empty tokens, which joins runs of delimiters. The first error ends the input.
-/

namespace QueueWatch

/-- What is done with each token, and at the end of the input. -/
structure TokenHandler (ε σ : Type) where
  token : List UInt8 → EStateM ε σ Unit
  complete : EStateM ε σ Unit := pure ()

/-- How an input is cut into tokens. -/
structure Splitter where
  delimiter : UInt8
  skipsEmpty : Bool
  deriving DecidableEq, Repr

namespace Splitter

variable {ε σ : Type}

/-- Splits the rest of an input, where `pending` holds the bytes since the last delimiter. -/
def splitFrom (s : Splitter) (handler : TokenHandler ε σ) (pending : Array UInt8) :
    List UInt8 → EStateM ε σ Unit
  | [] => do
      unless pending.isEmpty do handler.token pending.toList
      handler.complete
  | b :: rest => do
      if b = s.delimiter then
        unless s.skipsEmpty && pending.isEmpty do handler.token pending.toList
        s.splitFrom handler #[] rest
      else
        s.splitFrom handler (pending.push b) rest

/-- Hands the tokens of an input to the handler and tells it of the end. -/
def split (s : Splitter) (handler : TokenHandler ε σ) (input : List UInt8) : EStateM ε σ Unit :=
  s.splitFrom handler #[] input

/-- At the end of the input the bytes since the last delimiter are the last token, if there are
any. -/
theorem splitFrom_nil (s : Splitter) (handler : TokenHandler ε σ) (pending : Array UInt8) :
    s.splitFrom handler pending [] =
      (do
        unless pending.isEmpty do handler.token pending.toList
        handler.complete) := by
  rw [splitFrom]

/-- A delimiter ends a token. -/
theorem splitFrom_delimiter (s : Splitter) (handler : TokenHandler ε σ) (pending : Array UInt8)
    (rest : List UInt8) :
    s.splitFrom handler pending (s.delimiter :: rest) =
      (do
        unless s.skipsEmpty && pending.isEmpty do handler.token pending.toList
        s.splitFrom handler #[] rest) := by
  rw [splitFrom]
  simp

/-- Any other byte belongs to the token that is being read. -/
theorem splitFrom_of_ne (s : Splitter) (handler : TokenHandler ε σ) (pending : Array UInt8)
    {b : UInt8} (h : b ≠ s.delimiter) (rest : List UInt8) :
    s.splitFrom handler pending (b :: rest) = s.splitFrom handler (pending.push b) rest := by
  rw [splitFrom]
  simp [h]

end Splitter

end QueueWatch
