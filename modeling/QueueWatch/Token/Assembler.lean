import QueueWatch.Token.Split

/-!
# Assembling tokens from chunks

An input that arrives in chunks can be cut anywhere, also within a token. A token that lies within
one chunk is handed over as it stands there. Of a token that is cut, the assembler keeps the bytes
it has seen until the delimiter shows up, so that its handler sees the same tokens however the input
is cut. Empty tokens are skipped. No token may be longer than the capacity.

After an error, after the end of the input and after a reset the assembler holds no bytes, and so it
is as good as new.
-/

namespace QueueWatch

/-- Why a chunk was not taken to its end: a token is too long, or the handler refused one. -/
inductive FeedError (ε : Type) where
  | tokenTooLong (capacity : Nat)
  | refused (error : ε)
  deriving DecidableEq, Repr

/-- The wording of an error, given that of the handler's errors. -/
def FeedError.message {ε : Type} (wording : ε → String) : FeedError ε → String
  | .tokenTooLong capacity =>
      "token exceeds the scratch buffer capacity of " ++ toString capacity ++ " bytes"
  | .refused error => wording error

/-- The bytes since the last delimiter, and how tokens end. -/
structure Assembler where
  delimiter : UInt8
  capacity : Nat
  pending : Array UInt8 := #[]
  deriving DecidableEq, Repr

namespace Assembler

variable {ε σ : Type}

/-- The state in which a chunk is taken: the assembler beside the state of its handler. -/
abbrev Run (ε σ : Type) : Type → Type :=
  EStateM (FeedError ε) (Assembler × σ)

/-- Lets the handler act on its own state. -/
def lift (action : EStateM ε σ Unit) : Run ε σ Unit :=
  fun (a, s) =>
    match action s with
    | .ok _ s => .ok () (a, s)
    | .error e s => .error (.refused e) (a, s)

/-- Drops the bytes since the last delimiter. -/
def reset (a : Assembler) : Assembler :=
  { a with pending := #[] }

/-- Hands over the token that is complete, if it has any bytes. -/
def flush (handler : TokenHandler ε σ) : Run ε σ Unit :=
  fun (a, s) =>
    if a.pending.isEmpty then .ok () (a, s)
    else lift (handler.token a.pending.toList) (a.reset, s)

/-- Keeps bytes of a token whose delimiter has not shown up, if there is room for them. -/
def keep (bytes : List UInt8) : Run ε σ Unit :=
  fun (a, s) =>
    if a.capacity < a.pending.size + bytes.length then
      .error (.tokenTooLong a.capacity) (a.reset, s)
    else .ok () ({ a with pending := a.pending ++ bytes.toArray }, s)

/-- Ends a token at a delimiter, where `bytes` are those before it in the chunk. -/
def close (handler : TokenHandler ε σ) (bytes : List UInt8) : Run ε σ Unit :=
  fun (a, s) =>
    if a.pending.isEmpty then
      if a.capacity < bytes.length then .error (.tokenTooLong a.capacity) (a, s)
      else if bytes.isEmpty then .ok () (a, s)
      else lift (handler.token bytes) (a, s)
    else
      match keep bytes (a, s) with
      | .ok _ state => flush handler state
      | .error e state => .error e state

/-- Takes the rest of a chunk, where `piece` holds its bytes since the last delimiter. -/
def feedFrom (handler : TokenHandler ε σ) (delimiter : UInt8) (piece : Array UInt8) :
    List UInt8 → Run ε σ Unit
  | [] => keep piece.toList
  | b :: rest => do
      if b = delimiter then
        close handler piece.toList
        feedFrom handler delimiter #[] rest
      else
        feedFrom handler delimiter (piece.push b) rest

/-- Takes a chunk, up to the first error. -/
def feed (handler : TokenHandler ε σ) (chunk : List UInt8) : Run ε σ Unit :=
  fun (a, s) => feedFrom handler a.delimiter #[] chunk (a, s)

/-- Ends the input: what is left is the last token. -/
def finish (handler : TokenHandler ε σ) : Run ε σ Unit := do
  flush handler
  lift handler.complete

end Assembler

end QueueWatch
