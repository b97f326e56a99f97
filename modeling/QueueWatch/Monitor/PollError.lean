import QueueWatch.File.Loader
import QueueWatch.Row.Error
import QueueWatch.Token.Assembler

/-!
# Why a poll fails

A poll reads a table and decodes it. It fails if the file cannot be read, or at the first row that
is at fault. Tables of sockets are decoded while they are read, so a row of such a table can also
be too long.
-/

namespace QueueWatch

/-- Why a poll failed. -/
inductive PollError where
  | load (cause : LoadError)
  /-- A table of sockets has a row that does not decode. -/
  | sockets (path : String) (cause : FeedError RowError)
  /-- A table of counters has a row that does not decode. -/
  | counters (path : String) (cause : RowError)
  deriving DecidableEq, Repr

def PollError.message : PollError → String
  | .load cause => cause.message
  | .sockets path cause =>
      "failed to decode socket table `" ++ path ++ "`: " ++ cause.message RowError.message
  | .counters path cause => "failed to decode `" ++ path ++ "`: " ++ cause.message

end QueueWatch
