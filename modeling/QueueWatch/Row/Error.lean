import QueueWatch.Number.Column
import QueueWatch.Text.Utf8

/-!
# What can be wrong with a row

A row of a table is at fault if one of the columns that are needed does not decode, or if it has too
few columns. An error names the row by its number and the column by the kernel's name for it.
-/

namespace QueueWatch

inductive Column where
  | localAddress
  | queues
  | inode
  | drops
  | processed
  | dropped
  | timeSqueeze
  | inErrors
  | receiveBufferErrors
  | checksumErrors
  deriving DecidableEq, Repr

/-- The kernel's name of a column. -/
def Column.name : Column → String
  | .localAddress => "local_address"
  | .queues => "tx_queue:rx_queue"
  | .inode => "inode"
  | .drops => "drops"
  | .processed => "processed"
  | .dropped => "dropped"
  | .timeSqueeze => "time_squeeze"
  | .inErrors => "InErrors"
  | .receiveBufferErrors => "RcvbufErrors"
  | .checksumErrors => "InCsumErrors"

/-- Why a column does not decode: it lacks the shape that the column has, or a part of that shape is
no number. -/
inductive ColumnFault where
  | malformed
  | number (cause : NumberError)
  deriving DecidableEq, Repr

/-- What is wrong with a row. -/
inductive RowError where
  | invalidNumber (row : Nat) (column : Column) (cause : NumberError)
  | malformedColumn (row : Nat) (column : Column) (value : List UInt8)
  | missingColumns (row expected found : Nat)
  deriving DecidableEq, Repr

/-- The error of the row that holds a faulty column. -/
def ColumnFault.inRow (row : Nat) (column : Column) (value : List UInt8) : ColumnFault → RowError
  | .malformed => .malformedColumn row column value
  | .number cause => .invalidNumber row column cause

def RowError.message : RowError → String
  | .invalidNumber row column cause =>
      "invalid `" ++ column.name ++ "` in row " ++ toString row ++ ": " ++ cause.message
  | .malformedColumn row column value =>
      "malformed `" ++ column.name ++ "` in row " ++ toString row ++ ": `" ++
        Text.Utf8.decodeLossy value ++ "`"
  | .missingColumns row expected found =>
      "row " ++ toString row ++ " has " ++ toString found ++ " columns, expected at least " ++
        toString expected

end QueueWatch
