import QueueWatch.Row.Error

/-!
# Row formats

A table is text with one row a line and columns between spaces. A row format says what a row of one
table means: which rows hold data, which columns are read and what each of them adds to the record
of the row, and how many columns a row has to have. `ρ` is the type of the records.
-/

namespace QueueWatch

/-- How one column is read: its name, and what its bytes add to the record of the row. -/
structure ColumnReader (ρ : Type) where
  column : Column
  read : ρ → List UInt8 → Except ColumnFault ρ

/-- What the rows of a table mean. -/
structure RowFormat (ρ : Type) where
  name : String
  /-- The record before any column is read. -/
  blank : ρ
  requiredColumns : Nat
  /-- Whether a row can hold data, by the whole row. -/
  isData : List UInt8 → Bool
  /-- Whether a row is a header, by its first column. -/
  isHeader : List UInt8 → Bool
  /-- The reader of the column with the given number, counted from zero, if it is needed. -/
  reader : Nat → Option (ColumnReader ρ)

/-- The reader of a column that holds one number. -/
def ColumnReader.ofNumber {ρ : Type} (column : Column)
    (decode : List UInt8 → Except NumberError UInt64) (store : ρ → UInt64 → ρ) :
    ColumnReader ρ where
  column := column
  read record bytes :=
    match decode bytes with
    | .ok n => .ok (store record n)
    | .error cause => .error (.number cause)

end QueueWatch
