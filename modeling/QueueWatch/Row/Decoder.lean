import QueueWatch.Row.Format
import QueueWatch.Token.Assembler

/-!
# Decoding rows

A row decoder takes the columns of one row after the other. It counts the rows and, within a row,
the columns; it leaves out rows without data; and it reads the columns that its format needs into
a record. When a row ends it checks that the row had enough columns.

`RowDecoder.rowHandler` takes whole rows, cuts each into columns at spaces, and passes every
record on. It can be driven by a splitter over a whole table (`decodeRows`) or by an assembler
over chunks of it.
-/

namespace QueueWatch

/-- What is known of the row that is being read, and how many rows came before it. -/
structure RowDecoder (ρ : Type) where
  format : RowFormat ρ
  line : Nat
  column : Nat
  /-- Whether the row holds no data. -/
  skips : Bool
  /-- The record, as far as it has been read. -/
  record : ρ
  /-- The record of the last row, if the row held data and nobody has taken it yet. -/
  finished : Option ρ

namespace RowDecoder

variable {ρ τ : Type}

def new (format : RowFormat ρ) : RowDecoder ρ :=
  { format, line := 0, column := 0, skips := false, record := format.blank, finished := none }

def reset (d : RowDecoder ρ) : RowDecoder ρ :=
  new d.format

/-- Prepares for the columns of a row, given as a whole. -/
def beginRow (d : RowDecoder ρ) (row : List UInt8) : RowDecoder ρ :=
  { d with
    column := 0
    skips := !d.format.isData row
    record := d.format.blank
    finished := none }

/-- Reads one column into the record, if the format needs it. -/
def readColumn (d : RowDecoder ρ) (bytes : List UInt8) : Except RowError ρ :=
  if d.skips then .ok d.record
  else
    match d.format.reader d.column with
    | none => .ok d.record
    | some reader =>
        match reader.read d.record bytes with
        | .ok record => .ok record
        | .error fault => .error (fault.inRow d.line reader.column bytes)

def takeColumn (bytes : List UInt8) : EStateM RowError (RowDecoder ρ) Unit :=
  fun d =>
    let d := if d.column = 0 && d.format.isHeader bytes then { d with skips := true } else d
    match d.readColumn bytes with
    | .ok record => .ok () { d with record, column := d.column + 1 }
    | .error e => .error e d

def endRow : EStateM RowError (RowDecoder ρ) Unit :=
  fun d =>
    let next := { d with line := d.line + 1 }
    if d.skips || d.column = 0 then .ok () next
    else if d.column < d.format.requiredColumns then
      .error (.missingColumns d.line d.format.requiredColumns d.column) next
    else .ok () { next with finished := some d.record }

/-- Takes the columns of one row. -/
def columnHandler : TokenHandler RowError (RowDecoder ρ) where
  token := takeColumn
  complete := endRow

/-- How a row is cut into columns: at spaces, where several count as one. -/
def columns : Splitter :=
  ⟨32, true⟩

/-- How a table is cut into rows: at line feeds, where blank lines do not count. -/
def rows : Splitter :=
  ⟨10, true⟩

/-- Takes whole rows, and passes the record of each row with data on to `onRow`. -/
def rowHandler (onRow : τ → ρ → τ) : TokenHandler RowError (RowDecoder ρ × τ) where
  token row := fun (d, t) =>
    match columns.split columnHandler row (d.beginRow row) with
    | .error e d => .error e (d, t)
    | .ok _ d =>
        match d.finished with
        | none => .ok () (d, t)
        | some record => .ok () ({ d with finished := none }, onRow t record)

/-- Decodes a whole table, from its first row on, up to the first row that is at fault. -/
def decodeRows (onRow : τ → ρ → τ) (table : List UInt8) :
    EStateM RowError (RowDecoder ρ × τ) Unit :=
  fun (d, t) => rows.split (rowHandler onRow) table (d.reset, t)

end RowDecoder

end QueueWatch
