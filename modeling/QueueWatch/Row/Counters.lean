import QueueWatch.Row.Format

/-!
# Rows of the counter tables

`/proc/net/softnet_stat` has one row for each CPU and no header; its first three columns, in
lower-case hexadecimal, are the counters of the network softirq. `/proc/net/snmp` has two rows for
each protocol, a header and the data in decimal; the ones of UDP begin with `Udp:`, and the header
goes on with ` InD`.
-/

namespace QueueWatch

/-- The network softirq counters of one CPU. -/
structure SoftnetRow where
  processed : UInt64
  dropped : UInt64
  timeSqueeze : UInt64
  deriving DecidableEq, Repr, Inhabited

/-- The UDP error counters of the machine. -/
structure SnmpRow where
  inErrors : UInt64
  receiveBufferErrors : UInt64
  checksumErrors : UInt64
  deriving DecidableEq, Repr, Inhabited

def SoftnetRow.reader : Nat → Option (ColumnReader SoftnetRow)
  | 0 => some (.ofNumber .processed (decodeHex .lower) fun row n => { row with processed := n })
  | 1 => some (.ofNumber .dropped (decodeHex .lower) fun row n => { row with dropped := n })
  | 2 => some (.ofNumber .timeSqueeze (decodeHex .lower) fun row n => { row with timeSqueeze := n })
  | _ => none

def SnmpRow.reader : Nat → Option (ColumnReader SnmpRow)
  | 3 => some (.ofNumber .inErrors decodeDecimal fun row n => { row with inErrors := n })
  | 5 => some (.ofNumber .receiveBufferErrors decodeDecimal fun row n =>
      { row with receiveBufferErrors := n })
  | 7 => some (.ofNumber .checksumErrors decodeDecimal fun row n =>
      { row with checksumErrors := n })
  | _ => none

/-- The bytes `Udp:`, which begin the rows of UDP. -/
def SnmpRow.udpLabel : List UInt8 :=
  [85, 100, 112, 58]

/-- The bytes `Udp: InD`, which begin the header of UDP. -/
def SnmpRow.udpHeader : List UInt8 :=
  udpLabel ++ [32, 73, 110, 68]

def RowFormat.softnet : RowFormat SoftnetRow where
  name := "Softnet"
  blank := default
  requiredColumns := 3
  isData _ := true
  isHeader _ := false
  reader := SoftnetRow.reader

def RowFormat.snmp : RowFormat SnmpRow where
  name := "SnmpUdp"
  blank := default
  requiredColumns := 8
  isData row := SnmpRow.udpLabel.isPrefixOf row && !SnmpRow.udpHeader.isPrefixOf row
  isHeader _ := false
  reader := SnmpRow.reader

end QueueWatch
