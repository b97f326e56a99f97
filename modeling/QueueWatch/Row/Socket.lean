import QueueWatch.Row.Format
import QueueWatch.Socket.Id

/-!
# Rows of the socket tables

`/proc/net/tcp` and `/proc/net/udp` have one row for each socket:

    sl: local_address rem_address st tx_queue:rx_queue tr:tm->when retrnsmt uid timeout inode

and the latter goes on with `ref pointer drops`. The local address is the address as a word in
eight upper-case hexadecimal digits, a colon, and the port in four; the queues are two numbers of
eight such digits with a colon between them. Inode and drops are decimal. The header row begins
with `sl`.
-/

namespace QueueWatch

/-- What a row says about a socket. Only the table of UDP sockets counts drops. -/
structure SocketRow where
  id : SocketId
  transmitQueue : UInt64
  receiveQueue : UInt64
  inode : UInt64
  drops : Option UInt64
  deriving DecidableEq, Repr, Inhabited

namespace SocketRow

/-- The parts before and behind a colon, where the whole has exactly the given widths. -/
def splitPair? (left right : Nat) (bytes : List UInt8) : Option (List UInt8 × List UInt8) :=
  if bytes.length = left + 1 + right ∧ bytes[left]? = some 58 then
    some (bytes.take left, bytes.drop (left + 1))
  else none

/-- Two hexadecimal numbers of the given widths with a colon between them. -/
def hexPair (left right : Nat) (bytes : List UInt8) : Except ColumnFault (UInt64 × UInt64) :=
  match splitPair? left right bytes with
  | none => .error .malformed
  | some (first, second) =>
      match decodeHex .upper first with
      | .error cause => .error (.number cause)
      | .ok a =>
          match decodeHex .upper second with
          | .error cause => .error (.number cause)
          | .ok b => .ok (a, b)

def decodeLocalAddress (bytes : List UInt8) : Except ColumnFault SocketId :=
  (hexPair 8 4 bytes).map fun (address, port) =>
    SocketId.ofKernelWord address.toUInt32 port.toUInt16

def commonReader : Nat → Option (ColumnReader SocketRow)
  | 1 => some
      { column := .localAddress
        read := fun row bytes => (decodeLocalAddress bytes).map fun id => { row with id } }
  | 4 => some
      { column := .queues
        read := fun row bytes => (hexPair 8 8 bytes).map fun (transmitQueue, receiveQueue) =>
          { row with transmitQueue, receiveQueue } }
  | 9 => some (.ofNumber .inode decodeDecimal fun row inode => { row with inode })
  | _ => none

def udpReader : Nat → Option (ColumnReader SocketRow)
  | 12 => some (.ofNumber .drops decodeDecimal fun row drops => { row with drops := some drops })
  | n => commonReader n

/-- Whether the first column is the one that begins the header row: it starts with `sl`. -/
def isHeaderColumn (bytes : List UInt8) : Bool :=
  bytes.take 2 == [115, 108]

end SocketRow

def RowFormat.tcp : RowFormat SocketRow where
  name := "Tcp"
  blank := default
  requiredColumns := 10
  isData _ := true
  isHeader := SocketRow.isHeaderColumn
  reader := SocketRow.commonReader

def RowFormat.udp : RowFormat SocketRow where
  name := "Udp"
  blank := { (default : SocketRow) with drops := some 0 }
  requiredColumns := 13
  isData _ := true
  isHeader := SocketRow.isHeaderColumn
  reader := SocketRow.udpReader

end QueueWatch
