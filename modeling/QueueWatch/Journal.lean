import QueueWatch.Monitor.Counters
import QueueWatch.Monitor.Sockets
import QueueWatch.Settings

/-!
# The journal

The service writes a journal: records with a level, a subject and a text. This module words what the
monitors have to tell.
-/

namespace QueueWatch

/-- How important a record is. -/
inductive Level where
  | error
  | warn
  | info
  deriving DecidableEq, Repr

def Level.name : Level → String
  | .error => "ERROR"
  | .warn => "WARN"
  | .info => "INFO"

/-- A record of the journal. -/
structure Record where
  level : Level
  subject : String
  text : String
  deriving DecidableEq, Repr

namespace Record

def socketSubject : String := "socket monitor"

def lifecycleSubject : String := "socket lifecycle"

def softnetSubject : String := "softnet monitor"

def snmpSubject : String := "snmp monitor"

def serviceSubject : String := "netbuf_monitor"

/-- The subject of the warnings about updates that an ownership filter drops. -/
def ownershipSubject : String := "netbuf_monitor::socket::ownership"

def number (n : UInt64) : String :=
  toString n.toNat

/-- A socket as records show it. -/
def socketText (name : SocketName) : String :=
  (Endpoint.mk name.address name.port).render ++ " inode=" ++ number name.inode

/-- The record of an event of a socket monitor. -/
def ofSocketEvent (protocol : Protocol) : SocketEvent → Record
  | .started name =>
      ⟨.info, lifecycleSubject,
       "started monitoring " ++ protocol.name ++ " socket " ++ socketText name⟩
  | .stopped name =>
      ⟨.info, lifecycleSubject,
       "stopped monitoring " ++ protocol.name ++ " socket " ++ socketText name⟩
  | .updated update =>
      ⟨.info, socketSubject,
       protocol.name ++ " " ++ socketText update.name ++
         " rx_queue=" ++ number update.sample.receiveQueue ++
         " tx_queue=" ++ number update.sample.transmitQueue ++
         " drops=" ++ (update.sample.drops.map number).getD "-"⟩

def ofCpu (update : CpuUpdate) : Record :=
  ⟨.info, softnetSubject,
   "cpu=" ++ toString update.cpu ++ " processed=" ++ number update.row.processed ++
     " dropped=" ++ number update.row.dropped ++ " time_squeeze=" ++ number update.row.timeSqueeze⟩

def ofSnmp (row : SnmpRow) : Record :=
  ⟨.info, snmpSubject,
   "udp in_errors=" ++ number row.inErrors ++ " rcvbuf_errors=" ++ number row.receiveBufferErrors ++
     " csum_errors=" ++ number row.checksumErrors⟩

/-- The record of a poll that failed, if it did. -/
def ofFailure (subject : String) (error : Option PollError) : List Record :=
  (error.map fun e => Record.mk .error subject e.message).toList

def noSockets : Record :=
  ⟨.warn, serviceSubject,
   "no sockets registered, set `" ++ socketsVariable ++ "` to monitor individual sockets"⟩

end Record

end QueueWatch
