import QueueWatch.Journal

/-!
# The service

The service watches the sockets that its settings name, in the tables of both protocols, and the
counters of the machine. At every tick it polls the four tables in a fixed order and writes what
they have to tell into the journal. A poll that fails is reported and tried again at the next
tick.
-/

namespace QueueWatch

/-- The watchlist and the monitors of the service. -/
structure Service where
  watchlist : Watchlist
  tcp : SocketMonitor
  udp : SocketMonitor
  softnet : SoftnetMonitor
  snmp : SnmpMonitor

namespace Service

/-- The names of the tables that are polled. -/
def tables : List String :=
  [Protocol.tcp.name, Protocol.udp.name, "softnet_stat", "snmp"]

def socketMonitor (s : Settings) (protocol : Protocol) : SocketMonitor :=
  .ofOptions { protocol, path := some (s.tablePath protocol.name), announces := true }

/-- The service before its first tick, and what it has to tell then. -/
def start (s : Settings) : Except UnsupportedAddress (Service × List Record) := do
  let watchlist ← Watchlist.ofSpecs s.sockets
  let service : Service :=
    { watchlist
      tcp := socketMonitor s .tcp
      udp := socketMonitor s .udp
      softnet := .new (s.tablePath "softnet_stat")
      snmp := .new (s.tablePath "snmp") }
  return (service, if watchlist.isEmpty then [.noSockets] else [])

/-- What a poll of a socket monitor has to tell. -/
def socketRecords (protocol : Protocol) (report : PollReport) : List Record :=
  report.events.map (.ofSocketEvent protocol) ++ Record.ofFailure Record.socketSubject report.error

/-- Polls all tables once. -/
def tick (s : Service) (d : Disk) : Service × List Record :=
  let (tcp, tcpReport) := s.tcp.poll s.watchlist d
  let (udp, udpReport) := s.udp.poll s.watchlist d
  let (softnet, softnetReport) := s.softnet.poll d
  let (snmp, snmpReport) := s.snmp.poll d
  ({ s with tcp, udp, softnet, snmp },
   socketRecords .tcp tcpReport ++ socketRecords .udp udpReport ++
     softnetReport.updates.map .ofCpu ++
     Record.ofFailure Record.softnetSubject softnetReport.error ++
     snmpReport.updates.map .ofSnmp ++ Record.ofFailure Record.snmpSubject snmpReport.error)

end Service

end QueueWatch
