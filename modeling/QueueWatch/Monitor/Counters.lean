import QueueWatch.Monitor.PollError
import QueueWatch.Row.Counters
import QueueWatch.Row.Decoder

/-!
# Monitoring counters

Two tables hold counters of the whole machine. The softirq table has a row for each CPU; a poll
reports the CPUs whose counters are not the ones that were reported last. After a poll that has
seen the whole table, CPUs that were not in it are forgotten. The UDP counters are reported by
every poll.
-/

namespace QueueWatch

/-- The buffer size with which the tables of counters are first read. -/
def counterBufferSize : Nat := 4096

def softnetPath : String := "/proc/net/softnet_stat"

def snmpPath : String := "/proc/net/snmp"

/-- The counters of a CPU, as they are reported. -/
structure CpuUpdate where
  cpu : Nat
  row : SoftnetRow
  deriving DecidableEq, Repr

structure SoftnetMonitor where
  path : String
  loader : Loader
  decoder : RowDecoder SoftnetRow
  /-- The counters that were last reported, by CPU. -/
  held : List SoftnetRow

/-- What came of a poll: what it has to tell, in order, and why it failed, if it did. -/
structure CounterReport (α : Type) where
  updates : List α
  error : Option PollError

/-- The state of a softirq poll: the next CPU, the counters held, and the updates so far. -/
structure SoftnetScan where
  cpu : Nat
  held : List SoftnetRow
  updates : List CpuUpdate

def SoftnetScan.see (s : SoftnetScan) (row : SoftnetRow) : SoftnetScan :=
  if s.held[s.cpu]? = some row then { s with cpu := s.cpu + 1 }
  else
    { cpu := s.cpu + 1
      held := if s.cpu < s.held.length then s.held.set s.cpu row else s.held ++ [row]
      updates := s.updates ++ [⟨s.cpu, row⟩] }

namespace SoftnetMonitor

def new (path : String) : SoftnetMonitor where
  path := path
  loader := .new path counterBufferSize
  decoder := .new .softnet
  held := []

/-- Reads the table once. -/
def poll (m : SoftnetMonitor) (d : Disk) : SoftnetMonitor × CounterReport CpuUpdate :=
  let (loader, loaded) := m.loader.load d
  match loaded with
  | .error cause => ({ m with loader }, ⟨[], some (.load cause)⟩)
  | .ok contents =>
      match RowDecoder.decodeRows SoftnetScan.see contents (m.decoder, ⟨0, m.held, []⟩) with
      | .ok _ (decoder, scan) =>
          ({ m with loader, decoder, held := scan.held.take scan.cpu }, ⟨scan.updates, none⟩)
      | .error cause (decoder, scan) =>
          ({ m with loader, decoder, held := scan.held },
           ⟨scan.updates, some (.counters m.path cause)⟩)

end SoftnetMonitor

structure SnmpMonitor where
  path : String
  loader : Loader
  decoder : RowDecoder SnmpRow

namespace SnmpMonitor

def new (path : String) : SnmpMonitor where
  path := path
  loader := .new path counterBufferSize
  decoder := .new .snmp

/-- Reads the table once. -/
def poll (m : SnmpMonitor) (d : Disk) : SnmpMonitor × CounterReport SnmpRow :=
  let (loader, loaded) := m.loader.load d
  match loaded with
  | .error cause => ({ m with loader }, ⟨[], some (.load cause)⟩)
  | .ok contents =>
      match RowDecoder.decodeRows (fun rows row => rows ++ [row]) contents (m.decoder, []) with
      | .ok _ (decoder, rows) => ({ m with loader, decoder }, ⟨rows, none⟩)
      | .error cause (decoder, rows) =>
          ({ m with loader, decoder }, ⟨rows, some (.counters m.path cause)⟩)

end SnmpMonitor

end QueueWatch
