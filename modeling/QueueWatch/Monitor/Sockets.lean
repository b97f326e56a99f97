import QueueWatch.Monitor.PollError
import QueueWatch.Monitor.Tracker
import QueueWatch.Row.Decoder
import QueueWatch.Watchlist.Basic

/-!
# Monitoring sockets

A socket monitor polls the table of the sockets of one protocol. A poll streams the table in
chunks through an assembler of rows, a row decoder and a tracker, all of which are reused by the
next poll. The watchlist is looked at once, when the poll begins. A poll that fails, because the
file cannot be read or because a row is at fault, tells what it has seen so far and forgets no
socket. The file may fail to be read after chunks whose rows have been looked at, and a read may
bring fewer bytes than there is room for (`SocketMonitor.pollBy`).
-/

namespace QueueWatch

inductive Protocol where
  | tcp
  | udp
  deriving DecidableEq, Repr

namespace Protocol

def name : Protocol → String
  | .tcp => "tcp"
  | .udp => "udp"

/-- The name of the protocol as a type of rows. -/
def label : Protocol → String
  | .tcp => "Tcp"
  | .udp => "Udp"

/-- Where the kernel shows the table. -/
def standardPath : Protocol → String
  | .tcp => "/proc/net/tcp"
  | .udp => "/proc/net/udp"

def format : Protocol → RowFormat SocketRow
  | .tcp => .tcp
  | .udp => .udp

end Protocol

/-- How a socket monitor is set up. -/
structure MonitorOptions where
  protocol : Protocol
  /-- The table, if it is not where the kernel shows it. -/
  path : Option String := none
  /-- How much is read at once. -/
  chunkSize : Nat := 65536
  maxRowLength : Nat := 1024
  /-- Whether the monitor tells of sockets that start and stop being watched. -/
  announces : Bool := false
  deriving DecidableEq, Repr

/-- A short description of the options that are plain values. -/
def MonitorOptions.describe (o : MonitorOptions) : String :=
  let path :=
    match o.path with
    | none => "None"
    | some path => "Some(" ++ Text.quote path ++ ")"
  "SocketMonitorBuilder \x7b protocol: " ++ o.protocol.label ++ ", path: " ++ path ++
    ", chunk_size: " ++ toString o.chunkSize ++ ", max_row_length: " ++ toString o.maxRowLength ++
    ", .. \x7d"

structure SocketMonitor where
  protocol : Protocol
  announces : Bool
  loader : Loader
  assembler : Assembler
  decoder : RowDecoder SocketRow
  tracker : Tracker

/-- What came of a poll: what it has to tell, in order, and why it failed, if it did. -/
structure PollReport where
  events : List SocketEvent
  error : Option PollError

namespace SocketMonitor

def ofOptions (o : MonitorOptions) : SocketMonitor where
  protocol := o.protocol
  announces := o.announces
  loader := .new (o.path.getD o.protocol.standardPath) o.chunkSize
  assembler := { delimiter := 10, capacity := o.maxRowLength }
  decoder := .new o.protocol.format
  tracker := .empty

/-- The number of watched sockets that are in the table. -/
def size (m : SocketMonitor) : Nat :=
  m.tracker.size

/-- A tracker during a poll, and the events so far. -/
abbrev Watching := Tracker × Array SocketEvent

def watchRow (w : Watchlist) (state : Watching) (row : SocketRow) : Watching :=
  let (tracker, events) := state.1.observe (w.match? row.id row.inode) row
  (tracker, state.2 ++ events)

/-- Takes the chunks of a table, up to the first error, and ends the table unless it broke off. -/
def watchStreamed (w : Watchlist) (streamed : Streamed) :
    Assembler.Run RowError (RowDecoder SocketRow × Watching) Unit := do
  let handler := RowDecoder.rowHandler (watchRow w)
  streamed.chunks.forM (Assembler.feed handler)
  match streamed.error with
  | none => Assembler.finish handler
  | some _ => pure ()

/-- Ends a poll that has seen the whole table, or has failed. -/
def conclude (m : SocketMonitor) (state : Watching) (error : Option PollError) :
    SocketMonitor × PollReport :=
  let (tracker, gone) :=
    match error with
    | none => state.1.finishPoll
    | some _ => (state.1.abandonPoll, [])
  let events := state.2.toList ++ gone
  ({ m with tracker },
   { events := if m.announces then events else events.filter fun e => !e.isLifecycle
     error })

/-- Reads the table once, by reads that go as planned, where `w` is the watchlist and `d` holds the
table. -/
def pollBy (plan : ReadPlan) (m : SocketMonitor) (w : Watchlist) (d : Disk) :
    SocketMonitor × PollReport :=
  let (loader, streamed) := m.loader.streamBy plan d
  let m := { m with loader, assembler := m.assembler.reset, decoder := m.decoder.reset }
  match watchStreamed w streamed (m.assembler, m.decoder, m.tracker, #[]) with
  | .ok _ (assembler, decoder, state) =>
      { m with assembler, decoder }.conclude state (streamed.error.map .load)
  | .error cause (assembler, decoder, state) =>
      { m with assembler, decoder }.conclude state (some (.sockets m.loader.path cause))

/-- Reads the table once, by reads that fill their room and do not fail. -/
def poll (m : SocketMonitor) (w : Watchlist) (d : Disk) : SocketMonitor × PollReport :=
  m.pollBy .full w d

end SocketMonitor

end QueueWatch
