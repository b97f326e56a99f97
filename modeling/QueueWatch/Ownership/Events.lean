import QueueWatch.Monitor.Tracker
import QueueWatch.Ownership.Filter

/-!
# Filtering what a poll reports

An ownership filter stands between a socket monitor and whoever wants its updates. It judges every
update and leaves announcements alone. The scans that it makes during one poll all have the same
outcome, since a poll takes no time.
-/

namespace QueueWatch

/-- Events that went through a filter: the filter afterwards, the events that passed, the number of
scans, and the warnings. -/
structure Filtered where
  filter : OwnershipFilter
  passed : List SocketEvent := []
  scans : Nat := 0
  warnings : List String := []

namespace Filtered

/-- Lets one event through, if it passes. -/
def take (scan : Scan) (s : Filtered) : SocketEvent → Filtered
  | .updated update =>
      let inode := update.name.inode
      let (filter, verdict) := s.filter.judge scan inode
      { filter
        passed := if verdict.passes then s.passed ++ [.updated update] else s.passed
        scans := if verdict.scanned then s.scans + 1 else s.scans
        warnings := s.warnings ++ (verdict.failure.map (·.warning inode)).toList }
  | event => { s with passed := s.passed ++ [event] }

end Filtered

/-- Lets events through that pass the filter, in order. -/
def OwnershipFilter.filterEvents (f : OwnershipFilter) (scan : Scan) (events : List SocketEvent) :
    Filtered :=
  events.foldl (Filtered.take scan) { filter := f }

end QueueWatch
