import QueueWatch.Address.Ipv4
import QueueWatch.Address.Ipv6
import QueueWatch.CommandLine
import QueueWatch.File.Disk
import QueueWatch.File.Loader
import QueueWatch.File.Path
import QueueWatch.Journal
import QueueWatch.Main
import QueueWatch.Monitor.Counters
import QueueWatch.Monitor.PollError
import QueueWatch.Monitor.Sockets
import QueueWatch.Monitor.Tracker
import QueueWatch.Number.Column
import QueueWatch.Number.Shortest
import QueueWatch.Number.Single
import QueueWatch.Number.Unsigned
import QueueWatch.Ownership.Descriptors
import QueueWatch.Ownership.Events
import QueueWatch.Ownership.Filter
import QueueWatch.Row.Counters
import QueueWatch.Row.Decoder
import QueueWatch.Row.Error
import QueueWatch.Row.Format
import QueueWatch.Row.Socket
import QueueWatch.Service
import QueueWatch.Settings
import QueueWatch.SlotTable.Basic
import QueueWatch.SlotTable.Key
import QueueWatch.SlotTable.LoadFactor
import QueueWatch.SlotTable.Slots
import QueueWatch.Socket.Id
import QueueWatch.Socket.Spec
import QueueWatch.Text.Blank
import QueueWatch.Text.Quoted
import QueueWatch.Text.Shown
import QueueWatch.Text.Utf8
import QueueWatch.Token.Assembler
import QueueWatch.Token.Split
import QueueWatch.Watchlist.Basic
import QueueWatch.Watchlist.Shared
import QueueWatch.Proofs.SlotTable.Ring
import QueueWatch.Proofs.SlotTable.Chain
import QueueWatch.Proofs.SlotTable.Gap
import QueueWatch.Proofs.SlotTable.Rehash
import QueueWatch.Proofs.SlotTable.Invariant
import QueueWatch.Proofs.SlotTable.Refinement
import QueueWatch.Proofs.SlotTable.Layout
import QueueWatch.Proofs.Token.Bytewise
import QueueWatch.Proofs.Token.Calls
import QueueWatch.Proofs.Token.Chunking
import QueueWatch.Proofs.Token.Pieces
import QueueWatch.Proofs.Token.Recovery
import QueueWatch.Proofs.Monitor.Instance
import QueueWatch.Proofs.Watchlist.Requests
import QueueWatch.Proofs.Monitor.Lifecycle
import QueueWatch.Proofs.Monitor.InodeScope
import QueueWatch.Proofs.File.Contents
import QueueWatch.Proofs.File.Changes
import QueueWatch.Proofs.File.Reader
import QueueWatch.Proofs.File.History
import QueueWatch.Proofs.Row.Reading
import QueueWatch.Proofs.Monitor.WholeTable
import QueueWatch.Proofs.Monitor.Samples
import QueueWatch.Proofs.Monitor.Repetition
import QueueWatch.Proofs.Monitor.Updates
import QueueWatch.Proofs.Monitor.Trace
import QueueWatch.Proofs.Monitor.Reads
import QueueWatch.Proofs.Monitor.Softirq
import QueueWatch.Proofs.Watchlist.Publication
import QueueWatch.Proofs.Row.Grammar
import QueueWatch.Proofs.Row.Tables
import QueueWatch.Proofs.Number.Printed
import QueueWatch.Proofs.Row.Text
import QueueWatch.Proofs.Row.Printing
import QueueWatch.Proofs.Row.LineNumber
import QueueWatch.Proofs.Watchlist.Registration
import QueueWatch.Proofs.Watchlist.Apart
import QueueWatch.Proofs.Ownership.Forwarding
import QueueWatch.Proofs.Ownership.Polls
import QueueWatch.Proofs.Ownership.Foreign
import QueueWatch.Proofs.Monitor.Priority
import QueueWatch.Proofs.SlotTable.Values
import QueueWatch.Proofs.SlotTable.Occupied
import QueueWatch.Proofs.Watchlist.Progress
import QueueWatch.Proofs.Watchlist.Threads
import QueueWatch.Proofs.Monitor.Addresses
import QueueWatch.Proofs.Number.Numeral
import QueueWatch.Proofs.Text.Parts
import QueueWatch.Proofs.Address.Host
import QueueWatch.Proofs.Socket.Grammar
import QueueWatch.Proofs.Number.Doubling
import QueueWatch.Proofs.SlotTable.Capacity
import QueueWatch.Proofs.SlotTable.Undo
import QueueWatch.Proofs.File.Buffer
import QueueWatch.Proofs.Settings.Entries
import QueueWatch.Proofs.Settings.Environment
import QueueWatch.Proofs.Number.Decimal
import QueueWatch.Proofs.Ownership.Links
import QueueWatch.Proofs.SlotTable.Order
import QueueWatch.Proofs.Number.Hexadecimal
import QueueWatch.Proofs.Row.LocalAddress
import QueueWatch.Proofs.Socket.Fields
