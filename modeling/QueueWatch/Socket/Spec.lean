import QueueWatch.Socket.Id
import QueueWatch.Text.Quoted

/-!
# Socket specs

A spec says which sockets to watch: those of an address, of an address and a port, and in either
case only the one with a given inode if the spec names one. Its written form is
`host[:port][#inode]`, with any blanks around it. `SocketSpec.parse` reads that form, and
`SocketSpec.render` writes it.

A text that is no spec is blamed on one of its parts. The inode is judged first, then the port, then
the host, so the parts are judged from right to left.
-/

namespace QueueWatch

/-- Which sockets to watch: those of the host, only on the given port if there is one, and only the
one with the given inode if there is one. -/
structure SocketSpec where
  host : IpAddress
  port : Option UInt16
  inode : Option UInt64
  deriving DecidableEq, Repr

/-- The part of a text that keeps it from being a spec. -/
inductive SpecFault where
  | inode
  | port
  | host
  deriving DecidableEq, Repr

def SpecFault.reason : SpecFault → String
  | .inode => "inode is not a number"
  | .port => "port is not a number"
  | .host => "host is not an IPv4 address"

/-- A text that is no spec, and the part that is at fault. -/
structure SpecError where
  spec : String
  fault : SpecFault
  deriving DecidableEq, Repr

def SpecError.message (e : SpecError) : String :=
  "invalid socket spec `" ++ e.spec ++ "`: " ++ e.fault.reason

/-- The error with its fields named and its texts quoted. -/
def SpecError.describe (e : SpecError) : String :=
  "InvalidSpec \x7b spec: " ++ Text.quote e.spec ++ ", reason: " ++
    Text.quote e.fault.reason ++ " \x7d"

namespace SocketSpec

/-- The identifier under which the spec is registered. A spec without a port stands for every port,
and one without an inode for every inode. -/
def id (spec : SocketSpec) : Except UnsupportedAddress SocketId := do
  let address ← spec.host.requireV4
  let plain := SocketId.ofEndpoint ⟨address, spec.port.getD 0⟩
  return match spec.inode with
    | some inode => plain.overlayInode inode
    | none => plain

def endpoint (spec : SocketSpec) : Except UnsupportedAddress Endpoint := do
  let address ← spec.host.requireV4
  return ⟨address, spec.port.getD 0⟩

/-- Reads a part that may be absent. -/
def readPart (fault : SpecFault) (bits : Nat) : Option (List Char) → Except SpecFault (Option Nat)
  | none => .ok none
  | some s =>
      match parseUnsigned bits s with
      | .ok n => .ok (some n)
      | .error _ => .error fault

/-- Reads a spec without blanks around it. -/
def parseTrimmed (s : List Char) : Except SpecFault SocketSpec := do
  let (endpoint, inodeText) := Text.cut? '#' s
  let (hostText, portText) := Text.cut? ':' endpoint
  let inode ← readPart .inode 64 inodeText
  let port ← readPart .port 16 portText
  match Ipv4.parse? hostText with
  | some host => return ⟨.v4 host, port.map Nat.toUInt16, inode.map Nat.toUInt64⟩
  | none => throw .host

def parse (s : String) : Except SpecError SocketSpec :=
  match parseTrimmed (Text.trim s.toList) with
  | .ok spec => .ok spec
  | .error fault => .error ⟨s, fault⟩

def render (spec : SocketSpec) : String :=
  spec.host.render ++
    (match spec.port with | some port => ":" ++ toString port.toNat | none => "") ++
    (match spec.inode with | some inode => "#" ++ toString inode.toNat | none => "")

end SocketSpec

end QueueWatch
