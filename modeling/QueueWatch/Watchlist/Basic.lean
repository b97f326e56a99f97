import QueueWatch.Socket.Spec

/-!
# Watchlists

A watchlist holds the sockets that someone asked to watch: it maps the identifier under which a
spec is registered to the endpoint that the spec asks for. Registering and withdrawing say whether
they changed which identifiers are registered. `replaceAll` takes the place of all registrations
at once, or changes nothing if one of the specs cannot be registered.

`match?` finds the registration that a socket belongs to. A registration for the socket's inode
comes before one for every inode, and then one for its port before one for every port.
-/

namespace QueueWatch

/-- The registered sockets: the endpoint that was asked for, by identifier. -/
abbrev Watchlist := Std.ExtTreeMap SocketId Endpoint

namespace Watchlist

/-- What is registered for a spec: an identifier and an endpoint. -/
def entry (spec : SocketSpec) : Except UnsupportedAddress (SocketId × Endpoint) := do
  return (← spec.id, ← spec.endpoint)

/-- Registers an entry, and says whether its identifier was not registered before. -/
def add (w : Watchlist) (entry : SocketId × Endpoint) : Bool × Watchlist :=
  (!w.contains entry.1, w.insert entry.1 entry.2)

/-- Withdraws an identifier, and says whether it was registered. -/
def withdraw (w : Watchlist) (id : SocketId) : Bool × Watchlist :=
  (w.contains id, w.erase id)

/-- Registers a spec, and says whether its identifier was not registered before. -/
def register (w : Watchlist) (spec : SocketSpec) : Except UnsupportedAddress (Bool × Watchlist) :=
  (entry spec).map w.add

/-- Withdraws a spec, and says whether its identifier was registered. -/
def unregister (w : Watchlist) (spec : SocketSpec) : Except UnsupportedAddress (Bool × Watchlist) :=
  spec.id.map w.withdraw

/-- The watchlist of the given specs, if all of them can be registered. -/
def ofSpecs (specs : List SocketSpec) : Except UnsupportedAddress Watchlist :=
  specs.foldlM (fun w spec => (register w spec).map Prod.snd) ∅

/-- The identifiers under which a socket can be registered, the most particular one first. The
socket is given by its identifier without inode, and by its inode. -/
def forms (plain : SocketId) (inode : UInt64) : List SocketId :=
  [plain.overlayInode inode, (plain.overlayInode inode).anyPort, plain, plain.anyPort]

/-- The endpoint of the first of the identifiers that is registered. -/
def firstOf? (w : Watchlist) (ids : List SocketId) : Option Endpoint :=
  ids.findSome? fun id => w[id]?

/-- The endpoint that was asked for by the registration that a socket belongs to. -/
def match? (w : Watchlist) (plain : SocketId) (inode : UInt64) : Option Endpoint :=
  w.firstOf? (forms plain inode)

end Watchlist

end QueueWatch
