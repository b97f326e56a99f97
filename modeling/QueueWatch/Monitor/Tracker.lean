import QueueWatch.Row.Socket
import QueueWatch.SlotTable.Basic

/-!
# Tracking sockets

A tracker knows the sockets that matched a registration. It is shown the rows of a table one after
the other. A socket that it does not know yet is announced as started and stored without values
(`Tracker.enlist`). Then the socket is looked up again: its values are reported when they are the
first ones or differ from the last ones, and it is marked with the generation of the current poll
(`Tracker.report`). When all rows of the table have been seen, the sockets that still have another
mark are gone: in the order of the slots that hold them they are removed one by one, and announced
as stopped by what is removed (`Tracker.forget`). A poll that did not see the whole table only
begins a new generation.

A socket is known by its identifier together with its whole inode, of which the identifier holds the
last 16 bits only.
-/

namespace QueueWatch

/-- What tells a socket from all others. -/
structure InstanceKey where
  id : SocketId
  inode : UInt64
  deriving DecidableEq, Repr

/-- A word as eight bytes, the highest one first. -/
def bigEndian (w : UInt64) : Key 8 :=
  Vector.ofFn fun i => UInt8.ofNat (w.toNat / 2 ^ (8 * (7 - i.val)))

def InstanceKey.encode (key : InstanceKey) : Key 16 :=
  bigEndian key.id.raw ++ bigEndian key.inode

/-- The values of a socket that are watched. -/
structure Sample where
  receiveQueue : UInt64
  transmitQueue : UInt64
  drops : Option UInt64
  deriving DecidableEq, Repr

def SocketRow.sample (row : SocketRow) : Sample :=
  ⟨row.receiveQueue, row.transmitQueue, row.drops⟩

/-- A socket that matched a registration. -/
structure TrackedSocket where
  /-- The endpoint that the registration asked for. -/
  requested : Endpoint
  id : SocketId
  inode : UInt64
  last : Option Sample
  /-- The poll that saw the socket last. -/
  generation : UInt64
  deriving DecidableEq, Repr

/-- A socket as it is announced. -/
structure SocketName where
  address : Ipv4
  port : UInt16
  inode : UInt64
  deriving DecidableEq, Repr

/-- The values of a socket as they are reported. -/
structure SocketUpdate where
  name : SocketName
  id : SocketId
  sample : Sample
  deriving DecidableEq, Repr

/-- What a poll says about sockets. -/
inductive SocketEvent where
  | started (name : SocketName)
  | updated (update : SocketUpdate)
  | stopped (name : SocketName)
  deriving DecidableEq, Repr

/-- Whether an event is about the watching of a socket and not about its values. -/
def SocketEvent.isLifecycle : SocketEvent → Bool
  | .started _ | .stopped _ => true
  | .updated _ => false

def SocketRow.key (row : SocketRow) : InstanceKey :=
  ⟨row.id.overlayInode row.inode, row.inode⟩

/-- The socket in a row, as it is tracked before its values are looked at. -/
def SocketRow.begin (row : SocketRow) (requested : Endpoint) (generation : UInt64) :
    TrackedSocket where
  requested := requested
  id := row.id.overlayInode row.inode
  inode := row.inode
  last := none
  generation := generation

/-- The socket after a poll has seen it with the given values. -/
def TrackedSocket.see (s : TrackedSocket) (sample : Sample) (generation : UInt64) : TrackedSocket :=
  { s with last := some sample, generation }

/-- The socket as it is announced when it is gone. -/
def TrackedSocket.name (s : TrackedSocket) : SocketName :=
  ⟨s.requested.address, s.id.port, s.inode⟩

/-- The sockets that are tracked, and the current poll. -/
structure Tracker where
  sockets : SlotTable InstanceKey 16 TrackedSocket
  generation : UInt64

namespace Tracker

def empty : Tracker :=
  ⟨.empty InstanceKey.encode, 0⟩

def size (t : Tracker) : Nat :=
  t.sockets.size

/-- Begins to track the socket in a row under a key, and announces it, unless it is tracked. -/
def enlist (t : Tracker) (key : Key 16) (endpoint : Endpoint) (row : SocketRow) :
    Tracker × List SocketEvent :=
  match t.sockets.getKey? key with
  | some _ => (t, [])
  | none =>
      let sockets := (t.sockets.insertKey key (row.begin endpoint t.generation)).2
      ({ t with sockets }, [.started ⟨endpoint.address, row.id.port, row.inode⟩])

/-- Marks the socket that is tracked under a key, and reports the values in its row unless they are
the last ones. -/
def report (t : Tracker) (key : Key 16) (row : SocketRow) : Tracker × List SocketEvent :=
  match t.sockets.getKey? key with
  | none => (t, [])
  | some socket =>
      let sockets := t.sockets.modifyKey key (·.see row.sample t.generation)
      let updated :=
        if socket.last = some row.sample then []
        else
          [.updated
            { name := ⟨socket.requested.address, row.id.port, socket.inode⟩
              id := row.id
              sample := row.sample }]
      ({ t with sockets }, updated)

/-- Looks at a row, given the endpoint that a registration asked for if the row matches one. -/
def observe (t : Tracker) (requested : Option Endpoint) (row : SocketRow) :
    Tracker × List SocketEvent :=
  match requested with
  | none => (t, [])
  | some endpoint =>
      let key := t.sockets.encode row.key
      let (t, started) := t.enlist key endpoint row
      let (t, updated) := t.report key row
      (t, started ++ updated)

/-- The sockets that the current poll has not seen, in the order of their slots. -/
def stale (t : Tracker) : List (Key 16 × TrackedSocket) :=
  t.sockets.entries.filter fun entry => entry.2.generation ≠ t.generation

/-- Removes the socket that is tracked under a key, and announces that it is gone. -/
def forget (t : Tracker) (key : Key 16) : Tracker × List SocketEvent :=
  let (removed, sockets) := t.sockets.eraseKey key
  ({ t with sockets }, (removed.map fun socket => .stopped socket.name).toList)

def forgetAll (t : Tracker) : List (Key 16) → Tracker × List SocketEvent
  | [] => (t, [])
  | key :: keys =>
      let (t, stopped) := t.forget key
      let (t, rest) := t.forgetAll keys
      (t, stopped ++ rest)

theorem forget_eq (t : Tracker) (key : Key 16) :
    t.forget key =
      ({ t with sockets := (t.sockets.eraseKey key).2 },
        ((t.sockets.eraseKey key).1.map fun socket => .stopped socket.name).toList) := rfl

theorem forgetAll_cons (t : Tracker) (key : Key 16) (keys : List (Key 16)) :
    t.forgetAll (key :: keys) =
      (((t.forget key).1.forgetAll keys).1,
        (t.forget key).2 ++ ((t.forget key).1.forgetAll keys).2) := rfl

/-- Begins the next poll without forgetting any socket. -/
def abandonPoll (t : Tracker) : Tracker :=
  { t with generation := t.generation + 1 }

/-- Forgets the sockets that the poll has not seen, and begins the next one. -/
def finishPoll (t : Tracker) : Tracker × List SocketEvent :=
  let (t, stopped) := t.forgetAll (t.stale.map Prod.fst)
  ({ t with generation := t.generation + 1 }, stopped)

/-! ### The number of the poll -/

theorem generation_enlist (t : Tracker) (key : Key 16) (endpoint : Endpoint) (row : SocketRow) :
    (t.enlist key endpoint row).1.generation = t.generation := by
  unfold enlist
  split <;> rfl

theorem generation_report (t : Tracker) (key : Key 16) (row : SocketRow) :
    (t.report key row).1.generation = t.generation := by
  unfold report
  split <;> rfl

@[simp] theorem generation_observe (t : Tracker) (requested : Option Endpoint) (row : SocketRow) :
    (t.observe requested row).1.generation = t.generation := by
  cases requested with
  | none => rfl
  | some endpoint => exact (generation_report ..).trans (generation_enlist ..)

theorem generation_forgetAll (t : Tracker) (keys : List (Key 16)) :
    (t.forgetAll keys).1.generation = t.generation := by
  induction keys generalizing t with
  | nil => rfl
  | cons key keys ih =>
      rw [forgetAll_cons]
      exact ih (t.forget key).1

@[simp] theorem generation_finishPoll (t : Tracker) :
    t.finishPoll.1.generation = t.generation + 1 :=
  congrArg (· + 1) (generation_forgetAll ..)

/-- A short description: the sockets and the number of the poll. -/
def describe (t : Tracker) : String :=
  "Tracker \x7b entries: " ++ t.sockets.describe ++ ", generation: " ++
    toString t.generation.toNat ++ ", .. \x7d"

end Tracker

end QueueWatch
