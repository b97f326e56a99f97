import QueueWatch.Address.Ipv6
import Std.Data.ExtTreeMap

/-!
# Socket identifiers

A socket identifier packs the address, the port and the last 16 bits of the inode of a socket into
one word, so that sockets can be compared, sorted and looked up by a single number:

* bits 0 to 31 hold the address,
* bits 32 to 47 hold the port, where zero stands for every port,
* bits 48 to 63 hold the inode, where zero stands for every inode.

`pack` and the three fields are inverse to each other (`address_pack`, `port_pack`, `inode_pack`,
`pack_fields`), so a field can be replaced without touching the others. Identifiers are ordered as
their words, that is by inode, then by port, then by address.
-/

namespace QueueWatch

/-- The identifier of a socket, or of all sockets of an address. -/
structure SocketId where
  raw : UInt64
  deriving DecidableEq, Repr, Inhabited

/-- Why an address has no identifier: it is no IPv4 address. -/
structure UnsupportedAddress where
  address : Ipv6
  deriving DecidableEq, Repr

def UnsupportedAddress.message (e : UnsupportedAddress) : String :=
  "unsupported address family: `" ++ e.address.render ++ "` is not an IPv4 address"

/-- The IPv4 address that an address of either version is. -/
def IpAddress.requireV4 : IpAddress → Except UnsupportedAddress Ipv4
  | .v4 ip => .ok ip
  | .v6 ip => .error ⟨ip⟩

namespace SocketId

/-- The identifier that holds the given fields side by side. -/
def pack (address : Ipv4) (port : UInt16) (inode : UInt16) : SocketId :=
  ⟨UInt64.ofNat (address.bits.toNat + port.toNat * 2 ^ 32 + inode.toNat * 2 ^ 48)⟩

def address (id : SocketId) : Ipv4 :=
  ⟨UInt32.ofNat id.raw.toNat⟩

/-- The port; zero stands for every port. -/
def port (id : SocketId) : UInt16 :=
  UInt16.ofNat (id.raw.toNat / 2 ^ 32)

/-- The last 16 bits of the inode; zero stands for every inode. -/
def inode (id : SocketId) : UInt16 :=
  UInt16.ofNat (id.raw.toNat / 2 ^ 48)

def ofEndpoint (e : Endpoint) : SocketId :=
  pack e.address e.port 0

def ofAddress (address : Ipv4) : SocketId :=
  pack address 0 0

/-- The identifier of the socket that the kernel prints with the word `address`. -/
def ofKernelWord (address : UInt32) (port : UInt16) : SocketId :=
  pack (Ipv4.ofKernelWord address) port 0

/-- The identifier with its inode replaced by the last 16 bits of `inode`. -/
def overlayInode (id : SocketId) (inode : UInt64) : SocketId :=
  pack id.address id.port inode.toUInt16

/-- The identifier of an endpoint, with the last 16 bits of `inode`. -/
def withInode (e : Endpoint) (inode : UInt64) : SocketId :=
  (ofEndpoint e).overlayInode inode

/-- The identifier with its port replaced by the one that stands for every port. -/
def anyPort (id : SocketId) : SocketId :=
  pack id.address 0 id.inode

def isAnyPort (id : SocketId) : Bool :=
  id.port == 0

def endpoint (id : SocketId) : Endpoint :=
  ⟨id.address, id.port⟩

/-- The written form: endpoint, slash, inode. -/
def render (id : SocketId) : String :=
  id.endpoint.render ++ "/" ++ toString id.inode.toNat

/-- The written form that names the type. -/
def describe (id : SocketId) : String :=
  "SocketIdentifier(" ++ id.render ++ ")"

instance : Ord SocketId where
  compare a b := compare a.raw b.raw

instance : Std.TransOrd SocketId :=
  inferInstanceAs (Std.TransCmp (compareOn SocketId.raw))

instance : Std.LawfulEqOrd SocketId where
  eq_of_compare {a b} h := by
    obtain ⟨a⟩ := a
    obtain ⟨b⟩ := b
    exact congrArg SocketId.mk (Std.LawfulEqOrd.eq_of_compare h)

@[simp] theorem address_pack (a : Ipv4) (p i : UInt16) : (pack a p i).address = a := by
  obtain ⟨w⟩ := a
  have := w.toNat_lt; have := p.toNat_lt; have := i.toNat_lt
  simp only [pack, address, Ipv4.mk.injEq]
  apply UInt32.toNat_inj.1
  simp only [UInt32.toNat_ofNat', UInt64.toNat_ofNat']
  omega

@[simp] theorem port_pack (a : Ipv4) (p i : UInt16) : (pack a p i).port = p := by
  have := a.bits.toNat_lt; have := p.toNat_lt; have := i.toNat_lt
  simp only [pack, port]
  apply UInt16.toNat_inj.1
  simp only [UInt16.toNat_ofNat', UInt64.toNat_ofNat']
  omega

@[simp] theorem inode_pack (a : Ipv4) (p i : UInt16) : (pack a p i).inode = i := by
  have := a.bits.toNat_lt; have := p.toNat_lt; have := i.toNat_lt
  simp only [pack, inode]
  apply UInt16.toNat_inj.1
  simp only [UInt16.toNat_ofNat', UInt64.toNat_ofNat']
  omega

/-- An identifier holds nothing but its fields. -/
@[simp] theorem pack_fields (id : SocketId) : pack id.address id.port id.inode = id := by
  obtain ⟨w⟩ := id
  have := w.toNat_lt
  simp only [pack, address, port, inode, mk.injEq]
  apply UInt64.toNat_inj.1
  simp only [UInt32.toNat_ofNat', UInt16.toNat_ofNat', UInt64.toNat_ofNat']
  omega

theorem ext_fields {a b : SocketId} (haddress : a.address = b.address) (hport : a.port = b.port)
    (hinode : a.inode = b.inode) : a = b := by
  rw [← pack_fields a, ← pack_fields b, haddress, hport, hinode]

@[simp] theorem address_overlayInode (id : SocketId) (n : UInt64) :
    (id.overlayInode n).address = id.address := address_pack ..

@[simp] theorem port_overlayInode (id : SocketId) (n : UInt64) :
    (id.overlayInode n).port = id.port := port_pack ..

@[simp] theorem inode_overlayInode (id : SocketId) (n : UInt64) :
    (id.overlayInode n).inode = n.toUInt16 := inode_pack ..

@[simp] theorem address_anyPort (id : SocketId) : id.anyPort.address = id.address :=
  address_pack ..

@[simp] theorem port_anyPort (id : SocketId) : id.anyPort.port = 0 := port_pack ..

@[simp] theorem inode_anyPort (id : SocketId) : id.anyPort.inode = id.inode := inode_pack ..

@[simp] theorem address_ofEndpoint (e : Endpoint) : (ofEndpoint e).address = e.address :=
  address_pack ..

@[simp] theorem port_ofEndpoint (e : Endpoint) : (ofEndpoint e).port = e.port := port_pack ..

@[simp] theorem inode_ofEndpoint (e : Endpoint) : (ofEndpoint e).inode = 0 := inode_pack ..

end SocketId

end QueueWatch
