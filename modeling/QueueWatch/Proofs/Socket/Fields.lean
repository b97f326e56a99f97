import Mathlib.Data.List.Basic
import QueueWatch.Socket.Id

/-!
# Fields of identifiers

The three fields of an identifier lie side by side in its word, each under a mask of its own. To
take a field out is to mask the word and to shift it, and to replace a field is to clear it and to
put another value into its place (`address_eq`, `port_eq`, `inode_eq`, `raw_overlayInode`,
`raw_anyPort`). An inode has more bits than its field. Those that are too many are shifted out of
the word, so they get into no other field.

Hence an identifier is nothing but its fields, and a change to one of them leaves the others alone
(`fields_are_independent`). Identifiers are compared as their words are, and since a field that
stands higher counts more than all below it, that is by inode, then by port, then by address
(`compare_eq`).
-/

namespace QueueWatch

/-! ## Parts of a word -/

/-- Numbers whose bits do not overlap are joined by adding them. -/
theorem mul_two_pow_or {low k : Nat} (h : low < 2 ^ k) (high : Nat) :
    high * 2 ^ k ||| low = high * 2 ^ k + low := by
  rw [Nat.mul_comm, Nat.two_pow_add_eq_or_of_lt h]

/-- What is left of a number under a mask of `width` bits from bit `low` on. -/
theorem and_mask (n low width : Nat) :
    n &&& (2 ^ width - 1) * 2 ^ low = n / 2 ^ low % 2 ^ width * 2 ^ low := by
  apply Nat.eq_of_testBit_eq
  intro i
  rw [Nat.testBit_and, Nat.testBit_mul_two_pow, Nat.testBit_mul_two_pow,
    Nat.testBit_two_pow_sub_one, Nat.testBit_mod_two_pow, Nat.testBit_div_two_pow]
  by_cases hi : low ≤ i
  · rw [Nat.sub_add_cancel hi, Bool.and_comm, Bool.and_assoc]
  · simp [hi]

/-- Of two numbers with two digits the one with the lower first digit is less. -/
theorem two_digits_lt {k low high high' : Nat} (hlow : low < k) (hlt : high < high')
    (low' : Nat) : high * k + low < high' * k + low' := by
  calc high * k + low < (high + 1) * k := by rw [Nat.succ_mul]; omega
    _ ≤ high' * k := Nat.mul_le_mul_right k hlt
    _ ≤ high' * k + low' := Nat.le_add_right ..

/-- Numbers with two digits are compared by the first digit, and only then by the second. -/
theorem compare_two_digits {k low low' : Nat} (h : low < k) (h' : low' < k) (high high' : Nat) :
    compare (high * k + low) (high' * k + low') =
      (compare high high').then (compare low low') := by
  rcases Nat.lt_trichotomy high high' with hlt | rfl | hgt
  · rw [Nat.compare_eq_lt.2 (two_digits_lt h hlt low'), Nat.compare_eq_lt.2 hlt]
    rfl
  · rw [Nat.compare_eq_eq.2 rfl, Nat.compare_eq_ite_lt, Nat.compare_eq_ite_lt]
    simp
  · rw [Nat.compare_eq_gt.2 (two_digits_lt h' hgt low), Nat.compare_eq_gt.2 hgt]
    rfl

namespace SocketId

/-! ## Words and masks -/

/-- The bits of the address. -/
def addressMask : UInt64 := 0x00000000ffffffff

/-- The bits of the port. -/
def portMask : UInt64 := 0x0000ffff00000000

/-- The bits of the inode. -/
def inodeMask : UInt64 := 0xffff000000000000

theorem toNat_and_addressMask (w : UInt64) : (w &&& addressMask).toNat = w.toNat % 2 ^ 32 := by
  have hmask : addressMask.toNat = (2 ^ 32 - 1) * 2 ^ 0 := rfl
  rw [UInt64.toNat_and, hmask, and_mask, Nat.pow_zero, Nat.div_one, Nat.mul_one]

theorem toNat_and_portMask (w : UInt64) :
    (w &&& portMask).toNat = w.toNat / 2 ^ 32 % 2 ^ 16 * 2 ^ 32 := by
  have hmask : portMask.toNat = (2 ^ 16 - 1) * 2 ^ 32 := rfl
  rw [UInt64.toNat_and, hmask, and_mask]

theorem toNat_and_inodeMask (w : UInt64) :
    (w &&& inodeMask).toNat = w.toNat / 2 ^ 48 % 2 ^ 16 * 2 ^ 48 := by
  have hmask : inodeMask.toNat = (2 ^ 16 - 1) * 2 ^ 48 := rfl
  rw [UInt64.toNat_and, hmask, and_mask]

theorem toNat_and_not_inodeMask (w : UInt64) : (w &&& ~~~inodeMask).toNat = w.toNat % 2 ^ 48 := by
  have hmask : (~~~inodeMask).toNat = 2 ^ 48 - 1 := rfl
  rw [UInt64.toNat_and, hmask, Nat.and_two_pow_sub_one_eq_mod]

theorem toNat_and_not_portMask (w : UInt64) :
    (w &&& ~~~portMask).toNat = w.toNat / 2 ^ 48 % 2 ^ 16 * 2 ^ 48 + w.toNat % 2 ^ 32 := by
  have hmask : (~~~portMask).toNat = inodeMask.toNat ||| addressMask.toNat := rfl
  rw [UInt64.toNat_and, hmask, Nat.and_or_distrib_left, ← UInt64.toNat_and, ← UInt64.toNat_and,
    toNat_and_inodeMask, toNat_and_addressMask]
  exact mul_two_pow_or (by omega) _

/-! ## The word of an identifier -/

theorem toNat_raw_pack (a : Ipv4) (p i : UInt16) :
    (pack a p i).raw.toNat = (i.toNat * 2 ^ 16 + p.toNat) * 2 ^ 32 + a.bits.toNat := by
  have := a.bits.toNat_lt; have := p.toNat_lt; have := i.toNat_lt
  rw [pack, UInt64.toNat_ofNat']
  omega

theorem toNat_raw (id : SocketId) :
    id.raw.toNat = (id.inode.toNat * 2 ^ 16 + id.port.toNat) * 2 ^ 32 + id.address.bits.toNat := by
  rw [← toNat_raw_pack, pack_fields]

theorem compare_eq (a b : SocketId) :
    compare a b = (compare a.inode b.inode).then
      ((compare a.port b.port).then (compare a.address.bits b.address.bits)) := by
  change compare a.raw b.raw = _
  rw [UInt64.compare_eq_toNat_compare_toNat, toNat_raw, toNat_raw,
    compare_two_digits a.address.bits.toNat_lt b.address.bits.toNat_lt,
    compare_two_digits a.port.toNat_lt b.port.toNat_lt, Ordering.then_assoc,
    ← UInt16.compare_eq_toNat_compare_toNat, ← UInt16.compare_eq_toNat_compare_toNat,
    ← UInt32.compare_eq_toNat_compare_toNat]

theorem address_eq (id : SocketId) : id.address.bits = (id.raw &&& addressMask).toUInt32 := by
  apply UInt32.toNat_inj.1
  rw [address, UInt32.toNat_ofNat', UInt64.toNat_toUInt32, toNat_and_addressMask, Nat.mod_mod]

theorem port_eq (id : SocketId) : id.port = ((id.raw &&& portMask) >>> 32).toUInt16 := by
  have := id.raw.toNat_lt
  have hshift : (32 : UInt64).toNat % 64 = 32 := rfl
  apply UInt16.toNat_inj.1
  rw [port, UInt16.toNat_ofNat', UInt64.toNat_toUInt16, UInt64.toNat_shiftRight, hshift,
    toNat_and_portMask, Nat.shiftRight_eq_div_pow]
  omega

theorem inode_eq (id : SocketId) : id.inode = ((id.raw &&& inodeMask) >>> 48).toUInt16 := by
  have := id.raw.toNat_lt
  have hshift : (48 : UInt64).toNat % 64 = 48 := rfl
  apply UInt16.toNat_inj.1
  rw [inode, UInt16.toNat_ofNat', UInt64.toNat_toUInt16, UInt64.toNat_shiftRight, hshift,
    toNat_and_inodeMask, Nat.shiftRight_eq_div_pow]
  omega

theorem raw_ofEndpoint (e : Endpoint) :
    (ofEndpoint e).raw = e.port.toUInt64 <<< 32 ||| e.address.bits.toUInt64 := by
  have := e.port.toNat_lt
  have hshift : (32 : UInt64).toNat % 64 = 32 := rfl
  apply UInt64.toNat_inj.1
  rw [ofEndpoint, toNat_raw_pack, UInt64.toNat_or, UInt64.toNat_shiftLeft, hshift,
    UInt16.toNat_toUInt64, UInt32.toNat_toUInt64, Nat.shiftLeft_eq, Nat.mod_eq_of_lt (by omega),
    mul_two_pow_or e.address.bits.toNat_lt]
  simp

/-- Shifting drops the bits of the inode that have no place in the identifier. -/
theorem raw_overlayInode (id : SocketId) (n : UInt64) :
    (id.overlayInode n).raw = id.raw &&& ~~~inodeMask ||| n <<< 48 := by
  have hshift : (48 : UInt64).toNat % 64 = 48 := rfl
  have hbits : n.toNat * 2 ^ 48 % 2 ^ 64 = n.toNat % 2 ^ 16 * 2 ^ 48 := by omega
  apply UInt64.toNat_inj.1
  rw [overlayInode, toNat_raw_pack, UInt64.toNat_or, UInt64.toNat_shiftLeft, hshift,
    Nat.shiftLeft_eq, toNat_and_not_inodeMask, hbits, Nat.or_comm,
    mul_two_pow_or (Nat.mod_lt _ (by omega)), toNat_raw id, UInt64.toNat_toUInt16]
  have := id.address.bits.toNat_lt; have := id.port.toNat_lt
  omega

theorem raw_anyPort (id : SocketId) : id.anyPort.raw = id.raw &&& ~~~portMask := by
  have := id.address.bits.toNat_lt; have := id.port.toNat_lt; have := id.inode.toNat_lt
  apply UInt64.toNat_inj.1
  rw [anyPort, toNat_raw_pack, toNat_and_not_portMask, toNat_raw id, UInt16.toNat_zero]
  omega

/-! ## Changes to one field -/

@[simp] theorem endpoint_withInode (e : Endpoint) (n : UInt64) : (withInode e n).endpoint = e := by
  simp [endpoint, withInode]

@[simp] theorem inode_withInode (e : Endpoint) (n : UInt64) :
    (withInode e n).inode = n.toUInt16 := inode_overlayInode ..

/-- An identifier is that of its endpoint with the inode that it holds. -/
theorem withInode_fields (id : SocketId) : withInode id.endpoint id.inode.toUInt64 = id := by
  apply ext_fields
  · exact congrArg Endpoint.address (endpoint_withInode id.endpoint _)
  · exact congrArg Endpoint.port (endpoint_withInode id.endpoint _)
  · rw [inode_withInode, UInt16.toUInt16_toUInt64]

@[simp] theorem endpoint_overlayInode (id : SocketId) (n : UInt64) :
    (id.overlayInode n).endpoint = id.endpoint := by
  simp [endpoint]

theorem overlayInode_overlayInode (id : SocketId) (m n : UInt64) :
    (id.overlayInode m).overlayInode n = id.overlayInode n := by
  apply ext_fields <;> simp

theorem anyPort_overlayInode (id : SocketId) (n : UInt64) :
    (id.overlayInode n).anyPort = id.anyPort.overlayInode n := by
  apply ext_fields <;> simp

theorem anyPort_anyPort (id : SocketId) : id.anyPort.anyPort = id.anyPort := by
  apply ext_fields <;> simp

theorem isAnyPort_iff (id : SocketId) : id.isAnyPort = true ↔ id.anyPort = id := by
  rw [isAnyPort, beq_iff_eq]
  constructor
  · intro hport
    exact ext_fields (address_anyPort id) ((port_anyPort id).trans hport.symm) (inode_anyPort id)
  · intro hid
    rw [← hid, port_anyPort]

theorem bijective_fields :
    Function.Bijective fun id : SocketId => (id.address, id.port, id.inode) := by
  constructor
  · intro a b h
    simp only [Prod.mk.injEq] at h
    exact ext_fields h.1 h.2.1 h.2.2
  · rintro ⟨a, p, i⟩
    refine ⟨pack a p i, ?_⟩
    simp only [address_pack, port_pack, inode_pack]

/-- Identifiers and triples of fields determine each other, and every triple is the one of a socket
with an inode. Overlaying an inode replaces that field by the last 16 bits, and only that; of two
inodes the last one counts. Making the identifier stand for every port replaces the port by zero,
and only that; it changes nothing exactly if the port is zero already. The two changes can be made
in either order. In the word they are done with masks and shifts. The kernel's word is the address
with its octets in the opposite order, and identifiers are ordered by inode, port and address. -/
theorem fields_are_independent :
    (Function.Bijective fun id : SocketId => (id.address, id.port, id.inode)) ∧
    (∀ (e : Endpoint) (n : UInt64),
      (withInode e n).endpoint = e ∧ (withInode e n).inode.toNat = n.toNat % 2 ^ 16) ∧
    (∀ id : SocketId, withInode id.endpoint id.inode.toUInt64 = id) ∧
    (∀ (id : SocketId) (m n : UInt64),
      (id.overlayInode n).endpoint = id.endpoint ∧
        (id.overlayInode n).inode.toNat = n.toNat % 2 ^ 16 ∧
        (id.overlayInode m).overlayInode n = id.overlayInode n ∧
        (id.overlayInode n).anyPort = id.anyPort.overlayInode n) ∧
    (∀ id : SocketId,
      id.anyPort.address = id.address ∧ id.anyPort.port = 0 ∧ id.anyPort.inode = id.inode ∧
        id.anyPort.anyPort = id.anyPort ∧ (id.isAnyPort = true ↔ id.anyPort = id)) ∧
    (∀ (id : SocketId) (n : UInt64),
      id.address.bits = (id.raw &&& addressMask).toUInt32 ∧
        id.port = ((id.raw &&& portMask) >>> 32).toUInt16 ∧
        id.inode = ((id.raw &&& inodeMask) >>> 48).toUInt16 ∧
        (id.overlayInode n).raw = id.raw &&& ~~~inodeMask ||| n <<< 48 ∧
        id.anyPort.raw = id.raw &&& ~~~portMask) ∧
    (∀ e : Endpoint,
      (ofEndpoint e).raw = e.port.toUInt64 <<< 32 ||| e.address.bits.toUInt64) ∧
    (∀ (w : UInt32) (p : UInt16),
      ofKernelWord w p = ofEndpoint ⟨Ipv4.ofKernelWord w, p⟩ ∧
        (Ipv4.ofKernelWord w).octets = (Ipv4.mk w).octets.reverse) ∧
    ∀ a b : SocketId, compare a b =
      (compare a.inode b.inode).then
        ((compare a.port b.port).then (compare a.address.bits b.address.bits)) := by
  refine ⟨bijective_fields, fun e n => ⟨endpoint_withInode e n, ?_⟩, withInode_fields,
    fun id m n => ⟨endpoint_overlayInode id n, ?_, overlayInode_overlayInode id m n,
      anyPort_overlayInode id n⟩,
    fun id => ⟨address_anyPort id, port_anyPort id, inode_anyPort id, anyPort_anyPort id,
      isAnyPort_iff id⟩,
    fun id n => ⟨address_eq id, port_eq id, inode_eq id, raw_overlayInode id n, raw_anyPort id⟩,
    raw_ofEndpoint, fun w p => ⟨rfl, Ipv4.octets_ofKernelWord w⟩, compare_eq⟩
  · rw [inode_withInode, UInt64.toNat_toUInt16]
  · rw [inode_overlayInode, UInt64.toNat_toUInt16]

/-- The bits of an inode that have no place in the identifier do not get into the port. -/
example : ((ofEndpoint ⟨.ofOctets 127 0 0 1, 8080⟩).overlayInode 0x10005).raw =
    0x00051f907f000001 := by
  decide

end SocketId

end QueueWatch
