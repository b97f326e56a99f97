import QueueWatch.Monitor.Tracker

/-!
# The names of sockets

A socket is announced by address, port and whole inode. This name and the key under which the socket
is tracked determine each other (`SocketName.slotKey_inj`), although the identifier in the key holds
only the last bits of the inode.
-/

namespace QueueWatch

/-- The identifier of the socket with a name, with the last bits of its inode. -/
def SocketName.id (n : SocketName) : SocketId :=
  SocketId.pack n.address n.port n.inode.toUInt16

/-- The key of the socket with a name. -/
def SocketName.key (n : SocketName) : InstanceKey :=
  ⟨n.id, n.inode⟩

/-- The key of the socket with a name, in its binary form. -/
def SocketName.slotKey (n : SocketName) : Key 16 :=
  n.key.encode

/-- The name of the socket in a row. -/
def SocketRow.name (row : SocketRow) : SocketName :=
  ⟨row.id.address, row.id.port, row.inode⟩

/-- The byte that is worth `2 ^ (8 * m)`. -/
theorem getElem_bigEndian (w : UInt64) {m : Nat} (h : 7 - m < 8) (hm : m ≤ 7) :
    ((bigEndian w)[7 - m]).toNat = w.toNat / 2 ^ (8 * m) % 256 := by
  rw [bigEndian, Vector.getElem_ofFn, UInt8.toNat_ofNat', Nat.sub_sub_self hm]

theorem bigEndian_inj {a b : UInt64} : bigEndian a = bigEndian b ↔ a = b := by
  constructor
  · intro h
    -- from the highest byte on, the numbers are equal as far as their bytes have been compared
    have hhigh : ∀ k ≤ 8, a.toNat / 2 ^ (8 * (8 - k)) = b.toNat / 2 ^ (8 * (8 - k)) := by
      intro k hk
      induction k with
      | zero => rw [Nat.div_eq_of_lt a.toNat_lt, Nat.div_eq_of_lt b.toNat_lt]
      | succ k ih =>
          obtain ⟨m, hm⟩ : ∃ m, 8 - k = m + 1 := ⟨7 - k, by omega⟩
          have hquotient := ih (by omega)
          have hbyte : a.toNat / 2 ^ (8 * m) % 256 = b.toNat / 2 ^ (8 * m) % 256 := by
            rw [← getElem_bigEndian a (by omega) (by omega),
              ← getElem_bigEndian b (by omega) (by omega)]
            simp only [h]
          rw [hm, Nat.mul_succ, Nat.pow_add, ← Nat.div_div_eq_div_mul,
            ← Nat.div_div_eq_div_mul] at hquotient
          rw [show 8 - (k + 1) = m by omega]
          omega
    have hall := hhigh 8 (Nat.le_refl 8)
    rw [Nat.sub_self, Nat.mul_zero, Nat.pow_zero, Nat.div_one, Nat.div_one] at hall
    exact UInt64.toNat_inj.1 hall
  · intro h
    rw [h]

theorem InstanceKey.encode_inj {a b : InstanceKey} : a.encode = b.encode ↔ a = b := by
  constructor
  · intro h
    have hparts := Vector.append_inj h
    have hraw : a.id.raw = b.id.raw := bigEndian_inj.1 hparts.1
    have hinode : a.inode = b.inode := bigEndian_inj.1 hparts.2
    rcases a with ⟨⟨raw⟩, inode⟩
    rcases b with ⟨⟨raw'⟩, inode'⟩
    cases hraw
    cases hinode
    rfl
  · intro h
    rw [h]

theorem SocketName.key_inj {a b : SocketName} : a.key = b.key ↔ a = b := by
  constructor
  · intro h
    rcases a with ⟨address, port, inode⟩
    rcases b with ⟨address', port', inode'⟩
    have hid : SocketId.pack address port inode.toUInt16 =
        SocketId.pack address' port' inode'.toUInt16 := congrArg InstanceKey.id h
    have haddress := congrArg SocketId.address hid
    have hport := congrArg SocketId.port hid
    rw [SocketId.address_pack, SocketId.address_pack] at haddress
    rw [SocketId.port_pack, SocketId.port_pack] at hport
    have hinode : inode = inode' := congrArg InstanceKey.inode h
    rw [haddress, hport, hinode]
  · intro h
    rw [h]

theorem SocketName.slotKey_inj {a b : SocketName} : a.slotKey = b.slotKey ↔ a = b :=
  InstanceKey.encode_inj.trans SocketName.key_inj

end QueueWatch
