import QueueWatch.Number.Unsigned
import QueueWatch.Text.Blank

/-!
# IPv4 addresses

An address is a word of 32 bits whose highest octet is written first. `Ipv4.render` writes the
four octets in decimal between dots, and `Ipv4.parse?` reads exactly these texts: four octets of
at most 255, without leading zeros. The kernel's socket tables print the word in the byte order of
memory, so `Ipv4.ofKernelWord` reverses the bytes.
-/

namespace QueueWatch

structure Ipv4 where
  bits : UInt32
  deriving DecidableEq, Repr, Inhabited

structure Endpoint where
  address : Ipv4
  port : UInt16
  deriving DecidableEq, Repr, Inhabited

namespace Ipv4

/-- The address of four octets, the first one written first. -/
def ofOctets (a b c d : UInt8) : Ipv4 :=
  ⟨UInt32.ofNat (a.toNat * 2 ^ 24 + b.toNat * 2 ^ 16 + c.toNat * 2 ^ 8 + d.toNat)⟩

/-- The octet that stands `places` octets from the last one. -/
def octet (ip : Ipv4) (places : Nat) : UInt8 :=
  UInt8.ofNat (ip.bits.toNat / 2 ^ (8 * places))

def octets (ip : Ipv4) : List UInt8 :=
  [ip.octet 3, ip.octet 2, ip.octet 1, ip.octet 0]

/-- The address that the kernel prints as the word `w`: the last byte of the word is the first
octet. -/
def ofKernelWord (w : UInt32) : Ipv4 :=
  let last : Ipv4 := ⟨w⟩
  ofOctets (last.octet 0) (last.octet 1) (last.octet 2) (last.octet 3)

theorem octet_ofOctets_three (a b c d : UInt8) : (ofOctets a b c d).octet 3 = a := by
  apply UInt8.toNat_inj.1
  have := a.toNat_lt; have := b.toNat_lt; have := c.toNat_lt; have := d.toNat_lt
  simp only [octet, ofOctets, UInt8.toNat_ofNat', UInt32.toNat_ofNat']
  omega

theorem octet_ofOctets_two (a b c d : UInt8) : (ofOctets a b c d).octet 2 = b := by
  apply UInt8.toNat_inj.1
  have := a.toNat_lt; have := b.toNat_lt; have := c.toNat_lt; have := d.toNat_lt
  simp only [octet, ofOctets, UInt8.toNat_ofNat', UInt32.toNat_ofNat']
  omega

theorem octet_ofOctets_one (a b c d : UInt8) : (ofOctets a b c d).octet 1 = c := by
  apply UInt8.toNat_inj.1
  have := a.toNat_lt; have := b.toNat_lt; have := c.toNat_lt; have := d.toNat_lt
  simp only [octet, ofOctets, UInt8.toNat_ofNat', UInt32.toNat_ofNat']
  omega

theorem octet_ofOctets_zero (a b c d : UInt8) : (ofOctets a b c d).octet 0 = d := by
  apply UInt8.toNat_inj.1
  have := a.toNat_lt; have := b.toNat_lt; have := c.toNat_lt; have := d.toNat_lt
  simp only [octet, ofOctets, UInt8.toNat_ofNat', UInt32.toNat_ofNat']
  omega

theorem octets_ofOctets (a b c d : UInt8) : (ofOctets a b c d).octets = [a, b, c, d] := by
  simp only [octets, octet_ofOctets_three, octet_ofOctets_two, octet_ofOctets_one,
    octet_ofOctets_zero]

theorem octets_ofKernelWord (w : UInt32) :
    (ofKernelWord w).octets = (Ipv4.mk w).octets.reverse :=
  octets_ofOctets ..

theorem ofOctets_octet (ip : Ipv4) :
    ofOctets (ip.octet 3) (ip.octet 2) (ip.octet 1) (ip.octet 0) = ip := by
  obtain ⟨w⟩ := ip
  have hw := w.toNat_lt
  simp only [ofOctets, octet, mk.injEq]
  apply UInt32.toNat_inj.1
  simp only [UInt8.toNat_ofNat', UInt32.toNat_ofNat']
  omega

/-- The octets in decimal, between dots. -/
def render (ip : Ipv4) : String :=
  String.intercalate "." (ip.octets.map fun octet => toString octet.toNat)

/-- Reads one octet: decimal digits without a leading zero, at most 255. -/
def octet? (s : List Char) : Option UInt8 :=
  if s.length ≤ 3 ∧ s.all Char.isDigit ∧ (s.head? = some '0' → s = ['0']) then
    match unsignedFrom 8 0 s with
    | .ok value => if s = [] then none else some value.toUInt8
    | .error _ => none
  else none

def parse? (s : List Char) : Option Ipv4 :=
  match (Text.pieces '.' s).mapM octet? with
  | some [a, b, c, d] => some (ofOctets a b c d)
  | _ => none

end Ipv4

/-- An endpoint in its written form: the address, a colon, the port. -/
def Endpoint.render (e : Endpoint) : String :=
  e.address.render ++ ":" ++ toString e.port.toNat

end QueueWatch
