import QueueWatch.Address.Ipv4

/-!
# IPv6 addresses

The socket tables that are watched hold IPv4 addresses only, so an IPv6 address is only ever
written, in the message that refuses it. It is written as eight groups of lower-case hexadecimal
digits without leading zeros, between colons; the longest run of two or more zero groups, the
first one of equally long runs, is left out between two colons. An address that holds an IPv4
address shows that one.
-/

namespace QueueWatch

/-- An IPv6 address as its eight groups, the first one written first. -/
structure Ipv6 where
  groups : Vector UInt16 8
  deriving DecidableEq, Repr

/-- The start and the length of a run of zero groups. -/
structure ZeroRun where
  start : Nat
  length : Nat
  deriving DecidableEq, Repr

namespace Ipv6

/-- The number of zero groups at the start of the list. -/
def leadingZeros (groups : List UInt16) : Nat :=
  (groups.takeWhile (· == 0)).length

/-- The longest run of zero groups, the first one of equally long runs, where the list begins at the
group `start`. -/
def longestZeroRunFrom (start : Nat) : List UInt16 → ZeroRun
  | [] => ⟨start, 0⟩
  | group :: rest =>
      let here : ZeroRun := ⟨start, leadingZeros (group :: rest)⟩
      let later := longestZeroRunFrom (start + 1) rest
      if later.length ≤ here.length then here else later

/-- Groups in hexadecimal, between colons. -/
def renderGroups (groups : List UInt16) : String :=
  String.intercalate ":" (groups.map fun group => String.ofList (Nat.toDigits 16 group.toNat))

/-- The IPv4 address that an address holds in its last two groups, if the groups before them are
five zeros and `ffff`. -/
def mapped? (ip : Ipv6) : Option Ipv4 :=
  match ip.groups.toList with
  | [0, 0, 0, 0, 0, 0xFFFF, high, low] => some ⟨(high.toUInt32 <<< 16) ||| low.toUInt32⟩
  | _ => none

def render (ip : Ipv6) : String :=
  match ip.mapped? with
  | some v4 => "::ffff:" ++ v4.render
  | none =>
      let groups := ip.groups.toList
      let run := longestZeroRunFrom 0 groups
      if run.length < 2 then renderGroups groups
      else
        renderGroups (groups.take run.start) ++ "::" ++
          renderGroups (groups.drop (run.start + run.length))

end Ipv6

inductive IpAddress where
  | v4 (ip : Ipv4)
  | v6 (ip : Ipv6)
  deriving DecidableEq, Repr

def IpAddress.render : IpAddress → String
  | .v4 ip => ip.render
  | .v6 ip => ip.render

end QueueWatch
