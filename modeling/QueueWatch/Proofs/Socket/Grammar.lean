import QueueWatch.Socket.Spec
import QueueWatch.Proofs.Address.Host
import QueueWatch.Proofs.Watchlist.Requests

/-!
# The written form of socket specs

A text without the blanks around it has a host, then a port after a colon and an inode after a hash
sign, either of which it may lack (`SpecParts`). Every text is cut into such parts in one way
(`SpecParts.IsCutFrom`). The parts stand for a spec (`SpecParts.Reads`), or the last one that stands
for nothing is at fault (`SpecParts.Blames`), and nothing of this says how a text is read. What
`SocketSpec.parse` gives is what the grammar says: `SocketSpec.parse_follows_grammar`.
-/

namespace QueueWatch

open Text (AllBlank Trimmed marked)

/-! ## Parts that may be absent -/

/-- A part is absent or stands for a number of at most `bits` bits. -/
def IsNumericPart (bits : Nat) (part : Option (List Char)) : Prop :=
  ∃ n, Option.Rel (IsNumeral bits) part n

namespace SocketSpec

theorem readPart_of_rel {fault : SpecFault} {bits : Nat} {part : Option (List Char)}
    {n : Option Nat} (h : Option.Rel (IsNumeral bits) part n) :
    readPart fault bits part = .ok n := by
  cases h with
  | none => rfl
  | some h => rw [readPart, parseUnsigned_eq_ok_iff.2 h]

theorem readPart_of_not_isNumericPart {fault : SpecFault} {bits : Nat}
    {part : Option (List Char)} (h : ¬ IsNumericPart bits part) :
    readPart fault bits part = .error fault := by
  cases part with
  | none => exact absurd ⟨none, .none⟩ h
  | some text =>
      rw [readPart]
      cases hread : parseUnsigned bits text with
      | error e => rfl
      | ok n => exact absurd ⟨some n, .some (parseUnsigned_eq_ok_iff.1 hread)⟩ h

end SocketSpec

/-- A number of at most `bits` bits is the value of a machine word. -/
theorem IsNumericPart.exists_word {α : Type} {bits : Nat} {part : Option (List Char)}
    {toNat : α → Nat} {ofNat : Nat → α} (hword : ∀ n < 2 ^ bits, toNat (ofNat n) = n)
    (h : IsNumericPart bits part) :
    ∃ word : Option α, Option.Rel (IsNumeral bits) part (word.map toNat) := by
  rcases h with ⟨n, hn⟩
  cases hn with
  | none => exact ⟨none, .none⟩
  | @some _ n hn =>
      refine ⟨some (ofNat n), ?_⟩
      rw [Option.map_some, hword _ hn.lt]
      exact .some hn

/-! ## The grammar -/

/-- The parts of a text that may be a spec. -/
structure SpecParts where
  host : List Char
  port : Option (List Char)
  inode : Option (List Char)

namespace SpecParts

def endpoint (p : SpecParts) : List Char :=
  p.host ++ marked ':' p.port

def text (p : SpecParts) : List Char :=
  p.endpoint ++ marked '#' p.inode

/-- A text is cut at its first hash sign, and what stands before that at its first colon. Blanks
around the text belong to no part. -/
structure IsCutFrom (p : SpecParts) (s : String) : Prop where
  blanks : ∃ left right, s.toList = left ++ p.text ++ right ∧ AllBlank left ∧ AllBlank right
  trimmed : Trimmed p.text
  endpoint : '#' ∉ p.endpoint
  host : ':' ∉ p.host

/-- The parts stand for a spec: each that is present for what the spec has in its place. -/
structure Reads (p : SpecParts) (spec : SocketSpec) : Prop where
  host : ∃ ip, spec.host = .v4 ip ∧ Ipv4.IsHost p.host ip
  port : Option.Rel (IsNumeral 16) p.port (spec.port.map UInt16.toNat)
  inode : Option.Rel (IsNumeral 64) p.inode (spec.inode.map UInt64.toNat)

/-- The part at fault is the last one that stands for nothing. -/
inductive Blames (p : SpecParts) : SpecFault → Prop
  | inode (h : ¬ IsNumericPart 64 p.inode) : Blames p .inode
  | port (hinode : IsNumericPart 64 p.inode) (h : ¬ IsNumericPart 16 p.port) : Blames p .port
  | host (hinode : IsNumericPart 64 p.inode) (hport : IsNumericPart 16 p.port)
      (h : ∀ ip, ¬ Ipv4.IsHost p.host ip) : Blames p .host

theorem exists_reads_or_blames (p : SpecParts) :
    (∃ spec, p.Reads spec) ∨ ∃ fault, p.Blames fault := by
  by_cases hinode : IsNumericPart 64 p.inode
  · by_cases hport : IsNumericPart 16 p.port
    · by_cases hhost : ∃ ip, Ipv4.IsHost p.host ip
      · rcases hhost with ⟨ip, hip⟩
        rcases hport.exists_word (fun _ => UInt16.toNat_ofNat_of_lt') with ⟨port, hport⟩
        rcases hinode.exists_word (fun _ => UInt64.toNat_ofNat_of_lt') with ⟨inode, hinode⟩
        exact Or.inl ⟨⟨.v4 ip, port, inode⟩, ⟨ip, rfl, hip⟩, hport, hinode⟩
      · exact Or.inr ⟨.host, .host hinode hport (not_exists.1 hhost)⟩
    · exact Or.inr ⟨.port, .port hinode hport⟩
  · exact Or.inr ⟨.inode, .inode hinode⟩

/-! ## Cutting -/

theorem IsCutFrom.trim_eq {p : SpecParts} {s : String} (h : p.IsCutFrom s) :
    Text.trim s.toList = p.text := by
  rcases h.blanks with ⟨left, right, hs, hleft, hright⟩
  exact Text.trim_eq_iff.2 ⟨left, right, hs, hleft, hright, h.trimmed⟩

theorem IsCutFrom.cut?_text {p : SpecParts} {s : String} (h : p.IsCutFrom s) :
    Text.cut? '#' p.text = (p.endpoint, p.inode) :=
  Text.cut?_append_marked h.endpoint p.inode

theorem IsCutFrom.cut?_endpoint {p : SpecParts} {s : String} (h : p.IsCutFrom s) :
    Text.cut? ':' p.endpoint = (p.host, p.port) :=
  Text.cut?_append_marked h.host p.port

/-- Every text has its parts. -/
theorem existsUnique_isCutFrom (s : String) : ∃! p : SpecParts, p.IsCutFrom s := by
  rcases hinode : Text.cut? '#' (Text.trim s.toList) with ⟨endpoint, inode⟩
  rcases hport : Text.cut? ':' endpoint with ⟨host, port⟩
  rcases Text.cut?_eq_iff.1 hinode with ⟨htrim, hendpoint⟩
  rcases Text.cut?_eq_iff.1 hport with ⟨rfl, hhost⟩
  rcases Text.trim_eq_iff.1 htrim with ⟨left, right, hs, hleft, hright, htrimmed⟩
  refine ⟨⟨host, port, inode⟩, ⟨⟨left, right, hs, hleft, hright⟩, htrimmed, hendpoint, hhost⟩, ?_⟩
  intro p hp
  have hendpoint' := hp.cut?_text.symm.trans (hp.trim_eq ▸ hinode)
  rw [Prod.mk.injEq] at hendpoint'
  have hhost' := hp.cut?_endpoint.symm.trans (hendpoint'.1 ▸ hport)
  rw [Prod.mk.injEq] at hhost'
  rcases p with ⟨host', port', inode'⟩
  rw [mk.injEq]
  exact ⟨hhost'.1, hhost'.2, hendpoint'.2⟩

/-! ## Parts that stand for a spec -/

theorem mem_marked_of_rel {mark c : Char} {bits : Nat} {part : Option (List Char)} {n : Option Nat}
    (h : Option.Rel (IsNumeral bits) part n) (hc : c ∈ marked mark part) :
    c = mark ∨ c.isDigit ∨ c = '+' := by
  cases h with
  | none => exact absurd hc List.not_mem_nil
  | some h => exact (List.mem_cons.1 hc).imp_right (h.isDigit_or_eq c)

section

variable {p : SpecParts} {spec : SocketSpec} (h : p.Reads spec)
include h

theorem Reads.mem_host {c : Char} (hc : c ∈ p.host) : c.isDigit ∨ c = '.' := by
  rcases h.host with ⟨ip, _, hip⟩
  exact hip.isDigit_or_eq c hc

theorem Reads.mem_endpoint {c : Char} (hc : c ∈ p.endpoint) :
    c.isDigit ∨ c = '.' ∨ c = ':' ∨ c = '+' := by
  rcases List.mem_append.1 hc with hc | hc
  · have hhost := h.mem_host hc
    tauto
  · have hport := mem_marked_of_rel h.port hc
    tauto

theorem Reads.mem_text {c : Char} (hc : c ∈ p.text) :
    c.isDigit ∨ c = '.' ∨ c = ':' ∨ c = '+' ∨ c = '#' := by
  rcases List.mem_append.1 hc with hc | hc
  · have hendpoint := h.mem_endpoint hc
    tauto
  · have hinode := mem_marked_of_rel h.inode hc
    tauto

theorem Reads.isBlank_eq_false {c : Char} (hc : c ∈ p.text) : Text.isBlank c = false := by
  rcases h.mem_text hc with hdigit | rfl | rfl | rfl | rfl
  · exact Text.isBlank_of_isDigit hdigit
  all_goals rfl

/-- Parts that stand for a spec are those of the text they make, whatever blanks are around it. -/
theorem Reads.isCutFrom {s : String} {left right : List Char}
    (hs : s.toList = left ++ p.text ++ right) (hleft : AllBlank left) (hright : AllBlank right) :
    p.IsCutFrom s where
  blanks := ⟨left, right, hs, hleft, hright⟩
  trimmed := ⟨fun _ hc => h.isBlank_eq_false (List.mem_of_mem_head? hc),
    fun _ hc => h.isBlank_eq_false (List.mem_of_getLast? hc)⟩
  endpoint := fun hc => absurd (h.mem_endpoint hc) (by decide)
  host := fun hc => absurd (h.mem_host hc) (by decide)

end

end SpecParts

/-! ## Reading -/

namespace SocketSpec

open SpecParts

theorem parseTrimmed_of_reads {p : SpecParts} {s : String} {spec : SocketSpec}
    (h : p.IsCutFrom s) (hreads : p.Reads spec) : parseTrimmed p.text = .ok spec := by
  rcases spec with ⟨host, port, inode⟩
  rcases hreads.host with ⟨ip, rfl, hip⟩
  simp only [parseTrimmed, h.cut?_text, h.cut?_endpoint, readPart_of_rel hreads.inode,
    readPart_of_rel hreads.port, Ipv4.parse?_eq_some_iff.2 hip]
  cases port <;> cases inode <;> simp [bind, Except.bind, pure, Except.pure]

theorem parseTrimmed_of_blames {p : SpecParts} {s : String} {fault : SpecFault}
    (h : p.IsCutFrom s) (hblames : p.Blames fault) : parseTrimmed p.text = .error fault := by
  simp only [parseTrimmed, h.cut?_text, h.cut?_endpoint]
  cases hblames with
  | inode hinode =>
      rw [readPart_of_not_isNumericPart hinode]
      rfl
  | port hinode hport =>
      rcases hinode with ⟨inode, hinode⟩
      rw [readPart_of_rel hinode, readPart_of_not_isNumericPart hport]
      rfl
  | host hinode hport hhost =>
      rcases hinode with ⟨inode, hinode⟩
      rcases hport with ⟨port, hport⟩
      have hparse : Ipv4.parse? p.host = none :=
        Option.eq_none_iff_forall_ne_some.2 fun ip hip =>
          hhost ip (Ipv4.parse?_eq_some_iff.1 hip)
      rw [readPart_of_rel hinode, readPart_of_rel hport, hparse]
      rfl

theorem parse_of_reads {p : SpecParts} {s : String} {spec : SocketSpec} (h : p.IsCutFrom s)
    (hreads : p.Reads spec) : parse s = .ok spec := by
  rw [parse, h.trim_eq, parseTrimmed_of_reads h hreads]

theorem parse_of_blames {p : SpecParts} {s : String} {fault : SpecFault} (h : p.IsCutFrom s)
    (hblames : p.Blames fault) : parse s = .error ⟨s, fault⟩ := by
  rw [parse, h.trim_eq, parseTrimmed_of_blames h hblames]

/-- The parts of a text stand for a spec or are blamed, and either decides the result. -/
theorem parse_cases (s : String) :
    ∃ p : SpecParts, p.IsCutFrom s ∧
      ((∃ spec, p.Reads spec ∧ parse s = .ok spec) ∨
        ∃ fault, p.Blames fault ∧ parse s = .error ⟨s, fault⟩) := by
  rcases existsUnique_isCutFrom s with ⟨p, hp, _⟩
  refine ⟨p, hp, ?_⟩
  rcases exists_reads_or_blames p with ⟨spec, hreads⟩ | ⟨fault, hblames⟩
  · exact Or.inl ⟨spec, hreads, parse_of_reads hp hreads⟩
  · exact Or.inr ⟨fault, hblames, parse_of_blames hp hblames⟩

theorem parse_eq_ok_iff {s : String} {spec : SocketSpec} :
    parse s = .ok spec ↔ ∃ p : SpecParts, p.IsCutFrom s ∧ p.Reads spec := by
  constructor
  · intro h
    rcases parse_cases s with ⟨p, hp, ⟨spec', hreads, hparse⟩ | ⟨fault, _, hparse⟩⟩
    · cases h.symm.trans hparse
      exact ⟨p, hp, hreads⟩
    · cases h.symm.trans hparse
  · rintro ⟨p, hp, hreads⟩
    exact parse_of_reads hp hreads

theorem parse_eq_error_iff {s : String} {e : SpecError} :
    parse s = .error e ↔ e.spec = s ∧ ∃ p : SpecParts, p.IsCutFrom s ∧ p.Blames e.fault := by
  constructor
  · intro h
    rcases parse_cases s with ⟨p, hp, ⟨spec, _, hparse⟩ | ⟨fault, hblames, hparse⟩⟩
    · cases h.symm.trans hparse
    · cases h.symm.trans hparse
      exact ⟨rfl, p, hp, hblames⟩
  · rintro ⟨rfl, p, hp, hblames⟩
    exact parse_of_blames hp hblames

/-! ## Writing -/

/-- The parts of what is written for a spec with an address of version 4. -/
def parts (ip : Ipv4) (port : Option UInt16) (inode : Option UInt64) : SpecParts where
  host := ip.render.toList
  port := port.map fun port => Nat.toDigits 10 port.toNat
  inode := inode.map fun inode => Nat.toDigits 10 inode.toNat

theorem text_parts (ip : Ipv4) (port : Option UInt16) (inode : Option UInt64) :
    (parts ip port inode).text = (render ⟨.v4 ip, port, inode⟩).toList := by
  cases port <;> cases inode <;>
    simp [parts, text, SpecParts.endpoint, marked, render, IpAddress.render]

theorem reads_parts (ip : Ipv4) (port : Option UInt16) (inode : Option UInt64) :
    (parts ip port inode).Reads ⟨.v4 ip, port, inode⟩ where
  host := ⟨ip, rfl, by simpa only [parts] using Ipv4.isHost_render ip⟩
  port := by
    cases port with
    | none => exact .none
    | some port => exact .some (isNumeral_toDigits port.toNat_lt)
  inode := by
    cases inode with
    | none => exact .none
    | some inode => exact .some (isNumeral_toDigits inode.toNat_lt)

/-- A spec is read back from what is written for it, with any blanks around it. -/
theorem parse_of_toList_eq {s : String} {spec : SocketSpec} {ip : Ipv4} {left right : List Char}
    (hhost : spec.host = .v4 ip) (hs : s.toList = left ++ spec.render.toList ++ right)
    (hleft : AllBlank left) (hright : AllBlank right) : parse s = .ok spec := by
  rcases spec with ⟨host, port, inode⟩
  cases hhost
  rw [← text_parts] at hs
  have hreads := reads_parts ip port inode
  exact parse_of_reads (hreads.isCutFrom hs hleft hright) hreads

/-- Reading follows the grammar. A text has its parts in one way. It is a spec exactly if they stand
for it, and an error names the text and blames the part that is at fault. A spec that is read has an
identifier and an endpoint, both with its address and its port, zero for none, and the identifier
with the last 16 bits of its inode. A spec with an address of version 4 is read from what is written
for it, whatever blanks are around. -/
theorem parse_follows_grammar (s : String) :
    (∃! p : SpecParts, p.IsCutFrom s) ∧
    (∀ spec, parse s = .ok spec ↔ ∃ p : SpecParts, p.IsCutFrom s ∧ p.Reads spec) ∧
    (∀ e, parse s = .error e ↔
      e.spec = s ∧ ∃ p : SpecParts, p.IsCutFrom s ∧ p.Blames e.fault) ∧
    (∀ spec, parse s = .ok spec → ∃ ip id, spec.host = .v4 ip ∧ spec.id = .ok id ∧
      spec.endpoint = .ok ⟨ip, spec.port.getD 0⟩ ∧ id.address = ip ∧
      id.port = spec.port.getD 0 ∧ id.inode.toNat = (spec.inode.getD 0).toNat % 2 ^ 16) ∧
    ∀ spec ip left right, spec.host = .v4 ip → s.toList = left ++ spec.render.toList ++ right →
      AllBlank left → AllBlank right → parse s = .ok spec := by
  refine ⟨existsUnique_isCutFrom s, fun _ => parse_eq_ok_iff, fun _ => parse_eq_error_iff, ?_,
    fun _ _ _ _ => parse_of_toList_eq⟩
  intro spec hspec
  rcases parse_eq_ok_iff.1 hspec with ⟨p, _, hreads⟩
  rcases hreads.host with ⟨ip, hhost, _⟩
  have hid := id_eq_ok_iff.2 ⟨ip, hhost, rfl⟩
  refine ⟨ip, _, hhost, hid, ?_, ?_, ?_, ?_⟩
  · rw [endpoint_eq hid, SocketId.endpoint, SocketId.address_pack, SocketId.port_pack]
  · rw [SocketId.address_pack]
  · rw [SocketId.port_pack]
  · rw [SocketId.inode_pack, UInt64.toNat_toUInt16]

/-- A spec with blanks around it and an inode that an identifier does not hold in full, and a text
that has two parts at fault. -/
theorem parse_follows_grammar_blanks :
    let spec : SocketSpec := ⟨.v4 (.ofOctets 192 168 122 1), some 53, some 80828⟩
    (parse "\t192.168.122.1:53#80828 " = .ok spec ∧
      ∃ id, spec.id = .ok id ∧ id.port = 53 ∧ id.inode.toNat = 15292) ∧
    ∃ p : SpecParts, p.IsCutFrom "1.2.3.4:dns#x" ∧ p.Blames .inode := by
  intro spec
  have htab : AllBlank ['\t'] := List.forall_mem_singleton.2 rfl
  have hspace : AllBlank [' '] := List.forall_mem_singleton.2 rfl
  constructor
  · have h := parse_follows_grammar "\t192.168.122.1:53#80828 "
    have hparse := h.2.2.2.2 spec (.ofOctets 192 168 122 1) _ _ rfl (by decide +kernel)
      htab hspace
    rcases h.2.2.2.1 spec hparse with ⟨_, id, _, hid, _, _, hport, hinode⟩
    exact ⟨hparse, id, hid, hport, hinode.trans (by decide)⟩
  · have h := (parse_follows_grammar "1.2.3.4:dns#x").2.2.1 ⟨"1.2.3.4:dns#x", .inode⟩
    exact (h.1 (by decide +kernel)).2

end SocketSpec

end QueueWatch
