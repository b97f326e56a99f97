import QueueWatch.Proofs.Number.Hexadecimal
import QueueWatch.Proofs.Row.Text

/-!
# The column of the local address

The kernel prints an address as the word that it is in memory, in eight hexadecimal digits, and the
port in four more behind a colon (`IsAddressText`). Every text of this form stands for an endpoint,
and every endpoint has one such text, so reading the column loses nothing: the bytes that the digits
stand for are the octets of the address, the last one first (`IsAddressText.octets_eq`), and what is
read is printed as the bytes that were read (`IsAddressText.endpointText_eq`).

Two numbers with a colon between them are at fault for their shape, whatever the bytes are, or else
for the first byte that should be a digit and is none (`hexPair_eq`). Their widths are even and not
zero, so no other fault can come up.
-/

namespace QueueWatch

namespace SocketRow

/-- Two numbers with a colon between them are read if they have the shape that they should have and
hold digits only; otherwise the shape is at fault, or the first byte that is no digit. -/
theorem hexPair_eq {left right : Nat} (hleft : 0 < left ∧ left ≤ 8 ∧ left % 2 = 0)
    (hright : 0 < right ∧ right ≤ 8 ∧ right % 2 = 0) (bytes : List UInt8) :
    hexPair left right bytes =
      if bytes.length = left + 1 + right ∧ bytes[left]? = some 58 then
        match (bytes.take left ++ bytes.drop (left + 1)).find? (¬ HexCase.upper.IsDigit ·) with
        | some b => .error (.number (.invalidDigit b))
        | none => .ok ((HexCase.upper.value (bytes.take left)).toUInt64,
            (HexCase.upper.value (bytes.drop (left + 1))).toUInt64)
      else .error .malformed := by
  rw [hexPair, splitPair?]
  by_cases hshape : bytes.length = left + 1 + right ∧ bytes[left]? = some 58
  · have htake : (bytes.take left).length = left := by
      rw [List.length_take]
      omega
    have hdrop : (bytes.drop (left + 1)).length = right := by
      rw [List.length_drop]
      omega
    simp only [if_pos hshape, List.find?_append]
    rw [decodeHex_eq .upper (by omega) (by omega) (by omega)]
    cases hfirst : (bytes.take left).find? (¬ HexCase.upper.IsDigit ·) with
    | some b => simp
    | none =>
        simp only [Option.none_or]
        rw [decodeHex_eq .upper (by omega) (by omega) (by omega)]
        cases (bytes.drop (left + 1)).find? (¬ HexCase.upper.IsDigit ·) <;> rfl
  · simp only [if_neg hshape]

/-- What is read of a number fits into its width. -/
theorem hexPair_lt {left right : Nat} (hleft : 0 < left ∧ left ≤ 8 ∧ left % 2 = 0)
    (hright : 0 < right ∧ right ≤ 8 ∧ right % 2 = 0) {bytes : List UInt8}
    {first second : UInt64} (h : hexPair left right bytes = .ok (first, second)) :
    first.toNat < 16 ^ left ∧ second.toNat < 16 ^ right := by
  rw [hexPair_eq hleft hright] at h
  split at h
  · next hshape =>
      split at h
      · cases h
      · next hnone =>
          rw [List.find?_eq_none, List.forall_mem_append] at hnone
          simp only [not_not, decide_eq_true_eq] at hnone
          cases h
          have hfirst := HexCase.value_lt hnone.1
          have hsecond := HexCase.value_lt hnone.2
          rw [List.length_take, Nat.min_eq_left (by omega)] at hfirst
          rw [List.length_drop, hshape.1, Nat.add_sub_cancel_left] at hsecond
          exact ⟨(Nat.mod_le _ _).trans_lt hfirst, (Nat.mod_le _ _).trans_lt hsecond⟩
  · cases h

/-! ## The text of a local address -/

/-- A local address as it is printed: eight digits, a colon, and four digits. -/
structure IsAddressText (bytes : List UInt8) : Prop where
  length_eq : bytes.length = 13
  word_digits : ∀ b ∈ bytes.take 8, HexCase.upper.IsDigit b
  colon : bytes[8]? = some 58
  port_digits : ∀ b ∈ bytes.drop 9, HexCase.upper.IsDigit b

/-- The first byte that stands where a local address has a digit and that is none. -/
def noDigit? (bytes : List UInt8) : Option UInt8 :=
  (bytes.take 8 ++ bytes.drop 9).find? (¬ HexCase.upper.IsDigit ·)

/-- The identifier that the digits of a local address say. -/
def readAddress (bytes : List UInt8) : SocketId :=
  .ofKernelWord (HexCase.upper.value (bytes.take 8)).toUInt32
    (HexCase.upper.value (bytes.drop 9)).toUInt16

section

variable {bytes : List UInt8}

theorem isAddressText_iff :
    IsAddressText bytes ↔
      (bytes.length = 13 ∧ bytes[8]? = some 58) ∧ noDigit? bytes = none := by
  have hdigits : noDigit? bytes = none ↔
      (∀ b ∈ bytes.take 8, HexCase.upper.IsDigit b) ∧
        ∀ b ∈ bytes.drop 9, HexCase.upper.IsDigit b := by
    rw [noDigit?, List.find?_eq_none, List.forall_mem_append]
    simp only [not_not, decide_eq_true_eq]
  rw [hdigits]
  exact ⟨fun h => ⟨⟨h.length_eq, h.colon⟩, h.word_digits, h.port_digits⟩,
    fun h => ⟨h.1.1, h.2.1, h.1.2, h.2.2⟩⟩

theorem decodeLocalAddress_eq (bytes : List UInt8) :
    decodeLocalAddress bytes =
      if bytes.length = 13 ∧ bytes[8]? = some 58 then
        match noDigit? bytes with
        | some b => .error (.number (.invalidDigit b))
        | none => .ok (readAddress bytes)
      else .error .malformed := by
  rw [decodeLocalAddress, hexPair_eq (by decide) (by decide), noDigit?]
  split
  · cases (bytes.take 8 ++ bytes.drop 9).find? (¬ HexCase.upper.IsDigit ·) with
    | some b => rfl
    | none => simp [Except.map, readAddress]
  · rfl

theorem decodeLocalAddress_eq_ok_iff {id : SocketId} :
    decodeLocalAddress bytes = .ok id ↔ IsAddressText bytes ∧ readAddress bytes = id := by
  rw [decodeLocalAddress_eq, isAddressText_iff, and_assoc]
  by_cases hshape : bytes.length = 13 ∧ bytes[8]? = some 58
  · rw [if_pos hshape, and_iff_right hshape]
    cases noDigit? bytes <;> simp
  · simp [hshape]

theorem decodeLocalAddress_eq_malformed_iff :
    decodeLocalAddress bytes = .error .malformed ↔
      bytes.length ≠ 13 ∨ bytes[8]? ≠ some 58 := by
  rw [decodeLocalAddress_eq, ← not_and_or]
  by_cases hshape : bytes.length = 13 ∧ bytes[8]? = some 58
  · rw [if_pos hshape, iff_false_right (not_not_intro hshape)]
    cases noDigit? bytes <;> simp
  · simp [hshape]

theorem decodeLocalAddress_eq_number_iff {cause : NumberError} :
    decodeLocalAddress bytes = .error (.number cause) ↔
      (bytes.length = 13 ∧ bytes[8]? = some 58) ∧
        ∃ b, noDigit? bytes = some b ∧ cause = .invalidDigit b := by
  rw [decodeLocalAddress_eq]
  by_cases hshape : bytes.length = 13 ∧ bytes[8]? = some 58
  · rw [if_pos hshape, and_iff_right hshape]
    cases noDigit? bytes <;> simp [eq_comm]
  · simp [hshape]

/-- The numbers of a local address fit into its word and its port. -/
theorem narrow_eq {word port : UInt64} (h : hexPair 8 4 bytes = .ok (word, port)) :
    word.toUInt32.toUInt64 = word ∧ port.toUInt16.toUInt64 = port := by
  obtain ⟨hword, hport⟩ := hexPair_lt (by decide) (by decide) h
  constructor
  · apply UInt64.toNat_inj.1
    rw [UInt32.toNat_toUInt64, UInt64.toNat_toUInt32, Nat.mod_eq_of_lt hword]
  · apply UInt64.toNat_inj.1
    rw [UInt16.toNat_toUInt64, UInt64.toNat_toUInt16, Nat.mod_eq_of_lt hport]

namespace IsAddressText

variable (h : IsAddressText bytes)
include h

theorem length_word : (bytes.take 8).length = 8 := by
  rw [List.length_take, h.length_eq]
  rfl

theorem length_port : (bytes.drop 9).length = 4 := by
  rw [List.length_drop, h.length_eq]

theorem eq_append : bytes.take 8 ++ 58 :: bytes.drop 9 = bytes := by
  obtain ⟨hlt, hcolon⟩ := List.getElem?_eq_some_iff.1 h.colon
  rw [← hcolon, ← List.drop_eq_getElem_cons hlt, List.take_append_drop]

theorem kernelWord_eq :
    (readAddress bytes).address.kernelWord = HexCase.upper.value (bytes.take 8) := by
  have hlt := HexCase.value_lt h.word_digits
  rw [h.length_word] at hlt
  rw [readAddress, SocketId.ofKernelWord, SocketId.address_pack, Ipv4.kernelWord_ofKernelWord]
  exact Nat.mod_eq_of_lt hlt

theorem port_eq :
    (readAddress bytes).port.toNat = HexCase.upper.value (bytes.drop 9) := by
  have hlt := HexCase.value_lt h.port_digits
  rw [h.length_port] at hlt
  rw [readAddress, SocketId.ofKernelWord, SocketId.port_pack]
  exact Nat.mod_eq_of_lt hlt

/-- The octets are the bytes in print, the last one first. -/
theorem octets_eq :
    (readAddress bytes).address.octets.map UInt8.toNat =
      (HexCase.upper.encodedBytes (bytes.take 8)).reverse := by
  have heven : (bytes.take 8).length % 2 = 0 := by rw [h.length_word]
  have hpairs := HexCase.upper.two_mul_length_encodedBytes heven
  have hword := h.kernelWord_eq
  rw [HexCase.upper.value_eq_ofDigits heven, Ipv4.kernelWord] at hword
  -- both are the digits of the word to the base 256, and there are four of them
  refine Nat.ofDigits_inj_of_len_eq (by decide) ?_ ?_ ?_ hword
  · rw [h.length_word] at hpairs
    rw [List.length_reverse, List.length_map]
    change 4 = _
    omega
  · intro n hn
    rcases List.mem_map.1 hn with ⟨octet, -, rfl⟩
    exact octet.toNat_lt
  · intro n hn
    exact HexCase.encodedBytes_lt h.word_digits n (List.mem_reverse.1 hn)

/-- What is read is printed as the bytes that were read. -/
theorem endpointText_eq : endpointText (readAddress bytes).endpoint = bytes := by
  have hword := HexCase.text_value h.word_digits
  have hport := HexCase.text_value h.port_digits
  rw [h.length_word] at hword
  rw [h.length_port] at hport
  change pairText 8 4 (readAddress bytes).address.kernelWord (readAddress bytes).port.toNat = bytes
  rw [pairText, h.kernelWord_eq, h.port_eq, hword, hport, h.eq_append]

end IsAddressText

/-- A decoder at the column of the local address stores what is read there, or says what is wrong
with it and where. -/
theorem readColumn_localAddress (protocol : Protocol) (d : RowDecoder SocketRow) :
    RowDecoder.readColumn { d with format := protocol.format, column := 1, skips := false } bytes =
      match decodeLocalAddress bytes with
      | .ok id => .ok { d.record with id }
      | .error .malformed => .error (.malformedColumn d.line .localAddress bytes)
      | .error (.number cause) => .error (.invalidNumber d.line .localAddress cause) := by
  have hreader : protocol.format.reader 1 = some
      { column := .localAddress
        read := fun row bytes => (decodeLocalAddress bytes).map fun id => { row with id } } := by
    cases protocol <;> rfl
  simp only [RowDecoder.readColumn, Bool.false_eq_true, if_false, hreader]
  cases decodeLocalAddress bytes with
  | ok id => rfl
  | error fault => cases fault <;> rfl

end

/-- What the column of the local address is read as, for all bytes. It is read exactly if there are
13 bytes, eight digits, a colon and four digits. Otherwise the shape is at fault if there are not 13
bytes or no colon in its place, and if it is not, the first byte that should be a digit and is none.
The numbers that are read fit into the address and the port. So the octets are the bytes in print,
the last one first, the port is the one in print, there are no bits of an inode, and printing the
endpoint gives back the bytes; and every endpoint is read back from its print. A decoder at this
column says the same, and names row, column and bytes in an error. -/
theorem decodeLocalAddress_answers (bytes : List UInt8) :
    ((∃ id, decodeLocalAddress bytes = .ok id) ↔ IsAddressText bytes) ∧
    (decodeLocalAddress bytes = .error .malformed ↔
      bytes.length ≠ 13 ∨ bytes[8]? ≠ some 58) ∧
    (∀ cause, decodeLocalAddress bytes = .error (.number cause) ↔
      (bytes.length = 13 ∧ bytes[8]? = some 58) ∧
        ∃ b, noDigit? bytes = some b ∧ cause = .invalidDigit b) ∧
    (∀ word port, hexPair 8 4 bytes = .ok (word, port) →
      word.toUInt32.toUInt64 = word ∧ port.toUInt16.toUInt64 = port) ∧
    (∀ id, decodeLocalAddress bytes = .ok id →
      id.inode = 0 ∧
        id.address.octets.map UInt8.toNat =
          (HexCase.upper.encodedBytes (bytes.take 8)).reverse ∧
        id.port.toNat = HexCase.upper.value (bytes.drop 9) ∧
        endpointText id.endpoint = bytes) ∧
    (∀ e, decodeLocalAddress (endpointText e) = .ok (.ofEndpoint e)) ∧
    ∀ (protocol : Protocol) (d : RowDecoder SocketRow),
      RowDecoder.readColumn { d with format := protocol.format, column := 1, skips := false }
          bytes =
        match decodeLocalAddress bytes with
        | .ok id => .ok { d.record with id }
        | .error .malformed => .error (.malformedColumn d.line .localAddress bytes)
        | .error (.number cause) => .error (.invalidNumber d.line .localAddress cause) := by
  refine ⟨?_, decodeLocalAddress_eq_malformed_iff, fun _ => decodeLocalAddress_eq_number_iff,
    fun _ _ => narrow_eq, ?_, decodeLocalAddress_text, readColumn_localAddress⟩
  · simp [decodeLocalAddress_eq_ok_iff]
  · intro id hid
    obtain ⟨h, rfl⟩ := decodeLocalAddress_eq_ok_iff.1 hid
    exact ⟨inode_decodeLocalAddress hid, h.octets_eq, h.port_eq, h.endpointText_eq⟩

/-- The name server of a local network, as it is printed: its octets stand in the digits from the
right to the left. -/
theorem decodeLocalAddress_answers_nameServer :
    let bytes := Text.Utf8.encode "017AA8C0:0035"
    let id := SocketId.ofEndpoint ⟨.ofOctets 192 168 122 1, 53⟩
    hexPair 8 4 bytes = .ok (0x017aa8c0, 0x35) ∧ decodeLocalAddress bytes = .ok id ∧
      (0x017aa8c0 : UInt64).toUInt32.toUInt64 = 0x017aa8c0 ∧
      (0x35 : UInt64).toUInt16.toUInt64 = 0x35 ∧
      id.inode = 0 ∧
      id.address.octets.map UInt8.toNat =
        (HexCase.upper.encodedBytes (bytes.take 8)).reverse ∧
      id.port.toNat = HexCase.upper.value (bytes.drop 9) ∧ endpointText id.endpoint = bytes := by
  intro bytes id
  have hpair : hexPair 8 4 bytes = .ok (0x017aa8c0, 0x35) := by decide +kernel
  have hid : decodeLocalAddress bytes = .ok id := by decide +kernel
  obtain ⟨-, -, -, hnarrow, hread, -⟩ := decodeLocalAddress_answers bytes
  exact ⟨hpair, hid, (hnarrow _ _ hpair).1, (hnarrow _ _ hpair).2, hread id hid⟩

end SocketRow

end QueueWatch
