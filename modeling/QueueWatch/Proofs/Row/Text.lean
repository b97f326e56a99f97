import Mathlib.Data.Nat.Digits.Defs
import QueueWatch.Proofs.Number.Printed
import QueueWatch.Proofs.Row.Grammar

/-!
# Columns as text

The kernel prints an address as the word that it is in memory, so its first octet is the lowest byte
(`Ipv4.kernelWord`), and it joins two numbers of one column by a colon. The readers of these columns
undo that: `SocketRow.hexPair_text`, `SocketRow.decodeLocalAddress_text`.

Columns stand in a line with spaces around them (`SetOut`). Cutting the line at spaces gives exactly
these columns back, and every line is set out in this way (`SetOut.columnsOf_eq`,
`setOut_columnsOf`).
-/

namespace QueueWatch

/-! ## Addresses and pairs of numbers -/

/-- The address as the kernel prints it: the word whose lowest byte is the first octet. -/
def Ipv4.kernelWord (ip : Ipv4) : Nat :=
  Nat.ofDigits 256 (ip.octets.map UInt8.toNat)

theorem Ipv4.kernelWord_eq (ip : Ipv4) :
    ip.kernelWord = (ip.octet 3).toNat + 256 * (ip.octet 2).toNat + 256 ^ 2 * (ip.octet 1).toNat +
      256 ^ 3 * (ip.octet 0).toNat := by
  simp only [kernelWord, octets, List.map_cons, List.map_nil, Nat.ofDigits_cons, Nat.ofDigits_nil]
  omega

theorem Ipv4.kernelWord_lt (ip : Ipv4) : ip.kernelWord < 2 ^ 32 := by
  have h3 := (ip.octet 3).toNat_lt
  have h2 := (ip.octet 2).toNat_lt
  have h1 := (ip.octet 1).toNat_lt
  have h0 := (ip.octet 0).toNat_lt
  rw [kernelWord_eq]
  omega

theorem Ipv4.ofKernelWord_kernelWord (ip : Ipv4) : ofKernelWord ip.kernelWord.toUInt32 = ip := by
  have hword : ip.kernelWord.toUInt32.toNat = ip.kernelWord := Nat.mod_eq_of_lt ip.kernelWord_lt
  have h3 := (ip.octet 3).toNat_lt
  have h2 := (ip.octet 2).toNat_lt
  have h1 := (ip.octet 1).toNat_lt
  have h0 := (ip.octet 0).toNat_lt
  have hoctet : ∀ places < 4, (⟨ip.kernelWord.toUInt32⟩ : Ipv4).octet places =
      ip.octet (3 - places) := by
    intro places hplaces
    apply UInt8.toNat_inj.1
    rw [octet, UInt8.toNat_ofNat', hword, kernelWord_eq]
    interval_cases places <;> simp only [Nat.reduceMul, Nat.reducePow, Nat.reduceSub] <;> omega
  rw [ofKernelWord, hoctet 0 (by omega), hoctet 1 (by omega), hoctet 2 (by omega),
    hoctet 3 (by omega)]
  exact ofOctets_octet ip

theorem Ipv4.kernelWord_ofKernelWord (w : UInt32) : (ofKernelWord w).kernelWord = w.toNat := by
  have := w.toNat_lt
  rw [kernelWord, octets_ofKernelWord]
  simp only [octets, octet, List.reverse_cons, List.reverse_nil, List.nil_append,
    List.cons_append, List.map_cons, List.map_nil, Nat.ofDigits_cons, Nat.ofDigits_nil,
    UInt8.toNat_ofNat']
  omega

namespace SocketRow

theorem splitPair?_append {left right : Nat} {first second : List UInt8}
    (hfirst : first.length = left) (hsecond : second.length = right) :
    splitPair? left right (first ++ 58 :: second) = some (first, second) := by
  subst hfirst hsecond
  have hlength : (first ++ 58 :: second).length = first.length + 1 + second.length := by
    rw [List.length_append, List.length_cons, Nat.add_assoc, Nat.add_comm 1]
  have hcolon : (first ++ 58 :: second)[first.length]? = some 58 := by simp
  have hbehind : (first ++ 58 :: second).drop (first.length + 1) = second := by simp
  rw [splitPair?, if_pos ⟨hlength, hcolon⟩, List.take_left, hbehind]

/-- Two numbers in upper-case hexadecimal, each with its width, and a colon between them. -/
def pairText (left right m n : Nat) : List UInt8 :=
  HexCase.upper.text left m ++ 58 :: HexCase.upper.text right n

theorem hexPair_text {left right m n : Nat} (hleft : 0 < left ∧ left ≤ 8 ∧ left % 2 = 0)
    (hright : 0 < right ∧ right ≤ 8 ∧ right % 2 = 0) (hm : m < 16 ^ left) (hn : n < 16 ^ right) :
    hexPair left right (pairText left right m n) = .ok (m.toUInt64, n.toUInt64) := by
  rw [hexPair, pairText, splitPair?_append (HexCase.length_text ..) (HexCase.length_text ..)]
  simp only [decodeHex_text _ hleft.1 hleft.2.1 hleft.2.2 hm,
    decodeHex_text _ hright.1 hright.2.1 hright.2.2 hn]

/-- An endpoint as the tables of sockets have it. -/
def endpointText (e : Endpoint) : List UInt8 :=
  pairText 8 4 e.address.kernelWord e.port.toNat

theorem decodeLocalAddress_text (e : Endpoint) :
    decodeLocalAddress (endpointText e) = .ok (.ofEndpoint e) := by
  have hword : e.address.kernelWord.toUInt64.toUInt32 = e.address.kernelWord.toUInt32 := by simp
  have hport : e.port.toNat.toUInt64.toUInt16 = e.port := by simp
  have hpair : hexPair 8 4 (pairText 8 4 e.address.kernelWord e.port.toNat) =
      .ok (e.address.kernelWord.toUInt64, e.port.toNat.toUInt64) :=
    hexPair_text (by decide) (by decide) e.address.kernelWord_lt e.port.toNat_lt
  rw [decodeLocalAddress, endpointText, hpair]
  simp only [Except.map, hword, hport]
  rw [SocketId.ofKernelWord, Ipv4.ofKernelWord_kernelWord, SocketId.ofEndpoint]

end SocketRow

/-! ## Columns with spaces around them -/

/-- The line holds the columns in order, with any number of spaces before the first and behind the
last, and with one or more between two of them. -/
inductive SetOut : List (List UInt8) → List UInt8 → Prop
  | nil : SetOut [] []
  | space {columns line} (h : SetOut columns line) : SetOut columns (32 :: line)
  | last {column} (hne : column ≠ []) (hfree : 32 ∉ column) : SetOut [column] column
  | cons {column columns line} (hne : column ≠ []) (hfree : 32 ∉ column)
      (h : SetOut columns line) : SetOut (column :: columns) (column ++ 32 :: line)

theorem tokenOf_of_ne {piece : List UInt8} (h : piece ≠ []) : tokenOf piece = [piece] := by
  simp [tokenOf, h]

theorem SetOut.columnsOf_eq {columns : List (List UInt8)} {line : List UInt8}
    (h : SetOut columns line) : columnsOf line = columns := by
  induction h with
  | nil => rfl
  | space _ ih =>
      rw [columnsOf, ← List.nil_append (32 :: _), tokens_append_cons List.not_mem_nil]
      exact ih
  | last hne hfree => rw [columnsOf, tokens_of_not_mem hfree, tokenOf_of_ne hne]
  | cons hne hfree _ ih =>
      rw [columnsOf, tokens_append_cons hfree, tokenOf_of_ne hne, List.singleton_append]
      exact congrArg _ ih

/-- Every line is its columns with spaces around them. -/
theorem setOut_columnsOf (line : List UInt8) : SetOut (columnsOf line) line := by
  induction line using induction_on_pieces (32 : UInt8) with
  | last piece hfree =>
      rw [columnsOf, tokens_of_not_mem hfree]
      by_cases hne : piece = []
      · subst hne
        exact .nil
      · rw [tokenOf_of_ne hne]
        exact .last hne hfree
  | step piece rest hfree ih =>
      rw [columnsOf, tokens_append_cons hfree]
      by_cases hne : piece = []
      · subst hne
        exact .space ih
      · rw [tokenOf_of_ne hne]
        exact .cons hne hfree ih

theorem SetOut.mem {columns : List (List UInt8)} {line : List UInt8} (h : SetOut columns line)
    {b : UInt8} (hb : b ∈ line) : b = 32 ∨ ∃ column ∈ columns, b ∈ column := by
  induction h with
  | nil => cases hb
  | space _ ih =>
      rcases List.mem_cons.1 hb with rfl | hb
      · exact .inl rfl
      · exact ih hb
  | last hne hfree => exact .inr ⟨_, List.mem_singleton_self _, hb⟩
  | cons hne hfree _ ih =>
      rcases List.mem_append.1 hb with hb | hb
      · exact .inr ⟨_, List.mem_cons_self, hb⟩
      · rcases List.mem_cons.1 hb with rfl | hb
        · exact .inl rfl
        · rcases ih hb with hspace | ⟨column, hcolumn, hb⟩
          · exact .inl hspace
          · exact .inr ⟨column, List.mem_cons_of_mem _ hcolumn, hb⟩

/-- A column of digits, letters and colons. -/
def Solid (column : List UInt8) : Prop :=
  column ≠ [] ∧ ∀ b ∈ column, 48 ≤ b

theorem Solid.not_mem {column : List UInt8} (h : Solid column) {b : UInt8} (hb : b < 48) :
    b ∉ column :=
  fun hmem => absurd (h.2 b hmem) (UInt8.not_le.2 hb)

theorem solid_hex (case : HexCase) {width : Nat} (hwidth : 0 < width) (n : Nat) :
    Solid (case.text width n) := by
  refine ⟨List.ne_nil_of_length_pos ?_, fun b hb => HexCase.le_of_mem_text hb⟩
  rw [case.length_text]
  exact hwidth

theorem solid_decimal (n : Nat) : Solid (decimalText n) :=
  ⟨decimalText_ne_nil n, fun _ hb => (decimal_of_mem_text hb).1⟩

theorem solid_pair {left right : Nat} (hleft : 0 < left) (hright : 0 < right) (m n : Nat) :
    Solid (SocketRow.pairText left right m n) := by
  refine ⟨by simp [SocketRow.pairText], fun b hb => ?_⟩
  rcases List.mem_append.1 hb with hb | hb
  · exact (solid_hex .upper hleft m).2 b hb
  · rcases List.mem_cons.1 hb with rfl | hb
    · decide
    · exact (solid_hex .upper hright n).2 b hb

theorem exists_setOut {columns : List (List UInt8)} (h : ∀ column ∈ columns, Solid column) :
    ∃ line, SetOut columns line ∧ ∀ first ∈ columns.head?, first <+: line := by
  induction columns with
  | nil => exact ⟨[], .nil, fun _ hfirst => nomatch hfirst⟩
  | cons first rest ih =>
      rcases List.forall_mem_cons.1 h with ⟨hfirst, hrest⟩
      rcases ih hrest with ⟨line, hline, -⟩
      refine ⟨first ++ 32 :: line, .cons hfirst.1 (hfirst.not_mem (by decide)) hline, ?_⟩
      rintro _ ⟨⟩
      exact List.prefix_append ..

end QueueWatch
