import Mathlib.Data.List.TakeWhile
import QueueWatch.Proofs.Row.Tables
import QueueWatch.Proofs.Row.Text

/-!
# Tables as the kernel prints them

A table in print has one line for each entry, with the entry in the columns that are needed and
anything in the others, and lines without data between them: blank ones, headers, and what belongs
to other protocols (`Table.Prints`). However it is set out, decoding it gives back the entries, in
order and nothing else (`Table.decodeRows_undoes_printing`).

A table in print has no fault, and its lines with data hold its entries
(`Table.Prints.each_line`). So the proof is about one line at a time, and what the decoder does with
it is left to its grammar.
-/

namespace QueueWatch

open RowDecoder

/-! ## Tables -/

/-- What the row of a socket is printed from. Drops are printed only in the table of UDP sockets. -/
structure SocketEntry where
  endpoint : Endpoint
  transmitQueue : UInt32
  receiveQueue : UInt32
  inode : UInt64
  drops : UInt64
  deriving DecidableEq, Repr

/-- What the row of a CPU is printed from. -/
structure SoftnetEntry where
  processed : UInt32
  dropped : UInt32
  timeSqueeze : UInt32
  deriving DecidableEq, Repr

namespace Table

/-- What a row of the table is printed from. -/
abbrev Entry : Table → Type
  | .tcp => SocketEntry
  | .udp => SocketEntry
  | .softnet => SoftnetEntry
  | .snmp => SnmpRow

/-- The record of an entry. -/
def rowOf : (k : Table) → k.Entry → k.Record
  | .tcp, e =>
      ⟨.ofEndpoint e.endpoint, e.transmitQueue.toUInt64, e.receiveQueue.toUInt64, e.inode, none⟩
  | .udp, e =>
      ⟨.ofEndpoint e.endpoint, e.transmitQueue.toUInt64, e.receiveQueue.toUInt64, e.inode,
        some e.drops⟩
  | .softnet, e => ⟨e.processed.toUInt64, e.dropped.toUInt64, e.timeSqueeze.toUInt64⟩
  | .snmp, row => row

end Table

/-- The columns of a socket that both tables have. -/
def SocketEntry.texts (e : SocketEntry) : List (Nat × List UInt8) :=
  [(1, SocketRow.endpointText e.endpoint),
    (4, SocketRow.pairText 8 8 e.transmitQueue.toNat e.receiveQueue.toNat),
    (9, decimalText e.inode.toNat)]

namespace Table

/-- The columns in which an entry is printed, by their index. The others can hold anything. -/
def texts : (k : Table) → k.Entry → List (Nat × List UInt8)
  | .tcp, e => e.texts
  | .udp, e => e.texts ++ [(12, decimalText e.drops.toNat)]
  | .softnet, e =>
      [(0, HexCase.lower.text 8 e.processed.toNat), (1, HexCase.lower.text 8 e.dropped.toNat),
        (2, HexCase.lower.text 8 e.timeSqueeze.toNat)]
  | .snmp, row =>
      [(3, decimalText row.inErrors.toNat), (5, decimalText row.receiveBufferErrors.toNat),
        (7, decimalText row.checksumErrors.toNat)]

/-- How a line with data begins. A socket's first column does not begin with `sl`, and a line of UDP
counters begins with `Udp:`, which only decimal numbers follow. -/
def Begins : Table → List (List UInt8) → List UInt8 → Prop
  | .tcp, columns, _ | .udp, columns, _ => ∀ first ∈ columns.head?, ¬ [115, 108] <+: first
  | .softnet, _, _ => True
  | .snmp, columns, line =>
      SnmpRow.udpLabel <+: line ∧
        ∃ numbers : List Nat, columns = SnmpRow.udpLabel :: numbers.map decimalText

/-- The line is an entry in print. -/
structure IsPrinted (k : Table) (e : k.Entry) (columns : List (List UInt8)) (line : List UInt8) :
    Prop where
  setOut : SetOut columns line
  noNewline : ∀ column ∈ columns, 10 ∉ column
  texts : ∀ p ∈ k.texts e, columns[p.1]? = some p.2
  begins : k.Begins columns line

/-- The lines without data that stand between the others: blank ones, headers of sockets, and lines
of other protocols as well as the header of UDP. -/
def IsFiller : Table → List UInt8 → Prop
  | .tcp, line | .udp, line =>
      10 ∉ line ∧
        (SetOut [] line ∨ ∃ first rest, SetOut (first :: rest) line ∧ [115, 108] <+: first)
  | .softnet, line => SetOut [] line
  | .snmp, line => 10 ∉ line ∧ (¬ SnmpRow.udpLabel <+: line ∨ SnmpRow.udpHeader <+: line)

/-- The lines are a table with the given entries. -/
inductive Prints (k : Table) : List k.Entry → List (List UInt8) → Prop
  | nil : Prints k [] []
  | filler {entries lines line} (hline : k.IsFiller line) (h : Prints k entries lines) :
      Prints k entries (line :: lines)
  | entry {entries lines e columns line} (hline : k.IsPrinted e columns line)
      (h : Prints k entries lines) : Prints k (e :: entries) (line :: lines)

end Table

/-! ## What is read of an entry -/

namespace SocketEntry

variable {e : SocketEntry} {columns : List (List UInt8)}

theorem hexPair_queues (e : SocketEntry) :
    SocketRow.hexPair 8 8
        (SocketRow.pairText 8 8 e.transmitQueue.toNat e.receiveQueue.toNat) =
      .ok (e.transmitQueue.toUInt64, e.receiveQueue.toUInt64) := by
  have htransmit : e.transmitQueue.toNat.toUInt64 = e.transmitQueue.toUInt64 := by simp
  have hreceive : e.receiveQueue.toNat.toUInt64 = e.receiveQueue.toUInt64 := by simp
  rw [SocketRow.hexPair_text (by decide) (by decide) e.transmitQueue.toNat_lt
    e.receiveQueue.toNat_lt, htransmit, hreceive]

theorem read_localAddress
    (h : columns[1]? = some (SocketRow.endpointText e.endpoint)) :
    SocketRow.localAddressColumn.fault? columns = none ∧
      ∀ row, SocketRow.localAddressColumn.store columns row =
        { row with id := .ofEndpoint e.endpoint } :=
  NeededColumn.ofValue_of_ok h (SocketRow.decodeLocalAddress_text e.endpoint)

theorem read_queues
    (h : columns[4]? =
      some (SocketRow.pairText 8 8 e.transmitQueue.toNat e.receiveQueue.toNat)) :
    SocketRow.queuesColumn.fault? columns = none ∧
      ∀ row, SocketRow.queuesColumn.store columns row =
        { row with
          transmitQueue := e.transmitQueue.toUInt64
          receiveQueue := e.receiveQueue.toUInt64 } :=
  NeededColumn.ofValue_of_ok h e.hexPair_queues

theorem read_inode (h : columns[9]? = some (decimalText e.inode.toNat)) :
    SocketRow.inodeColumn.fault? columns = none ∧
      ∀ row, SocketRow.inodeColumn.store columns row = { row with inode := e.inode } :=
  NeededColumn.ofNumber_of_ok h (decodeDecimal_text e.inode)

theorem read_drops (h : columns[12]? = some (decimalText e.drops.toNat)) :
    SocketRow.dropsColumn.fault? columns = none ∧
      ∀ row, SocketRow.dropsColumn.store columns row = { row with drops := some e.drops } :=
  NeededColumn.ofNumber_of_ok h (decodeDecimal_text e.drops)

end SocketEntry

namespace Table

/-- The columns hold an entry: they are sound and enough, and its record is read from them. -/
def Holds (k : Table) (e : k.Entry) (columns : List (List UInt8)) : Prop :=
  (∀ c ∈ k.grammar.needed, c.fault? columns = none) ∧
    NeededColumn.storeAll k.grammar.needed columns k.grammar.blank = k.rowOf e ∧
    k.grammar.required ≤ columns.length

theorem holds_tcp {e : SocketEntry} {columns : List (List UInt8)}
    (h : ∀ p ∈ texts .tcp e, columns[p.1]? = some p.2) : Holds .tcp e columns := by
  simp only [texts, SocketEntry.texts, List.forall_mem_cons] at h
  rcases h with ⟨hendpoint, hqueues, hinode, -⟩
  rcases SocketEntry.read_localAddress hendpoint with ⟨hsoundId, hstoreId⟩
  rcases SocketEntry.read_queues hqueues with ⟨hsoundQueues, hstoreQueues⟩
  rcases SocketEntry.read_inode hinode with ⟨hsoundInode, hstoreInode⟩
  refine ⟨?_, ?_, (List.getElem?_eq_some_iff.1 hinode).1⟩
  · simp [grammar, hsoundId, hsoundQueues, hsoundInode]
  · simp [grammar, NeededColumn.storeAll, hstoreId, hstoreQueues, hstoreInode, rowOf]

theorem holds_udp {e : SocketEntry} {columns : List (List UInt8)}
    (h : ∀ p ∈ texts .udp e, columns[p.1]? = some p.2) : Holds .udp e columns := by
  simp only [texts, SocketEntry.texts, List.cons_append, List.nil_append,
    List.forall_mem_cons] at h
  rcases h with ⟨hendpoint, hqueues, hinode, hdrops, -⟩
  rcases SocketEntry.read_localAddress hendpoint with ⟨hsoundId, hstoreId⟩
  rcases SocketEntry.read_queues hqueues with ⟨hsoundQueues, hstoreQueues⟩
  rcases SocketEntry.read_inode hinode with ⟨hsoundInode, hstoreInode⟩
  rcases SocketEntry.read_drops hdrops with ⟨hsoundDrops, hstoreDrops⟩
  refine ⟨?_, ?_, (List.getElem?_eq_some_iff.1 hdrops).1⟩
  · simp [grammar, hsoundId, hsoundQueues, hsoundInode, hsoundDrops]
  · simp [grammar, NeededColumn.storeAll, hstoreId, hstoreQueues, hstoreInode, hstoreDrops, rowOf]

theorem decodeHex_softnet (x : UInt32) :
    decodeHex .lower (HexCase.lower.text 8 x.toNat) = .ok x.toUInt64 := by
  have hvalue : x.toNat.toUInt64 = x.toUInt64 := by simp
  rw [decodeHex_text .lower (by decide) (by decide) (by decide) x.toNat_lt, hvalue]

theorem holds_softnet {e : SoftnetEntry} {columns : List (List UInt8)}
    (h : ∀ p ∈ texts .softnet e, columns[p.1]? = some p.2) : Holds .softnet e columns := by
  simp only [texts, List.forall_mem_cons] at h
  rcases h with ⟨hprocessed, hdropped, hsqueeze, -⟩
  have hprocessed' : SoftnetRow.processedColumn.fault? columns = none ∧
      ∀ row, SoftnetRow.processedColumn.store columns row =
        { row with processed := e.processed.toUInt64 } :=
    NeededColumn.ofNumber_of_ok hprocessed (decodeHex_softnet e.processed)
  have hdropped' : SoftnetRow.droppedColumn.fault? columns = none ∧
      ∀ row, SoftnetRow.droppedColumn.store columns row =
        { row with dropped := e.dropped.toUInt64 } :=
    NeededColumn.ofNumber_of_ok hdropped (decodeHex_softnet e.dropped)
  have hsqueeze' : SoftnetRow.timeSqueezeColumn.fault? columns = none ∧
      ∀ row, SoftnetRow.timeSqueezeColumn.store columns row =
        { row with timeSqueeze := e.timeSqueeze.toUInt64 } :=
    NeededColumn.ofNumber_of_ok hsqueeze (decodeHex_softnet e.timeSqueeze)
  refine ⟨?_, ?_, (List.getElem?_eq_some_iff.1 hsqueeze).1⟩
  · simp [grammar, hprocessed'.1, hdropped'.1, hsqueeze'.1]
  · simp [grammar, NeededColumn.storeAll, hprocessed'.2, hdropped'.2, hsqueeze'.2, rowOf]

theorem holds_snmp {row : SnmpRow} {columns : List (List UInt8)}
    (h : ∀ p ∈ texts .snmp row, columns[p.1]? = some p.2) : Holds .snmp row columns := by
  simp only [texts, List.forall_mem_cons] at h
  rcases h with ⟨hinErrors, hbuffer, hchecksum, -⟩
  have hinErrors' : SnmpRow.inErrorsColumn.fault? columns = none ∧
      ∀ record, SnmpRow.inErrorsColumn.store columns record =
        { record with inErrors := row.inErrors } :=
    NeededColumn.ofNumber_of_ok hinErrors (decodeDecimal_text row.inErrors)
  have hbuffer' : SnmpRow.receiveBufferErrorsColumn.fault? columns = none ∧
      ∀ record, SnmpRow.receiveBufferErrorsColumn.store columns record =
        { record with receiveBufferErrors := row.receiveBufferErrors } :=
    NeededColumn.ofNumber_of_ok hbuffer (decodeDecimal_text row.receiveBufferErrors)
  have hchecksum' : SnmpRow.checksumErrorsColumn.fault? columns = none ∧
      ∀ record, SnmpRow.checksumErrorsColumn.store columns record =
        { record with checksumErrors := row.checksumErrors } :=
    NeededColumn.ofNumber_of_ok hchecksum (decodeDecimal_text row.checksumErrors)
  refine ⟨?_, ?_, (List.getElem?_eq_some_iff.1 hchecksum).1⟩
  · simp [grammar, hinErrors'.1, hbuffer'.1, hchecksum'.1]
  · simp [grammar, NeededColumn.storeAll, hinErrors'.2, hbuffer'.2, hchecksum'.2, rowOf]

theorem holds_of_texts {k : Table} {e : k.Entry} {columns : List (List UInt8)}
    (h : ∀ p ∈ k.texts e, columns[p.1]? = some p.2) : k.Holds e columns := by
  cases k with
  | tcp => exact holds_tcp h
  | udp => exact holds_udp h
  | softnet => exact holds_softnet h
  | snmp => exact holds_snmp h

/-! ## Lines in print -/

section

variable {k : Table} {e : k.Entry} {columns : List (List UInt8)} {line : List UInt8}

/-- A line of UDP counters is not the header, which has a letter that no number has. -/
theorem not_udpHeader_of_numbers {numbers : List Nat}
    (h : SetOut (SnmpRow.udpLabel :: numbers.map decimalText) line) :
    ¬ SnmpRow.udpHeader <+: line := by
  intro hheader
  have hletter : (73 : UInt8) ∈ line := hheader.subset (by decide)
  rcases h.mem hletter with hspace | ⟨column, hcolumn, hmem⟩
  · cases hspace
  · rcases List.mem_cons.1 hcolumn with rfl | hcolumn
    · revert hmem
      decide
    · rcases List.mem_map.1 hcolumn with ⟨n, -, rfl⟩
      exact absurd (decimal_of_mem_text hmem).2 (by decide)

theorem isIgnored_socket {first : List UInt8} {rest : List (List UInt8)}
    (h : SetOut (first :: rest) line) :
    SocketRow.isIgnored line = [115, 108].isPrefixOf first := by
  rw [SocketRow.isIgnored, h.columnsOf_eq]

theorem IsPrinted.isIgnored_eq (h : k.IsPrinted e columns line) :
    k.grammar.isIgnored line = false := by
  have hlength := (holds_of_texts h.texts).2.2
  have hbegins := h.begins
  cases columns with
  | nil => cases k <;> cases hlength
  | cons first rest =>
      have hne : (columnsOf line).isEmpty = false := by rw [h.setOut.columnsOf_eq]; rfl
      cases k with
      | tcp | udp =>
          change SocketRow.isIgnored line = false
          rw [isIgnored_socket h.setOut, ← Bool.not_eq_true, List.isPrefixOf_iff_prefix]
          exact hbegins first rfl
      | softnet => exact hne
      | snmp =>
          rcases hbegins with ⟨hlabel, numbers, hnumbers⟩
          have hsetOut := h.setOut
          rw [hnumbers] at hsetOut
          have hheader : SnmpRow.udpHeader.isPrefixOf line = false := by
            rw [← Bool.not_eq_true, List.isPrefixOf_iff_prefix]
            exact not_udpHeader_of_numbers hsetOut
          simp only [grammar, hne, List.isPrefixOf_iff_prefix.2 hlabel, hheader, Bool.not_true,
            Bool.or_self]

theorem IsPrinted.not_isFaulty (h : k.IsPrinted e columns line) : ¬ k.grammar.IsFaulty line := by
  rcases holds_of_texts h.texts with ⟨hsound, -, hlength⟩
  rintro ⟨-, hfault⟩
  rw [h.setOut.columnsOf_eq] at hfault
  rcases hfault with ⟨c, hc, hsome⟩ | hshort
  · rw [hsound c hc] at hsome
    cases hsome
  · exact absurd hlength (Nat.not_le_of_lt hshort)

theorem IsPrinted.recordOf_eq (h : k.IsPrinted e columns line) :
    k.grammar.recordOf line = k.rowOf e := by
  rw [RowGrammar.recordOf, h.setOut.columnsOf_eq]
  exact (holds_of_texts h.texts).2.1

theorem IsFiller.isIgnored_eq (h : k.IsFiller line) : k.grammar.isIgnored line = true := by
  cases k with
  | tcp | udp =>
      change SocketRow.isIgnored line = true
      rcases h with ⟨-, hblank | ⟨first, rest, hsetOut, hheader⟩⟩
      · rw [SocketRow.isIgnored, hblank.columnsOf_eq]
      · rw [isIgnored_socket hsetOut, List.isPrefixOf_iff_prefix]
        exact hheader
  | softnet =>
      have hblank : SetOut [] line := h
      change (columnsOf line).isEmpty = true
      rw [hblank.columnsOf_eq]
      rfl
  | snmp =>
      rcases h with ⟨-, hother | hheader⟩
      · have hlabel : SnmpRow.udpLabel.isPrefixOf line = false := by
          rw [← Bool.not_eq_true, List.isPrefixOf_iff_prefix]
          exact hother
        simp [grammar, hlabel]
      · simp [grammar, List.isPrefixOf_iff_prefix.2 hheader]

theorem IsFiller.not_mem_newline (h : k.IsFiller line) : 10 ∉ line := by
  cases k with
  | tcp | udp | snmp => exact h.1
  | softnet =>
      intro hnewline
      have hblank : SetOut [] line := h
      rcases hblank.mem hnewline with hspace | ⟨column, hcolumn, -⟩
      · cases hspace
      · cases hcolumn

theorem IsPrinted.not_mem_newline (h : k.IsPrinted e columns line) : 10 ∉ line := by
  intro hnewline
  rcases h.setOut.mem hnewline with hspace | ⟨column, hcolumn, hmem⟩
  · cases hspace
  · exact h.noNewline column hcolumn hmem

end

/-! ## Tables in print -/

section

variable {k : Table} {entries : List k.Entry} {lines : List (List UInt8)}

/-- None of the lines of a table in print is at fault, and those with data hold its entries. -/
theorem Prints.each_line (h : k.Prints entries lines) :
    (∀ line ∈ lines, 10 ∉ line ∧ ¬ k.grammar.IsFaulty line) ∧
      (lines.filter fun line => !k.grammar.isIgnored line).map k.grammar.recordOf =
        entries.map k.rowOf := by
  induction h with
  | nil => exact ⟨(fun _ hline => nomatch hline), rfl⟩
  | filler hline _ ih =>
      have hignored := hline.isIgnored_eq
      refine ⟨List.forall_mem_cons.2 ⟨⟨hline.not_mem_newline, fun hfaulty => ?_⟩, ih.1⟩, ?_⟩
      · rw [hfaulty.1] at hignored
        cases hignored
      · rw [List.filter_cons_of_neg (by simp [hignored]), ih.2]
  | entry hline _ ih =>
      refine ⟨List.forall_mem_cons.2 ⟨⟨hline.not_mem_newline, hline.not_isFaulty⟩, ih.1⟩, ?_⟩
      rw [List.filter_cons_of_pos (by simp [hline.isIgnored_eq]), List.map_cons, List.map_cons,
        hline.recordOf_eq, ih.2]

theorem Prints.linesOf_eq (h : k.Prints entries lines) :
    linesOf ([10].intercalate lines) = lines.filter fun line => !line.isEmpty :=
  tokens_intercalate fun line hline => (h.each_line.1 line hline).1

theorem Prints.not_isFaulty (h : k.Prints entries lines) :
    ∀ line ∈ linesOf ([10].intercalate lines), ¬ k.grammar.IsFaulty line := by
  intro line hline
  rw [h.linesOf_eq] at hline
  exact (h.each_line.1 line (List.mem_filter.1 hline).1).2

theorem Prints.records_eq (h : k.Prints entries lines) :
    k.grammar.records (linesOf ([10].intercalate lines)) = entries.map k.rowOf := by
  -- a line without any bytes is left out anyway
  have hempty : (fun line : List UInt8 => !k.grammar.isIgnored line && !line.isEmpty) =
      fun line => !k.grammar.isIgnored line := by
    funext line
    cases line with
    | nil => cases k <;> rfl
    | cons b line => simp
  have hall : (linesOf ([10].intercalate lines)).takeWhile
      (fun line => !decide (k.grammar.IsFaulty line)) = linesOf ([10].intercalate lines) := by
    rw [List.takeWhile_eq_self_iff]
    intro line hline
    simpa using h.not_isFaulty line hline
  rw [RowGrammar.records, hall, h.linesOf_eq, List.filter_filter, hempty, h.each_line.2]

theorem Prints.decodeRows_eq (h : k.Prints entries lines) {τ : Type} (onRow : τ → k.Record → τ)
    (d : RowDecoder k.Record) (t : τ) :
    ∃ d', decodeRows onRow ([10].intercalate lines) ({ d with format := k.format }, t) =
      .ok () (d', (entries.map k.rowOf).foldl onRow t) := by
  rcases RowDecoder.decodeRows_eq onRow ([10].intercalate lines) { d with format := k.format } t
    with ⟨d', -, hdecode⟩
  have hsound : (readRows k.format ([10].intercalate lines)).2 = none :=
    (k.follows.snd_readRows_eq_none_iff _).2 h.not_isFaulty
  refine ⟨d', ?_⟩
  rw [hdecode, ← h.records_eq, ← k.follows.fst_readRows]
  change ended (readRows k.format ([10].intercalate lines)).2 _ = _
  rw [hsound]
  rfl

end

end Table

/-! ## Every list of entries can be printed -/

/-- The columns of a socket in print, where those that are not needed are zeros. -/
def SocketEntry.columns (e : SocketEntry) : List (List UInt8) :=
  [decimalText 0, SocketRow.endpointText e.endpoint, decimalText 0, decimalText 0,
    SocketRow.pairText 8 8 e.transmitQueue.toNat e.receiveQueue.toNat, decimalText 0,
    decimalText 0, decimalText 0, decimalText 0, decimalText e.inode.toNat, decimalText 0,
    decimalText 0, decimalText e.drops.toNat]

namespace Table

/-- The columns of a line with an entry, where those that are not needed are zeros. -/
def columnsFor : (k : Table) → k.Entry → List (List UInt8)
  | .tcp, e => e.columns
  | .udp, e => e.columns
  | .softnet, e => [HexCase.lower.text 8 e.processed.toNat, HexCase.lower.text 8 e.dropped.toNat,
      HexCase.lower.text 8 e.timeSqueeze.toNat]
  | .snmp, row => SnmpRow.udpLabel :: [0, 0, row.inErrors.toNat, 0, row.receiveBufferErrors.toNat,
      0, row.checksumErrors.toNat].map decimalText

theorem solid_columnsFor (k : Table) (e : k.Entry) : ∀ column ∈ k.columnsFor e, Solid column := by
  cases k with
  | tcp | udp =>
      simp [columnsFor, SocketEntry.columns, SocketRow.endpointText, solid_decimal, solid_pair]
  | softnet => simp [columnsFor, solid_hex]
  | snmp =>
      have hlabel : Solid SnmpRow.udpLabel := ⟨by decide, by decide +kernel⟩
      simp [columnsFor, solid_decimal, hlabel]

theorem texts_columnsFor (k : Table) (e : k.Entry) :
    ∀ p ∈ k.texts e, (k.columnsFor e)[p.1]? = some p.2 := by
  cases k <;> simp [texts, SocketEntry.texts, columnsFor, SocketEntry.columns]

theorem begins_columnsFor (k : Table) (e : k.Entry) {line : List UInt8}
    (h : ∀ first ∈ (k.columnsFor e).head?, first <+: line) : k.Begins (k.columnsFor e) line := by
  cases k with
  | tcp | udp =>
      intro first hfirst
      rw [← Option.some.inj hfirst]
      decide
  | softnet => trivial
  | snmp => exact ⟨h _ rfl, _, rfl⟩

theorem exists_isPrinted (k : Table) (e : k.Entry) :
    ∃ columns line, k.IsPrinted e columns line := by
  have hsolid := k.solid_columnsFor e
  rcases exists_setOut hsolid with ⟨line, hsetOut, hfirst⟩
  refine ⟨k.columnsFor e, line, hsetOut, ?_, k.texts_columnsFor e, k.begins_columnsFor e hfirst⟩
  exact fun column hcolumn => (hsolid column hcolumn).not_mem (by decide)

/-- Any list of entries can be printed, and decoding a table in print gives its entries back, in
order and nothing else. -/
theorem decodeRows_undoes_printing (k : Table) (entries : List k.Entry) :
    (∃ lines, k.Prints entries lines) ∧
      ∀ lines, k.Prints entries lines →
        ∀ {τ : Type} (onRow : τ → k.Record → τ) (d : RowDecoder k.Record) (t : τ),
          ∃ d', decodeRows onRow ([10].intercalate lines) ({ d with format := k.format }, t) =
            .ok () (d', (entries.map k.rowOf).foldl onRow t) := by
  refine ⟨?_, fun lines h => h.decodeRows_eq⟩
  induction entries with
  | nil => exact ⟨[], .nil⟩
  | cons e entries ih =>
      rcases k.exists_isPrinted e with ⟨columns, line, hline⟩
      rcases ih with ⟨lines, hlines⟩
      exact ⟨line :: lines, .entry hline hlines⟩

/-- A socket that listens on the loopback address. -/
def loopback : SocketEntry :=
  ⟨⟨.ofOctets 127 0 0 1, 80⟩, 1, 0, 12, 0⟩

def loopbackLine : List UInt8 :=
  Text.Utf8.encode " 0: 0100007F:0050 0 0 00000001:00000000 0 0 0 0 12"

theorem isPrinted_loopback : IsPrinted .tcp loopback (columnsOf loopbackLine) loopbackLine where
  setOut := setOut_columnsOf loopbackLine
  noNewline := by decide +kernel
  texts := by decide +kernel
  begins := by
    have hfirst : (columnsOf loopbackLine).head? = some [48, 58] := by decide +kernel
    intro first hmem
    rw [hfirst] at hmem
    rw [← Option.some.inj hmem]
    decide

/-- A table with a header, one socket and a final newline. -/
theorem decodeRows_undoes_printing_loopback :
    ∃ d',
      decodeRows collect
          (Text.Utf8.encode "sl\n 0: 0100007F:0050 0 0 00000001:00000000 0 0 0 0 12\n")
          (.new .tcp, []) =
        .ok () (d', [⟨.ofEndpoint loopback.endpoint, 1, 0, 12, none⟩]) := by
  have hheader : IsFiller .tcp (Text.Utf8.encode "sl") :=
    ⟨by decide +kernel, .inr ⟨_, [], .last (by decide +kernel) (by decide +kernel),
      by decide +kernel⟩⟩
  have hend : IsFiller .tcp [] := ⟨by decide, .inl .nil⟩
  have hprints := Prints.filler hheader (.entry isPrinted_loopback (.filler hend .nil))
  have htable : Text.Utf8.encode "sl\n 0: 0100007F:0050 0 0 00000001:00000000 0 0 0 0 12\n" =
      [10].intercalate [Text.Utf8.encode "sl", loopbackLine, []] := by
    decide +kernel
  rw [htable]
  exact (decodeRows_undoes_printing .tcp [loopback]).2 _ hprints collect (.new .tcp) []

end Table

end QueueWatch
