import QueueWatch.Proofs.Row.Grammar
import QueueWatch.Row.Counters

/-!
# The grammars of the four tables

Each table that is decoded has a grammar, and its format follows it (`Table.follows`). So decoding
accepts exactly the tables none of whose lines is at fault, delivers one record for each line with
data before the first fault, and fails with what is wrong with that line
(`Table.decodeRows_follows_grammar`). What the record of a line holds is said field by field in
`Table.Says`.
-/

namespace QueueWatch

open RowDecoder

namespace NeededColumn

variable {ρ α : Type}

/-- A column that holds one value. -/
def ofValue (index : Nat) (column : Column) (decode : List UInt8 → Except ColumnFault α)
    (store : ρ → α → ρ) : NeededColumn ρ where
  index := index
  column := column
  decode bytes := (decode bytes).map fun value record => store record value

/-- A column that holds one number. -/
def ofNumber (index : Nat) (column : Column) (decode : List UInt8 → Except NumberError UInt64)
    (store : ρ → UInt64 → ρ) : NeededColumn ρ :=
  ofValue index column (fun bytes => (decode bytes).mapError .number) store

theorem reader_ofValue (index : Nat) (column : Column)
    (decode : List UInt8 → Except ColumnFault α) (store : ρ → α → ρ) :
    (ofValue index column decode store).reader =
      { column
        read := fun record bytes => (decode bytes).map fun value => store record value } := by
  simp only [reader, ofValue, ColumnReader.mk.injEq, true_and]
  funext record bytes
  cases decode bytes <;> rfl

theorem reader_ofNumber (index : Nat) (column : Column)
    (decode : List UInt8 → Except NumberError UInt64) (store : ρ → UInt64 → ρ) :
    (ofNumber index column decode store).reader = .ofNumber column decode store := by
  rw [ofNumber, reader_ofValue, ColumnReader.ofNumber, ColumnReader.mk.injEq]
  refine ⟨rfl, ?_⟩
  funext record bytes
  cases decode bytes <;> rfl

section

variable {index : Nat} {column : Column} {columns : List (List UInt8)} {bytes : List UInt8}

/-- A column whose text decodes is sound, and its value is stored. -/
theorem ofValue_of_ok {decode : List UInt8 → Except ColumnFault α} {store : ρ → α → ρ} {value : α}
    (h : columns[index]? = some bytes) (hdecode : decode bytes = .ok value) :
    (ofValue index column decode store).fault? columns = none ∧
      ∀ record, (ofValue index column decode store).store columns record = store record value := by
  have hadd : (ofValue index column decode store).decode bytes =
      .ok fun record => store record value := by
    change (decode bytes).map _ = _
    rw [hdecode]
    rfl
  exact ⟨fault?_of_ok h hadd, store_of_ok h hadd⟩

theorem ofNumber_of_ok {decode : List UInt8 → Except NumberError UInt64} {store : ρ → UInt64 → ρ}
    {n : UInt64} (h : columns[index]? = some bytes) (hdecode : decode bytes = .ok n) :
    (ofNumber index column decode store).fault? columns = none ∧
      ∀ record, (ofNumber index column decode store).store columns record = store record n := by
  refine ofValue_of_ok h ?_
  rw [hdecode]
  rfl

end

end NeededColumn

namespace SocketRow

def localAddressColumn : NeededColumn SocketRow :=
  .ofValue 1 .localAddress decodeLocalAddress fun row id => { row with id }

def queuesColumn : NeededColumn SocketRow :=
  .ofValue 4 .queues (hexPair 8 8) fun row (transmitQueue, receiveQueue) =>
    { row with transmitQueue, receiveQueue }

def inodeColumn : NeededColumn SocketRow :=
  .ofNumber 9 .inode decodeDecimal fun row inode => { row with inode }

def dropsColumn : NeededColumn SocketRow :=
  .ofNumber 12 .drops decodeDecimal fun row drops => { row with drops := some drops }

/-- A line of a table of sockets is left out if it has no columns, and if its first column begins
with `sl`. -/
def isIgnored (line : List UInt8) : Bool :=
  match columnsOf line with
  | [] => true
  | first :: _ => [115, 108].isPrefixOf first

end SocketRow

def SoftnetRow.processedColumn : NeededColumn SoftnetRow :=
  .ofNumber 0 .processed (decodeHex .lower) fun row n => { row with processed := n }

def SoftnetRow.droppedColumn : NeededColumn SoftnetRow :=
  .ofNumber 1 .dropped (decodeHex .lower) fun row n => { row with dropped := n }

def SoftnetRow.timeSqueezeColumn : NeededColumn SoftnetRow :=
  .ofNumber 2 .timeSqueeze (decodeHex .lower) fun row n => { row with timeSqueeze := n }

def SnmpRow.inErrorsColumn : NeededColumn SnmpRow :=
  .ofNumber 3 .inErrors decodeDecimal fun row n => { row with inErrors := n }

def SnmpRow.receiveBufferErrorsColumn : NeededColumn SnmpRow :=
  .ofNumber 5 .receiveBufferErrors decodeDecimal fun row n => { row with receiveBufferErrors := n }

def SnmpRow.checksumErrorsColumn : NeededColumn SnmpRow :=
  .ofNumber 7 .checksumErrors decodeDecimal fun row n => { row with checksumErrors := n }

/-- The tables that are decoded. -/
inductive Table where
  | tcp
  | udp
  | softnet
  | snmp
  deriving DecidableEq, Repr

namespace Table

/-- What a row of the table holds. -/
abbrev Record : Table → Type
  | .tcp => SocketRow
  | .udp => SocketRow
  | .softnet => SoftnetRow
  | .snmp => SnmpRow

def format : (k : Table) → RowFormat k.Record
  | .tcp => .tcp
  | .udp => .udp
  | .softnet => .softnet
  | .snmp => .snmp

/-- The grammar of the table. The columns that are needed are counted from zero. -/
def grammar : (k : Table) → RowGrammar k.Record
  | .tcp =>
      { blank := ⟨⟨0⟩, 0, 0, 0, none⟩
        required := 10
        needed := [SocketRow.localAddressColumn, SocketRow.queuesColumn, SocketRow.inodeColumn]
        isIgnored := SocketRow.isIgnored }
  | .udp =>
      { blank := ⟨⟨0⟩, 0, 0, 0, some 0⟩
        required := 13
        needed := [SocketRow.localAddressColumn, SocketRow.queuesColumn, SocketRow.inodeColumn,
          SocketRow.dropsColumn]
        isIgnored := SocketRow.isIgnored }
  | .softnet =>
      { blank := ⟨0, 0, 0⟩
        required := 3
        needed := [SoftnetRow.processedColumn, SoftnetRow.droppedColumn,
          SoftnetRow.timeSqueezeColumn]
        isIgnored := fun line => (columnsOf line).isEmpty }
  | .snmp =>
      { blank := ⟨0, 0, 0⟩
        required := 8
        needed := [SnmpRow.inErrorsColumn, SnmpRow.receiveBufferErrorsColumn,
          SnmpRow.checksumErrorsColumn]
        isIgnored := fun line =>
          (columnsOf line).isEmpty || !SnmpRow.udpLabel.isPrefixOf line ||
            SnmpRow.udpHeader.isPrefixOf line }

/-- The columns of a line say what the record holds. -/
def Says : (k : Table) → List (List UInt8) → k.Record → Prop
  | .tcp, columns, row =>
      columns[1]?.map SocketRow.decodeLocalAddress = some (.ok row.id) ∧
        columns[4]?.map (SocketRow.hexPair 8 8) = some (.ok (row.transmitQueue, row.receiveQueue)) ∧
        columns[9]?.map decodeDecimal = some (.ok row.inode) ∧ row.drops = none
  | .udp, columns, row =>
      columns[1]?.map SocketRow.decodeLocalAddress = some (.ok row.id) ∧
        columns[4]?.map (SocketRow.hexPair 8 8) = some (.ok (row.transmitQueue, row.receiveQueue)) ∧
        columns[9]?.map decodeDecimal = some (.ok row.inode) ∧
        ∃ drops, columns[12]?.map decodeDecimal = some (.ok drops) ∧ row.drops = some drops
  | .softnet, columns, row =>
      columns[0]?.map (decodeHex .lower) = some (.ok row.processed) ∧
        columns[1]?.map (decodeHex .lower) = some (.ok row.dropped) ∧
        columns[2]?.map (decodeHex .lower) = some (.ok row.timeSqueeze)
  | .snmp, columns, row =>
      columns[3]?.map decodeDecimal = some (.ok row.inErrors) ∧
        columns[5]?.map decodeDecimal = some (.ok row.receiveBufferErrors) ∧
        columns[7]?.map decodeDecimal = some (.ok row.checksumErrors)

/-! ## The formats follow the grammars -/

end Table

namespace SocketRow

theorem isHeaderColumn_eq (bytes : List UInt8) :
    isHeaderColumn bytes = [115, 108].isPrefixOf bytes := by
  match bytes with
  | [] => rfl
  | [_] => simp [isHeaderColumn, List.isPrefixOf]
  | _ :: _ :: _ => simp [isHeaderColumn, List.isPrefixOf, Bool.beq_comm]

theorem isIgnored_eq (line : List UInt8) :
    isIgnored line =
      ((columnsOf line).isEmpty || !true || (columnsOf line).head?.any isHeaderColumn) := by
  rw [isIgnored]
  cases columnsOf line with
  | nil => rfl
  | cons first rest => simp [isHeaderColumn_eq]

theorem commonReader_eq (i : Nat) :
    commonReader i =
      ([localAddressColumn, queuesColumn, inodeColumn].find? (·.index == i)).map
        NeededColumn.reader := by
  unfold commonReader
  split
  · exact congrArg some (NeededColumn.reader_ofValue ..).symm
  · exact congrArg some (NeededColumn.reader_ofValue ..).symm
  · exact congrArg some (NeededColumn.reader_ofNumber ..).symm
  · next h1 h4 h9 =>
      simp [localAddressColumn, queuesColumn, inodeColumn, NeededColumn.ofNumber,
        NeededColumn.ofValue, Ne.symm h1, Ne.symm h4, Ne.symm h9]

theorem udpReader_eq (i : Nat) :
    udpReader i =
      ([localAddressColumn, queuesColumn, inodeColumn, dropsColumn].find? (·.index == i)).map
        NeededColumn.reader := by
  unfold udpReader
  split
  · exact congrArg some (NeededColumn.reader_ofNumber ..).symm
  · next h12 =>
      have hdrops : [dropsColumn].find? (·.index == i) = none := by
        simp [dropsColumn, NeededColumn.ofNumber, NeededColumn.ofValue, Ne.symm h12]
      have hcolumns : [localAddressColumn, queuesColumn, inodeColumn, dropsColumn] =
          [localAddressColumn, queuesColumn, inodeColumn] ++ [dropsColumn] := rfl
      rw [commonReader_eq, hcolumns, List.find?_append, hdrops, Option.or_none]

end SocketRow

namespace Table

theorem reader_softnet (i : Nat) :
    SoftnetRow.reader i =
      ((grammar .softnet).needed.find? (·.index == i)).map NeededColumn.reader := by
  unfold SoftnetRow.reader
  split
  · exact congrArg some (NeededColumn.reader_ofNumber ..).symm
  · exact congrArg some (NeededColumn.reader_ofNumber ..).symm
  · exact congrArg some (NeededColumn.reader_ofNumber ..).symm
  · next h0 h1 h2 =>
      simp [grammar, SoftnetRow.processedColumn, SoftnetRow.droppedColumn,
        SoftnetRow.timeSqueezeColumn, NeededColumn.ofNumber, NeededColumn.ofValue, Ne.symm h0,
        Ne.symm h1, Ne.symm h2]

theorem reader_snmp (i : Nat) :
    SnmpRow.reader i = ((grammar .snmp).needed.find? (·.index == i)).map NeededColumn.reader := by
  unfold SnmpRow.reader
  split
  · exact congrArg some (NeededColumn.reader_ofNumber ..).symm
  · exact congrArg some (NeededColumn.reader_ofNumber ..).symm
  · exact congrArg some (NeededColumn.reader_ofNumber ..).symm
  · next h3 h5 h7 =>
      simp [grammar, SnmpRow.inErrorsColumn, SnmpRow.receiveBufferErrorsColumn,
        SnmpRow.checksumErrorsColumn, NeededColumn.ofNumber, NeededColumn.ofValue, Ne.symm h3,
        Ne.symm h5, Ne.symm h7]

theorem follows (k : Table) : k.format.Follows k.grammar := by
  cases k with
  | tcp =>
      exact
        { blank := rfl
          required := rfl
          ascending := by decide
          reader := SocketRow.commonReader_eq
          ignored := SocketRow.isIgnored_eq }
  | udp =>
      exact
        { blank := rfl
          required := rfl
          ascending := by decide
          reader := SocketRow.udpReader_eq
          ignored := SocketRow.isIgnored_eq }
  | softnet =>
      exact
        { blank := rfl
          required := rfl
          ascending := by decide
          reader := reader_softnet
          ignored := fun line => by simp [grammar, format, RowFormat.softnet] }
  | snmp =>
      exact
        { blank := rfl
          required := rfl
          ascending := by decide
          reader := reader_snmp
          ignored := fun line => by simp [grammar, format, RowFormat.snmp, Bool.or_assoc] }

/-! ## What a line with data says -/

theorem index_lt_required {k : Table} {c : NeededColumn k.Record} (hc : c ∈ k.grammar.needed) :
    c.index < k.grammar.required := by
  revert c
  cases k <;> simp [grammar] <;> decide

/-- The needed columns of a line with data that is not at fault are there, and they decode. -/
theorem exists_decode {k : Table} {line : List UInt8} (hdata : k.grammar.isIgnored line = false)
    (hsound : ¬ k.grammar.IsFaulty line) {c : NeededColumn k.Record}
    (hc : c ∈ k.grammar.needed) :
    ∃ bytes add, (columnsOf line)[c.index]? = some bytes ∧ c.decode bytes = .ok add := by
  have hparts := not_or.1 fun h => hsound ⟨hdata, h⟩
  have hlength : c.index < (columnsOf line).length :=
    Nat.lt_of_lt_of_le (index_lt_required hc) (Nat.le_of_not_lt hparts.2)
  have hbytes := List.getElem?_eq_getElem hlength
  cases hdecode : c.decode (columnsOf line)[c.index] with
  | ok add => exact ⟨_, add, hbytes, hdecode⟩
  | error fault =>
      refine absurd ⟨c, hc, ?_⟩ hparts.1
      rw [NeededColumn.fault?_of_error hbytes hdecode]
      rfl

/-- Of a line with data that is not at fault a needed column holds a value, which is stored. -/
theorem exists_value {k : Table} {line : List UInt8} (hdata : k.grammar.isIgnored line = false)
    (hsound : ¬ k.grammar.IsFaulty line) {α : Type} {index : Nat} {column : Column}
    {decode : List UInt8 → Except ColumnFault α} {store : k.Record → α → k.Record}
    (hc : .ofValue index column decode store ∈ k.grammar.needed) :
    ∃ value, (columnsOf line)[index]?.map decode = some (.ok value) ∧
      ∀ record, (NeededColumn.ofValue index column decode store).store (columnsOf line) record =
        store record value := by
  rcases exists_decode hdata hsound hc with ⟨bytes, add, hbytes, hdecode⟩
  change (decode bytes).map _ = .ok add at hdecode
  cases hvalue : decode bytes with
  | error fault =>
      rw [hvalue] at hdecode
      cases hdecode
  | ok value =>
      have hindex : (columnsOf line)[index]? = some bytes := hbytes
      refine ⟨value, ?_, (NeededColumn.ofValue_of_ok hindex hvalue).2⟩
      rw [hindex, Option.map_some, hvalue]

theorem exists_number {k : Table} {line : List UInt8} (hdata : k.grammar.isIgnored line = false)
    (hsound : ¬ k.grammar.IsFaulty line) {index : Nat} {column : Column}
    {decode : List UInt8 → Except NumberError UInt64} {store : k.Record → UInt64 → k.Record}
    (hc : .ofNumber index column decode store ∈ k.grammar.needed) :
    ∃ n, (columnsOf line)[index]?.map decode = some (.ok n) ∧
      ∀ record, (NeededColumn.ofNumber index column decode store).store (columnsOf line) record =
        store record n := by
  rcases exists_value hdata hsound hc with ⟨n, hn, hstore⟩
  refine ⟨n, ?_, hstore⟩
  rcases Option.map_eq_some_iff.1 hn with ⟨bytes, hbytes, hdecode⟩
  rw [hbytes, Option.map_some]
  cases hvalue : decode bytes with
  | error cause =>
      rw [hvalue] at hdecode
      cases hdecode
  | ok m =>
      rw [hvalue] at hdecode
      rw [Except.ok.inj hdecode]

theorem says_tcp {line : List UInt8} (hdata : (grammar .tcp).isIgnored line = false)
    (hsound : ¬ (grammar .tcp).IsFaulty line) :
    Says .tcp (columnsOf line) ((grammar .tcp).recordOf line) := by
  have hid : SocketRow.localAddressColumn ∈ (grammar .tcp).needed := by simp [grammar]
  have hqueues : SocketRow.queuesColumn ∈ (grammar .tcp).needed := by simp [grammar]
  have hinode : SocketRow.inodeColumn ∈ (grammar .tcp).needed := by simp [grammar]
  rcases exists_value hdata hsound hid with ⟨id, hid, hstoreId⟩
  rcases exists_value hdata hsound hqueues with ⟨queues, hqueues, hstoreQueues⟩
  rcases exists_number hdata hsound hinode with ⟨inode, hinode, hstoreInode⟩
  have hrecord : (grammar .tcp).recordOf line = ⟨id, queues.1, queues.2, inode, none⟩ := by
    simp [RowGrammar.recordOf, grammar, NeededColumn.storeAll, SocketRow.localAddressColumn,
      hstoreId, SocketRow.queuesColumn, hstoreQueues, SocketRow.inodeColumn, hstoreInode]
  rw [hrecord]
  exact ⟨hid, hqueues, hinode, rfl⟩

theorem says_udp {line : List UInt8} (hdata : (grammar .udp).isIgnored line = false)
    (hsound : ¬ (grammar .udp).IsFaulty line) :
    Says .udp (columnsOf line) ((grammar .udp).recordOf line) := by
  have hid : SocketRow.localAddressColumn ∈ (grammar .udp).needed := by simp [grammar]
  have hqueues : SocketRow.queuesColumn ∈ (grammar .udp).needed := by simp [grammar]
  have hinode : SocketRow.inodeColumn ∈ (grammar .udp).needed := by simp [grammar]
  have hdrops : SocketRow.dropsColumn ∈ (grammar .udp).needed := by simp [grammar]
  rcases exists_value hdata hsound hid with ⟨id, hid, hstoreId⟩
  rcases exists_value hdata hsound hqueues with ⟨queues, hqueues, hstoreQueues⟩
  rcases exists_number hdata hsound hinode with ⟨inode, hinode, hstoreInode⟩
  rcases exists_number hdata hsound hdrops with ⟨drops, hdrops, hstoreDrops⟩
  have hrecord : (grammar .udp).recordOf line =
      ⟨id, queues.1, queues.2, inode, some drops⟩ := by
    simp [RowGrammar.recordOf, grammar, NeededColumn.storeAll, SocketRow.localAddressColumn,
      hstoreId, SocketRow.queuesColumn, hstoreQueues, SocketRow.inodeColumn, hstoreInode,
      SocketRow.dropsColumn, hstoreDrops]
  rw [hrecord]
  exact ⟨hid, hqueues, hinode, drops, hdrops, rfl⟩

theorem says_softnet {line : List UInt8} (hdata : (grammar .softnet).isIgnored line = false)
    (hsound : ¬ (grammar .softnet).IsFaulty line) :
    Says .softnet (columnsOf line) ((grammar .softnet).recordOf line) := by
  have hprocessed : SoftnetRow.processedColumn ∈ (grammar .softnet).needed := by simp [grammar]
  have hdropped : SoftnetRow.droppedColumn ∈ (grammar .softnet).needed := by simp [grammar]
  have hsqueeze : SoftnetRow.timeSqueezeColumn ∈ (grammar .softnet).needed := by simp [grammar]
  rcases exists_number hdata hsound hprocessed with ⟨processed, hprocessed, hstoreProcessed⟩
  rcases exists_number hdata hsound hdropped with ⟨dropped, hdropped, hstoreDropped⟩
  rcases exists_number hdata hsound hsqueeze with ⟨squeeze, hsqueeze, hstoreSqueeze⟩
  have hrecord : (grammar .softnet).recordOf line = ⟨processed, dropped, squeeze⟩ := by
    simp [RowGrammar.recordOf, grammar, NeededColumn.storeAll, SoftnetRow.processedColumn,
      hstoreProcessed, SoftnetRow.droppedColumn, hstoreDropped, SoftnetRow.timeSqueezeColumn,
      hstoreSqueeze]
  rw [hrecord]
  exact ⟨hprocessed, hdropped, hsqueeze⟩

theorem says_snmp {line : List UInt8} (hdata : (grammar .snmp).isIgnored line = false)
    (hsound : ¬ (grammar .snmp).IsFaulty line) :
    Says .snmp (columnsOf line) ((grammar .snmp).recordOf line) := by
  have hinErrors : SnmpRow.inErrorsColumn ∈ (grammar .snmp).needed := by simp [grammar]
  have hbuffer : SnmpRow.receiveBufferErrorsColumn ∈ (grammar .snmp).needed := by simp [grammar]
  have hchecksum : SnmpRow.checksumErrorsColumn ∈ (grammar .snmp).needed := by simp [grammar]
  rcases exists_number hdata hsound hinErrors with ⟨inErrors, hinErrors, hstoreInErrors⟩
  rcases exists_number hdata hsound hbuffer with ⟨buffer, hbuffer, hstoreBuffer⟩
  rcases exists_number hdata hsound hchecksum with ⟨checksum, hchecksum, hstoreChecksum⟩
  have hrecord : (grammar .snmp).recordOf line = ⟨inErrors, buffer, checksum⟩ := by
    simp [RowGrammar.recordOf, grammar, NeededColumn.storeAll, SnmpRow.inErrorsColumn,
      hstoreInErrors, SnmpRow.receiveBufferErrorsColumn, hstoreBuffer,
      SnmpRow.checksumErrorsColumn, hstoreChecksum]
  rw [hrecord]
  exact ⟨hinErrors, hbuffer, hchecksum⟩

/-- The record of a line with data that is not at fault holds what the columns say. -/
theorem says_recordOf {k : Table} {line : List UInt8} (hdata : k.grammar.isIgnored line = false)
    (hsound : ¬ k.grammar.IsFaulty line) : k.Says (columnsOf line) (k.grammar.recordOf line) := by
  cases k with
  | tcp => exact says_tcp hdata hsound
  | udp => exact says_udp hdata hsound
  | softnet => exact says_softnet hdata hsound
  | snmp => exact says_snmp hdata hsound

/-- Decoding accepts exactly the grammar of its table and fails at the first fault, in every state
of the decoder and whatever is done with the rows. -/
theorem decodeRows_follows_grammar (k : Table) {τ : Type} (onRow : τ → k.Record → τ)
    (d : RowDecoder k.Record) (t : τ) (table : List UInt8) :
    ∃ error d',
      decodeRows onRow table ({ d with format := k.format }, t) =
          ended error (d', (k.grammar.records (linesOf table)).foldl onRow t) ∧
        (error = none ↔ ∀ line ∈ linesOf table, ¬ k.grammar.IsFaulty line) ∧
        (∀ before line after, linesOf table = before ++ line :: after →
          (∀ earlier ∈ before, ¬ k.grammar.IsFaulty earlier) → k.grammar.IsFaulty line →
            ∃ e, error = some e ∧ k.grammar.Explains before.length line e) ∧
        (∀ line, k.grammar.isIgnored line = false → ¬ k.grammar.IsFaulty line →
          k.Says (columnsOf line) (k.grammar.recordOf line)) := by
  rcases decodeRows_eq onRow table { d with format := k.format } t with ⟨d', -, hdecode⟩
  have hfollows := k.follows
  refine ⟨(readRows k.format table).2, d', ?_, hfollows.snd_readRows_eq_none_iff table, ?_,
    fun line => says_recordOf⟩
  · rw [hdecode, ← hfollows.fst_readRows]
  · intro before line after hlines hbefore hline
    exact hfollows.explains_readRows hlines hbefore hline

/-- The last line is at fault twice: its second column does not decode, and it is too short. The
blank line before it is not counted. -/
theorem decodeRows_follows_grammar_softnet :
    ∃ e d',
      decodeRows collect (Text.Utf8.encode "01 02 03\n\n 01 0g\n") (.new .softnet, []) =
          .error e (d', [⟨1, 2, 3⟩]) ∧
        (grammar .softnet).Explains 1 (Text.Utf8.encode " 01 0g") e := by
  rcases decodeRows_follows_grammar .softnet collect (.new .softnet) []
      (Text.Utf8.encode "01 02 03\n\n 01 0g\n") with ⟨error, d', hdecode, -, hfault, -⟩
  rcases hfault [Text.Utf8.encode "01 02 03"] (Text.Utf8.encode " 01 0g") [] (by decide +kernel)
      (by decide +kernel) (by decide +kernel) with ⟨e, rfl, hexplains⟩
  have hrecords : (grammar .softnet).records (linesOf (Text.Utf8.encode "01 02 03\n\n 01 0g\n")) =
      [⟨1, 2, 3⟩] := by
    decide +kernel
  rw [hrecords] at hdecode
  exact ⟨e, d', hdecode, hexplains⟩

end Table

end QueueWatch
