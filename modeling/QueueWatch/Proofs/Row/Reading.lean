import QueueWatch.Monitor.Sockets
import QueueWatch.Proofs.Token.Calls
import QueueWatch.Proofs.Token.Chunking

/-!
# What a table says

Decoding a table passes its rows on, one by one, to whoever asked for it. What is done with them
does not matter to the decoder: `readRows` lists the rows of a table and the fault that ended it,
and every use of `decodeRows` is a fold over that list (`decodeRows_eq`).

What the readers of a format keep holds of all rows of a table (`Kept.forall_readRows`). In the
tables of sockets every identifier is that of an endpoint, without an inode
(`SocketRow.kept_plain`).
-/

namespace QueueWatch

section

variable {ε σ : Type}

/-- The state in which a run ends, whether it succeeds or fails. -/
def endState : EStateM.Result ε σ Unit → σ
  | .ok _ s => s
  | .error _ s => s

/-- A run that ends in a state, with the given error if there is one. -/
def ended (error : Option ε) (s : σ) : EStateM.Result ε σ Unit :=
  match error with
  | none => .ok () s
  | some e => .error e s

/-- What held of the state before a run holds afterwards, also if the run fails. -/
def Preserves (P : σ → Prop) (x : EStateM ε σ Unit) : Prop :=
  ∀ s, P s → P (endState (x s))

theorem Preserves.bind {P : σ → Prop} {x : EStateM ε σ Unit} {f : Unit → EStateM ε σ Unit}
    (hx : Preserves P x) (hf : Preserves P (f ())) : Preserves P (x >>= f) := by
  intro s hs
  have h := hx s hs
  rw [Assembler.bind_apply]
  cases hr : x s with
  | ok u s' =>
      rw [hr] at h
      exact hf s' h
  | error e s' =>
      rw [hr] at h
      exact h

theorem preserves_forM {α : Type} {P : σ → Prop} {f : α → EStateM ε σ Unit}
    (hf : ∀ x, Preserves P (f x)) (xs : List α) : Preserves P (forM xs f) := by
  induction xs with
  | nil =>
      intro s hs
      exact hs
  | cons x xs ih => exact (hf x).bind ih

theorem Splitter.preserves_split {P : σ → Prop} {handler : TokenHandler ε σ}
    (htoken : ∀ t, Preserves P (handler.token t)) (hcomplete : Preserves P handler.complete)
    (d : UInt8) (input : List UInt8) : Preserves P (split ⟨d, true⟩ handler input) := by
  rw [split_eq]
  exact (preserves_forM htoken _).bind hcomplete

end

namespace RowDecoder

variable {ρ τ : Type} {format : RowFormat ρ} {P : ρ → Prop}

/-- The lines of a table are decoded one after the other; blank ones do not count. -/
theorem decodeRows_eq_forM (onRow : τ → ρ → τ) (table : List UInt8) (d : RowDecoder ρ) (t : τ) :
    decodeRows onRow table (d, t) =
      forM (tokens 10 table) (rowHandler onRow).token (d.reset, t) := by
  change Splitter.split ⟨10, true⟩ (rowHandler onRow) table (d.reset, t) = _
  rw [Splitter.split_eq]
  exact congrFun (bind_pure_unit (x := forM (tokens 10 table) (rowHandler onRow).token)) _

/-! ## Rows as a list -/

def collect (rows : List ρ) (row : ρ) : List ρ :=
  rows ++ [row]

theorem token_rowHandler (onRow : τ → ρ → τ) (line : List UInt8) (d : RowDecoder ρ) (t : τ) :
    (rowHandler onRow).token line (d, t) =
      match columns.split columnHandler line (d.beginRow line) with
      | .error e d => .error e (d, t)
      | .ok _ d =>
          match d.finished with
          | none => .ok () (d, t)
          | some record => .ok () ({ d with finished := none }, onRow t record) := rfl

theorem token_foldl (onRow : τ → ρ → τ) (t : τ) (line : List UInt8) (d : RowDecoder ρ)
    (rows : List ρ) :
    (rowHandler onRow).token line (d, rows.foldl onRow t) =
      mapState (fun s => (s.1, s.2.foldl onRow t)) ((rowHandler collect).token line (d, rows)) := by
  rw [token_rowHandler, token_rowHandler]
  cases columns.split columnHandler line (d.beginRow line) with
  | error e d' => rfl
  | ok u d' =>
      cases hfinished : d'.finished with
      | none => simp [hfinished, mapState]
      | some record => simp [hfinished, mapState, collect]

theorem forM_token_foldl (onRow : τ → ρ → τ) (t : τ) (lines : List (List UInt8))
    (d : RowDecoder ρ) (rows : List ρ) :
    forM lines (rowHandler onRow).token (d, rows.foldl onRow t) =
      mapState (fun s => (s.1, s.2.foldl onRow t))
        (forM lines (rowHandler collect).token (d, rows)) := by
  induction lines generalizing d rows with
  | nil => rfl
  | cons line lines ih =>
      rw [List.forM_cons, List.forM_cons, Assembler.bind_apply, Assembler.bind_apply, token_foldl]
      cases (rowHandler collect).token line (d, rows) with
      | error e s => rfl
      | ok u s => exact ih s.1 s.2

theorem decodeRows_foldl (onRow : τ → ρ → τ) (table : List UInt8) (d : RowDecoder ρ) (t : τ) :
    decodeRows onRow table (d, t) =
      mapState (fun s => (s.1, s.2.foldl onRow t))
        (decodeRows collect table (.new d.format, [])) := by
  rw [decodeRows_eq_forM, decodeRows_eq_forM]
  exact forM_token_foldl onRow t (tokens 10 table) (.new d.format) []

/-- The rows of a table up to the first that is at fault, and what is wrong with that one. -/
def readRows (format : RowFormat ρ) (table : List UInt8) : List ρ × Option RowError :=
  match decodeRows collect table (.new format, []) with
  | .ok _ (_, rows) => (rows, none)
  | .error e (_, rows) => (rows, some e)

theorem readRows_fst (format : RowFormat ρ) (table : List UInt8) :
    (readRows format table).1 = (endState (decodeRows collect table (.new format, []))).2 := by
  rw [readRows]
  cases decodeRows collect table (.new format, []) <;> rfl

/-! ## What the readers of a format keep -/

/-- The decoder reads rows of a format, and what it has read satisfies `P`. -/
structure Reads (format : RowFormat ρ) (P : ρ → Prop) (d : RowDecoder ρ) : Prop where
  format_eq : d.format = format
  record : P d.record
  finished : ∀ r ∈ d.finished, P r

/-- What holds of the blank record and is kept by every reader. -/
structure Kept (format : RowFormat ρ) (P : ρ → Prop) : Prop where
  blank : P format.blank
  read : ∀ column reader, format.reader column = some reader →
    ∀ record bytes next, P record → reader.read record bytes = .ok next → P next

theorem Kept.reads_new (h : Kept format P) : Reads format P (.new format) :=
  ⟨rfl, h.blank, fun _ hr => nomatch hr⟩

theorem Kept.reads_beginRow (h : Kept format P) {d : RowDecoder ρ} (hd : Reads format P d)
    (line : List UInt8) : Reads format P (d.beginRow line) := by
  refine ⟨hd.format_eq, ?_, fun _ hr => nomatch hr⟩
  change P d.format.blank
  rw [hd.format_eq]
  exact h.blank

theorem Kept.readColumn (h : Kept format P) {d : RowDecoder ρ} (hd : Reads format P d)
    {bytes : List UInt8} {record : ρ} (hrecord : d.readColumn bytes = .ok record) : P record := by
  unfold RowDecoder.readColumn at hrecord
  split at hrecord
  · rw [← Except.ok.inj hrecord]
    exact hd.record
  · rw [hd.format_eq] at hrecord
    cases hreader : format.reader d.column with
    | none =>
        rw [hreader] at hrecord
        rw [← Except.ok.inj hrecord]
        exact hd.record
    | some reader =>
        rw [hreader] at hrecord
        cases hread : reader.read d.record bytes with
        | error fault => simp [hread] at hrecord
        | ok next =>
            simp only [hread, Except.ok.injEq] at hrecord
            rw [← hrecord]
            exact h.read d.column reader hreader d.record bytes next hd.record hread

theorem Kept.preserves_takeColumn (h : Kept format P) (bytes : List UInt8) :
    Preserves (Reads format P) (takeColumn bytes) := by
  intro d hd
  have hstart : Reads format P
      (if d.column = 0 && d.format.isHeader bytes then { d with skips := true } else d) := by
    split
    · exact ⟨hd.format_eq, hd.record, hd.finished⟩
    · exact hd
  unfold takeColumn
  generalize (if d.column = 0 && d.format.isHeader bytes then { d with skips := true } else d) =
    start at hstart
  cases hrecord : start.readColumn bytes with
  | error e =>
      simp only [hrecord]
      exact hstart
  | ok record =>
      simp only [hrecord]
      exact ⟨hstart.format_eq, h.readColumn hstart hrecord, hstart.finished⟩

theorem preserves_endRow : Preserves (Reads format P) (endRow (ρ := ρ)) := by
  intro d hd
  unfold endRow
  dsimp only
  split
  · exact ⟨hd.format_eq, hd.record, hd.finished⟩
  · split
    · exact ⟨hd.format_eq, hd.record, hd.finished⟩
    · refine ⟨hd.format_eq, hd.record, ?_⟩
      intro r hr
      cases hr
      exact hd.record

/-- A line that is decoded keeps what the readers keep, and the row that is passed on has it. -/
theorem Kept.preserves_token (h : Kept format P) (line : List UInt8) :
    Preserves (fun s => Reads format P s.1 ∧ ∀ r ∈ s.2, P r)
      ((rowHandler (collect (ρ := ρ))).token line) := by
  intro s hs
  rcases s with ⟨d, rows⟩
  rcases hs with ⟨hd, hrows⟩
  have hcolumns : Preserves (Reads format P) (columns.split columnHandler line) :=
    Splitter.preserves_split h.preserves_takeColumn preserves_endRow 32 line
  have hsplit := hcolumns _ (h.reads_beginRow hd line)
  rw [token_rowHandler]
  cases hresult : columns.split columnHandler line (d.beginRow line) with
  | error e d' =>
      rw [hresult] at hsplit
      exact ⟨hsplit, hrows⟩
  | ok u d' =>
      rw [hresult] at hsplit
      cases hfinished : d'.finished with
      | none =>
          simp only [hfinished]
          exact ⟨hsplit, hrows⟩
      | some record =>
          simp only [hfinished]
          refine ⟨⟨hsplit.format_eq, hsplit.record, fun _ hr => nomatch hr⟩, ?_⟩
          intro r hr
          rcases List.mem_append.1 hr with hr | hr
          · exact hrows r hr
          · rw [List.mem_singleton.1 hr]
            exact hsplit.finished record hfinished

theorem Kept.reads_decodeRows (h : Kept format P) (table : List UInt8) :
    Reads format P (endState (decodeRows collect table (.new format, []))).1 ∧
      ∀ r ∈ (endState (decodeRows collect table (.new format, []))).2, P r := by
  rw [decodeRows_eq_forM]
  exact preserves_forM h.preserves_token (tokens 10 table) (.new format, [])
    ⟨h.reads_new, fun _ hr => nomatch hr⟩

/-- What the readers of a format keep holds of all rows of a table. -/
theorem Kept.forall_readRows (h : Kept format P) (table : List UInt8) :
    ∀ r ∈ (readRows format table).1, P r := by
  rw [readRows_fst]
  exact (h.reads_decodeRows table).2

theorem kept_true (format : RowFormat ρ) : Kept format fun _ => True :=
  ⟨trivial, fun _ _ _ _ _ _ _ _ => trivial⟩

/-- To decode a table is to fold over its rows. -/
theorem decodeRows_eq (onRow : τ → ρ → τ) (table : List UInt8) (d : RowDecoder ρ) (t : τ) :
    ∃ d', d'.format = d.format ∧
      decodeRows onRow table (d, t) =
        ended (readRows d.format table).2 (d', (readRows d.format table).1.foldl onRow t) := by
  refine ⟨(endState (decodeRows collect table (.new d.format, []))).1,
    ((kept_true d.format).reads_decodeRows table).1.format_eq, ?_⟩
  rw [decodeRows_foldl, readRows]
  cases decodeRows collect table (.new d.format, []) <;> rfl

end RowDecoder

/-! ## Rows of sockets -/

namespace SocketRow

/-- The identifier is that of the endpoint, without any bits of an inode. -/
def Plain (row : SocketRow) : Prop :=
  row.id.inode = 0

theorem inode_decodeLocalAddress {bytes : List UInt8} {id : SocketId}
    (h : decodeLocalAddress bytes = .ok id) : id.inode = 0 := by
  unfold decodeLocalAddress at h
  cases hpair : hexPair 8 4 bytes with
  | error fault =>
      rw [hpair] at h
      cases h
  | ok pair =>
      rw [hpair] at h
      rw [← Except.ok.inj h]
      exact SocketId.inode_pack ..

theorem plain_of_commonReader {column : Nat} {reader : ColumnReader SocketRow}
    (h : commonReader column = some reader) {row next : SocketRow} {bytes : List UInt8}
    (hrow : row.Plain) (hnext : reader.read row bytes = .ok next) : next.Plain := by
  unfold commonReader at h
  split at h
  · cases h
    cases hid : decodeLocalAddress bytes with
    | error fault => simp [hid, Except.map] at hnext
    | ok id =>
        simp only [hid, Except.map, Except.ok.injEq] at hnext
        rw [← hnext]
        exact inode_decodeLocalAddress hid
  · cases h
    cases hqueues : hexPair 8 8 bytes with
    | error fault => simp [hqueues, Except.map] at hnext
    | ok queues =>
        simp only [hqueues, Except.map, Except.ok.injEq] at hnext
        rw [← hnext]
        exact hrow
  · cases h
    cases hinode : decodeDecimal bytes with
    | error cause => simp [ColumnReader.ofNumber, hinode] at hnext
    | ok inode =>
        simp only [ColumnReader.ofNumber, hinode, Except.ok.injEq] at hnext
        rw [← hnext]
        exact hrow
  · cases h

theorem plain_of_udpReader {column : Nat} {reader : ColumnReader SocketRow}
    (h : udpReader column = some reader) {row next : SocketRow} {bytes : List UInt8}
    (hrow : row.Plain) (hnext : reader.read row bytes = .ok next) : next.Plain := by
  unfold udpReader at h
  split at h
  · cases h
    cases hdrops : decodeDecimal bytes with
    | error cause => simp [ColumnReader.ofNumber, hdrops] at hnext
    | ok drops =>
        simp only [ColumnReader.ofNumber, hdrops, Except.ok.injEq] at hnext
        rw [← hnext]
        exact hrow
  · exact plain_of_commonReader h hrow hnext

theorem kept_plain (protocol : Protocol) : RowDecoder.Kept protocol.format Plain := by
  cases protocol with
  | tcp => exact ⟨rfl, fun _ _ h _ _ _ => plain_of_commonReader h⟩
  | udp => exact ⟨rfl, fun _ _ h _ _ _ => plain_of_udpReader h⟩

end SocketRow

end QueueWatch
