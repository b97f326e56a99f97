import QueueWatch.Proofs.Row.Reading

/-!
# The grammar of a table

A grammar says what the lines of a table are without saying how they are read: which of them are
left out, which columns are needed and what each of them adds to the record, and how many columns
a line has to have. What it makes of a line depends on the bytes of that line only. The line is left
out (`RowGrammar.isIgnored`), or it is at fault (`RowGrammar.IsFaulty`), or it holds a record
(`RowGrammar.recordOf`).

A format follows a grammar (`RowFormat.Follows`) if its parts, taken one by one, do what the grammar
says. Then `readRows` gives the records of the lines before the first that is at fault, and an error
that says what is wrong with that line: `RowFormat.Follows.fst_readRows`,
`RowFormat.Follows.snd_readRows_eq_none_iff` and `RowFormat.Follows.explains_readRows`. No line
leaves anything behind in the decoder but its place in the count of lines.
-/

namespace QueueWatch

/-- The lines of a table; blank ones do not count. -/
def linesOf (table : List UInt8) : List (List UInt8) :=
  tokens 10 table

/-- The columns of a line; several spaces count as one. -/
def columnsOf (line : List UInt8) : List (List UInt8) :=
  tokens 32 line

/-- A column that a line needs: where it stands, its name, and what its bytes add to the record. -/
structure NeededColumn (ρ : Type) where
  index : Nat
  column : Column
  decode : List UInt8 → Except ColumnFault (ρ → ρ)

namespace NeededColumn

variable {ρ : Type}

/-- The bytes of the column and what is wrong with them, if it is there and does not decode. -/
def fault? (c : NeededColumn ρ) (columns : List (List UInt8)) :
    Option (List UInt8 × ColumnFault) :=
  match columns[c.index]? with
  | none => none
  | some bytes =>
      match c.decode bytes with
      | .ok _ => none
      | .error fault => some (bytes, fault)

/-- Adds what the column says to a record, if it is there and decodes. -/
def store (c : NeededColumn ρ) (columns : List (List UInt8)) (record : ρ) : ρ :=
  match columns[c.index]? with
  | none => record
  | some bytes =>
      match c.decode bytes with
      | .ok add => add record
      | .error _ => record

/-- The reader that does what the column asks for. -/
def reader (c : NeededColumn ρ) : ColumnReader ρ where
  column := c.column
  read record bytes := (c.decode bytes).map fun add => add record

section

variable {c : NeededColumn ρ} {columns : List (List UInt8)} {bytes : List UInt8}

theorem fault?_of_none (h : columns[c.index]? = none) : c.fault? columns = none := by
  rw [fault?, h]

theorem store_of_none (h : columns[c.index]? = none) (record : ρ) :
    c.store columns record = record := by
  rw [store, h]

theorem fault?_of_ok {add : ρ → ρ} (h : columns[c.index]? = some bytes)
    (hdecode : c.decode bytes = .ok add) : c.fault? columns = none := by
  rw [fault?, h]
  simp only [hdecode]

theorem store_of_ok {add : ρ → ρ} (h : columns[c.index]? = some bytes)
    (hdecode : c.decode bytes = .ok add) (record : ρ) : c.store columns record = add record := by
  rw [store, h]
  simp only [hdecode]

theorem fault?_of_error {fault : ColumnFault} (h : columns[c.index]? = some bytes)
    (hdecode : c.decode bytes = .error fault) : c.fault? columns = some (bytes, fault) := by
  rw [fault?, h]
  simp only [hdecode]

end

/-- Adds what all of the columns say to a record. -/
def storeAll (needed : List (NeededColumn ρ)) (columns : List (List UInt8)) (record : ρ) : ρ :=
  needed.foldl (fun record c => c.store columns record) record

theorem storeAll_cons (c : NeededColumn ρ) (needed : List (NeededColumn ρ))
    (columns : List (List UInt8)) (record : ρ) :
    storeAll (c :: needed) columns record = storeAll needed columns (c.store columns record) := rfl

theorem storeAll_of_absent {needed : List (NeededColumn ρ)} {columns : List (List UInt8)}
    (h : ∀ c ∈ needed, columns[c.index]? = none) (record : ρ) :
    storeAll needed columns record = record := by
  induction needed with
  | nil => rfl
  | cons c needed ih =>
      rcases List.forall_mem_cons.1 h with ⟨hc, hneeded⟩
      rw [storeAll_cons, store_of_none hc, ih hneeded]

/-- The error of the first of the columns that is there and does not decode. -/
def firstError? (number : Nat) (columns : List (List UInt8)) (needed : List (NeededColumn ρ)) :
    Option RowError :=
  needed.findSome? fun c => (c.fault? columns).map fun f => f.2.inRow number c.column f.1

theorem firstError?_cons_of_none {c : NeededColumn ρ} {columns : List (List UInt8)}
    (h : c.fault? columns = none) (number : Nat) (needed : List (NeededColumn ρ)) :
    firstError? number columns (c :: needed) = firstError? number columns needed := by
  rw [firstError?, List.findSome?_cons, h]
  rfl

theorem firstError?_cons_of_some {c : NeededColumn ρ} {columns : List (List UInt8)}
    {bytes : List UInt8} {fault : ColumnFault} (h : c.fault? columns = some (bytes, fault))
    (number : Nat) (needed : List (NeededColumn ρ)) :
    firstError? number columns (c :: needed) = some (fault.inRow number c.column bytes) := by
  rw [firstError?, List.findSome?_cons, h]
  rfl

theorem firstError?_eq_none_iff {number : Nat} {columns : List (List UInt8)}
    {needed : List (NeededColumn ρ)} :
    firstError? number columns needed = none ↔ ∀ c ∈ needed, c.fault? columns = none := by
  simp [firstError?, List.findSome?_eq_none_iff]

end NeededColumn

/-- What the lines of a table are. -/
structure RowGrammar (ρ : Type) where
  /-- The record before any column has been added. -/
  blank : ρ
  /-- How many columns a line has to have. -/
  required : Nat
  needed : List (NeededColumn ρ)
  /-- Whether a line is left out. -/
  isIgnored : List UInt8 → Bool

namespace RowGrammar

variable {ρ : Type} (g : RowGrammar ρ)

/-- The record that a line holds. -/
def recordOf (line : List UInt8) : ρ :=
  NeededColumn.storeAll g.needed (columnsOf line) g.blank

/-- A line that is not left out is at fault if one of the needed columns is there and does not
decode, or if it has too few columns. -/
def IsFaulty (line : List UInt8) : Prop :=
  g.isIgnored line = false ∧
    ((∃ c ∈ g.needed, (c.fault? (columnsOf line)).isSome) ∨ (columnsOf line).length < g.required)

instance : DecidablePred g.IsFaulty := fun _ =>
  inferInstanceAs (Decidable (_ ∧ _))

/-- What an error says about the faulty line with the given number: the leftmost of the needed
columns that do not decode, and only if there is none of them, that columns are missing. -/
inductive Explains (number : Nat) (line : List UInt8) : RowError → Prop
  | column {c : NeededColumn ρ} {bytes : List UInt8} {fault : ColumnFault} (hneeded : c ∈ g.needed)
      (hfault : c.fault? (columnsOf line) = some (bytes, fault))
      (hleftmost : ∀ b ∈ g.needed, b.index < c.index → b.fault? (columnsOf line) = none) :
      Explains number line (fault.inRow number c.column bytes)
  | missing (hsound : ∀ c ∈ g.needed, c.fault? (columnsOf line) = none)
      (hshort : (columnsOf line).length < g.required) :
      Explains number line (.missingColumns number g.required (columnsOf line).length)

/-- The records of the lines before the first that is at fault. -/
def records (lines : List (List UInt8)) : List ρ :=
  ((lines.takeWhile fun line => !decide (g.IsFaulty line)).filter fun line =>
    !g.isIgnored line).map g.recordOf

/-- What is wrong with a line, if anything is. -/
def error? (number : Nat) (line : List UInt8) : Option RowError :=
  if g.isIgnored line then none
  else
    match NeededColumn.firstError? number (columnsOf line) g.needed with
    | some e => some e
    | none =>
        if (columnsOf line).length < g.required then
          some (.missingColumns number g.required (columnsOf line).length)
        else none

variable {g}

theorem error?_eq_none_iff {number : Nat} {line : List UInt8} :
    g.error? number line = none ↔ ¬ g.IsFaulty line := by
  rw [error?, IsFaulty]
  cases hignored : g.isIgnored line with
  | true => simp
  | false =>
      cases hfirst : NeededColumn.firstError? number (columnsOf line) g.needed with
      | none =>
          have hsound := NeededColumn.firstError?_eq_none_iff.1 hfirst
          simp only [Bool.false_eq_true, if_false, true_and, not_or]
          split
          · next hshort => simp [hshort]
          · next hlong =>
              refine iff_of_true rfl ⟨?_, hlong⟩
              rintro ⟨c, hc, hsome⟩
              simp [hsound c hc] at hsome
      | some e =>
          have hfault : ∃ c ∈ g.needed, (c.fault? (columnsOf line)).isSome := by
            by_contra hnone
            push Not at hnone
            have hsound : ∀ c ∈ g.needed, c.fault? (columnsOf line) = none := fun c hc => by
              simpa using hnone c hc
            rw [NeededColumn.firstError?_eq_none_iff.2 hsound] at hfirst
            cases hfirst
          simp [hfault]

/-- The first error over columns that are listed from left to right is that of the leftmost. -/
theorem exists_leftmost {needed : List (NeededColumn ρ)}
    (hascending : needed.Pairwise (·.index < ·.index)) {number : Nat}
    {columns : List (List UInt8)} {e : RowError}
    (h : NeededColumn.firstError? number columns needed = some e) :
    ∃ c ∈ needed, ∃ bytes fault, c.fault? columns = some (bytes, fault) ∧
      e = fault.inRow number c.column bytes ∧
      ∀ b ∈ needed, b.index < c.index → b.fault? columns = none := by
  rcases List.findSome?_eq_some_iff.1 h with ⟨before, c, after, rfl, hc, hbefore⟩
  rcases Option.map_eq_some_iff.1 hc with ⟨⟨bytes, fault⟩, hfault, rfl⟩
  rcases List.pairwise_append.1 hascending with ⟨-, hafter, -⟩
  refine ⟨c, by simp, bytes, fault, hfault, rfl, ?_⟩
  intro b hb hlt
  rcases List.mem_append.1 hb with hb | hb
  · exact Option.map_eq_none_iff.1 (hbefore b hb)
  · rcases List.mem_cons.1 hb with rfl | hb
    · exact absurd hlt (Nat.lt_irrefl _)
    · exact absurd hlt (Nat.lt_asymm ((List.pairwise_cons.1 hafter).1 b hb))

theorem explains_of_error? (hascending : g.needed.Pairwise (·.index < ·.index)) {number : Nat}
    {line : List UInt8} {e : RowError} (h : g.error? number line = some e) :
    g.Explains number line e := by
  rw [error?] at h
  split at h
  · cases h
  · split at h
    · next e' hfirst =>
        rcases exists_leftmost hascending hfirst with ⟨c, hc, bytes, fault, hfault, he', hleft⟩
        rw [← Option.some.inj h, he']
        exact .column hc hfault hleft
    · next hfirst =>
        split at h
        · next hshort =>
            rw [← Option.some.inj h]
            exact .missing (NeededColumn.firstError?_eq_none_iff.1 hfirst) hshort
        · cases h

/-- What the lines of a table come to, from a line with the given number on: their records, up to
the first error. -/
def reading (g : RowGrammar ρ) (number : Nat) : List (List UInt8) → List ρ × Option RowError
  | [] => ([], none)
  | line :: rest =>
      match g.error? number line with
      | some e => ([], some e)
      | none =>
          let (rows, error) := g.reading (number + 1) rest
          ((if g.isIgnored line then [] else [g.recordOf line]) ++ rows, error)

theorem fst_reading (number : Nat) (lines : List (List UInt8)) :
    (g.reading number lines).1 = g.records lines := by
  induction lines generalizing number with
  | nil => rfl
  | cons line rest ih =>
      rw [reading]
      cases herror : g.error? number line with
      | some e =>
          have hfaulty : g.IsFaulty line := by
            by_contra hsound
            rw [error?_eq_none_iff.2 hsound] at herror
            cases herror
          simp [records, hfaulty]
      | none =>
          have hsound := error?_eq_none_iff.1 herror
          cases hignored : g.isIgnored line <;> simp [records, hsound, hignored, ih]

theorem snd_reading_eq_none_iff {number : Nat} {lines : List (List UInt8)} :
    (g.reading number lines).2 = none ↔ ∀ line ∈ lines, ¬ g.IsFaulty line := by
  induction lines generalizing number with
  | nil => simp [reading]
  | cons line rest ih =>
      have hline : g.error? number line = none ↔ ¬ g.IsFaulty line := error?_eq_none_iff
      have hrest : (g.reading (number + 1) rest).2 = none ↔ ∀ line ∈ rest, ¬ g.IsFaulty line := ih
      rw [reading, List.forall_mem_cons, ← hline, ← hrest]
      cases g.error? number line <;> simp

theorem snd_reading_append {number : Nat} {before rest : List (List UInt8)}
    (h : ∀ line ∈ before, ¬ g.IsFaulty line) :
    (g.reading number (before ++ rest)).2 = (g.reading (number + before.length) rest).2 := by
  induction before generalizing number with
  | nil => rfl
  | cons line before ih =>
      rcases List.forall_mem_cons.1 h with ⟨hline, hbefore⟩
      rw [List.cons_append, reading, error?_eq_none_iff.2 hline]
      simp only
      rw [ih hbefore, List.length_cons, Nat.add_right_comm, Nat.add_assoc]

/-- The error of a reading is that of the first line that is at fault, whose number is how many
lines come before it. -/
theorem explains_reading (hascending : g.needed.Pairwise (·.index < ·.index))
    {before after : List (List UInt8)} {line : List UInt8}
    (hbefore : ∀ line ∈ before, ¬ g.IsFaulty line) (hline : g.IsFaulty line) :
    ∃ e, (g.reading 0 (before ++ line :: after)).2 = some e ∧
      g.Explains before.length line e := by
  rw [snd_reading_append hbefore, Nat.zero_add, reading]
  cases herror : g.error? before.length line with
  | none => exact absurd hline (error?_eq_none_iff.1 herror)
  | some e => exact ⟨e, rfl, explains_of_error? hascending herror⟩

end RowGrammar

/-- The parts of the format do what the grammar says, whose columns are listed from left to
right. -/
structure RowFormat.Follows {ρ : Type} (f : RowFormat ρ) (g : RowGrammar ρ) : Prop where
  blank : f.blank = g.blank
  required : f.requiredColumns = g.required
  ascending : g.needed.Pairwise (·.index < ·.index)
  reader : ∀ i, f.reader i = (g.needed.find? (·.index == i)).map NeededColumn.reader
  ignored : ∀ line, g.isIgnored line =
    ((columnsOf line).isEmpty || !f.isData line || (columnsOf line).head?.any f.isHeader)

namespace RowDecoder

variable {ρ : Type} {f : RowFormat ρ}

/-- Of the columns from the `n`-th on the format reads those that are still needed. -/
structure Ahead (f : RowFormat ρ) (n : Nat) (needed : List (NeededColumn ρ)) : Prop where
  ascending : needed.Pairwise (·.index < ·.index)
  ahead : ∀ c ∈ needed, n ≤ c.index
  reader : ∀ i, n ≤ i → f.reader i = (needed.find? (·.index == i)).map NeededColumn.reader

/-- The next column is the first of those that are still needed, or it is not needed. -/
theorem Ahead.next {n : Nat} {needed : List (NeededColumn ρ)} (h : Ahead f n needed) :
    (∃ c rest, needed = c :: rest ∧ c.index = n ∧ f.reader n = some c.reader ∧
        Ahead f (n + 1) rest) ∨
      (f.reader n = none ∧ Ahead f (n + 1) needed) := by
  cases needed with
  | nil =>
      exact .inr ⟨h.reader n (Nat.le_refl n), h.ascending, (fun _ hc => nomatch hc),
        fun i hi => h.reader i (Nat.le_of_lt hi)⟩
  | cons c rest =>
      rcases List.pairwise_cons.1 h.ascending with ⟨hfirst, hrest⟩
      have hc := h.ahead c List.mem_cons_self
      rcases Nat.eq_or_lt_of_le hc with hn | hn
      · subst hn
        refine .inl ⟨c, rest, rfl, rfl, ?_, hrest, hfirst, ?_⟩
        · rw [h.reader c.index (Nat.le_refl _), List.find?_cons_of_pos (by simp)]
          rfl
        · intro i hi
          have hne : c.index ≠ i := Nat.ne_of_lt hi
          rw [h.reader i (Nat.le_of_lt hi), List.find?_cons_of_neg (by simpa using hne)]
      · have hlater : ∀ b ∈ c :: rest, n + 1 ≤ b.index := by
          intro b hb
          rcases List.mem_cons.1 hb with rfl | hb
          · exact hn
          · exact Nat.le_of_lt (Nat.lt_of_le_of_lt hn (hfirst b hb))
        refine .inr ⟨?_, h.ascending, hlater, fun i hi => h.reader i (Nat.le_of_lt hi)⟩
        have hnone : (c :: rest).find? (·.index == n) = none := by
          rw [List.find?_eq_none]
          intro b hb
          simpa using Nat.ne_of_gt (hlater b hb)
        rw [h.reader n (Nat.le_refl n), hnone]
        rfl

/-! ## The columns of a line -/

theorem forM_takeColumn_of_skips (columns : List (List UInt8)) {d : RowDecoder ρ}
    (h : d.skips = true) :
    forM columns takeColumn d = .ok () { d with column := d.column + columns.length } := by
  induction columns generalizing d with
  | nil => rfl
  | cons bytes columns ih =>
      have htake : takeColumn bytes d = .ok () { d with column := d.column + 1 } := by
        rcases d with ⟨format, line, column, skips, record, finished⟩
        subst h
        simp [takeColumn, readColumn]
      rw [List.forM_cons, Assembler.bind_apply, htake]
      refine (ih (d := { d with column := d.column + 1 }) h).trans ?_
      rw [List.length_cons, Nat.add_assoc, Nat.add_comm 1]

theorem takeColumn_eq {d : RowDecoder ρ} {bytes : List UInt8} (hskips : d.skips = false)
    (hheader : d.column = 0 → d.format.isHeader bytes = false) :
    takeColumn bytes d =
      match d.format.reader d.column with
      | none => .ok () { d with column := d.column + 1 }
      | some reader =>
          match reader.read d.record bytes with
          | .ok record => .ok () { d with record, column := d.column + 1 }
          | .error fault => .error (fault.inRow d.line reader.column bytes) d := by
  have hstay : (d.column = 0 && d.format.isHeader bytes) = false := by
    by_cases hcolumn : d.column = 0
    · simp [hheader hcolumn]
    · simp [hcolumn]
  simp only [takeColumn, hstay, readColumn, hskips, Bool.false_eq_true, if_false]
  cases d.format.reader d.column with
  | none => rfl
  | some reader =>
      simp only
      cases reader.read d.record bytes <;> rfl

/-- The columns of a line with data are read up to the first that is at fault. The induction is on
the columns that are still to come; those that have been seen hold none that is still needed. -/
theorem forM_takeColumn {needed : List (NeededColumn ρ)} {seen columns : List (List UInt8)}
    {d : RowDecoder ρ} (hahead : Ahead d.format seen.length needed) (hskips : d.skips = false)
    (hcolumn : d.column = seen.length)
    (hheader : seen = [] → columns.head?.any d.format.isHeader = false) :
    match NeededColumn.firstError? d.line (seen ++ columns) needed with
    | none => forM columns takeColumn d = .ok ()
        { d with
          record := NeededColumn.storeAll needed (seen ++ columns) d.record
          column := (seen ++ columns).length }
    | some e => ∃ d', forM columns takeColumn d = .error e d' := by
  induction columns generalizing needed seen d with
  | nil =>
      have habsent : ∀ c ∈ needed, seen[c.index]? = none := fun c hc => by
        simpa using hahead.ahead c hc
      have hnone : NeededColumn.firstError? d.line seen needed = none :=
        NeededColumn.firstError?_eq_none_iff.2 fun c hc =>
          NeededColumn.fault?_of_none (habsent c hc)
      rw [List.append_nil, hnone, NeededColumn.storeAll_of_absent habsent, ← hcolumn]
      rfl
  | cons bytes columns ih =>
      have hthere : (seen ++ bytes :: columns)[seen.length]? = some bytes := by simp
      have hfirst : d.column = 0 → d.format.isHeader bytes = false := by
        intro hzero
        have hseen : seen = [] := List.length_eq_zero_iff.1 (hcolumn.symm.trans hzero)
        simpa using hheader hseen
      have hsplit : seen ++ bytes :: columns = (seen ++ [bytes]) ++ columns := by simp
      have hlength : (seen ++ [bytes]).length = seen.length + 1 := by simp
      have hstart : seen ++ [bytes] = [] → columns.head?.any d.format.isHeader = false := by simp
      rw [List.forM_cons, Assembler.bind_apply, takeColumn_eq hskips hfirst, hcolumn]
      rcases hahead.next with ⟨c, rest, rfl, hindex, hreader, hrest⟩ | ⟨hreader, hrest⟩
      · rw [← hindex] at hthere
        rw [hreader]
        cases hdecode : c.decode bytes with
        | error fault =>
            rw [NeededColumn.firstError?_cons_of_some (NeededColumn.fault?_of_error hthere hdecode)]
            simp [NeededColumn.reader, hdecode, Except.map]
        | ok add =>
            rw [NeededColumn.firstError?_cons_of_none (NeededColumn.fault?_of_ok hthere hdecode),
              NeededColumn.storeAll_cons, NeededColumn.store_of_ok hthere hdecode, hsplit]
            simp only [NeededColumn.reader, hdecode, Except.map]
            rw [← hlength] at hrest
            exact ih (d := { d with record := add d.record, column := seen.length + 1 }) hrest
              hskips hlength.symm hstart
      · rw [hreader, hsplit]
        rw [← hlength] at hrest
        exact ih (d := { d with column := seen.length + 1 }) hrest hskips hlength.symm hstart

theorem split_columns (line : List UInt8) (d : RowDecoder ρ) :
    columns.split columnHandler line d =
      match forM (columnsOf line) takeColumn d with
      | .ok _ d' => endRow d'
      | .error e d' => .error e d' := by
  change Splitter.split ⟨32, true⟩ columnHandler line d = _
  rw [Splitter.split_eq, Assembler.bind_apply]
  have hcolumns : forM (tokens 32 line) columnHandler.token d =
    forM (columnsOf line) takeColumn d := rfl
  rw [hcolumns]
  cases forM (columnsOf line) takeColumn d <;> rfl

theorem endRow_of_skips {d : RowDecoder ρ} (h : d.skips = true ∨ d.column = 0) :
    endRow d = .ok () { d with line := d.line + 1 } := by
  rcases h with h | h <;> simp [endRow, h]

theorem endRow_of_data {d : RowDecoder ρ} (hskips : d.skips = false) (hcolumn : d.column ≠ 0) :
    endRow d =
      if d.column < d.format.requiredColumns then
        .error (.missingColumns d.line d.format.requiredColumns d.column)
          { d with line := d.line + 1 }
      else .ok () { d with line := d.line + 1, finished := some d.record } := by
  simp [endRow, hskips, hcolumn]

/-- A line whose columns are read and whose end is accepted brings the record that is finished
then. -/
theorem token_of_endRow {line : List UInt8} {d d' d'' : RowDecoder ρ} (rows : List ρ)
    (hcolumns : forM (columnsOf line) takeColumn (d.beginRow line) = .ok () d')
    (hend : endRow d' = .ok () d'') :
    ∃ next, next.format = d''.format ∧ next.line = d''.line ∧
      (rowHandler collect).token line (d, rows) = .ok () (next, rows ++ d''.finished.toList) := by
  rw [token_rowHandler, split_columns, hcolumns]
  simp only
  rw [hend]
  cases hfinished : d''.finished with
  | none =>
      simp only [hfinished, Option.toList_none, List.append_nil]
      exact ⟨d'', rfl, rfl, rfl⟩
  | some record =>
      simp only [hfinished]
      exact ⟨{ d'' with finished := none }, rfl, rfl, rfl⟩

theorem token_of_endRow_error {line : List UInt8} {d d' d'' : RowDecoder ρ} {e : RowError}
    (rows : List ρ) (hcolumns : forM (columnsOf line) takeColumn (d.beginRow line) = .ok () d')
    (hend : endRow d' = .error e d'') :
    (rowHandler collect).token line (d, rows) = .error e (d'', rows) := by
  rw [token_rowHandler, split_columns, hcolumns]
  simp only
  rw [hend]

theorem token_of_error {line : List UInt8} {d d' : RowDecoder ρ} {e : RowError} (rows : List ρ)
    (hcolumns : forM (columnsOf line) takeColumn (d.beginRow line) = .error e d') :
    (rowHandler collect).token line (d, rows) = .error e (d', rows) := by
  rw [token_rowHandler, split_columns, hcolumns]

end RowDecoder

namespace RowFormat.Follows

open RowDecoder

variable {ρ : Type} {f : RowFormat ρ} {g : RowGrammar ρ}

theorem ahead (h : f.Follows g) : Ahead f 0 g.needed :=
  ⟨h.ascending, fun _ _ => Nat.zero_le _, fun i _ => h.reader i⟩

/-! ## One line -/

/-- A line that is left out is passed over column by column. -/
theorem forM_of_ignored (h : f.Follows g) {d : RowDecoder ρ} (hd : d.format = f)
    {line : List UInt8} (hignored : g.isIgnored line = true) :
    ∃ skips column, (skips = true ∨ column = 0) ∧
      forM (columnsOf line) takeColumn (d.beginRow line) =
        .ok () { d.beginRow line with skips, column } := by
  subst hd
  rw [h.ignored] at hignored
  cases hcolumns : columnsOf line with
  | nil => exact ⟨_, 0, .inr rfl, rfl⟩
  | cons first rest =>
      cases hdata : d.format.isData line with
      | false =>
          have hskips : (d.beginRow line).skips = true := by simp [beginRow, hdata]
          rw [forM_takeColumn_of_skips _ hskips]
          exact ⟨_, _, .inl hskips, rfl⟩
      | true =>
          have hheader : d.format.isHeader first = true := by simpa [hdata, hcolumns] using hignored
          have hfirst : takeColumn first (d.beginRow line) =
              .ok () { d.beginRow line with skips := true, column := 1 } := by
            simp [takeColumn, readColumn, beginRow, hheader]
          rw [List.forM_cons, Assembler.bind_apply, hfirst]
          exact ⟨true, _, .inl rfl, forM_takeColumn_of_skips rest rfl⟩

/-- What is read of a line with data: its record, or what is wrong with one of its columns. -/
theorem forM_of_data (h : f.Follows g) {d : RowDecoder ρ} (hd : d.format = f)
    {line : List UInt8} (hdata : g.isIgnored line = false) :
    (d.beginRow line).skips = false ∧ (columnsOf line).length ≠ 0 ∧
      match NeededColumn.firstError? d.line (columnsOf line) g.needed with
      | none => forM (columnsOf line) takeColumn (d.beginRow line) = .ok ()
          { d.beginRow line with
            record := g.recordOf line
            column := (columnsOf line).length }
      | some e => ∃ d', forM (columnsOf line) takeColumn (d.beginRow line) = .error e d' := by
  subst hd
  rw [h.ignored, Bool.or_eq_false_iff, Bool.or_eq_false_iff] at hdata
  rcases hdata with ⟨⟨hcolumns, hisData⟩, hheader⟩
  refine ⟨hisData, by simpa using hcolumns, ?_⟩
  rw [RowGrammar.recordOf, ← h.blank]
  exact @forM_takeColumn ρ g.needed [] (columnsOf line) (d.beginRow line) h.ahead hisData rfl
    fun _ => hheader

/-- A line is decoded as the grammar has it, whatever came before it. -/
theorem token_rowHandler (h : f.Follows g) {d : RowDecoder ρ} (hd : d.format = f)
    (line : List UInt8) (rows : List ρ) :
    match g.error? d.line line with
    | none => ∃ d', d'.format = f ∧ d'.line = d.line + 1 ∧
        (rowHandler collect).token line (d, rows) =
          .ok () (d', rows ++ if g.isIgnored line then [] else [g.recordOf line])
    | some e => ∃ d', (rowHandler collect).token line (d, rows) = .error e (d', rows) := by
  rw [RowGrammar.error?]
  cases hignored : g.isIgnored line with
  | true =>
      rcases h.forM_of_ignored hd hignored with ⟨skips, column, hpassed, hcolumns⟩
      rcases token_of_endRow rows hcolumns (endRow_of_skips hpassed) with
        ⟨next, hformat, hline, htoken⟩
      exact ⟨next, hformat.trans hd, hline, htoken⟩
  | false =>
      rcases h.forM_of_data hd hignored with ⟨hskips, hcount, hcolumns⟩
      have hrequired : d.format.requiredColumns = g.required := by rw [hd, h.required]
      have hend := endRow_of_data (d := { d.beginRow line with
        record := g.recordOf line, column := (columnsOf line).length }) hskips hcount
      change endRow _ = if (columnsOf line).length < d.format.requiredColumns then
        .error (.missingColumns d.line d.format.requiredColumns (columnsOf line).length) _
        else _ at hend
      rw [hrequired] at hend
      simp only [Bool.false_eq_true, if_false]
      cases hfirst : NeededColumn.firstError? d.line (columnsOf line) g.needed with
      | some e =>
          rw [hfirst] at hcolumns
          rcases hcolumns with ⟨d', hcolumns⟩
          exact ⟨d', token_of_error rows hcolumns⟩
      | none =>
          rw [hfirst] at hcolumns
          by_cases hshort : (columnsOf line).length < g.required
          · rw [if_pos hshort] at hend
            simp only [if_pos hshort]
            exact ⟨_, token_of_endRow_error rows hcolumns hend⟩
          · rw [if_neg hshort] at hend
            simp only [if_neg hshort]
            rcases token_of_endRow rows hcolumns hend with ⟨next, hformat, hline, htoken⟩
            exact ⟨next, hformat.trans hd, hline, htoken⟩

/-! ## All lines -/

theorem forM_token (h : f.Follows g) (lines : List (List UInt8)) {d : RowDecoder ρ}
    (hd : d.format = f) (rows : List ρ) :
    ∃ d', forM lines (rowHandler collect).token (d, rows) =
      ended (g.reading d.line lines).2 (d', rows ++ (g.reading d.line lines).1) := by
  induction lines generalizing d rows with
  | nil =>
      refine ⟨d, ?_⟩
      rw [RowGrammar.reading, List.append_nil]
      rfl
  | cons line lines ih =>
      have htoken := h.token_rowHandler hd line rows
      rw [List.forM_cons, Assembler.bind_apply, RowGrammar.reading]
      cases herror : g.error? d.line line with
      | some e =>
          rw [herror] at htoken
          rcases htoken with ⟨d', htoken⟩
          refine ⟨d', ?_⟩
          rw [htoken, List.append_nil]
          rfl
      | none =>
          rw [herror] at htoken
          rcases htoken with ⟨d', hformat, hline, htoken⟩
          rcases ih hformat (rows ++ if g.isIgnored line then [] else [g.recordOf line]) with
            ⟨d'', hrest⟩
          refine ⟨d'', ?_⟩
          rw [htoken]
          simp only
          rw [hrest, hline, List.append_assoc]

theorem readRows_eq (h : f.Follows g) (table : List UInt8) :
    readRows f table = g.reading 0 (linesOf table) := by
  rcases h.forM_token (linesOf table) (d := .new f) rfl [] with ⟨d', hlines⟩
  have hdecode : decodeRows collect table (.new f, []) =
      ended (g.reading 0 (linesOf table)).2 (d', (g.reading 0 (linesOf table)).1) := by
    rw [decodeRows_eq_forM]
    exact hlines
  rw [readRows, hdecode]
  cases herror : (g.reading 0 (linesOf table)).2 with
  | none => exact Prod.ext rfl herror.symm
  | some e => exact Prod.ext rfl herror.symm

/-- The rows of a table are the records of the lines before the first that is at fault. -/
theorem fst_readRows (h : f.Follows g) (table : List UInt8) :
    (readRows f table).1 = g.records (linesOf table) := by
  rw [h.readRows_eq, RowGrammar.fst_reading]

theorem snd_readRows_eq_none_iff (h : f.Follows g) (table : List UInt8) :
    (readRows f table).2 = none ↔ ∀ line ∈ linesOf table, ¬ g.IsFaulty line := by
  rw [h.readRows_eq, RowGrammar.snd_reading_eq_none_iff]

/-- The error is that of the first line that is at fault. -/
theorem explains_readRows (h : f.Follows g) {table : List UInt8} {before after : List (List UInt8)}
    {line : List UInt8} (hlines : linesOf table = before ++ line :: after)
    (hbefore : ∀ line ∈ before, ¬ g.IsFaulty line) (hline : g.IsFaulty line) :
    ∃ e, (readRows f table).2 = some e ∧ g.Explains before.length line e := by
  rw [h.readRows_eq, hlines]
  exact RowGrammar.explains_reading h.ascending hbefore hline

end RowFormat.Follows

end QueueWatch
