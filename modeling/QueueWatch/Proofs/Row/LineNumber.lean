import QueueWatch.Proofs.Row.Tables

/-!
# Which line an error names

An error names the row that is at fault by a number. It is the number of lines before the row that
are not blank, since a blank line is no row (`Table.row_eq_newlines_iff`): header rows, rows that
are left out and rows of spaces are counted, and empty lines are not. So it is the number of the
line in the file, counted from zero, just if no line before it is empty.
-/

namespace QueueWatch

/-- The row that an error is about. -/
def RowError.row : RowError → Nat
  | .invalidNumber row _ _ => row
  | .malformedColumn row _ _ => row
  | .missingColumns row _ _ => row

theorem ColumnFault.row_inRow (fault : ColumnFault) (number : Nat) (column : Column)
    (value : List UInt8) : (fault.inRow number column value).row = number := by
  cases fault <;> rfl

/-- Lines as they stand in a table, each with its newline. -/
def closed (lines : List (List UInt8)) : List UInt8 :=
  lines.flatMap (· ++ [10])

theorem count_closed {lines : List (List UInt8)} (h : ∀ line ∈ lines, 10 ∉ line) :
    (closed lines).count 10 = lines.length := by
  induction lines with
  | nil => rfl
  | cons line lines ih =>
      rcases List.forall_mem_cons.1 h with ⟨hline, hlines⟩
      rw [closed, List.flatMap_cons, List.count_append, List.count_append,
        List.count_eq_zero.2 hline, List.count_singleton_self, ← closed, ih hlines,
        List.length_cons]
      omega

theorem closed_cons (line : List UInt8) (lines : List (List UInt8)) :
    closed (line :: lines) = line ++ [10] ++ closed lines :=
  List.flatMap_cons

/-- A line of a table stands behind the lines before it, and a newline follows unless it is the
last one. -/
theorem exists_intercalate_eq (before after : List (List UInt8)) (line : List UInt8) :
    ∃ rest, [10].intercalate (before ++ line :: after) = closed before ++ line ++ rest ∧
      ∀ b ∈ rest.head?, b = 10 := by
  induction before with
  | nil =>
      cases after with
      | nil => exact ⟨[], by simp [closed], by simp⟩
      | cons next after =>
          refine ⟨10 :: [10].intercalate (next :: after), ?_, by simp⟩
          rw [List.nil_append, List.intercalate_cons_cons]
          simp [closed]
  | cons first before ih =>
      rcases ih with ⟨rest, hrest, hhead⟩
      rcases List.exists_cons_of_ne_nil (l := before ++ line :: after) (by simp) with
        ⟨next, others, hothers⟩
      refine ⟨rest, ?_, hhead⟩
      rw [List.cons_append, hothers, List.intercalate_cons_cons, ← hothers, hrest, closed_cons]
      simp only [List.append_assoc]

/-- A line is empty or not. -/
theorem length_nonempty_add_count (lines : List (List UInt8)) :
    (lines.filter (!·.isEmpty)).length + lines.count [] = lines.length := by
  induction lines with
  | nil => rfl
  | cons line lines ih => cases line <;> simp <;> omega

namespace RowGrammar

variable {ρ : Type} {g : RowGrammar ρ}

theorem Explains.row_eq {number : Nat} {line : List UInt8} {e : RowError}
    (h : g.Explains number line e) : e.row = number := by
  cases h with
  | column => exact ColumnFault.row_inRow ..
  | missing => rfl

end RowGrammar

namespace RowFormat.Follows

open RowDecoder

variable {ρ : Type} {f : RowFormat ρ} {g : RowGrammar ρ}

/-- An empty line has no columns. -/
theorem not_isFaulty_nil (h : f.Follows g) : ¬ g.IsFaulty [] := by
  intro hfaulty
  have hignored := hfaulty.1
  rw [h.ignored] at hignored
  simp [columnsOf, tokens] at hignored

/-- The error of a table is about the first of its lines that is at fault, and gives the number of
lines before it that are not empty. -/
theorem exists_faulty_line (h : f.Follows g) {table : List UInt8} {e : RowError}
    (he : (readRows f table).2 = some e) :
    ∃ before line after, table.splitOn 10 = before ++ line :: after ∧
      (∀ earlier ∈ before, ¬ g.IsFaulty earlier) ∧ g.IsFaulty line ∧ g.Explains e.row line e ∧
      e.row + before.count [] = before.length := by
  have hsome : (table.splitOn 10).find? (g.IsFaulty ·) ≠ none := by
    intro hnone
    have hsound := (h.snd_readRows_eq_none_iff table).2 fun line hline => by
      simpa using List.find?_eq_none.1 hnone line (List.mem_filter.1 hline).1
    rw [hsound] at he
    cases he
  rcases Option.ne_none_iff_exists'.1 hsome with ⟨line, hfind⟩
  rcases List.find?_eq_some_iff_append.1 hfind with ⟨hfirst, before, after, hlines, hearlier⟩
  have hline : g.IsFaulty line := of_decide_eq_true hfirst
  have hbefore : ∀ earlier ∈ before, ¬ g.IsFaulty earlier := by simpa using hearlier
  -- Only the empty lines are missing among the rows, and they are not at fault.
  have hrows : linesOf table =
      before.filter (!·.isEmpty) ++ line :: after.filter (!·.isEmpty) := by
    have hne : line ≠ [] := by
      rintro rfl
      exact h.not_isFaulty_nil hline
    rw [linesOf, tokens, hlines, List.filter_append, List.filter_cons_of_pos (by simpa using hne)]
  have hsound : ∀ earlier ∈ before.filter (!·.isEmpty), ¬ g.IsFaulty earlier :=
    fun earlier hearlier => hbefore earlier (List.mem_filter.1 hearlier).1
  rcases h.explains_readRows hrows hsound hline with ⟨e', he', hexplains⟩
  obtain rfl : e' = e := Option.some.inj (he'.symm.trans he)
  refine ⟨before, line, after, hlines, hbefore, hline, ?_, ?_⟩
  · rw [hexplains.row_eq]
    exact hexplains
  · rw [hexplains.row_eq]
    exact length_nonempty_add_count before

end RowFormat.Follows

namespace Table

open RowDecoder

/-- A table that does not decode has a first line that is at fault, and the error is about it. The
number in the error and the empty lines before that line make up the newlines before it. So the
error gives the number of the line in the file just if no line before it is empty. -/
theorem row_eq_newlines_iff (k : Table) {τ : Type} (onRow : τ → k.Record → τ)
    (d : RowDecoder k.Record) (t : τ) (table : List UInt8) (e : RowError)
    (s : RowDecoder k.Record × τ)
    (h : decodeRows onRow table ({ d with format := k.format }, t) = .error e s) :
    ∃ before line rest, table = closed before ++ line ++ rest ∧ (∀ b ∈ rest.head?, b = 10) ∧
      (∀ earlier ∈ before, 10 ∉ earlier ∧ ¬ k.grammar.IsFaulty earlier) ∧
      10 ∉ line ∧ k.grammar.IsFaulty line ∧ k.grammar.Explains e.row line e ∧
      e.row + before.count [] = (closed before).count 10 ∧
      (e.row = (closed before).count 10 ↔ [] ∉ before) := by
  have herror : (readRows k.format table).2 = some e := by
    rcases decodeRows_eq onRow table { d with format := k.format } t with ⟨d', -, hdecode⟩
    rw [h] at hdecode
    cases hread : (readRows k.format table).2 with
    | none => simp [hread, ended] at hdecode
    | some e' =>
        simp only [hread, ended, EStateM.Result.error.injEq] at hdecode
        rw [hdecode.1]
  rcases k.follows.exists_faulty_line herror with
    ⟨before, line, after, hlines, hsound, hfaulty, hexplains, hrow⟩
  have hbytes : ∀ l ∈ before ++ line :: after, 10 ∉ l := by
    intro l hl
    rw [← hlines] at hl
    exact not_mem_of_mem_splitOn hl
  have hbefore : ∀ earlier ∈ before, 10 ∉ earlier :=
    fun earlier hearlier => hbytes earlier (List.mem_append_left _ hearlier)
  rcases exists_intercalate_eq before after line with ⟨rest, htable, hrest⟩
  rw [← hlines, List.intercalate_splitOn] at htable
  have hcount := count_closed hbefore
  refine ⟨before, line, rest, htable, hrest, fun l hl => ⟨hbefore l hl, hsound l hl⟩,
    hbytes line (by simp), hfaulty, hexplains, hrow.trans hcount.symm, ?_⟩
  rw [hcount, ← hrow, ← List.count_eq_zero]
  omega

/-- A row of another protocol, a header, a line of spaces and an empty line come before the line
that is at fault. -/
def ledTable : List UInt8 :=
  Text.Utf8.encode "Ip: 1\nUdp: InD\n  \n\nUdp: 1 2 x\n"

theorem row_eq_newlines_iff_led :
    ∃ e s, decodeRows collect ledTable (.new .snmp, []) = .error e s ∧ e.row = 3 ∧
      ∃ before line rest, ledTable = closed before ++ line ++ rest ∧ (grammar .snmp).IsFaulty line ∧
        e.row + before.count [] = (closed before).count 10 := by
  have hread : (readRows .snmp ledTable).2 =
      some (.invalidNumber 3 .inErrors (.invalidDigit 0x78)) := by
    decide +kernel
  rcases decodeRows_eq collect ledTable (.new .snmp) [] with ⟨d', -, hdecode⟩
  change _ = ended (readRows .snmp ledTable).2 _ at hdecode
  rw [hread] at hdecode
  rcases row_eq_newlines_iff .snmp collect (.new .snmp) [] ledTable _ _ hdecode with
    ⟨before, line, rest, htable, -, -, -, hfaulty, -, hrow, -⟩
  exact ⟨_, _, hdecode, rfl, before, line, rest, htable, hfaulty, hrow⟩

/-- A table with an empty line before the line that is at fault. -/
def gappedTable : List UInt8 :=
  Text.Utf8.encode "01 02 03\n\n01 0g 03\n"

/-- Two newlines stand before the line that is at fault, but the error calls it row 1. -/
theorem not_row_eq_newlines_gapped :
    gappedTable = closed [Text.Utf8.encode "01 02 03", []] ++ Text.Utf8.encode "01 0g 03" ++ [10] ∧
      (grammar .softnet).IsFaulty (Text.Utf8.encode "01 0g 03") ∧
      (closed [Text.Utf8.encode "01 02 03", []]).count 10 = 2 ∧
      ∃ s, decodeRows collect gappedTable (.new .softnet, []) =
        .error (.invalidNumber 1 .dropped (.invalidDigit 0x67)) s := by
  have hread : (readRows .softnet gappedTable).2 =
      some (.invalidNumber 1 .dropped (.invalidDigit 0x67)) := by
    decide +kernel
  rcases decodeRows_eq collect gappedTable (.new .softnet) [] with ⟨d', -, hdecode⟩
  change _ = ended (readRows .softnet gappedTable).2 _ at hdecode
  rw [hread] at hdecode
  exact ⟨by decide +kernel, by decide +kernel, by decide +kernel, _, hdecode⟩

end Table

end QueueWatch
