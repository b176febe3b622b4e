import LoadReplay.Csv.Record
import LoadReplay.Report.Basic
import Mathlib.Data.List.TakeWhile

/-!
# Reading back what was written

A `table` is rows of cells, each row written on a line of its own. A cell that is written in quotes
may hold line breaks, so a row may span several lines; but every such break stands behind an odd
number of quotes, and after a row their number is even (`quoted_writeRow`). Hence the records of
a table are its rows, and the fields of each are its cells (`table_reads_back`).
-/

namespace LoadReplay.Csv

/-- Rows of cells, each on a line of its own. -/
def table (rows : List (List (Option (List Char)))) : List Char :=
  rows.flatMap fun row => writeRow row ++ ['\n']

theorem table_cons (row : List (Option (List Char))) (rows : List (List (Option (List Char)))) :
    table (row :: rows) = writeRow row ++ '\n' :: table rows := by
  rw [table, List.flatMap_cons, List.append_assoc]
  rfl

/-! ## Written cells -/

theorem writeCell_of_plain {cell : List Char} (h : needsQuotes cell = false) :
    writeCell cell = cell := by
  simp [writeCell, h]

theorem writeCell_of_quoted {cell : List Char} (h : needsQuotes cell = true) :
    writeCell cell = '"' :: (doubleQuotes cell ++ ['"']) := by
  simp [writeCell, h]

theorem doubleQuotes_cons (c : Char) (cell : List Char) :
    doubleQuotes (c :: cell) = (if c = '"' then ['"', '"'] else [c]) ++ doubleQuotes cell :=
  List.flatMap_cons

/-- A plain cell holds none of the characters that have a meaning. -/
theorem not_mem_of_plain {cell : List Char} (h : needsQuotes cell = false) :
    comma ∉ cell ∧ '"' ∉ cell ∧ '\n' ∉ cell ∧ '\r' ∉ cell := by
  simp only [needsQuotes, List.any_eq_false, Bool.or_eq_true, beq_iff_eq, not_or] at h
  exact ⟨fun hc => (h _ hc).1.1.1 rfl, fun hc => (h _ hc).1.1.2 rfl, fun hc => (h _ hc).1.2 rfl,
    fun hc => (h _ hc).2 rfl⟩

theorem writeRow_singleton (cell : Option (List Char)) :
    writeRow [cell] = writeCell (cell.getD []) := by
  simp [writeRow, List.intercalate]

theorem writeRow_cons_cons (cell next : Option (List Char)) (cells : List (Option (List Char))) :
    writeRow (cell :: next :: cells) =
      writeCell (cell.getD []) ++ comma :: writeRow (next :: cells) := by
  rw [writeRow, List.map_cons, List.map_cons, List.intercalate_cons_cons, List.append_assoc]
  rfl

/-! ## The ends of cells and rows -/

/-- A written cell ends in none of the characters that a reader takes off or that end a cell. -/
theorem getLast?_writeCell {cell : List Char} {c : Char} (h : (writeCell cell).getLast? = some c) :
    c ≠ comma ∧ c ≠ '\r' := by
  cases hneeds : needsQuotes cell with
  | true =>
    rw [writeCell_of_quoted hneeds, ← List.cons_append, List.getLast?_concat] at h
    cases h
    decide
  | false =>
    obtain ⟨hcomma, -, -, hreturn⟩ := not_mem_of_plain hneeds
    rw [writeCell_of_plain hneeds] at h
    have hmem := List.mem_of_getLast? h
    exact ⟨fun hc => hcomma (hc ▸ hmem), fun hc => hreturn (hc ▸ hmem)⟩

theorem getLast?_writeRow_cons_cons (cell next : Option (List Char))
    (cells : List (Option (List Char))) : (writeRow (cell :: next :: cells)).getLast? =
      (comma :: writeRow (next :: cells)).getLast? := by
  rw [writeRow_cons_cons, List.getLast?_append, List.getLast?_cons]
  rfl

theorem getLast?_writeRow {cells : List (Option (List Char))} {c : Char}
    (h : (writeRow cells).getLast? = some c) : c ≠ '\r' := by
  induction cells with
  | nil => cases h
  | cons cell cells ih =>
    cases cells with
    | nil => exact (getLast?_writeCell (writeRow_singleton cell ▸ h)).2
    | cons next cells =>
      rw [getLast?_writeRow_cons_cons] at h
      by_cases hrest : writeRow (next :: cells) = []
      · rw [hrest] at h
        cases h
        decide
      · exact ih (List.getLast?_cons_of_ne_nil hrest ▸ h)

/-- Nothing is taken off a record that does not end in a carriage return. -/
theorem closeRecord_of_head {reversed : List Char} (h : reversed.head? ≠ some '\r') :
    closeRecord reversed = reversed.reverse := by
  rw [closeRecord]
  cases reversed with
  | nil => rfl
  | cons c cs =>
    have hc : (c == '\r') = false := beq_eq_false_iff_ne.2 fun hc => h (congrArg some hc)
    rw [List.dropWhile_cons, hc, if_neg Bool.false_ne_true]

theorem closeRecord_writeRow (cells : List (Option (List Char))) :
    closeRecord (writeRow cells).reverse = writeRow cells := by
  have hhead : (writeRow cells).reverse.head? ≠ some '\r' := by
    rw [List.head?_reverse]
    exact fun h => getLast?_writeRow h rfl
  rw [closeRecord_of_head hhead, List.reverse_reverse]

/-! ## Fields -/

theorem quotedPart_of_quote {rest : List Char} (h : rest.head? ≠ some '"') :
    quotedPart ('"' :: rest) = ([], rest) := by
  cases rest with
  | nil => rfl
  | cons c rest =>
    have hc : c ≠ '"' := fun hc => h (congrArg some hc)
    simp [quotedPart, hc]

theorem quotedPart_of_ne {c : Char} (h : c ≠ '"') (rest : List Char) :
    quotedPart (c :: rest) = (c :: (quotedPart rest).1, (quotedPart rest).2) := by
  simp [quotedPart, h]

/-- The quoted part of a written cell is the cell. -/
theorem quotedPart_doubleQuotes (cell : List Char) {rest : List Char} (h : rest.head? ≠ some '"') :
    quotedPart (doubleQuotes cell ++ '"' :: rest) = (cell, rest) := by
  induction cell with
  | nil => exact quotedPart_of_quote h
  | cons c cell ih =>
    rw [doubleQuotes_cons, List.append_assoc]
    split
    next hc =>
      change quotedPart ('"' :: '"' :: (doubleQuotes cell ++ '"' :: rest)) = _
      rw [quotedPart, ih, hc]
    next hc =>
      rw [List.singleton_append, quotedPart_of_ne hc, ih]

theorem nextField_of_head {delimiter : Char} {cs : List Char} (h : cs.head? ≠ some '"') :
    nextField delimiter cs = (beforeDelimiter delimiter cs, afterDelimiter delimiter cs) :=
  nextField.eq_2 _ _ fun rest heq => h (by rw [heq, List.head?_cons])

theorem afterDelimiter_of_not_mem {delimiter : Char} {cs : List Char} (h : delimiter ∉ cs) :
    afterDelimiter delimiter cs = [] := by
  induction cs with
  | nil => rfl
  | cons c cs ih =>
    obtain ⟨hc, hcs⟩ := List.ne_and_not_mem_of_not_mem_cons h
    rw [afterDelimiter, if_neg hc.symm, ih hcs]

theorem afterDelimiter_append {delimiter : Char} {cs : List Char} (rest : List Char)
    (h : delimiter ∉ cs) : afterDelimiter delimiter (cs ++ delimiter :: rest) = rest := by
  induction cs with
  | nil => rw [List.nil_append, afterDelimiter, if_pos rfl]
  | cons c cs ih =>
    obtain ⟨hc, hcs⟩ := List.ne_and_not_mem_of_not_mem_cons h
    rw [List.cons_append, afterDelimiter, if_neg hc.symm, ih hcs]

theorem bne_delimiter {delimiter : Char} {cs : List Char} (h : delimiter ∉ cs) :
    ∀ c ∈ cs, (c != delimiter) = true :=
  fun _ hc => bne_iff_ne.2 fun heq => h (heq ▸ hc)

theorem beforeDelimiter_of_not_mem {delimiter : Char} {cs : List Char} (h : delimiter ∉ cs) :
    beforeDelimiter delimiter cs = cs :=
  List.takeWhile_eq_self_iff.2 (bne_delimiter h)

theorem beforeDelimiter_append {delimiter : Char} {cs : List Char} (rest : List Char)
    (h : delimiter ∉ cs) : beforeDelimiter delimiter (cs ++ delimiter :: rest) = cs := by
  rw [beforeDelimiter, List.takeWhile_append_of_pos (bne_delimiter h),
    List.takeWhile_cons_of_neg (by simp), List.append_nil]

/-- The first field of a written cell is the cell. -/
theorem nextField_writeCell (cell : List Char) : nextField comma (writeCell cell) = (cell, []) := by
  cases hneeds : needsQuotes cell with
  | true =>
    rw [writeCell_of_quoted hneeds, nextField, quotedPart_doubleQuotes cell (by simp)]
    rfl
  | false =>
    obtain ⟨hcomma, hquote, -⟩ := not_mem_of_plain hneeds
    rw [writeCell_of_plain hneeds, nextField_of_head fun h => hquote (List.mem_of_head? h),
      beforeDelimiter_of_not_mem hcomma, afterDelimiter_of_not_mem hcomma]

theorem nextField_writeCell_append (cell rest : List Char) :
    nextField comma (writeCell cell ++ comma :: rest) = (cell, rest) := by
  have hcomma : comma ≠ '"' := by decide
  cases hneeds : needsQuotes cell with
  | true =>
    have hquoted : quotedPart (doubleQuotes cell ++ ['"'] ++ comma :: rest) =
        (cell, comma :: rest) := by
      rw [List.append_assoc, List.singleton_append]
      exact quotedPart_doubleQuotes cell (by simpa using hcomma)
    rw [writeCell_of_quoted hneeds, List.cons_append, nextField, hquoted]
    exact congrArg (Prod.mk cell) (if_pos rfl)
  | false =>
    obtain ⟨hmem, hquote, -⟩ := not_mem_of_plain hneeds
    have hhead : (cell ++ comma :: rest).head? ≠ some '"' := by
      cases cell with
      | nil => simpa using hcomma
      | cons c cell => exact fun h => hquote (List.mem_cons.2 (.inl (Option.some.inj h).symm))
    rw [writeCell_of_plain hneeds, nextField_of_head hhead, beforeDelimiter_append rest hmem,
      afterDelimiter_append rest hmem]

theorem fieldsFrom_of_last {delimiter : Char} {ends : Bool} {cs field : List Char}
    (h : nextField delimiter cs = (field, [])) :
    fieldsFrom delimiter ends cs = if ends then [field, []] else [field] := by
  have hrest : (nextField delimiter cs).2 = [] := congrArg Prod.snd h
  rw [fieldsFrom, dif_pos hrest, h]

theorem fieldsFrom_of_next {delimiter : Char} {ends : Bool} {cs field rest : List Char}
    (h : nextField delimiter cs = (field, rest)) (hne : rest ≠ []) :
    fieldsFrom delimiter ends cs = field :: fieldsFrom delimiter ends rest := by
  have hrest : (nextField delimiter cs).2 ≠ [] := h ▸ hne
  rw [fieldsFrom, dif_neg hrest]
  dsimp only
  rw [h]

/-- The fields of a written row are its cells. -/
theorem fields_writeRow {cells : List (Option (List Char))} (h : cells ≠ []) :
    fields comma (writeRow cells) = cells.map (·.getD []) := by
  unfold fields
  induction cells with
  | nil => exact absurd rfl h
  | cons cell cells ih =>
    cases cells with
    | nil =>
      have hlast : ((writeCell (cell.getD [])).getLast? == some comma) = false :=
        beq_eq_false_iff_ne.2 fun hlast => (getLast?_writeCell hlast).1 rfl
      rw [writeRow_singleton, hlast, fieldsFrom_of_last (nextField_writeCell _)]
      rfl
    | cons next cells =>
      have hread := nextField_writeCell_append (cell.getD []) (writeRow (next :: cells))
      have ih := ih (List.cons_ne_nil _ _)
      rw [getLast?_writeRow_cons_cons, writeRow_cons_cons]
      by_cases hrest : writeRow (next :: cells) = []
      · have hnil : nextField comma [] = ([], []) := rfl
        rw [hrest, fieldsFrom_of_last hnil] at ih
        rw [hrest, fieldsFrom_of_last (hrest ▸ hread), List.map_cons, ← ih]
        rfl
      · rw [fieldsFrom_of_next hread hrest, List.getLast?_cons_of_ne_nil hrest, ih]
        rfl

/-! ## Records -/

/-- Whether every line break of a text stands inside quotes, `quoted` telling whether the text
begins there. -/
def breaksQuoted (quoted : Bool) : List Char → Bool
  | [] => true
  | c :: cs => (quoted || c != '\n') && breaksQuoted (if c = '"' then !quoted else quoted) cs

/-- Whether a text that begins inside quotes if `quoted` holds ends inside them. -/
def endsQuoted (quoted : Bool) : List Char → Bool
  | [] => quoted
  | c :: cs => endsQuoted (if c = '"' then !quoted else quoted) cs

theorem endsQuoted_append (quoted : Bool) (xs ys : List Char) :
    endsQuoted quoted (xs ++ ys) = endsQuoted (endsQuoted quoted xs) ys := by
  induction xs generalizing quoted with
  | nil => rfl
  | cons c xs ih => exact ih _

theorem breaksQuoted_append (quoted : Bool) (xs ys : List Char) :
    breaksQuoted quoted (xs ++ ys) =
      (breaksQuoted quoted xs && breaksQuoted (endsQuoted quoted xs) ys) := by
  induction xs generalizing quoted with
  | nil => rfl
  | cons c xs ih =>
    rw [List.cons_append, breaksQuoted, ih, breaksQuoted, endsQuoted, Bool.and_assoc]

/-- A text whose line breaks are all quoted is one record. -/
theorem recordsFrom_break {quoted : Bool} {cs : List Char} (hbreaks : breaksQuoted quoted cs = true)
    (hends : endsQuoted quoted cs = false) (start line : Nat) (reversed rest : List Char) :
    recordsFrom quoted start line reversed (cs ++ '\n' :: rest) =
      ⟨start, closeRecord (cs.reverse ++ reversed)⟩ ::
        recordsFrom false (line + cs.count '\n' + 1) (line + cs.count '\n' + 1) [] rest := by
  induction cs generalizing quoted line reversed with
  | nil =>
    rw [endsQuoted] at hends
    subst hends
    rfl
  | cons c cs ih =>
    obtain ⟨hc, hcs⟩ := Bool.and_eq_true_iff.1 hbreaks
    have ih := ih hcs hends
    rw [List.cons_append, recordsFrom, List.reverse_cons, List.append_assoc, List.singleton_append]
    by_cases hbreak : c = '\n'
    · subst hbreak
      have hquoted : quoted = true := by simpa using hc
      rw [if_pos rfl, if_pos hquoted, List.count_cons_self]
      have ih := ih (line + 1) ('\n' :: reversed)
      rw [if_neg (by decide)] at ih
      rw [ih]
      simp only [Nat.add_assoc, Nat.add_comm 1]
    · rw [if_neg hbreak, ih, List.count_cons_of_ne hbreak]

theorem quoted_doubleQuotes (cell : List Char) :
    breaksQuoted true (doubleQuotes cell) = true ∧ endsQuoted true (doubleQuotes cell) = true := by
  induction cell with
  | nil => exact ⟨rfl, rfl⟩
  | cons c cell ih =>
    rw [doubleQuotes_cons]
    split
    next => exact ih
    next hc => simpa [breaksQuoted, endsQuoted, hc] using ih

theorem quoted_of_plain {cell : List Char} (hbreak : '\n' ∉ cell) (hquote : '"' ∉ cell) :
    breaksQuoted false cell = true ∧ endsQuoted false cell = false := by
  induction cell with
  | nil => exact ⟨rfl, rfl⟩
  | cons c cell ih =>
    obtain ⟨hc, hcell⟩ := List.ne_and_not_mem_of_not_mem_cons hbreak
    obtain ⟨hc', hcell'⟩ := List.ne_and_not_mem_of_not_mem_cons hquote
    simpa [breaksQuoted, endsQuoted, hc.symm, hc'.symm] using ih hcell hcell'

/-- The line breaks of a written cell are quoted, and after it none would be. -/
theorem quoted_writeCell (cell : List Char) :
    breaksQuoted false (writeCell cell) = true ∧ endsQuoted false (writeCell cell) = false := by
  cases hneeds : needsQuotes cell with
  | true =>
    obtain ⟨hbreaks, hends⟩ := quoted_doubleQuotes cell
    rw [writeCell_of_quoted hneeds]
    change breaksQuoted true (doubleQuotes cell ++ ['"']) = true ∧
      endsQuoted true (doubleQuotes cell ++ ['"']) = false
    rw [breaksQuoted_append, endsQuoted_append, hbreaks, hends]
    exact ⟨rfl, rfl⟩
  | false =>
    obtain ⟨-, hquote, hbreak, -⟩ := not_mem_of_plain hneeds
    rw [writeCell_of_plain hneeds]
    exact quoted_of_plain hbreak hquote

/-- The line breaks of a written row are quoted, and after it none would be. -/
theorem quoted_writeRow (cells : List (Option (List Char))) :
    breaksQuoted false (writeRow cells) = true ∧ endsQuoted false (writeRow cells) = false := by
  induction cells with
  | nil => exact ⟨rfl, rfl⟩
  | cons cell cells ih =>
    obtain ⟨hbreaks, hends⟩ := quoted_writeCell (cell.getD [])
    cases cells with
    | nil =>
      rw [writeRow_singleton]
      exact ⟨hbreaks, hends⟩
    | cons next cells =>
      rw [writeRow_cons_cons, breaksQuoted_append, endsQuoted_append, hbreaks, hends]
      exact ih

/-- The records of a table are its rows. -/
theorem recordsFrom_table (line : Nat) (rows : List (List (Option (List Char)))) :
    recordsFrom false line line [] (table rows) =
      rows.mapIdx fun i row => ⟨line + (table (rows.take i)).count '\n', writeRow row⟩ := by
  induction rows generalizing line with
  | nil => rfl
  | cons row rows ih =>
    obtain ⟨hbreaks, hends⟩ := quoted_writeRow row
    have hline (i : Nat) : line + (writeRow row).count '\n' + 1 + (table (rows.take i)).count '\n' =
        line + (table ((row :: rows).take (i + 1))).count '\n' := by
      rw [List.take_succ_cons, table_cons, List.count_append, List.count_cons_self]
      omega
    rw [table_cons, recordsFrom_break hbreaks hends, List.append_nil, closeRecord_writeRow, ih,
      List.mapIdx_cons]
    simp only [hline]
    rfl

theorem records_table (rows : List (List (Option (List Char)))) : records (table rows) =
    rows.mapIdx fun i row => ⟨1 + (table (rows.take i)).count '\n', writeRow row⟩ :=
  recordsFrom_table 1 rows

/-- The fields of the records of a table are its cells. -/
theorem map_fields_records_table {rows : List (List (Option (List Char)))}
    (h : ∀ row ∈ rows, row ≠ []) :
    (records (table rows)).map (fun r => fields comma r.text) =
      rows.map fun row => row.map (·.getD []) := by
  refine List.ext_getElem? fun i => ?_
  rw [records_table, List.getElem?_map, List.getElem?_map, List.getElem?_mapIdx, Option.map_map]
  refine Option.map_congr fun row hrow => ?_
  exact fields_writeRow (h row (List.mem_of_getElem? hrow))

/-! ## Reports -/

/-- The columns and the measurements, row by row. -/
def reportRows (measurements : List Measurement) : List (List (Option String)) :=
  Report.columns.map some :: measurements.map (·.cells)

/-- A report is a table of its rows. -/
theorem text_eq_table (measurements : List Measurement) : Report.text measurements = table
    ((reportRows measurements).map fun row => row.map fun cell => cell.map String.toList) := by
  rw [Report.text, table, List.flatMap_map, reportRows, List.flatMap_cons, List.flatMap_map]
  rfl

theorem ne_nil_of_mem_reportRows {measurements : List Measurement} {row : List (Option String)}
    (h : row ∈ reportRows measurements) : row ≠ [] := by
  rcases List.mem_cons.1 h with rfl | h
  · exact List.cons_ne_nil _ _
  · obtain ⟨m, -, rfl⟩ := List.mem_map.1 h
    exact List.cons_ne_nil _ _

theorem map_fields_records_report (measurements : List Measurement) :
    (records (Report.text measurements)).map (fun r => fields comma r.text) =
      (reportRows measurements).map fun row => row.map fun cell => (cell.getD "").toList := by
  rw [text_eq_table, map_fields_records_table, List.map_map]
  · refine List.map_congr_left fun row _ => ?_
    rw [Function.comp_apply, List.map_map]
    refine List.map_congr_left fun cell _ => ?_
    cases cell <;> rfl
  · intro row hrow
    obtain ⟨cells, hcells, rfl⟩ := List.mem_map.1 hrow
    exact fun heq => ne_nil_of_mem_reportRows hcells (List.map_eq_nil_iff.1 heq)

/-- A table is read back as it was written: each row is a record, on the line where it was written,
and its fields are the cells of the row. So the rows of a report are its columns and the cells of
its measurements, whatever texts they hold. -/
theorem table_reads_back (rows : List (List (Option (List Char)))) (h : ∀ row ∈ rows, row ≠ []) :
    records (table rows) =
        rows.mapIdx (fun i row => ⟨1 + (table (rows.take i)).count '\n', writeRow row⟩) ∧
      (∀ row ∈ rows, fields comma (writeRow row) = row.map (·.getD [])) ∧
      ∀ measurements : List Measurement,
        (records (Report.text measurements)).map (fun r => fields comma r.text) =
            Report.columns.map String.toList ::
              measurements.map (fun m => m.cells.map fun cell => (cell.getD "").toList) ∧
          Report.columns.length = 8 ∧ ∀ m ∈ measurements, m.cells.length = 8 := by
  refine ⟨records_table rows, fun row hrow => fields_writeRow (h row hrow), fun measurements => ?_⟩
  refine ⟨(map_fields_records_report measurements).trans ?_, rfl, fun m _ => rfl⟩
  rw [reportRows, List.map_cons, List.map_map, List.map_map]
  rfl

/-- Rows with cells that hold commas, quotes, line breaks and nothing. -/
def sampleRows : List (List (Option (List Char))) :=
  [[some "a,b".toList, none], [some "say \"x\"\r\ny".toList], [none]]

theorem table_reads_back_sample :
    (∀ row ∈ sampleRows, row ≠ []) ∧ (records (table sampleRows)).map (·.line) = [1, 2, 4] ∧
      fields comma (writeRow [some "say \"x\"\r\ny".toList]) = ["say \"x\"\r\ny".toList] := by
  have hrows : ∀ row ∈ sampleRows, row ≠ [] := by decide
  obtain ⟨hrecords, hfields, -⟩ := table_reads_back sampleRows hrows
  refine ⟨hrows, ?_, hfields _ (by decide)⟩
  rw [hrecords]
  decide

end LoadReplay.Csv
