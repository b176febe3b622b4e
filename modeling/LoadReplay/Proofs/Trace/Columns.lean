import LoadReplay.Proofs.Trace.Reading
import Mathlib.Data.List.Nodup

/-!
# Columns by name

A `sheet` is a table whose columns have names and cells of their own. Its rows hold commas, so none
of them is blank, and each is a record whose fields are the cells of the columns, in whatever order
these stand. A row is read from the cells of three columns, which are found by their names
(`ofRecord_eq_renumbered`); the others decide nothing but how many lines a row takes.

So the rows of a sheet, or its fault, do not depend on the order of its columns, and all sheets that
share the three columns have the same ones but for the numbers of the lines (`columns_by_name`).
-/

namespace LoadReplay

namespace Csv

/-- A column of a table with `n` rows: what is written in the header, and in each row. -/
structure NamedColumn (n : Nat) where
  heading : List Char
  cells : Fin n → Option (List Char)

/-- The name of a column. -/
def NamedColumn.name {n : Nat} (column : NamedColumn n) : String :=
  Header.columnName column.heading

variable {n : Nat}

/-- A row of columns. -/
def sheetRow (columns : List (NamedColumn n)) (i : Fin n) : List (Option (List Char)) :=
  columns.map fun column => column.cells i

/-- The rows of columns, behind the header. -/
def sheetRows (columns : List (NamedColumn n)) : List (List (Option (List Char))) :=
  columns.map (some ·.heading) :: (List.finRange n).map (sheetRow columns)

/-- The table of columns. -/
def sheet (columns : List (NamedColumn n)) : List Char := table (sheetRows columns)

/-- The number of the line that a row of a sheet starts on, the rows being counted from zero. -/
def lineOf (columns : List (NamedColumn n)) (row : Nat) : Nat :=
  1 + (table ((sheetRows columns).take (row + 1))).count '\n'

theorem records_sheet (columns : List (NamedColumn n)) : records (sheet columns) =
    ⟨1, writeRow (columns.map (some ·.heading))⟩ ::
      (List.finRange n).map fun i => ⟨lineOf columns i, writeRow (sheetRow columns i)⟩ := by
  rw [sheet, records_table, sheetRows, List.mapIdx_cons]
  refine congrArg₂ List.cons rfl (List.ext_getElem (by simp) fun i _ _ => ?_)
  simp only [List.getElem_mapIdx, List.getElem_map, List.getElem_finRange]
  rfl

/-! ## Lines of a row -/

theorem count_doubleQuotes (cell : List Char) :
    (doubleQuotes cell).count '\n' = cell.count '\n' := by
  induction cell with
  | nil => rfl
  | cons c cell ih =>
    have hfirst : (if c = '"' then ['"', '"'] else [c]).count '\n' = [c].count '\n' := by
      split_ifs with hc
      · rw [hc]
        decide
      · rfl
    rw [doubleQuotes_cons, List.count_append, ih, hfirst, ← List.count_append,
      List.singleton_append]

theorem count_writeCell (cell : List Char) : (writeCell cell).count '\n' = cell.count '\n' := by
  cases hneeds : needsQuotes cell with
  | true =>
    rw [writeCell_of_quoted hneeds, List.count_cons_of_ne (by decide), List.count_append,
      count_doubleQuotes]
    rfl
  | false => rw [writeCell_of_plain hneeds]

theorem count_writeRow_cons (cell : Option (List Char)) (cells : List (Option (List Char))) :
    (writeRow (cell :: cells)).count '\n' =
      (cell.getD []).count '\n' + (writeRow cells).count '\n' := by
  cases cells with
  | nil => rw [writeRow_singleton, count_writeCell]; rfl
  | cons next cells =>
    rw [writeRow_cons_cons, List.count_append, count_writeCell, List.count_cons_of_ne (by decide)]

/-- A row takes as many lines in any order of its cells. -/
theorem count_writeRow_of_perm {cells cells' : List (Option (List Char))} (h : cells.Perm cells') :
    (writeRow cells).count '\n' = (writeRow cells').count '\n' := by
  induction h with
  | nil => rfl
  | cons cell _ ih => rw [count_writeRow_cons, count_writeRow_cons, ih]
  | swap => simp only [count_writeRow_cons, Nat.add_left_comm]
  | trans _ _ ih ih' => exact ih.trans ih'

theorem count_table_of_perm {rows rows' : List (List (Option (List Char)))}
    (h : List.Forall₂ List.Perm rows rows') :
    (table rows).count '\n' = (table rows').count '\n' := by
  induction h with
  | nil => rfl
  | cons hrow _ ih =>
    rw [table_cons, table_cons, List.count_append, List.count_append, List.count_cons_self,
      List.count_cons_self, ih, count_writeRow_of_perm hrow]

theorem lineOf_of_perm {columns columns' : List (NamedColumn n)} (h : columns.Perm columns') :
    lineOf columns = lineOf columns' := by
  have hrows : List.Forall₂ List.Perm (sheetRows columns) (sheetRows columns') := by
    refine .cons (h.map _) ?_
    rw [List.forall₂_map_left_iff, List.forall₂_map_right_iff, List.forall₂_same]
    exact fun i _ => h.map _
  funext row
  rw [lineOf, lineOf, count_table_of_perm (List.forall₂_take (row + 1) hrows)]

/-- A row of two cells holds a comma. -/
theorem isBlankText_writeRow (cell next : Option (List Char)) (cells : List (Option (List Char))) :
    Text.isBlankText (writeRow (cell :: next :: cells)) = false := by
  have hcomma : Text.isBlank comma = false := by decide
  rw [writeRow_cons_cons, Text.isBlankText, List.all_append, List.all_cons, hcomma,
    Bool.false_and, Bool.and_false]

/-! ## Names -/

theorem column?_name {columns : List (NamedColumn n)} (h : (columns.map (·.name)).Nodup)
    {place : Nat} {column : NamedColumn n} (hcolumn : columns[place]? = some column) :
    Header.column? ⟨columns.map (·.name)⟩ column.name = some place := by
  obtain ⟨hlt, rfl⟩ := List.getElem?_eq_some_iff.1 hcolumn
  have hlength : place < (columns.map (·.name)).length := by rwa [List.length_map]
  have hname : (columns.map (·.name))[place] = columns[place].name := List.getElem_map _
  rw [Header.column?, List.idxOf?_eq_some_iff]
  refine ⟨hlength, hname, fun j hj heq => hj.ne ?_⟩
  exact (List.Nodup.getElem_inj_iff h).1 (heq.trans hname.symm)

end Csv

/-! ## Numbers of lines -/

/-- A fault whose line has another number. -/
def TableFault.renumber (f : Nat → Nat) : TableFault → TableFault
  | missingField line name => missingField (f line) name
  | badTimestamp line text => badTimestamp (f line) text
  | badCount line name text => badCount (f line) name text
  | noHeader => noHeader
  | missingColumn name header => missingColumn name header
  | noRows => noRows

namespace TraceRow

open Csv

/-- A row whose line has another number. -/
def renumber (f : Nat → Nat) (row : TraceRow) : TraceRow := { row with line := f row.line }

/-- The rows, or the fault, with other numbers of the lines. -/
def renumbered (f : Nat → Nat) (read : Except TableFault (List TraceRow)) :
    Except TableFault (List TraceRow) :=
  (read.map (List.map (renumber f))).mapError (TableFault.renumber f)

/-- Two records hold the same in the three columns, wherever each has these, and the line of one
tells that of the other. -/
structure SameCells (f : Nat → Nat) (columns columns' : Columns) (record record' : Record) :
    Prop where
  line_eq : record'.line = f record.line
  timestamp : (fields comma record'.text)[columns'.timestamp]? =
    (fields comma record.text)[columns.timestamp]?
  context : (fields comma record'.text)[columns'.context]? =
    (fields comma record.text)[columns.context]?
  generated : (fields comma record'.text)[columns'.generated]? =
    (fields comma record.text)[columns.generated]?

section

variable {f : Nat → Nat} {line place place' : Nat} {cells cells' : List (List Char)}

theorem cell_eq_mapError (h : cells'[place']? = cells[place]?) (name : String) :
    cell (f line) cells' place' name =
      (cell line cells place name).mapError (TableFault.renumber f) := by
  rw [cell, cell, h]
  cases cells[place]? <;> rfl

theorem count_eq_mapError (h : cells'[place']? = cells[place]?) (name : String) :
    count (f line) cells' place' name =
      (count line cells place name).mapError (TableFault.renumber f) := by
  cases hfield : cells[place]? with
  | none =>
    rw [count_of_no_field hfield, count_of_no_field (h.trans hfield)]
    rfl
  | some field =>
    rw [count_of_field hfield, count_of_field (h.trans hfield)]
    cases Text.natBelow? countBound (Text.trim field) <;> rfl

end

variable {f : Nat → Nat} {found found' : Columns}

theorem ofRecord_eq_renumbered {record record' : Record}
    (h : SameCells f found found' record record') : ofRecord found' record' =
      ((ofRecord found record).map (renumber f)).mapError (TableFault.renumber f) := by
  rw [ofRecord, ofRecord, h.line_eq, cell_eq_mapError h.timestamp, count_eq_mapError h.context,
    count_eq_mapError h.generated]
  cases cell record.line (fields comma record.text) found.timestamp timestampColumn with
  | error fault => rfl
  | ok text =>
    simp only [Except.mapError, bind, Except.bind]
    cases Timestamp.read? text with
    | none => rfl
    | some time =>
      cases count record.line (fields comma record.text) found.context contextColumn with
      | error fault => rfl
      | ok context =>
        cases count record.line (fields comma record.text) found.generated generatedColumn <;> rfl

theorem ofTable_eq_renumbered {header header' : Header} {records records' : List Record}
    (hfound : found.AreOf header) (hfound' : found'.AreOf header')
    (h : List.Forall₂ (SameCells f found found') records records') :
    ofTable header' records' = renumbered f (ofTable header records) := by
  have hrows : records'.mapM (ofRecord found') = renumbered f (records.mapM (ofRecord found)) :=
    Except.mapM_eq_mapError (h.imp fun _ _ => ofRecord_eq_renumbered)
  rw [ofTable, ofTable, columns_eq_ok_iff.2 hfound, columns_eq_ok_iff.2 hfound']
  change (records'.mapM (ofRecord found') >>= _) =
    renumbered f (records.mapM (ofRecord found) >>= _)
  rw [hrows]
  cases records.mapM (ofRecord found) with
  | error fault => rfl
  | ok rows => cases rows <;> rfl

/-! ## Sheets -/

/-- The names of the three columns. -/
def requiredColumns : List String := [timestampColumn, contextColumn, generatedColumn]

variable {n : Nat} {xs ys : List (NamedColumn n)}

/-- Columns that make a trace: no two have the same name, and the three are there. -/
structure Lawful (columns : List (NamedColumn n)) : Prop where
  distinct : (columns.map (·.name)).Nodup
  required : ∀ name ∈ requiredColumns, name ∈ columns.map (·.name)

theorem Lawful.of_perm (hxs : Lawful xs) (h : ys.Perm xs) : Lawful ys where
  distinct := (h.map _).nodup_iff.2 hxs.distinct
  required name hname := (h.map _).mem_iff.2 (hxs.required name hname)

/-- There are two columns at least. -/
theorem Lawful.exists_cons_cons (h : Lawful xs) : ∃ x y rest, xs = x :: y :: rest := by
  obtain ⟨t, ht, htime⟩ := List.mem_map.1 (h.required timestampColumn (by decide))
  obtain ⟨c, hc, hcontext⟩ := List.mem_map.1 (h.required contextColumn (by decide))
  have hne : t ≠ c := by
    rintro rfl
    exact absurd (htime.symm.trans hcontext) (by decide)
  match xs, ht, hc with
  | [x], ht, hc => exact absurd ((List.mem_singleton.1 ht).trans (List.mem_singleton.1 hc).symm) hne
  | x :: y :: rest, _, _ => exact ⟨x, y, rest, rfl⟩

/-- The records under the header, with numbers of their lines. -/
def rowRecords (f : Nat → Nat) (columns : List (NamedColumn n)) : List Record :=
  (List.finRange n).map fun i : Fin n => ⟨f i, writeRow (sheetRow columns i)⟩

theorem ofText_sheet (h : Lawful xs) :
    ofText (sheet xs) = ofTable ⟨xs.map (·.name)⟩ (rowRecords (lineOf xs) xs) := by
  obtain ⟨x, y, rest, hxs⟩ := h.exists_cons_cons
  have hrow (cell : NamedColumn n → Option (List Char)) :
      (!Text.isBlankText (writeRow (xs.map cell))) = true := by
    rw [hxs]
    exact congrArg not (isBlankText_writeRow ..)
  have hkept : ((records (sheet xs)).filter fun r => !Text.isBlankText r.text) =
      ⟨1, writeRow (xs.map (some ·.heading))⟩ :: rowRecords (lineOf xs) xs := by
    rw [records_sheet]
    refine List.filter_eq_self.2 (List.forall_mem_cons.2 ⟨hrow _, fun r hr => ?_⟩)
    obtain ⟨i, -, rfl⟩ := List.mem_map.1 hr
    exact hrow _
  have hne : xs.map (some ·.heading) ≠ [] := by
    rw [hxs]
    exact List.cons_ne_nil _ _
  rw [ofText_eq_ofTable hkept, fields_writeRow hne, Header.ofFields, List.map_map, List.map_map]
  rfl

/-- The three columns are found by their names. -/
theorem exists_areOf (hdistinct : (xs.map (·.name)).Nodup) {t c g : NamedColumn n}
    (ht : t ∈ xs) (hc : c ∈ xs) (hg : g ∈ xs) (htime : t.name = timestampColumn)
    (hcontext : c.name = contextColumn) (hgenerated : g.name = generatedColumn) :
    ∃ found : Columns, found.AreOf ⟨xs.map (·.name)⟩ ∧ xs[found.timestamp]? = some t ∧
      xs[found.context]? = some c ∧ xs[found.generated]? = some g := by
  obtain ⟨timestamp, ht⟩ := List.mem_iff_getElem?.1 ht
  obtain ⟨context, hc⟩ := List.mem_iff_getElem?.1 hc
  obtain ⟨generated, hg⟩ := List.mem_iff_getElem?.1 hg
  refine ⟨⟨timestamp, context, generated⟩, ?_, ht, hc, hg⟩
  exact
    { timestamp := htime ▸ column?_name hdistinct ht
      context := hcontext ▸ column?_name hdistinct hc
      generated := hgenerated ▸ column?_name hdistinct hg }

theorem getElem?_fields_sheetRow (i : Fin n) {place : Nat} {x : NamedColumn n}
    (h : xs[place]? = some x) :
    (fields comma (writeRow (sheetRow xs i)))[place]? = some ((x.cells i).getD []) := by
  have hne : sheetRow xs i ≠ [] := by
    intro hnil
    rw [List.map_eq_nil_iff.1 hnil] at h
    cases h
  rw [fields_writeRow hne, sheetRow, List.map_map, List.getElem?_map, h]
  rfl

/-- A sheet is read by the names of its columns. In another order they say the same, and all sheets
with the three columns of this one say the same but for the numbers of the lines, whatever the cells
of their other columns hold. -/
theorem columns_by_name (hxs : Lawful xs) :
    (∀ ys, ys.Perm xs → ofText (sheet ys) = ofText (sheet xs)) ∧
      ∃ read, ∀ ys, Lawful ys → (∀ x ∈ xs, x.name ∈ requiredColumns → x ∈ ys) →
        ofText (sheet ys) = renumbered (lineOf ys) read := by
  obtain ⟨t, ht, htime⟩ := List.mem_map.1 (hxs.required timestampColumn (by decide))
  obtain ⟨c, hc, hcontext⟩ := List.mem_map.1 (hxs.required contextColumn (by decide))
  obtain ⟨g, hg, hgenerated⟩ := List.mem_map.1 (hxs.required generatedColumn (by decide))
  obtain ⟨found, hfound, hxt, hxc, hxg⟩ :=
    exists_areOf hxs.distinct ht hc hg htime hcontext hgenerated
  have hread (ys : List (NamedColumn n)) (hys : Lawful ys)
      (hshared : ∀ x ∈ xs, x.name ∈ requiredColumns → x ∈ ys) : ofText (sheet ys) =
        renumbered (lineOf ys) (ofTable ⟨xs.map (·.name)⟩ (rowRecords id xs)) := by
    obtain ⟨found', hfound', hyt, hyc, hyg⟩ := exists_areOf hys.distinct
      (hshared t ht (htime ▸ by decide)) (hshared c hc (hcontext ▸ by decide))
      (hshared g hg (hgenerated ▸ by decide)) htime hcontext hgenerated
    rw [ofText_sheet hys]
    refine ofTable_eq_renumbered hfound hfound' ?_
    rw [rowRecords, rowRecords, List.forall₂_map_left_iff, List.forall₂_map_right_iff,
      List.forall₂_same]
    intro i _
    exact
      { line_eq := rfl
        timestamp := by rw [getElem?_fields_sheetRow i hxt, getElem?_fields_sheetRow i hyt]
        context := by rw [getElem?_fields_sheetRow i hxc, getElem?_fields_sheetRow i hyc]
        generated := by rw [getElem?_fields_sheetRow i hxg, getElem?_fields_sheetRow i hyg] }
  refine ⟨fun ys hperm => ?_, _, hread⟩
  rw [hread ys (hxs.of_perm hperm) fun x hx _ => hperm.mem_iff.2 hx,
    hread xs hxs fun x hx _ => hx, lineOf_of_perm hperm]

/-- A column whose heading is a name. -/
def columnOf (name : String) (cells : Fin n → Option (List Char)) : NamedColumn n :=
  ⟨name.toList, cells⟩

/-- The three columns of a trace with two rows. -/
def threeColumns : List (NamedColumn 2) :=
  [columnOf timestampColumn fun i => some (Nat.toDigits 10 i),
    columnOf contextColumn fun _ => some " 7 ".toList,
    columnOf generatedColumn fun i => if i = 0 then some "8".toList else some "eight".toList]

/-- The same columns in another order, with notes that hold commas, quotes and line breaks. -/
def notedColumns : List (NamedColumn 2) :=
  columnOf "Note" (fun _ => some "one,\n\"two\"".toList) :: threeColumns.reverse

theorem columns_by_name_sample :
    Lawful threeColumns ∧ Lawful notedColumns ∧
      (∀ x ∈ threeColumns, x.name ∈ requiredColumns → x ∈ notedColumns) ∧
      ofText (sheet threeColumns.reverse) = ofText (sheet threeColumns) ∧
      ofText (sheet threeColumns) = .error (.badCount 3 generatedColumn "eight") ∧
      ofText (sheet notedColumns) = .error (.badCount 4 generatedColumn "eight") ∧
      ∃ read, ofText (sheet threeColumns) = renumbered (lineOf threeColumns) read ∧
        ofText (sheet notedColumns) = renumbered (lineOf notedColumns) read := by
  have hthree : Lawful threeColumns := ⟨by decide +kernel, by decide +kernel⟩
  have hnoted : Lawful notedColumns := ⟨by decide +kernel, by decide +kernel⟩
  have hshared : ∀ x ∈ threeColumns, x.name ∈ requiredColumns → x ∈ notedColumns :=
    fun x hx _ => List.mem_cons_of_mem _ (List.mem_reverse.2 hx)
  obtain ⟨hperm, read, hread⟩ := columns_by_name hthree
  exact ⟨hthree, hnoted, hshared, hperm _ (List.reverse_perm _), by decide +kernel,
    by decide +kernel, read, hread _ hthree fun x hx _ => hx, hread _ hnoted hshared⟩

end TraceRow

end LoadReplay
