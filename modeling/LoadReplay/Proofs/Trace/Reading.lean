import LoadReplay.Proofs.Csv.Lines
import LoadReplay.Proofs.Except
import LoadReplay.Proofs.Text.Split
import LoadReplay.Trace.Row
import Mathlib.Data.Nat.Digits.Defs

/-!
# Reading rows

The rows of a trace hold what the cells of its three columns say (`TraceRow.ofText_eq_ok_iff`): a
token count is the number that the digits of its cell denote, however large. A record that cannot
be read is refused for the first of the three cells that tells nothing (`FirstFault`).

A trace is read whole or not at all (`TraceRow.read_all_or_nothing`): there is a row for every
record behind the header, with the number of the line it starts on, or the fault of the first record
that cannot be read.
-/

namespace LoadReplay

namespace TraceRow

/-- A cell tells a natural number: between the blanks at its ends there are decimal digits, perhaps
behind a plus sign, and they denote the number. -/
def TellsCount (cell : List Char) (n : Nat) : Prop :=
  ∃ digits, (Text.trim cell = digits ∨ Text.trim cell = '+' :: digits) ∧ digits ≠ [] ∧
    (∀ c ∈ digits, c.isDigit = true) ∧ Nat.ofDigitChars 10 digits 0 = n

/-- The columns are those that the header names. -/
structure Columns.AreOf (columns : Columns) (header : Csv.Header) : Prop where
  timestamp : header.column? timestampColumn = some columns.timestamp
  context : header.column? contextColumn = some columns.context
  generated : header.column? generatedColumn = some columns.generated

/-- A row says what the cells of a record say. -/
structure ReadFrom (columns : Columns) (record : Csv.Record) (row : TraceRow) : Prop where
  line_eq : row.line = record.line
  timestamp : ∃ cell, (Csv.fields Csv.comma record.text)[columns.timestamp]? = some cell ∧
    Timestamp.read? (Text.trim cell) = some row.timestamp
  context : ∃ cell, (Csv.fields Csv.comma record.text)[columns.context]? = some cell ∧
    TellsCount cell row.contextTokens
  generated : ∃ cell, (Csv.fields Csv.comma record.text)[columns.generated]? = some cell ∧
    TellsCount cell row.generatedTokens
  context_lt : row.contextTokens < countBound
  generated_lt : row.generatedTokens < countBound

/-- The rows of a table: one for each record behind the header, blank ones aside. -/
def AreOf (text : List Char) (rows : List TraceRow) : Prop :=
  ∃ header records columns,
    ((Csv.records text).filter fun r => !Text.isBlankText r.text) = header :: records ∧
      columns.AreOf (Csv.Header.ofFields (Csv.fields Csv.comma header.text)) ∧
      List.Forall₂ (ReadFrom columns) records rows

variable {line place : Nat} {fields : List (List Char)} {name : String}

theorem cell_eq_ok_iff {text : List Char} : cell line fields place name = .ok text ↔
    ∃ field, fields[place]? = some field ∧ Text.trim field = text := by
  rw [cell]
  cases fields[place]? with
  | none => simp
  | some field => simp

theorem wholeDigits?_eq_some_iff {cs : List Char} {n : Nat} :
    Double.wholeDigits? cs = some n ↔
      cs ≠ [] ∧ (∀ c ∈ cs, c.isDigit = true) ∧ Nat.ofDigitChars 10 cs 0 = n := by
  rw [Double.wholeDigits?]
  split_ifs with hbad
  · rw [Bool.or_eq_true, List.isEmpty_iff, Bool.not_eq_true'] at hbad
    refine iff_of_false nofun ?_
    rintro ⟨hne, hdigits, -⟩
    rcases hbad with hnil | hother
    · exact hne hnil
    · exact absurd (List.all_eq_true.2 hdigits) (Bool.eq_false_iff.1 hother)
  · rw [Bool.or_eq_true, not_or, List.isEmpty_iff, Bool.not_eq_true', Bool.not_eq_false,
      List.all_eq_true] at hbad
    rw [Option.some.injEq]
    exact ⟨fun h => ⟨hbad.1, hbad.2, h⟩, fun h => h.2.2⟩

theorem natBelow?_plus (bound : Nat) (digits : List Char) :
    Text.natBelow? bound ('+' :: digits) =
      (Double.wholeDigits? digits).filter (decide <| · < bound) := by
  rw [Text.natBelow?]
  cases Double.wholeDigits? digits with
  | none => rfl
  | some n => simp [Option.filter]

theorem natBelow?_of_ne_plus (bound : Nat) {cs : List Char} (h : ∀ digits, cs ≠ '+' :: digits) :
    Text.natBelow? bound cs = (Double.wholeDigits? cs).filter (decide <| · < bound) := by
  unfold Text.natBelow?
  split
  next digits => exact absurd rfl (h digits)
  next =>
    dsimp only
    cases Double.wholeDigits? cs with
    | none => rfl
    | some n => simp [Option.filter]

theorem natBelow?_eq_some_iff {bound n : Nat} {cs : List Char} :
    Text.natBelow? bound cs = some n ↔ n < bound ∧ ∃ digits, (cs = digits ∨ cs = '+' :: digits) ∧
      Double.wholeDigits? digits = some n := by
  by_cases hplus : ∃ digits, cs = '+' :: digits
  · obtain ⟨digits, rfl⟩ := hplus
    rw [natBelow?_plus, Option.filter_eq_some_iff, decide_eq_true_eq, and_comm,
      and_congr_right_iff]
    refine fun _ => ⟨fun h => ⟨digits, .inr rfl, h⟩, ?_⟩
    rintro ⟨other, rfl | hother, h⟩
    · -- a plus sign is no digit
      exact absurd ((wholeDigits?_eq_some_iff.1 h).2.1 '+' (List.mem_cons_self ..)) (by decide)
    · exact (List.cons.inj hother).2 ▸ h
  · rw [natBelow?_of_ne_plus bound (not_exists.1 hplus), Option.filter_eq_some_iff,
      decide_eq_true_eq, and_comm, and_congr_right_iff]
    refine fun _ => ⟨fun h => ⟨cs, .inl rfl, h⟩, ?_⟩
    rintro ⟨digits, rfl | rfl, h⟩
    · exact h
    · exact absurd ⟨digits, rfl⟩ hplus

theorem count_of_field {field : List Char} (h : fields[place]? = some field) :
    count line fields place name = (Text.natBelow? countBound (Text.trim field)).elim
      (.error (.badCount line name (String.ofList (Text.trim field)))) .ok := by
  rw [count, cell_eq_ok_iff.2 ⟨field, h, rfl⟩]
  simp only [bind, Except.bind]
  cases Text.natBelow? countBound (Text.trim field) <;> rfl

theorem count_of_no_field (h : fields[place]? = none) :
    count line fields place name = .error (.missingField line name) := by
  rw [count, cell, h]
  rfl

theorem count_eq_ok_iff {n : Nat} : count line fields place name = .ok n ↔
    (∃ field, fields[place]? = some field ∧ TellsCount field n) ∧ n < countBound := by
  cases hfield : fields[place]? with
  | none =>
    rw [count_of_no_field hfield]
    simp
  | some field =>
    have htells : Text.natBelow? countBound (Text.trim field) = some n ↔
        TellsCount field n ∧ n < countBound := by
      rw [natBelow?_eq_some_iff, and_comm]
      simp only [TellsCount, wholeDigits?_eq_some_iff]
    rw [count_of_field hfield]
    simp only [Option.some.injEq, exists_eq_left', ← htells]
    cases Text.natBelow? countBound (Text.trim field) <;> simp

theorem ofRecord_eq_ok_iff {columns : Columns} {record : Csv.Record} {row : TraceRow} :
    ofRecord columns record = .ok row ↔ ReadFrom columns record row := by
  rw [ofRecord, Except.bind_eq_ok_iff]
  simp only [cell_eq_ok_iff]
  constructor
  · rintro ⟨_, ⟨field, hfield, rfl⟩, h⟩
    split at h
    next => cases h
    next timestamp htimestamp =>
      obtain ⟨context, hcontext, h⟩ := Except.bind_eq_ok_iff.1 h
      obtain ⟨generated, hgenerated, h⟩ := Except.bind_eq_ok_iff.1 h
      obtain rfl := Except.ok.inj h
      exact
        { line_eq := rfl
          timestamp := ⟨field, hfield, htimestamp⟩
          context := (count_eq_ok_iff.1 hcontext).1
          generated := (count_eq_ok_iff.1 hgenerated).1
          context_lt := (count_eq_ok_iff.1 hcontext).2
          generated_lt := (count_eq_ok_iff.1 hgenerated).2 }
  · intro h
    obtain ⟨field, hfield, htimestamp⟩ := h.timestamp
    refine ⟨_, ⟨field, hfield, rfl⟩, ?_⟩
    rw [htimestamp]
    dsimp only
    rw [count_eq_ok_iff.2 ⟨h.context, h.context_lt⟩,
      count_eq_ok_iff.2 ⟨h.generated, h.generated_lt⟩, ← h.line_eq]
    rfl

theorem require_eq_ok_iff {header : Csv.Header} :
    header.require name = .ok place ↔ header.column? name = some place := by
  rw [Csv.Header.require]
  cases header.column? name <;> simp

theorem columns_eq_ok_iff {header : Csv.Header} {found : Columns} :
    columns header = .ok found ↔ found.AreOf header := by
  simp only [columns, Except.bind_eq_ok_iff, require_eq_ok_iff]
  constructor
  · rintro ⟨timestamp, htimestamp, context, hcontext, generated, hgenerated, h⟩
    obtain rfl := Except.ok.inj h
    exact ⟨htimestamp, hcontext, hgenerated⟩
  · rintro ⟨htimestamp, hcontext, hgenerated⟩
    exact ⟨_, htimestamp, _, hcontext, _, hgenerated, rfl⟩

/-- The rows in the records under a header. -/
def ofTable (header : Csv.Header) (records : List Csv.Record) :
    Except TableFault (List TraceRow) := do
  let columns ← columns header
  let rows ← records.mapM (ofRecord columns)
  if rows.isEmpty then .error .noRows else .ok rows

theorem ofText_eq_ofTable {text : List Char} {header : Csv.Record} {records : List Csv.Record}
    (h : ((Csv.records text).filter fun r => !Text.isBlankText r.text) = header :: records) :
    ofText text = ofTable (.ofFields (Csv.fields Csv.comma header.text)) records := by
  rw [ofText, h]
  rfl

theorem ofTable_eq_ok_iff {header : Csv.Header} {records : List Csv.Record}
    {rows : List TraceRow} : ofTable header records = .ok rows ↔
      rows ≠ [] ∧ ∃ columns : Columns, columns.AreOf header ∧
        List.Forall₂ (ReadFrom columns) records rows := by
  have hrows (found : List TraceRow) :
      (if found.isEmpty then .error .noRows else .ok found : Except TableFault _) = .ok rows ↔
        rows ≠ [] ∧ found = rows := by
    split_ifs with hempty
    · refine iff_of_false nofun ?_
      rintro ⟨hne, rfl⟩
      exact hne (List.isEmpty_iff.1 hempty)
    · rw [Except.ok.injEq]
      exact ⟨fun h => ⟨fun hnil => hempty (List.isEmpty_iff.2 (h.trans hnil)), h⟩, And.right⟩
  simp only [ofTable, Except.bind_eq_ok_iff, columns_eq_ok_iff, Except.mapM_eq_ok_iff,
    ofRecord_eq_ok_iff, hrows]
  constructor
  · rintro ⟨columns, hcolumns, found, hfound, hne, rfl⟩
    exact ⟨hne, columns, hcolumns, hfound⟩
  · rintro ⟨hne, columns, hcolumns, hfound⟩
    exact ⟨columns, hcolumns, rows, hfound, hne, rfl⟩

/-- The rows of a trace say what its cells say. -/
theorem ofText_eq_ok_iff {text : List Char} {rows : List TraceRow} :
    ofText text = .ok rows ↔ rows ≠ [] ∧ AreOf text rows := by
  cases hrecords : (Csv.records text).filter fun r => !Text.isBlankText r.text with
  | nil =>
    rw [ofText, hrecords]
    refine iff_of_false nofun ?_
    rintro ⟨-, header, records, columns, hnil, -⟩
    rw [hrecords] at hnil
    cases hnil
  | cons header records =>
    rw [ofText_eq_ofTable hrecords, ofTable_eq_ok_iff, and_congr_right_iff]
    intro _
    constructor
    · rintro ⟨columns, hcolumns, hrows⟩
      exact ⟨header, records, columns, hrecords, hcolumns, hrows⟩
    · rintro ⟨header, records, columns, hcons, hcolumns, hrows⟩
      rw [hrecords] at hcons
      obtain ⟨rfl, rfl⟩ := List.cons.inj hcons
      exact ⟨columns, hcolumns, hrows⟩

/-! ## Faults -/

/-- A cell tells a time. -/
def TellsTime (cell : List Char) : Prop := ∃ time, Timestamp.read? (Text.trim cell) = some time

/-- A cell tells a number that a token count may be. -/
def TellsTokens (cell : List Char) : Prop := ∃ n < countBound, TellsCount cell n

/-- A record has a cell at a place, and it tells something. -/
def Told (tells : List Char → Prop) (record : Csv.Record) (place : Nat) : Prop :=
  ∃ cell, (Csv.fields Csv.comma record.text)[place]? = some cell ∧ tells cell

/-- What is wrong with the cell of a record in a column: there is none, or it tells nothing. -/
inductive CellFault (tells : List Char → Prop) (unread : String → TableFault)
    (record : Csv.Record) (place : Nat) (name : String) : TableFault → Prop where
  | missing (h : (Csv.fields Csv.comma record.text)[place]? = none) :
    CellFault tells unread record place name (.missingField record.line name)
  | unread {cell : List Char} (h : (Csv.fields Csv.comma record.text)[place]? = some cell)
    (hnot : ¬ tells cell) :
    CellFault tells unread record place name (unread (String.ofList (Text.trim cell)))

/-- The fault in the timestamp of a record. -/
abbrev TimeFault (columns : Columns) (record : Csv.Record) : TableFault → Prop :=
  CellFault TellsTime (.badTimestamp record.line) record columns.timestamp timestampColumn

/-- The fault in a token count of a record. -/
abbrev CountFault (record : Csv.Record) (place : Nat) (name : String) : TableFault → Prop :=
  CellFault TellsTokens (.badCount record.line name) record place name

/-- The first fault of a record: that of the timestamp, else that of the token count of the request,
else that of the token count of the answer. -/
inductive FirstFault (columns : Columns) (record : Csv.Record) (fault : TableFault) : Prop where
  | timestamp (h : TimeFault columns record fault)
  | context (htime : Told TellsTime record columns.timestamp)
    (h : CountFault record columns.context contextColumn fault)
  | generated (htime : Told TellsTime record columns.timestamp)
    (hcontext : Told TellsTokens record columns.context)
    (h : CountFault record columns.generated generatedColumn fault)

variable {record : Csv.Record} {found : Columns} {fault : TableFault}

theorem cell_eq_error_iff : cell line fields place name = .error fault ↔
    fields[place]? = none ∧ fault = .missingField line name := by
  rw [cell]
  cases fields[place]? <;> simp [eq_comm]

theorem count_eq_error_iff :
    count record.line (Csv.fields Csv.comma record.text) place name = .error fault ↔
      CountFault record place name fault := by
  cases hfield : (Csv.fields Csv.comma record.text)[place]? with
  | none =>
    rw [count_of_no_field hfield, Except.error.injEq]
    constructor
    · rintro rfl
      exact .missing hfield
    · rintro (_ | ⟨hother, -⟩)
      · rfl
      · cases hfield.symm.trans hother
  | some field =>
    have htells : TellsTokens field ↔
        ∃ n, Text.natBelow? countBound (Text.trim field) = some n := by
      simp only [TellsTokens, TellsCount, natBelow?_eq_some_iff, ← wholeDigits?_eq_some_iff]
    have hread : count record.line (Csv.fields Csv.comma record.text) place name = .error fault ↔
        ¬ TellsTokens field ∧
          fault = .badCount record.line name (String.ofList (Text.trim field)) := by
      rw [count_of_field hfield, htells]
      cases Text.natBelow? countBound (Text.trim field) <;> simp [eq_comm]
    rw [hread]
    constructor
    · rintro ⟨hnot, rfl⟩
      exact .unread hfield hnot
    · rintro (hnone | ⟨hother, hnot⟩)
      · cases hfield.symm.trans hnone
      · obtain rfl := Option.some.inj (hfield.symm.trans hother)
        exact ⟨hnot, rfl⟩

theorem told_tokens_iff : Told TellsTokens record place ↔
    ∃ n, count record.line (Csv.fields Csv.comma record.text) place name = .ok n := by
  simp only [count_eq_ok_iff, Told, TellsTokens]
  constructor
  · rintro ⟨cell, hcell, n, hlt, htells⟩
    exact ⟨n, ⟨cell, hcell, htells⟩, hlt⟩
  · rintro ⟨n, ⟨cell, hcell, htells⟩, hlt⟩
    exact ⟨cell, hcell, n, hlt, htells⟩

/-- A record is refused for its first fault. -/
theorem ofRecord_eq_error_iff :
    ofRecord found record = .error fault ↔ FirstFault found record fault := by
  rw [ofRecord, Except.bind_eq_error_iff]
  simp only [cell_eq_error_iff, cell_eq_ok_iff]
  constructor
  · rintro (⟨hnone, rfl⟩ | ⟨_, ⟨field, hfield, rfl⟩, h⟩)
    · exact .timestamp (.missing hnone)
    · split at h
      next hnone =>
        obtain rfl := Except.error.inj h
        refine .timestamp (.unread hfield ?_)
        rintro ⟨time, htime⟩
        exact Option.some_ne_none time (htime.symm.trans hnone)
      next time htime =>
        have htold : Told TellsTime record found.timestamp := ⟨field, hfield, time, htime⟩
        rcases Except.bind_eq_error_iff.1 h with hcontext | ⟨context, hcontext, h⟩
        · exact .context htold (count_eq_error_iff.1 hcontext)
        · rcases Except.bind_eq_error_iff.1 h with hgenerated | ⟨generated, -, h⟩
          · exact .generated htold (told_tokens_iff.2 ⟨context, hcontext⟩)
              (count_eq_error_iff.1 hgenerated)
          · cases h
  · have hpast (htime : Told TellsTime record found.timestamp) : ∃ time field,
        (Csv.fields Csv.comma record.text)[found.timestamp]? = some field ∧
          Timestamp.read? (Text.trim field) = some time := by
      obtain ⟨field, hfield, time, htime⟩ := htime
      exact ⟨time, field, hfield, htime⟩
    rintro ((hnone | ⟨hfield, hnot⟩) | ⟨htime, h⟩ | ⟨htime, hcontext, h⟩)
    · exact .inl ⟨hnone, rfl⟩
    · refine .inr ⟨_, ⟨_, hfield, rfl⟩, ?_⟩
      rw [Option.eq_none_iff_forall_ne_some.2 fun time htime => hnot ⟨time, htime⟩]
    · obtain ⟨time, field, hfield, htime⟩ := hpast htime
      refine .inr ⟨_, ⟨field, hfield, rfl⟩, ?_⟩
      rw [htime]
      exact Except.bind_eq_error_iff.2 (.inl (count_eq_error_iff.2 h))
    · obtain ⟨time, field, hfield, htime⟩ := hpast htime
      obtain ⟨context, hcontext⟩ := told_tokens_iff.1 hcontext
      refine .inr ⟨_, ⟨field, hfield, rfl⟩, ?_⟩
      rw [htime]
      refine Except.bind_eq_error_iff.2 (.inr ⟨context, hcontext, ?_⟩)
      exact Except.bind_eq_error_iff.2 (.inl (count_eq_error_iff.2 h))

/-- A text begins with the number of a line. -/
def NamesLine (line : Nat) (text : String) : Prop := ∃ rest, text = s!"line {line}: " ++ rest

/-- The text of the fault in a cell begins with the line of its record. -/
theorem CellFault.namesLine {tells : List Char → Prop} {unread : String → TableFault}
    (h : CellFault tells unread record place name fault)
    (hunread : ∀ text, NamesLine record.line (unread text).message) :
    NamesLine record.line fault.message := by
  cases h with
  | missing =>
    have hstart : Text.Begins ": " ": missing field '" := ⟨"missing field '", by decide⟩
    exact ((Text.begins_append _ hstart).append name).append "'"
  | unread => exact hunread _

theorem FirstFault.namesLine (h : FirstFault found record fault) :
    NamesLine record.line fault.message := by
  have htime (text : String) : NamesLine record.line
      (TableFault.badTimestamp record.line text).message := by
    have hstart : Text.Begins ": " ": unparsable " := ⟨"unparsable ", by decide⟩
    exact ((((Text.begins_append _ hstart).append timestampColumn).append " '").append
      text).append "'"
  have hcount (name text : String) : NamesLine record.line
      (TableFault.badCount record.line name text).message := by
    have hstart : Text.Begins ": " ": " := ⟨"", by decide⟩
    exact ((((Text.begins_append _ hstart).append name).append
      " must be a non-negative integer, got '").append text).append "'"
  cases h with
  | timestamp h => exact CellFault.namesLine h htime
  | context _ h => exact CellFault.namesLine h (hcount contextColumn)
  | generated _ _ h => exact CellFault.namesLine h (hcount generatedColumn)

/-! ## Whole traces -/

/-- The columns of a table and the records under its header, blank ones aside. -/
def Columns.Head (columns : Columns) (text : List Char) (records : List Csv.Record) : Prop :=
  ∃ header, ((Csv.records text).filter fun r => !Text.isBlankText r.text) = header :: records ∧
    columns.AreOf (Csv.Header.ofFields (Csv.fields Csv.comma header.text))

section

variable {header : Csv.Header} {records : List Csv.Record} (hfound : found.AreOf header)
  (hrecords : records ≠ [])
include hfound hrecords

/-- A table is read whole when all its records are. -/
theorem exists_ofTable_eq_ok_iff : (∃ rows, ofTable header records = .ok rows) ↔
    ∀ record ∈ records, ∃ row, ReadFrom found record row := by
  simp only [← ofRecord_eq_ok_iff, ← Except.exists_mapM_eq_ok_iff, Except.mapM_eq_ok_iff]
  simp only [ofRecord_eq_ok_iff, ofTable_eq_ok_iff]
  refine exists_congr fun rows => ⟨?_, fun hrows => ⟨?_, found, hfound, hrows⟩⟩
  · rintro ⟨-, columns, hcolumns, hrows⟩
    obtain rfl : columns = found :=
      Except.ok.inj ((columns_eq_ok_iff.2 hcolumns).symm.trans (columns_eq_ok_iff.2 hfound))
    exact hrows
  · rintro rfl
    exact hrecords (List.forall₂_nil_right_iff.1 hrows)

/-- It is refused for the first fault of the first record that has one. -/
theorem ofTable_eq_error_iff : ofTable header records = .error fault ↔
    ∃ before record after, records = before ++ record :: after ∧
      (∀ r ∈ before, ∃ row, ReadFrom found r row) ∧ FirstFault found record fault := by
  have hrest : ¬ ∃ rows, records.mapM (ofRecord found) = .ok rows ∧
      (if rows.isEmpty then .error .noRows else .ok rows : Except TableFault _) =
        .error fault := by
    rintro ⟨rows, hrows, h⟩
    have hlength := (Except.mapM_eq_ok_iff.1 hrows).length_eq
    split_ifs at h with hempty
    rw [List.isEmpty_iff.1 hempty] at hlength
    exact hrecords (List.length_eq_zero_iff.1 hlength)
  rw [ofTable, columns_eq_ok_iff.2 hfound]
  refine (Except.bind_eq_error_iff.trans (or_iff_left hrest)).trans ?_
  simp only [Except.mapM_eq_error_iff, ofRecord_eq_ok_iff, ofRecord_eq_error_iff]

end

/-- A trace is read whole or not at all. Its records are its pieces, and each carries the number of
the line it starts on. If the three columns are there and something stands under the header, then
there is a row for each record, or the fault is the first one of the first record that has any, and
its text names the line of this record. -/
theorem read_all_or_nothing (text : List Char) :
    (∃ pieces, Csv.CutInto text pieces ∧ Csv.records text = pieces.mapIdx fun i piece =>
        ⟨1 + (Csv.terminated (pieces.take i)).count '\n', Csv.closeRecord piece.reverse⟩) ∧
      (∀ rows, ofText text = .ok rows ↔ rows ≠ [] ∧ AreOf text rows) ∧
      ((∃ rows, ofText text = .ok rows) ↔ ∃ (columns : Columns) (records : List Csv.Record),
        columns.Head text records ∧ records ≠ [] ∧
          ∀ record ∈ records, ∃ row, ReadFrom columns record row) ∧
      ∀ (columns : Columns) (records : List Csv.Record), columns.Head text records →
        records ≠ [] → ∀ fault, ofText text = .error fault ↔ ∃ before record after,
          records = before ++ record :: after ∧ (∀ r ∈ before, ∃ row, ReadFrom columns r row) ∧
            FirstFault columns record fault ∧
            NamesLine record.line fault.message := by
  refine ⟨Csv.exists_cutInto text, fun rows => ofText_eq_ok_iff, ?_, ?_⟩
  · constructor
    · rintro ⟨rows, h⟩
      obtain ⟨hne, header, records, columns, hrecords, hcolumns, hrows⟩ := ofText_eq_ok_iff.1 h
      have hrecords_ne : records ≠ [] := by
        rintro rfl
        exact hne (List.forall₂_nil_left_iff.1 hrows)
      rw [ofText_eq_ofTable hrecords] at h
      exact ⟨columns, records, ⟨header, hrecords, hcolumns⟩, hrecords_ne,
        (exists_ofTable_eq_ok_iff hcolumns hrecords_ne).1 ⟨rows, h⟩⟩
    · rintro ⟨columns, records, ⟨header, hrecords, hcolumns⟩, hne, hread⟩
      rw [ofText_eq_ofTable hrecords]
      exact (exists_ofTable_eq_ok_iff hcolumns hne).2 hread
  · rintro columns records ⟨header, hrecords, hcolumns⟩ hne fault
    rw [ofText_eq_ofTable hrecords, ofTable_eq_error_iff hcolumns hne]
    constructor
    · rintro ⟨before, record, after, hsplit, hbefore, hfault⟩
      exact ⟨before, record, after, hsplit, hbefore, hfault, hfault.namesLine⟩
    · rintro ⟨before, record, after, hsplit, hbefore, hfault, -⟩
      exact ⟨before, record, after, hsplit, hbefore, hfault⟩

/-- A trace with a blank line in front, a note of two lines, and a count that is none at its end. -/
def unevenTrace : List Char :=
  ("\r\nTIMESTAMP,ContextTokens,GeneratedTokens,Note\r\n" ++
    "0,1,2,\"two\nlines\"\r\n\n1,-1,x,end").toList

/-- What stands under its header. -/
def unevenRecords : List Csv.Record :=
  [⟨3, "0,1,2,\"two\nlines\"".toList⟩, ⟨6, "1,-1,x,end".toList⟩]

theorem read_all_or_nothing_sample :
    Columns.Head ⟨0, 1, 2⟩ unevenTrace unevenRecords ∧ unevenRecords ≠ [] ∧
      ofText unevenTrace = .error (.badCount 6 contextColumn "-1") ∧
      ∃ before record after, unevenRecords = before ++ record :: after ∧
        (∀ r ∈ before, ∃ row, ReadFrom ⟨0, 1, 2⟩ r row) ∧
        FirstFault ⟨0, 1, 2⟩ record (.badCount 6 contextColumn "-1") ∧
        NamesLine record.line (TableFault.badCount 6 contextColumn "-1").message := by
  have hhead : Columns.Head ⟨0, 1, 2⟩ unevenTrace unevenRecords :=
    ⟨⟨2, "TIMESTAMP,ContextTokens,GeneratedTokens,Note".toList⟩, by decide +kernel,
      by decide +kernel, by decide +kernel, by decide +kernel⟩
  have hne : unevenRecords ≠ [] := List.cons_ne_nil _ _
  have herror : ofText unevenTrace = .error (.badCount 6 contextColumn "-1") := by decide +kernel
  obtain ⟨-, -, -, hfault⟩ := read_all_or_nothing unevenTrace
  exact ⟨hhead, hne, herror, (hfault _ _ hhead hne _).1 herror⟩

end TraceRow

end LoadReplay
