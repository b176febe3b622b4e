import LoadReplay.Proofs.Csv.OnePass
import LoadReplay.Proofs.Trace.Reading
import Mathlib.Data.List.Induction

/-!
# Line endings

`Text.withReturns` puts a carriage return in front of every line break of a text. The records of
such a text are those of the text with returns: what ends a record takes the return in front of it
away, and the returns inside quotes stay. The reader of fields is in the same states behind each
line break, so the fields are those of the text with returns as well, and blanks at the ends of a
cell are blanks with them.

What is left of the returns stands inside a cell. A cell that still has line breaks is no token
count, with the returns or without them; where no time spans several lines, the trace has the same
rows, with the same numbers of their lines (`TraceRow.line_endings_unseen`).
-/

namespace LoadReplay

namespace Text

/-- The text with a carriage return in front of every line break. -/
def withReturns (cs : List Char) : List Char :=
  cs.flatMap fun c => if c = '\n' then ['\r', '\n'] else [c]

theorem withReturns_nil : withReturns [] = [] := rfl

theorem withReturns_break (cs : List Char) :
    withReturns ('\n' :: cs) = '\r' :: '\n' :: withReturns cs := rfl

theorem withReturns_of_ne {c : Char} (h : c ≠ '\n') (cs : List Char) :
    withReturns (c :: cs) = c :: withReturns cs := by
  rw [withReturns, List.flatMap_cons, if_neg h, List.singleton_append, withReturns]

theorem withReturns_append (xs ys : List Char) :
    withReturns (xs ++ ys) = withReturns xs ++ withReturns ys := List.flatMap_append

theorem withReturns_of_not_mem {cs : List Char} (h : '\n' ∉ cs) : withReturns cs = cs := by
  induction cs with
  | nil => rfl
  | cons c cs ih =>
    obtain ⟨hc, hcs⟩ := List.ne_and_not_mem_of_not_mem_cons h
    rw [withReturns_of_ne hc.symm, ih hcs]

theorem mem_withReturns_of_break {cs : List Char} (h : '\n' ∈ cs) :
    '\n' ∈ withReturns cs ∧ '\r' ∈ withReturns cs := by
  obtain ⟨front, rest, rfl⟩ := List.append_of_mem h
  rw [withReturns_append, withReturns_break]
  simp

theorem isEmpty_withReturns (cs : List Char) : (withReturns cs).isEmpty = cs.isEmpty := by
  cases cs with
  | nil => rfl
  | cons c cs =>
    by_cases hc : c = '\n'
    · rw [hc]
      rfl
    · rw [withReturns_of_ne hc]
      rfl

theorem getLast?_withReturns (cs : List Char) : (withReturns cs).getLast? = cs.getLast? := by
  cases cs using List.reverseRecOn with
  | nil => rfl
  | append_singleton cs c =>
    rw [withReturns_append, List.getLast?_concat]
    by_cases hc : c = '\n'
    · rw [hc, withReturns_break, List.getLast?_append_cons]
      rfl
    · rw [withReturns_of_ne hc, List.getLast?_append_cons]
      rfl

/-! ## Blanks -/

section

variable {p : Char → Bool} (hp : p '\r' = p '\n')
include hp

theorem dropWhile_withReturns (cs : List Char) :
    (withReturns cs).dropWhile p = withReturns (cs.dropWhile p) := by
  induction cs with
  | nil => rfl
  | cons c cs ih =>
    by_cases hc : c = '\n'
    · subst hc
      rw [withReturns_break, List.dropWhile_cons, List.dropWhile_cons, List.dropWhile_cons, hp, ih]
      split_ifs <;> rfl
    · rw [withReturns_of_ne hc, List.dropWhile_cons, List.dropWhile_cons, ih]
      split_ifs
      · rfl
      · rw [withReturns_of_ne hc]

theorem dropEndWhile_withReturns (cs : List Char) :
    dropEndWhile p (withReturns cs) = withReturns (dropEndWhile p cs) := by
  have hconcat (front : List Char) (c : Char) : dropEndWhile p (front ++ [c]) =
      if p c then dropEndWhile p front else front ++ [c] := by
    rw [dropEndWhile, List.reverse_concat, List.dropWhile_cons]
    split_ifs
    · rfl
    · rw [List.reverse_cons, List.reverse_reverse]
  induction cs using List.reverseRecOn with
  | nil => rfl
  | append_singleton cs c ih =>
    rw [withReturns_append, hconcat cs c]
    by_cases hc : c = '\n'
    · subst hc
      have hends : withReturns cs ++ withReturns ['\n'] = withReturns cs ++ ['\r'] ++ ['\n'] := by
        rw [List.append_assoc]
        rfl
      rw [hends, hconcat, hconcat, hp, ih]
      split_ifs
      · rfl
      · rw [withReturns_append, ← hends]
    · rw [withReturns_of_ne hc, withReturns_nil, hconcat, ih]
      split_ifs
      · rfl
      · rw [withReturns_append, withReturns_of_ne hc, withReturns_nil]

end

theorem trim_withReturns (cs : List Char) : trim (withReturns cs) = withReturns (trim cs) := by
  have hblank : isBlank '\r' = isBlank '\n' := rfl
  rw [trim, trimStart, dropWhile_withReturns hblank, dropEndWhile_withReturns hblank, trim,
    trimStart]

theorem isBlankText_withReturns (cs : List Char) :
    isBlankText (withReturns cs) = isBlankText cs := by
  rw [isBlankText, withReturns, List.all_flatMap, isBlankText]
  congr 1
  funext c
  split_ifs with hc
  · rw [hc]
    rfl
  · rw [List.all_cons, List.all_nil, Bool.and_true]

/-- The same for a text that is kept as a string. -/
def returned (s : String) : String := String.ofList (withReturns s.toList)

theorem returned_ofList (cs : List Char) :
    returned (String.ofList cs) = String.ofList (withReturns cs) := by
  rw [returned, String.toList_ofList]

/-- A text of one line is what it is with returns, and no other text is. -/
theorem returned_eq_iff {s line : String} (hbreak : '\n' ∉ line.toList)
    (hreturn : '\r' ∉ line.toList) : returned s = line ↔ s = line := by
  constructor
  · rintro rfl
    rw [returned, String.toList_ofList] at hreturn
    have hs : '\n' ∉ s.toList := fun h => hreturn (mem_withReturns_of_break h).2
    rw [returned, withReturns_of_not_mem hs, String.ofList_toList]
  · rintro rfl
    rw [returned, withReturns_of_not_mem hbreak, String.ofList_toList]

end Text

namespace Csv

open Text (withReturns withReturns_nil withReturns_break withReturns_of_ne withReturns_append)

/-! ## Records -/

/-- The record with returns. -/
def Record.withReturns (r : Record) : Record := { r with text := Text.withReturns r.text }

theorem closeRecord_withReturns {reversed reversed' : List Char} (hreversed : '\r' ∉ reversed)
    (h : reversed'.reverse = withReturns reversed.reverse) :
    closeRecord reversed' = withReturns (closeRecord reversed) := by
  have hhead : reversed.head? ≠ some '\r' := fun hhead => hreversed (List.mem_of_head? hhead)
  have hhead' : reversed'.head? = reversed.head? := by
    rw [← List.getLast?_reverse, h, Text.getLast?_withReturns, List.getLast?_reverse]
  rw [closeRecord_of_head hhead, closeRecord_of_head (hhead'.trans_ne hhead), h]

theorem recordsFrom_withReturns {reversed reversed' cs : List Char} (hreversed : '\r' ∉ reversed)
    (h : reversed'.reverse = withReturns reversed.reverse) (hcs : '\r' ∉ cs) (quoted : Bool)
    (start line : Nat) : recordsFrom quoted start line reversed' (withReturns cs) =
      (recordsFrom quoted start line reversed cs).map Record.withReturns := by
  have hclose := closeRecord_withReturns hreversed h
  induction cs generalizing quoted start line reversed reversed' with
  | nil =>
    have hempty : reversed'.isEmpty = reversed.isEmpty := by
      rw [← List.isEmpty_reverse, h, Text.isEmpty_withReturns, List.isEmpty_reverse]
    rw [withReturns_nil, recordsFrom, recordsFrom, hempty, hclose]
    split_ifs <;> rfl
  | cons c cs ih =>
    obtain ⟨hc, hrest⟩ := List.ne_and_not_mem_of_not_mem_cons hcs
    have hlonger : '\r' ∉ c :: reversed := List.not_mem_cons_of_ne_of_not_mem hc hreversed
    by_cases hbreak : c = '\n'
    · subst hbreak
      have hreversed'' : ('\n' :: '\r' :: reversed').reverse =
          withReturns ('\n' :: reversed).reverse := by
        rw [List.reverse_cons, List.reverse_cons, h, List.reverse_cons, withReturns_append,
          List.append_assoc]
        rfl
      have hreturn : closeRecord ('\r' :: reversed') = closeRecord reversed' := rfl
      rw [withReturns_break, recordsFrom, if_neg (by decide), if_neg (by decide), recordsFrom,
        if_pos rfl, recordsFrom, if_pos rfl, hreturn, hclose]
      split_ifs
      · exact ih hlonger hreversed'' hrest _ _ _ (closeRecord_withReturns hlonger hreversed'')
      · rw [ih List.not_mem_nil rfl hrest _ _ _ rfl]
        rfl
    · have hreversed'' : (c :: reversed').reverse = withReturns (c :: reversed).reverse := by
        rw [List.reverse_cons, h, List.reverse_cons, withReturns_append, withReturns_of_ne hbreak]
        rfl
      rw [withReturns_of_ne hbreak, recordsFrom, recordsFrom, if_neg hbreak, if_neg hbreak]
      exact ih hlonger hreversed'' hrest _ _ _ (closeRecord_withReturns hlonger hreversed'')

/-- The records of a text with returns are those of the text, with returns. -/
theorem records_withReturns {text : List Char} (h : '\r' ∉ text) :
    records (withReturns text) = (records text).map Record.withReturns :=
  recordsFrom_withReturns List.not_mem_nil rfl h false 1 1

/-! ## Fields -/

namespace ReaderState

/-- Behind a line break the reader is where it is behind one with a return. -/
theorem next_return (s : ReaderState) :
    (s.next comma '\r').next comma '\n' = s.next comma '\n' := by
  cases s <;> rfl

theorem foldl_withReturns (s : ReaderState) (cs : List Char) :
    (withReturns cs).foldl (next comma) s = cs.foldl (next comma) s := by
  rw [withReturns, List.foldl_flatMap]
  congr 1
  funext s c
  split_ifs with hc
  · rw [hc]
    exact next_return s
  · rfl

theorem adds_return (s : ReaderState) :
    s.adds '\r' ++ (s.next comma '\r').adds '\n' = withReturns (s.adds '\n') := by
  cases s <;> rfl

theorem withReturns_adds {c : Char} (h : c ≠ '\n') (s : ReaderState) :
    withReturns (s.adds c) = s.adds c := by
  cases s <;> simp only [adds] <;> (try split_ifs) <;>
    simp [withReturns_of_ne h, withReturns_nil, withReturns_of_ne]

/-- The fields that are read are those with returns. -/
theorem read_withReturns (s : ReaderState) (field cs : List Char) :
    s.read comma (withReturns field) (withReturns cs) =
      (s.read comma field cs).map withReturns := by
  induction cs generalizing s field with
  | nil => rfl
  | cons c cs ih =>
    by_cases hbreak : c = '\n'
    · subst hbreak
      have hopen (s : ReaderState) : s.endsField comma '\r' = false ∧
          s.endsField comma '\n' = false := by
        cases s <;> decide
      rw [withReturns_break, read, (hopen s).1, if_neg Bool.false_ne_true, read, (hopen _).2,
        if_neg Bool.false_ne_true, read, (hopen s).2, if_neg Bool.false_ne_true, next_return,
        List.append_assoc, adds_return, ← withReturns_append, ih]
    · rw [withReturns_of_ne hbreak, read, read]
      split_ifs
      · exact congrArg (withReturns field :: ·) (ih _ [])
      · have hfield : withReturns field ++ s.adds c = withReturns (field ++ s.adds c) := by
          rw [withReturns_append, withReturns_adds hbreak]
        rw [hfield, ih]

end ReaderState

/-- The fields of a record with returns are those of the record, with returns. -/
theorem fields_withReturns (record : List Char) :
    fields comma (withReturns record) = (fields comma record).map withReturns := by
  have hcomma : comma ≠ '"' := by decide
  have hends : EndsInQuotedDelimiter comma (withReturns record) ↔
      EndsInQuotedDelimiter comma record := by
    constructor
    · exact fun ⟨hlast, hquoted⟩ => ⟨Text.getLast?_withReturns record ▸ hlast,
        ReaderState.foldl_withReturns _ record ▸ hquoted⟩
    · exact fun ⟨hlast, hquoted⟩ => ⟨(Text.getLast?_withReturns record).trans hlast,
        (ReaderState.foldl_withReturns _ record).trans hquoted⟩
  have hread := ReaderState.read_withReturns .start [] record
  rw [withReturns_nil] at hread
  rw [fields_eq hcomma, fields_eq hcomma, hread, List.map_append]
  simp only [hends]
  split_ifs <;> rfl

end Csv

/-! ## Cells -/

/-- A fault whose texts from the table are written in another way. -/
def TableFault.respell (f : String → String) : TableFault → TableFault
  | missingColumn name header => missingColumn name (header.map f)
  | badTimestamp line text => badTimestamp line (f text)
  | badCount line name text => badCount line name (f text)
  | missingField line name => missingField line name
  | noHeader => noHeader
  | noRows => noRows

namespace TraceRow

open Csv Text

/-- A cell that spans several lines tells no number. -/
theorem natBelow?_of_break {cs : List Char} (h : '\n' ∈ cs) (bound : Nat) :
    natBelow? bound cs = none := by
  refine Option.eq_none_iff_forall_ne_some.2 fun n hn => ?_
  obtain ⟨-, digits, hcs, hdigits⟩ := natBelow?_eq_some_iff.1 hn
  have hmem : '\n' ∈ digits := by
    rcases hcs with rfl | rfl
    · exact h
    · exact (List.mem_cons.1 h).resolve_left (by decide)
  exact absurd ((wholeDigits?_eq_some_iff.1 hdigits).2.1 _ hmem) (by decide)

theorem natBelow?_withReturns (bound : Nat) (cs : List Char) :
    natBelow? bound (withReturns cs) = natBelow? bound cs := by
  by_cases h : '\n' ∈ cs
  · rw [natBelow?_of_break h, natBelow?_of_break (mem_withReturns_of_break h).1]
  · rw [withReturns_of_not_mem h]

variable {line place : Nat} {cells : List (List Char)} {name : String}

theorem count_withReturns : count line (cells.map withReturns) place name =
    (count line cells place name).mapError (TableFault.respell returned) := by
  cases hfield : cells[place]? with
  | none =>
    have hfield' : (cells.map withReturns)[place]? = none := by
      rw [List.getElem?_map, hfield, Option.map_none]
    rw [count_of_no_field hfield, count_of_no_field hfield']
    rfl
  | some field =>
    have hfield' : (cells.map withReturns)[place]? = some (withReturns field) := by
      rw [List.getElem?_map, hfield, Option.map_some]
    rw [count_of_field hfield, count_of_field hfield', trim_withReturns, natBelow?_withReturns,
      ← returned_ofList]
    cases natBelow? countBound (trim field) <;> rfl

theorem require_returned {header : Header} (hbreak : '\n' ∉ name.toList)
    (hreturn : '\r' ∉ name.toList) : Header.require ⟨header.names.map returned⟩ name =
      (header.require name).mapError (TableFault.respell returned) := by
  have hplace : Header.column? ⟨header.names.map returned⟩ name = header.column? name := by
    unfold Header.column? List.idxOf?
    rw [List.findIdx?_map]
    congr 1
    funext s
    exact Bool.eq_iff_iff.2 (by simpa using returned_eq_iff hbreak hreturn)
  rw [Header.require, Header.require, hplace]
  cases header.column? name <;> rfl

theorem columns_returned (header : Header) : columns ⟨header.names.map returned⟩ =
    (columns header).mapError (TableFault.respell returned) := by
  have hrequire (name : String) (h : '\n' ∉ name.toList ∧ '\r' ∉ name.toList) :
      Header.require ⟨header.names.map returned⟩ name =
        (header.require name).mapError (TableFault.respell returned) :=
    require_returned h.1 h.2
  rw [columns, columns, hrequire timestampColumn (by decide), hrequire contextColumn (by decide),
    hrequire generatedColumn (by decide)]
  simp only [Except.mapError_bind]
  rfl

/-- The names of the columns of a record with returns. -/
theorem ofFields_withReturns (fields : List (List Char)) :
    Header.ofFields (fields.map withReturns) =
      ⟨(Header.ofFields fields).names.map returned⟩ := by
  have hmark : (Header.byteOrderMark == '\r') = false ∧
      (Header.byteOrderMark == '\n') = false := by
    decide
  rw [Header.ofFields, Header.ofFields, List.map_map, List.map_map]
  congr 2
  funext field
  have hmarks : ('\r' == Header.byteOrderMark) = ('\n' == Header.byteOrderMark) := rfl
  rw [Function.comp_apply, Function.comp_apply, Header.columnName, Header.columnName,
    trim_withReturns, dropWhile_withReturns hmarks, returned_ofList]

/-! ## Rows -/

/-- A record whose timestamp stands on one line has the same row with returns, or the same fault. -/
theorem ofRecord_withReturns {columns : Columns} {record : Record}
    (h : ∀ cell ∈ (fields comma record.text)[columns.timestamp]?, '\n' ∉ cell) :
    ofRecord columns record.withReturns =
      (ofRecord columns record).mapError (TableFault.respell returned) := by
  have hfields : fields comma record.withReturns.text =
      (fields comma record.text).map withReturns := fields_withReturns record.text
  have hline : record.withReturns.line = record.line := rfl
  rw [ofRecord, ofRecord, hfields, hline, cell, cell, List.getElem?_map]
  cases hfield : (fields comma record.text)[columns.timestamp]? with
  | none => rfl
  | some field =>
    have hunbroken : withReturns field = field := withReturns_of_not_mem (h field hfield)
    have htext : returned (String.ofList (trim field)) = String.ofList (trim field) := by
      rw [returned_ofList, ← trim_withReturns, hunbroken]
    rw [Option.map_some, hunbroken]
    simp only [count_withReturns, bind, Except.bind]
    cases Timestamp.read? (trim field) with
    | none => exact congrArg (Except.error ∘ TableFault.badTimestamp record.line) htext.symm
    | some timestamp =>
      cases count record.line (fields comma record.text) columns.context contextColumn with
      | error fault => rfl
      | ok context =>
        cases count record.line (fields comma record.text) columns.generated generatedColumn <;> rfl

/-- The table with returns has the same rows, or the same fault. -/
theorem ofTable_withReturns {header : Header} {records : List Record}
    (h : ∀ columns : Columns, columns.AreOf header → ∀ record ∈ records,
      ∀ cell ∈ (fields comma record.text)[columns.timestamp]?, '\n' ∉ cell) :
    ofTable ⟨header.names.map returned⟩ (records.map Record.withReturns) =
      (ofTable header records).mapError (TableFault.respell returned) := by
  rw [ofTable, columns_returned, ofTable]
  cases hcolumns : columns header with
  | error fault => rfl
  | ok found =>
    have hrows : (records.map Record.withReturns).mapM (ofRecord found) =
        (records.mapM (ofRecord found)).mapError (TableFault.respell returned) := by
      have hrecords : List.Forall₂ (fun r r' => ofRecord found r' =
          ((ofRecord found r).map id).mapError (TableFault.respell returned))
          records (records.map Record.withReturns) := by
        rw [List.forall₂_map_right_iff, List.forall₂_same]
        intro record hrecord
        rw [Except.map_id]
        exact ofRecord_withReturns (h found (columns_eq_ok_iff.1 hcolumns) record hrecord)
      rw [Except.mapM_eq_mapError hrecords, List.map_id_fun, Except.map_id, id_eq]
    change ((records.map Record.withReturns).mapM (ofRecord found) >>= _) =
      (records.mapM (ofRecord found) >>= _).mapError _
    rw [hrows, Except.mapError_bind]
    congr 1
    funext rows
    split_ifs <;> rfl

/-- A text has one header, and what stands under it are the records of the table. -/
theorem Columns.Head.unique {text : List Char} {columns columns' : Columns}
    {records records' : List Record} (h : columns.Head text records)
    (h' : columns'.Head text records') : columns' = columns ∧ records' = records := by
  obtain ⟨header, hrecords, hcolumns⟩ := h
  obtain ⟨header', hrecords', hcolumns'⟩ := h'
  rw [hrecords] at hrecords'
  obtain ⟨rfl, rfl⟩ := List.cons.inj hrecords'
  have hfound := (columns_eq_ok_iff.2 hcolumns').symm.trans (columns_eq_ok_iff.2 hcolumns)
  exact ⟨Except.ok.inj hfound, rfl⟩

/-- No cell in the column of the timestamps spans several lines. -/
def TimesUnbroken (text : List Char) : Prop :=
  ∀ columns records, Columns.Head columns text records → ∀ record ∈ records,
    ∀ cell ∈ (fields comma record.text)[columns.timestamp]?, '\n' ∉ cell

/-- A text without carriage returns says with a return in front of every line break what it says
without them, if no timestamp spans several lines: the same rows, with the same numbers of their
lines. If it is no trace, it is refused for the same fault, which shows the texts of the table with
their returns. -/
theorem line_endings_unseen {text : List Char} (hreturn : '\r' ∉ text)
    (htimes : TimesUnbroken text) :
    (∀ rows, ofText (withReturns text) = .ok rows ↔ ofText text = .ok rows) ∧
      ofText (withReturns text) =
        (ofText text).mapError (TableFault.respell returned) := by
  have hread : ofText (withReturns text) =
      (ofText text).mapError (TableFault.respell returned) := by
    have hkept : ((Csv.records (withReturns text)).filter fun r => !isBlankText r.text) =
        ((Csv.records text).filter fun r => !isBlankText r.text).map Record.withReturns := by
      rw [records_withReturns hreturn, List.filter_map]
      congr 2
      funext r
      exact congrArg not (isBlankText_withReturns r.text)
    cases hrecords : (Csv.records text).filter fun r => !isBlankText r.text with
    | nil =>
      rw [hrecords, List.map_nil] at hkept
      rw [ofText, hkept, ofText, hrecords]
      rfl
    | cons header records =>
      rw [hrecords, List.map_cons] at hkept
      rw [ofText_eq_ofTable hkept, ofText_eq_ofTable hrecords]
      have hheader : fields comma header.withReturns.text =
          (fields comma header.text).map withReturns := fields_withReturns header.text
      rw [hheader, ofFields_withReturns]
      exact ofTable_withReturns fun columns hcolumns =>
        htimes columns records ⟨header, hrecords, hcolumns⟩
  exact ⟨fun rows => hread ▸ Except.mapError_eq_ok_iff, hread⟩

/-- A trace with cells and a name that span several lines, and an end inside quotes. -/
def foldedTrace : List Char :=
  ("TIMESTAMP,\"Note\nof two lines\",ContextTokens,GeneratedTokens\n" ++
    "0,\"a\n\nb\",\"\n1\",2\n\n1,\"c\",3,\"4\n").toList

/-- What stands under its header. -/
def foldedRecords : List Record :=
  [⟨3, "0,\"a\n\nb\",\"\n1\",2".toList⟩, ⟨8, "1,\"c\",3,\"4\n".toList⟩]

theorem line_endings_unseen_sample :
    '\r' ∉ foldedTrace ∧ TimesUnbroken foldedTrace ∧
      ofText (withReturns foldedTrace) = .ok [⟨.zero false, 1, 2, 3⟩, ⟨1, 3, 4, 8⟩] := by
  have hreturn : '\r' ∉ foldedTrace := by decide
  have hhead : Columns.Head ⟨0, 2, 3⟩ foldedTrace foldedRecords :=
    ⟨⟨1, "TIMESTAMP,\"Note\nof two lines\",ContextTokens,GeneratedTokens".toList⟩,
      by decide +kernel, by decide +kernel, by decide +kernel, by decide +kernel⟩
  have htimes : TimesUnbroken foldedTrace := by
    intro columns records h
    obtain ⟨rfl, rfl⟩ := hhead.unique h
    decide +kernel
  have hread : ofText foldedTrace = .ok [⟨.zero false, 1, 2, 3⟩, ⟨1, 3, 4, 8⟩] := by
    decide +kernel
  exact ⟨hreturn, htimes, ((line_endings_unseen hreturn htimes).1 _).2 hread⟩

end TraceRow

end LoadReplay
