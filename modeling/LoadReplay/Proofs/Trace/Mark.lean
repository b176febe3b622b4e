import LoadReplay.Proofs.Trace.Reading

/-!
# Byte order marks

A mark in front of a text belongs to its first record, and is taken off the name of the first column
only after the record was found, its fields were split and blanks were taken off. By then the field
is not read as a quoted one, the blanks at its start are kept, and a blank first line is the header
(`Csv.markedNames`). What follows decides nothing: a text that starts with neither a quote nor a
blank says with the mark what it says without, and of every other start some text does not
(`TraceRow.mark_unseen_iff`).
-/

namespace LoadReplay

namespace Csv

open Header (byteOrderMark columnName)

/-! ## The first record -/

theorem dropEndWhile_cons {p : Char → Bool} {c : Char} (h : p c = false) (cs : List Char) :
    Text.dropEndWhile p (c :: cs) = c :: Text.dropEndWhile p cs := by
  rw [Text.dropEndWhile, Text.dropEndWhile, List.reverse_cons, List.dropWhile_append]
  split_ifs with hempty
  · rw [List.isEmpty_iff.1 hempty, List.dropWhile_cons, h]
    rfl
  · rw [List.reverse_concat]

theorem closeRecord_concat {c : Char} (h : c ≠ '\r') (reversed : List Char) :
    closeRecord (reversed ++ [c]) = c :: closeRecord reversed := by
  have hend := dropEndWhile_cons (p := (· == '\r')) (beq_eq_false_iff_ne.2 h) reversed.reverse
  rwa [Text.dropEndWhile, Text.dropEndWhile, List.reverse_cons, List.reverse_reverse] at hend

/-- What a record holds so far is the start of the first record, and tells nothing of the others. -/
theorem exists_recordsFrom_eq (quoted : Bool) (line : Nat) (cs : List Char) :
    ∃ piece rest, ∀ start reversed, reversed ++ cs ≠ [] →
      recordsFrom quoted start line reversed cs =
        ⟨start, closeRecord (piece ++ reversed)⟩ :: rest := by
  induction cs generalizing quoted line with
  | nil =>
    refine ⟨[], [], fun start reversed hne => ?_⟩
    rw [recordsFrom, if_neg (by simpa using hne)]
    rfl
  | cons c cs ih =>
    have hlonger (quoted : Bool) (line : Nat) : ∃ piece rest, ∀ start reversed,
        recordsFrom quoted start line (c :: reversed) cs =
          ⟨start, closeRecord (piece ++ reversed)⟩ :: rest := by
      obtain ⟨piece, rest, hrecords⟩ := ih quoted line
      refine ⟨piece ++ [c], rest, fun start reversed => ?_⟩
      rw [hrecords start _ (List.cons_ne_nil _ _), List.append_assoc, List.singleton_append]
    by_cases hopen : c = '\n' ∧ quoted = false
    · obtain ⟨rfl, rfl⟩ := hopen
      exact ⟨[], _, fun _ _ _ => rfl⟩
    · obtain ⟨piece, rest, hrecords⟩ := hlonger (if c = '"' then !quoted else quoted)
        (if c = '\n' then line + 1 else line)
      refine ⟨piece, rest, fun start reversed _ => (Eq.trans ?_ (hrecords start reversed))⟩
      by_cases hbreak : c = '\n'
      · have hquoted : quoted = true := by simpa [hbreak] using hopen
        have hquote : c ≠ '"' := by rw [hbreak]; decide
        rw [recordsFrom, if_pos hbreak, if_pos hquoted, if_pos hbreak, if_neg hquote]
      · rw [recordsFrom, if_neg hbreak, if_neg hbreak]

/-- A mark in front of a text is in front of its first record. -/
theorem exists_records_mark (c : Char) (cs : List Char) : ∃ first rest,
    records (c :: cs) = first :: rest ∧
      records (byteOrderMark :: c :: cs) = ⟨1, byteOrderMark :: first.text⟩ :: rest := by
  obtain ⟨piece, rest, hrecords⟩ := exists_recordsFrom_eq false 1 (c :: cs)
  refine ⟨_, rest, hrecords 1 [] (List.cons_ne_nil _ _), ?_⟩
  rw [List.append_nil, ← closeRecord_concat (by decide)]
  exact hrecords 1 [byteOrderMark] (List.cons_ne_nil _ _)

/-- The first record starts with the first character of its text, if this is not blank. -/
theorem exists_text_eq_of_records {c : Char} {cs : List Char} {first : Record} {rest : List Record}
    (h : records (c :: cs) = first :: rest) (hc : Text.isBlank c = false) :
    ∃ piece, first.text = c :: piece := by
  have hbreak : c ≠ '\n' := by rintro rfl; exact absurd hc (by decide)
  have hreturn : c ≠ '\r' := by rintro rfl; exact absurd hc (by decide)
  obtain ⟨piece, rest, hrecords⟩ := exists_recordsFrom_eq (if c = '"' then !false else false) 1 cs
  rw [records, recordsFrom, if_neg hbreak, hrecords 1 [c] (List.cons_ne_nil _ _),
    closeRecord_concat hreturn] at h
  exact ⟨_, congrArg Record.text (List.cons.inj h).1.symm⟩

/-! ## Its names -/

/-- The fields of a record that does not start with a quote. -/
theorem fields_of_head {record : List Char} (h : record.head? ≠ some '"') :
    fields comma record = beforeDelimiter comma record ::
      if comma ∈ record then fields comma (afterDelimiter comma record) else [] := by
  have hnext : nextField comma record = _ := nextField_of_head h
  by_cases hmem : comma ∈ record
  · obtain ⟨field, rest, rfl, hfield⟩ := List.eq_append_cons_of_mem hmem
    rw [beforeDelimiter_append rest hfield, afterDelimiter_append rest hfield] at hnext ⊢
    rw [if_pos hmem, fields]
    by_cases hrest : rest = []
    · subst hrest
      have hempty : fields comma [] = [[]] := fieldsFrom_of_last rfl
      rw [fieldsFrom_of_last hnext, List.getLast?_concat, beq_self_eq_true, if_pos rfl, hempty]
    · rw [fieldsFrom_of_next hnext hrest, List.getLast?_append_cons,
        List.getLast?_cons_of_ne_nil hrest, fields]
  · rw [afterDelimiter_of_not_mem hmem] at hnext
    have hlast : (record.getLast? == some comma) = false :=
      beq_eq_false_iff_ne.2 fun hlast => hmem (List.mem_of_getLast? hlast)
    rw [if_neg hmem, fields, fieldsFrom_of_last hnext, hlast]
    rfl

/-- The names of the columns if a mark stands in front of the record. The first one is the text up
to the comma, without blanks at its end and without more marks at its start. -/
def markedNames (record : List Char) : List String :=
  String.ofList ((Text.dropEndWhile Text.isBlank (beforeDelimiter comma record)).dropWhile
      (· == byteOrderMark)) ::
    if comma ∈ record then (fields comma (afterDelimiter comma record)).map columnName else []

theorem columnName_of_head {field : List Char} (h : ∀ c ∈ field.head?, Text.isBlank c = false) :
    columnName field =
      String.ofList ((Text.dropEndWhile Text.isBlank field).dropWhile (· == byteOrderMark)) := by
  have hstart : Text.trimStart field = field := by
    cases field with
    | nil => rfl
    | cons c field => rw [Text.trimStart, List.dropWhile_cons, h c rfl, if_neg Bool.false_ne_true]
  rw [columnName, Text.trim, hstart]

theorem columnName_mark (field : List Char) : columnName (byteOrderMark :: field) =
    String.ofList ((Text.dropEndWhile Text.isBlank field).dropWhile (· == byteOrderMark)) := by
  have hmark : Text.isBlank byteOrderMark = false := by decide
  rw [columnName_of_head (by simpa using hmark), dropEndWhile_cons hmark, List.dropWhile_cons,
    beq_self_eq_true, if_pos rfl]

theorem ofFields_mark (record : List Char) :
    Header.ofFields (fields comma (byteOrderMark :: record)) = ⟨markedNames record⟩ := by
  have hmark : byteOrderMark ≠ comma := by decide
  have hquote : (byteOrderMark :: record).head? ≠ some '"' :=
    fun h => absurd (Option.some.inj h) (by decide)
  have hbefore : beforeDelimiter comma (byteOrderMark :: record) =
      byteOrderMark :: beforeDelimiter comma record :=
    List.takeWhile_cons_of_pos (bne_iff_ne.2 hmark)
  rw [Header.ofFields, fields_of_head hquote, hbefore, List.map_cons, columnName_mark, markedNames,
    afterDelimiter, if_neg hmark, apply_ite (List.map columnName)]
  simp only [List.mem_cons, hmark.symm, false_or, List.map_nil]

/-- A record that starts with neither a quote nor a blank has the same names without the mark. -/
theorem ofFields_of_head {record : List Char} (hquote : record.head? ≠ some '"')
    (hblank : ∀ c ∈ record.head?, Text.isBlank c = false) :
    Header.ofFields (fields comma record) = ⟨markedNames record⟩ := by
  have hfield : ∀ c ∈ (beforeDelimiter comma record).head?, Text.isBlank c = false := by
    intro c hc
    rw [beforeDelimiter, List.head?_takeWhile, Option.mem_filter_iff] at hc
    exact hblank c hc.1
  rw [Header.ofFields, fields_of_head hquote, List.map_cons, columnName_of_head hfield, markedNames,
    apply_ite (List.map columnName), List.map_nil]

end Csv

namespace TraceRow

open Csv.Header (byteOrderMark)

/-! ## Traces -/

theorem ofText_blank {c : Char} (h : Text.isBlank c = true) : ofText [c] = .error .noHeader := by
  have hrecords : ∃ text, Csv.records [c] = [⟨1, text⟩] ∧ Text.isBlankText text = true := by
    by_cases hbreak : c = '\n'
    · exact ⟨[], by rw [hbreak]; rfl, rfl⟩
    · refine ⟨Csv.closeRecord [c], by rw [Csv.records, Csv.recordsFrom, if_neg hbreak]; rfl, ?_⟩
      by_cases hreturn : c = '\r'
      · rw [hreturn]
        rfl
      · have htext : Csv.closeRecord [c] = [c] := Csv.closeRecord_concat hreturn []
        simpa [htext, Text.isBlankText] using h
  obtain ⟨text, hrecords, hblank⟩ := hrecords
  rw [ofText, hrecords, List.filter_cons_of_neg (by simpa using hblank), List.filter_nil]

/-- A table that has a header is not refused for having none. -/
theorem ofTable_ne_noHeader (header : Csv.Header) (records : List Csv.Record) :
    ofTable header records ≠ .error .noHeader := by
  have hcolumn (name : String) : header.require name ≠ .error .noHeader := by
    intro h
    rw [Csv.Header.require] at h
    split at h <;> cases h
  rw [ofTable]
  intro h
  rcases Except.bind_eq_error_iff.1 h with hcolumns | ⟨columns, -, h⟩
  · simp only [columns, Except.bind_eq_error_iff, hcolumn, false_or] at hcolumns
    obtain ⟨_, -, _, -, _, -, h⟩ := hcolumns
    cases h
  · rcases Except.bind_eq_error_iff.1 h with hrows | ⟨rows, -, h⟩
    · obtain ⟨_, record, _, -, -, hfault⟩ := Except.mapM_eq_error_iff.1 hrows
      rcases ofRecord_eq_error_iff.1 hfault with h | ⟨-, h⟩ | ⟨-, -, h⟩ <;> cases h
    · split_ifs at h
      cases h

/-- A first record that is not blank is the header. -/
theorem ofText_of_records {text : List Char} {first : Csv.Record} {rest : List Csv.Record}
    (h : Csv.records text = first :: rest) (hseen : Text.isBlankText first.text = false) :
    ofText text = ofTable (.ofFields (Csv.fields Csv.comma first.text))
      (rest.filter fun r => !Text.isBlankText r.text) := by
  refine ofText_eq_ofTable ?_
  rw [h, List.filter_cons_of_pos (by simpa using hseen)]

theorem exists_ofText_mark_eq (c : Char) (cs : List Char) :
    ∃ first rest, Csv.records (c :: cs) = first :: rest ∧
      ofText (byteOrderMark :: c :: cs) = ofTable ⟨Csv.markedNames first.text⟩
        (rest.filter fun r => !Text.isBlankText r.text) := by
  obtain ⟨first, rest, hrecords, hmarked⟩ := Csv.exists_records_mark c cs
  have hseen : Text.isBlankText (byteOrderMark :: first.text) = false := by
    rw [Text.isBlankText, List.all_cons]
    rfl
  refine ⟨first, rest, hrecords, ?_⟩
  rw [ofText_of_records hmarked hseen, Csv.ofFields_mark]

theorem ofText_mark_of_head {c : Char} (hquote : c ≠ '"') (hblank : Text.isBlank c = false)
    (cs : List Char) : ofText (byteOrderMark :: c :: cs) = ofText (c :: cs) := by
  obtain ⟨first, rest, hrecords, hmarked⟩ := exists_ofText_mark_eq c cs
  obtain ⟨piece, hpiece⟩ := Csv.exists_text_eq_of_records hrecords hblank
  have hseen : Text.isBlankText first.text = false := by
    rw [Text.isBlankText, hpiece, List.all_cons, hblank, Bool.false_and]
  rw [hmarked, ofText_of_records hrecords hseen,
    Csv.ofFields_of_head (by simpa [hpiece] using hquote) (by simpa [hpiece] using hblank)]

/-- A trace whose columns are named in quotes, without the first of these. -/
def quotedNames : List Char :=
  "TIMESTAMP\",\"ContextTokens\",\"GeneratedTokens\"\n0,1,2\n".toList

/-- The texts that start with a character all say with a mark in front what they say without it if
this character is neither a quote nor a blank, and only then. In every text the mark makes the first
record the header, even if it is blank, and the first name in it is what stands before the comma. -/
theorem mark_unseen_iff (c : Char) :
    ((∀ cs, ofText (byteOrderMark :: c :: cs) = ofText (c :: cs)) ↔
        c ≠ '"' ∧ Text.isBlank c = false) ∧
      ∀ cs, ∃ first rest, Csv.records (c :: cs) = first :: rest ∧
        ofText (byteOrderMark :: c :: cs) = ofTable ⟨Csv.markedNames first.text⟩
          (rest.filter fun r => !Text.isBlankText r.text) := by
  refine ⟨⟨fun hunseen => ⟨?_, ?_⟩, fun h => ofText_mark_of_head h.1 h.2⟩, exists_ofText_mark_eq c⟩
  · rintro rfl
    exact absurd (hunseen quotedNames) (by decide +kernel)
  · by_contra hblank
    obtain ⟨first, rest, -, hmarked⟩ := exists_ofText_mark_eq c []
    rw [hunseen, ofText_blank (Bool.not_eq_false _ ▸ hblank)] at hmarked
    exact ofTable_ne_noHeader _ _ hmarked.symm

/-- The mark hides a column whose name is in quotes, and makes a blank line or nothing at all
the header. -/
theorem mark_seen :
    (ofText ('"' :: quotedNames) = .ok [⟨.zero false, 1, 2, 2⟩] ∧
        ofText (byteOrderMark :: '"' :: quotedNames) = .error (.missingColumn timestampColumn
          ["\"TIMESTAMP\"", "ContextTokens", "GeneratedTokens"])) ∧
      (ofText ('\n' :: '"' :: quotedNames) = .ok [⟨.zero false, 1, 2, 3⟩] ∧
        ofText (byteOrderMark :: '\n' :: '"' :: quotedNames) =
          .error (.missingColumn timestampColumn [""])) ∧
      ofText [] = .error .noHeader ∧
      ofText [byteOrderMark] = .error (.missingColumn timestampColumn [""]) := by
  decide +kernel

end TraceRow

end LoadReplay
