import LoadReplay.Proofs.Csv.RoundTrip
import LoadReplay.Proofs.Except
import LoadReplay.Trace.Row

/-!
# What is quoted

Two readers decide what is quoted. The reader of records counts quotes: a line break behind an odd
number of them stays in its record. The reader of fields lets a quote open a quoted part only at the
start of a field; in a field that is not quoted and behind the closing quote it is a character like
any other, a *stray* quote. `ReaderState` is where the reader of fields stands, and `recordsBy` are
the records of a text when line breaks end them as a given test says.

`splits_by_stray_quotes` tells exactly how the two differ: a line break inside quotes ends its
record, and one outside does not, if an odd number of stray quotes stands in the record before it.
Where no record holds a stray quote they agree, and a trace has a row for every record.
-/

namespace LoadReplay.Csv

/-! ## The reader of fields -/

/-- Where a reader of fields stands: at the start of a field, in one that is not quoted, inside the
quotes, behind a quote that closes them or is the first of a pair, or behind the closing quote. -/
inductive ReaderState where
  | start
  | plain
  | quoted
  | closing
  | skipped
  deriving Repr, DecidableEq

namespace ReaderState

/-- Where the reader stands a character later. -/
def next (delimiter : Char) (s : ReaderState) (c : Char) : ReaderState :=
  match s with
  | quoted => if c = '"' then closing else quoted
  | closing => if c = '"' then quoted else if c = delimiter then start else skipped
  | start => if c = '"' then quoted else if c = delimiter then start else plain
  | plain => if c = delimiter then start else plain
  | skipped => if c = delimiter then start else skipped

/-- Whether a quote is a stray one here. -/
def strays (s : ReaderState) : Bool := s = plain || s = skipped

/-- How many quotes of a text are stray ones. -/
def strayCount (s : ReaderState) : List Char → Nat
  | [] => 0
  | c :: cs => (if c = '"' && s.strays then 1 else 0) + (s.next comma c).strayCount cs

theorem strayCount_append (s : ReaderState) (xs ys : List Char) :
    s.strayCount (xs ++ ys) = s.strayCount xs + (xs.foldl (next comma) s).strayCount ys := by
  induction xs generalizing s with
  | nil => rw [List.nil_append, strayCount, Nat.zero_add, List.foldl_nil]
  | cons c xs ih =>
    rw [List.cons_append, strayCount, ih, strayCount, Nat.add_assoc, List.foldl_cons]

theorem strayCount_of_not_mem {s : ReaderState} {cs : List Char} (h : '"' ∉ cs) :
    s.strayCount cs = 0 := by
  induction cs generalizing s with
  | nil => rfl
  | cons c cs ih =>
    obtain ⟨hc, hcs⟩ := List.ne_and_not_mem_of_not_mem_cons h
    rw [strayCount, ih hcs]
    simp [hc.symm]

/-- A quote takes the reader into quotes or out of them unless it is a stray one. -/
theorem quoted_next_quote (s : ReaderState) :
    decide (s.next comma '"' = quoted) = (decide (s = quoted) != !s.strays) := by
  cases s <;> decide

theorem quoted_next {c : Char} (h : c ≠ '"') (s : ReaderState) :
    decide (s.next comma c = quoted) = decide (s = quoted) := by
  cases s <;> simp only [next, if_neg h] <;> (try split) <;> rfl

end ReaderState

/-- Whether the reader of fields is inside quotes behind the first part of a record. -/
def insideQuotes (part : List Char) : Bool :=
  part.foldl (ReaderState.next comma) .start = .quoted

/-- How many stray quotes the first part of a record holds. -/
def strayQuotes (part : List Char) : Nat := ReaderState.start.strayCount part

/-- The number of quotes is odd inside quotes and even outside, the stray ones apart. -/
theorem endsQuoted_eq {s : ReaderState} {quoted odd : Bool}
    (h : quoted = (decide (s = .quoted) != odd)) (cs : List Char) :
    endsQuoted quoted cs = (decide (cs.foldl (ReaderState.next comma) s = .quoted) !=
      (odd != decide (s.strayCount cs % 2 = 1))) := by
  induction cs generalizing s quoted odd with
  | nil =>
    rw [endsQuoted, List.foldl_nil, h, ReaderState.strayCount]
    simp
  | cons c cs ih =>
    rw [endsQuoted, List.foldl_cons, ReaderState.strayCount]
    by_cases hc : c = '"'
    · subst hc
      have hnext : (!quoted) = (decide (s.next comma '"' = .quoted) != (odd != s.strays)) := by
        rw [h, ReaderState.quoted_next_quote]
        cases decide (s = .quoted) <;> cases odd <;> cases s.strays <;> rfl
      have hodd (n : Nat) : decide (((if s.strays then 1 else 0) + n) % 2 = 1) =
          (s.strays != decide (n % 2 = 1)) := by
        cases s.strays with
        | false => simp
        | true =>
          rw [Bool.eq_iff_iff]
          simp
          omega
      simp only [if_true, ih hnext, Bool.true_and, decide_true, hodd, Bool.bne_assoc]
    · have hnext : quoted = (decide (s.next comma c = .quoted) != odd) := by
        rw [h, ReaderState.quoted_next hc]
      simp only [ih hnext, hc, decide_false, Bool.false_and, Bool.false_eq_true,
        if_false, Nat.zero_add]

/-! ## Records by a test -/

/-- The records from here on when a line break ends a record if `ends` holds of the part of the
record in front of it; the other arguments are those of `recordsFrom`. -/
def recordsByFrom (ends : List Char → Bool) (start line : Nat) (reversed : List Char) :
    List Char → List Record
  | [] => if reversed.isEmpty then [] else [⟨start, closeRecord reversed⟩]
  | c :: cs =>
    if c = '\n' then
      if ends reversed.reverse then
        ⟨start, closeRecord reversed⟩ :: recordsByFrom ends (line + 1) (line + 1) [] cs
      else recordsByFrom ends start (line + 1) (c :: reversed) cs
    else recordsByFrom ends start line (c :: reversed) cs

/-- The records of a text when a line break ends a record if `ends` holds of the part of the record
in front of it. -/
def recordsBy (ends : List Char → Bool) (text : List Char) : List Record :=
  recordsByFrom ends 1 1 [] text

theorem recordsFrom_eq_recordsByFrom {quoted : Bool} {reversed : List Char}
    (h : quoted = endsQuoted false reversed.reverse) (start line : Nat) (cs : List Char) :
    recordsFrom quoted start line reversed cs =
      recordsByFrom (fun part => !endsQuoted false part) start line reversed cs := by
  induction cs generalizing quoted reversed start line with
  | nil => rfl
  | cons c cs ih =>
    have hnext : (if c = '"' then !quoted else quoted) =
        endsQuoted false (c :: reversed).reverse := by
      rw [List.reverse_cons, endsQuoted_append, ← h]
      rfl
    rw [recordsFrom, recordsByFrom, ← h]
    split
    next hc =>
      have hkept : quoted = endsQuoted false (c :: reversed).reverse := by
        rw [← hnext, if_neg (by rw [hc]; decide)]
      cases quoted with
      | true => exact ih hkept _ _
      | false =>
        have hopen : false = endsQuoted false ([] : List Char).reverse := rfl
        exact congrArg (⟨start, closeRecord reversed⟩ :: ·) (ih hopen _ _)
    next => exact ih hnext _ _

theorem records_eq_recordsBy (text : List Char) :
    records text = recordsBy (fun part => !endsQuoted false part) text :=
  have hopen : false = endsQuoted false ([] : List Char).reverse := rfl
  recordsFrom_eq_recordsByFrom hopen 1 1 text

/-- What a record holds so far, a record of the text holds in the end. -/
theorem exists_mem_recordsByFrom (ends : List Char → Bool) (start line : Nat) {reversed : List Char}
    (h : reversed ≠ []) (cs : List Char) :
    ∃ r ∈ recordsByFrom ends start line reversed cs, ∃ rest,
      r.text = closeRecord (rest ++ reversed) := by
  induction cs generalizing line reversed with
  | nil =>
    refine ⟨⟨start, closeRecord reversed⟩, ?_, [], rfl⟩
    rw [recordsByFrom, if_neg (by simpa using h)]
    exact List.mem_singleton_self _
  | cons c cs ih =>
    have hlater (line : Nat) : ∃ r ∈ recordsByFrom ends start line (c :: reversed) cs, ∃ rest,
        r.text = closeRecord (rest ++ reversed) := by
      obtain ⟨r, hr, rest, hrest⟩ := ih line (List.cons_ne_nil c reversed)
      exact ⟨r, hr, rest ++ [c], by rw [hrest, List.append_assoc, List.singleton_append]⟩
    rw [recordsByFrom]
    split
    · split
      · exact ⟨_, List.mem_cons_self .., [], rfl⟩
      · exact hlater _
    · exact hlater _

/-! ## Records without stray quotes -/

/-- Taking off what ends a record takes off no quote. -/
theorem strayQuotes_closeRecord (reversed : List Char) :
    strayQuotes (closeRecord reversed) = strayQuotes reversed.reverse := by
  have hsplit : reversed.reverse =
      closeRecord reversed ++ (reversed.takeWhile (· == '\r')).reverse := by
    rw [closeRecord, ← List.reverse_append, List.takeWhile_append_dropWhile]
  have hquote : '"' ∉ (reversed.takeWhile (· == '\r')).reverse := by
    rw [List.mem_reverse]
    intro hmem
    exact absurd (List.mem_takeWhile_imp hmem) (by decide)
  rw [hsplit, strayQuotes, strayQuotes, ReaderState.strayCount_append,
    ReaderState.strayCount_of_not_mem hquote, Nat.add_zero]

/-- Two tests that agree where there is no stray quote make the same records of a text, if the
first makes none with a stray quote. -/
theorem recordsByFrom_congr {p q : List Char → Bool}
    (hpq : ∀ part, strayQuotes part = 0 → p part = q part) (start line : Nat)
    (reversed cs : List Char)
    (h : ∀ r ∈ recordsByFrom p start line reversed cs, strayQuotes r.text = 0) :
    recordsByFrom p start line reversed cs = recordsByFrom q start line reversed cs := by
  induction cs generalizing start line reversed with
  | nil => rfl
  | cons c cs ih =>
    rw [recordsByFrom] at h
    rw [recordsByFrom, recordsByFrom]
    by_cases hc : c = '\n'
    · rw [if_pos hc] at h ⊢
      rw [if_pos hc]
      by_cases hends : p reversed.reverse = true
      · rw [if_pos hends] at h ⊢
        obtain ⟨hfirst, hrest⟩ := List.forall_mem_cons.1 h
        rw [strayQuotes_closeRecord] at hfirst
        rw [if_pos (hpq _ hfirst ▸ hends), ih _ _ _ hrest]
      · rw [if_neg hends] at h ⊢
        obtain ⟨r, hr, rest, htext⟩ :=
          exists_mem_recordsByFrom p start (line + 1) (List.cons_ne_nil c reversed) cs
        have hpart : strayQuotes reversed.reverse = 0 := by
          have hzero := h r hr
          rw [htext, strayQuotes_closeRecord, List.reverse_append, List.reverse_cons,
            List.append_assoc, strayQuotes, ReaderState.strayCount_append] at hzero
          exact (Nat.add_eq_zero_iff.1 hzero).1
        rw [if_neg (hpq _ hpart ▸ hends), ih _ _ _ h]
    · rw [if_neg hc] at h ⊢
      rw [if_neg hc, ih _ _ _ h]

end LoadReplay.Csv

/-! ## Rows of a trace -/

namespace LoadReplay.TraceRow

theorem line_of_ofRecord {columns : Columns} {record : Csv.Record} {row : TraceRow}
    (h : ofRecord columns record = .ok row) : row.line = record.line := by
  obtain ⟨text, -, h⟩ := Except.bind_eq_ok_iff.1 h
  split at h
  · cases h
  · obtain ⟨context, -, h⟩ := Except.bind_eq_ok_iff.1 h
    obtain ⟨generated, -, h⟩ := Except.bind_eq_ok_iff.1 h
    cases h
    rfl

/-- A trace has a row for every record that is not blank, the first one apart. -/
theorem map_line_of_ofText {text : List Char} {rows : List TraceRow} (h : ofText text = .ok rows) :
    rows.map (·.line) =
      (((Csv.records text).filter fun r => !Text.isBlankText r.text).tail).map (·.line) := by
  unfold ofText at h
  split at h
  · cases h
  next header records hrecords =>
    obtain ⟨columns, -, h⟩ := Except.bind_eq_ok_iff.1 h
    obtain ⟨read, hread, h⟩ := Except.bind_eq_ok_iff.1 h
    have hrows : read = rows := by
      split at h
      · cases h
      · exact Except.ok.inj h
    subst hrows
    rw [hrecords, List.tail_cons]
    have hlines := (Except.mapM_eq_ok_iff.1 hread).imp fun _ _ hrow => (line_of_ofRecord hrow).symm
    rw [← List.forall₂_eq_eq_eq, List.forall₂_map_left_iff, List.forall₂_map_right_iff]
    exact hlines.flip.imp fun _ _ => Eq.symm

end LoadReplay.TraceRow

namespace LoadReplay.Csv

/-- A line break ends its record if it is not inside quotes, and that is turned around by an odd
number of stray quotes in the record before it. So the readers of records and of fields agree about
a text none of whose records holds a stray quote, and a trace of that kind has a row for each of its
records. -/
theorem splits_by_stray_quotes (text : List Char) :
    records text =
        recordsBy (fun part => insideQuotes part == decide (strayQuotes part % 2 = 1)) text ∧
      ((∀ r ∈ records text, strayQuotes r.text = 0) →
        records text = recordsBy (fun part => !insideQuotes part) text ∧
          ∀ rows, TraceRow.ofText text = .ok rows → rows.map (·.line) =
            (((recordsBy (fun part => !insideQuotes part) text).filter fun r =>
              !Text.isBlankText r.text).tail).map (·.line)) := by
  have hparity : (fun part => !endsQuoted false part) =
      fun part => insideQuotes part == decide (strayQuotes part % 2 = 1) := by
    funext part
    have hquoted : false = (decide (ReaderState.start = .quoted) != false) := rfl
    rw [endsQuoted_eq hquoted, insideQuotes, strayQuotes]
    cases decide (_ = ReaderState.quoted) <;> simp
  refine ⟨hparity ▸ records_eq_recordsBy text, fun htidy => ?_⟩
  have hagree : records text = recordsBy (fun part => !insideQuotes part) text := by
    rw [records_eq_recordsBy, hparity] at htidy ⊢
    refine recordsByFrom_congr (fun part hpart => ?_) 1 1 [] text htidy
    rw [hpart]
    simp
  exact ⟨hagree, fun rows hrows => hagree ▸ TraceRow.map_line_of_ofText hrows⟩

/-- A trace with a note that spans two lines and holds a quote. -/
def notedTrace : List Char :=
  "TIMESTAMP,ContextTokens,GeneratedTokens,Note\n0,1,2,\"two\n\"\"lines\"\"\"\n1,3,4,none\n".toList

theorem splits_by_stray_quotes_sample :
    (∀ r ∈ records notedTrace, strayQuotes r.text = 0) ∧
      (records notedTrace).map (·.line) = [1, 2, 4] ∧
      (TraceRow.ofText notedTrace).toOption.map (·.map (·.line)) = some [2, 4] := by
  have htidy : ∀ r ∈ records notedTrace, strayQuotes r.text = 0 := by decide +kernel
  obtain ⟨hrecords, hrows⟩ := (splits_by_stray_quotes notedTrace).2 htidy
  refine ⟨htidy, hrecords ▸ by decide +kernel, ?_⟩
  obtain ⟨rows, hread⟩ : ∃ rows, (TraceRow.ofText notedTrace).toOption = some rows :=
    Option.isSome_iff_exists.1 (by decide +kernel)
  rw [hread, Option.map_some, hrows rows (Except.toOption_eq_some_iff.1 hread)]
  decide +kernel

/-- A trace with the sizes of disks in inches. -/
def driveTrace : List Char :=
  "TIMESTAMP,ContextTokens,GeneratedTokens,Disk\n0,1,2,5\" drive\n1,3,4,3\" drive\n".toList

/-- No quoted field spans the last two lines of the trace, but the second of them is lost: the two
are one record, and one row. -/
theorem row_lost :
    (recordsBy (fun part => !insideQuotes part) driveTrace).map (·.line) = [1, 2, 3] ∧
      (records driveTrace).map (·.line) = [1, 2] ∧
      (TraceRow.ofText driveTrace).toOption.map (·.length) = some 1 := by
  decide +kernel

end LoadReplay.Csv
