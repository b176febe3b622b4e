import LoadReplay.Proofs.Csv.Quoting

/-!
# Fields in one pass

`ReaderState.read` goes through a record once. A character ends the field if it is a delimiter that
is not quoted; any other takes the reader from one state to the next and adds to the field what it
stands for there. So there is one field more than there are delimiters outside quotes.

The fields of a record are those, but for one case: whether a last empty field follows is decided
by the last character of the record, and where the record ends inside quotes this character is part
of the last field even if it looks like a delimiter. Then the record has an empty field too many
(`fields_in_one_pass`).
-/

namespace LoadReplay.Csv

namespace ReaderState

/-- Whether a character ends the field: a delimiter does unless it is quoted. -/
def endsField (delimiter : Char) (s : ReaderState) (c : Char) : Bool := c = delimiter && s ≠ quoted

/-- What a character that does not end the field adds to it. -/
def adds (s : ReaderState) (c : Char) : List Char :=
  match s with
  | start | quoted => if c = '"' then [] else [c]
  | closing => if c = '"' then ['"'] else []
  | plain => [c]
  | skipped => []

/-- The fields from here on, `field` being what the current one holds so far. -/
def read (delimiter : Char) (s : ReaderState) (field : List Char) : List Char → List (List Char)
  | [] => [field]
  | c :: cs =>
    if s.endsField delimiter c then field :: (s.next delimiter c).read delimiter [] cs
    else (s.next delimiter c).read delimiter (field ++ s.adds c) cs

/-- How many delimiters stand outside quotes. -/
def delimiterCount (delimiter : Char) (s : ReaderState) : List Char → Nat
  | [] => 0
  | c :: cs => (if s.endsField delimiter c then 1 else 0) +
      (s.next delimiter c).delimiterCount delimiter cs

theorem length_read (delimiter : Char) (s : ReaderState) (field cs : List Char) :
    (s.read delimiter field cs).length = s.delimiterCount delimiter cs + 1 := by
  induction cs generalizing s field with
  | nil => rfl
  | cons c cs ih =>
    rw [read, delimiterCount]
    split_ifs
    · rw [List.length_cons, ih]
      omega
    · rw [ih]
      omega

/-! ## The first field -/

/-- What the current field still takes in, and the text behind the delimiter that ends it. -/
def restOfField (delimiter : Char) (s : ReaderState) : List Char → List Char × Option (List Char)
  | [] => ([], none)
  | c :: cs =>
    if s.endsField delimiter c then ([], some cs)
    else (s.adds c ++ ((s.next delimiter c).restOfField delimiter cs).1,
      ((s.next delimiter c).restOfField delimiter cs).2)

/-- A character that does not end the field leaves the reader in one. -/
theorem next_ne_start {delimiter : Char} {s : ReaderState} {c : Char}
    (h : s.endsField delimiter c = false) : s.next delimiter c ≠ start := by
  have hc : s = quoted ∨ c ≠ delimiter := by
    simpa [endsField, or_comm, imp_iff_not_or] using h
  rcases hc with rfl | hc
  · simp only [next]
    split_ifs <;> decide
  · cases s <;> simp only [next, if_neg hc] <;> (try split_ifs) <;> decide

section

variable (delimiter : Char) {cs : List Char}

theorem restOfField_plain (cs : List Char) :
    (plain.restOfField delimiter cs).1 = beforeDelimiter delimiter cs ∧
      (plain.restOfField delimiter cs).2.getD [] = afterDelimiter delimiter cs := by
  induction cs with
  | nil => exact ⟨rfl, rfl⟩
  | cons c cs ih =>
    rw [beforeDelimiter] at ih ⊢
    rw [restOfField, afterDelimiter]
    by_cases hc : c = delimiter
    · simp [endsField, hc]
    · simpa [endsField, hc, next, adds] using ih

theorem restOfField_skipped (cs : List Char) :
    (skipped.restOfField delimiter cs).1 = [] ∧
      (skipped.restOfField delimiter cs).2.getD [] = afterDelimiter delimiter cs := by
  induction cs with
  | nil => exact ⟨rfl, rfl⟩
  | cons c cs ih =>
    rw [restOfField, afterDelimiter]
    by_cases hc : c = delimiter
    · simp [endsField, hc]
    · simpa [endsField, hc, next, adds] using ih

/-- A quote that is not the first of a pair has closed the quoted part. -/
theorem restOfField_closing (h : cs.head? ≠ some '"') :
    closing.restOfField delimiter cs = skipped.restOfField delimiter cs := by
  cases cs with
  | nil => rfl
  | cons c cs =>
    have hc : c ≠ '"' := fun hc => h (congrArg some hc)
    simp [restOfField, endsField, next, adds, hc]

theorem restOfField_start (h : cs.head? ≠ some '"') :
    start.restOfField delimiter cs = plain.restOfField delimiter cs := by
  cases cs with
  | nil => rfl
  | cons c cs =>
    have hc : c ≠ '"' := fun hc => h (congrArg some hc)
    simp [restOfField, endsField, next, adds, hc]

end

section

variable {delimiter : Char} (hdelimiter : delimiter ≠ '"')
include hdelimiter

theorem restOfField_quoted (cs : List Char) :
    (quoted.restOfField delimiter cs).1 = (quotedPart cs).1 ∧
      (quoted.restOfField delimiter cs).2.getD [] =
        afterDelimiter delimiter (quotedPart cs).2 := by
  fun_induction quotedPart cs with
  | case1 => exact ⟨rfl, rfl⟩
  | case2 cs ih => simpa [restOfField, endsField, next, adds, hdelimiter.symm] using ih
  | case3 cs hpair =>
    have hhead : cs.head? ≠ some '"' := by
      intro h
      obtain ⟨rest, rfl⟩ := List.head?_eq_some_iff.1 h
      exact hpair rest rfl
    simpa [restOfField, endsField, next, adds, restOfField_closing delimiter hhead] using
      restOfField_skipped delimiter cs
  | case4 c cs _ hc ih =>
    have hc : c ≠ '"' := hc
    simpa [restOfField, endsField, next, adds, hc] using ih

/-- The reader takes in the first field and stops behind its delimiter. -/
theorem nextField_eq (cs : List Char) : nextField delimiter cs =
    ((start.restOfField delimiter cs).1, (start.restOfField delimiter cs).2.getD []) := by
  by_cases hquote : cs.head? = some '"'
  · obtain ⟨cs, rfl⟩ := List.head?_eq_some_iff.1 hquote
    obtain ⟨hfield, hrest⟩ := restOfField_quoted hdelimiter cs
    have hstart : start.restOfField delimiter ('"' :: cs) = quoted.restOfField delimiter cs := by
      simp [restOfField, endsField, next, adds, hdelimiter.symm]
    rw [hstart, hfield, hrest, nextField]
  · obtain ⟨hfield, hrest⟩ := restOfField_plain delimiter cs
    rw [nextField_of_head hquote, restOfField_start delimiter hquote, hfield, hrest]

/-! ## From field to field -/

theorem next_delimiter (s : ReaderState) :
    s.next delimiter delimiter = if s = quoted then quoted else start := by
  cases s <;> simp [next, hdelimiter]

theorem next_of_endsField {s : ReaderState} {c : Char} (h : s.endsField delimiter c = true) :
    c = delimiter ∧ s.next delimiter c = start := by
  obtain ⟨hc, hs⟩ := Bool.and_eq_true_iff.1 h
  obtain rfl := of_decide_eq_true hc
  exact ⟨rfl, (next_delimiter hdelimiter s).trans (if_neg (of_decide_eq_true hs))⟩

/-- The current field is read first, then those behind its delimiter. -/
theorem read_eq (s : ReaderState) (field cs : List Char) :
    s.read delimiter field cs = (field ++ (s.restOfField delimiter cs).1) ::
      (s.restOfField delimiter cs).2.elim [] (start.read delimiter []) := by
  induction cs generalizing s field with
  | nil => rw [read, restOfField, List.append_nil, Option.elim_none]
  | cons c cs ih =>
    rw [read, restOfField]
    split_ifs with hends
    · rw [(next_of_endsField hdelimiter hends).2, List.append_nil, Option.elim_some]
    · rw [ih, List.append_assoc]

/-- Behind its delimiter the reader is at the start of a field. -/
theorem foldl_next_of_some {s : ReaderState} {cs rest : List Char}
    (h : (s.restOfField delimiter cs).2 = some rest) : ∃ piece, cs = piece ++ delimiter :: rest ∧
      cs.foldl (next delimiter) s = rest.foldl (next delimiter) start := by
  induction cs generalizing s with
  | nil => cases h
  | cons c cs ih =>
    rw [restOfField] at h
    rw [List.foldl_cons]
    split_ifs at h with hends
    · obtain ⟨rfl, hnext⟩ := next_of_endsField hdelimiter hends
      obtain rfl := Option.some.inj h
      exact ⟨[], rfl, by rw [hnext]⟩
    · obtain ⟨piece, rfl, hfold⟩ := ih h
      exact ⟨c :: piece, rfl, hfold⟩

omit hdelimiter in
/-- Without one it is not. -/
theorem foldl_next_of_none {s : ReaderState} {cs : List Char}
    (h : (s.restOfField delimiter cs).2 = none) (hne : cs ≠ []) :
    cs.foldl (next delimiter) s ≠ start := by
  induction cs generalizing s with
  | nil => exact absurd rfl hne
  | cons c cs ih =>
    rw [restOfField] at h
    rw [List.foldl_cons]
    split_ifs at h with hends
    cases cs with
    | nil => exact next_ne_start (Bool.eq_false_iff.2 hends)
    | cons d cs => exact ih h (List.cons_ne_nil d cs)

end

end ReaderState

open ReaderState

/-- A record ends in a delimiter, but inside quotes. -/
structure EndsInQuotedDelimiter (delimiter : Char) (record : List Char) : Prop where
  getLast?_eq : record.getLast? = some delimiter
  quoted : record.foldl (next delimiter) .start = .quoted

instance (delimiter : Char) (record : List Char) :
    Decidable (EndsInQuotedDelimiter delimiter record) :=
  decidable_of_iff (record.getLast? = some delimiter ∧
    record.foldl (next delimiter) .start = .quoted) ⟨fun h => ⟨h.1, h.2⟩, fun h => ⟨h.1, h.2⟩⟩

section

variable {delimiter : Char} (hdelimiter : delimiter ≠ '"')
include hdelimiter

/-- A reader that passed a delimiter is at the start of a field or inside quotes. -/
theorem endsInQuotedDelimiter_iff {record : List Char} (h : record.getLast? = some delimiter) :
    EndsInQuotedDelimiter delimiter record ↔
      record.foldl (next delimiter) .start ≠ .start := by
  obtain ⟨front, rfl⟩ := List.getLast?_eq_some_iff.1 h
  have hstate : (front ++ [delimiter]).foldl (next delimiter) .start =
      if front.foldl (next delimiter) .start = .quoted then .quoted else .start := by
    rw [List.foldl_concat, next_delimiter hdelimiter]
  constructor
  · intro hends
    rw [hends.quoted]
    decide
  · intro hne
    refine ⟨h, ?_⟩
    rw [hstate] at hne ⊢
    split_ifs at hne ⊢
    · rfl
    · exact absurd rfl hne

/-- No delimiter ends the field: it is the last one, unless a quoted delimiter ends the record. -/
theorem fieldsFrom_of_none {ends : Bool} {cs : List Char}
    (h : ends = (cs.getLast? == some delimiter))
    (hrest : (ReaderState.start.restOfField delimiter cs).2 = none) :
    fieldsFrom delimiter ends cs = (ReaderState.start.restOfField delimiter cs).1 ::
      if EndsInQuotedDelimiter delimiter cs then [[]] else [] := by
  have hnext := nextField_eq hdelimiter cs
  rw [hrest, Option.getD_none] at hnext
  rw [fieldsFrom_of_last hnext, h]
  by_cases hlast : cs.getLast? = some delimiter
  · have hne : cs ≠ [] := by
      rintro rfl
      cases hlast
    have hquoted : EndsInQuotedDelimiter delimiter cs :=
      (endsInQuotedDelimiter_iff hdelimiter hlast).2 (foldl_next_of_none hrest hne)
    rw [hlast, beq_self_eq_true, if_pos rfl, if_pos hquoted]
  · rw [beq_eq_false_iff_ne.2 hlast, if_neg Bool.false_ne_true,
      if_neg fun hquoted => hlast hquoted.getLast?_eq]

/-- The delimiter that ends the field is the last character of the record. -/
theorem ends_of_some_nil {cs : List Char}
    (hrest : (ReaderState.start.restOfField delimiter cs).2 = some []) :
    cs.getLast? = some delimiter ∧ ¬ EndsInQuotedDelimiter delimiter cs := by
  obtain ⟨piece, hcs, hfold⟩ := foldl_next_of_some hdelimiter hrest
  have hlast : cs.getLast? = some delimiter := by rw [hcs, List.getLast?_concat]
  refine ⟨hlast, ?_⟩
  rw [endsInQuotedDelimiter_iff hdelimiter hlast, hfold]
  exact not_not_intro rfl

/-- Text behind the delimiter that ends the field: the record ends as this text does. -/
theorem ends_of_some {cs rest : List Char}
    (hrest : (ReaderState.start.restOfField delimiter cs).2 = some rest) (hne : rest ≠ []) :
    rest.length < cs.length ∧ cs.getLast? = rest.getLast? ∧
      (EndsInQuotedDelimiter delimiter cs ↔ EndsInQuotedDelimiter delimiter rest) := by
  obtain ⟨piece, hcs, hfold⟩ := foldl_next_of_some hdelimiter hrest
  have hlast : cs.getLast? = rest.getLast? := by
    rw [hcs, List.getLast?_append_cons, List.getLast?_cons_of_ne_nil hne]
  refine ⟨?_, hlast, ?_⟩
  · rw [hcs, List.length_append, List.length_cons]
    omega
  · constructor
    · exact fun ⟨hlast', hfold'⟩ => ⟨hlast ▸ hlast', hfold ▸ hfold'⟩
    · exact fun ⟨hlast', hfold'⟩ => ⟨hlast ▸ hlast', hfold ▸ hfold'⟩

/-- The fields are those of the reader, with an empty one behind them if the record ends in a
quoted delimiter. -/
theorem fieldsFrom_eq {ends : Bool} {cs : List Char} (h : ends = (cs.getLast? == some delimiter)) :
    fieldsFrom delimiter ends cs = ReaderState.start.read delimiter [] cs ++
      if EndsInQuotedDelimiter delimiter cs then [[]] else [] := by
  induction hlength : cs.length using Nat.strong_induction_on generalizing cs with
  | _ n ih =>
    rw [read_eq hdelimiter, List.nil_append, List.cons_append]
    cases hrest : (ReaderState.start.restOfField delimiter cs).2 with
    | none => exact fieldsFrom_of_none hdelimiter h hrest
    | some rest =>
      have hnext := nextField_eq hdelimiter cs
      rw [hrest, Option.getD_some] at hnext
      rw [Option.elim_some]
      by_cases hnil : rest = []
      · subst hnil
        obtain ⟨hlast, hopen⟩ := ends_of_some_nil hdelimiter hrest
        rw [fieldsFrom_of_last hnext, h, hlast, beq_self_eq_true, if_pos rfl, if_neg hopen,
          List.append_nil]
        rfl
      · obtain ⟨hlt, hlast, hquoted⟩ := ends_of_some hdelimiter hrest hnil
        rw [fieldsFrom_of_next hnext hnil, ih _ (hlength ▸ hlt) (hlast ▸ h) rfl]
        simp only [hquoted]

theorem fields_eq (record : List Char) :
    fields delimiter record = ReaderState.start.read delimiter [] record ++
      if EndsInQuotedDelimiter delimiter record then [[]] else [] :=
  fieldsFrom_eq hdelimiter rfl

end

/-- The fields of a record are those of a reader that goes through it once, one more than there are
delimiters outside quotes, unless the record ends in a delimiter inside quotes. The reader takes
this one into the last field, and the record has an empty field behind it. -/
theorem fields_in_one_pass {delimiter : Char} (hdelimiter : delimiter ≠ '"')
    (record : List Char) :
    (¬ EndsInQuotedDelimiter delimiter record →
        fields delimiter record = ReaderState.start.read delimiter [] record ∧
          (fields delimiter record).length =
            ReaderState.start.delimiterCount delimiter record + 1) ∧
      (EndsInQuotedDelimiter delimiter record →
        fields delimiter record = ReaderState.start.read delimiter [] record ++ [[]] ∧
          (fields delimiter record).length =
            ReaderState.start.delimiterCount delimiter record + 2) := by
  have hcount := length_read delimiter .start [] record
  constructor
  · intro hopen
    have hfields := fields_eq hdelimiter record
    rw [if_neg hopen, List.append_nil] at hfields
    exact ⟨hfields, by rw [hfields, hcount]⟩
  · intro hquoted
    have hfields := fields_eq hdelimiter record
    rw [if_pos hquoted] at hfields
    exact ⟨hfields, by rw [hfields, List.length_append, hcount]; rfl⟩

/-- A record with a quote and a delimiter inside quotes, text behind a closing quote, and a
delimiter at its end. -/
def mixedRecord : List Char := "\"a\"\",b\"c,d,\"e\",".toList

theorem fields_in_one_pass_sample :
    comma ≠ '"' ∧ ¬ EndsInQuotedDelimiter comma mixedRecord ∧
      fields comma mixedRecord = ["a\",b".toList, "d".toList, "e".toList, []] ∧
      (fields comma mixedRecord).length = 4 := by
  have hcomma : comma ≠ '"' := by decide
  have hopen : ¬ EndsInQuotedDelimiter comma mixedRecord := by decide
  obtain ⟨hfields, hlength⟩ := (fields_in_one_pass hcomma mixedRecord).1 hopen
  exact ⟨hcomma, hopen, hfields.trans (by decide), hlength.trans (by decide)⟩

/-- A record that consists of a quoted part without an end. -/
def unclosedRecord : List Char := "\"abc,".toList

/-- The comma is part of the field, and there is no other, but the record has two fields. -/
theorem field_too_many :
    ReaderState.start.read comma [] unclosedRecord = ["abc,".toList] ∧
      ReaderState.start.delimiterCount comma unclosedRecord = 0 ∧
      fields comma unclosedRecord = ["abc,".toList, []] := by
  decide +kernel

end LoadReplay.Csv
