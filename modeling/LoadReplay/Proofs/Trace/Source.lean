import LoadReplay.Proofs.Trace.Reading
import LoadReplay.Proofs.Trace.Selection
import LoadReplay.Proofs.Trace.Timestamps
import Mathlib.Data.List.Induction

/-!
# What the files say

The prompts are the texts of the members of the prompts file, the last one of a label counting
(`Prompts.member?_eq`), and the rows hold what the cells of the trace say
(`TraceRow.ofText_eq_ok_iff`). The events that are loaded carry what the files say of the first rows
in their order (`Trace.exists_source`).
-/

namespace LoadReplay

/-! ## Prompts -/

namespace Prompts

theorem lookup_cons_eq (other label text : String) (entries : List (String × String)) :
    ((label, text) :: entries).lookup other =
      if other = label then some text else entries.lookup other := by
  rw [List.lookup_cons]
  split_ifs with h
  · rw [h, beq_self_eq_true]
  · rw [beq_eq_false_iff_ne.2 h]

/-- An entry is found under its label, and those of other labels are found as before. -/
theorem lookup_insertEntry (label text other : String) (entries : List (String × String)) :
    (insertEntry label text entries).lookup other =
      if other = label then some text else entries.lookup other := by
  induction entries with
  | nil => exact lookup_cons_eq other label text []
  | cons entry entries ih =>
    obtain ⟨first, kept⟩ := entry
    simp only [insertEntry]
    split
    · exact lookup_cons_eq other label text _
    · split
      next heq =>
        rw [lookup_cons_eq, lookup_cons_eq, ← heq]
        split_ifs <;> rfl
      next hne =>
        rw [lookup_cons_eq, lookup_cons_eq, ih]
        split_ifs with hfirst hlabel
        · exact absurd (hlabel.symm.trans hfirst) hne
        all_goals rfl

/-- Of the entries with one label the last one counts. -/
theorem find?_ofEntries (entries : List (String × String)) (label : String) :
    (ofEntries entries).find? label = (entries.reverse.find? (·.1 == label)).map (·.2) := by
  rw [find?, ofEntries]
  induction entries using List.reverseRecOn with
  | nil => rfl
  | append_singleton entries entry ih =>
    rw [List.foldl_concat, lookup_insertEntry, ih, List.reverse_concat, List.find?_cons]
    split_ifs with h
    · rw [h, beq_self_eq_true]
      rfl
    · rw [beq_eq_false_iff_ne.2 (Ne.symm h)]

theorem eq_string_of_string? {value : Json.Value} {text : String} (h : value.string? = some text) :
    value = .string text := by
  cases value <;> cases h
  rfl

/-- An object whose members are texts. -/
theorem eq_object_of_strings? {value : Json.Value} {entries : List (String × String)}
    (h : value.strings? = some entries) :
    value = .object (entries.map fun entry => (entry.1, .string entry.2)) := by
  cases value with
  | object members =>
    congr 1
    rw [Json.Value.strings?] at h
    induction members generalizing entries with
    | nil =>
      obtain rfl : [] = entries := Option.some.inj h
      rfl
    | cons m members ih =>
      simp only [List.mapM_cons, Option.bind_eq_bind, Option.bind_eq_some_iff] at h
      obtain ⟨entry, hentry, kept, hkept, hcons⟩ := h
      obtain ⟨text, htext, rfl⟩ := Option.map_eq_some_iff.1 hentry
      obtain rfl := Option.some.inj hcons
      rw [List.map_cons, ← ih hkept, ← eq_string_of_string? htext]
  | _ => cases h

/-- The text of a label is the one that the file gives it. -/
theorem member?_eq {text : List Char} {prompts : Prompts} (h : ofText? text = some prompts) :
    ∃ value, Json.parse? text = some value ∧
      ∀ label, value.member? label = (prompts.find? label).map .string := by
  obtain ⟨entries, hentries, rfl⟩ := Option.map_eq_some_iff.1 h
  obtain ⟨value, hvalue, hstrings⟩ := Option.bind_eq_some_iff.1 hentries
  refine ⟨value, hvalue, fun label => ?_⟩
  rw [eq_object_of_strings? hstrings, find?_ofEntries, Json.Value.member?, ← List.map_reverse,
    List.find?_map, Option.map_map, Option.map_map]
  rfl

end Prompts

/-! ## Loaded traces -/

/-- What is read from a record does not depend on the other records. -/
theorem TraceRow.AreOf.exists_readFrom {text : List Char} {rows : List TraceRow}
    (h : AreOf text rows) : ∀ row ∈ rows, ∃ columns record, ReadFrom columns record row := by
  obtain ⟨header, records, columns, -, -, hrows⟩ := h
  have hflip : List.Forall₂ (fun row record => (∃ record, ReadFrom columns record row) ∧
      ReadFrom columns record row) rows records :=
    List.Forall₂.flip (hrows.imp fun record row hrow => ⟨⟨record, hrow⟩, hrow⟩)
  exact fun row hrow => ⟨columns, ((List.forall₂_and_left rows records).1 hflip).1 row hrow⟩

namespace Trace

/-- What a trace is loaded from: the rows of the trace file, the buckets made from them, and the
value in the prompts file. -/
structure Source (disk : Disk) (tracePath promptsPath : String) (choice : BucketChoice)
    (rows : List TraceRow) (buckets : Buckets) (prompts : Json.Value) : Prop where
  rows_eq : ∃ text, disk.readText tracePath = .ok text ∧ TraceRow.AreOf text rows
  buckets_eq : bucketsFor choice rows = .ok buckets
  prompts_eq : ∃ text, disk.readText promptsPath = .ok text ∧ Json.parse? text = some prompts

/-- An event carries what the files say of a row. -/
structure Carries (buckets : Buckets) (prompts : Json.Value) (start : Double) (row : TraceRow)
    (event : Event) : Prop where
  contextTokens_eq : event.contextTokens = row.contextTokens
  generatedTokens_eq : event.generatedTokens = row.generatedTokens
  contextTokens_lt : event.contextTokens < TraceRow.countBound
  generatedTokens_lt : event.generatedTokens < TraceRow.countBound
  offset_eq : event.offset = row.timestamp - start
  classify_eq : buckets.classify (Double.ofNat row.contextTokens) = .ok event.bucket
  member?_eq : prompts.member? event.bucket = some (.string event.prompt)

variable {disk : Disk} {tracePath promptsPath : String} {choice : BucketChoice}
  {limit : Option Nat} {loaded : Loaded}

theorem areOf_of_readRows {rows : List TraceRow} (h : readRows disk tracePath = .ok rows) :
    ∃ text, disk.readText tracePath = .ok text ∧ TraceRow.AreOf text rows := by
  rw [readRows] at h
  split at h
  next => cases h
  next text htext =>
    exact ⟨text, htext, (TraceRow.ofText_eq_ok_iff.1 (Except.mapError_eq_ok_iff.1 h)).2⟩

theorem member?_of_readPrompts {prompts : Prompts}
    (h : readPrompts disk promptsPath = .ok prompts) :
    ∃ text value, disk.readText promptsPath = .ok text ∧ Json.parse? text = some value ∧
      ∀ label, value.member? label = (prompts.find? label).map .string := by
  rw [readPrompts] at h
  split at h
  next => cases h
  next text htext =>
    split at h
    next found hfound =>
      obtain rfl := Except.ok.inj h
      obtain ⟨value, hvalue, hmember⟩ := Prompts.member?_eq hfound
      exact ⟨text, value, htext, hvalue, hmember⟩
    next => cases h

theorem MadeFrom.carries {buckets : Buckets} {prompts : Prompts} {start : Double} {row : TraceRow}
    {event : Event} {value : Json.Value} (h : MadeFrom buckets prompts start row event)
    (hmember : ∀ label, value.member? label = (prompts.find? label).map .string)
    (hcontext : row.contextTokens < TraceRow.countBound)
    (hgenerated : row.generatedTokens < TraceRow.countBound) :
    Carries buckets value start row event where
  contextTokens_eq := h.contextTokens
  generatedTokens_eq := h.generatedTokens
  contextTokens_lt := h.contextTokens ▸ hcontext
  generatedTokens_lt := h.generatedTokens ▸ hgenerated
  offset_eq := h.offset
  classify_eq := h.bucket
  member?_eq := by rw [hmember, h.prompt, Option.map_some]

/-- The events that are loaded carry what the files say of the first rows in their order. -/
theorem exists_source (h : (load disk tracePath promptsPath choice limit).value = .ok loaded) :
    ∃ rows order buckets prompts start,
      Source disk tracePath promptsPath choice rows buckets prompts ∧ Arranged rows order ∧
        (order.map (·.1.timestamp)).head? = some start ∧
        List.Forall₂ (Carries buckets prompts start)
          ((order.take (limit.getD rows.length)).map (·.1)) loaded.events := by
  obtain ⟨rows, buckets, prompts, hrows, hbuckets, hprompts, hevents, -, -⟩ := load_eq_ok_iff.1 h
  obtain ⟨text, htext, hareOf⟩ := areOf_of_readRows hrows
  obtain ⟨promptsText, value, hpromptsText, hvalue, hmember⟩ := member?_of_readPrompts hprompts
  obtain ⟨order, harranged, horder⟩ := exists_arranged fun row hrow => by
    obtain ⟨columns, record, hread⟩ := hareOf.exists_readFrom row hrow
    obtain ⟨cell, -, htime⟩ := hread.timestamp
    exact Timestamp.read?_ne_nan htime
  obtain ⟨start, hstart, hmade, -⟩ := events_eq_ok_iff.1 hevents
  rw [limitRows_eq_take, (sortRows_perm rows).length_eq, ← horder, ← List.map_take] at hstart hmade
  have hbound : ∀ row ∈ (order.take (limit.getD rows.length)).map (·.1),
      row.contextTokens < TraceRow.countBound ∧ row.generatedTokens < TraceRow.countBound := by
    intro row hrow
    obtain ⟨a, ha, rfl⟩ := List.mem_map.1 hrow
    have hmem := List.fst_mem_of_mem_zipIdx (harranged.perm.subset (List.mem_of_mem_take ha))
    obtain ⟨columns, record, hread⟩ := hareOf.exists_readFrom a.1 hmem
    exact ⟨hread.context_lt, hread.generated_lt⟩
  refine ⟨rows, order, buckets, value, start, ⟨⟨text, htext, hareOf⟩, hbuckets,
    ⟨promptsText, hpromptsText, hvalue⟩⟩, harranged, ?_, ?_⟩
  · rw [List.map_map, List.map_take, List.head?_take] at hstart
    split_ifs at hstart
    exact hstart
  · exact ((List.forall₂_and_left _ _).2 ⟨hbound, hmade⟩).imp fun row event hrow =>
      hrow.2.carries hmember hrow.1.1 hrow.1.2

end Trace

end LoadReplay
