import LoadReplay.Command.Run
import LoadReplay.Proofs.Bucket.Distribution
import LoadReplay.Proofs.Trace.Source

/-!
# The command `buckets` tells what is replayed

A trace that can be loaded whole can be inspected: the command `buckets` prints the thresholds that
loading reports, and the number of rows that it prints for a label is how many of the loaded events
have this label (`Command.inspection_agrees`). The command takes the rows as they stand in the file,
while events are made of the sorted rows with their prompts, so the labels are found in two orders
(`Trace.exists_labels`).
-/

namespace LoadReplay

/-! ## Columns of token counts -/

/-- Any numbers but none at all can be described if they are finite. -/
theorem ColumnStats.exists_of {values : List Double} (hne : values ≠ [])
    (hfinite : ∀ v ∈ values, v.isFinite = true) : ∃ s, ColumnStats.of values = .ok s := by
  rw [ColumnStats.of, Column.sorted_eq_ok hne hfinite]
  exact ⟨_, rfl⟩

namespace Command

variable {rows : List TraceRow}

/-- The columns of rows can be described: token counts are far from infinite. -/
theorem exists_statsLines (hne : rows ≠ [])
    (hbound : ∀ row ∈ rows, row.contextTokens < TraceRow.countBound ∧
      row.generatedTokens < TraceRow.countBound) :
    ∃ context generated, statsLines rows =
      .ok [s!"Token statistics ({rows.length} rows)", context, generated, ""] := by
  have hfinite {n : Nat} (h : n < TraceRow.countBound) : (Double.ofNat n).isFinite = true :=
    Double.isFinite_ofNat h.le
  have hcontextNe : TraceRow.contextValues rows ≠ [] := by simpa [TraceRow.contextValues] using hne
  have hgeneratedNe : TraceRow.generatedValues rows ≠ [] := by
    simpa [TraceRow.generatedValues] using hne
  obtain ⟨context, hcontext⟩ := ColumnStats.exists_of hcontextNe
    (List.forall_mem_map.2 fun row hrow => hfinite (hbound row hrow).1)
  obtain ⟨generated, hgenerated⟩ := ColumnStats.exists_of hgeneratedNe
    (List.forall_mem_map.2 fun row hrow => hfinite (hbound row hrow).2)
  rw [statsLines, hcontext, hgenerated]
  exact ⟨_, _, rfl⟩

end Command

/-! ## Labels in two orders -/

namespace Trace

variable {rows : List TraceRow} {buckets : Buckets} {prompts : Prompts} {found : List Event}

/-- How many of the loaded events have a label. -/
def Loaded.countOf (loaded : Loaded) (label : String) : Nat :=
  (loaded.events.map (·.bucket)).count label

/-- Where every row becomes an event, every row is classified, and the labels of the rows are those
of the events in another order. -/
theorem exists_labels (h : events rows buckets prompts none = .ok found) :
    ∃ labels, List.Forall₂ (fun v label => buckets.classify v = .ok label)
        (TraceRow.contextValues rows) labels ∧ labels.Perm (found.map (·.bucket)) := by
  obtain ⟨start, -, hmade, -⟩ := events_eq_ok_iff.1 h
  have hsorted : List.Forall₂
      (fun (row : TraceRow) label => buckets.classify (Double.ofNat row.contextTokens) = .ok label)
      (sortRows rows) (found.map (·.bucket)) :=
    List.forall₂_map_right_iff.2 (hmade.imp fun _ _ hrow => hrow.bucket)
  obtain ⟨labels, hlabels, hperm⟩ := List.perm_comp_forall₂ (sortRows_perm rows).symm hsorted
  exact ⟨labels, List.forall₂_map_left_iff.2 hlabels, hperm⟩

theorem ne_nil_of_events {limit : Option Nat} (h : events rows buckets prompts limit = .ok found) :
    rows ≠ [] := by
  rintro rfl
  obtain ⟨start, hstart, -⟩ := events_eq_ok_iff.1 h
  cases limit <;> simp [limitRows, sortRows] at hstart

end Trace

/-! ## The command -/

namespace Command

open Trace (Loaded)

/-- What the command `buckets` leaves behind for a trace that was loaded: no error, the number of
rows, two lines that describe the columns, the thresholds, and for each label how many of the events
have it. These counts add up to the number of rows. -/
structure Inspects (disk : Disk) (labels : List String) (loaded : Loaded) (t : Transcript) :
    Prop where
  error_eq : t.error = none
  output_eq : ∃ context generated, t.output =
    [s!"Token statistics ({loaded.totalRows} rows)", context, generated, ""] ++
      (s!"Buckets by {contextColumn}" :: loaded.thresholds.map ("  " ++ ·) ++ [""]) ++
      labels.map fun label => shareLine loaded.totalRows label (loaded.countOf label)
  sum_countOf : (labels.map loaded.countOf).sum = loaded.totalRows
  bucket_mem : ∀ event ∈ loaded.events, event.bucket ∈ labels
  disk_eq : t.disk = disk
  requests_eq : t.requests = []

/-- Where every row becomes an event, the lines about the shares count the events. -/
theorem shareLines_eq {rows : List TraceRow} {buckets : Buckets} {prompts : Prompts}
    {found : List Event} (hlabels : buckets.labels.Nodup)
    (h : Trace.events rows buckets prompts none = .ok found) :
    shareLines buckets rows = .ok (buckets.labels.map fun label =>
      shareLine rows.length label ((found.map (·.bucket)).count label)) := by
  obtain ⟨labels, hclassify, hperm⟩ := Trace.exists_labels h
  rw [shareLines, (Buckets.distribution_eq_ok_iff hlabels).2 ⟨labels, hclassify, rfl⟩]
  simp only [hperm.count_eq, Except.map, List.map_map, Function.comp_def]

/-- The command `buckets` succeeds on a trace that can be loaded whole and shows the buckets that
the loaded events are in; so does a command line whose settings name the trace and these buckets. -/
theorem inspection_agrees {disk : Disk} {tracePath promptsPath : String} {choice : BucketChoice}
    {loaded : Loaded} (hlabels : choice.labels.Nodup)
    (hload : (Trace.load disk tracePath promptsPath choice none).value = .ok loaded) :
    Inspects disk choice.labels loaded (buckets disk ⟨tracePath, choice⟩) ∧
      ∀ environment args line endpoint cancelAt,
        CommandLine.read environment args = .ok line → line.subcommand = .buckets →
        line.traceSettings disk = .ok ⟨tracePath, choice⟩ →
          Inspects disk choice.labels loaded (run disk environment args endpoint cancelAt) := by
  obtain ⟨rows, b, prompts, hrows, hb, -, hevents, htotal, hthresholds⟩ :=
    Trace.load_eq_ok_iff.1 hload
  obtain ⟨text, -, hareOf⟩ := Trace.areOf_of_readRows hrows
  have hbound (row : TraceRow) (hrow : row ∈ rows) : row.contextTokens < TraceRow.countBound ∧
      row.generatedTokens < TraceRow.countBound := by
    obtain ⟨columns, record, hread⟩ := hareOf.exists_readFrom row hrow
    exact ⟨hread.context_lt, hread.generated_lt⟩
  obtain ⟨context, generated, hstats⟩ := exists_statsLines (Trace.ne_nil_of_events hevents) hbound
  have hbuild : choice.build (TraceRow.contextValues rows) = .ok b :=
    Except.mapError_eq_ok_iff.1 hb
  rw [← BucketChoice.labels_of_build hbuild] at hlabels ⊢
  obtain ⟨labels, hclassify, hperm⟩ := Trace.exists_labels hevents
  have hmem := Buckets.mem_labels_of_forall₂ hclassify
  have hbuckets : Inspects disk b.labels loaded (buckets disk ⟨tracePath, choice⟩) := by
    simp only [buckets, hrows, hstats, hbuild, shareLines_eq hlabels hevents]
    refine ⟨rfl, ⟨context, generated, ?_⟩, ?_, ?_, rfl, rfl⟩
    · rw [htotal, hthresholds]
      rfl
    · have hcount : loaded.countOf = fun label => labels.count label :=
        funext fun label => (hperm.count_eq label).symm
      rw [hcount, Buckets.sum_count_labels hlabels hmem, htotal, ← hclassify.length_eq]
      exact List.length_map ..
    · exact fun event hevent => hmem _ (hperm.symm.subset (List.mem_map_of_mem hevent))
  refine ⟨hbuckets, fun environment args line endpoint cancelAt hread hsubcommand hsettings => ?_⟩
  have hrun : run disk environment args endpoint cancelAt = buckets disk ⟨tracePath, choice⟩ := by
    simp only [run, hread, runParsed, hsubcommand, hsettings]
  rw [hrun]
  exact hbuckets

/-- The two rows of the sample trace, with prompts for the quartiles that they fall into. -/
def quartileDisk : Disk :=
  { entries :=
      [(["t.csv"], .file (Utf8.encode
        "TIMESTAMP,ContextTokens,GeneratedTokens\n1,20,2\n0,10,1\n".toList)),
      (["p.json"], .file (Utf8.encode "\x7b\"1\":\"a\",\"4\":\"d\"\x7d".toList))] }

def sampleQuartiles : Buckets := .quartiles ⟨12.5, 15, 17.5⟩

def quartileEvents : List Event := [⟨0, "1", "a", 10, 1⟩, ⟨1, "4", "d", 20, 2⟩]

theorem load_quartileDisk : (Trace.load quartileDisk "t.csv" "p.json" .quantile none).value =
    .ok ⟨quartileEvents, 2, sampleQuartiles.thresholds⟩ := by
  obtain ⟨hread, -, -, hrowsSorted, -⟩ := Trace.read_sampleDisk
  have htext : quartileDisk.readText "t.csv" = Trace.sampleDisk.readText "t.csv" :=
    (Disk.readText_of_find rfl).trans (Disk.readText_of_find rfl).symm
  have hrows : Trace.readRows quartileDisk "t.csv" = .ok Trace.sampleRows := by
    rw [Trace.readRows, htext]
    exact hread
  have hperm : (TraceRow.contextValues Trace.sampleRows).Perm [10, 20] := by decide +kernel
  have hpairwise : List.Pairwise (fun a b => Double.totalLe a b = true) [10, 20] := by
    decide +kernel
  have hsorted : Column.sorted (TraceRow.contextValues Trace.sampleRows) = .ok [10, 20] := by
    rw [Column.sorted_eq_ok (by decide +kernel) (by decide +kernel), Double.sort_eq_of_perm hperm]
    exact congrArg _ (List.mergeSort_of_pairwise hpairwise)
  have hbuckets : Trace.bucketsFor .quantile Trace.sampleRows = .ok sampleQuartiles := by
    rw [Trace.bucketsFor, BucketChoice.build, Quartiles.of, hsorted]
    decide +kernel
  have hevents : Trace.events Trace.sampleRows sampleQuartiles ⟨[("1", "a"), ("4", "d")]⟩ none =
      .ok quartileEvents := by
    rw [Trace.events, hrowsSorted]
    decide +kernel
  exact Trace.load_eq_ok_iff.2 ⟨_, sampleQuartiles, _, hrows, hbuckets,
    Trace.readPrompts_of_find rfl (by decide +kernel), hevents, rfl, rfl⟩

theorem inspection_agrees_sample :
    BucketChoice.quantile.labels.Nodup ∧
      (Trace.load quartileDisk "t.csv" "p.json" .quantile none).value =
        .ok ⟨quartileEvents, 2, sampleQuartiles.thresholds⟩ ∧
      Inspects quartileDisk ["1", "2", "3", "4"]
        ⟨quartileEvents, 2, sampleQuartiles.thresholds⟩
        (run quartileDisk [] ["buckets", "--trace", "t.csv"] ⟨"localhost", false, []⟩ none) := by
  have hlabels : BucketChoice.quantile.labels.Nodup := by decide
  have hread : CommandLine.read [] ["buckets", "--trace", "t.csv"] =
      .ok ⟨.buckets, [(.trace, "t.csv")]⟩ := Except.toOption_eq_some_iff.1 (by decide)
  have hsettings : CommandLine.traceSettings ⟨.buckets, [(.trace, "t.csv")]⟩ quartileDisk =
      .ok ⟨"t.csv", .quantile⟩ := Except.toOption_eq_some_iff.1 (by decide)
  obtain ⟨-, hline⟩ := inspection_agrees hlabels load_quartileDisk
  exact ⟨hlabels, load_quartileDisk, hline _ _ _ _ _ hread rfl hsettings⟩

end Command

end LoadReplay
