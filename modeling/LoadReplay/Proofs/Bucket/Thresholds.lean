import LoadReplay.Proofs.Bucket.Quartiles
import LoadReplay.Proofs.Double.Decimal

/-!
# The thresholds as they are read

A line about a quartile bucket names it and says up to which number it goes, or above which number
it begins (`Threshold.read?`). Who goes through the lines from the first one on and compares a token
count with the written numbers finds the bucket that it is sorted into
(`Quartiles.thresholds_truthful`), although the numbers are written with one place only.
-/

namespace LoadReplay

open Double (IsQuarters isQuarters_ofNat)

/-- What a line about a bucket says: the numbers above its bound have the label, or those up to
it. -/
structure Threshold where
  label : String
  above : Bool
  bound : ℚ

namespace Threshold

/-- The line is true of the number. -/
def takes (t : Threshold) (v : ℚ) : Bool :=
  if t.above then decide (t.bound < v) else decide (v ≤ t.bound)

/-- A comparison sign and the number behind it. -/
def comparison? (cs : List Char) : Option (Bool × ℚ) :=
  match cs with
  | '<' :: '=' :: ' ' :: cs => (Double.decimal? cs).map fun bound => (false, bound)
  | '>' :: ' ' :: cs => (Double.decimal? cs).map fun bound => (true, bound)
  | _ => none

/-- Reads a line: the word `bucket`, a label, a colon and a comparison. -/
def read? (line : String) : Option Threshold := do
  let rest ← line.toList.dropPrefix? "bucket ".toList
  let label := rest.takeWhile (· != ':')
  let (above, bound) ← comparison? ((rest.drop (label.length + 1)).dropWhile (· == ' '))
  some ⟨String.ofList label, above, bound⟩

/-- The label that is found for a number by going through the lines from the first one on. -/
def labelFor? (lines : List String) (v : ℚ) : Option String := do
  let thresholds ← lines.mapM read?
  let t ← thresholds.find? fun t => t.takes v
  some t.label

variable {line : String} {label rest cs : List Char} {name : Char} {above : Bool} {bound : ℚ}

theorem read?_eq_some (hline : line.toList = "bucket ".toList ++ (label ++ ':' :: rest))
    (hlabel : ∀ c ∈ label, c ≠ ':')
    (hrest : comparison? (rest.dropWhile (· == ' ')) = some (above, bound)) :
    read? line = some ⟨String.ofList label, above, bound⟩ := by
  have htake : (label ++ ':' :: rest).takeWhile (· != ':') = label := by
    rw [List.takeWhile_append_of_pos fun c hc => bne_iff_ne.2 (hlabel c hc)]
    simp
  have hdrop : (label ++ ':' :: rest).drop (label.length + 1) = rest := by
    rw [← List.drop_drop, List.drop_left]
    rfl
  have hbucket := List.dropPrefix?_append_of_beq (label ++ ':' :: rest)
    (beq_self_eq_true "bucket ".toList)
  simp only [read?, hline, hbucket, htake, hdrop, hrest, Option.bind_eq_bind, Option.bind_some]

/-- Both comparisons are written three characters wide. -/
theorem read?_comparison (hname : name ≠ ':') (h : Double.decimal? cs = some bound)
    (hline : line.toList = "bucket ".toList ++
      ([name] ++ ':' :: ' ' :: ((if above then " > " else "<= ").toList ++ cs))) :
    read? line = some ⟨String.ofList [name], above, bound⟩ := by
  refine read?_eq_some hline (by simpa using hname) ?_
  cases above
  all_goals
    change (Double.decimal? cs).map _ = _
    rw [h, Option.map_some]

end Threshold

namespace Quartiles

variable {q : Quartiles} {cs₁ cs₂ cs₃ : List Char} {b₁ b₂ b₃ : ℚ}

theorem mapM_read?_thresholds (h₁ : q.lower.fixed 1 = String.ofList cs₁)
    (h₂ : q.median.fixed 1 = String.ofList cs₂) (h₃ : q.upper.fixed 1 = String.ofList cs₃)
    (hb₁ : Double.decimal? cs₁ = some b₁) (hb₂ : Double.decimal? cs₂ = some b₂)
    (hb₃ : Double.decimal? cs₃ = some b₃) :
    q.thresholds.mapM Threshold.read? =
      some [⟨"1", false, b₁⟩, ⟨"2", false, b₂⟩, ⟨"3", false, b₃⟩, ⟨"4", true, b₃⟩] := by
  have hlower : Threshold.read? s!"bucket 1: <= {String.ofList cs₁}" = some ⟨"1", false, b₁⟩ :=
    Threshold.read?_comparison (by decide) hb₁ (by simp [toString])
  have hmedian : Threshold.read? s!"bucket 2: <= {String.ofList cs₂}" = some ⟨"2", false, b₂⟩ :=
    Threshold.read?_comparison (by decide) hb₂ (by simp [toString])
  have hupper : Threshold.read? s!"bucket 3: <= {String.ofList cs₃}" = some ⟨"3", false, b₃⟩ :=
    Threshold.read?_comparison (by decide) hb₃ (by simp [toString])
  have hlast : Threshold.read? s!"bucket 4:  > {String.ofList cs₃}" = some ⟨"4", true, b₃⟩ :=
    Threshold.read?_comparison (by decide) hb₃ (by simp [toString])
  simp only [thresholds, h₁, h₂, h₃, List.mapM_cons, List.mapM_nil, hlower, hmedian, hupper, hlast]
  rfl

/-- The lines with the quartiles of token counts lead to the labels of the counts. -/
theorem AtRanks.labelFor?_thresholds {sorted : List Nat} {j₁ j₂ j₃ v : Nat}
    (h : AtRanks sorted j₁ j₂ j₃ q) (hv : v < 2 ^ 53) :
    Threshold.labelFor? q.thresholds v = some (q.label (Double.ofNat v)) := by
  obtain ⟨cs₁, b₁, hfixed₁, hread₁, hle₁⟩ := h.lower.exists_fixed
  obtain ⟨cs₂, b₂, hfixed₂, hread₂, hle₂⟩ := h.median.exists_fixed
  obtain ⟨cs₃, b₃, hfixed₃, hread₃, hle₃⟩ := h.upper.exists_fixed
  rw [Threshold.labelFor?, mapM_read?_thresholds hfixed₁ hfixed₂ hfixed₃ hread₁ hread₂ hread₃,
    h.label_ofNat hv]
  simp only [← hle₁ v, ← hle₂ v, ← hle₃ v]
  by_cases hlower : (v : ℚ) ≤ b₁
  · simp [Threshold.takes, hlower]
  by_cases hmedian : (v : ℚ) ≤ b₂
  · simp [Threshold.takes, hlower, hmedian]
  by_cases hupper : (v : ℚ) ≤ b₃
  · simp [Threshold.takes, hlower, hmedian, hupper]
  · simp [Threshold.takes, hlower, hmedian, hupper, not_le.1 hupper]

/-- The thresholds of token counts tell the truth. The length of a column in memory is a machine
word. -/
theorem thresholds_truthful {column : List Nat} (hne : column ≠ [])
    (hlength : column.length ≤ 2 ^ 64) (hcounts : ∀ c ∈ column, c < 2 ^ 51) :
    ∃ q, of (column.map Double.ofNat) = .ok q ∧ ∀ v < 2 ^ 51, ∃ label,
      Threshold.labelFor? (Buckets.quartiles q).thresholds (v : Nat) = some label ∧
        (Buckets.quartiles q).classify (Double.ofNat v) = .ok label := by
  obtain ⟨q, j₁, j₂, j₃, hof, hranks, -⟩ := exists_atRanks hne hlength hcounts
  refine ⟨q, hof, fun v hv => ?_⟩
  have hfinite := (isQuarters_ofNat (hv.trans (by decide))).isFinite
  exact ⟨_, hranks.labelFor?_thresholds (hv.trans (by decide)),
    classify_eq_ok_iff.2 ⟨hfinite, rfl⟩⟩

theorem thresholds_truthful_sample :
    [10, 40, 20, 30] ≠ [] ∧ [10, 40, 20, 30].length ≤ 2 ^ 64 ∧
      (∀ c ∈ [10, 40, 20, 30], c < 2 ^ 51) ∧ 25 < 2 ^ 51 ∧
        ∃ q, of ([10, 40, 20, 30].map Double.ofNat) = .ok q ∧ ∃ label,
          Threshold.labelFor? (Buckets.quartiles q).thresholds (25 : Nat) = some label ∧
            (Buckets.quartiles q).classify (Double.ofNat 25) = .ok label := by
  obtain ⟨q, hof, htruthful⟩ :=
    @thresholds_truthful [10, 40, 20, 30] (by decide) (by decide) (by decide)
  exact ⟨by decide, by decide, by decide, by decide, q, hof, htruthful 25 (by decide)⟩

end Quartiles

end LoadReplay
