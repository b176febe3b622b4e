import LoadReplay.Json.Number
import LoadReplay.Json.Writer
import LoadReplay.Text.Decimal
import Mathlib.Data.List.TakeWhile
import Mathlib.Tactic.SplitIfs

/-!
# Written numbers

A number is read up to the first character that cannot belong to it, so what is read of a number
does not depend on the text behind it (`number?_append`). A natural number of at most 64 bits is
read back exactly from its digits (`number?_ofNat`).
-/

namespace LoadReplay.Json

/-- No number goes on with this text. -/
def EndsNumber (rest : List Char) : Prop :=
  ∀ c ∈ rest.head?, c.isDigit = false ∧ c ≠ '.' ∧ c ≠ 'e' ∧ c ≠ 'E'

variable {rest cs : List Char}

/-! ## Digits -/

theorem EndsNumber.takeWhile_eq (h : EndsNumber rest) : rest.takeWhile Char.isDigit = [] := by
  cases rest with
  | nil => rfl
  | cons c rest => exact List.takeWhile_cons_of_neg (by simp [(h c rfl).1])

theorem EndsNumber.dropWhile_eq (h : EndsNumber rest) : rest.dropWhile Char.isDigit = rest := by
  cases rest with
  | nil => rfl
  | cons c rest => exact List.dropWhile_cons_of_neg (by simp [(h c rfl).1])

theorem EndsNumber.takeWhile_append (h : EndsNumber rest) (cs : List Char) :
    (cs ++ rest).takeWhile Char.isDigit = cs.takeWhile Char.isDigit := by
  induction cs with
  | nil => exact h.takeWhile_eq
  | cons c cs ih => rw [List.cons_append, List.takeWhile_cons, List.takeWhile_cons, ih]

theorem EndsNumber.dropWhile_append (h : EndsNumber rest) (cs : List Char) :
    (cs ++ rest).dropWhile Char.isDigit = cs.dropWhile Char.isDigit ++ rest := by
  induction cs with
  | nil => exact h.dropWhile_eq
  | cons c cs ih =>
    rw [List.cons_append, List.dropWhile_cons, List.dropWhile_cons, ih]
    split_ifs <;> rfl

theorem EndsNumber.addDigits_append (h : EndsNumber rest) (significand : Nat) (cs : List Char) :
    addDigits significand (cs ++ rest) =
      ((addDigits significand cs).1, (addDigits significand cs).2.1,
        (addDigits significand cs).2.2 ++ rest) := by
  induction cs generalizing significand with
  | nil =>
    cases rest with
    | nil => rfl
    | cons c rest => simp [addDigits, (h c rfl).1]
  | cons c cs ih =>
    simp only [List.cons_append, addDigits, ih]
    split_ifs <;> rfl

/-! ## The parts of a number -/

theorem splitSign_append (h : cs ≠ []) (rest : List Char) :
    Double.splitSign (cs ++ rest) =
      ((Double.splitSign cs).1, (Double.splitSign cs).2 ++ rest) := by
  obtain ⟨c, cs, rfl⟩ := List.exists_cons_of_ne_nil h
  rw [List.cons_append]
  by_cases hminus : c = '-'
  · rw [hminus]
    rfl
  by_cases hplus : c = '+'
  · rw [hplus]
    rfl
  rw [Double.splitSign.eq_def, Double.splitSign.eq_def]
  simp [hminus, hplus]

variable {negative : Bool} {significand : Nat} {e : Int} {n : Number} {more : List Char}

theorem EndsNumber.exponent_append (h : EndsNumber rest)
    (hread : exponent negative significand e cs = some (n, more)) :
    exponent negative significand e (cs ++ rest) = some (n, more ++ rest) := by
  have hne : cs ≠ [] := by
    rintro rfl
    cases hread
  have hmap : exponent negative significand e (cs ++ rest) =
      (exponent negative significand e cs).map fun r => (r.1, r.2 ++ rest) := by
    simp only [exponent, splitSign_append hne, h.takeWhile_append,
      List.drop_append_of_le_length (List.takeWhile_prefix _).length_le]
    split_ifs <;> simp [Function.comp_def]
  rw [hmap, hread]
  rfl

theorem afterDigits_cons (c : Char) (cs : List Char) :
    afterDigits negative significand e (c :: cs) =
      if c = 'e' ∨ c = 'E' then exponent negative significand e cs
      else (finish negative significand e).map (·, c :: cs) := by
  rw [afterDigits.eq_def]
  split
  next tail heq =>
    obtain ⟨rfl, rfl⟩ := List.cons.inj heq
    exact (if_pos (.inl rfl)).symm
  next tail heq =>
    obtain ⟨rfl, rfl⟩ := List.cons.inj heq
    exact (if_pos (.inr rfl)).symm
  next hlow hupper =>
    refine (if_neg ?_).symm
    rintro (rfl | rfl)
    · exact hlow cs rfl
    · exact hupper cs rfl

theorem EndsNumber.afterDigits_eq (h : EndsNumber rest) :
    afterDigits negative significand e rest = (finish negative significand e).map (·, rest) := by
  cases rest with
  | nil => rfl
  | cons c rest =>
    obtain ⟨-, -, hlow, hupper⟩ := h c rfl
    rw [afterDigits_cons, if_neg (not_or.2 ⟨hlow, hupper⟩)]

/-- A number that is made of what was read does not touch the text behind it. -/
theorem map_append_of_map_eq {made : Option Number} (h : made.map (·, cs) = some (n, more))
    (rest : List Char) : made.map (·, cs ++ rest) = some (n, more ++ rest) := by
  obtain ⟨number, hnumber, hpair⟩ := Option.map_eq_some_iff.1 h
  cases hpair
  rw [hnumber]
  rfl

theorem EndsNumber.afterDigits_append (h : EndsNumber rest)
    (hread : afterDigits negative significand e cs = some (n, more)) :
    afterDigits negative significand e (cs ++ rest) = some (n, more ++ rest) := by
  cases cs with
  | nil => exact h.afterDigits_eq.trans (map_append_of_map_eq hread rest)
  | cons c cs =>
    rw [List.cons_append, afterDigits_cons]
    rw [afterDigits_cons] at hread
    split_ifs at hread ⊢
    · exact h.exponent_append hread
    · exact map_append_of_map_eq hread rest

theorem EndsNumber.fraction_append (h : EndsNumber rest)
    (hread : fraction negative significand e cs = some (n, more)) :
    fraction negative significand e (cs ++ rest) = some (n, more ++ rest) := by
  simp only [fraction, h.takeWhile_append, h.addDigits_append, h.dropWhile_append] at hread ⊢
  split_ifs at hread ⊢
  exact h.afterDigits_append hread

/-- The same of a number without a point and an exponent, `dropped` digits of which did not fit. -/
theorem integer_append {dropped : Nat}
    (h : (if dropped = 0 then some (whole negative significand, cs)
      else (finish negative significand dropped).map (·, cs)) = some (n, more))
    (rest : List Char) :
    (if dropped = 0 then some (whole negative significand, cs ++ rest)
      else (finish negative significand dropped).map (·, cs ++ rest)) =
        some (n, more ++ rest) := by
  split_ifs at h ⊢
  · cases h
    rfl
  · exact map_append_of_map_eq h rest

theorem EndsNumber.unsigned_append (h : EndsNumber rest)
    (hread : unsigned negative cs = some (n, more)) :
    unsigned negative (cs ++ rest) = some (n, more ++ rest) := by
  simp only [unsigned, h.takeWhile_append, h.addDigits_append, h.dropWhile_append] at hread ⊢
  split at hread
  · cases hread
  next hdigits =>
    rw [if_neg hdigits]
    generalize (addDigits 0 cs).1 = significand at hread ⊢
    generalize ((addDigits 0 cs).2.2.takeWhile Char.isDigit).length = dropped at hread ⊢
    generalize (addDigits 0 cs).2.2.dropWhile Char.isDigit = behind at hread ⊢
    cases behind with
    | nil =>
      rw [List.nil_append]
      split
      · exact absurd rfl (h _ rfl).2.1
      · exact absurd rfl (h _ rfl).2.2.1
      · exact absurd rfl (h _ rfl).2.2.2
      · exact integer_append hread rest
    | cons c behind =>
      rw [List.cons_append]
      split at hread
      next heq =>
        obtain ⟨rfl, rfl⟩ := List.cons.inj heq
        exact h.fraction_append hread
      next heq =>
        obtain ⟨rfl, rfl⟩ := List.cons.inj heq
        exact h.exponent_append hread
      next heq =>
        obtain ⟨rfl, rfl⟩ := List.cons.inj heq
        exact h.exponent_append hread
      next hpoint hlow hupper =>
        split
        next heq => exact absurd (List.cons.inj heq).1 fun hc => hpoint behind (hc ▸ rfl)
        next heq => exact absurd (List.cons.inj heq).1 fun hc => hlow behind (hc ▸ rfl)
        next heq => exact absurd (List.cons.inj heq).1 fun hc => hupper behind (hc ▸ rfl)
        next => exact integer_append hread rest

theorem number?_cons {c : Char} (hc : c ≠ '-') (cs : List Char) :
    number? (c :: cs) = unsigned false (c :: cs) := by
  rw [number?]
  exact fun tail heq => hc (List.cons.inj heq).1

/-- What is read of a number does not depend on what stands behind it. -/
theorem number?_append (h : EndsNumber rest) (hread : number? cs = some (n, more)) :
    number? (cs ++ rest) = some (n, more ++ rest) := by
  cases cs with
  | nil => cases hread
  | cons c cs =>
    rw [List.cons_append]
    by_cases hc : c = '-'
    · subst hc
      exact h.unsigned_append hread
    · rw [number?_cons hc] at hread ⊢
      exact h.unsigned_append hread

/-! ## Natural numbers -/

theorem le_ofDigitChars (cs : List Char) (n : Nat) : n ≤ Nat.ofDigitChars 10 cs n := by
  induction cs generalizing n with
  | nil => exact Nat.le_refl n
  | cons c cs ih =>
    rw [Nat.ofDigitChars_cons]
    exact Nat.le_trans (by omega) (ih _)

/-- Digits are all added to a significand where it can hold them. -/
theorem addDigits_of_isDigit (hdigits : ∀ c ∈ cs, c.isDigit = true)
    (hle : Nat.ofDigitChars 10 cs significand ≤ maxSignificand) :
    addDigits significand cs = (Nat.ofDigitChars 10 cs significand, cs.length, []) := by
  induction cs generalizing significand with
  | nil => rfl
  | cons c cs ih =>
    obtain ⟨hc, hcs⟩ := List.forall_mem_cons.1 hdigits
    change Nat.ofDigitChars 10 cs (10 * significand + Double.digitValue c) ≤ _ at hle
    have hlonger : 10 * significand + Double.digitValue c ≤ maxSignificand :=
      Nat.le_trans (le_ofDigitChars cs _) hle
    simp only [addDigits, hc, hlonger, if_true]
    rw [ih hcs hle]
    rfl

theorem head?_toDigits {n : Nat} (hn : n ≠ 0) : (Nat.toDigits 10 n).head? ≠ some '0' := by
  induction n using Nat.strongRecOn with
  | _ n ih =>
    rw [Nat.toDigits_eq_if (by decide)]
    split_ifs with hlt
    · simpa using hn
    · have hhigher := ih (n / 10) (by omega) (by omega)
      have hne : Nat.toDigits 10 (n / 10) ≠ [] := Nat.toDigits_ne_nil
      obtain ⟨d, ds, hds⟩ := List.exists_cons_of_ne_nil hne
      rw [hds] at hhigher ⊢
      exact hhigher

/-- The digits of a natural number of at most 64 bits are read back as it. -/
theorem number?_ofNat (hn : significand ≤ maxSignificand) (h : EndsNumber rest) :
    number? ((Text.ofNat significand).toList ++ rest) = some (.whole significand, rest) := by
  have hdigits : ∀ c ∈ Nat.toDigits 10 significand, c.isDigit = true := fun c hc =>
    Nat.isDigit_of_mem_toDigits (by decide) (by decide) hc
  have htake : (Nat.toDigits 10 significand).takeWhile Char.isDigit =
      Nat.toDigits 10 significand := List.takeWhile_eq_self_iff.2 hdigits
  have hvalue : Nat.ofDigitChars 10 (Nat.toDigits 10 significand) 0 = significand :=
    Nat.ofDigitChars_ten_toDigits
  have hadd := addDigits_of_isDigit hdigits (hvalue.trans_le hn)
  have hlead : ¬ ((Nat.toDigits 10 significand).isEmpty ||
      (Nat.toDigits 10 significand).head? == some '0' &&
        decide (1 < (Nat.toDigits 10 significand).length)) = true := by
    by_cases hzero : significand = 0
    · rw [hzero]
      decide
    · simp [Nat.toDigits_ne_nil, head?_toDigits hzero]
  have hread : unsigned false (Nat.toDigits 10 significand) = some (.whole significand, []) := by
    rw [unsigned]
    simp only [htake, hadd, hvalue]
    rw [if_neg hlead]
    rfl
  have hminus : number? (Nat.toDigits 10 significand) = some (.whole significand, []) := by
    obtain ⟨c, cs, hcs⟩ := List.exists_cons_of_ne_nil
      (Nat.toDigits_ne_nil (n := significand) (b := 10))
    rw [hcs] at hdigits hread ⊢
    rw [number?_cons, hread]
    rintro rfl
    exact absurd (hdigits '-' (List.mem_cons_self ..)) (by decide)
  rw [Text.ofNat, String.toList_ofList]
  exact number?_append h hminus

end LoadReplay.Json
