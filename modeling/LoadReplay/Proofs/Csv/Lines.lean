import LoadReplay.Proofs.Csv.RoundTrip

/-!
# Lines of records

A text is cut into pieces at the line breaks that stand behind an even number of quotes, counted
from the last cut (`CutInto`). The records are these pieces, and the number that each carries is
that of its first line in the text, whatever breaks are quoted in the pieces in front of it
(`exists_cutInto`).
-/

namespace LoadReplay.Csv

/-- The text of pieces, each with a line break behind it. -/
def terminated (pieces : List (List Char)) : List Char := pieces.flatMap (· ++ ['\n'])

theorem terminated_cons (piece : List Char) (pieces : List (List Char)) :
    terminated (piece :: pieces) = piece ++ '\n' :: terminated pieces := by
  rw [terminated, List.flatMap_cons, List.append_assoc]
  rfl

/-- The pieces of a text. The line break behind the last one may be missing if the piece is not
empty; those inside a piece are quoted, and those that end one are not. -/
structure CutInto (text : List Char) (pieces : List (List Char)) : Prop where
  terminated_eq : terminated pieces = text ∨
    terminated pieces = text ++ ['\n'] ∧ pieces.getLast? ≠ some []
  breaks_quoted : ∀ piece ∈ pieces, breaksQuoted false piece = true
  ends_open : ∀ piece ∈ pieces.dropLast, endsQuoted false piece = false

/-- A text has a first line break that is not quoted, or none. -/
theorem exists_break (quoted : Bool) (text : List Char) :
    (∃ piece rest, text = piece ++ '\n' :: rest ∧ breaksQuoted quoted piece = true ∧
        endsQuoted quoted piece = false) ∨ breaksQuoted quoted text = true := by
  induction text generalizing quoted with
  | nil => exact .inr rfl
  | cons c text ih =>
    by_cases hbreak : c = '\n' ∧ quoted = false
    · obtain ⟨rfl, rfl⟩ := hbreak
      exact .inl ⟨[], text, rfl, rfl, rfl⟩
    · have hquoted : (quoted || c != '\n') = true := by
        cases quoted with
        | true => rfl
        | false => simpa using hbreak
      refine (ih (if c = '"' then !quoted else quoted)).imp ?_ fun h => ?_
      · rintro ⟨piece, rest, rfl, hbreaks, hends⟩
        exact ⟨c :: piece, rest, rfl, Bool.and_eq_true_iff.2 ⟨hquoted, hbreaks⟩, hends⟩
      · exact Bool.and_eq_true_iff.2 ⟨hquoted, h⟩

/-- A text without such a line break is one record, if there is anything. -/
theorem recordsFrom_of_breaksQuoted {quoted : Bool} {cs : List Char}
    (h : breaksQuoted quoted cs = true) (start line : Nat) (reversed : List Char) :
    recordsFrom quoted start line reversed cs =
      if (cs.reverse ++ reversed).isEmpty then []
      else [⟨start, closeRecord (cs.reverse ++ reversed)⟩] := by
  induction cs generalizing quoted line reversed with
  | nil => rfl
  | cons c cs ih =>
    obtain ⟨hc, hcs⟩ := Bool.and_eq_true_iff.1 h
    rw [recordsFrom, List.reverse_cons, List.append_assoc, List.singleton_append]
    by_cases hbreak : c = '\n'
    · subst hbreak
      have hquoted : quoted = true := by simpa using hc
      rw [if_pos rfl, if_pos hquoted]
      rw [if_neg (by decide)] at hcs
      exact ih hcs _ _
    · rw [if_neg hbreak]
      exact ih hcs _ _

theorem CutInto.cons {piece text : List Char} {pieces : List (List Char)}
    (h : CutInto text pieces) (hbreaks : breaksQuoted false piece = true)
    (hends : endsQuoted false piece = false) :
    CutInto (piece ++ '\n' :: text) (piece :: pieces) where
  terminated_eq := by
    rw [terminated_cons]
    refine h.terminated_eq.imp (fun heq => by rw [heq]) ?_
    rintro ⟨heq, hlast⟩
    refine ⟨by rw [heq, List.append_assoc, List.cons_append], ?_⟩
    cases pieces with
    | nil => cases text <;> cases heq
    | cons next pieces => rwa [List.getLast?_cons_cons]
  breaks_quoted := List.forall_mem_cons.2 ⟨hbreaks, h.breaks_quoted⟩
  ends_open := by
    cases pieces with
    | nil => exact List.forall_mem_nil _
    | cons next pieces => exact List.forall_mem_cons.2 ⟨hends, h.ends_open⟩

theorem cutInto_singleton {text : List Char} (hne : text ≠ [])
    (h : breaksQuoted false text = true) : CutInto text [text] where
  terminated_eq := .inr ⟨List.append_nil _, fun hnil => hne (Option.some.inj hnil)⟩
  breaks_quoted := List.forall_mem_singleton.2 h
  ends_open := List.forall_mem_nil _

/-- The records of a text are its pieces, each with the number of the line it starts on. -/
theorem recordsFrom_eq_pieces (line : Nat) (text : List Char) :
    ∃ pieces, CutInto text pieces ∧ recordsFrom false line line [] text =
      pieces.mapIdx fun i piece =>
        ⟨line + (terminated (pieces.take i)).count '\n', closeRecord piece.reverse⟩ := by
  induction hlength : text.length using Nat.strong_induction_on generalizing line text with
  | _ n ih =>
    rcases exists_break false text with ⟨piece, rest, rfl, hbreaks, hends⟩ | hbreaks
    · have hlt : rest.length < n := by
        rw [← hlength, List.length_append, List.length_cons]
        omega
      obtain ⟨pieces, hcut, hrecords⟩ := ih _ hlt (line + piece.count '\n' + 1) rest rfl
      have hline (i : Nat) :
          line + piece.count '\n' + 1 + (terminated (pieces.take i)).count '\n' =
            line + (terminated ((piece :: pieces).take (i + 1))).count '\n' := by
        rw [List.take_succ_cons, terminated_cons, List.count_append, List.count_cons_self]
        omega
      refine ⟨piece :: pieces, hcut.cons hbreaks hends, ?_⟩
      rw [recordsFrom_break hbreaks hends, List.append_nil, hrecords, List.mapIdx_cons]
      simp only [hline]
      rfl
    · rw [recordsFrom_of_breaksQuoted hbreaks, List.append_nil, List.isEmpty_reverse]
      cases text with
      | nil =>
        exact ⟨[], ⟨.inl rfl, List.forall_mem_nil _, List.forall_mem_nil _⟩, rfl⟩
      | cons c text => exact ⟨_, cutInto_singleton (List.cons_ne_nil _ _) hbreaks, rfl⟩

theorem exists_cutInto (text : List Char) :
    ∃ pieces, CutInto text pieces ∧ records text = pieces.mapIdx fun i piece =>
      ⟨1 + (terminated (pieces.take i)).count '\n', closeRecord piece.reverse⟩ :=
  recordsFrom_eq_pieces 1 text

end LoadReplay.Csv
