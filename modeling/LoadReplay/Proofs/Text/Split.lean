import LoadReplay.Text.Split

/-!
# Splitting and joining

Splitting a text at a character takes apart what was joined with it, if the parts do not hold it.
A text that is joined from parts begins as its first parts do (`Text.Begins`).
-/

namespace LoadReplay.Text

theorem splitOn_eq (separator : Char) (cs : List Char) :
    splitOn separator cs = cs.splitOn separator := by
  induction cs with
  | nil => rfl
  | cons c cs ih =>
    rw [splitOn, List.splitOn_cons_eq_if_modifyHead, ih]
    by_cases h : c = separator
    · rw [if_pos h, if_pos (beq_iff_eq.2 h)]
    · rw [if_neg h, if_neg (by simpa using h)]
      cases hparts : cs.splitOn separator with
      | nil => exact absurd hparts (List.splitOn_ne_nil _ _)
      | cons part parts => rfl

theorem splitOn_append_cons (separator : Char) (front back : List Char) :
    splitOn separator (front ++ separator :: back) =
      splitOn separator front ++ splitOn separator back := by
  simp only [splitOn_eq]
  exact List.splitOnP_append_cons front back (beq_self_eq_true separator)

theorem splitOn_ne_nil (separator : Char) (cs : List Char) : splitOn separator cs ≠ [] := by
  rw [splitOn_eq]
  exact List.splitOn_ne_nil _ _

theorem not_mem_of_mem_splitOn {separator : Char} {cs part : List Char}
    (h : part ∈ splitOn separator cs) : separator ∉ part := by
  induction cs generalizing part with
  | nil =>
    rw [splitOn, List.mem_singleton] at h
    exact h ▸ List.not_mem_nil
  | cons c cs ih =>
    rw [splitOn] at h
    split at h
    · rcases List.mem_cons.1 h with rfl | h
      · exact List.not_mem_nil
      · exact ih h
    next hc =>
      cases hparts : splitOn separator cs with
      | nil =>
        simp only [hparts, List.mem_singleton] at h
        simpa [h] using Ne.symm hc
      | cons first parts =>
        simp only [hparts, List.mem_cons] at h ih
        rcases h with rfl | h
        · exact List.not_mem_cons_of_ne_of_not_mem (Ne.symm hc) (ih (.inl rfl))
        · exact ih (.inr h)

theorem splitOn_intercalate {separator : Char} {parts : List (List Char)}
    (h : ∀ part ∈ parts, separator ∉ part) (hne : parts ≠ []) :
    splitOn separator ([separator].intercalate parts) = parts := by
  rw [splitOn_eq]
  exact List.splitOn_intercalate separator h hne

theorem mem_of_mem_intercalate {separator c : Char} {parts : List (List Char)}
    (h : c ∈ [separator].intercalate parts) : c = separator ∨ ∃ part ∈ parts, c ∈ part := by
  induction parts with
  | nil => exact absurd h List.not_mem_nil
  | cons part parts ih =>
    rcases parts with - | ⟨next, parts⟩
    · exact .inr ⟨part, List.mem_singleton_self part, by simpa using h⟩
    · rw [List.intercalate_cons_cons] at h
      rcases List.mem_append.1 h with h | h
      · rcases List.mem_append.1 h with h | h
        · exact .inr ⟨part, List.mem_cons_self, h⟩
        · exact .inl (List.mem_singleton.1 h)
      · rcases ih h with h | ⟨p, hp, hc⟩
        · exact .inl h
        · exact .inr ⟨p, List.mem_cons_of_mem _ hp, hc⟩

theorem splitOnce?_append {separator : Char} {front : List Char} (h : separator ∉ front)
    (rest : List Char) :
    splitOnce? separator (front ++ separator :: rest) = some (front, rest) := by
  have hfront : ∀ c ∈ front, (c != separator) = true :=
    fun _ hc => bne_iff_ne.2 fun heq => h (heq ▸ hc)
  rw [splitOnce?, List.dropWhile_append_of_pos hfront, List.dropWhile_cons_of_neg (by simp),
    List.takeWhile_append_of_pos hfront, List.takeWhile_cons_of_neg (by simp), List.append_nil]

/-! ## Beginnings -/

/-- A text begins with another. -/
def Begins (start text : String) : Prop := ∃ rest, text = start ++ rest

theorem Begins.append {start text : String} (h : Begins start text) (more : String) :
    Begins start (text ++ more) := by
  obtain ⟨rest, rfl⟩ := h
  exact ⟨rest ++ more, String.append_assoc⟩

theorem begins_append (front : String) {start text : String} (h : Begins start text) :
    Begins (front ++ start) (front ++ text) := by
  obtain ⟨rest, rfl⟩ := h
  exact ⟨rest, String.append_assoc.symm⟩

end LoadReplay.Text
