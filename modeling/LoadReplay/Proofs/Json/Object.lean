import LoadReplay.Json.Parser
import LoadReplay.Proofs.Json.Number

/-!
# Written texts and objects

A text is read back from its quotes and escapes (`text?_escape`), and an object from its members
where their written values are read back (`parse?_writeObject`).
-/

namespace LoadReplay.Json

variable {cs rest more : List Char}

/-! ## Escapes -/

theorem hex4?_append {n : Nat} (h : hex4? cs = some (n, more)) (rest : List Char) :
    hex4? (cs ++ rest) = some (n, more ++ rest) := by
  rcases cs with _ | ⟨a, _ | ⟨b, _ | ⟨c, _ | ⟨d, cs⟩⟩⟩⟩ <;> try cases h
  simp only [hex4?, Option.bind_eq_bind, Option.bind_eq_some_iff, Option.some_inj, Prod.mk.injEq,
    List.cons_append] at h ⊢
  obtain ⟨a, ha, b, hb, c, hc, d, hd, hn, rfl⟩ := h
  exact ⟨a, ha, b, hb, c, hc, d, hd, hn, rfl⟩

theorem hex4?_control : ∀ n < 32, hex4? (List.replicate (4 - (Nat.toDigits 16 n).length) '0' ++
    Nat.toDigits 16 n) = some (n, []) := by
  decide

theorem unicodeEscape?_control {c : Char} (hc : c.toNat < 32) (rest : List Char) :
    unicodeEscape? (List.replicate (4 - (Nat.toDigits 16 c.toNat).length) '0' ++
      Nat.toDigits 16 c.toNat ++ rest) = some (c, rest) := by
  rw [unicodeEscape?, hex4?_append (hex4?_control c.toNat hc) rest]
  simp only [Option.bind_eq_bind, Option.bind_some, List.nil_append]
  rw [if_neg (by omega), if_neg (by omega), Char.ofNat_toNat]

theorem textFrom_plain (reversed : List Char) (fuel : Nat) {c : Char} (hquote : c ≠ '"')
    (hslash : c ≠ '\\') (hc : ¬ c.toNat < 0x20) (rest : List Char) :
    textFrom reversed (fuel + 1) (c :: rest) = textFrom (c :: reversed) fuel rest := by
  rw [textFrom, if_neg hc]
  · exact hquote
  · exact fun tail hcs => absurd hcs hslash
  · exact fun e tail hcs => absurd hcs hslash
  · exact fun hcs => absurd hcs hslash

theorem textFrom_unicode (reversed : List Char) (fuel : Nat) (cs : List Char) :
    textFrom reversed (fuel + 1) ('\\' :: 'u' :: cs) =
      (unicodeEscape? cs).bind fun r => textFrom (r.1 :: reversed) fuel r.2 := rfl

/-- A character inside a text is read from its escape. -/
theorem textFrom_escape (reversed : List Char) (fuel : Nat) (c : Char) (rest : List Char) :
    textFrom reversed (fuel + 1) (escape c ++ rest) = textFrom (c :: reversed) fuel rest := by
  unfold escape
  split
  · rfl
  · rfl
  · rfl
  · rfl
  · rfl
  · rfl
  · rfl
  next hquote hslash _ _ _ _ _ =>
    split_ifs with hc
    · rw [List.append_assoc, List.append_assoc, List.cons_append, List.cons_append,
        List.nil_append, ← List.append_assoc, textFrom_unicode, unicodeEscape?_control hc]
      rfl
    · exact textFrom_plain reversed fuel hquote hslash hc rest

theorem textFrom_flatMap (cs rest : List Char) {fuel : Nat} (h : cs.length < fuel)
    (reversed : List Char) : textFrom reversed fuel (cs.flatMap escape ++ '"' :: rest) =
      some (String.ofList (reversed.reverse ++ cs), rest) := by
  induction cs generalizing fuel reversed with
  | nil =>
    obtain ⟨fuel, rfl⟩ := Nat.exists_eq_succ_of_ne_zero (Nat.ne_zero_of_lt h)
    rw [List.append_nil]
    rfl
  | cons c cs ih =>
    obtain ⟨fuel, rfl⟩ := Nat.exists_eq_succ_of_ne_zero (Nat.ne_zero_of_lt h)
    rw [List.flatMap_cons, List.append_assoc, textFrom_escape, ih (Nat.lt_of_succ_lt_succ h),
      List.reverse_cons, List.append_assoc]
    rfl

theorem escape_ne_nil (c : Char) : escape c ≠ [] := by
  unfold escape
  split
  iterate 7 exact List.cons_ne_nil _ _
  split_ifs <;> simp

theorem length_le_length_escape (cs : List Char) : cs.length ≤ (cs.flatMap escape).length := by
  induction cs with
  | nil => exact Nat.le_refl 0
  | cons c cs ih =>
    have hescape := List.length_pos_iff.2 (escape_ne_nil c)
    rw [List.flatMap_cons, List.length_append, List.length_cons]
    omega

/-- A text is read back from its quotes and escapes. -/
theorem text?_escape (s : String) (rest : List Char) :
    text? (s.toList.flatMap escape ++ '"' :: rest) = some (s, rest) := by
  have hlength := length_le_length_escape s.toList
  rw [text?, textFrom_flatMap, List.reverse_nil, List.nil_append, String.ofList_toList]
  rw [List.length_append]
  omega

/-! ## Values -/

/-- A text in which a value may have ended just before. -/
def EndsValue (rest : List Char) : Prop := rest.head? = some ',' ∨ rest.head? = some '\x7d'

/-- The text is read as a value wherever the text behind it may follow a value. -/
def Spells (text : List Char) (v : Value) : Prop :=
  ∀ fuel depth rest, EndsValue rest → value? (fuel + 1) depth (text ++ rest) = some (v, rest)

theorem EndsValue.endsNumber (h : EndsValue rest) : EndsNumber rest := by
  intro c hc
  rcases h with h | h
  · obtain rfl := Option.some.inj (hc.symm.trans h)
    decide
  · obtain rfl := Option.some.inj (hc.symm.trans h)
    decide

theorem writeText_append (s : String) (rest : List Char) :
    (writeText s).toList ++ rest = '"' :: (s.toList.flatMap escape ++ '"' :: rest) := by
  rw [writeText, String.toList_ofList, List.cons_append, List.append_assoc]
  rfl

theorem spells_writeText (s : String) : Spells (writeText s).toList (.string s) := by
  intro fuel depth rest _
  rw [writeText_append]
  change (text? _).map (fun r => (Value.string r.1, r.2)) = _
  rw [text?_escape]
  rfl

theorem skipBlanks_cons (c : Char)
    (hc : (c == ' ' || c == '\n' || c == '\t' || c == '\r') = false) (cs : List Char) :
    skipBlanks (c :: cs) = c :: cs :=
  List.dropWhile_cons_of_neg (Bool.eq_false_iff.1 hc)

theorem head_of_number? {c : Char} {n : Number} (h : number? (c :: cs) = some (n, more)) :
    c = '-' ∨ c.isDigit = true := by
  by_cases hc : c = '-'
  · exact .inl hc
  · rw [number?_cons hc, unsigned] at h
    by_contra hdigit
    rw [List.takeWhile_cons_of_neg (fun hd => hdigit (.inr hd))] at h
    cases h

/-- A text that is read as a number spells it. -/
theorem spells_number {n : Number} (h : number? cs = some (n, [])) : Spells cs (.number n) := by
  intro fuel depth rest hrest
  have hread := number?_append hrest.endsNumber h
  cases cs with
  | nil => cases h
  | cons c cs =>
    have hc := head_of_number? h
    have hother (other : Char) (hother : other.isDigit = false ∧ other ≠ '-') : c ≠ other := by
      rintro rfl
      exact hc.elim hother.2 (by simp [hother.1])
    have hblank : (c == ' ' || c == '\n' || c == '\t' || c == '\r') = false := by
      simp [hother ' ' (by decide), hother '\n' (by decide), hother '\t' (by decide),
        hother '\r' (by decide)]
    rw [List.cons_append] at hread ⊢
    rw [value?, skipBlanks_cons c hblank]
    split
    next heq => exact absurd (List.cons.inj heq).1 (hother 'n' (by decide))
    next heq => exact absurd (List.cons.inj heq).1 (hother 't' (by decide))
    next heq => exact absurd (List.cons.inj heq).1 (hother 'f' (by decide))
    next heq => exact absurd (List.cons.inj heq).1 (hother '"' (by decide))
    next heq => exact absurd (List.cons.inj heq).1 (hother '[' (by decide))
    next heq => exact absurd (List.cons.inj heq).1 (hother '\x7b' (by decide))
    next =>
      rw [hread]
      rfl

/-! ## Objects -/

/-- A member of an object: its name, its written value and the value. -/
structure Member where
  name : String
  text : String
  value : Value

namespace Member

/-- The member as it is written. -/
def written (m : Member) : List Char := (writeText m.name ++ ":" ++ m.text).toList

theorem written_append (m : Member) (rest : List Char) : m.written ++ rest =
    '"' :: (m.name.toList.flatMap escape ++ '"' :: ':' :: (m.text.toList ++ rest)) := by
  rw [written, String.toList_append, String.toList_append, List.append_assoc, List.append_assoc,
    writeText_append]
  rfl

/-- The last member is read up to the brace, and any other one together with those behind it. -/
theorem members?_member {m : Member} (h : Spells m.text.toList m.value) (fuel depth : Nat)
    (rest : List Char) :
    members? (fuel + 2) depth (m.written ++ '\x7d' :: rest) = some ([(m.name, m.value)], rest) ∧
      members? (fuel + 2) depth (m.written ++ ',' :: rest) =
        (members? (fuel + 1) depth rest).map fun r => ((m.name, m.value) :: r.1, r.2) := by
  have hlast := h fuel depth ('\x7d' :: rest) (.inr rfl)
  have hmore := h fuel depth (',' :: rest) (.inl rfl)
  have hname (behind : List Char) := text?_escape m.name (':' :: (m.text.toList ++ behind))
  constructor
  · rw [written_append, members?, skipBlanks_cons '"' (by decide)]
    simp only [hname, skipBlanks_cons ':' (by decide), hlast, skipBlanks_cons '\x7d' (by decide)]
  · rw [written_append, members?, skipBlanks_cons '"' (by decide)]
    simp only [hname, skipBlanks_cons ':' (by decide), hmore, skipBlanks_cons ',' (by decide)]

/-- The members that are written one after the other up to a brace are read back. -/
theorem members?_written {members : List Member} (hne : members ≠ [])
    (h : ∀ m ∈ members, Spells m.text.toList m.value) {fuel : Nat} (hfuel : members.length < fuel)
    (depth : Nat) (rest : List Char) :
    members? fuel depth ([','].intercalate (members.map written) ++ '\x7d' :: rest) =
      some (members.map fun m => (m.name, m.value), rest) := by
  induction members generalizing fuel with
  | nil => exact absurd rfl hne
  | cons m members ih =>
    obtain ⟨hm, hmembers⟩ := List.forall_mem_cons.1 h
    obtain ⟨fuel, rfl⟩ := Nat.exists_eq_add_of_le' (show 2 ≤ fuel by simp at hfuel; omega)
    cases members with
    | nil =>
      rw [List.map_singleton, List.intercalate_singleton, (members?_member hm fuel depth rest).1]
      rfl
    | cons next members =>
      rw [List.map_cons, List.map_cons, List.intercalate_cons_cons, List.append_assoc,
        List.append_assoc, List.cons_append, List.nil_append,
        (members?_member hm fuel depth _).2, ← List.map_cons,
        ih (List.cons_ne_nil _ _) hmembers (Nat.lt_of_succ_lt_succ hfuel)]
      rfl

/-- Written members start with a quote. -/
theorem exists_eq_quote_cons {members : List Member} (hne : members ≠ []) (rest : List Char) :
    ∃ tail, [','].intercalate (members.map written) ++ rest = '"' :: tail := by
  obtain ⟨m, members, rfl⟩ := List.exists_cons_of_ne_nil hne
  cases members with
  | nil => exact ⟨_, by rw [List.map_singleton, List.intercalate_singleton, written_append]⟩
  | cons next members =>
    exact ⟨_, by rw [List.map_cons, List.map_cons, List.intercalate_cons_cons, List.append_assoc,
      List.append_assoc, written_append]⟩

theorem length_le_length_written (members : List Member) :
    members.length ≤ ([','].intercalate (members.map written)).length := by
  induction members with
  | nil => exact Nat.le_refl 0
  | cons m members ih =>
    have hm : 1 ≤ m.written.length := by
      rw [← List.append_nil m.written, written_append]
      exact Nat.succ_pos _
    cases members with
    | nil => simpa using hm
    | cons next members =>
      rw [List.map_cons, List.map_cons, List.intercalate_cons_cons, ← List.map_cons,
        List.length_append, List.length_append, List.length_cons]
      omega

end Member

theorem value?_object (fuel depth : Nat) (tail : List Char) :
    value? (fuel + 1) (depth + 1) ('\x7b' :: '"' :: tail) =
      (members? fuel depth ('"' :: tail)).map fun r => (.object r.1, r.2) := rfl

/-- An object is read back where the written values of its members are. -/
theorem parse?_writeObject {members : List Member} (hne : members ≠ [])
    (h : ∀ m ∈ members, Spells m.text.toList m.value) :
    parse? (writeObject (members.map fun m => (m.name, m.text))).toList =
      some (.object (members.map fun m => (m.name, m.value))) := by
  have hlength := Member.length_le_length_written members
  have htext : (writeObject (members.map fun m => (m.name, m.text))).toList =
      '\x7b' :: ([','].intercalate (members.map Member.written) ++ ['\x7d']) := by
    rw [writeObject, String.toList_append, String.toList_append, String.toList_intercalate,
      List.map_map, List.map_map]
    rfl
  obtain ⟨fuel, hfuel⟩ : ∃ fuel, 2 * (writeObject (members.map fun m =>
      (m.name, m.text))).toList.length + 2 = fuel + 1 := ⟨_, rfl⟩
  have hvalue : value? (fuel + 1) maxDepth (writeObject (members.map fun m =>
      (m.name, m.text))).toList = some (.object (members.map fun m => (m.name, m.value)), []) := by
    have hlt : members.length < fuel := by
      rw [htext, List.length_cons, List.length_append] at hfuel
      omega
    obtain ⟨tail, htail⟩ := Member.exists_eq_quote_cons hne ['\x7d']
    have hobject := value?_object fuel (maxDepth - 1) tail
    rw [← htail, Member.members?_written hne h hlt, ← htext] at hobject
    exact hobject
  rw [parse?, hfuel, hvalue]
  rfl

end LoadReplay.Json
