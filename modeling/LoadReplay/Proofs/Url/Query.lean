import LoadReplay.Proofs.Text.Split
import LoadReplay.Proofs.Text.Utf8
import LoadReplay.Url.Query
import Mathlib.Tactic.Common

/-!
# Writing and reading queries

The `octets` of a part of a query are the bytes that it stands for, and the text read from it is
what these bytes say, with replacement characters for those that say nothing. A text that was
written as a part is read from it (`decode_encode`): a blank comes back from its plus sign, any
other character from the escapes of its bytes or from itself. No written part holds one of the
characters between parts, so the pairs of a query are those it was made of (`pairs_write`).
-/

namespace LoadReplay.Url

/-! ## Escapes -/

theorem hexValue?_hexDigit :
    ∀ n < 16, hexValue? (UInt8.ofNat (hexDigit n).toNat) = some n := by decide

theorem toNat_hexDigit_lt : ∀ n < 16, (hexDigit n).toNat < 128 := by decide

/-- An escape consists of a percent sign and digits. -/
theorem eq_of_mem_escapeByte {b : UInt8} {c : Char} (h : c ∈ escapeByte b) :
    c = '%' ∨ ∃ n < 16, c = hexDigit n := by
  have hbyte : b.toNat < 256 := b.toNat_lt
  simp only [escapeByte, List.mem_cons, List.not_mem_nil, or_false] at h
  rcases h with rfl | rfl | rfl
  · exact .inl rfl
  · exact .inr ⟨_, by omega, rfl⟩
  · exact .inr ⟨_, by omega, rfl⟩

theorem percentDecode_of_ne {b : UInt8} (h : b ≠ 37) (bs : Bytes) :
    percentDecode (b :: bs) = b :: percentDecode bs := by
  simp [percentDecode, h]

/-- An escape stands for its byte. -/
theorem percentDecode_escapeByte (b : UInt8) (cs : List Char) :
    percentDecode (Utf8.encode (escapeByte b ++ cs)) = b :: percentDecode (Utf8.encode cs) := by
  have hbyte : b.toNat < 256 := b.toNat_lt
  have hhigh : b.toNat / 16 < 16 := by omega
  have hlow : b.toNat % 16 < 16 := by omega
  have hvalue : 16 * (b.toNat / 16) + b.toNat % 16 = b.toNat := by omega
  change percentDecode (Utf8.encode ('%' :: hexDigit _ :: hexDigit _ :: cs)) = _
  rw [Utf8.encode_cons_of_ascii (by decide), Utf8.encode_cons_of_ascii (toNat_hexDigit_lt _ hhigh),
    Utf8.encode_cons_of_ascii (toNat_hexDigit_lt _ hlow)]
  change percentDecode (37 :: _ :: _ :: _) = _
  rw [percentDecode, hexValue?_hexDigit _ hhigh, hexValue?_hexDigit _ hlow]
  simp only [hvalue, UInt8.ofNat_toNat]

namespace Query

/-! ## Parts -/

/-- The text with blanks for its plus signs. -/
def unplus (cs : List Char) : List Char := cs.map fun c => if c = '+' then ' ' else c

/-- The bytes that a part stands for. -/
def octets (cs : List Char) : Bytes := percentDecode (Utf8.encode (unplus cs))

theorem decode_eq (cs : List Char) : decode cs = String.ofList (Utf8.decodeLossy (octets cs)) := rfl

/-- A character as it is written in a part. -/
def encodeChar (c : Char) : List Char :=
  if c = ' ' then ['+'] else if isPlain c then [c] else escapeChar c

theorem encode_eq (s : String) : encode s = s.toList.flatMap encodeChar := rfl

/-- The digits of escapes are plain characters. -/
theorem isPlain_hexDigit : ∀ n < 16, isPlain (hexDigit n) = true := by decide

theorem ascii_of_isAlphanum {c : Char} (h : c.isAlphanum = true) : c.toNat < 128 := by
  have hbound {bound : Char} (hle : c ≤ bound) (hascii : bound.toNat < 128) : c.toNat < 128 :=
    Nat.lt_of_le_of_lt hle hascii
  rcases Bool.or_eq_true_iff.1 h with h | h
  · rcases Bool.or_eq_true_iff.1 h with h | h
    · exact hbound (of_decide_eq_true h).2 (by decide)
    · exact hbound (of_decide_eq_true (Bool.and_eq_true_iff.1 h).2) (by decide)
  · exact hbound (of_decide_eq_true (Bool.and_eq_true_iff.1 h).2) (by decide)

theorem ascii_of_isPlain {c : Char} (h : isPlain c = true) : c.toNat < 128 := by
  simp only [isPlain, Bool.or_eq_true, beq_iff_eq] at h
  rcases h with (((h | rfl) | rfl) | rfl) | rfl
  · exact ascii_of_isAlphanum h
  all_goals decide

/-- The characters of a written part. -/
theorem of_mem_escapeByte {b : UInt8} {c : Char} (h : c ∈ escapeByte b) :
    c = '%' ∨ isPlain c = true := by
  rcases eq_of_mem_escapeByte h with rfl | ⟨n, hn, rfl⟩
  · exact .inl rfl
  · exact .inr (isPlain_hexDigit n hn)

theorem of_mem_encode {s : String} {c : Char} (h : c ∈ encode s) :
    c = '+' ∨ c = '%' ∨ isPlain c = true := by
  rw [encode_eq] at h
  obtain ⟨d, -, hd⟩ := List.mem_flatMap.1 h
  rw [encodeChar] at hd
  split_ifs at hd with hblank hplain
  · exact .inl (List.mem_singleton.1 hd)
  · exact .inr (.inr (List.mem_singleton.1 hd ▸ hplain))
  · obtain ⟨b, -, hb⟩ := List.mem_flatMap.1 hd
    exact .inr (of_mem_escapeByte hb)

/-- What stands for itself in a part stands for itself in the query of a URL. -/
theorem not_escaped_of_isPlain {c : Char} (h : isPlain c = true) : escapedInQuery c = false := by
  have table : ∀ n < 128, isPlain (Char.ofNat n) = true →
      escapedInQuery (Char.ofNat n) = false := by
    decide
  have hc := table c.toNat (ascii_of_isPlain h)
  rw [Char.ofNat_toNat] at hc
  exact hc h

theorem octets_escapeByte (b : UInt8) (cs : List Char) :
    octets (escapeByte b ++ cs) = b :: octets cs := by
  have hplus : unplus (escapeByte b) = escapeByte b := by
    refine (List.map_congr_left fun c hc => if_neg ?_).trans (List.map_id _)
    rintro rfl
    rcases of_mem_escapeByte hc with h | h
    · exact absurd h (by decide)
    · exact absurd h (by decide)
  rw [octets, unplus, List.map_append, ← unplus, hplus, percentDecode_escapeByte, octets, unplus]

theorem octets_escapes (bs : Bytes) (cs : List Char) :
    octets (bs.flatMap escapeByte ++ cs) = bs ++ octets cs := by
  induction bs with
  | nil => rfl
  | cons b bs ih =>
    rw [List.flatMap_cons, List.append_assoc, octets_escapeByte, ih, List.cons_append]

/-- A written character stands for its bytes. -/
theorem octets_encodeChar (c : Char) (cs : List Char) :
    octets (encodeChar c ++ cs) = Utf8.encode [c] ++ octets cs := by
  rw [encodeChar]
  split_ifs with hblank hplain
  · rw [hblank]
    exact percentDecode_of_ne (by decide) _
  · have hplus : c ≠ '+' := by
      rintro rfl
      exact absurd hplain (by decide)
    have hpercent : UInt8.ofNat c.toNat ≠ 37 := by
      intro h
      have hvalue : c.toNat = 37 := by
        rw [← UInt8.toNat_ofNat_of_lt' (Nat.lt_trans (ascii_of_isPlain hplain) (by decide)), h]
        rfl
      have hc : c = '%' := Char.toNat_inj.1 hvalue
      exact absurd (hc ▸ hplain) (by decide)
    have hunplus : unplus ([c] ++ cs) = c :: unplus cs := by
      rw [List.singleton_append, unplus, List.map_cons, if_neg hplus, unplus]
    rw [octets, hunplus, Utf8.encode_cons_of_ascii (ascii_of_isPlain hplain),
      percentDecode_of_ne hpercent, Utf8.encode_cons_of_ascii (ascii_of_isPlain hplain)]
    rfl
  · exact octets_escapes _ cs

theorem octets_encode (s : String) : octets (encode s) = Utf8.encode s.toList := by
  rw [encode_eq]
  induction s.toList with
  | nil => simp [octets, unplus, Utf8.encode, percentDecode]
  | cons c cs ih =>
    rw [List.flatMap_cons, octets_encodeChar, ih, Utf8.encode, Utf8.encode, List.flatMap_cons,
      Utf8.encode, List.flatMap_cons, List.flatMap_nil, List.append_nil]

/-- A text is read from what was written for it. -/
theorem decode_encode (s : String) : decode (encode s) = s := by
  rw [decode_eq, octets_encode, Utf8.decodeLossy_encode, String.ofList_toList]

/-! ## Pairs -/

/-- The name and the value in a part of a query, as they are written. -/
def halves (part : List Char) : List Char × List Char :=
  (Text.splitOnce? '=' part).getD (part, [])

theorem pairOf_eq (part : List Char) :
    pairOf part = (decode (halves part).1, decode (halves part).2) := by
  rw [pairOf, halves]
  cases Text.splitOnce? '=' part with
  | none => exact congrArg (decode part, ·) (decode_encode "").symm
  | some _ => rfl

theorem halves_append {name : List Char} (h : '=' ∉ name) (value : List Char) :
    halves (name ++ '=' :: value) = (name, value) := by
  rw [halves, Text.splitOnce?_append h, Option.getD_some]

theorem pairOf_writePair (pair : QueryPair) : pairOf (writePair pair) = pair := by
  have hname : '=' ∉ encode pair.1 := fun h => absurd (of_mem_encode h) (by decide)
  rw [pairOf_eq, writePair, halves_append hname, decode_encode, decode_encode]

/-- No written pair is empty or holds the character between pairs. -/
theorem writePair_ne_nil (pair : QueryPair) : writePair pair ≠ [] := by
  simp [writePair]

theorem not_mem_writePair (pair : QueryPair) : '&' ∉ writePair pair := by
  intro h
  rcases List.mem_append.1 h with h | h
  · exact absurd (of_mem_encode h) (by decide)
  · rcases List.mem_cons.1 h with h | h
    · exact absurd h (by decide)
    · exact absurd (of_mem_encode h) (by decide)

/-- A written query stands in a URL as it is. -/
theorem not_escaped_of_mem_write {ps : List QueryPair} {c : Char} (h : c ∈ write ps) :
    escapedInQuery c = false := by
  have of_encode {s : String} (hs : c ∈ encode s) : escapedInQuery c = false := by
    rcases of_mem_encode hs with rfl | rfl | hplain
    · decide
    · decide
    · exact not_escaped_of_isPlain hplain
  rcases Text.mem_of_mem_intercalate h with rfl | ⟨part, hpart, hc⟩
  · decide
  · obtain ⟨pair, -, rfl⟩ := List.mem_map.1 hpart
    rcases List.mem_append.1 hc with hc | hc
    · exact of_encode hc
    · rcases List.mem_cons.1 hc with rfl | hc
      · decide
      · exact of_encode hc

/-- The pairs of a query are those it was made of. -/
theorem pairs_write (ps : List QueryPair) : pairs (write ps) = ps := by
  by_cases hnil : ps = []
  · rw [hnil]
    rfl
  have hparts : Text.splitOn '&' (write ps) = ps.map writePair :=
    Text.splitOn_intercalate (List.forall_mem_map.2 fun pair _ => not_mem_writePair pair)
      (by simpa using hnil)
  have hfull : ∀ part ∈ ps.map writePair, decide (part ≠ []) = true :=
    List.forall_mem_map.2 fun pair _ => decide_eq_true (writePair_ne_nil pair)
  rw [pairs, hparts, List.filter_eq_self.2 hfull, List.map_map]
  exact (List.map_congr_left fun pair _ => pairOf_writePair pair).trans (List.map_id ps)

end Query

end LoadReplay.Url
