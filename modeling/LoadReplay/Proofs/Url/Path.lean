import LoadReplay.Proofs.Url.Escapes
import LoadReplay.Url.Parser
import Mathlib.Data.List.Flatten
import Mathlib.Data.List.TakeWhile

/-!
# Resolved paths

A path is made of the segments of a text, in which the segments `.` and `..` are resolved. Segments
that have other names stay as they are (`resolve_eq`); where there are dots, fewer bytes are left
(`size_resolve_lt`). So a path stands for the bytes of the text that it was made of only if that
text has no dots and no escapes (`IsPlain`).
-/

namespace LoadReplay.Url

variable {raw front back cs : List Char} {segments raws : List (List Char)} {base : List String}

/-! ## Bytes of paths -/

/-- The bytes of segments, each behind a slash. -/
def pathBytes (segments : List (List Char)) : Bytes := segments.flatMap fun s => 47 :: bytesOf s

theorem bytesOf_intercalate (h : segments ≠ []) :
    bytesOf ('/' :: ['/'].intercalate segments) = pathBytes segments := by
  induction segments with
  | nil => exact absurd rfl h
  | cons segment rest ih =>
    rcases rest with _ | ⟨next, rest⟩
    · rw [List.intercalate_singleton, bytesOf_cons_slash, pathBytes, List.flatMap_singleton]
    · rw [List.intercalate_cons_cons, List.append_assoc, List.singleton_append, bytesOf_cons_slash,
        bytesOf_append_slash, pathBytes, List.flatMap_cons, ← pathBytes,
        ← ih (List.cons_ne_nil _ _), bytesOf_cons_slash]
      rfl

theorem bytesOf_splitOn (cs : List Char) :
    bytesOf ('/' :: cs) = pathBytes (Text.splitOn '/' cs) := by
  rw [← bytesOf_intercalate (Text.splitOn_ne_nil _ _), Text.intercalate_splitOn]

theorem bytesOf_pathText {u : Url} (h : u.path ≠ []) :
    bytesOf u.pathText.toList = pathBytes (u.path.map String.toList) := by
  rw [← bytesOf_intercalate (by simpa using h), pathText, String.toList_append,
    String.toList_intercalate]
  rfl

/-! ## Dots -/

/-- A segment of a path as it is kept. -/
def segmentOf (raw : List Char) : String := String.ofList (percentEncode escapedInPath raw)

/-- The segment stays where it is or goes up. -/
def isDots (raw : List Char) : Bool := isHere (segmentOf raw) || isUp (segmentOf raw)

theorem bytesOf_segmentOf (raw : List Char) : bytesOf (segmentOf raw).toList = bytesOf raw := by
  rw [segmentOf, String.toList_ofList, bytesOf_percentEncode keepsEscapes_path]

theorem pathBytes_segmentOf (raws : List (List Char)) :
    pathBytes ((raws.map segmentOf).map String.toList) = pathBytes raws := by
  simp only [pathBytes, List.flatMap_map, bytesOf_segmentOf]

theorem map_eq_iff {s t : String} {f : Char → Char} : s.map f = t ↔ s.toList.map f = t.toList := by
  rw [← String.toList_inj, String.toList_map]

/-- Only letters in upper case change. -/
theorem toLower_cases {c d : Char} (h : c.toLower = d) :
    c = d ∨ 65 ≤ c.toNat ∧ c.toNat ≤ 90 ∧ d.toNat = c.toNat + 32 := by
  subst h
  by_cases hupper : 65 ≤ c.toNat ∧ c.toNat ≤ 90
  · have hlower : c.toLower.val = c.val + 32 := congrArg Char.val (dif_pos hupper)
    have hsum : c.toLower.val.toNat = c.val.toNat + 32 := by
      rw [hlower, UInt32.toNat_add]
      exact Nat.mod_eq_of_lt (by change c.toNat + 32 < _; omega)
    exact .inr ⟨hupper.1, hupper.2, hsum⟩
  · have hlower : c.toLower = c := dif_neg hupper
    exact .inl hlower.symm

theorem eq_of_toLower {c d : Char} (h : c.toLower = d) (hd : d.toNat < 97) : c = d := by
  rcases toLower_cases h with h | ⟨hlow, -, hd'⟩
  · exact h
  · omega

theorem isAlpha_of_toLower {c : Char} (h : c.toLower.isAlpha = true) : c.isAlpha = true := by
  rcases toLower_cases (c := c) rfl with heq | ⟨hlow, hhigh, -⟩
  · rwa [heq]
  · have hupper : c.isUpper = true := decide_eq_true ⟨hlow, hhigh⟩
    exact Bool.or_eq_true_iff.2 (.inl hupper)

/-- A dot, or its escape. -/
theorem bytesOf_dot_append (h : front.map Char.toLower = ['.'] ∨
    front.map Char.toLower = ['%', '2', 'e']) (back : List Char) :
    bytesOf (front ++ back) = 46 :: bytesOf back := by
  rcases h with h | h
  · obtain ⟨c, rfl, hc⟩ := List.map_eq_singleton_iff.1 h
    obtain rfl := eq_of_toLower hc (by decide)
    exact bytesOf_cons (by decide) back
  · obtain ⟨a, _, rfl, ha, h⟩ := List.map_eq_cons_iff.1 h
    obtain ⟨b, _, rfl, hb, h⟩ := List.map_eq_cons_iff.1 h
    obtain ⟨c, rfl, hc⟩ := List.map_eq_singleton_iff.1 h
    obtain rfl := eq_of_toLower ha (by decide)
    obtain rfl := eq_of_toLower hb (by decide)
    have hE : c = 'e' ∨ c = 'E' := (toLower_cases hc).imp_right fun ⟨_, _, hsum⟩ =>
      Char.toNat_inj.1 (show c.toNat = 69 from Nat.add_right_cancel hsum.symm)
    rcases hE with rfl | rfl
    all_goals exact bytesOf_hex (x := 2) (y := 14) (by decide) (by decide) rfl rfl back

theorem bytesOf_of_isHere {s : String} (h : isHere s = true) : bytesOf s.toList = [46] := by
  have hdot : s.toList.map Char.toLower = ['.'] ∨ s.toList.map Char.toLower = ['%', '2', 'e'] := by
    simp only [isHere, Bool.or_eq_true, beq_iff_eq, map_eq_iff] at h
    exact h.imp_left fun h => by rw [h]; decide
  have hbytes := bytesOf_dot_append hdot []
  rwa [List.append_nil, bytesOf_nil] at hbytes

theorem bytesOf_of_isUp {s : String} (h : isUp s = true) : bytesOf s.toList = [46, 46] := by
  have two {first second : List Char} (hfirst : first = ['.'] ∨ first = ['%', '2', 'e'])
      (hsecond : second = ['.'] ∨ second = ['%', '2', 'e'])
      (hs : s.toList.map Char.toLower = first ++ second) : bytesOf s.toList = [46, 46] := by
    obtain ⟨front, back, heq, hfront, hback⟩ := List.map_eq_append_iff.1 hs
    rw [heq, bytesOf_dot_append (by rwa [hfront]), ← List.append_nil back,
      bytesOf_dot_append (by rwa [hback]), bytesOf_nil]
  simp only [isUp, List.contains_iff_mem, List.mem_cons, List.not_mem_nil, or_false,
    map_eq_iff] at h
  rcases h with h | h | h | h
  · exact two (.inl rfl) (.inl rfl) h
  · exact two (.inr rfl) (.inl rfl) h
  · exact two (.inl rfl) (.inr rfl) h
  · exact two (.inr rfl) (.inr rfl) h

theorem bytesOf_of_isDots (h : isDots raw = true) :
    bytesOf raw = [46] ∨ bytesOf raw = [46, 46] := by
  rw [← bytesOf_segmentOf]
  exact (Bool.or_eq_true_iff.1 h).imp bytesOf_of_isHere bytesOf_of_isUp

theorem isDots_dot : isDots ['.'] = true :=
  Bool.or_eq_true_iff.2 (.inl (Bool.or_eq_true_iff.2 (.inl (by decide))))

theorem isDots_dots : isDots ['.', '.'] = true := by
  have hup : isUp ".." = true := by
    simp only [isUp, List.contains_iff_mem, List.mem_cons, map_eq_iff]
    exact .inl (by decide)
  exact Bool.or_eq_true_iff.2 (.inr hup)

/-- Without escapes only dots themselves are dots. -/
theorem isDots_iff (h : bytesOf raw = Utf8.encode raw) :
    isDots raw = true ↔ raw = ['.'] ∨ raw = ['.', '.'] := by
  constructor
  · intro hdots
    have hbytes := bytesOf_of_isDots hdots
    rw [h] at hbytes
    exact hbytes.imp (fun h => Utf8.encode_injective (t := ['.']) h)
      (fun h => Utf8.encode_injective (t := ['.', '.']) h)
  · rintro (rfl | rfl)
    · exact isDots_dot
    · exact isDots_dots

/-! ## Resolving -/

/-- The segments below which a segment of dots leads. -/
def dotsFrom (base : List String) (raw : List Char) : List String :=
  if isUp (segmentOf raw) then goUp base else base

theorem dotsFrom_of_not (h : isDots raw = false) : dotsFrom base raw = base := by
  have hup : isUp (segmentOf raw) = false := (Bool.or_eq_false_iff.1 h).2
  rw [dotsFrom, hup]
  rfl

/-- A segment of dots is left out, and at the end it leaves the path with a slash; any other segment
is kept. -/
theorem resolve_cons (base : List String) (raw : List Char) (raws : List (List Char)) :
    resolve base (raw :: raws) =
      if raws = [] then dotsFrom base raw ++ [if isDots raw then "" else segmentOf raw]
      else resolve (if isDots raw then dotsFrom base raw else dotsFrom base raw ++ [segmentOf raw])
        raws := by
  rw [resolve.eq_def]
  cases raws <;> rfl

theorem resolve_dots (h : isDots raw = true) (raws : List (List Char)) :
    resolve base (raw :: raws) =
      if raws = [] then dotsFrom base raw ++ [""] else resolve (dotsFrom base raw) raws := by
  rw [resolve_cons, h]
  rfl

theorem resolve_other (h : isDots raw = false) (raws : List (List Char)) :
    resolve base (raw :: raws) =
      if raws = [] then base ++ [segmentOf raw] else resolve (base ++ [segmentOf raw]) raws := by
  rw [resolve_cons, dotsFrom_of_not h, h]
  rfl

/-- Segments that are no dots are kept. -/
theorem resolve_eq (hne : raws ≠ []) (h : ∀ raw ∈ raws, isDots raw = false) :
    resolve base raws = base ++ raws.map segmentOf := by
  induction raws generalizing base with
  | nil => exact absurd rfl hne
  | cons raw raws ih =>
    obtain ⟨hraw, hraws⟩ := List.forall_mem_cons.1 h
    rw [resolve_other hraw]
    split_ifs with hnil
    · rw [hnil]
      rfl
    · rw [ih hnil hraws, List.map_cons, List.append_assoc, List.singleton_append]

theorem resolve_ne_nil (base : List String) (raws : List (List Char)) : resolve base raws ≠ [] := by
  induction raws generalizing base with
  | nil => exact List.append_ne_nil_of_right_ne_nil _ (List.cons_ne_nil _ _)
  | cons raw raws ih =>
    rw [resolve_cons]
    split
    · exact List.append_ne_nil_of_right_ne_nil _ (List.cons_ne_nil _ _)
    · exact ih _

/-- The number of bytes that segments stand for. -/
def size (segments : List String) : ℕ := (pathBytes (segments.map String.toList)).length

theorem size_append (front back : List String) : size (front ++ back) = size front + size back := by
  simp only [size, pathBytes, List.map_append, List.flatMap_append, List.length_append]

theorem size_singleton (segment : String) :
    size [segment] = 1 + (bytesOf segment.toList).length := by
  rw [size, List.map_singleton, pathBytes, List.flatMap_singleton, List.length_cons, Nat.add_comm]

theorem size_map_segmentOf (raws : List (List Char)) :
    size (raws.map segmentOf) = (pathBytes raws).length := by
  rw [size, pathBytes_segmentOf]

theorem size_goUp_le (segments : List String) : size (goUp segments) ≤ size segments := by
  rw [goUp]
  split
  next last hlast =>
    split_ifs
    · exact Nat.le_refl _
    · conv_rhs => rw [← List.dropLast_append_getLast? _ hlast, size_append]
      exact Nat.le_add_right _ _
  next => exact Nat.zero_le _

theorem size_dotsFrom_le (base : List String) (raw : List Char) :
    size (dotsFrom base raw) ≤ size base := by
  rw [dotsFrom]
  split
  · exact size_goUp_le base
  · exact Nat.le_refl _

theorem length_pathBytes_cons (raw : List Char) (raws : List (List Char)) :
    (pathBytes (raw :: raws)).length = 1 + (bytesOf raw).length + (pathBytes raws).length := by
  rw [pathBytes, List.flatMap_cons, List.length_append, List.length_cons, pathBytes]
  omega

theorem length_bytesOf_pos_of_isDots (h : isDots raw = true) : 0 < (bytesOf raw).length := by
  rcases bytesOf_of_isDots h with h | h
  all_goals
    rw [h]
    exact Nat.zero_lt_succ _

/-- Where there are dots, resolving leaves fewer bytes. -/
theorem kept_or_size_resolve_lt (base : List String) (hne : raws ≠ []) :
    (∀ raw ∈ raws, isDots raw = false) ∨
      size (resolve base raws) < size base + (pathBytes raws).length := by
  induction raws generalizing base with
  | nil => exact absurd rfl hne
  | cons raw raws ih =>
    rw [length_pathBytes_cons]
    by_cases hraw : isDots raw = true
    · right
      have hfrom := size_dotsFrom_le base raw
      have hpos := length_bytesOf_pos_of_isDots hraw
      rw [resolve_dots hraw]
      split_ifs with hnil
      · have hlast : (bytesOf "".toList).length = 0 := congrArg List.length bytesOf_nil
        rw [size_append, size_singleton, hlast]
        omega
      · have hle : size (resolve (dotsFrom base raw) raws) ≤
            size (dotsFrom base raw) + (pathBytes raws).length := by
          rcases ih (dotsFrom base raw) hnil with hkept | hlt
          · exact Nat.le_of_eq (by rw [resolve_eq hnil hkept, size_append, size_map_segmentOf])
          · exact Nat.le_of_lt hlt
        omega
    · rw [Bool.not_eq_true] at hraw
      rw [resolve_other hraw]
      split_ifs with hnil
      · left
        rw [hnil]
        exact List.forall_mem_singleton.2 hraw
      · refine (ih (base ++ [segmentOf raw]) hnil).imp
          (fun hkept => List.forall_mem_cons.2 ⟨hraw, hkept⟩) fun hlt => ?_
        rw [size_append, size_singleton, bytesOf_segmentOf] at hlt
        omega

/-! ## Texts that stand in a path as they are -/

/-- There are no escapes in a text. -/
def IsUnescaped (cs : List Char) : Prop := bytesOf cs = Utf8.encode cs

theorem isUnescaped_of_not_mem (h : '%' ∉ cs) : IsUnescaped cs := by
  induction cs with
  | nil => exact bytesOf_nil
  | cons c cs ih =>
    obtain ⟨hc, hcs⟩ := List.ne_and_not_mem_of_not_mem_cons h
    rw [IsUnescaped, bytesOf_cons (Ne.symm hc), Utf8.encode_cons c cs, ih hcs]

theorem length_bytesOf_le (cs : List Char) : (bytesOf cs).length ≤ (Utf8.encode cs).length :=
  length_percentDecode_le _

theorem isUnescaped_of_length_le (h : (Utf8.encode cs).length ≤ (bytesOf cs).length) :
    IsUnescaped cs :=
  percentDecode_eq_self h

theorem encode_append_slash (front back : List Char) :
    Utf8.encode (front ++ '/' :: back) = Utf8.encode front ++ 47 :: Utf8.encode back := by
  rw [Utf8.encode_append, Utf8.encode_cons_of_ascii (by decide)]
  rfl

theorem isUnescaped_append_slash :
    IsUnescaped (front ++ '/' :: back) ↔ IsUnescaped front ∧ IsUnescaped back := by
  have hfront := length_bytesOf_le front
  have hback := length_bytesOf_le back
  constructor
  · intro h
    rw [IsUnescaped, bytesOf_append_slash, encode_append_slash] at h
    have hlength := congrArg List.length h
    simp only [List.length_append, List.length_cons] at hlength
    exact ⟨isUnescaped_of_length_le (by omega), isUnescaped_of_length_le (by omega)⟩
  · rintro ⟨h, h'⟩
    rw [IsUnescaped, bytesOf_append_slash, encode_append_slash, h, h']

theorem IsUnescaped.of_mem_intercalate (h : IsUnescaped (['/'].intercalate segments))
    (hraw : raw ∈ segments) : IsUnescaped raw := by
  induction segments with
  | nil => cases hraw
  | cons first rest ih =>
    rcases rest with _ | ⟨next, rest⟩
    · rw [List.intercalate_singleton] at h
      exact List.mem_singleton.1 hraw ▸ h
    · rw [List.intercalate_cons_cons, List.append_assoc, List.singleton_append,
        isUnescaped_append_slash] at h
      rcases List.mem_cons.1 hraw with rfl | hraw
      · exact h.1
      · exact ih h.2 hraw

/-- The text stands in a path as it is: it has no characters that end a path or count as others or
as none, no escapes, and no segments of dots. -/
structure IsPlain (cs : List Char) : Prop where
  noMark : ∀ c ∈ cs, c ∉ ['#', '?', '\\', '\t', '\n', '\r']
  noEscape : IsUnescaped cs
  noDots : ['.'] ∉ Text.splitOn '/' cs ∧ ['.', '.'] ∉ Text.splitOn '/' cs

theorem isPlain_append_slash : IsPlain (front ++ '/' :: back) ↔ IsPlain front ∧ IsPlain back := by
  have hmark : '/' ∉ ['#', '?', '\\', '\t', '\n', '\r'] := by decide
  constructor
  · rintro ⟨hmarks, hescape, hdots⟩
    rw [List.forall_mem_append, List.forall_mem_cons] at hmarks
    rw [isUnescaped_append_slash] at hescape
    rw [Text.splitOn_append_cons, List.mem_append, List.mem_append, not_or, not_or] at hdots
    exact ⟨⟨hmarks.1, hescape.1, hdots.1.1, hdots.2.1⟩,
      ⟨hmarks.2.2, hescape.2, hdots.1.2, hdots.2.2⟩⟩
  · rintro ⟨hfront, hback⟩
    refine ⟨?_, isUnescaped_append_slash.2 ⟨hfront.noEscape, hback.noEscape⟩, ?_⟩
    · exact List.forall_mem_append.2
        ⟨hfront.noMark, List.forall_mem_cons.2 ⟨hmark, hback.noMark⟩⟩
    · rw [Text.splitOn_append_cons, List.mem_append, List.mem_append, not_or, not_or]
      exact ⟨⟨hfront.noDots.1, hback.noDots.1⟩, hfront.noDots.2, hback.noDots.2⟩

theorem IsPlain.not_isDots (h : IsPlain cs) : ∀ raw ∈ Text.splitOn '/' cs, isDots raw = false := by
  intro raw hraw
  have hescape : IsUnescaped raw := by
    have hescape := h.noEscape
    rw [← Text.intercalate_splitOn '/' cs] at hescape
    exact hescape.of_mem_intercalate hraw
  rw [← Bool.not_eq_true, isDots_iff hescape]
  rintro (rfl | rfl)
  · exact h.noDots.1 hraw
  · exact h.noDots.2 hraw

/-! ## The path in a text -/

/-- Tabs and line breaks are skipped. -/
def isKept (c : Char) : Bool := !(c == '\t' || c == '\n' || c == '\r')

/-- A path ends at the query or the fragment. -/
def isEnd (c : Char) : Bool := c == '?' || c == '#'

/-- The characters of the path at the beginning of a text. -/
def pathPart (cs : List Char) : List Char := cs.takeWhile fun c => !isEnd c

/-- Backslashes count as slashes. -/
def slashed (cs : List Char) : List Char := cs.map fun c => if c = '\\' then '/' else c

theorem splitPath_eq (base : List String) (cs : List Char) : splitPath base cs =
    (resolve base (Text.splitOn '/' (slashed (pathPart cs))), cs.dropWhile fun c => !isEnd c) :=
  rfl

theorem length_encode_slashed (cs : List Char) :
    (Utf8.encode (slashed cs)).length = (Utf8.encode cs).length := by
  induction cs with
  | nil => rfl
  | cons c cs ih =>
    rw [slashed, List.map_cons, ← slashed, Utf8.encode_cons, Utf8.encode_cons c,
      List.length_append, List.length_append, ih]
    split_ifs with h
    · rw [h]
      rfl
    · rfl

/-- Leaving characters out leaves fewer bytes. -/
theorem eq_of_sublist {part cs : List Char} (h : part.Sublist cs)
    (hlength : (Utf8.encode cs).length ≤ (Utf8.encode part).length) : part = cs :=
  Utf8.encode_injective ((h.flatMap _).eq_of_length_le hlength)

theorem pathPart_append_mark {mark : Char} (hmark : isEnd mark = true) (cs rest : List Char) :
    pathPart (cs ++ mark :: rest) = pathPart cs := by
  induction cs with
  | nil => exact List.takeWhile_cons_of_neg (by rw [hmark]; decide)
  | cons c cs ih =>
    simp only [pathPart, List.cons_append, List.takeWhile_cons] at ih ⊢
    rw [ih]

theorem not_mem_slashed (cs : List Char) : '\\' ∉ slashed cs := by
  intro h
  obtain ⟨c, -, hc⟩ := List.mem_map.1 h
  split_ifs at hc with hslash
  · contradiction
  · exact hslash hc

/-- The characters that do not stand in a path as they are. -/
theorem not_mark_iff {c : Char} : c ∉ ['#', '?', '\\', '\t', '\n', '\r'] ↔
    isEnd c = false ∧ c ≠ '\\' ∧ isKept c = true := by
  simp only [isEnd, isKept, List.mem_cons, List.not_mem_nil, or_false, not_or, Bool.or_eq_false_iff,
    Bool.not_eq_true', beq_eq_false_iff_ne, ne_eq]
  tauto

theorem IsPlain.of_mem {c : Char} (h : IsPlain cs) (hc : c ∈ cs) :
    isEnd c = false ∧ c ≠ '\\' ∧ isKept c = true :=
  not_mark_iff.1 (h.noMark c hc)

theorem IsPlain.not_isEnd (h : IsPlain cs) : ∀ c ∈ cs, (!isEnd c) = true := fun c hc => by
  rw [(h.of_mem hc).1]
  rfl

theorem IsPlain.slashed_eq (h : IsPlain cs) : slashed cs = cs :=
  (List.map_congr_left fun _ hc => if_neg (h.of_mem hc).2.1).trans (List.map_id cs)

theorem IsPlain.filter_eq (h : IsPlain cs) : cs.filter isKept = cs :=
  List.filter_eq_self.2 fun _ hc => (h.of_mem hc).2.2

theorem IsPlain.splitPath_eq (h : IsPlain cs) {mark : Char} (hmark : isEnd mark = true)
    (rest : List Char) :
    splitPath [] (cs ++ mark :: rest) = ((Text.splitOn '/' cs).map segmentOf, mark :: rest) := by
  rw [Url.splitPath_eq, pathPart_append_mark hmark, pathPart,
    List.takeWhile_eq_self_iff.2 h.not_isEnd, h.slashed_eq,
    resolve_eq (Text.splitOn_ne_nil _ _) h.not_isDots, List.dropWhile_append_of_pos h.not_isEnd,
    List.dropWhile_cons_of_neg (by rw [hmark]; decide)]
  rfl

/-- The segments of a text with characters left out stand for all bytes of the text only if nothing
was left out, and nothing stands for something else. -/
theorem kept_of_pathBytes_resolve {part : List Char} (hpart : part.Sublist cs)
    (h : pathBytes ((resolve [] (Text.splitOn '/' (slashed part))).map String.toList) =
      47 :: Utf8.encode cs) :
    part = cs ∧ slashed part = cs ∧ IsUnescaped cs ∧
      ∀ raw ∈ Text.splitOn '/' cs, isDots raw = false := by
  have hraws : pathBytes (Text.splitOn '/' (slashed part)) = 47 :: bytesOf (slashed part) := by
    rw [← bytesOf_splitOn, bytesOf_cons_slash]
  have hescapes := length_bytesOf_le (slashed part)
  have hslashed := length_encode_slashed part
  have hsub : (Utf8.encode part).length ≤ (Utf8.encode cs).length :=
    (hpart.flatMap String.utf8EncodeChar).length_le
  rcases kept_or_size_resolve_lt [] (Text.splitOn_ne_nil '/' (slashed part)) with
    hkept | hlt
  · rw [resolve_eq (Text.splitOn_ne_nil _ _) hkept, List.nil_append, pathBytes_segmentOf, hraws,
      List.cons.injEq] at h
    have hall := congrArg List.length h.2
    have hescape : IsUnescaped (slashed part) := isUnescaped_of_length_le (by omega)
    have heq : slashed part = cs := Utf8.encode_injective (hescape.symm.trans h.2)
    rw [heq] at hkept hescape
    exact ⟨eq_of_sublist hpart (by omega), heq, hescape, hkept⟩
  · -- with dots, resolving has left fewer bytes than the text has
    have hnone : size [] = 0 := rfl
    have hall := congrArg List.length h
    rw [hraws, hnone, size, hall, List.length_cons, List.length_cons] at hlt
    omega

/-- A path stands for the bytes of the text that it is read from exactly if the text is plain. -/
theorem bytesOf_pathText_iff {u : Url} {rest : List Char}
    (hu : u.path = (splitPath [] (cs.filter isKept ++ '?' :: rest)).1) :
    bytesOf u.pathText.toList = Utf8.encode ('/' :: cs) ↔ IsPlain cs := by
  have hroot : Utf8.encode ('/' :: cs) = 47 :: Utf8.encode cs :=
    Utf8.encode_cons_of_ascii (by decide) cs
  have hne : u.path ≠ [] := hu ▸ resolve_ne_nil _ _
  rw [bytesOf_pathText hne, hroot]
  constructor
  · intro h
    rw [hu, splitPath_eq, pathPart_append_mark rfl] at h
    have hsub : (pathPart (cs.filter isKept)).Sublist cs :=
      (List.takeWhile_sublist _).trans List.filter_sublist
    obtain ⟨hpart, hslashed, hescape, hkept⟩ := kept_of_pathBytes_resolve hsub h
    refine ⟨fun c hc => ?_, hescape, fun hdot => ?_, fun hdots => ?_⟩
    · have hmem : c ∈ pathPart (cs.filter isKept) := hpart.symm ▸ hc
      refine not_mark_iff.2 ⟨?_, ?_, ?_⟩
      · simpa using List.mem_takeWhile_imp hmem
      · rintro rfl
        exact not_mem_slashed _ (hslashed.symm ▸ hc)
      · exact List.of_mem_filter ((List.takeWhile_sublist _).subset hmem)
    · exact absurd isDots_dot (by rw [hkept _ hdot]; decide)
    · exact absurd isDots_dots (by rw [hkept _ hdots]; decide)
  · intro h
    rw [hu, h.filter_eq, h.splitPath_eq rfl, pathBytes_segmentOf, ← bytesOf_splitOn, bytesOf_cons_slash]
    exact congrArg _ h.noEscape

end LoadReplay.Url
