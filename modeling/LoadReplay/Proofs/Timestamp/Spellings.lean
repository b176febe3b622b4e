import LoadReplay.Proofs.Double.Decimal
import LoadReplay.Proofs.Timestamp.Calendar

/-!
# Spellings of an instant

A reading is written with fields of fixed width, a separator between date and time of day, up to
nine digits behind the point, and a zone (`Reading.spell`). The first form that takes such a text is
the strict one where there is a zone. Without a zone it is the form without an offset that has the
separator, since the strict form misses the zone and the lenient one the offset. Each of them reads
all fields back, so all spellings of an instant have the same value
(`Timestamp.read?_spellings`); none is taken for a number, because a sign that follows digits ends
every number.
-/

namespace LoadReplay

open Double (paddedDigits digitsValue)

/-! ## Written readings -/

/-- What is written behind the seconds for digits of a fraction. -/
def fractionText (fraction : List Char) : List Char :=
  if fraction.isEmpty then [] else '.' :: fraction

/-- The nanoseconds that up to nine digits of a fraction denote. -/
def fractionNanos (fraction : List Char) : Nat := digitsValue fraction * 10 ^ (9 - fraction.length)

/-- A date in ten characters. -/
def Date.text (d : Date) : List Char :=
  paddedDigits 4 d.year.toNat ++ '-' :: (paddedDigits 2 d.month ++ '-' :: paddedDigits 2 d.day)

/-- A time of day with the digits of a fraction. -/
def Reading.clockText (r : Reading) (fraction : List Char) : List Char :=
  paddedDigits 2 r.hour ++ ':' :: (paddedDigits 2 r.minute ++ ':' ::
    (paddedDigits 2 r.second ++ fractionText fraction))

/-- A reading with a separator between date and time of day, and a zone. -/
def Reading.spell (r : Reading) (fraction : List Char) (separator : Char) (zone : List Char) :
    List Char :=
  r.date.text ++ separator :: (r.clockText fraction ++ zone)

/-- An offset from UTC in hours and minutes; a negative one is west of it. -/
structure Offset where
  negative : Bool
  hours : Nat
  minutes : Nat
  deriving Repr, DecidableEq

namespace Offset

/-- The offset is less than a day. -/
def IsValid (o : Offset) : Prop := o.hours < 24 ∧ o.minutes < 60

/-- The seconds east of UTC. -/
def seconds (o : Offset) : Int :=
  let magnitude : Int := o.hours * 3600 + o.minutes * 60
  if o.negative then -magnitude else magnitude

/-- A sign, hours, a colon and minutes. -/
def text (o : Offset) : List Char :=
  (if o.negative then '-' else '+') :: (paddedDigits 2 o.hours ++ ':' :: paddedDigits 2 o.minutes)

end Offset

/-- The reading and its fraction can be written: a date and a time of day in a year of four digits,
not in a leap second, with up to nine digits behind the point. -/
structure Reading.IsWritten (r : Reading) (fraction : List Char) : Prop where
  isValid : r.IsValid
  second_lt : r.second < 60
  one_le_year : 1 ≤ r.date.year
  year_le : r.date.year ≤ 9999
  isDigit : ∀ c ∈ fraction, c.isDigit = true
  length_le : fraction.length ≤ 9
  nanos_eq : r.nanos = fractionNanos fraction

/-- All numbers of a written reading fit in their fields. -/
theorem Reading.IsWritten.field_lt {r : Reading} {fraction : List Char} (h : r.IsWritten fraction) :
    r.date.year.toNat < 10 ^ 4 ∧ r.date.month < 10 ^ 2 ∧ r.date.day < 10 ^ 2 ∧ r.hour < 10 ^ 2 ∧
      r.minute < 10 ^ 2 ∧ r.second < 10 ^ 2 := by
  obtain ⟨⟨⟨hmonth, hmonth', hday, hlength⟩, hhour, hminute, -⟩, hsecond, hfirst, hlast, -⟩ := h
  have hlong := Date.daysInMonth_bounds r.date.year hmonth hmonth'
  omega

/-- What is read of the fields makes up the reading. -/
theorem Reading.IsWritten.mk_eq {r : Reading} {fraction : List Char} (h : r.IsWritten fraction) :
    (⟨⟨r.date.year.toNat, r.date.month, r.date.day⟩, r.hour, r.minute, r.second,
      fractionNanos fraction⟩ : Reading) = r := by
  rw [← h.nanos_eq, Int.toNat_of_nonneg (Int.le_trans (by decide) h.one_le_year)]

theorem Reading.spell_eq (r : Reading) (fraction : List Char) (separator : Char)
    (zone : List Char) : r.spell fraction separator zone =
      paddedDigits 4 r.date.year.toNat ++ '-' :: (paddedDigits 2 r.date.month ++ '-' ::
        (paddedDigits 2 r.date.day ++ separator :: (paddedDigits 2 r.hour ++ ':' ::
          (paddedDigits 2 r.minute ++ ':' :: (paddedDigits 2 r.second ++
            (fractionText fraction ++ zone)))))) := by
  simp only [Reading.spell, Date.text, Reading.clockText, List.append_assoc, List.cons_append]

/-! ## Digits -/

theorem length_paddedDigits {width n : Nat} (hwidth : 0 < width) (hn : n < 10 ^ width) :
    (paddedDigits width n).length = width := by
  have hlength := (Nat.length_toDigits_le_iff (b := 10) (n := n) (by decide) hwidth).2 hn
  rw [paddedDigits, List.length_append, List.length_replicate, Double.digitText,
    Nat.sub_add_cancel hlength]

theorem exists_paddedDigits_eq (n : Nat) {width : Nat} (hwidth : 0 < width) :
    ∃ c ds, paddedDigits width n = c :: ds ∧ c.isDigit = true := by
  have hlength := Double.le_length_paddedDigits width n
  have hdigits := Double.isDigit_of_mem_paddedDigits width n
  cases h : paddedDigits width n with
  | nil =>
    rw [h, List.length_nil] at hlength
    omega
  | cons c ds => exact ⟨c, ds, rfl, hdigits c (h ▸ List.mem_cons_self ..)⟩

theorem isBlank_of_isDigit {c : Char} (h : c.isDigit = true) : Text.isBlank c = false := by
  have hcode : 48 ≤ c.toNat ∧ c.toNat ≤ 57 := Char.isDigit_iff_toNat.1 h
  simp only [Text.isBlank, Bool.or_eq_false_iff, Bool.and_eq_false_iff, decide_eq_false_iff_not,
    beq_eq_false_iff_ne]
  omega

theorem isBlank_paddedDigits (width n : Nat) :
    ∀ c ∈ paddedDigits width n, Text.isBlank c = false :=
  fun c hc => isBlank_of_isDigit (Double.isDigit_of_mem_paddedDigits width n c hc)

namespace Timestamp

variable {least width n : Nat} {rest : List Char}

/-- Digits that fill a field are read, whatever follows. -/
theorem digits?_paddedDigits (hleast : least ≤ width) (hwidth : 0 < width) (hn : n < 10 ^ width)
    (rest : List Char) : digits? least width (paddedDigits width n ++ rest) = some (n, rest) := by
  have hlength := length_paddedDigits hwidth hn
  have htake : ((paddedDigits width n ++ rest).take width).takeWhile Char.isDigit =
      paddedDigits width n := by
    rw [List.take_left' hlength]
    exact List.takeWhile_eq_self_iff.2 (Double.isDigit_of_mem_paddedDigits width n)
  rw [digits?, htake, hlength, if_neg (Nat.not_lt.2 hleast), Double.digitsValue_paddedDigits,
    List.drop_left' hlength]

@[simp] theorem char?_cons (c : Char) (cs : List Char) : char? c (c :: cs) = some cs := if_pos rfl

/-- No fraction goes on with this text. -/
def EndsFraction (rest : List Char) : Prop := ∀ c ∈ rest.head?, c.isDigit = false ∧ c ≠ '.'

theorem EndsFraction.takeWhile_append (hrest : EndsFraction rest) {ds : List Char}
    (hdigits : ∀ c ∈ ds, c.isDigit = true) : (ds ++ rest).takeWhile Char.isDigit = ds := by
  have hnone : rest.takeWhile Char.isDigit = [] := by
    cases rest with
    | nil => rfl
    | cons c rest => exact List.takeWhile_cons_of_neg (by simp [(hrest c rfl).1])
  rw [List.takeWhile_append_of_pos hdigits, hnone, List.append_nil]

theorem fraction?_fractionText {fraction : List Char} (hdigits : ∀ c ∈ fraction, c.isDigit = true)
    (hlength : fraction.length ≤ 9) (hrest : EndsFraction rest) :
    fraction? (fractionText fraction ++ rest) = some (fractionNanos fraction, rest) := by
  cases fraction with
  | nil =>
    change fraction? rest = some (0, rest)
    unfold fraction?
    split
    next => exact absurd rfl (hrest '.' rfl).2
    next => rfl
  | cons c fraction =>
    have htake := hrest.takeWhile_append hdigits
    change fraction? ('.' :: (c :: fraction ++ rest)) = _
    rw [fraction?, htake]
    rw [List.take_of_length_le hlength, List.drop_left]
    rfl

/-! ## The strict form -/

theorem zone?_offset {o : Offset} (h : o.IsValid) : zone? o.text = some (o.seconds, []) := by
  have hhours := digits?_paddedDigits (n := o.hours) (Nat.le_refl 2) (by decide)
    (h.1.trans (by decide)) (':' :: paddedDigits 2 o.minutes)
  have hminutes := digits?_paddedDigits (n := o.minutes) (Nat.le_refl 2) (by decide)
    (h.2.trans (by decide)) []
  rw [List.append_nil] at hminutes
  obtain ⟨negative, hours, minutes⟩ := o
  cases negative <;> simp [Offset.text, zone?, offset?, hhours, hminutes, h.2, Offset.seconds]

theorem endsFraction_offset (o : Offset) : EndsFraction o.text := by
  intro c hc
  rw [Offset.text, List.head?_cons, Option.mem_some_iff] at hc
  rw [← hc]
  split <;> decide

theorem isOffset_seconds {o : Offset} (h : o.IsValid) : isOffset o.seconds = true := by
  obtain ⟨hhours, hminutes⟩ := h
  rw [isOffset, decide_eq_true_eq, Offset.seconds]
  split <;> omega

/-- One part of a text is read, and then the others. -/
theorem bind_of_eq {α β : Type} {x : Option α} {a : α} {f : α → Option β} {y : Option β}
    (hx : x = some a) (h : f a = y) : (x >>= f) = y := by
  rw [hx]
  exact h

theorem strict?_spell {r : Reading} {fraction : List Char} (h : r.IsWritten fraction)
    {separator : Char} (hseparator : separator = 'T' ∨ separator = ' ') {zone : List Char}
    (hzone : EndsFraction zone) :
    strict? (r.spell fraction separator zone) = (zone? zone).bind fun z =>
      if z.2.isEmpty && isOffset z.1 then r.instant? z.1 else none := by
  obtain ⟨hyear, hmonth, hday, hhour, hminute, hsecond⟩ := h.field_lt
  have htwo {n : Nat} (hn : n < 10 ^ 2) (rest : List Char) :
      digits? 2 2 (paddedDigits 2 n ++ rest) = some (n, rest) :=
    digits?_paddedDigits (Nat.le_refl 2) (by decide) hn rest
  have hfraction := fraction?_fractionText h.isDigit h.length_le hzone
  rw [Reading.spell_eq, strict?]
  refine bind_of_eq (digits?_paddedDigits (Nat.le_refl 4) (by decide) hyear _) ?_
  refine bind_of_eq (char?_cons ..) (bind_of_eq (htwo hmonth _) ?_)
  refine bind_of_eq (char?_cons ..) (bind_of_eq (htwo hday _) ?_)
  -- behind either separator the rest is read alike
  rcases hseparator with rfl | rfl
  all_goals
    refine bind_of_eq rfl (bind_of_eq (htwo hhour _) (bind_of_eq (char?_cons ..) ?_))
    refine bind_of_eq (htwo hminute _) (bind_of_eq (char?_cons ..) ?_)
    refine bind_of_eq (htwo hsecond _) (bind_of_eq hfraction ?_)
    simp only [h.mk_eq]
    rfl

/-! ## The lenient forms -/

theorem trimStart_paddedDigits (hwidth : 0 < width) (rest : List Char) :
    Text.trimStart (paddedDigits width n ++ rest) = paddedDigits width n ++ rest := by
  obtain ⟨c, ds, heq, hdigit⟩ := exists_paddedDigits_eq n hwidth
  rw [heq, List.cons_append, Text.trimStart,
    List.dropWhile_cons_of_neg (by simp [isBlank_of_isDigit hdigit])]

theorem looseNumber?_paddedDigits (hn : n < 10 ^ 2) (rest : List Char) :
    looseNumber? (paddedDigits 2 n ++ rest) = some (n, rest) := by
  rw [looseNumber?, trimStart_paddedDigits (by decide)]
  exact digits?_paddedDigits (by decide) (by decide) hn rest

theorem looseYear?_paddedDigits (hn : n < 10 ^ 4) (rest : List Char) :
    looseYear? (paddedDigits 4 n ++ rest) = some ((n : Int), rest) := by
  have hread : digits? 1 4 (paddedDigits 4 n ++ rest) = some (n, rest) :=
    digits?_paddedDigits (by decide) (by decide) hn rest
  rw [looseYear?, trimStart_paddedDigits (by decide)]
  obtain ⟨c, ds, heq, hdigit⟩ := exists_paddedDigits_eq n (show 0 < 4 by decide)
  rw [heq, List.cons_append] at hread ⊢
  split
  next hminus =>
    obtain rfl := (List.cons.inj hminus).1
    cases hdigit
  next hplus =>
    obtain rfl := (List.cons.inj hplus).1
    cases hdigit
  next => rw [hread]; rfl

/-- A blank between date and time of day is skipped. -/
theorem blanks?_cons (hwidth : 0 < width) (rest : List Char) :
    blanks? (' ' :: (paddedDigits width n ++ rest)) = some (paddedDigits width n ++ rest) :=
  congrArg some (trimStart_paddedDigits hwidth rest)

section

variable {r : Reading} {fraction zone : List Char} (h : r.IsWritten fraction)

include h

theorem looseReading?_spell {separator? : List Char → Option (List Char)} {separator : Char}
    (hseparator : ∀ rest, separator? (separator :: (paddedDigits 2 r.hour ++ rest)) =
      some (paddedDigits 2 r.hour ++ rest)) (hzone : EndsFraction zone) :
    looseReading? separator? (r.spell fraction separator zone) = some (r, zone) := by
  obtain ⟨hyear, hmonth, hday, hhour, hminute, hsecond⟩ := h.field_lt
  have hfraction := fraction?_fractionText h.isDigit h.length_le hzone
  rw [Reading.spell_eq, looseReading?]
  refine bind_of_eq (looseYear?_paddedDigits hyear _) (bind_of_eq (char?_cons ..) ?_)
  refine bind_of_eq (looseNumber?_paddedDigits hmonth _) (bind_of_eq (char?_cons ..) ?_)
  refine bind_of_eq (looseNumber?_paddedDigits hday _) (bind_of_eq (hseparator _) ?_)
  refine bind_of_eq (looseNumber?_paddedDigits hhour _) (bind_of_eq (char?_cons ..) ?_)
  refine bind_of_eq (looseNumber?_paddedDigits hminute _) (bind_of_eq (char?_cons ..) ?_)
  refine bind_of_eq (looseNumber?_paddedDigits hsecond _) (bind_of_eq hfraction ?_)
  exact congrArg (fun reading => some (reading, zone)) h.mk_eq

/-- The hour is missed where a `T` stands instead of blanks. -/
theorem looseReading?_blanks : looseReading? blanks? (r.spell fraction 'T' zone) = none := by
  obtain ⟨hyear, hmonth, hday, -⟩ := h.field_lt
  rw [Reading.spell_eq, looseReading?]
  refine bind_of_eq (looseYear?_paddedDigits hyear _) (bind_of_eq (char?_cons ..) ?_)
  refine bind_of_eq (looseNumber?_paddedDigits hmonth _) (bind_of_eq (char?_cons ..) ?_)
  exact bind_of_eq (looseNumber?_paddedDigits hday _) rfl

theorem instant?_zoned {separator : Char} (hseparator : separator = 'T' ∨ separator = ' ')
    (hends : EndsFraction zone) {offset : Int} (hzone : zone? zone = some (offset, []))
    (hoffset : offset.natAbs < 86400) :
    instant? (r.spell fraction separator zone) = some ⟨r.unixSeconds - offset, r.nanos⟩ := by
  have hstrict := strict?_spell h hseparator hends
  rw [hzone, Option.bind_some, List.isEmpty_nil, Bool.true_and, isOffset,
    if_pos (decide_eq_true hoffset),
    Reading.instant?_eq h.isValid h.second_lt h.one_le_year h.year_le hoffset] at hstrict
  rw [instant?, hstrict]
  rfl

theorem instant?_unzoned {separator : Char} (hseparator : separator = 'T' ∨ separator = ' ') :
    instant? (r.spell fraction separator []) = some ⟨r.unixSeconds, r.nanos⟩ := by
  have hends : EndsFraction [] := nofun
  have hstrict : strict? (r.spell fraction separator []) = none :=
    strict?_spell h hseparator hends
  have hinstant : r.instant? 0 = some ⟨r.unixSeconds - 0, r.nanos⟩ :=
    Reading.instant?_eq h.isValid h.second_lt h.one_le_year h.year_le (by decide)
  rw [Int.sub_zero] at hinstant
  rw [instant?, hstrict, Option.none_or]
  rcases hseparator with rfl | rfl
  · have hblanks : looseReading? blanks? (r.spell fraction 'T' []) = none := looseReading?_blanks h
    have hreading : looseReading? (char? 'T') (r.spell fraction 'T' []) = some (r, []) :=
      looseReading?_spell h (fun _ => char?_cons ..) hends
    have hwith : looseWithOffset? (r.spell fraction 'T' []) = none := by
      rw [looseWithOffset?, hblanks]
      rfl
    have hutc : looseInUtc? blanks? (r.spell fraction 'T' []) = none := by
      rw [looseInUtc?, hblanks]
      rfl
    rw [hwith, hutc, Option.none_or, Option.none_or, looseInUtc?]
    exact bind_of_eq hreading hinstant
  · have hreading := looseReading?_spell h (fun rest => blanks?_cons (by decide) rest) hends
    have hwith : looseWithOffset? (r.spell fraction ' ' []) = none := bind_of_eq hreading rfl
    have hutc : looseInUtc? blanks? (r.spell fraction ' ' []) = _ := bind_of_eq hreading hinstant
    rw [hwith, hutc]
    rfl

end

/-! ## Whole texts -/

/-- Digits with a minus behind them are not a number. -/
theorem ofChars?_minus {ds : List Char} (hne : ds ≠ []) (hdigits : ∀ c ∈ ds, c.isDigit = true)
    (rest : List Char) : Double.ofChars? (ds ++ '-' :: rest) = none := by
  have hsign : Double.splitSign (ds ++ '-' :: rest) = (false, ds ++ '-' :: rest) := by
    obtain ⟨c, cs, rfl⟩ := List.exists_cons_of_ne_nil hne
    have hdigit := hdigits c (List.mem_cons_self ..)
    unfold Double.splitSign
    split
    next hminus =>
      obtain rfl := (List.cons.inj hminus).1
      cases hdigit
    next hplus =>
      obtain rfl := (List.cons.inj hplus).1
      cases hdigit
    next => rfl
  have hword (word : List Char) (h : '-' ∉ word) :
      (ds ++ '-' :: rest).map Char.toLower ≠ word := by
    rintro rfl
    exact h (List.mem_map.2 ⟨'-', by simp, rfl⟩)
  have htake : (ds ++ '-' :: rest).takeWhile Char.isDigit = ds := by
    rw [List.takeWhile_append_of_pos hdigits, List.takeWhile_cons_of_neg (by decide),
      List.append_nil]
  have hdrop : (ds ++ '-' :: rest).dropWhile Char.isDigit = '-' :: rest := by
    rw [List.dropWhile_append_of_pos hdigits, List.dropWhile_cons_of_neg (by decide)]
  have hsplit : Double.splitDigits (ds ++ '-' :: rest) = (ds, [], '-' :: rest) := by
    rw [Double.splitDigits, htake, hdrop]
    rfl
  have hempty : ds.isEmpty = false := by simpa using hne
  rw [Double.ofChars?, hsign]
  dsimp only
  rw [Double.magnitude?]
  simp only [hword "inf".toList (by decide), hword "infinity".toList (by decide),
    hword "nan".toList (by decide), hsplit, hempty]
  rfl

theorem dropEndWhile_append {p : Char → Bool} {ending : List Char} (hne : ending ≠ [])
    (h : ∀ c ∈ ending, p c = false) (start : List Char) :
    Text.dropEndWhile p (start ++ ending) = start ++ ending := by
  cases hreverse : ending.reverse with
  | nil => exact absurd (List.reverse_eq_nil_iff.1 hreverse) hne
  | cons c cs =>
    have hlast : p c = false := h c (List.mem_reverse.1 (hreverse ▸ List.mem_cons_self ..))
    rw [Text.dropEndWhile, List.reverse_append, hreverse, List.cons_append,
      List.dropWhile_cons_of_neg (by simp [hlast]), ← List.cons_append, ← hreverse,
      ← List.reverse_append, List.reverse_reverse]

theorem isBlank_clockText {r : Reading} {fraction zone : List Char} (h : r.IsWritten fraction)
    (hzone : ∀ c ∈ zone, Text.isBlank c = false) :
    ∀ c ∈ r.clockText fraction ++ zone, Text.isBlank c = false := by
  have hfraction : ∀ c ∈ fractionText fraction, Text.isBlank c = false := by
    unfold fractionText
    split
    · nofun
    · exact List.forall_mem_cons.2 ⟨rfl, fun c hc => isBlank_of_isDigit (h.isDigit c hc)⟩
  have hcolon : Text.isBlank ':' = false := rfl
  simp only [Reading.clockText, List.forall_mem_append, List.forall_mem_cons]
  exact ⟨⟨isBlank_paddedDigits _ _, hcolon, isBlank_paddedDigits _ _, hcolon,
    isBlank_paddedDigits _ _, hfraction⟩, hzone⟩

theorem isBlank_offset (o : Offset) : ∀ c ∈ o.text, Text.isBlank c = false := by
  have hsign : Text.isBlank (if o.negative then '-' else '+') = false := by split <;> rfl
  have hcolon : Text.isBlank ':' = false := rfl
  simp only [Offset.text, List.forall_mem_append, List.forall_mem_cons]
  exact ⟨hsign, isBlank_paddedDigits _ _, hcolon, isBlank_paddedDigits _ _⟩

/-- A spelling has no blanks at its ends. -/
theorem trim_spell {r : Reading} {fraction zone : List Char} (h : r.IsWritten fraction)
    (hzone : ∀ c ∈ zone, Text.isBlank c = false) (separator : Char) :
    Text.trim (r.spell fraction separator zone) = r.spell fraction separator zone := by
  have hstart : Text.trimStart (r.spell fraction separator zone) =
      r.spell fraction separator zone := by
    rw [Reading.spell_eq]
    exact trimStart_paddedDigits (by decide) _
  have hne : r.clockText fraction ++ zone ≠ [] := by simp [Reading.clockText]
  rw [Text.trim, hstart, Reading.spell, List.append_cons]
  exact dropEndWhile_append hne (isBlank_clockText h hzone) _

/-- The text is not taken for a number, and denotes an instant. -/
def ReadsAs (text : List Char) (i : Instant) : Prop :=
  Double.ofChars? (Text.trim text) = none ∧ read? text = some i.toDouble

theorem readsAs_spell {r : Reading} {fraction zone : List Char} {separator : Char} {i : Instant}
    (h : r.IsWritten fraction) (hzone : ∀ c ∈ zone, Text.isBlank c = false)
    (hread : instant? (r.spell fraction separator zone) = some i) :
    ReadsAs (r.spell fraction separator zone) i := by
  have htrim := trim_spell h hzone separator
  have hnumber : Double.ofChars? (r.spell fraction separator zone) = none := by
    obtain ⟨c, ds, heq, -⟩ :=
      exists_paddedDigits_eq r.date.year.toNat (show 0 < 4 by decide)
    rw [Reading.spell_eq]
    exact ofChars?_minus (by rw [heq]; nofun) (Double.isDigit_of_mem_paddedDigits 4 _) _
  refine ⟨by rw [htrim, hnumber], ?_⟩
  rw [read?, htrim, hnumber]
  dsimp only
  rw [hread]
  rfl

/-- The spellings with an offset. -/
def zonedSpellings (r : Reading) (fraction : List Char) (o : Offset) : List (List Char) :=
  [r.spell fraction 'T' o.text, r.spell fraction ' ' o.text]

/-- The spellings in UTC. -/
def utcSpellings (r : Reading) (fraction : List Char) : List (List Char) :=
  [r.spell fraction 'T' ['Z'], r.spell fraction 'T' [], r.spell fraction ' ' []]

/-- All spellings of an instant have one value: those of a reading at an offset, and those of the
reading in UTC, if that is in a year of four digits. -/
theorem read?_spellings {r : Reading} {fraction : List Char} {o : Offset}
    (h : r.IsWritten fraction) (ho : o.IsValid) :
    (∀ text ∈ zonedSpellings r fraction o, ReadsAs text ⟨r.unixSeconds - o.seconds, r.nanos⟩) ∧
      (r.toUtc o.seconds).IsValid ∧
      (r.toUtc o.seconds).unixSeconds = r.unixSeconds - o.seconds ∧
      (1 ≤ (r.toUtc o.seconds).date.year → (r.toUtc o.seconds).date.year ≤ 9999 →
        ∀ text ∈ utcSpellings (r.toUtc o.seconds) fraction,
          ReadsAs text ⟨r.unixSeconds - o.seconds, r.nanos⟩) := by
  have hoffset : o.seconds.natAbs < 86400 := of_decide_eq_true (isOffset_seconds ho)
  have hsame := Reading.unixSeconds_toUtc h.isValid h.second_lt hoffset
  have hT : 'T' = 'T' ∨ 'T' = ' ' := .inl rfl
  have hblank : ' ' = 'T' ∨ ' ' = ' ' := .inr rfl
  refine ⟨?_, h.isValid.toUtc, hsame, fun hfirst hlast => ?_⟩
  · have hzone := zone?_offset ho
    have hzoned {separator : Char} (hseparator : separator = 'T' ∨ separator = ' ') :=
      readsAs_spell h (isBlank_offset o)
        (instant?_zoned h hseparator (endsFraction_offset o) hzone hoffset)
    exact List.forall_mem_cons.2 ⟨hzoned hT, List.forall_mem_singleton.2 (hzoned hblank)⟩
  · have hwritten : (r.toUtc o.seconds).IsWritten fraction :=
      { isValid := h.isValid.toUtc
        second_lt := Reading.second_toUtc_lt
        one_le_year := hfirst
        year_le := hlast
        isDigit := h.isDigit
        length_le := h.length_le
        nanos_eq := h.nanos_eq }
    have hzulu : EndsFraction ['Z'] := by simp [EndsFraction]
    have hz : instant? ((r.toUtc o.seconds).spell fraction 'T' ['Z']) =
        some ⟨(r.toUtc o.seconds).unixSeconds - 0, r.nanos⟩ :=
      instant?_zoned hwritten hT hzulu rfl (by decide)
    have hunzoned {separator : Char} (hseparator : separator = 'T' ∨ separator = ' ') :=
      readsAs_spell hwritten (List.forall_mem_nil _) (instant?_unzoned hwritten hseparator)
    rw [Int.sub_zero] at hz
    rw [← hsame]
    exact List.forall_mem_cons.2 ⟨readsAs_spell hwritten (by simp; rfl) hz,
      List.forall_mem_cons.2 ⟨hunzoned hT, List.forall_mem_singleton.2 (hunzoned hblank)⟩⟩

/-- An hour and a half into the year 2024, two hours east of UTC. -/
def sampleReading : Reading := ⟨⟨2024, 1, 1⟩, 1, 30, 15, 680590000⟩

/-- In UTC it is still the year before. -/
theorem read?_spellings_sample :
    ReadsAs "2024-01-01T01:30:15.68059+02:00".toList ⟨1704065415, 680590000⟩ ∧
      ReadsAs "2023-12-31 23:30:15.68059".toList ⟨1704065415, 680590000⟩ := by
  have hwritten : sampleReading.IsWritten "68059".toList :=
    { isValid := by decide
      second_lt := by decide
      one_le_year := by decide
      year_le := by decide
      isDigit := List.all_eq_true.1 (by decide)
      length_le := by decide
      nanos_eq := by decide }
  obtain ⟨hzoned, -, -, hutc⟩ :=
    read?_spellings (o := ⟨false, 2, 0⟩) hwritten ⟨by decide, by decide⟩
  have hsame : sampleReading.unixSeconds - Offset.seconds ⟨false, 2, 0⟩ = 1704065415 := by decide
  rw [hsame] at hzoned hutc
  exact ⟨hzoned _ (List.mem_cons_self ..), hutc (by decide) (by decide) _ (by decide)⟩

end Timestamp

end LoadReplay
