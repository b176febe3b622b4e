import LoadReplay.Proofs.Url.Query
import Mathlib.Data.List.Basic

/-!
# The bytes that a text stands for

A text in a URL stands for bytes: its own, but for the escapes in it. Resolving escapes never makes
a text longer, and leaves it as long as it is only if there are none (`percentDecode_eq_self`).
Characters that are no digits separate the bytes of a text (`bytesOf_append_cons`), and escaping
more characters does not change what a text stands for (`bytesOf_percentEncode`).
-/

namespace LoadReplay

/-! ## Bytes of texts -/

namespace Utf8

theorem encode_append (cs ds : List Char) : encode (cs ++ ds) = encode cs ++ encode ds :=
  List.flatMap_append

theorem encode_cons (c : Char) (cs : List Char) : encode (c :: cs) = encode [c] ++ encode cs :=
  encode_append [c] cs

theorem encode_injective {s t : List Char} (h : encode s = encode t) : s = t := by
  have hread := decode?_encode s
  rw [h, decode?_encode] at hread
  exact (Option.some.inj hread).symm

/-- All bytes of a character outside ASCII are outside ASCII. -/
theorem le_of_mem_encode {c : Char} (h : 128 ≤ c.toNat) {b : UInt8} (hb : b ∈ encode [c]) :
    128 ≤ b.toNat := by
  have hval : c.val.toNat = c.toNat := rfl
  have hrange := toNat_range c
  rw [encode, List.flatMap_singleton, String.utf8EncodeChar, hval] at hb
  split_ifs at hb
  · omega
  all_goals
    simp only [List.mem_cons, List.not_mem_nil, or_false] at hb
    rcases hb with rfl | rfl | rfl | rfl <;>
      rw [UInt8.toNat_ofNat_of_lt' (show _ < 256 by omega)] <;> omega

/-- No other character has the byte of a character of ASCII. -/
theorem eq_of_mem_encode {c d : Char} (hd : d.toNat < 128)
    (h : UInt8.ofNat d.toNat ∈ encode [c]) : c = d := by
  have hbyte {c : Char} (hc : c.toNat < 128) : (UInt8.ofNat c.toNat).toNat = c.toNat :=
    UInt8.toNat_ofNat_of_lt' (show c.toNat < 256 by omega)
  rcases Nat.lt_or_ge c.toNat 128 with hlt | hge
  · rw [encode_cons_of_ascii hlt, encode, List.flatMap_nil, List.mem_singleton] at h
    have heq := congrArg UInt8.toNat h
    rw [hbyte hd, hbyte hlt] at heq
    exact Char.toNat_inj.1 heq.symm
  · have hbound := le_of_mem_encode hge h
    rw [hbyte hd] at hbound
    omega

end Utf8

namespace Url

/-! ## Escapes among bytes -/

/-- Two digits stand at the beginning. -/
def StartsHex (bs : Bytes) : Prop :=
  ∃ a b tail x y, bs = a :: b :: tail ∧ hexValue? a = some x ∧ hexValue? b = some y

variable {b : UInt8} {bs cs : Bytes}

@[simp] theorem percentDecode_nil : percentDecode [] = [] := by rw [percentDecode]

/-- A byte that does not begin an escape stands for itself. -/
theorem percentDecode_cons_of_not (h : ¬ (b = 37 ∧ StartsHex bs)) :
    percentDecode (b :: bs) = b :: percentDecode bs := by
  by_cases hlong : ∃ a d tail, b = 37 ∧ bs = a :: d :: tail
  · obtain ⟨a, d, tail, rfl, rfl⟩ := hlong
    rw [percentDecode]
    split
    next x y hx hy => exact absurd ⟨rfl, a, d, tail, x, y, rfl, hx, hy⟩ h
    next => rfl
  · exact percentDecode.eq_3 b bs fun a d tail hb hbs => hlong ⟨a, d, tail, hb, hbs⟩

theorem percentDecode_hex {a d : UInt8} {x y : Nat} (ha : hexValue? a = some x)
    (hd : hexValue? d = some y) (tail : Bytes) :
    percentDecode (37 :: a :: d :: tail) = UInt8.ofNat (16 * x + y) :: percentDecode tail := by
  rw [percentDecode, ha, hd]

/-- Escapes are resolved one after the other. -/
theorem percentDecode_induction {motive : Bytes → Prop} (nil : motive [])
    (hex : ∀ a d tail x y, hexValue? a = some x → hexValue? d = some y → motive tail →
      motive (37 :: a :: d :: tail))
    (other : ∀ b bs, ¬ (b = 37 ∧ StartsHex bs) → motive bs → motive (b :: bs)) (bs : Bytes) :
    motive bs := by
  fun_induction percentDecode bs with
  | case1 => exact nil
  | case2 a d tail x y hy hx ih => exact hex a d tail x y hx hy ih
  | case3 a d tail hnot ih =>
    refine other 37 _ (fun ⟨_, a', d', tail', x, y, heq, hx, hy⟩ => ?_) ih
    simp only [List.cons.injEq] at heq
    obtain ⟨rfl, rfl, rfl⟩ := heq
    exact hnot x y hx hy
  | case4 b bs hnot ih =>
    exact other b bs (fun ⟨hb, a, d, tail, _, _, heq, _⟩ => hnot a d tail hb heq) ih

/-- A byte that is no digit separates what is before it from what is behind it. -/
theorem percentDecode_append_cons (hb : hexValue? b = none) (hne : b ≠ 37) (bs cs : Bytes) :
    percentDecode (bs ++ b :: cs) = percentDecode bs ++ b :: percentDecode cs := by
  induction bs using percentDecode_induction with
  | nil =>
    rw [percentDecode_nil]
    exact percentDecode_of_ne hne cs
  | hex a d tail x y hx hy ih =>
    rw [percentDecode_hex hx hy]
    change _ = UInt8.ofNat (16 * x + y) :: (percentDecode tail ++ b :: percentDecode cs)
    rw [← ih]
    exact percentDecode_hex hx hy _
  | other a bs hnot ih =>
    rw [percentDecode_cons_of_not hnot, List.cons_append, List.cons_append, ← ih]
    refine percentDecode_cons_of_not fun ⟨ha, a', d, tail, x, y, heq, hx, hy⟩ => ?_
    rcases bs with _ | ⟨_, _ | ⟨_, bs⟩⟩ <;>
      simp only [List.nil_append, List.cons_append, List.cons.injEq] at heq
    · rw [← heq.1, hb] at hx
      cases hx
    · rw [← heq.2.1, hb] at hy
      cases hy
    · exact hnot ⟨ha, a', d, bs, x, y, by rw [heq.1, heq.2.1], hx, hy⟩

theorem percentDecode_append_of_forall (h : ∀ b ∈ bs, b ≠ 37) (cs : Bytes) :
    percentDecode (bs ++ cs) = bs ++ percentDecode cs := by
  induction bs with
  | nil => rfl
  | cons b bs ih =>
    obtain ⟨hb, hbs⟩ := List.forall_mem_cons.1 h
    rw [List.cons_append, percentDecode_of_ne hb, ih hbs, List.cons_append]

/-- Where there are escapes, fewer bytes are left. -/
theorem percentDecode_eq_or_length_lt (bs : Bytes) :
    percentDecode bs = bs ∨ (percentDecode bs).length < bs.length := by
  induction bs using percentDecode_induction with
  | nil => exact .inl percentDecode_nil
  | hex a d tail x y hx hy ih =>
    right
    rw [percentDecode_hex hx hy]
    rcases ih with heq | hlt
    · rw [heq]
      simp
    · simp only [List.length_cons]
      omega
  | other b bs hnot ih =>
    rw [percentDecode_cons_of_not hnot]
    rcases ih with heq | hlt
    · exact .inl (by rw [heq])
    · right
      simpa using hlt

theorem length_percentDecode_le (bs : Bytes) : (percentDecode bs).length ≤ bs.length := by
  rcases percentDecode_eq_or_length_lt bs with heq | hlt
  · exact Nat.le_of_eq (congrArg List.length heq)
  · exact Nat.le_of_lt hlt

theorem percentDecode_eq_self (h : bs.length ≤ (percentDecode bs).length) : percentDecode bs = bs :=
  (percentDecode_eq_or_length_lt bs).resolve_right (Nat.not_lt.2 h)

/-! ## Escapes in texts -/

/-- The bytes that a text stands for. -/
def bytesOf (cs : List Char) : Bytes := percentDecode (Utf8.encode cs)

variable {c : Char} {text : List Char}

/-- A character of ASCII that is no digit separates what is before it from what is behind it. -/
theorem bytesOf_append_cons (hc : c.toNat < 128) (hdigit : hexValue? (UInt8.ofNat c.toNat) = none)
    (hpercent : UInt8.ofNat c.toNat ≠ 37) (front back : List Char) :
    bytesOf (front ++ c :: back) = bytesOf front ++ UInt8.ofNat c.toNat :: bytesOf back := by
  rw [bytesOf, Utf8.encode_append, Utf8.encode_cons_of_ascii hc]
  exact percentDecode_append_cons hdigit hpercent _ _

theorem bytesOf_append_slash (front back : List Char) :
    bytesOf (front ++ '/' :: back) = bytesOf front ++ 47 :: bytesOf back :=
  bytesOf_append_cons (by decide) (by decide) (by decide) front back

theorem bytesOf_nil : bytesOf [] = [] := percentDecode_nil

theorem bytesOf_cons_slash (cs : List Char) : bytesOf ('/' :: cs) = 47 :: bytesOf cs := by
  have hsplit := bytesOf_append_slash [] cs
  rwa [bytesOf_nil] at hsplit

/-- A character other than the percent sign stands for its bytes. -/
theorem bytesOf_cons (hc : c ≠ '%') (cs : List Char) :
    bytesOf (c :: cs) = Utf8.encode [c] ++ bytesOf cs := by
  rw [bytesOf, Utf8.encode_cons]
  refine percentDecode_append_of_forall (fun b hb => ?_) _
  rintro rfl
  exact hc (Utf8.eq_of_mem_encode (d := '%') (by decide) hb)

/-- Digits at the beginning of the bytes are characters at the beginning of the text. -/
theorem exists_of_startsHex (h : StartsHex (Utf8.encode text)) : ∃ c d cs x y,
    text = c :: d :: cs ∧ c.toNat < 128 ∧ d.toNat < 128 ∧
      hexValue? (UInt8.ofNat c.toNat) = some x ∧ hexValue? (UInt8.ofNat d.toNat) = some y := by
  obtain ⟨a, b, tail, x, y, heq, hx, hy⟩ := h
  have hascii {b : UInt8} {v : Nat} (hv : hexValue? b = some v) : b.toNat < 128 := by
    unfold hexValue? at hv
    dsimp only at hv
    split_ifs at hv <;> omega
  -- the first byte belongs to a character of ASCII, so it is the whole character
  have hfirst {b : UInt8} {v : Nat} {bs : Bytes} {text : List Char}
      (hv : hexValue? b = some v) (heq : Utf8.encode text = b :: bs) :
      ∃ c cs, text = c :: cs ∧ c.toNat < 128 ∧ UInt8.ofNat c.toNat = b ∧ Utf8.encode cs = bs := by
    rcases text with _ | ⟨c, cs⟩
    · cases heq
    have hlt : c.toNat < 128 := by
      by_contra hge
      have hmem : b ∈ Utf8.encode [c] := by
        rw [Utf8.encode_cons] at heq
        cases hbytes : Utf8.encode [c] with
        | nil => cases Utf8.encode_injective (t := []) hbytes
        | cons b' bs' =>
          rw [hbytes, List.cons_append] at heq
          exact (List.cons.inj heq).1 ▸ List.mem_cons_self ..
      have := Utf8.le_of_mem_encode (Nat.not_lt.1 hge) hmem
      have := hascii hv
      omega
    rw [Utf8.encode_cons_of_ascii hlt] at heq
    obtain ⟨hb, hbs⟩ := List.cons.inj heq
    exact ⟨c, cs, rfl, hlt, hb, hbs⟩
  obtain ⟨c, rest, rfl, hc, rfl, hrest⟩ := hfirst hx heq
  obtain ⟨d, cs, rfl, hd, rfl, -⟩ := hfirst hy hrest
  exact ⟨c, d, cs, x, y, rfl, hc, hd, hx, hy⟩

/-- What is escaped are neither percent signs nor digits. -/
def KeepsEscapes (isEscaped : Char → Bool) : Prop :=
  ∀ n < 128, (n = 37 ∨ (hexValue? (UInt8.ofNat n)).isSome) → isEscaped (Char.ofNat n) = false

theorem keepsEscapes_path : KeepsEscapes escapedInPath := by
  unfold KeepsEscapes
  decide

variable {isEscaped : Char → Bool}

theorem KeepsEscapes.of_hex (h : KeepsEscapes isEscaped) (hc : c.toNat < 128) {x : Nat}
    (hx : hexValue? (UInt8.ofNat c.toNat) = some x) : isEscaped c = false := by
  have hkept := h c.toNat hc (.inr (by rw [hx]; rfl))
  rwa [Char.ofNat_toNat] at hkept

theorem percentEncode_cons (c : Char) (cs : List Char) : percentEncode isEscaped (c :: cs) =
    (if isEscaped c then escapeChar c else [c]) ++ percentEncode isEscaped cs :=
  List.flatMap_cons

theorem percentEncode_cons_of_not (hc : isEscaped c = false) (cs : List Char) :
    percentEncode isEscaped (c :: cs) = c :: percentEncode isEscaped cs := by
  rw [percentEncode_cons, hc]
  rfl

/-- An escaped character stands for its bytes. -/
theorem bytesOf_escapeChar_append (c : Char) (cs : List Char) :
    bytesOf (escapeChar c ++ cs) = Utf8.encode [c] ++ bytesOf cs := by
  rw [escapeChar]
  induction Utf8.encode [c] with
  | nil => rfl
  | cons b bs ih =>
    rw [List.flatMap_cons, List.append_assoc, List.cons_append, ← ih]
    exact percentDecode_escapeByte b _

theorem exists_escapeChar_eq (c : Char) : ∃ digits, escapeChar c = '%' :: digits := by
  rw [escapeChar]
  cases hbytes : Utf8.encode [c] with
  | nil => cases Utf8.encode_injective (t := []) hbytes
  | cons b bs => exact ⟨_, rfl⟩

/-- Where no digits stand at the beginning, escaping characters leaves none there. -/
theorem not_startsHex_percentEncode (h : ¬ StartsHex (Utf8.encode text)) :
    ¬ StartsHex (Utf8.encode (percentEncode isEscaped text)) := by
  intro hstarts
  obtain ⟨c, d, cs, x, y, heq, hc, hd, hx, hy⟩ := exists_of_startsHex hstarts
  -- a digit is no part of an escape, which begins with a percent sign
  have hkept {c : Char} {cs text : List Char} {x : Nat}
      (hx : hexValue? (UInt8.ofNat c.toNat) = some x)
      (heq : percentEncode isEscaped text = c :: cs) :
      ∃ rest, text = c :: rest ∧ percentEncode isEscaped rest = cs := by
    rcases text with _ | ⟨e, rest⟩
    · cases heq
    rw [percentEncode_cons] at heq
    split_ifs at heq
    · obtain ⟨digits, hescape⟩ := exists_escapeChar_eq e
      rw [hescape, List.cons_append] at heq
      obtain rfl := (List.cons.inj heq).1
      have hnone : hexValue? (UInt8.ofNat '%'.toNat) = none := by decide
      rw [hnone] at hx
      cases hx
    · obtain ⟨rfl, hrest⟩ := List.cons.inj heq
      exact ⟨rest, rfl, hrest⟩
  obtain ⟨rest, rfl, hrest⟩ := hkept hx heq
  obtain ⟨rest, rfl, -⟩ := hkept hy hrest
  refine h ⟨_, _, Utf8.encode rest, x, y, ?_, hx, hy⟩
  rw [Utf8.encode_cons_of_ascii hc, Utf8.encode_cons_of_ascii hd]

/-- Two digits behind a percent sign stand for one byte. -/
theorem bytesOf_hex {d : Char} {x y : Nat} (hc : c.toNat < 128) (hd : d.toNat < 128)
    (hx : hexValue? (UInt8.ofNat c.toNat) = some x) (hy : hexValue? (UInt8.ofNat d.toNat) = some y)
    (cs : List Char) : bytesOf ('%' :: c :: d :: cs) = UInt8.ofNat (16 * x + y) :: bytesOf cs := by
  rw [bytesOf, Utf8.encode_cons_of_ascii (by decide), Utf8.encode_cons_of_ascii hc,
    Utf8.encode_cons_of_ascii hd]
  exact percentDecode_hex hx hy _

theorem bytesOf_percent (h : ¬ StartsHex (Utf8.encode text)) :
    bytesOf ('%' :: text) = 37 :: bytesOf text := by
  rw [bytesOf, Utf8.encode_cons_of_ascii (by decide)]
  exact percentDecode_cons_of_not fun hstarts => h hstarts.2

/-- Escaping characters does not change what a text stands for. -/
theorem bytesOf_percentEncode (h : KeepsEscapes isEscaped) (text : List Char) :
    bytesOf (percentEncode isEscaped text) = bytesOf text := by
  induction hlength : text.length using Nat.strongRecOn generalizing text with
  | ind n ih =>
    subst hlength
    rcases text with _ | ⟨c, cs⟩
    · rfl
    have hrest := ih cs.length (Nat.lt_succ_self _) cs rfl
    by_cases hpercent : c = '%'
    · subst hpercent
      have hkept : isEscaped '%' = false := h 37 (by decide) (.inl rfl)
      rw [percentEncode_cons_of_not hkept]
      by_cases hstarts : StartsHex (Utf8.encode cs)
      · -- an escape is kept as a whole
        obtain ⟨c, d, tail, x, y, rfl, hc, hd, hx, hy⟩ := exists_of_startsHex hstarts
        have htail := ih tail.length (by simp only [List.length_cons]; omega) tail rfl
        rw [percentEncode_cons_of_not (h.of_hex hc hx), percentEncode_cons_of_not (h.of_hex hd hy),
          bytesOf_hex hc hd hx hy, bytesOf_hex hc hd hx hy, htail]
      · rw [bytesOf_percent hstarts, bytesOf_percent (not_startsHex_percentEncode hstarts), hrest]
    · rw [percentEncode_cons, bytesOf_cons hpercent, ← hrest]
      split
      · exact bytesOf_escapeChar_append c _
      · exact bytesOf_cons hpercent _

end Url

end LoadReplay
