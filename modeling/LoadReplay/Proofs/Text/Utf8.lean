import LoadReplay.Text.Utf8
import Mathlib.Tactic.SplitIfs

/-!
# Text that was written as UTF-8

The first byte of a character announces how many follow it, and bounds the second one so that no
character can be written in more bytes than it needs. The bytes of a text are read back as the text
(`decode?_encode`).
-/

namespace LoadReplay.Utf8

/-! ## The bytes of a character -/

/-- A byte with six more bits of a character is followed. -/
theorem follow_cons {count value low high bits : Nat} (hbits : bits < 64) (hlow : low ≤ bits + 128)
    (hhigh : bits + 128 ≤ high) (bs : Bytes) :
    follow (count + 1) value low high (UInt8.ofNat (bits + 128) :: bs) =
      follow count (value * 64 + bits) 0x80 0xBF bs := by
  have hbyte : bits + 128 < 256 := by omega
  rw [follow, UInt8.toNat_ofNat_of_lt' hbyte, if_pos ⟨hlow, hhigh⟩, Nat.add_sub_cancel]

theorem lead?_one : ∀ bits < 128, lead? (UInt8.ofNat bits).toNat = some (0, bits, 0, 0) := by
  decide

theorem lead?_two : ∀ bits < 32, bits < 2 ∨
    lead? (UInt8.ofNat (bits + 192)).toNat = some (1, bits, 0x80, 0xBF) := by
  decide

theorem lead?_three : ∀ bits < 16, lead? (UInt8.ofNat (bits + 224)).toNat =
    some (2, bits, if bits = 0 then 0xA0 else 0x80, if bits = 13 then 0x9F else 0xBF) := by
  decide

theorem lead?_four : ∀ bits < 5, lead? (UInt8.ofNat (bits + 240)).toNat =
    some (3, bits, if bits = 0 then 0x90 else 0x80, if bits = 4 then 0x8F else 0xBF) := by
  decide

/-- The numbers of characters: no surrogate is among them. -/
theorem toNat_range (c : Char) : c.toNat < 0xD800 ∨ 0xDFFF < c.toNat ∧ c.toNat < 0x110000 :=
  c.valid

/-- A character is the first one that is read from its bytes. -/
theorem next_encodeChar (c : Char) (bs : Bytes) : ∃ b tail,
    String.utf8EncodeChar c ++ bs = b :: tail ∧ next b tail = (some c, bs) := by
  have hrange := toNat_range c
  have hread {b : UInt8} {tail : Bytes} {n count value low high : Nat} (hn : n = c.toNat)
      (hlead : lead? b.toNat = some (count, value, low, high))
      (hfollow : follow count value low high tail = (some n, bs)) :
      next b tail = (some c, bs) := by
    simp only [next, hlead, hfollow, hn, Option.map_some, Char.ofNat_toNat]
  have hval : c.val.toNat = c.toNat := rfl
  rw [String.utf8EncodeChar, hval]
  split_ifs with hone htwo hthree
  · exact ⟨_, _, rfl, hread rfl (lead?_one _ (by omega)) rfl⟩
  · have hlead := (lead?_two (c.toNat / 64 % 32) (by omega)).resolve_left (by omega)
    have hbits : c.toNat / 64 % 32 * 64 + c.toNat % 64 = c.toNat := by omega
    exact ⟨_, _, rfl, hread hbits hlead (follow_cons (by omega) (by omega) (by omega) bs)⟩
  · have hlead := lead?_three (c.toNat / 4096 % 16) (by omega)
    have hbits : (c.toNat / 4096 % 16 * 64 + c.toNat / 64 % 64) * 64 + c.toNat % 64 =
        c.toNat := by omega
    refine ⟨_, _, rfl, hread hbits hlead ((follow_cons (by omega) ?_ ?_ _).trans
      (follow_cons (by omega) (by omega) (by omega) bs))⟩
    · split_ifs <;> omega
    · split_ifs <;> omega
  · have hlead := lead?_four (c.toNat / 262144 % 8) (by omega)
    have hbits : ((c.toNat / 262144 % 8 * 64 + c.toNat / 4096 % 64) * 64 + c.toNat / 64 % 64) * 64 +
        c.toNat % 64 = c.toNat := by omega
    refine ⟨_, _, rfl, hread hbits hlead ((follow_cons (by omega) ?_ ?_ _).trans
      ((follow_cons (by omega) (by omega) (by omega) _).trans
        (follow_cons (by omega) (by omega) (by omega) bs)))⟩
    · split_ifs <;> omega
    · split_ifs <;> omega

/-! ## The bytes of a text -/

theorem chars_encode (cs : List Char) : chars (encode cs) = cs.map some := by
  induction cs with
  | nil => simp [encode, chars]
  | cons c cs ih =>
    obtain ⟨b, tail, hbytes, hnext⟩ := next_encodeChar c (encode cs)
    have hcons : encode (c :: cs) = b :: tail := (List.flatMap_cons).trans hbytes
    rw [hcons, chars, hnext, ih, List.map_cons]

/-- A text is what its bytes are read as. -/
theorem decode?_encode (cs : List Char) : decode? (encode cs) = some cs := by
  rw [decode?, chars_encode, List.foldr_map]
  induction cs with
  | nil => rfl
  | cons c cs ih => rw [List.foldr_cons, ih]; rfl

theorem decodeLossy_encode (cs : List Char) : decodeLossy (encode cs) = cs := by
  rw [decodeLossy, chars_encode, List.map_map]
  exact List.map_id cs

/-- A character of ASCII is one byte. -/
theorem encode_cons_of_ascii {c : Char} (h : c.toNat < 128) (cs : List Char) :
    encode (c :: cs) = UInt8.ofNat c.toNat :: encode cs := by
  have hval : c.val.toNat = c.toNat := rfl
  rw [encode, List.flatMap_cons, String.utf8EncodeChar, hval, if_pos (by omega),
    List.singleton_append, encode]

end LoadReplay.Utf8
