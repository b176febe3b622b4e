/-!
# UTF-8

`encode` writes text as bytes, `decode?` reads bytes that are well-formed UTF-8, and
`decodeLossy` reads any bytes, one replacement character standing for each longest start of a
character that does not go on as it should.
-/

namespace LoadReplay

/-- A sequence of bytes. -/
abbrev Bytes := List UInt8

namespace Utf8

/-- The bytes of a text. -/
def encode (cs : List Char) : Bytes := cs.flatMap String.utf8EncodeChar

/-- How many bytes follow a first byte, the bits it contributes, and the range of the byte after
it; `none` for a byte that starts no character. -/
def lead? (b : Nat) : Option (Nat × Nat × Nat × Nat) :=
  if b < 0x80 then some (0, b, 0, 0)
  else if 0xC2 ≤ b ∧ b ≤ 0xDF then some (1, b - 0xC0, 0x80, 0xBF)
  else if b = 0xE0 then some (2, 0, 0xA0, 0xBF)
  else if b = 0xED then some (2, 0xD, 0x80, 0x9F)
  else if 0xE1 ≤ b ∧ b ≤ 0xEF then some (2, b - 0xE0, 0x80, 0xBF)
  else if b = 0xF0 then some (3, 0, 0x90, 0xBF)
  else if b = 0xF4 then some (3, 4, 0x80, 0x8F)
  else if 0xF1 ≤ b ∧ b ≤ 0xF3 then some (3, b - 0xF0, 0x80, 0xBF)
  else none

/-- The code point made of `count` more bytes, the first of them between `low` and `high`, and the
bytes after it; the bytes from the first unfit one when the character breaks off. -/
def follow : Nat → Nat → Nat → Nat → Bytes → Option Nat × Bytes
  | 0, value, _, _, bs => (some value, bs)
  | _ + 1, _, _, _, [] => (none, [])
  | count + 1, value, low, high, b :: bs =>
    if low ≤ b.toNat ∧ b.toNat ≤ high then
      follow count (value * 64 + (b.toNat - 0x80)) 0x80 0xBF bs
    else (none, b :: bs)

theorem length_follow_le (count value low high : Nat) (bs : Bytes) :
    (follow count value low high bs).2.length ≤ bs.length := by
  fun_induction follow count value low high bs <;> simp_all
  omega

/-- The first character after a byte, `none` if it is malformed, and the bytes after it. -/
def next (b : UInt8) (bs : Bytes) : Option Char × Bytes :=
  match lead? b.toNat with
  | none => (none, bs)
  | some (count, value, low, high) =>
    ((follow count value low high bs).1.map Char.ofNat, (follow count value low high bs).2)

theorem length_next_le (b : UInt8) (bs : Bytes) : (next b bs).2.length ≤ bs.length := by
  unfold next
  split
  · exact Nat.le_refl _
  · exact length_follow_le ..

/-- The characters of a byte sequence, `none` for each malformed part. -/
def chars : Bytes → List (Option Char)
  | [] => []
  | b :: bs =>
    have := length_next_le b bs
    (next b bs).1 :: chars (next b bs).2
termination_by bs => bs.length

/-- The text of well-formed bytes. -/
def decode? (bs : Bytes) : Option (List Char) :=
  (chars bs).foldr (fun c text => c.bind fun c => text.map (c :: ·)) (some [])

/-- The text of any bytes. -/
def decodeLossy (bs : Bytes) : List Char := (chars bs).map (·.getD '\ufffd')

end Utf8

end LoadReplay
