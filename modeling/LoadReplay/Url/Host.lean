import LoadReplay.Url.Domain
import LoadReplay.Text.Decimal

/-!
# Hosts

A host is a domain name, an IPv4 address or an IPv6 address. A name whose last label is a number is
an IPv4 address, of which one to four parts may be written, in decimal, octal or hexadecimal; an
IPv6 address stands in brackets and is written with its first longest run of zeros left out.
-/

namespace LoadReplay

/-- Why a text is no URL. -/
inductive UrlFault where
  | noBase
  | emptyHost
  | domainName
  | port
  | ipv4
  | ipv6
  | hostCharacter
  deriving Repr, DecidableEq

/-- The text shown for a fault. -/
def UrlFault.message : UrlFault → String
  | noBase => "relative URL without a base"
  | emptyHost => "empty host"
  | domainName => "invalid international domain name"
  | port => "invalid port number"
  | ipv4 => "invalid IPv4 address"
  | ipv6 => "invalid IPv6 address"
  | hostCharacter => "invalid domain character"

namespace Url

/-- Where a URL leads. -/
inductive Host where
  | domain (name : String)
  | ipv4 (address : Nat)
  | ipv6 (pieces : List Nat)
  deriving Repr, DecidableEq

/-! ## IPv4 -/

namespace Ipv4

/-- The value of a digit in a base of at most 16. -/
def digit? (base : Nat) (c : Char) : Option Nat :=
  match hexValue? (UInt8.ofNat c.toNat) with
  | some v => if c.toNat < 0x80 ∧ v < base then some v else none
  | none => none

/-- The number that digits of a base denote; no digits denote zero. -/
def inBase? (base : Nat) (cs : List Char) : Option Nat :=
  cs.foldlM (fun n c => (digit? base c).map fun v => base * n + v) 0

/-- A part of an address: hexadecimal behind `0x`, octal behind `0`, decimal otherwise. -/
def part? : List Char → Option Nat
  | [] => none
  | '0' :: 'x' :: cs => inBase? 16 cs
  | '0' :: 'X' :: cs => inBase? 16 cs
  | '0' :: c :: cs => inBase? 8 (c :: cs)
  | cs => inBase? 10 cs

/-- The labels of a name without an empty one at the end. -/
def labels (name : List Char) : List (List Char) :=
  let ls := Text.splitOn '.' name
  if ls.getLast? = some [] then ls.dropLast else ls

/-- Whether the last label of a name makes it an address. -/
def endsInNumber (name : List Char) : Bool :=
  match (labels name).getLast? with
  | none => false
  | some [] => false
  | some last => last.all Char.isDigit || (part? last).isSome

/-- The address whose last part fills all the bytes that the parts before it leave. -/
def ofParts? (parts : List Nat) : Option Nat :=
  match parts.getLast? with
  | none => none
  | some last =>
    let front := parts.dropLast
    if 3 < front.length ∨ front.any (255 < ·) ∨ 1 <<< (8 * (4 - front.length)) ≤ last then none
    else some (front.zipIdx.foldl (fun n (part, i) => n + (part <<< (8 * (3 - i)))) last)

/-- The address that a name denotes. -/
def ofName? (name : List Char) : Option Nat := ((labels name).mapM part?).bind ofParts?

/-- The four bytes of an address. -/
def text (address : Nat) : String :=
  ".".intercalate <| [3, 2, 1, 0].map fun i => Text.ofNat ((address >>> (8 * i)) % 256)

end Ipv4

/-! ## IPv6 -/

namespace Ipv6

/-- Between one and four hexadecimal digits. -/
def piece? (cs : List Char) : Option Nat :=
  if cs.isEmpty || 4 < cs.length then none else Ipv4.inBase? 16 cs

/-- A byte in decimal without zeros in front. -/
def byte? (cs : List Char) : Option Nat :=
  if cs.isEmpty || (cs.head? == some '0' && 1 < cs.length) || 3 < cs.length then none
  else
    match Ipv4.inBase? 10 cs with
    | some n => if n < 256 then some n else none
    | none => none

/-- Pieces separated by colons, of which the last may be two written as an IPv4 address. -/
def pieces? (cs : List Char) : Option (List Nat) :=
  if cs.isEmpty then some []
  else
    let parts := Text.splitOn ':' cs
    match parts.getLast? with
    | none => none
    | some last =>
      if last.contains '.' then do
        let front ← parts.dropLast.mapM piece?
        match ← (Text.splitOn '.' last).mapM byte? with
        | [a, b, c, d] => some (front ++ [256 * a + b, 256 * c + d])
        | _ => none
      else parts.mapM piece?

/-- The text before the first `::` and the text after it. -/
def splitGap? : List Char → Option (List Char × List Char)
  | ':' :: ':' :: cs => some ([], cs)
  | c :: cs => (splitGap? cs).map fun (front, back) => (c :: front, back)
  | [] => none

/-- The eight pieces of an address; one `::` stands for the zeros that are missing. -/
def ofText? (cs : List Char) : Option (List Nat) :=
  match splitGap? cs with
  | none => (pieces? cs).bind fun ps => if ps.length = 8 then some ps else none
  | some (front, back) => do
    if front.contains '.' then none
    else
      let front ← pieces? front
      let back ← pieces? back
      if front.length + back.length < 8 then
        some (front ++ List.replicate (8 - front.length - back.length) 0 ++ back)
      else none

/-- The length of the run of zeros at the start. -/
def zeros (ps : List Nat) : Nat := (ps.takeWhile (· == 0)).length

/-- The start and the length of the first longest run of zeros, if there is one of at least two. -/
def longestGap? (ps : List Nat) : Option (Nat × Nat) :=
  let runs := (List.range ps.length).map fun i => (i, zeros (ps.drop i))
  let longest := (runs.map (·.2)).foldl max 0
  if longest < 2 then none else runs.find? (·.2 == longest)

/-- Pieces in hexadecimal between colons. -/
def joined (ps : List Nat) : String :=
  ":".intercalate (ps.map fun p => String.ofList (Nat.toDigits 16 p))

/-- The address in writing. -/
def text (ps : List Nat) : String :=
  match longestGap? ps with
  | none => joined ps
  | some (start, length) => joined (ps.take start) ++ "::" ++ joined (ps.drop (start + length))

end Ipv6

/-! ## Any host -/

namespace Host

/-- The host in a text as it stands in a URL whose hosts are domain names. -/
def ofText (cs : List Char) : Except UrlFault Host :=
  match cs with
  | '[' :: rest =>
    if rest.getLast? = some ']' then
      match Ipv6.ofText? rest.dropLast with
      | some ps => .ok (.ipv6 ps)
      | none => .error .ipv6
    else .error .ipv6
  | cs =>
    match (Utf8.decode? (percentDecode (Utf8.encode cs))).bind Domain.toAscii? with
    | none => .error .domainName
    | some [] => .error .emptyHost
    | some name =>
      if Ipv4.endsInNumber name then
        match Ipv4.ofName? name with
        | some address => .ok (.ipv4 address)
        | none => .error .ipv4
      else .ok (.domain (String.ofList name))

/-- Whether a host of another scheme may hold a character. -/
def isOpaque (c : Char) : Bool :=
  !(['\x00', '\t', '\n', '\r', ' ', '#', '/', ':', '<', '>', '?', '@', '[', '\\', ']', '^',
    '|'].contains c)

/-- Why a text cannot stand as the host of a scheme whose hosts are any names. -/
def opaqueFault? (cs : List Char) : Option UrlFault :=
  match cs with
  | '[' :: rest =>
    if rest.getLast? = some ']' ∧ (Ipv6.ofText? rest.dropLast).isSome then none else some .ipv6
  | cs => if cs.all isOpaque then none else some .hostCharacter

/-- The host in writing. -/
def text : Host → String
  | domain name => name
  | ipv4 address => Ipv4.text address
  | ipv6 pieces => "[" ++ Ipv6.text pieces ++ "]"

end Host

end Url

end LoadReplay
