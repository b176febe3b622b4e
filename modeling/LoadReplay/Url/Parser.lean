import LoadReplay.Url.Basic

/-!
# Reading URLs

`Reference.ofText` reads an absolute URL by the rules of web browsers: blanks and controls at the
ends and line breaks anywhere are skipped, backslashes count as slashes, characters that may not
stand in a part are escaped, and the segments `.` and `..` of a path are resolved. Of URLs of other
schemes it keeps the scheme only. `Url.join` reads a reference relative to a URL.
-/

namespace LoadReplay

/-- What a text that is an absolute URL leads to. -/
inductive Reference where
  | web (url : Url)
  | other (scheme : String)
  deriving Repr, DecidableEq

namespace Url

/-! ## Parts of the text -/

/-- Without controls and blanks at the ends and without tabs and line breaks. -/
def cleaned (text : String) : List Char :=
  let isEnd (c : Char) : Bool := decide (c.toNat ≤ 0x20)
  let inner := ((text.toList.dropWhile isEnd).reverse.dropWhile isEnd).reverse
  inner.filter fun c => !(c == '\t' || c == '\n' || c == '\r')

/-- A scheme in lower case and the text behind its colon. -/
def splitScheme? (cs : List Char) : Option (List Char × List Char) :=
  let isPart (c : Char) : Bool := c.isAlphanum || c == '+' || c == '-' || c == '.'
  match cs, cs.dropWhile isPart with
  | first :: _, ':' :: rest =>
    if first.isAlpha then some ((cs.takeWhile isPart).map Char.toLower, rest) else none
  | _, _ => none

/-- Whether a character counts as a slash. -/
def isSlash (c : Char) : Bool := c == '/' || c == '\\'

/-- Whether a character ends the user name, the host and the port. -/
def endsAuthority (web : Bool) (c : Char) : Bool :=
  c == '/' || c == '?' || c == '#' || (web && c == '\\')

/-- The user name, the password, and the text behind the last `@` of the authority. -/
def splitUserinfo (web : Bool) (cs : List Char) :
    Except UrlFault (String × String × List Char) :=
  let authority := cs.takeWhile fun c => !endsAuthority web c
  let host := (authority.reverse.takeWhile (· != '@')).reverse
  if host.length = authority.length then .ok ("", "", cs)
  else
    let userinfo := authority.take (authority.length - host.length - 1)
    let rest := cs.drop (userinfo.length + 1)
    if userinfo.isEmpty && rest.head?.any (endsAuthority web) then .error .emptyHost
    else
      let encode (part : List Char) := String.ofList (percentEncode escapedInUserinfo part)
      match Text.splitOnce? ':' userinfo with
      | some (name, password) => .ok (encode name, encode password, rest)
      | none => .ok (encode userinfo, "", rest)

/-- The text of a host, which ends at a colon outside brackets, and the text behind it. -/
def splitHost (web : Bool) (bracketed : Bool) : List Char → List Char × List Char
  | [] => ([], [])
  | c :: cs =>
    if endsAuthority web c || (c == ':' && !bracketed) then ([], c :: cs)
    else
      let inside := if c = '[' then true else if c = ']' then false else bracketed
      (c :: (splitHost web inside cs).1, (splitHost web inside cs).2)

/-- A port behind its colon and the text behind it; no digits are no port. -/
def splitPort (cs : List Char) : Except UrlFault (Option Nat × List Char) :=
  let digits := cs.takeWhile Char.isDigit
  let rest := cs.dropWhile Char.isDigit
  let port := digits.foldl (fun n c => 10 * n + (c.toNat - '0'.toNat)) 0
  if 65535 < port then .error .port
  else if rest.head?.any fun c => !(isSlash c || c == '?' || c == '#') then .error .port
  else .ok (if digits.isEmpty then none else some port, rest)

/-- The port behind a host, if there is one. -/
def optionalPort : List Char → Except UrlFault (Option Nat × List Char)
  | ':' :: cs => splitPort cs
  | cs => .ok (none, cs)

/-! ## Paths -/

/-- The ways to write a segment that stays where it is. -/
def isHere (segment : String) : Bool := segment == "." || segment.map Char.toLower == "%2e"

/-- The ways to write a segment that goes up. -/
def isUp (segment : String) : Bool :=
  ["..", "%2e.", ".%2e", "%2e%2e"].contains (segment.map Char.toLower)

/-- A letter followed by a colon or a bar, which cannot be left by going up. -/
def isDrive (segment : String) : Bool :=
  match segment.toList with
  | [letter, mark] => letter.isAlpha && (mark == ':' || mark == '|')
  | _ => false

/-- The segments without the last one. -/
def goUp (segments : List String) : List String :=
  match segments.getLast? with
  | some last => if isDrive last then segments else segments.dropLast
  | none => []

/-- Resolves segments one after the other below the segments `base`. -/
def resolve (base : List String) : List (List Char) → List String
  | [] => base ++ [""]
  | raw :: rest =>
    let segment := String.ofList (percentEncode escapedInPath raw)
    let dots := isHere segment || isUp segment
    let base := if isUp segment then goUp base else base
    match rest with
    | [] => base ++ [if dots then "" else segment]
    | _ :: _ => resolve (if dots then base else base ++ [segment]) rest

/-- The segments of a path below `base`, and the text behind the path. -/
def splitPath (base : List String) (cs : List Char) : List String × List Char :=
  let isEnd (c : Char) : Bool := c == '?' || c == '#'
  let slashes := (cs.takeWhile fun c => !isEnd c).map fun c => if c = '\\' then '/' else c
  (resolve base (Text.splitOn '/' slashes), cs.dropWhile fun c => !isEnd c)

/-- A fragment behind its mark. -/
def fragmentOf : List Char → Option String
  | '#' :: cs => some (String.ofList (percentEncode escapedInFragment cs))
  | _ => none

/-- A query and a fragment behind their marks. -/
def queryAndFragment : List Char → Option String × Option String
  | '?' :: cs =>
    let query := cs.takeWhile (· != '#')
    (some (String.ofList (percentEncode escapedInQuery query)),
      fragmentOf (cs.dropWhile (· != '#')))
  | cs => (none, fragmentOf cs)

/-! ## Whole URLs -/

/-- A URL from the text behind the slashes of its scheme. -/
def ofAuthority (scheme : Scheme) (cs : List Char) : Except UrlFault Url := do
  let (username, password, rest) ← splitUserinfo true cs
  let (host, rest) := splitHost true false rest
  if host.isEmpty then .error .emptyHost
  let host ← Host.ofText host
  let (port, rest) ← optionalPort rest
  let rest := match rest with
    | c :: cs => if isSlash c then cs else c :: cs
    | [] => []
  let (path, rest) := splitPath [] rest
  let (query, fragment) := queryAndFragment rest
  .ok
    { scheme, username, password, host
      port := if port = some scheme.usualPort then none else port
      path, query, fragment }

/-- Why the text behind the slashes of a scheme is no URL, where hosts are any names. -/
def opaqueFault? (cs : List Char) : Option UrlFault :=
  match splitUserinfo false cs with
  | .error fault => some fault
  | .ok (username, password, rest) =>
    let (host, rest) := splitHost false false rest
    let named := username ≠ "" ∨ password ≠ ""
    match Host.opaqueFault? host, optionalPort rest with
    | some fault, _ => some fault
    | none, .error fault => if host.isEmpty then some .emptyHost else some fault
    | none, .ok _ =>
      if host.isEmpty && (decide named || rest.head? == some ':') then some .emptyHost else none

/-- Why the text behind the slashes of a scheme is no URL, where hosts are domain names. -/
def domainFault? (cs : List Char) : Option UrlFault :=
  match ofAuthority .http cs with
  | .ok _ => none
  | .error fault => some fault

/-- Why the text behind the colon of a file URL is no URL. -/
def fileFault? : List Char → Option UrlFault
  | a :: b :: cs =>
    if isSlash a && isSlash b then
      let host := cs.takeWhile fun c => !endsAuthority true c
      if host.isEmpty || isDrive (String.ofList host) then none
      else
        match Host.ofText host with
        | .ok _ => none
        | .error fault => some fault
    else none
  | _ => none

/-- The URL or the other reference in the text behind the colon of a scheme. -/
def ofScheme (scheme : String) (cs : List Char) : Except UrlFault Reference :=
  let other (fault? : Option UrlFault) : Except UrlFault Reference :=
    match fault? with
    | some fault => .error fault
    | none => .ok (.other scheme)
  match scheme with
  | "http" => (ofAuthority .http (cs.dropWhile isSlash)).map .web
  | "https" => (ofAuthority .https (cs.dropWhile isSlash)).map .web
  | "ws" | "wss" | "ftp" => other (domainFault? (cs.dropWhile isSlash))
  | "file" => other (fileFault? cs)
  | _ =>
    match cs with
    | '/' :: '/' :: cs => other (opaqueFault? cs)
    | _ => other none

/-! ## References relative to a URL -/

/-- The URL that characters without a scheme lead to from a URL. -/
def joinRelative (base : Url) : List Char → Except UrlFault Url
  | [] => .ok { base with fragment := none }
  | '#' :: cs => .ok { base with fragment := fragmentOf ('#' :: cs) }
  | '?' :: cs =>
    let (query, fragment) := queryAndFragment ('?' :: cs)
    .ok { base with query, fragment }
  | a :: cs =>
    if isSlash a && cs.head?.any isSlash then
      if a = '/' ∧ cs.head? = some '/' then ofAuthority base.scheme (cs.drop 1)
      else ofAuthority base.scheme ((a :: cs).dropWhile isSlash)
    else
      let (path, rest) :=
        if isSlash a then splitPath [] cs else splitPath base.path.dropLast (a :: cs)
      let (query, fragment) := queryAndFragment rest
      .ok { base with path, query, fragment }

/-- The URL of a web server that a reference leads to from a URL. -/
def join (base : Url) (reference : String) : Except UrlFault Reference :=
  let cs := cleaned reference
  match splitScheme? cs with
  | some (scheme, rest) =>
    let name := String.ofList scheme
    let slashes := (rest.takeWhile isSlash).length
    if name = base.scheme.text ∧ slashes < 2 then (joinRelative base rest).map .web
    else ofScheme name rest
  | none => (joinRelative base cs).map .web

end Url

/-- Reads an absolute URL. -/
def Reference.ofText (text : String) : Except UrlFault Reference :=
  let cs := Url.cleaned text
  match Url.splitScheme? cs with
  | some (scheme, rest) => Url.ofScheme (String.ofList scheme) rest
  | none => .error .noBase

end LoadReplay
