import LoadReplay.Url.Host
import LoadReplay.Url.Query

/-!
# URLs

The URLs of web servers: a scheme, an optional user name and password, a host, a port unless it is
the usual one of the scheme, a path of segments, and an optional query and fragment. The parts are
kept as they are written, with their escapes.
-/

namespace LoadReplay

/-- The schemes of web servers. -/
inductive Scheme where
  | http
  | https
  deriving Repr, DecidableEq

namespace Scheme

/-- The name of a scheme. -/
def text : Scheme → String
  | http => "http"
  | https => "https"

/-- The port that is not written. -/
def usualPort : Scheme → Nat
  | http => 80
  | https => 443

end Scheme

/-- A URL of a web server. A path has at least one segment, the last one being empty when the path
ends in a slash. -/
structure Url where
  scheme : Scheme
  username : String
  password : String
  host : Url.Host
  port : Option Nat
  path : List String
  query : Option String
  fragment : Option String
  deriving Repr, DecidableEq

namespace Url

/-- The user name and password in front of a host. -/
def userinfoText (u : Url) : String :=
  let password := if u.password = "" then "" else ":" ++ u.password
  if u.username = "" ∧ u.password = "" then "" else u.username ++ password ++ "@"

/-- The port behind a host. -/
def portText (u : Url) : String :=
  match u.port with
  | some p => ":" ++ Text.ofNat p
  | none => ""

/-- The path in writing. -/
def pathText (u : Url) : String := "/" ++ "/".intercalate u.path

/-- The path and the query, as they are sent to the host. -/
def target (u : Url) : String :=
  u.pathText ++ match u.query with
    | some q => "?" ++ q
    | none => ""

/-- The host and the port. -/
def authority (u : Url) : String := u.host.text ++ u.portText

/-- The URL in writing. -/
def text (u : Url) : String :=
  u.scheme.text ++ "://" ++ u.userinfoText ++ u.authority ++ u.target ++ match u.fragment with
    | some f => "#" ++ f
    | none => ""

/-- The pairs of the query. -/
def queryPairs (u : Url) : List QueryPair :=
  match u.query with
  | some q => Query.pairs q.toList
  | none => []

/-- The URL with its query made of pairs. -/
def withQueryPairs (u : Url) (pairs : List QueryPair) : Url :=
  { u with query := some (String.ofList (Query.write pairs)) }

end Url

end LoadReplay
