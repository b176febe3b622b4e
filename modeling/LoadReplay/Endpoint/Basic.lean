import LoadReplay.Endpoint.Client
import LoadReplay.Json.Parser
import LoadReplay.Settings.Options
import LoadReplay.Text.Base64

/-!
# Endpoints

What becomes of a request that is sent to a URL: which requests are received and what the client
tells in the end (`exchange`), given which URLs can be connected to and how requests are responded
to. A server may also close the connection, never answer, or stop in the middle of a body. The
client follows redirects, as a `GET` without a body where the status asks for that. An `Endpoint` is
a server that listens at an address, or does not, and responds by the bucket in the body.
-/

namespace LoadReplay

/-- A request as an endpoint receives it. -/
structure Request where
  method : String
  target : String
  authorization : Option String
  contentType : Option String
  body : Bytes
  deriving Repr, DecidableEq

/-- How a server treats a connection: it responds in full, closes it or falls silent before the
head, or closes it or falls silent in the middle of the body. -/
inductive Manner where
  | answer
  | close
  | hang
  | truncate
  | stall
  deriving Repr, DecidableEq

/-- What a server responds. -/
structure Response where
  status : Nat
  body : Bytes
  location : Option String
  manner : Manner
  deriving Repr, DecidableEq

/-- An endpoint with its answers by bucket. -/
structure Endpoint where
  address : String
  listening : Bool
  responses : List (String × Response)
  deriving Repr, DecidableEq

namespace Endpoint

/-- The answer where nothing else is said. -/
def defaultResponse : Response :=
  { status := 200, body := Utf8.encode "\x7b\"duration\":7\x7d".toList, location := none
    manner := .answer }

/-- Where the targets of redirects start. -/
def redirectedPath : String := "/redirected"

/-- The bucket in the body of a request. -/
def bucketOf? (body : Bytes) : Option String :=
  ((Json.parseBytes? body).bind (·.member? "bucket_id")).bind (·.string?)

/-- The answer to a request. -/
def responseTo (e : Endpoint) (r : Request) : Response :=
  if r.target.startsWith redirectedPath then defaultResponse
  else ((bucketOf? r.body).bind fun bucket => e.responses.lookup bucket).getD defaultResponse

/-- Whether a connection to the host of a URL comes about. -/
def accepts (e : Endpoint) (url : Url) : Bool :=
  e.listening && decide (url.scheme = .http ∧ url.authority = e.address)

/-- Whether a status is one of a redirect. -/
def isRedirect (status : Nat) : Bool := [301, 302, 303, 307, 308].contains status

/-- Where a response redirects the client to, if it does. -/
def redirection? (url : Url) (r : Response) : Option Reference :=
  if isRedirect r.status then r.location.bind fun location => (url.join location).toOption else none

/-- Whether two URLs have the same host and port. -/
def sameHost (a b : Url) : Bool :=
  decide (a.host = b.host ∧ a.port.getD a.scheme.usualPort = b.port.getD b.scheme.usualPort)

/-- The request after a redirect with a status. The method and the body stay with 307 and 308, the
user and key with the host. -/
def redirected (status : Nat) (sameHost : Bool) (r : Request) : Request :=
  let again :=
    if status = 307 ∨ status = 308 then r
    else { r with method := "GET", contentType := none, body := [] }
  if sameHost then again else { again with authorization := none }

/-- How many redirects are followed. -/
def maxRedirects : Nat := 10

/-- An error of sending a request to a URL. -/
def sendError (url : Url) : ClientError :=
  { kind := .request
    timedOut := false
    connecting := false
    text := s!"error sending request for url ({url.text})" }

/-- The error where there are too many redirects. -/
def redirectError (url : Url) : ClientError :=
  { sendError url with
    kind := .redirect
    text := s!"error following redirect for url ({url.text})" }

/-- The error where a redirect does not lead to a web server. -/
def schemeError : ClientError :=
  { kind := .builder
    timedOut := false
    connecting := false
    text := "builder error" }

/-- The error of a body that is not completed. -/
def bodyError : ClientError :=
  { kind := .decode
    timedOut := false
    connecting := false
    text := "error decoding response body" }

/-- What a client tells of a response that it is not redirected by. -/
def lastReply (r : Response) : Reply :=
  .answered r.status <| match r.manner with
    | .truncate => .error bodyError
    | .stall => .error { bodyError with timedOut := true }
    | _ => .ok r.body

/-- The requests that are received when one is sent to a URL, and what the client tells in the end.
Connections come about where `reaches` says so, and `respond` tells the response to a request to a
URL; at most `hops` redirects are followed. -/
def exchange (reaches : Url → Bool) (respond : Url → Request → Response) :
    Nat → Url → Request → List Request × Reply
  | hops, url, request =>
    if reaches url then
      let request := { request with target := url.target }
      let response := respond url request
      match response.manner with
      | .close => ([request], .failed (sendError url))
      | .hang => ([request], .failed { sendError url with timedOut := true })
      | _ =>
        match redirection? url response, hops with
        | none, _ => ([request], lastReply response)
        | some _, 0 => ([request], .failed (redirectError url))
        | some (.other _), _ + 1 => ([request], .failed schemeError)
        | some (.web next), hops + 1 =>
          let again := redirected response.status (sameHost url next) request
          let (requests, reply) := exchange reaches respond hops next again
          (request :: requests, reply)
    else ([], .failed { sendError url with connecting := true })

end Endpoint

end LoadReplay
