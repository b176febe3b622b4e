import LoadReplay.Error
import LoadReplay.Replay.Basic

/-!
# Clients

What an HTTP client tells of a request. It fails to send it, or it gets the head of the last
response and then its body, unless the body cannot be completed. Which fault an error is depends on
what it goes back to and on its kind (`DispatchFault.ofClient`).
-/

namespace LoadReplay

/-- What a client was about when an error came up. -/
inductive ClientErrorKind where
  | builder
  | request
  | redirect
  | status
  | body
  | decode
  | upgrade
  deriving Repr, DecidableEq

/-- An error of a client: its kind, whether it goes back to a timeout or to a connection that did
not come about, and its text. -/
structure ClientError where
  kind : ClientErrorKind
  timedOut : Bool
  connecting : Bool
  text : String
  deriving Repr, DecidableEq

/-- The fault that an error of a client with a timeout is. -/
def DispatchFault.ofClient (e : ClientError) (timeout : Duration) : DispatchFault :=
  if e.timedOut then .timeout timeout
  else if e.connecting then .connect e.text
  else if e.kind = .body ∨ e.kind = .decode then .body e.text
  else .transport e.text

/-- What a client tells: an error of sending, or the status in the head of a response and its body,
with an error where that cannot be completed. -/
inductive Reply where
  | failed (error : ClientError)
  | answered (status : Nat) (body : Except ClientError Bytes)
  deriving Repr

/-- What a dispatch takes from a reply: the fault of a request that failed, or a status and a body
that may have a fault. -/
inductive Answer where
  | failed (fault : DispatchFault)
  | answered (status : Nat) (body : Except DispatchFault Bytes)
  deriving Repr

namespace Reply

/-- The answer in the reply of a client with a timeout. -/
def answer (timeout : Duration) : Reply → Answer
  | failed e => .failed (.ofClient e timeout)
  | answered status body => .answered status (body.mapError (.ofClient · timeout))

/-- How long it takes until nothing more is waited for: only what never comes takes time. A body is
waited for in blocking mode. -/
def delay (mode : Mode) (timeout : Duration) : Reply → Duration
  | failed e => if e.timedOut then timeout else 0
  | answered _ (.error e) => if e.timedOut ∧ mode = .blocking then timeout else 0
  | answered _ (.ok _) => 0

end Reply

/-- A client: what it tells of the request for a departure, and how long it waits for it. -/
structure Client where
  reply : Departure → Reply
  delay : Departure → Duration

end LoadReplay
