import LoadReplay.Endpoint.Basic
import LoadReplay.Replay.Basic

/-!
# Dispatching by HTTP

Every event is sent as a `POST` with a body in JSON. In blocking mode the answer is measured: a
failure to send, a body that is not completed and a status outside those of success each leave a
fault in the measurement and one warning in the log. In the other mode there is only the warning.
-/

namespace LoadReplay

namespace Endpoint

/-- The user and key in a URL. -/
def urlAuth (url : Url) : Option BasicAuth :=
  let decoded (s : String) : String :=
    String.ofList (Utf8.decodeLossy (Url.percentDecode (Utf8.encode s.toList)))
  if url.username = "" ∧ url.password = "" then none
  else some ⟨decoded url.username, decoded url.password⟩

/-- The header that authenticates a user. -/
def authorization (a : BasicAuth) : String :=
  "Basic " ++ String.ofList (Base64.encode (Utf8.encode (a.user ++ ":" ++ a.key).toList))

/-- The request for an event. -/
def requestFor (o : ReplayOptions) (d : Departure) : Request :=
  { method := "POST"
    target := o.dispatchUrl.target
    authorization := ((urlAuth o.dispatchUrl).or o.auth).map authorization
    contentType := some "application/json"
    body := Utf8.encode (d.event.requestBody d.offset).toList }

/-- A URL without its user and password, which are sent in a header. -/
def withoutUser (url : Url) : Url := { url with username := "", password := "" }

/-- What is received when an event is sent, and what the client tells. -/
def transmit (e : Endpoint) (o : ReplayOptions) (d : Departure) : List Request × Reply :=
  exchange e.accepts (fun _ => e.responseTo) maxRedirects (withoutUser o.dispatchUrl)
    (requestFor o d)

/-- What is received and answered when an event is sent. -/
def send (e : Endpoint) (o : ReplayOptions) (d : Departure) : List Request × Answer :=
  let (requests, reply) := e.transmit o d
  (requests, reply.answer o.timeout)

/-- The duration that the server tells in a body, in milliseconds. -/
def serverMillis? (body : Bytes) : Option Double := do
  let value ← Json.parseBytes? body
  let member ← value.member? "duration"
  (← member.number?).toDouble

/-- What is logged when nobody waits for the answer. -/
def fireLog (index : Nat) : Answer → List LogEntry
  | .failed fault => [.requestFailed index fault]
  | .answered status _ => if isSuccessStatus status then [] else [.rejected index status]

/-- The measurement of an answer that took so long. -/
def measured (d : Departure) (took : Duration) (answer : Answer) : Measurement :=
  let blank := Measurement.ofEvent d.index d.offset d.event
  match answer with
  | .failed fault => { blank with fault := some fault }
  | .answered status (.error fault) => { blank with status := some status, fault := some fault }
  | .answered status (.ok body) =>
    { blank with
      status := some status
      latency := some took
      serverMillis := serverMillis? body
      fault := if isSuccessStatus status then none else some (.status status) }

/-- What is logged when an answer is measured. -/
def measureLog (index : Nat) : Answer → List LogEntry
  | .failed fault => [.requestFailed index fault]
  | .answered status (.error fault) => [.bodyFailed index status fault]
  | .answered status (.ok _) => if isSuccessStatus status then [] else [.rejected index status]

/-- What is logged about an answer. -/
def answerLog (mode : Mode) (index : Nat) (answer : Answer) : List LogEntry :=
  match mode with
  | .fireAndForget => fireLog index answer
  | .blocking => measureLog index answer

/-- What the dispatch of an event does when it is told what each is answered, and how long that
takes. -/
def answering (mode : Mode) (answer : Departure → Answer) (delay : Departure → Duration) :
    Dispatcher := fun d =>
  { delay := delay d
    cancels := false
    ending := match mode with
      | .fireAndForget => .nothing
      | .blocking => .measured (measured d (delay d) (answer d))
    log := answerLog mode d.index (answer d) }

end Endpoint

/-- What the dispatch of an event does with a client. -/
def Client.dispatcher (c : Client) (o : ReplayOptions) : Dispatcher :=
  Endpoint.answering o.mode (fun d => (c.reply d).answer o.timeout) c.delay

namespace Endpoint

/-- The client of an endpoint. -/
def client (e : Endpoint) (o : ReplayOptions) : Client :=
  { reply := fun d => (e.transmit o d).2
    delay := fun d => (e.transmit o d).2.delay o.mode o.timeout }

/-- What the dispatch of an event to an endpoint does. -/
def dispatcher (e : Endpoint) (o : ReplayOptions) : Dispatcher := (e.client o).dispatcher o

/-- The requests that an endpoint receives from calls. -/
def received (e : Endpoint) (o : ReplayOptions) (calls : List Call) : List Request :=
  calls.flatMap fun c => (e.send o c.departure).1

end Endpoint

end LoadReplay
