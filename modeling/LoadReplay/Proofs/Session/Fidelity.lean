import LoadReplay.Proofs.Endpoint.Delivery
import LoadReplay.Proofs.Event.Payload
import LoadReplay.Proofs.Session.Isolation
import LoadReplay.Proofs.Trace.Source

/-!
# Faithful payloads

From the files of a trace to the requests that an endpoint receives nothing is lost or mixed up: the
body for each row, read back, is an object of five members that say what the cells of the row, the
buckets and the prompts file say (`Sent.Tells`), in the order of the rows
(`Session.payloads_faithful`). The token counts are exact, although the bucket is that of their
double, and the timestamp is the offset that the record of the row keeps.
-/

namespace LoadReplay

/-- The body that is sent for a row, and the timestamp in it. -/
structure Sent where
  timestamp : Double
  body : Bytes

/-- The body, read back, has five members: the timestamp, which is finite, the label of the row's
token count, the text of this label in the prompts file, and the two token counts. -/
structure Sent.Tells (buckets : Buckets) (prompts : Json.Value) (start scale : Double)
    (row : TraceRow) (s : Sent) : Prop where
  isFinite_timestamp : s.timestamp.isFinite = true
  timestamp_eq : s.timestamp = (row.timestamp - start) * scale
  parse_body : ∃ label prompt,
    buckets.classify (Double.ofNat row.contextTokens) = .ok label ∧
      prompts.member? label = some (.string prompt) ∧
      Json.parseBytes? s.body = some (.object
        [("timestamp", .number (.double s.timestamp)),
          ("bucket_id", .string label),
          ("prompt", .string prompt),
          ("context_tokens", .number (.whole row.contextTokens)),
          ("generated_tokens", .number (.whole row.generatedTokens))])

/-- The requests that are received for a body: a `POST` of it, and after redirects those that
follow it. -/
def Sent.Delivered (s : Sent) (requests : List Request) : Prop :=
  ∃ first later, requests = first :: later ∧ first.method = "POST" ∧ first.body = s.body ∧
    ∀ r ∈ later, Endpoint.Follows r first

/-- What an endpoint receives in a session, body by body, if connections come about. Where no
answer is a redirect, the bodies arrive once each, one after the other in sequential pacing. The
records keep the timestamps. -/
structure Session.Sends (endpoint : Endpoint) (options : ReplayOptions) (session : Session)
    (sent : List Sent) : Prop where
  received_eq_nil : endpoint.accepts (Endpoint.withoutUser options.dispatchUrl) = false →
    endpoint.received options session.calls = []
  delivered : endpoint.accepts (Endpoint.withoutUser options.dispatchUrl) = true →
    ∃ deliveries, endpoint.received options session.calls = deliveries.flatten ∧
      List.Forall₂ Sent.Delivered sent deliveries
  arrive : endpoint.accepts (Endpoint.withoutUser options.dispatchUrl) = true → endpoint.Direct →
    ∀ arrived, Endpoint.Arrive options.pacing (endpoint.received options session.calls) arrived →
      Endpoint.Arrive options.pacing (sent.map (·.body)) (arrived.map (·.body))
  offsets_eq : options.mode = .blocking →
    session.outcome.records.map (·.offset) = sent.map (·.timestamp)

namespace Replay

variable {scale : Double} {events : List Event} {ds : List Departure}

theorem map_event_departures (h : departures scale events = .ok ds) :
    ds.map (·.event) = events := by
  refine List.ext_getElem? fun i => ?_
  rw [List.getElem?_map]
  cases hd : ds[i]? with
  | some d => exact (isFor_of_departures h hd).event_eq.symm
  | none =>
    rw [List.getElem?_eq_none_iff, length_departures h] at hd
    exact (List.getElem?_eq_none hd).symm

theorem exists_isFor_of_mem (h : departures scale events = .ok ds) {d : Departure} (hd : d ∈ ds) :
    ∃ i, d.IsFor scale events i := by
  obtain ⟨i, hi⟩ := List.mem_iff_getElem?.1 hd
  exact ⟨i, isFor_of_departures h hi⟩

end Replay

theorem Departure.IsFor.isFinite_offset {scale : Double} {events : List Event} {i : Nat}
    {d : Departure} (h : d.IsFor scale events i) : d.offset.isFinite = true := by
  obtain ⟨negative, rank, heq, -⟩ := Duration.exists_of_ofSeconds? h.deadline_eq
  rw [heq]
  rfl

namespace Session

variable {events : List Event} {options : ReplayOptions} {endpoint : Endpoint}
  {cancelAt : Option Time} {session : Session}

/-- A session with an endpoint is one with its dispatcher. -/
theorem runWith_of_run {disk : Disk}
    (h : (run disk events options endpoint cancelAt).value = .ok session) :
    (runWith disk events options (endpoint.dispatcher options) cancelAt).value = .ok session ∧
      (run disk events options endpoint cancelAt).log = .starting options events.length ::
        (runWith disk events options (endpoint.dispatcher options) cancelAt).log := by
  unfold run at h ⊢
  split at h
  next => cases h
  next => cases h
  next => exact ⟨h, rfl⟩

/-- What is sent for a departure. -/
def sentFor (options : ReplayOptions) (d : Departure) : Sent :=
  ⟨d.offset, (Endpoint.requestFor options d).body⟩

theorem body_sentFor (d : Departure) :
    (sentFor options d).body = (Endpoint.requestFor options d).body := by
  rw [sentFor]

theorem delivered_sentFor (d : Departure)
    (haccepts : endpoint.accepts (Endpoint.withoutUser options.dispatchUrl) = true) :
    (sentFor options d).Delivered (endpoint.send options d).1 := by
  obtain ⟨first, later, hreceived, hmethod, hbody, hlater⟩ :=
    (endpoint.delivers_send options d).exists_first haccepts
  refine ⟨first, later, hreceived, hmethod.trans ?_, hbody.trans (body_sentFor d).symm, hlater⟩
  rw [Endpoint.requestFor]

/-- In blocking mode every departure leaves its record, with its offset. -/
theorem map_offset_recordsOf (hmode : options.mode = .blocking) (d : Departure) :
    (Sequential.recordsOf (endpoint.dispatcher options d).ending).map (·.offset) = [d.offset] := by
  rw [Endpoint.dispatcher, Client.ending_dispatcher _ hmode, Sequential.recordsOf,
    List.map_singleton, (Endpoint.isOf_measured d _ _).offset_eq]

/-- A session that is not cancelled sends the departures of its events. -/
theorem sends_departures {disk : Disk} {ds : List Departure} {f : Replay.Finished}
    (hds : Replay.departures options.scale events = .ok ds)
    (h : Replay.Chronicle options.pacing (endpoint.dispatcher options) cancelAt
      (Replay.plan options.pacing (endpoint.dispatcher options) ds) f)
    (hopen : f.outcome.cancelled = false) :
    (ofFinished disk options f).Sends endpoint options (ds.map (sentFor options)) := by
  have hcalls : f.calls.map (·.departure) = ds :=
    (congrArg _ (h.calls_eq_table hopen)).trans Replay.map_departure_plan
  have hsent : ds.map (sentFor options) = f.calls.map fun c => sentFor options c.departure := by
    rw [← hcalls, List.map_map]
    rfl
  refine ⟨fun hnot => ?_, fun haccepts => ?_, fun haccepts hdirect arrived harrived => ?_,
    fun hmode => ?_⟩
  · exact List.flatMap_eq_nil_iff.2 fun call _ =>
      (endpoint.delivers_send options call.departure).eq_nil hnot
  · refine ⟨_, endpoint.received_eq_flatten options f.calls, ?_⟩
    rw [hsent, List.forall₂_map_left_iff, List.forall₂_map_right_iff, List.forall₂_same]
    exact fun call _ => delivered_sentFor call.departure haccepts
  · have harrive := harrived.map (·.body)
    rw [Endpoint.map_body_received options _ hdirect haccepts] at harrive
    have hbodies : (f.calls.map fun c => (Endpoint.requestFor options c.departure).body) =
        (ds.map (sentFor options)).map (·.body) := by
      rw [hsent, List.map_map]
      exact List.map_congr_left fun c _ => by rw [Function.comp_apply, body_sentFor]
    rwa [← hbodies]
  · have hfaithful := (endpoint.client options).faithful_dispatcher options
    have hrecords := h.records_eq_recordsOf_calls hfaithful hds hopen
    rw [ofFinished, hrecords, Dispatcher.recordsOf_eq, hcalls, List.map_flatMap, List.map_map,
      List.map_eq_flatMap]
    exact List.flatMap_congr fun d _ => map_offset_recordsOf hmode d

section

variable {rows : List TraceRow} {buckets : Buckets} {prompts : Json.Value} {start : Double}

/-- What is sent for an event that carries a row tells this row. -/
theorem tells_sentFor {row : TraceRow} {d : Departure} {i : Nat}
    (hcarries : Trace.Carries buckets prompts start row d.event)
    (hfor : d.IsFor options.scale events i) (hreads : Json.ReadsBack d.offset) :
    (sentFor options d).Tells buckets prompts start options.scale row where
  isFinite_timestamp := hfor.isFinite_offset
  timestamp_eq := by rw [sentFor, hfor.offset_eq, hcarries.offset_eq]
  parse_body := by
    refine ⟨d.event.bucket, d.event.prompt, hcarries.classify_eq, hcarries.member?_eq, ?_⟩
    have hparse := Event.parse_requestBody hreads (Nat.le_sub_one_of_lt hcarries.contextTokens_lt)
      (Nat.le_sub_one_of_lt hcarries.generatedTokens_lt)
    rw [Event.payload, hcarries.contextTokens_eq, hcarries.generatedTokens_eq] at hparse
    rw [sentFor, Endpoint.requestFor, hparse]

/-- The bodies of the departures of loaded events tell the rows, one by one. -/
theorem tells_departures {ds : List Departure}
    (hrows : List.Forall₂ (Trace.Carries buckets prompts start) rows events)
    (hds : Replay.departures options.scale events = .ok ds)
    (hreads : ∀ event ∈ events, Json.ReadsBack (event.offset * options.scale)) :
    List.Forall₂ (Sent.Tells buckets prompts start options.scale) rows
      (ds.map (sentFor options)) := by
  rw [← Replay.map_event_departures hds, List.forall₂_map_right_iff] at hrows
  have hflip : List.Forall₂ (fun d row => Trace.Carries buckets prompts start row d.event)
      ds rows := List.Forall₂.flip hrows
  have hsent : ∀ d ∈ ds, ∃ i, d.IsFor options.scale events i ∧ Json.ReadsBack d.offset := by
    intro d hd
    obtain ⟨i, hfor⟩ := Replay.exists_isFor_of_mem hds hd
    have hmem := List.mem_of_getElem? hfor.event_eq
    exact ⟨i, hfor, hfor.offset_eq ▸ hreads d.event hmem⟩
  refine List.forall₂_map_right_iff.2 (List.Forall₂.flip ?_)
  refine ((List.forall₂_and_left ds rows).2 ⟨hsent, hflip⟩).imp fun d row h => ?_
  obtain ⟨⟨i, hfor, hread⟩, hcarries⟩ := h
  exact tells_sentFor hcarries hfor hread

end

/-- Where a trace is loaded and replayed without being cancelled, what is sent for each of the first
rows in their order tells this row, and is what an endpoint receives for it. -/
theorem payloads_faithful {disk reportDisk : Disk} {tracePath promptsPath : String}
    {choice : BucketChoice} {limit : Option Nat} {loaded : Trace.Loaded}
    (hload : (Trace.load disk tracePath promptsPath choice limit).value = .ok loaded)
    (hrun : (Session.run reportDisk loaded.events options endpoint cancelAt).value = .ok session)
    (hopen : session.outcome.cancelled = false)
    (hreads : ∀ event ∈ loaded.events, Json.ReadsBack (event.offset * options.scale)) :
    ∃ rows order buckets prompts start sent,
      Trace.Source disk tracePath promptsPath choice rows buckets prompts ∧
        Trace.Arranged rows order ∧ (order.map (·.1.timestamp)).head? = some start ∧
        List.Forall₂ (Sent.Tells buckets prompts start options.scale)
          ((order.take (limit.getD rows.length)).map (·.1)) sent ∧
        session.Sends endpoint options sent := by
  obtain ⟨rows, order, buckets, prompts, start, hsource, harranged, hstart, hcarries⟩ :=
    Trace.exists_source hload
  obtain ⟨ds, hds, rfl⟩ := exists_departures (runWith_of_run hrun).1
  exact ⟨rows, order, buckets, prompts, start, ds.map (sentFor options), hsource, harranged, hstart,
    tells_departures hcarries hds hreads,
    sends_departures hds (Replay.chronicle options.pacing _ cancelAt ds) hopen⟩

/-- An endpoint that answers every request. -/
def sampleEndpoint : Endpoint := ⟨"localhost", true, []⟩

/-- The bodies that it receives for the two rows of the sample trace. -/
def sampleBodies : List Bytes :=
  ["\x7b\"timestamp\":0.0,\"bucket_id\":\"low\",\"prompt\":\"a\",\"context_tokens\":10," ++
      "\"generated_tokens\":1\x7d",
    "\x7b\"timestamp\":1.0,\"bucket_id\":\"high\",\"prompt\":\"d\",\"context_tokens\":20," ++
      "\"generated_tokens\":2\x7d"].map fun body => Utf8.encode body.toList

/-- It answers no bucket in particular, so that what it is sent does not matter. -/
theorem transmit_sampleEndpoint (d : Departure) : sampleEndpoint.transmit reportOptions d =
    ([{ Endpoint.requestFor reportOptions d with target := reportOptions.dispatchUrl.target }],
      Endpoint.lastReply Endpoint.defaultResponse) := by
  have haccepts : sampleEndpoint.accepts (Endpoint.withoutUser reportOptions.dispatchUrl) = true := by
    decide
  have hresponse (r : Request) : sampleEndpoint.responseTo r = Endpoint.defaultResponse := by
    simp [Endpoint.responseTo, sampleEndpoint]
  rw [Endpoint.transmit, Endpoint.exchange, if_pos haccepts]
  simp only [hresponse]
  rfl

theorem client_sampleEndpoint : sampleEndpoint.client reportOptions =
    { reply := fun _ => Endpoint.lastReply Endpoint.defaultResponse
      delay := fun _ => 0 } := by
  simp only [Endpoint.client, transmit_sampleEndpoint]
  rfl

theorem bodies_sampleEndpoint {calls : List Call}
    (h : calls.map (fun c => (c.departure.event, c.departure.offset)) =
      Trace.sampleEvents.map fun event => (event, event.offset)) :
    (sampleEndpoint.received reportOptions calls).map (·.body) = sampleBodies := by
  have hone (d : Departure) : (sampleEndpoint.send reportOptions d).1.map (·.body) =
      [Utf8.encode (d.event.requestBody d.offset).toList] := by
    rw [Endpoint.send, transmit_sampleEndpoint, List.map_singleton, Endpoint.requestFor]
  -- texts are compared, since their encoding is slow to evaluate
  calc (sampleEndpoint.received reportOptions calls).map (·.body)
      = calls.map fun c =>
          Utf8.encode (c.departure.event.requestBody c.departure.offset).toList := by
        rw [Endpoint.received, List.map_flatMap, List.map_eq_flatMap]
        simp only [hone]
    _ = ((calls.map fun c => (c.departure.event, c.departure.offset)).map fun sent =>
          sent.1.requestBody sent.2).map fun text => Utf8.encode text.toList := by
        simp only [List.map_map, Function.comp_def]
    _ = sampleBodies := congrArg (List.map _) (by rw [h]; decide +kernel)

theorem payloads_faithful_sample :
    (Trace.load Trace.sampleDisk "t.csv" "p.json" (.fixed [0, 15, 100] ["low", "high"])
        none).value = .ok ⟨Trace.sampleEvents, 2, Trace.sampleBuckets.thresholds⟩ ∧
      (∀ event ∈ Trace.sampleEvents, Json.ReadsBack (event.offset * reportOptions.scale)) ∧
      ∃ session : Session,
        (Session.run .empty Trace.sampleEvents reportOptions sampleEndpoint none).value =
          .ok session ∧
        session.outcome.cancelled = false ∧
        (sampleEndpoint.received reportOptions session.calls).map (·.body) = sampleBodies ∧
        ∃ rows order buckets prompts start sent,
          Trace.Source Trace.sampleDisk "t.csv" "p.json" (.fixed [0, 15, 100] ["low", "high"])
            rows buckets prompts ∧
          Trace.Arranged rows order ∧ (order.map (·.1.timestamp)).head? = some start ∧
          List.Forall₂ (Sent.Tells buckets prompts start reportOptions.scale)
            ((order.take rows.length).map (·.1)) sent ∧
          session.Sends sampleEndpoint reportOptions sent := by
  have hload := Trace.load_sampleDisk Trace.events_sampleRows
  have hreads : ∀ event ∈ Trace.sampleEvents,
      Json.ReadsBack (event.offset * reportOptions.scale) := by decide +kernel
  have hrun : (Session.run .empty Trace.sampleEvents reportOptions sampleEndpoint
      none).value.toOption.any (fun s => decide (s.outcome.cancelled = false ∧
        s.calls.map (fun c => (c.departure.event, c.departure.offset)) =
          Trace.sampleEvents.map fun event => (event, event.offset))) = true := by
    rw [run, Endpoint.dispatcher, client_sampleEndpoint]
    decide +kernel
  refine ⟨hload, hreads, ?_⟩
  obtain ⟨session, hsession, hdone⟩ := (Option.any_eq_true _ _).1 hrun
  rw [Except.toOption_eq_some_iff] at hsession
  obtain ⟨hopen, hcalls⟩ := of_decide_eq_true hdone
  exact ⟨session, hsession, hopen, bodies_sampleEndpoint hcalls,
    payloads_faithful hload hsession hopen hreads⟩

end Session

end LoadReplay
