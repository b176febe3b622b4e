import LoadReplay.Proofs.Endpoint.Delivery
import LoadReplay.Proofs.Session.Fidelity

/-!
# The shape of records

A record is filled in stages: the status when a head arrives, the latency and what the server says
when the body is read to its end, a fault when something goes wrong on the way. `Measurement.Shaped`
says how the fields of a record depend on what arrived and on each other. All records of a session
have this shape, whatever the servers and the network do, if the client tells what arrives
(`Reply.Tells`), so that the failed ones are those with a fault (`Session.records_shaped`).
-/

namespace LoadReplay

/-- What arrives of the last response to a request: nothing, its head with a body that is not
completed, or all of it. -/
inductive Arrival where
  | nothing
  | head (status : Nat)
  | whole (status : Nat) (body : Bytes)

/-- An error of sending is not about the body of a response. -/
def ClientError.OfSending (e : ClientError) : Prop := e.kind ≠ .body ∧ e.kind ≠ .decode

/-- What a client tells of what arrives. To send fails exactly where no head arrives, and to read the
body fails exactly where it is not completed. -/
inductive Reply.Tells : Reply → Arrival → Prop where
  | nothing {e : ClientError} (h : e.OfSending) : Tells (.failed e) .nothing
  | head (status : Nat) (e : ClientError) : Tells (.answered status (.error e)) (.head status)
  | whole (status : Nat) (body : Bytes) : Tells (.answered status (.ok body)) (.whole status body)

/-- A failure to send: out of time, no connection, or a connection that breaks. -/
def DispatchFault.StopsSending (fault : DispatchFault) : Prop :=
  (∃ after, fault = .timeout after) ∨ (∃ text, fault = .connect text) ∨
    ∃ text, fault = .transport text

/-- The shape of a record, when so much arrives. -/
structure Measurement.Shaped (arrival : Arrival) (m : Measurement) : Prop where
  fault_eq_none_iff : m.fault = none ↔
    ∃ status body, arrival = .whole status body ∧ 200 ≤ status ∧ status < 300
  isSuccess_iff : m.isSuccess = true ↔ m.fault = none
  fault_eq_status_iff : ∀ code, m.fault = some (.status code) ↔
    (∃ body, arrival = .whole code body) ∧ ¬ (200 ≤ code ∧ code < 300)
  latency_iff : m.latency.isSome = true ↔ ∃ status body, arrival = .whole status body
  serverMillis_eq_some_iff : ∀ millis, m.serverMillis = some millis ↔
    ∃ status body, arrival = .whole status body ∧ Endpoint.serverMillis? body = some millis
  of_unreadable_body : ∀ status body, arrival = .whole status body →
    Endpoint.serverMillis? body = none →
      m.serverMillis = none ∧ (m.fault = none ↔ 200 ≤ status ∧ status < 300)
  latency_of_serverMillis : m.serverMillis.isSome = true → m.latency.isSome = true
  status_eq_some_iff : ∀ code, m.status = some code ↔
    arrival = .head code ∨ ∃ body, arrival = .whole code body
  status_eq_none_iff : m.status = none ↔ arrival = .nothing
  of_status_eq_none : m.status = none → m.latency = none ∧ m.serverMillis = none ∧
    ∃ fault, m.fault = some fault ∧ fault.StopsSending

/-! ## The faults of errors -/

namespace DispatchFault

variable {e : ClientError}

theorem StopsSending.ne_status {fault : DispatchFault} (h : fault.StopsSending) (code : Nat) :
    fault ≠ .status code := by
  rintro rfl
  obtain ⟨_, h⟩ | ⟨_, h⟩ | ⟨_, h⟩ := h <;> cases h

theorem stopsSending_ofClient (h : e.OfSending) (timeout : Duration) :
    (ofClient e timeout).StopsSending := by
  have hkind : ¬ (e.kind = .body ∨ e.kind = .decode) := not_or.2 h
  rw [ofClient, if_neg hkind]
  by_cases htimed : e.timedOut = true
  · exact .inl ⟨_, if_pos htimed⟩
  · rw [if_neg htimed]
    by_cases hconnecting : e.connecting = true
    · exact .inr (.inl ⟨_, if_pos hconnecting⟩)
    · exact .inr (.inr ⟨_, if_neg hconnecting⟩)

/-- An error is never taken for a status. -/
theorem ofClient_ne_status (e : ClientError) (timeout : Duration) (code : Nat) :
    ofClient e timeout ≠ .status code := by
  unfold ofClient
  split_ifs <;> nofun

end DispatchFault

/-! ## Endpoints tell what arrives -/

namespace Endpoint

theorem exists_tells_failed {e : ClientError}
    (h : e.kind = .builder ∨ e.kind = .request ∨ e.kind = .redirect) :
    ∃ arrival, (Reply.failed e).Tells arrival := by
  have hsending : e.OfSending := by
    rcases h with h | h | h <;> simp [ClientError.OfSending, h]
  exact ⟨_, .nothing hsending⟩

theorem exists_tells_lastReply (r : Response) : ∃ arrival, (lastReply r).Tells arrival := by
  rw [lastReply]
  split
  · exact ⟨_, .head _ _⟩
  · exact ⟨_, .head _ _⟩
  · exact ⟨_, .whole _ _⟩

/-- However servers respond and wherever they redirect to, an exchange ends in a failure to send or
in the arrival of a last response. -/
theorem exists_tells_exchange (reaches : Url → Bool) (respond : Url → Request → Response)
    (hops : Nat) (url : Url) (request : Request) :
    ∃ arrival, (exchange reaches respond hops url request).2.Tells arrival := by
  fun_induction exchange reaches respond hops url request with
  | case1 => exact exists_tells_failed (.inr (.inl rfl))
  | case2 => exact exists_tells_failed (.inr (.inl rfl))
  | case3 => exact exists_tells_lastReply _
  | case4 => exact exists_tells_failed (.inr (.inr rfl))
  | case5 => exact exists_tells_failed (.inl rfl)
  | case6 url first haccepts request response next hops hnext again requests reply hexchange _ _
      ih =>
    rw [hexchange] at ih
    exact ih
  | case7 => exact exists_tells_failed (.inr (.inl rfl))

/-- The client of an endpoint tells what arrives of its responses. -/
theorem exists_tells_client (e : Endpoint) (o : ReplayOptions) :
    ∃ arrival : Departure → Arrival, ∀ d, ((e.client o).reply d).Tells (arrival d) :=
  Classical.skolem.1 fun _ => exists_tells_exchange ..

end Endpoint

/-! ## The stages of a record -/

namespace Endpoint

variable {e : ClientError} {reply : Reply} {arrival : Arrival}

theorem isSuccessStatus_iff {status : Nat} :
    isSuccessStatus status = true ↔ 200 ≤ status ∧ status < 300 := by
  rw [isSuccessStatus, decide_eq_true_eq]

/-- A failure to send leaves nothing in the record but its fault. -/
theorem shaped_of_nothing (h : e.OfSending) (timeout : Duration) (d : Departure) (took : Duration) :
    (measured d took (.failed (.ofClient e timeout))).Shaped .nothing := by
  have hfault := DispatchFault.stopsSending_ofClient h timeout
  constructor <;>
    simp [measured, Measurement.ofEvent, Measurement.isSuccess, hfault, hfault.ne_status]

/-- A body that is not completed leaves the status and its fault. -/
theorem shaped_of_head (status : Nat) (e : ClientError) (timeout : Duration) (d : Departure)
    (took : Duration) :
    (measured d took (.answered status (.error (.ofClient e timeout)))).Shaped (.head status) := by
  have hfault := DispatchFault.ofClient_ne_status e timeout
  constructor <;> simp [measured, Measurement.ofEvent, Measurement.isSuccess, hfault]

section

variable {status : Nat} {body : Bytes} {d : Departure} {took : Duration}

theorem fault_measured_whole : (measured d took (.answered status (.ok body))).fault =
    if 200 ≤ status ∧ status < 300 then none else some (.status status) := by
  simp only [measured, isSuccessStatus_iff]

/-- A body that is read leaves no fault just where the status is one of success. -/
theorem fault_measured_whole_eq_none_iff :
    (measured d took (.answered status (.ok body))).fault = none ↔
      200 ≤ status ∧ status < 300 := by
  rw [fault_measured_whole]
  split_ifs with hrange <;> simp [hrange]

theorem fault_measured_whole_eq_status_iff {code : Nat} :
    (measured d took (.answered status (.ok body))).fault = some (.status code) ↔
      status = code ∧ ¬ (200 ≤ code ∧ code < 300) := by
  rw [fault_measured_whole]
  split_ifs with hrange
  · refine iff_of_false nofun ?_
    rintro ⟨rfl, hnot⟩
    exact hnot hrange
  · simp only [Option.some.injEq, DispatchFault.status.injEq]
    constructor
    · rintro rfl
      exact ⟨rfl, hrange⟩
    · exact And.left

end

/-- A body that is read leaves the status, the latency and what the server says; it is a fault when
the status is not one of success. -/
theorem shaped_of_whole (status : Nat) (body : Bytes) (d : Departure) (took : Duration) :
    (measured d took (.answered status (.ok body))).Shaped (.whole status body) where
  fault_eq_none_iff := by
    rw [fault_measured_whole_eq_none_iff]
    exact ⟨fun h => ⟨status, body, rfl, h⟩, fun ⟨_, _, harrival, h⟩ => by cases harrival; exact h⟩
  isSuccess_iff := by
    rw [Measurement.isSuccess, Bool.and_eq_true, Option.isNone_iff_eq_none, and_iff_left_iff_imp,
      fault_measured_whole_eq_none_iff, ← isSuccessStatus_iff]
    exact id
  fault_eq_status_iff code := by
    rw [fault_measured_whole_eq_status_iff, and_congr_left_iff]
    intro _
    constructor
    · rintro rfl
      exact ⟨body, rfl⟩
    · rintro ⟨_, harrival⟩
      cases harrival
      rfl
  latency_iff := iff_of_true rfl ⟨status, body, rfl⟩
  serverMillis_eq_some_iff := by simp [measured]
  of_unreadable_body := by
    rintro _ _ ⟨⟩ hbody
    exact ⟨hbody, fault_measured_whole_eq_none_iff⟩
  latency_of_serverMillis := fun _ => rfl
  status_eq_some_iff := by simp [measured]
  status_eq_none_iff := iff_of_false nofun nofun
  of_status_eq_none := nofun

theorem shaped_of_tells (h : reply.Tells arrival) (timeout : Duration) (d : Departure)
    (took : Duration) : (measured d took (reply.answer timeout)).Shaped arrival := by
  cases h with
  | nothing h => exact shaped_of_nothing h timeout d took
  | head status e => exact shaped_of_head status e timeout d took
  | whole status body => exact shaped_of_whole status body d took

end Endpoint

/-- What a dispatch measures has its shape. -/
theorem Client.shaped_of_ending {c : Client} {o : ReplayOptions} {d : Departure} {m : Measurement}
    {arrival : Arrival} (h : (c.reply d).Tells arrival)
    (hending : (c.dispatcher o d).ending = .measured m) : m.Shaped arrival := by
  cases hmode : o.mode with
  | fireAndForget =>
    rw [dispatcher, hmode] at hending
    cases hending
  | blocking =>
    obtain rfl := Ending.measured.inj ((c.ending_dispatcher hmode d).symm.trans hending)
    exact Endpoint.shaped_of_tells h o.timeout d (c.delay d)

theorem Summary.failed_eq_length_filter (o : Outcome) :
    (Summary.of o).failed = (o.records.filter fun m => !m.isSuccess).length := by
  have hlength := List.length_eq_length_filter_add (l := o.records) (·.isSuccess)
  rw [← List.countP_eq_length_filter] at hlength
  exact Nat.sub_eq_of_eq_add' hlength

/-- Where success and a missing fault are the same, the failed records are those with a fault. -/
theorem Summary.failed_eq_countP {o : Outcome}
    (h : ∀ m ∈ o.records, (m.isSuccess = true ↔ m.fault = none)) :
    (Summary.of o).failed = o.records.countP (·.fault.isSome) := by
  rw [failed_eq_length_filter, ← List.countP_eq_length_filter]
  refine List.countP_congr fun m hm => ?_
  rw [Bool.not_eq_true', ← Bool.not_eq_true, h m hm, Option.isSome_iff_ne_none]

namespace Session

/-- Every record of a session is that of a call, with the shape that the arrival gives it. -/
theorem shaped_of_mem_records {disk : Disk} {events : List Event} {options : ReplayOptions}
    {client : Client} {arrival : Departure → Arrival}
    (h : ∀ d, (client.reply d).Tells (arrival d)) {cancelAt : Option Time} {session : Session}
    (hrun : (runWith disk events options (client.dispatcher options) cancelAt).value = .ok session)
    {m : Measurement} (hm : m ∈ session.outcome.records) :
    ∃ call ∈ session.calls, m.IsOf call.departure ∧ m.Shaped (arrival call.departure) := by
  obtain ⟨ds, hds, rfl⟩ := exists_departures hrun
  have hchronicle := Replay.chronicle options.pacing (client.dispatcher options) cancelAt ds
  have hfaithful := client.faithful_dispatcher options
  obtain ⟨call, hcall, -, hending⟩ := (hchronicle.mem_records hfaithful hds).1 hm
  exact ⟨call, hcall, hfaithful _ m hending, Client.shaped_of_ending (h call.departure) hending⟩

/-- Where a client tells what arrives, every record has the shape that the arrival gives it, and the
failed records of a session are those with a fault. -/
theorem records_shaped (options : ReplayOptions) (client : Client) (arrival : Departure → Arrival)
    (h : ∀ d, (client.reply d).Tells (arrival d)) :
    (options.mode = .blocking → ∀ d, ∃ m,
      (client.dispatcher options d).ending = .measured m ∧ m.IsOf d ∧ m.Shaped (arrival d)) ∧
    ∀ disk events cancelAt session,
      (runWith disk events options (client.dispatcher options) cancelAt).value = .ok session →
        (∀ m ∈ session.outcome.records, ∃ call ∈ session.calls, m.IsOf call.departure ∧
          m.Shaped (arrival call.departure)) ∧
        session.summary.failed = session.outcome.records.countP (·.fault.isSome) := by
  constructor
  · intro hmode d
    have hending := client.ending_dispatcher hmode d
    exact ⟨_, hending, Endpoint.isOf_measured d _ _, Client.shaped_of_ending (h d) hending⟩
  · intro disk events cancelAt session hrun
    obtain ⟨_, _, rfl⟩ := exists_departures hrun
    refine ⟨fun m hm => shaped_of_mem_records h hrun hm, Summary.failed_eq_countP fun m hm => ?_⟩
    obtain ⟨call, -, -, hshaped⟩ := shaped_of_mem_records h hrun hm
    exact hshaped.isSuccess_iff

/-- A server that answers the first request with an error and breaks off its answer to the second
one, after which it cannot be connected to any more. -/
def failingClient : Client :=
  { reply := fun d =>
      match d.index with
      | 0 => .answered 500 (.ok (Utf8.encode "\x7b\"duration\":7\x7d".toList))
      | 1 => .answered 200 (.error Endpoint.bodyError)
      | _ =>
        .failed
          { kind := .request
            timedOut := false
            connecting := true
            text := "refused" }
    delay := fun _ => 2000000 }

/-- What arrives of its answers. -/
def failingArrival (d : Departure) : Arrival :=
  match d.index with
  | 0 => .whole 500 (Utf8.encode "\x7b\"duration\":7\x7d".toList)
  | 1 => .head 200
  | _ => .nothing

theorem tells_failingClient (d : Departure) :
    (failingClient.reply d).Tells (failingArrival d) := by
  simp only [failingClient, failingArrival]
  split
  · exact .whole _ _
  · exact .head _ _
  · exact .nothing ⟨by decide, by decide⟩

/-- Three requests fail in three ways: of the first the latency is known, of the second the status,
and of the third neither. -/
theorem records_shaped_sample :
    (∀ d, (failingClient.reply d).Tells (failingArrival d)) ∧
      ∃ session : Session,
        (runWith .empty Replay.sampleEvents reportOptions (failingClient.dispatcher reportOptions)
            none).value = .ok session ∧
          session.outcome.records.map (·.status) = [some 500, some 200, none] ∧
          session.outcome.records.map (·.latency.isSome) = [true, false, false] ∧
          session.summary.failed = 3 ∧
          session.outcome.records.countP (·.fault.isSome) = 3 ∧
          ∀ m ∈ session.outcome.records, ∃ call ∈ session.calls, m.IsOf call.departure ∧
            m.Shaped (failingArrival call.departure) := by
  have hrun : (runWith .empty Replay.sampleEvents reportOptions
      (failingClient.dispatcher reportOptions) none).value.toOption.any (fun s => decide
        (s.outcome.records.map (·.status) = [some 500, some 200, none] ∧
          s.outcome.records.map (·.latency.isSome) = [true, false, false] ∧
          s.summary.failed = 3)) = true := by
    decide +kernel
  refine ⟨tells_failingClient, ?_⟩
  obtain ⟨session, hsession, hdone⟩ := (Option.any_eq_true _ _).1 hrun
  rw [Except.toOption_eq_some_iff] at hsession
  obtain ⟨hstatus, hlatency, hfailed⟩ := of_decide_eq_true hdone
  obtain ⟨-, hshaped⟩ := records_shaped reportOptions failingClient failingArrival
    tells_failingClient
  obtain ⟨hrecords, hcount⟩ := hshaped _ _ _ _ hsession
  exact ⟨session, hsession, hstatus, hlatency, hfailed, hcount.symm.trans hfailed, hrecords⟩

end Session

end LoadReplay
