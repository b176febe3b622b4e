import LoadReplay.Endpoint.Dispatch
import Mathlib.Data.List.Basic

/-!
# What an endpoint receives

Where a connection comes about, a dispatch is received as it was sent, once. Redirects make the
sender follow with the same method and body, or with a `GET` that has no body (`delivers_send`). In
sequential pacing the requests arrive in the order of the calls, in concurrent pacing in any order
(`Arrive`).
-/

namespace LoadReplay.Endpoint

/-- A request is another one that is sent again, or a `GET` without a body. -/
def Follows (later first : Request) : Prop :=
  later.method = first.method ∧ later.body = first.body ∨ later.method = "GET" ∧ later.body = []

/-- No answer is a redirect. -/
def Direct (e : Endpoint) : Prop :=
  ∀ entry ∈ e.responses, isRedirect entry.2.status = true → entry.2.location = none

instance (e : Endpoint) : Decidable e.Direct := by unfold Direct; infer_instance

/-- What is received when a request is sent to a URL. -/
structure Delivers (e : Endpoint) (url : Url) (request : Request) (received : List Request) :
    Prop where
  eq_nil : e.accepts url = false → received = []
  eq_cons : e.accepts url = true → ∃ later,
    received = { request with target := url.target } :: later ∧
      (∀ r ∈ later, Follows r request) ∧ (e.Direct → later = [])

variable {e : Endpoint} {request again later : Request}

theorem Follows.trans (h : Follows later again) (hagain : Follows again request) :
    Follows later request := by
  rcases hagain with ⟨hmethod, hbody⟩ | ⟨hmethod, hbody⟩
  · rwa [Follows, hmethod, hbody] at h
  · rcases h with ⟨hmethod', hbody'⟩ | h
    · exact .inr ⟨hmethod'.trans hmethod, hbody'.trans hbody⟩
    · exact .inr h

theorem follows_redirected (status : Nat) (sameHost : Bool) (request : Request) :
    Follows (redirected status sameHost request) request := by
  unfold redirected
  by_cases hstatus : status = 307 ∨ status = 308
  · simp only [if_pos hstatus]
    cases sameHost <;> exact .inl ⟨rfl, rfl⟩
  · simp only [if_neg hstatus]
    cases sameHost <;> exact .inr ⟨rfl, rfl⟩

theorem Direct.location_eq_none (h : e.Direct) (request : Request)
    (hstatus : isRedirect (e.responseTo request).status = true) :
    (e.responseTo request).location = none := by
  rw [responseTo] at hstatus ⊢
  split at hstatus
  · rw [if_pos ‹_›]
    rfl
  · rw [if_neg ‹_›]
    cases hbucket : bucketOf? request.body with
    | none => rfl
    | some bucket =>
      rw [hbucket, Option.bind_some] at hstatus
      rw [Option.bind_some]
      cases hlookup : e.responses.lookup bucket with
      | none => rfl
      | some response =>
        obtain ⟨before, after, hresponses, -⟩ := List.lookup_eq_some_iff.1 hlookup
        rw [hlookup, Option.getD_some] at hstatus
        have hmem : (bucket, response) ∈ e.responses := hresponses ▸ List.mem_append_cons_self
        exact h _ hmem hstatus

/-- Where no answer is a redirect, no request is redirected. -/
theorem Direct.redirection?_eq_none (h : e.Direct) (url : Url) (request : Request) :
    redirection? url (e.responseTo request) = none := by
  unfold redirection?
  split
  next hstatus => rw [h.location_eq_none request hstatus, Option.bind_none]
  next => rfl

/-! ## Exchanges -/

variable {url next : Url} {requests : List Request}

theorem Delivers.exists_first (h : Delivers e url request requests)
    (haccepts : e.accepts url = true) : ∃ first later, requests = first :: later ∧
      first.method = request.method ∧ first.body = request.body ∧
      ∀ r ∈ later, Follows r first := by
  obtain ⟨later, hrequests, hlater, -⟩ := h.eq_cons haccepts
  exact ⟨_, later, hrequests, rfl, rfl, hlater⟩

theorem Delivers.follows (h : Delivers e url request requests) :
    ∀ r ∈ requests, Follows r request := by
  cases haccepts : e.accepts url with
  | false =>
    rw [h.eq_nil haccepts]
    nofun
  | true =>
    obtain ⟨later, rfl, hlater, -⟩ := h.eq_cons haccepts
    exact List.forall_mem_cons.2 ⟨.inl ⟨rfl, rfl⟩, hlater⟩

theorem delivers_once (h : e.accepts url = true) :
    Delivers e url request [{ request with target := url.target }] where
  eq_nil hnot := absurd (h.symm.trans hnot) (by decide)
  eq_cons _ := ⟨[], rfl, nofun, fun _ => rfl⟩

theorem delivers_again (h : e.accepts url = true) (hdirect : ¬ e.Direct)
    (hagain : Follows again request) (hrequests : Delivers e next again requests) :
    Delivers e url request ({ request with target := url.target } :: requests) where
  eq_nil hnot := absurd (h.symm.trans hnot) (by decide)
  eq_cons _ := ⟨requests, rfl, fun r hr => (hrequests.follows r hr).trans hagain,
    fun hdir => absurd hdir hdirect⟩

/-- An exchange delivers its request, and after redirects those that follow it. -/
theorem delivers_exchange (e : Endpoint) (hops : Nat) (url : Url) (request : Request) :
    Delivers e url request (exchange e.accepts (fun _ => e.responseTo) hops url request).1 := by
  fun_induction exchange e.accepts (fun _ => e.responseTo) hops url request with
  | case1 hops url request haccepts => exact delivers_once haccepts
  | case2 hops url request haccepts => exact delivers_once haccepts
  | case3 hops url request haccepts => exact delivers_once haccepts
  | case4 url request haccepts => exact delivers_once haccepts
  | case5 url request haccepts => exact delivers_once haccepts
  | case6 url first haccepts request response next hops hnext again requests reply hexchange _ _
      ih =>
    rw [hexchange] at ih
    have hagain : Follows again first := follows_redirected response.status _ request
    refine delivers_again haccepts (fun hdirect => ?_) hagain ih
    exact Option.some_ne_none _ (hnext.symm.trans (hdirect.redirection?_eq_none url request))
  | case7 hops url request hnot =>
    exact ⟨fun _ => rfl, fun haccepts => absurd haccepts hnot⟩

/-- What is received of a dispatch is its request, and after redirects those that follow it. -/
theorem delivers_send (e : Endpoint) (o : ReplayOptions) (d : Departure) :
    Delivers e (withoutUser o.dispatchUrl) (requestFor o d) (e.send o d).1 :=
  delivers_exchange e ..

/-! ## Calls -/

/-- The order in which things arrive that were sent one after the other or side by side. -/
def Arrive {α : Type} (pacing : Pacing) (sent arrived : List α) : Prop :=
  match pacing with
  | .sequential => arrived = sent
  | .concurrent => arrived.Perm sent

theorem Arrive.map {α β : Type} {pacing : Pacing} {sent arrived : List α}
    (h : Arrive pacing sent arrived) (f : α → β) :
    Arrive pacing (sent.map f) (arrived.map f) := by
  cases pacing with
  | sequential => exact congrArg (List.map f) h
  | concurrent => exact List.Perm.map f h

theorem Arrive.perm {α : Type} {pacing : Pacing} {sent arrived : List α}
    (h : Arrive pacing sent arrived) : arrived.Perm sent := by
  cases pacing with
  | sequential => exact .of_eq h
  | concurrent => exact h

/-- What is received is what is received of the single calls. -/
theorem received_eq_flatten (e : Endpoint) (o : ReplayOptions) (calls : List Call) :
    received e o calls = (calls.map fun c => (e.send o c.departure).1).flatten := by
  rw [received, List.flatMap_def]

/-- An endpoint that redirects nothing receives the body of every call, once each. -/
theorem map_body_received (o : ReplayOptions) (calls : List Call) (hdirect : e.Direct)
    (haccepts : e.accepts (withoutUser o.dispatchUrl) = true) :
    (received e o calls).map (·.body) = calls.map fun c => (requestFor o c.departure).body := by
  rw [received, List.map_flatMap, List.map_eq_flatMap]
  refine List.flatMap_congr fun call _ => ?_
  obtain ⟨later, hlater, -, hnone⟩ := (delivers_send e o call.departure).eq_cons haccepts
  rw [hlater, hnone hdirect, List.map_singleton]

end LoadReplay.Endpoint
