import LoadReplay.Replay.Basic

/-!
# Concurrent pacing

Every dispatch is handed over when its deadline has come, whatever the others do. Handed over
dispatches start in order as soon as the replay waits, for a deadline or for the end of the last
one; between two looks at the cancellation up to `turnSize` of them start. A dispatch that has ended
is noticed before the next one is handed over and while the replay waits for the last ones; only
then is it logged that it panicked. A cancelled replay starts nothing more and keeps the records of
the dispatches that have ended.
-/

namespace LoadReplay.Concurrent

/-- How many dispatches start before the cancellation is looked at again. -/
def turnSize : Nat := 61

/-- A dispatch that was started, with the time at which it ends. -/
structure Flight where
  departure : Departure
  reaction : Reaction
  ends : Time
  deriving Repr, DecidableEq

/-- A replay under way: its course, the departures handed over but not started, the flights not yet
noticed to have ended, those that were, and the greatest number of dispatches handed over and not
noticed to have ended. -/
structure State where
  course : Course
  queue : List Departure
  flying : List Flight
  landed : List Flight
  maxInflight : Nat
  deriving Repr, DecidableEq

namespace State

/-- The state before anything is dispatched. -/
def start (cancelAt : Option Time) : State :=
  { course := Course.start cancelAt, queue := [], flying := [], landed := [], maxInflight := 0 }

/-- Starts a departure; it has ended at once if it takes no time. -/
def launch (dispatcher : Dispatcher) (s : State) (d : Departure) : State :=
  let r := dispatcher d
  let c := s.course.calling d r
  let ends := if r.delay = 0 then c.now else Time.wake (c.now + r.delay)
  { s with
    course := if r.delay = 0 then c.logging r.log else c
    flying := s.flying ++ [⟨d, r, ends⟩] }

/-- Starts the departures of one turn. -/
def turn (dispatcher : Dispatcher) (s : State) : State :=
  (s.queue.take turnSize).foldl (launch dispatcher) { s with queue := s.queue.drop turnSize }

/-- The flights that have ended by the current time. -/
def ended (s : State) : List Flight := s.flying.filter fun f => decide (f.ends ≤ s.course.now)

/-- Notices the flights that have ended and logs those that panicked. -/
def land (s : State) : State :=
  let panics := s.ended.filter fun f => decide (f.reaction.ending = .panicked)
  { s with
    course := s.course.logging (panics.map fun _ => .panicked)
    flying := s.flying.filter fun f => !decide (f.ends ≤ s.course.now)
    landed := s.landed ++ s.ended }

/-- Lets the time pass; the flights that end meanwhile log what they have to. -/
def advance (s : State) (t : Time) : State :=
  let ending := s.flying.filter fun f => decide (s.course.now < f.ends ∧ f.ends ≤ t)
  let inOrder := ending.mergeSort fun f g => decide (f.ends ≤ g.ends)
  { s with course := { s.course.logging (inOrder.flatMap (·.reaction.log)) with now := t } }

theorem queue_foldl_launch (dispatcher : Dispatcher) (ds : List Departure) (s : State) :
    (ds.foldl (launch dispatcher) s).queue = s.queue := by
  induction ds generalizing s with
  | nil => rfl
  | cons d ds ih => rw [List.foldl_cons, ih]; rfl

theorem length_queue_turn_lt (dispatcher : Dispatcher) {s : State} (h : s.queue ≠ []) :
    (turn dispatcher s).queue.length < s.queue.length := by
  have := List.length_pos_iff.2 h
  simp only [turn, queue_foldl_launch, List.length_drop, turnSize]
  omega

/-- Starts what was handed over, turn by turn, until all is started or the replay is cancelled;
`landing` tells whether the replay waits for flights to end meanwhile. -/
def launchAll (dispatcher : Dispatcher) (landing : Bool) (s : State) : State :=
  if h : s.queue = [] then s
  else
    let next := turn dispatcher s
    if next.course.isCancelled then next
    else
      have : (if landing then next.land else next).queue.length < s.queue.length := by
        have := length_queue_turn_lt dispatcher h
        cases landing <;> simpa [land] using this
      launchAll dispatcher landing (if landing then next.land else next)
termination_by s.queue.length

/-- Waits for a deadline; `false` when the replay is cancelled before it. -/
def wait (dispatcher : Dispatcher) (s : State) (deadline : Time) : State × Bool :=
  if s.course.isCancelled then (s, false)
  else if s.course.now < deadline then
    let s := launchAll dispatcher false s
    match s.course.cancelledBy (Time.wake deadline) with
    | some t => (s.advance t, false)
    | none =>
      let s := s.advance (Time.wake deadline)
      ({ s with course := s.course.lagging deadline }, true)
  else ({ s with course := s.course.lagging deadline }, true)

/-- Hands over a departure whose deadline has come. -/
def handOver (total : Nat) (s : State) (d : Departure) : State :=
  let s := s.land
  let dispatched := s.course.dispatched + 1
  let queue := s.queue ++ [d]
  { s with
    course := { s.course with dispatched }.logging (progressLog dispatched total)
    queue
    maxInflight := max s.maxInflight (queue.length + s.flying.length) }

/-- Hands over departures in order; the flag tells whether the replay was cancelled. -/
def handOverAll (dispatcher : Dispatcher) (total : Nat) : State → List Departure → State × Bool
  | s, [] => (s, false)
  | s, d :: ds =>
    match wait dispatcher s d.deadline with
    | (s, false) => (s, true)
    | (s, true) => handOverAll dispatcher total (handOver total s d) ds

/-- The times at which flights are still to end, each once and in order. -/
def endings (s : State) : List Time :=
  ((s.flying.map (·.ends)).filter (s.course.now < ·)).mergeSort.eraseDups

/-- Waits for the end of all flights; the flag tells whether the replay was cancelled before. -/
def drain (dispatcher : Dispatcher) (s : State) : State × Bool :=
  if s.course.isCancelled then (s, true)
  else
    let s := launchAll dispatcher true s.land
    if s.course.isCancelled then (s, true)
    else
      let s := s.land
      let times := s.endings
      let pass (s : State) (t : Time) : State := (s.advance t).land
      match s.course.cancelledBy (times.getLastD s.course.now) with
      | some t => (((times.filter (· < t)).foldl pass s).advance t, true)
      | none => (times.foldl pass s, false)

/-- The records of the flights that have ended, in the order of the events. -/
def records (s : State) : List Measurement :=
  let done := (s.landed ++ s.ended).filterMap fun f =>
    match f.reaction.ending with
    | .measured record => some record
    | _ => none
  done.mergeSort fun a b => decide (a.index ≤ b.index)

end State

/-- Dispatches departures and waits for their end; the flag tells whether the replay was
cancelled. -/
def run (dispatcher : Dispatcher) (total : Nat) (cancelAt : Option Time)
    (departures : List Departure) : State × Bool :=
  match State.handOverAll dispatcher total (.start cancelAt) departures with
  | (s, true) => (s, true)
  | (s, false) => s.drain dispatcher

end LoadReplay.Concurrent
